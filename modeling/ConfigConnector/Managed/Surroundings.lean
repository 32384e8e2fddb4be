import ConfigConnector.Actuation.Mode
import ConfigConnector.Actuation.Skip

/- What the Terraform and the DCL controllers have in common: what they ask besides
the API server, and the parts of a reconcile that both run. -/
namespace ConfigConnector.Managed

open Interact K8s Actuation
open Lifecycle (Result Watch)

variable {σ τ : Type}

structure GroupVersionKind where
  group : String
  version : String
  kind : String
  deriving DecidableEq, Repr

def GroupVersionKind.text (gvk : GroupVersionKind) : String :=
  gvk.group ++ "/" ++ gvk.version ++ ", Kind=" ++ gvk.kind

def namespacedName (m : ObjectMeta) : String := m.ns ++ "/" ++ m.name

/-- The parts of a `ResourceConfig` and of the schema of a kind that the controllers
branch on. -/
structure ResourceConfig where
  skipImport : Bool
  unreadable : Bool
  hasServerGeneratedIDField : Bool
  allTopLevelFieldsAreImmutableOrComputed : Bool
  hasMutableButUnreadableFields : Bool
  hasSensitiveFields : Bool
  deriving DecidableEq, Repr

/-- A `terraform.InstanceState`; the attributes are not looked at. -/
structure InstanceState where
  id : String
  deriving DecidableEq, Repr

def InstanceState.isEmpty (state : InstanceState) : Bool := state.id == ""

/-- A `terraform.InstanceDiff`. -/
structure InstanceDiff where
  isEmpty : Bool
  requiresNew : Bool
  immutableFields : List String
  deriving DecidableEq, Repr

/-- What the spec has under the key of a parent reference. -/
inductive ParentReference where
  | absent
  | unrecognized
  | resource (isExternal : Bool)
  deriving DecidableEq, Repr

/-- The parent object of a resource. -/
structure Parent where
  kind : String
  object : Resource Unit Unit
  deriving DecidableEq

/-- What the controllers ask besides the API server. Transformations of a kind are
asked for the spec and for the fields of the status that they leave. -/
inductive Query (σ τ : Type) where
  | getServiceMapping
  /-- The value a defaulter has for the state-into-spec annotation, if it sets it. -/
  | applyDefaults
  | newResource
  /-- The value of the management-conflict annotation, if it has to be defaulted. -/
  | managementConflictPolicy
  | hierarchicalReference
  /-- Which containers and which hierarchical references the DCL metadata has. -/
  | containersForGVK
  | hierarchicalReferencesForGVK
  | fetchLiveKCCState
  | jitteredReenqueue
  | preActuationTransform
  | postActuationTransform
  | selfLinkAsID
  | parentConfigs
  | parentReference (key : String)
  | getReferencedResource (key : String)
  | isLeasable
  /-- The labels of the object once the lease is held. -/
  | softObtain
  /-- Start to wait for the resource that an error names. -/
  | watch (err : GoError)
  | mutableButUnreadableFields
  | observedSecretVersions
  /- The Terraform provider. The two queries that compare and apply the desired state
  name the object as it was read, and as it is in memory. -/
  | getImportID
  | importState (id : String)
  | presetFieldsForRead (state : InstanceState)
  | refresh (state : InstanceState)
  | getServerGeneratedID
  | resourceConfigFull
  | preTerraformApply
  | diff (original r : Resource σ τ)
  | apply (original r : Resource σ τ)
  | destroy
  | resolveSpecAndStatus (state : InstanceState)

def Query.Answer {σ τ : Type} : Query σ τ → Type
  | .applyDefaults | .managementConflictPolicy => Except GoError (Option String)
  | .newResource => Except GoError ResourceConfig
  | .hierarchicalReference => Except GoError σ
  | .fetchLiveKCCState => Except GoError (ConfigConnectorSpec × ConfigConnectorContextSpec)
  | .preActuationTransform | .postActuationTransform => Except GoError (σ × τ)
  | .selfLinkAsID | .getImportID | .getServerGeneratedID => Except GoError String
  | .parentConfigs => Except GoError (List String)
  | .parentReference _ => ParentReference
  | .getReferencedResource _ => Except GoError Parent
  | .isLeasable => Except GoError Bool
  | .softObtain => Except GoError StringMap
  | .watch _ => Watch
  | .mutableButUnreadableFields | .observedSecretVersions => Except GoError String
  | .importState _ => Except GoError (List InstanceState)
  | .presetFieldsForRead _ | .refresh _ | .apply _ _ => Except GoError InstanceState
  | .diff _ _ => Except GoError InstanceDiff
  | .resolveSpecAndStatus _ => σ × τ
  | _ => Except GoError Unit

abbrev S (σ τ : Type) : Signature := calls σ τ (Query.Answer (σ := σ) (τ := τ))

def ask (q : Query σ τ) : Prog (S σ τ) q.Answer := Prog.perform (S := S σ τ) (.ask q)

variable (r : Resource σ τ)

section Metadata

def managementConflictAnnotation : String :=
  "cnrm.cloud.google.com/management-conflict-prevention-policy"
def mutableButUnreadableFieldsAnnotation : String :=
  "cnrm.cloud.google.com/mutable-but-unreadable-fields"
def observedSecretVersionsAnnotation : String := "cnrm.cloud.google.com/observed-secret-versions"

/-- `types.MergePatchType`. -/
def mergePatchType : String := "application/merge-patch+json"

/-- `strings.Contains`. -/
def containsText (s substr : String) : Bool := decide (substr.toList <:+: s.toList)

/-- An object that has no managed fields is patched twice so that it gets them. -/
def triggerManagedFieldsMetadata (u : Resource σ τ) :
    Prog (S σ τ) (Except GoError (Resource σ τ)) := do
  if u.metadata.managedFields.length > 0 then return .ok u
  else
    let patched : Except GoError (Resource σ τ) ← Prog.perform (S := S σ τ) (.patchSSA true)
    match patched with
    | .error err =>
      -- The API server does not know the patch type, and the object stays as it was read.
      if containsText err.error mergePatchType then return .ok u
      else return .error (.wrap "error patching SSA metadata annotation" err)
    | .ok _ =>
      let removed : Except GoError (Resource σ τ) ← Prog.perform (S := S σ τ) (.patchSSA false)
      match removed with
      | .error err => return .error (.wrap "error removing SSA metadata annotation" err)
      | .ok patchU => return .ok patchU

/-- What a plain `Update` leaves in memory; `none` is an object of kind `Status`. -/
def received : Reply σ τ → Except GoError (Option (Resource σ τ))
  | .error err => .error (.wrap "applying update after setting defaults" err)
  | .status _ => .ok none
  | .object u => .ok (some u)

def handleDefaults (controller : String) (u : Resource σ τ) :
    Prog (S σ τ) (Except GoError (Option (Resource σ τ))) := do
  let defaults : Except GoError (Option String) ← ask .applyDefaults
  match defaults with
  | .error err =>
    return .error (.wrap ("applying defaults in the " ++ controller ++ " controller") err)
  | .ok none => return .ok (some u)
  | .ok (some value) =>
    let reply : Reply σ τ ← Prog.perform (S := S σ τ) (.update
      { u with metadata := u.metadata.setAnnotation stateIntoSpecAnnotation value })
    return received reply

/-- `EnsureHierarchicalReference`. -/
def ensureHierarchicalReference : Prog (S σ τ) (Except GoError (Resource σ τ)) := do
  let found : Except GoError σ ← ask .hierarchicalReference
  match found with
  | .error err =>
    return .error (.wrap ("error ensuring resource '" ++ namespacedName r.metadata ++
      "' has a hierarchical reference") err)
  | .ok spec => return .ok { r with spec }

/-- The annotation with a new value, or without one. -/
def annotate (key : String) : Option String → Resource σ τ
  | some value => { r with metadata := r.metadata.setAnnotation key value }
  | none => { r with metadata :=
      { r.metadata with annotations := r.metadata.annotations.erase key } }

def updateMutableButUnreadableFieldsAnnotationFor (config : ResourceConfig) (r : Resource σ τ) :
    Prog (S σ τ) (Except GoError (Resource σ τ)) := do
  if config.hasMutableButUnreadableFields then
    let value : Except GoError String ← ask .mutableButUnreadableFields
    match value with
    | .error err =>
      return .error (.wrap ("error constructing value for " ++
        mutableButUnreadableFieldsAnnotation) err)
    | .ok value => return .ok (annotate r mutableButUnreadableFieldsAnnotation (some value))
  else return .ok (annotate r mutableButUnreadableFieldsAnnotation none)

def updateObservedSecretVersionsAnnotationFor (config : ResourceConfig) (r : Resource σ τ) :
    Prog (S σ τ) (Except GoError (Resource σ τ)) := do
  if config.hasSensitiveFields then
    let value : Except GoError String ← ask .observedSecretVersions
    match value with
    | .error err => return .error err
    | .ok value => return .ok (annotate r observedSecretVersionsAnnotation (some value))
  else return .ok (annotate r observedSecretVersionsAnnotation none)

end Metadata

section Parents

def referenceNotReady (parent : Parent) : GoError :=
  .leaf .referenceNotReady ("reference " ++ parent.kind ++ " " ++
    namespacedName parent.object.metadata ++ " is not ready")

/-- `IsOrphaned`: the first parent reference that the spec has decides. The second
part of an answer is the parent object, where there is one. -/
def isOrphaned : List String → Prog (S σ τ) (Except GoError (Bool × Option Parent))
  | [] => return .error (.plain "no parent reference found in resource")
  | key :: rest => do
    let reference : ParentReference ← ask (.parentReference key)
    match reference with
    | .absent => isOrphaned rest
    | .unrecognized =>
      return .error (.plain ("'spec." ++ key ++ "' is an unrecognized format"))
    | .resource true => return .ok (false, none)
    | .resource false =>
      let found : Except GoError Parent ← ask (.getReferencedResource key)
      match found with
      | .error err =>
        if err.isClass .referenceNotFound then return .ok (true, none)
        else return .error (.wrap ("error getting parent reference 'spec." ++ key ++ "'") err)
      | .ok parent => return .ok (false, some parent)

/-- `isOrphaned` of the controllers. A resource without parents is no orphan. -/
def findParent : Prog (S σ τ) (Except GoError (Bool × Option Parent)) := do
  let configs : Except GoError (List String) ← ask .parentConfigs
  match configs with
  | .error err => return .error err
  | .ok [] => return .ok (false, none)
  | .ok (key :: rest) => isOrphaned (key :: rest)

end Parents

section Outcomes

/-- The object with the spec and the fields of the status that a transformation left. -/
def transformed (left : σ × τ) : Resource σ τ :=
  { r with spec := left.1, status := { r.status with fields := left.2 } }

def handleUpdateFailed (err : GoError) : Prog (S σ τ) Result := do
  return .failed (← Lifecycle.handleUpdateFailed r err)

def handleDeleteFailed (err : GoError) : Prog (S σ τ) Result := do
  return .failed (← Lifecycle.handleDeleteFailed r err)

def handlePostActuationTransformFailed (err : GoError) : Prog (S σ τ) Result := do
  return .failed (← Lifecycle.handlePostActuationTransformFailed r
    (.wrap ("error applying post-actuation transformation to resource '" ++
      namespacedName r.metadata ++ "'") err))

def handleDeleted : Prog (S σ τ) Result := do
  let left : Except GoError (σ × τ) ← ask .postActuationTransform
  match left with
  | .error err => handlePostActuationTransformFailed r err
  | .ok left => return .ofExcept false (← Lifecycle.handleDeleted (transformed r left))

def handleUnresolvableDeps (originErr : GoError) : Prog (S σ τ) Result := do
  if causedByUnreadyOrNonexistentResourceRefs originErr then
    let watch : Watch ← ask (.watch originErr)
    match watch with
    | .failed err => handleUpdateFailed r (.wrap "error initializing new resourcewatcher" err)
    | .notStarted => return .ofExcept true (← Lifecycle.handleUnresolvableDeps r originErr)
    | .started => return .ofExcept false (← Lifecycle.handleUnresolvableDeps r originErr)
  else return .ofExcept true (← Lifecycle.handleUnresolvableDeps r originErr)

/-- The two ways an error ends: waiting for a dependency, or failing. -/
def updateError (message : String) (err : GoError) : Prog (S σ τ) Result :=
  match causedByUnresolvableDeps err with
  | some unwrapped => handleUnresolvableDeps r unwrapped
  | none => handleUpdateFailed r (.wrap message err)

def isSpecOrStatusUpdateRequired [DecidableEq σ] [DecidableEq τ] (r original : Resource σ τ) :
    Bool :=
  r.spec ≠ original.spec || r.status ≠ original.status ||
    r.status.observedGeneration ≠ some original.metadata.generation

/-- The end of a successful actuation: the object is saved as ready, unless it says
all that already. -/
def saveUpToDate [DecidableEq σ] [DecidableEq τ] (config : ResourceConfig)
    (original r : Resource σ τ) : Prog (S σ τ) Result := do
  match ← updateMutableButUnreadableFieldsAnnotationFor config r with
  | .error err => return .failed err
  | .ok r =>
    match ← updateObservedSecretVersionsAnnotationFor config r with
    | .error err => return .failed err
    | .ok r =>
      let left : Except GoError (σ × τ) ← ask .postActuationTransform
      match left with
      | .error err => handlePostActuationTransformFailed r err
      | .ok left =>
        let resource := transformed r left
        if !isSpecOrStatusUpdateRequired resource original &&
            resource.metadata.annotations = original.metadata.annotations &&
            readyConditionMatches resource .true upToDate upToDateMessage then
          return .done
        else return .ofExcept false (← Lifecycle.handleUpToDate resource)

end Outcomes

section Leases

def managementConflictPreventionPolicyNone : String := "none"
def managementConflictPreventionPolicyResource : String := "resource"

/-- `GetManagementConflictPreventionPolicy`: an object without the annotation has no
policy. -/
def getManagementConflictPreventionPolicy (m : ObjectMeta) : Except GoError String :=
  match m.getAnnotation managementConflictAnnotation with
  | none => .ok managementConflictPreventionPolicyNone
  | some value =>
    if value = managementConflictPreventionPolicyNone ∨
        value = managementConflictPreventionPolicyResource then .ok value
    else .error (.plain ("invalid management conflict policy '" ++ value ++
      "', can be one of \x7bnone, resource\x7d"))

/-- The lease changes only the labels of the object in memory. -/
def obtainResourceLeaseIfNecessary (gvk : GroupVersionKind) (r : Resource σ τ) :
    Prog (S σ τ) (Except GoError (Resource σ τ)) := do
  match getManagementConflictPreventionPolicy r.metadata with
  | .error err => return .error err
  | .ok conflictPolicy =>
    if conflictPolicy ≠ managementConflictPreventionPolicyResource then return .ok r
    else
      let leasable : Except GoError Bool ← ask .isLeasable
      match leasable with
      | .error err => return .error err
      | .ok false =>
        return .error (.plain ("kind '" ++ gvk.text ++ "' does not support usage of " ++
          managementConflictAnnotation ++ "='" ++
          managementConflictPreventionPolicyResource ++ "'"))
      | .ok true =>
        let obtained : Except GoError StringMap ← ask .softObtain
        match obtained with
        | .error err =>
          return .error (← Lifecycle.handleObtainLeaseFailed r
            (.wrap ("error obtaining lease on '" ++ namespacedName r.metadata ++ "'") err))
        | .ok labels => return .ok { r with metadata := { r.metadata with labels } }

end Leases

section Prologue

def parseError (name : String) (err : GoError) : GoError :=
  .wrap ("could not parse resource " ++ name) err

/-- The middle of both reconciles: the object is patched and defaulted before `next`
parses it. `statusError` is what parsing an object of kind `Status` fails with. -/
def reconcileObject (controller : String) (statusError : GoError)
    (next : Resource σ τ → Prog (S σ τ) Result) (read : Resource σ τ) : Prog (S σ τ) Result := do
  match ← triggerManagedFieldsMetadata read with
  | .error err =>
    return .failed (.wrap "error triggering Server-Side Apply (SSA) metadata" err)
  | .ok u =>
    match ← handleDefaults controller u with
    | .error err =>
      return .failed (.wrap ("error handling default values for resource '" ++
        namespacedName u.metadata ++ "'") err)
    | .ok none => return .failed (parseError (namespacedName read.metadata) statusError)
    | .ok (some u) => next u

/-- What a controller does once it knows that actuation is paused. -/
def pause (original r : Resource σ τ) : Prog (S σ τ) Result := do
  let period : Except GoError Unit ← ask .jitteredReenqueue
  match period with
  | .error err => return .failed err
  | .ok _ =>
    if r.metadata.isDeleting then return .done
    else
      match ← Lifecycle.ensureFinalizers original r ObjectMeta.kccFinalizers with
      | .error err => return .failed err
      | .ok _ => return .done

/-- The end of both reconciles: the mode decides whether the object is synced.
`periodError` is what an error of the last jitter is turned into. -/
def actuate (original r : Resource σ τ)
    (sync : Resource σ τ → Resource σ τ → Prog (S σ τ) Result) (periodError : GoError → GoError) :
    Prog (S σ τ) Result := do
  let state : Except GoError (ConfigConnectorSpec × ConfigConnectorContextSpec) ←
    ask .fetchLiveKCCState
  match state with
  | .error err => return .failed err
  | .ok (cc, ccc) =>
    match decideActuationMode cc ccc with
    | .paused => pause original r
    | .other value => return .failed (.plain ("unknown actuation mode " ++ value))
    | .reconciling =>
      let left : Except GoError (σ × τ) ← ask .preActuationTransform
      match left with
      | .error err =>
        return .failed (← Lifecycle.handlePreActuationTransformFailed r
          (.wrap ("error applying pre-actuation transformation to resource '" ++
            namespacedName r.metadata ++ "'") err))
      | .ok left =>
        match ← sync original (transformed r left) with
        | ⟨_, some err⟩ => return .failed err
        | ⟨true, none⟩ => return ⟨true, none⟩
        | ⟨false, none⟩ =>
          let period : Except GoError Unit ← ask .jitteredReenqueue
          match period with
          | .error err => return .failed (periodError err)
          | .ok _ => return .done

end Prologue

end ConfigConnector.Managed
