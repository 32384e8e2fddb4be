import ConfigConnector.Managed.Surroundings

/- The reconcile of tf/controller.go, with the lookups of krmtotf/fetchlivestate.go
that it branches on. The Terraform provider and the other objects are asked. -/
namespace ConfigConnector.Terraform

open Interact K8s Actuation Managed
open Lifecycle (Result)

variable {σ τ : Type} (gvk : GroupVersionKind) (config : ResourceConfig)

section LiveState

/-- `ImportState`: an import has to give one resource. -/
def importState (id : String) : Prog (S σ τ) (Except GoError InstanceState) := do
  let imported : Except GoError (List InstanceState) ← ask (.importState id)
  match imported with
  | .error err => return .error (.wrap "error importing resource" err)
  | .ok [state] => return .ok state
  | .ok _ => return .error (.plain "import corresponds to more than one resource")

/-- The state that is read from: the imported one, unless the kind has no import. -/
def importOrSkip (id : String) : Prog (S σ τ) (Except GoError InstanceState) :=
  if config.skipImport then return .ok ⟨id⟩ else importState id

def fetchLiveStateFromID (id : String) : Prog (S σ τ) (Except GoError InstanceState) := do
  match ← importOrSkip config id with
  | .error err => return .error err
  | .ok state =>
    let preset : Except GoError InstanceState ← ask (.presetFieldsForRead state)
    match preset with
    | .error err => return .error err
    | .ok state =>
      let read : Except GoError InstanceState ← ask (.refresh state)
      match read with
      | .error err => return .error (.wrap "error reading underlying resource" err)
      | .ok state => return .ok state

def fetchLiveState : Prog (S σ τ) (Except GoError InstanceState) := do
  let id : Except GoError String ← ask .getImportID
  match id with
  | .error err =>
    -- Without its server-generated id the resource is taken for one never created.
    if err.isClass .serverGeneratedIDNotFound then return .ok ⟨""⟩
    else return .error (.wrap "error getting ID for resource" err)
  | .ok id => fetchLiveStateFromID config id

def hasEmptySelfLink : Except GoError String → Bool
  | .error _ => true
  | .ok id => id == ""

def shouldResolveParentForDelete (selfLink : Except GoError String) : Bool :=
  !(["KMSCryptoKey"].contains gvk.kind) || hasEmptySelfLink selfLink

def fetchLiveStateForDelete
    (selfLink : Except GoError String) : Prog (S σ τ) (Except GoError InstanceState) :=
  match shouldResolveParentForDelete gvk selfLink, selfLink with
  | false, .error err => return .error err
  | false, .ok id => if id ≠ "" then fetchLiveStateFromID config id else fetchLiveState config
  | true, _ => fetchLiveState config

def fetchLiveStateForCreateAndUpdate : Prog (S σ τ) (Except GoError InstanceState) :=
  if config.unreadable && config.skipImport && !config.hasServerGeneratedIDField &&
      config.allTopLevelFieldsAreImmutableOrComputed then return .ok ⟨""⟩
  else fetchLiveState config

def hasServerGeneratedIDAndHadBeenCreatedOnceAlready : Prog (S σ τ) (Except GoError Bool) := do
  if config.hasServerGeneratedIDField then
    let val : Except GoError String ← ask .getServerGeneratedID
    match val with
    | .error err =>
      if err.isClass .serverGeneratedIDNotFound then return .ok false else return .error err
    | .ok val => return .ok (val ≠ "")
  else return .ok false

/-- `regexp.MatchString(".*Resource .* has nested resources.*", message)`; a dot
matches everything but the end of a line. -/
def hasNestedResources (message : String) : Bool :=
  (message.toList.splitOn '\n').any fun line => line.tails.any fun rest =>
    "Resource ".toList.isPrefixOf rest &&
      decide (" has nested resources".toList <:+: rest.drop "Resource ".length)

def isDeletionFailureDueToExistingDependent (parent : Parent) : Bool :=
  !isResourceReady parent.object &&
    hasNestedResources (((getReadyCondition parent.object).map (·.message)).getD "")

def shouldCheckParentReadyForDelete (parent : Parent) : Bool :=
  !(["AlloyDBInstance", "EdgeContainerNodePool", "TagsTagValue"].contains gvk.kind) &&
    !isDeletionFailureDueToExistingDependent parent

end LiveState

section Sync

/-- Delete the resource in GCP, if it is there and nobody else holds it. -/
def deleteUnderlying
    (selfLink : Except GoError String) (r : Resource σ τ) : Prog (S σ τ) Result := do
  match ← fetchLiveStateForDelete gvk config selfLink with
  | .error err => handleDeleteFailed r (.wrap "error fetching live state" err)
  | .ok liveState =>
    if liveState.isEmpty then handleDeleted r
    else
      match ← obtainResourceLeaseIfNecessary gvk r with
      | .error err => return .failed err
      | .ok r =>
        let destroyed : Except GoError Unit ← ask .destroy
        match destroyed with
        | .error err =>
          handleDeleteFailed r (.plain ("error deleting resource: " ++ err.error))
        | .ok _ => handleDeleted r

/-- What the parent of a resource that goes away says about it. -/
def resolveParent (selfLink : Except GoError String) (r : Resource σ τ) : Prog (S σ τ) Result := do
  match ← findParent with
  | .error err => return .failed err
  | .ok (true, _) => handleDeleted r
  | .ok (false, none) => deleteUnderlying gvk config selfLink r
  | .ok (false, some parent) =>
    if !isResourceReady parent.object && shouldCheckParentReadyForDelete gvk parent then
      return .ofExcept true (← Lifecycle.handleUnresolvableDeps r (referenceNotReady parent))
    else deleteUnderlying gvk config selfLink r

/-- The part of `sync` for an object that is being deleted. -/
def finalizeDeletion (r : Resource σ τ) : Prog (S σ τ) Result := do
  if !r.metadata.hasFinalizer controllerFinalizerName then return .done
  else if r.metadata.hasFinalizer deletionDefenderFinalizerName then return ⟨true, none⟩
  else
    match ← Lifecycle.handleDeleting r with
    | .error err => return .failed err
    | .ok r =>
      if r.metadata.hasAbandonAnnotation then handleDeleted r
      else
        let selfLink : Except GoError String ← ask .selfLinkAsID
        if shouldResolveParentForDelete gvk selfLink then resolveParent gvk config selfLink r
        else deleteUnderlying gvk config selfLink r

def immutableFieldsMutationError (immutableFields : List String) : GoError :=
  .plain ("cannot make changes to immutable field(s): [" ++ " ".intercalate immutableFields ++
    "]; please refer to our troubleshooting doc: " ++
    "https://cloud.google.com/config-connector/docs/troubleshooting")

variable [DecidableEq σ] [DecidableEq τ] (original r : Resource σ τ)

def handleUpToDate (liveState : InstanceState) : Prog (S σ τ) Result := do
  let resolved : σ × τ ← ask (.resolveSpecAndStatus liveState)
  saveUpToDate config original (transformed r resolved)

/-- The end of `sync`: what the diff asks for is applied. -/
def applyDiff (liveState : InstanceState) (diff : InstanceDiff) : Prog (S σ τ) Result := do
  match ← Lifecycle.ensureFinalizers original r ObjectMeta.kccFinalizers with
  | .error err => return .failed err
  | .ok r =>
    if diff.isEmpty then handleUpToDate config original r liveState
    else
      match ← Lifecycle.handleUpdating r with
      | .error err => return .failed err
      | .ok r =>
        let applied : Except GoError InstanceState ← ask (.apply original r)
        match applied with
        | .error err => handleUpdateFailed r (.wrap "error applying desired state" err)
        | .ok newState => handleUpToDate config original r newState

/-- The middle of `sync`: the desired state is expanded and compared. -/
def compareState (liveState : InstanceState) : Prog (S σ τ) Result := do
  let expanded : Except GoError Unit ← ask .resourceConfigFull
  match expanded with
  | .error err =>
    updateError r ("error expanding resource configuration for kind " ++ gvk.kind) err
  | .ok _ =>
    let transformed : Except GoError Unit ← ask .preTerraformApply
    match transformed with
    | .error err =>
      handleUpdateFailed r (.wrap "error applying pre-apply transformation to resource" err)
    | .ok _ =>
      let compared : Except GoError InstanceDiff ← ask (.diff original r)
      match compared with
      | .error err => handleUpdateFailed r (.wrap "error calculating diff" err)
      | .ok diff =>
        if !liveState.isEmpty && diff.requiresNew then
          handleUpdateFailed r (immutableFieldsMutationError diff.immutableFields)
        else applyDiff config original r liveState diff

/-- The part of `sync` for an object that is not being deleted. -/
def applyResource : Prog (S σ τ) Result := do
  match ← fetchLiveStateForCreateAndUpdate config with
  | .error err => updateError r "error fetching live state" err
  | .ok liveState =>
    match ← obtainResourceLeaseIfNecessary gvk r with
    | .error err => return .failed err
    | .ok r =>
      match ← hasServerGeneratedIDAndHadBeenCreatedOnceAlready config with
      | .error err => handleUpdateFailed r err
      | .ok created =>
        if created && liveState.isEmpty then
          handleUpdateFailed r (.plain (
            "underlying resource no longer exists and can't be " ++
            "recreated without creating a brand new resource"))
        else compareState gvk config original r liveState

def sync : Prog (S σ τ) Result :=
  if r.metadata.isDeleting then finalizeDeletion gvk config r
  else applyResource gvk config original r

end Sync

section Reconcile

def ensureManagementConflictPolicy (r : Resource σ τ) :
    Prog (S σ τ) (Except GoError (Resource σ τ)) := do
  let policy : Except GoError (Option String) ← ask .managementConflictPolicy
  match policy with
  | .error err =>
    return .error (.wrap ("error ensuring resource '" ++ namespacedName r.metadata ++
      "' has a management conflict policy") err)
  | .ok none => return .ok r
  | .ok (some value) => return .ok (annotate r managementConflictAnnotation (some value))

/-- Both changes are made to the object in memory only. -/
def applyChangesForBackwardsCompatibility (r : Resource σ τ) :
    Prog (S σ τ) (Except GoError (Resource σ τ)) := do
  match ← ensureManagementConflictPolicy r with
  | .error err => return .error err
  | .ok r => ensureHierarchicalReference r

variable [DecidableEq σ] [DecidableEq τ]

/-- `DoReconcile` from the parsing of the object on. -/
def reconcileResource (u : Resource σ τ) : Prog (S σ τ) Result := do
  let config : Except GoError ResourceConfig ← ask .newResource
  match config with
  | .error err => return .failed (parseError (namespacedName u.metadata) err)
  | .ok config =>
    match ← applyChangesForBackwardsCompatibility u with
    | .error err =>
      return .failed (.wrap ("error applying changes to resource '" ++
        namespacedName u.metadata ++ "' for backwards compatibility") err)
    | .ok r => actuate u r (sync gvk config) id

/-- `DoReconcile` from the defaulting of the object on. -/
def reconcileObject (read : Resource σ τ) : Prog (S σ τ) Result :=
  Managed.reconcileObject "tf" (.plain "couldn't find any ResourceConfig defined for kind Status")
    (reconcileResource gvk) read

/-- `DoReconcile`. -/
def reconcile : Prog (S σ τ) Result :=
  unlessSkipped fun u => do
    let mapping : Except GoError Unit ← ask .getServiceMapping
    match mapping with
    | .error err => return .failed err
    | .ok _ => reconcileObject gvk u

end Reconcile

end ConfigConnector.Terraform
