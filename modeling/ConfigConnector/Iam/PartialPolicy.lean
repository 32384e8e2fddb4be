import ConfigConnector.Actuation.Mode
import ConfigConnector.Iam.Bindings
import ConfigConnector.Lifecycle.Handler

/- The reconcile of partialpolicy/iampartialpolicy_controller.go as a program
that makes one call after the other. -/
namespace ConfigConnector.Iam.PartialPolicy

open Interact K8s Actuation GoMap
open Lifecycle (Result Watch)

/-- What the controller asks besides the API server. -/
inductive Query where
  /-- The value a defaulter has for the state-into-spec annotation, if it sets it. -/
  | applyDefaults (pp : IAMPartialPolicy)
  | fetchLiveKCCState
  | getPolicy (resource : ResourceReference)
  | setPolicy (policy : IAMPolicy)
  | resolver
  /-- The orders of the `range` statements of the computation that follows. -/
  | orders
  /-- Start to wait for the resource that an error names. -/
  | watch (err : GoError)
  /-- `driftTracker.Add`: whether the tracker watches the resource from now on. -/
  | track (etag : String)
  | jitteredReenqueue
  deriving DecidableEq

def Query.Answer : Query → Type
  | .applyDefaults _ => Except GoError (Option String)
  | .fetchLiveKCCState => Except GoError (ConfigConnectorSpec × ConfigConnectorContextSpec)
  | .getPolicy _ => Except GoError IAMPolicy
  | .setPolicy _ => Except GoError Unit
  | .resolver => MemberIdentityResolver
  | .orders => Orders
  | .watch _ => Watch
  | .track _ => Bool
  | .jitteredReenqueue => Except GoError Unit

abbrev S : Signature := calls IAMPartialPolicySpec AppliedBindings Query.Answer

def ask (q : Query) : Prog S q.Answer := Prog.perform (S := S) (.ask q)

def ensured (pp : IAMPartialPolicy) : IAMPartialPolicy :=
  { pp with metadata := (pp.metadata.ensureFinalizers ObjectMeta.kccFinalizers).1 }

def toDesiredPolicy (desiredPartialPolicy : IAMPartialPolicy) (livePolicy : IAMPolicy) :
    IAMPolicy where
  spec :=
    { resourceReference := desiredPartialPolicy.spec.resourceReference
      bindings := desiredPartialPolicy.status.fields.allBindings
      auditConfigs := livePolicy.spec.auditConfigs
      etag := livePolicy.spec.etag }

/-- Where the lists of a status in memory come from. -/
inductive Origin where
  | computed
  | read

/-- The list as a slice, `none` for nil. A computation makes its slices, so that they are not
nil even if they are empty; the API server leaves an empty list out. -/
def Origin.slice : Origin → List IAMPolicyBinding → Option (List IAMPolicyBinding)
  | .computed, bindings => some bindings
  | .read, bindings => if bindings.isEmpty then none else some bindings

/-- The lists of `desired` are computed, those of `original` are of the given origin. That
`reflect.DeepEqual` tells a nil slice from an empty one is the equality of `Option`. -/
def isAPIServerUpdateRequired (desired original : IAMPartialPolicy) (origin : Origin) : Bool :=
  original.status.conditions ≠ [newCustomReadyCondition .true upToDate upToDateMessage] ||
    original.status.observedGeneration.getD 0 ≠ original.metadata.generation ||
    Origin.computed.slice desired.status.fields.lastAppliedBindings ≠
      origin.slice original.status.fields.lastAppliedBindings ||
    Origin.computed.slice desired.status.fields.allBindings ≠
      origin.slice original.status.fields.allBindings

variable (pp : IAMPartialPolicy)

def handleUpdateFailed (err : GoError) : Prog S Result := do
  return .failed (← Lifecycle.handleUpdateFailed pp err)

def handleDeleteFailed (err : GoError) : Prog S Result := do
  return .failed (← Lifecycle.handleDeleteFailed pp err)

def handleDeleted : Prog S Result := do
  return .ofExcept false (← Lifecycle.handleDeleted pp)

def handleUnresolvableDeps (origErr : GoError) : Prog S Result := do
  if causedByUnreadyOrNonexistentResourceRefs origErr then
    let watch : Watch ← ask (.watch origErr)
    match watch with
    | .failed err => handleUpdateFailed pp (.wrap "error initializing new resourcewatcher" err)
    | .notStarted => return .ofExcept true (← Lifecycle.handleUnresolvableDeps pp origErr)
    | .started => return .ofExcept false (← Lifecycle.handleUnresolvableDeps pp origErr)
  else
    return .ofExcept true (← Lifecycle.handleUnresolvableDeps pp origErr)

/-- The two ways an error of an update ends: waiting for a dependency, or failing. -/
def updateError (err reported : GoError) : Prog S Result :=
  match causedByUnresolvableDeps err with
  | some unwrapped => handleUnresolvableDeps pp unwrapped
  | none => handleUpdateFailed pp reported

def finalizeDeletion : Prog S Result := do
  if !pp.metadata.hasFinalizer controllerFinalizerName then return .done
  else if pp.metadata.hasFinalizer deletionDefenderFinalizerName then return ⟨true, none⟩
  else if pp.metadata.hasAbandonAnnotation then handleDeleted pp
  else
    let read : Except GoError IAMPolicy ← ask (.getPolicy pp.spec.resourceReference)
    match read with
    | .error err =>
      if err.isClass .iamNotFound || err.isClass .referenceNotFound then handleDeleted pp
      else
        match causedByUnresolvableDeps err with
        | some unwrapped =>
          return .ofExcept true (← Lifecycle.handleUnresolvableDeps pp unwrapped)
        | none => handleDeleteFailed pp err
    | .ok iamPolicy =>
      let orders : Orders ← ask .orders
      let desiredPartialPolicy := computePartialPolicyWithRemainingBindings orders pp iamPolicy
      let set : Except GoError Unit ←
        ask (.setPolicy (toDesiredPolicy desiredPartialPolicy iamPolicy))
      match set with
      | .error err =>
        match causedByUnresolvableDeps err with
        | some unwrapped => handleUnresolvableDeps pp unwrapped
        | none => handleDeleteFailed pp (.wrap "error setting policy" err)
      | .ok _ => handleDeleted desiredPartialPolicy

/-- The part of `doReconcile` for an object that is not being deleted. -/
def applyPolicy (read : IAMPartialPolicy) : Prog S (Result × Option String) := do
  let got : Except GoError IAMPolicy ← ask (.getPolicy read.spec.resourceReference)
  match got with
  | .error err => return (← updateError read err err, none)
  | .ok iamPolicy =>
    let etag := some iamPolicy.spec.etag
    let pp := ensured read
    let resolver : MemberIdentityResolver ← ask .resolver
    let orders : Orders ← ask .orders
    match computePartialPolicyWithMergedBindings orders pp iamPolicy resolver with
    | .error err =>
      return (← updateError pp err (.wrap "error computing partial policy" err), etag)
    | .ok desiredPartialPolicy =>
      let set : Except GoError Unit ←
        ask (.setPolicy (toDesiredPolicy desiredPartialPolicy iamPolicy))
      match set with
      | .error err => return (← updateError pp err (.wrap "error setting policy" err), etag)
      | .ok _ =>
        if isAPIServerUpdateRequired desiredPartialPolicy pp .read then
          return (.ofExcept false (← Lifecycle.handleUpToDate desiredPartialPolicy), etag)
        else return (.done, etag)

/-- The second part of the result is the etag of the live policy, if it was read. -/
def doReconcile : Prog S (Result × Option String) := do
  let state : Except GoError (ConfigConnectorSpec × ConfigConnectorContextSpec) ←
    ask .fetchLiveKCCState
  match state with
  | .error err => return (⟨true, some err⟩, none)
  | .ok (cc, ccc) =>
    match decideActuationMode cc ccc with
    -- The finalizers are added to the object in memory and nothing saves it.
    | .paused => return (.done, none)
    | .other value => return (.failed (.plain ("unknown actuation mode " ++ value)), none)
    | .reconciling =>
      if pp.metadata.isDeleting then return (← finalizeDeletion pp, none)
      else applyPolicy pp

/-- The answer to a plain `Update`, which takes any object for a success. -/
def updated (r : IAMPartialPolicy) : Reply IAMPartialPolicySpec AppliedBindings →
    Except GoError IAMPartialPolicy
  | .object u => .ok u
  | .status _ => .ok r
  | .error err => .error err

def handleDefaults : Prog S (Except GoError IAMPartialPolicy) := do
  let defaults : Except GoError (Option String) ← ask (.applyDefaults pp)
  match defaults with
  | .error err => return .error err
  | .ok none => return .ok pp
  | .ok (some value) =>
    let changed := { pp with metadata := pp.metadata.setAnnotation stateIntoSpecAnnotation value }
    let reply : Reply IAMPartialPolicySpec AppliedBindings ←
      Prog.perform (S := S) (.update changed)
    match updated changed reply with
    | .error err => return .error (.wrap "applying update after setting defaults" err)
    | .ok u => return .ok u

/-- The end of `Reconcile`: the drift tracker takes over, or the object is put in
the queue again after a while. -/
def reenqueue (etag : Option String) : Prog S Result := do
  let watched : Bool ← match etag with
    | some value => ask (.track value)
    | none => pure false
  if watched then return .done
  else
    let period : Except GoError Unit ← ask .jitteredReenqueue
    match period with
    | .error err => return .failed err
    | .ok _ => return .done

def reconcile : Prog S Result := do
  let read : Except GoError IAMPartialPolicy ← Prog.perform (S := S) .get
  match read with
  | .error err => if err.isClass .notFound then return .done else return .failed err
  | .ok policy =>
    match ← handleDefaults policy with
    | .error err =>
      return .failed (.wrap ("error handling default values for IAM partial policy '" ++
        policy.metadata.ns ++ "/" ++ policy.metadata.name ++ "'") err)
    | .ok pp =>
      let (result, etag) ← doReconcile pp
      match result with
      | ⟨_, some err⟩ => return .failed err
      | ⟨true, none⟩ => return ⟨true, none⟩
      | ⟨false, none⟩ => reenqueue etag

end ConfigConnector.Iam.PartialPolicy
