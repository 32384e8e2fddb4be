import ConfigConnector.Actuation.Mode
import ConfigConnector.Actuation.Skip

/- The reconcile of directbase/directbase_controller.go. It works on the object as
the client decodes it and writes it back itself in some places, and through the
lifecycle handler in others. -/
namespace ConfigConnector.Direct

open Interact K8s Actuation
open Lifecycle (Result Watch)

variable {σ τ : Type}

/-- What an adapter does through its `Operation` in `Create` or `Update`. Which
steps it takes depends on GCP, so any tree of them is possible. -/
inductive Script (σ τ : Type) where
  | done (result : Except GoError Unit)
  | requestRequeue (next : Script σ τ)
  /-- `UpdateStatus`: the fields and the conditions of the typed status, and the
  ready condition. -/
  | updateStatus (fields : τ) (conditions : Option (List Condition))
      (readyCondition : Option Condition) (next : Except GoError Unit → Script σ τ)
  /-- `SetSpecResourceID`, with the spec that has the id. -/
  | setSpecResourceID (spec : σ) (next : Except GoError Unit → Script σ τ)
  | setLastModifiedCookie (cookie : String) (next : Except GoError Unit → Script σ τ)

/-- What the controller asks besides the API server. -/
inductive Query where
  | fetchLiveKCCState
  /-- The value a defaulter has for the state-into-spec annotation, if it sets it. -/
  | applyDefaults
  | adapterForObject
  | find
  | create
  | update
  | delete
  /-- Start to wait for the resource that an error names. -/
  | watch (err : GoError)
  | jitteredReenqueue
  /-- Whether the CRD of the kind is being deleted. Only the deletion defender,
  which runs beside the controller, reads it. -/
  | getCRD
  deriving DecidableEq

def Query.Answer (σ τ : Type) : Query → Type
  | .fetchLiveKCCState => Except GoError (ConfigConnectorSpec × ConfigConnectorContextSpec)
  | .applyDefaults => Except GoError (Option String)
  | .adapterForObject => Except GoError Unit
  | .find => Except GoError Bool
  | .create => Script σ τ
  | .update => Script σ τ
  | .delete => Except GoError Unit
  | .watch _ => Watch
  | .jitteredReenqueue => Except GoError Unit
  | .getCRD => Except GoError Bool

abbrev S (σ τ : Type) : Signature := calls σ τ (Query.Answer σ τ)

def ask (q : Query) : Prog (S σ τ) (q.Answer σ τ) := Prog.perform (S := S σ τ) (.ask q)

/-- The object in memory. A plain write takes an answer of kind `Status` for the
object, and goes on with that. -/
inductive Unstructured (σ τ : Type) where
  | object (r : Resource σ τ)
  | failure (message : String)

namespace Unstructured

def isDeleting : Unstructured σ τ → Bool
  | object r => r.metadata.isDeleting
  | failure _ => false

def hasFinalizer : Unstructured σ τ → String → Bool
  | object r, finalizer => r.metadata.hasFinalizer finalizer
  | failure _, _ => false

def hasAbandonAnnotation : Unstructured σ τ → Bool
  | object r => r.metadata.hasAbandonAnnotation
  | failure _ => false

def annotations : Unstructured σ τ → StringMap
  | object r => r.metadata.annotations
  | failure _ => ∅

end Unstructured

def toK8sResource : Unstructured σ τ → Except GoError (Resource σ τ)
  | .object r => .ok r
  | .failure _ => .error (.wrap "error marshalling to k8s resource" newResourceError)

/-- What the client says to a write of a `Status`. -/
def noMatchError : GoError := .plain "no matches for kind \"Status\" in version \"v1\""

variable (u : Unstructured σ τ)

/-- What a plain write makes of an answer: the error, and the object in memory. -/
def received : Reply σ τ → Option GoError × Unstructured σ τ
  | .error err => (some err, u)
  | .status message => (none, .failure message)
  | .object saved => (none, .object saved)

def clientUpdate : Prog (S σ τ) (Option GoError × Unstructured σ τ) := do
  match u with
  | .failure _ => return (some noMatchError, u)
  | .object r =>
    let reply : Reply σ τ ← Prog.perform (S := S σ τ) (.update r)
    return received u reply

def clientStatusUpdate : Prog (S σ τ) (Option GoError × Unstructured σ τ) := do
  match u with
  | .failure _ => return (some noMatchError, u)
  | .object r =>
    let reply : Reply σ τ ← Prog.perform (S := S σ τ) (.updateStatus r)
    return received u reply

section Operations

/-- `operationBase`. -/
structure Operation (σ τ : Type) where
  object : Unstructured σ τ
  hasSetReadyCondition : Bool
  requeueRequested : Bool

def lastChangedCookieAnnotation : String := "cnrm.cloud.google.com/last-changed-cookie"

/-- `SetStatusCondition`: the first condition of the type is replaced. -/
def setStatusCondition (newCondition : Condition) : List Condition → List Condition
  | [] => [newCondition]
  | c :: rest =>
    if c.type = newCondition.type then newCondition :: rest
    else c :: setStatusCondition newCondition rest

/-- The object with the status that `UpdateStatus` sets. -/
def withStatus (fields : τ) (conditions : Option (List Condition))
    (readyCondition : Option Condition) : Unstructured σ τ → Unstructured σ τ
  | .failure message => .failure message
  | .object r =>
    let base := conditions.getD r.status.conditions
    .object { r with status :=
      { conditions := match readyCondition with
          | some ready => setStatusCondition ready base
          | none => base
        observedGeneration := some r.metadata.generation
        fields } }

def withSpec (spec : σ) : Unstructured σ τ → Unstructured σ τ
  | .failure message => .failure message
  | .object r => .object { r with spec }

def withCookie (cookie : String) : Unstructured σ τ → Unstructured σ τ
  | .failure message => .failure message
  | .object r =>
    .object { r with metadata := r.metadata.setAnnotation lastChangedCookieAnnotation cookie }

/-- The result of a write with a text in front of its error. -/
def written (message : String) : Option GoError → Except GoError Unit
  | some err => .error (.wrap message err)
  | none => .ok ()

def Script.run : Script σ τ → Operation σ τ → Prog (S σ τ) (Operation σ τ × Except GoError Unit)
  | .done result, op => return (op, result)
  | .requestRequeue next, op => next.run { op with requeueRequested := true }
  | .updateStatus fields conditions readyCondition next, op => do
    let (err, u) ←
      clientStatusUpdate (withStatus fields conditions readyCondition op.object)
    (next (written "updating object status" err)).run
      { op with
        object := u
        hasSetReadyCondition := op.hasSetReadyCondition || readyCondition.isSome }
  | .setSpecResourceID spec next, op => do
    let (err, u) ← clientUpdate (withSpec spec op.object)
    (next (written "updating object to set spec.resourceID" err)).run { op with object := u }
  | .setLastModifiedCookie cookie next, op => do
    if (op.object.annotations.lookup lastChangedCookieAnnotation).getD "" = cookie then
      (next (.ok ())).run op
    else
      let (err, u) ← clientUpdate (withCookie cookie op.object)
      (next (written ("updating object to set " ++ lastChangedCookieAnnotation) err)).run
        { op with object := u }

end Operations

section Handlers

def convertError (event : String) (err : GoError) : GoError :=
  .wrap ("error converting to k8s resource while handling " ++ event ++ " event") err

def handleUpToDate : Prog (S σ τ) Result := do
  match toK8sResource u with
  | .error err => return .failed (convertError upToDate err)
  | .ok resource => return .ofExcept false (← Lifecycle.handleUpToDate resource)

def handleUpdateFailed (origErr : GoError) : Prog (S σ τ) Result := do
  match toK8sResource u with
  | .error _ => return .failed (.wrap "Update call failed" origErr)
  | .ok resource => return .failed (← Lifecycle.handleUpdateFailed resource origErr)

/-- The text that is returned for an object that is not one hides its cause. -/
def handleDeleteFailed (origErr : GoError) : Prog (S σ τ) Result := do
  match toK8sResource u with
  | .error _ => return .failed (.plain ("Delete call failed: " ++ origErr.error))
  | .ok resource => return .failed (← Lifecycle.handleDeleteFailed resource origErr)

def handleDeleted : Prog (S σ τ) Result := do
  match toK8sResource u with
  | .error err => return .failed (convertError "Deleted" err)
  | .ok resource => return .ofExcept false (← Lifecycle.handleDeleted resource)

/-- `HandleUnresolvableDeps` of the lifecycle handler, and a requeue. -/
def requeueUnresolvableDeps (origErr : GoError) : Prog (S σ τ) Result := do
  match toK8sResource u with
  | .error err =>
    return .failed
      (.wrap "error converting k8s resource while handling unresolvable dependencies event" err)
  | .ok resource => return .ofExcept true (← Lifecycle.handleUnresolvableDeps resource origErr)

def handleUnresolvableDeps (origErr : GoError) : Prog (S σ τ) Result := do
  match toK8sResource u with
  | .error err => return .failed (convertError "unresolvable dependencies" err)
  | .ok resource =>
    if causedByUnreadyOrNonexistentResourceRefs origErr then
      let watch : Watch ← ask (.watch origErr)
      match watch with
      | .failed err =>
        return .failed (← Lifecycle.handleUpdateFailed resource
          (.wrap "error initializing new resourcewatcher" err))
      | .notStarted =>
        return .ofExcept true (← Lifecycle.handleUnresolvableDeps resource origErr)
      | .started =>
        return .ofExcept false (← Lifecycle.handleUnresolvableDeps resource origErr)
    else return .ofExcept true (← Lifecycle.handleUnresolvableDeps resource origErr)

/-- The two ways an error of an update ends: waiting for a dependency, or failing. -/
def updateError (err reported : GoError) : Prog (S σ τ) Result :=
  match causedByUnresolvableDeps err with
  | some unwrapped => handleUnresolvableDeps u unwrapped
  | none => handleUpdateFailed u reported

end Handlers

section Reconcile

def withFinalizers : Unstructured σ τ → Unstructured σ τ × Bool
  | .failure message => (.failure message, false)
  | .object r =>
    let ensured := r.metadata.ensureFinalizers ObjectMeta.kccFinalizers
    (.object { r with metadata := ensured.1 }, ensured.2)

def ensureFinalizers : Prog (S σ τ) (Option GoError × Unstructured σ τ) := do
  let (changed, found) := withFinalizers u
  if found then return (none, changed)
  else
    let (err, saved) ← clientUpdate changed
    return (err.map (.wrap "updating finalizers"), saved)

/-- The part of `doReconcile` for an object that is being deleted. -/
def finalizeDeletion (existsAlready : Bool) : Prog (S σ τ) Result := do
  if !u.hasFinalizer controllerFinalizerName then return .done
  else if u.hasFinalizer deletionDefenderFinalizerName then return .done
  else if u.hasAbandonAnnotation then handleDeleted u
  else if !existsAlready then handleDeleted u
  else
    let deleted : Except GoError Unit ← ask .delete
    match deleted with
    | .ok _ => handleDeleted u
    | .error err =>
      if err.isClass .iamNotFound || err.isClass .referenceNotFound then handleDeleted u
      else
        match causedByUnresolvableDeps err with
        | some unwrapped => requeueUnresolvableDeps u unwrapped
        | none => handleDeleteFailed u err

/-- `adapter.Update` or `adapter.Create`. -/
def callAdapter (existsAlready : Bool) : Prog (S σ τ) (Script σ τ) :=
  if existsAlready then ask .update else ask .create

/-- The part of `doReconcile` for an object that is not being deleted. -/
def applyObject (read : Unstructured σ τ) (existsAlready : Bool) :
    Prog (S σ τ) (Result × Unstructured σ τ) := do
  let (err, u) ← ensureFinalizers read
  match err with
  | some err => return (.failed err, u)
  | none =>
    let script ← callAdapter existsAlready
    let (op, result) ← script.run ⟨u, false, false⟩
    match result with
    | .error err =>
      let doing := if existsAlready then "error updating" else "error creating"
      return (← updateError op.object err (.wrap doing err), op.object)
    | .ok _ =>
      if op.hasSetReadyCondition then return (⟨op.requeueRequested, none⟩, op.object)
      else
        let saved ← handleUpToDate op.object
        return (⟨op.requeueRequested, saved.err⟩, op.object)

def actuate : Prog (S σ τ) (Result × Unstructured σ τ) := do
  let adapter : Except GoError Unit ← ask .adapterForObject
  match adapter with
  | .error err => return (← updateError u err err, u)
  | .ok _ =>
    let found : Except GoError Bool ← ask .find
    match found with
    | .error err =>
      match causedByUnresolvableDeps err, u.isDeleting with
      -- The dependencies of an object that goes away may never be ready.
      | some unwrapped, true => return (← requeueUnresolvableDeps u unwrapped, u)
      | some unwrapped, false => return (← handleUnresolvableDeps u unwrapped, u)
      | none, true => return (← handleDeleteFailed u err, u)
      | none, false => return (← handleUpdateFailed u err, u)
    | .ok existsAlready =>
      if u.isDeleting then return (← finalizeDeletion u existsAlready, u)
      else applyObject u existsAlready

def applyDefaults (r : Resource σ τ) : Prog (S σ τ) (Option GoError × Unstructured σ τ) := do
  let defaults : Except GoError (Option String) ← ask .applyDefaults
  match defaults with
  | .error err =>
    return (some (.wrap "applying defaults in the directbase reconciler" err), .object r)
  | .ok none => return (none, .object r)
  | .ok (some value) =>
    let (err, u) ← clientUpdate (.object
      { r with metadata := r.metadata.setAnnotation stateIntoSpecAnnotation value })
    return (err.map (.wrap "applying update after setting defaults"), u)

def doReconcile (r : Resource σ τ) : Prog (S σ τ) (Result × Unstructured σ τ) := do
  let state : Except GoError (ConfigConnectorSpec × ConfigConnectorContextSpec) ←
    ask .fetchLiveKCCState
  match state with
  | .error err => return (.failed err, .object r)
  | .ok (cc, ccc) =>
    match shouldSkipActuation r.metadata.annotations r.metadata.isDeleting cc ccc with
    | .error err =>
      if r.metadata.isDeleting then return (← handleDeleteFailed (.object r) err, .object r)
      else return (← handleUpdateFailed (.object r) err, .object r)
    | .ok true =>
      if r.metadata.isDeleting then return (.done, .object r)
      else
        -- An error here is dropped.
        let (_, u) ← ensureFinalizers (.object r)
        return (.done, u)
    | .ok false =>
      let (err, u) ← applyDefaults r
      match err with
      | some err => return (.failed err, u)
      | none => actuate u

def reconcile : Prog (S σ τ) Result :=
  unlessSkipped fun r => do
    let (result, u) ← doReconcile r
    match result with
    | ⟨_, some err⟩ => return .failed err
    | ⟨true, none⟩ => return ⟨true, none⟩
    | ⟨false, none⟩ =>
      if u.isDeleting && u.hasFinalizer deletionDefenderFinalizerName then return .done
      else
        let period : Except GoError Unit ← ask .jitteredReenqueue
        match period with
        | .error err => return .failed err
        | .ok _ => return .done

end Reconcile

end ConfigConnector.Direct
