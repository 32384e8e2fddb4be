import ConfigConnector.K8s.ApiServer

/- The functions of lifecyclehandler/handler.go that write an object back. Those
whose object is used afterwards return it; events are not modelled. -/
namespace ConfigConnector.Lifecycle

open Interact K8s

/-- `(requeue bool, err error)`. -/
structure Result where
  requeue : Bool
  err : Option GoError
  deriving DecidableEq, Repr

namespace Result

def done : Result := ⟨false, none⟩

def failed (err : GoError) : Result := ⟨false, some err⟩

/-- The result of a function that returns only an error. -/
def ofExcept {α : Type} (requeue : Bool) : Except GoError α → Result
  | .ok _ => ⟨requeue, none⟩
  | .error err => ⟨requeue, some err⟩

end Result

/-- Whether a watch was started; it is not when the controller does not support
it or has too many of them. -/
inductive Watch where
  | started
  | notStarted
  | failed (err : GoError)

variable {σ τ Q : Type} {A : Q → Type}

/-- The labels that the system sets and users do not see. -/
def systemLabels : List String :=
  ["cnrm-lease-holder-id", "cnrm-lease-expiration", "managed-by-cnrm"]

variable (r : Resource σ τ)

def removeSystemLabels : Resource σ τ :=
  { r with metadata := { r.metadata with
      labels := systemLabels.foldl (fun labels k => labels.erase k) r.metadata.labels } }

/-- The error for a write that the API server did not take. -/
def writeError (what : String) (err : GoError) : GoError :=
  if err.isClass .conflict then
    .wrap ("couldn't update the API server due to conflict. " ++
      "Re-enqueue the request for another reconciliation attempt") err
  else .wrap what err

def updateStatus : Prog (calls σ τ A) (Except GoError (Resource σ τ)) := do
  let reply : Reply σ τ ← Prog.perform (S := calls σ τ A) (.updateStatus r)
  match reply with
  | .error err => return .error (writeError "error with status update call to API server" err)
  | .status message =>
    return .error (.plain ("error with status update call to API server: " ++ message))
  | .object u =>
    let transformed : Except GoError σ ←
      Prog.perform (S := calls σ τ A) (.postUpdateStatusTransform u)
    return transformed.map fun spec => { u with spec }

def updateAPIServer : Prog (calls σ τ A) (Except GoError (Resource σ τ)) := do
  let reply : Reply σ τ ← Prog.perform (S := calls σ τ A) (.update (removeSystemLabels r))
  match reply with
  | .error err => return .error (writeError "error with update call to API server" err)
  | .status message =>
    return .error (.plain ("error with update call to API server: " ++ message))
  | .object u =>
    if u.metadata.isDeleting && u.metadata.finalizers.length == 0 then
      return .ok u
    else
      -- The status to save and the generation it is about are those from before the write.
      updateStatus (setObservedGeneration { u with status := r.status } r.metadata.generation)

/-- `setCondition`, `setObservedGeneration` and `updateStatus`, which the handlers share. -/
def saveCondition (status : ConditionStatus) (reason message : String) :
    Prog (calls σ τ A) (Except GoError (Resource σ τ)) :=
  updateStatus (setObservedGeneration (setCondition r status reason message)
    r.metadata.generation)

/-- `original` is the object as it was read; only the finalizers of it are saved. -/
def ensureFinalizers (original r : Resource σ τ) (finalizers : List String) :
    Prog (calls σ τ A) (Except GoError (Resource σ τ)) := do
  let ensured := r.metadata.ensureFinalizers finalizers
  let resource := { r with metadata := ensured.1 }
  if ensured.2 then return .ok resource
  else
    let copied := original.metadata.ensureFinalizers finalizers
    if copied.2 then return .ok resource
    else
      match ← updateAPIServer { original with metadata := copied.1 } with
      | .error err => return .error err
      | .ok saved =>
        return .ok { resource with metadata :=
          { saved.metadata with annotations := resource.metadata.annotations } }

def handleUpToDate : Prog (calls σ τ A) (Except GoError (Resource σ τ)) :=
  updateAPIServer (setCondition r .true upToDate upToDateMessage)

def handleUpdating : Prog (calls σ τ A) (Except GoError (Resource σ τ)) :=
  saveCondition r .false "Updating" "Update in progress"

def handleDeleting : Prog (calls σ τ A) (Except GoError (Resource σ τ)) :=
  saveCondition r .false "Deleting" "Deletion in progress"

/-- The error that is returned: that of the status write, or the one being reported. -/
def reportFailed (reason : String) (reported : GoError) : Prog (calls σ τ A) GoError := do
  match ← saveCondition (A := A) r .false reason reported.error with
  | .error failed => return failed
  | .ok _ => return reported

def handleUpdateFailed (err : GoError) : Prog (calls σ τ A) GoError :=
  reportFailed r "UpdateFailed" (.wrap "Update call failed" err)

def handleDeleteFailed (err : GoError) : Prog (calls σ τ A) GoError :=
  reportFailed r "DeleteFailed" (.wrap "Delete call failed" err)

/-- Report an error unless the object already says it. -/
def reportNews (reason : String) (err : GoError) : Prog (calls σ τ A) (Except GoError Unit) := do
  if readyConditionMatches r .false reason err.error then return .ok ()
  else
    match ← saveCondition (A := A) r .false reason err.error with
    | .error failed => return .error failed
    | .ok _ => return .ok ()

def handleUnresolvableDeps (originErr : GoError) : Prog (calls σ τ A) (Except GoError Unit) := do
  match reasonForUnresolvableDeps originErr with
  | .error err => return .error (← handleUpdateFailed (A := A) r err)
  | .ok reason => reportNews r reason originErr

/-- `HandleObtainLeaseFailed` and its siblings, which differ in the reason. -/
def reportNewsAndReturn (reason : String) (err : GoError) : Prog (calls σ τ A) GoError := do
  match ← reportNews (A := A) r reason err with
  | .error failed => return failed
  | .ok _ => return err

def handleObtainLeaseFailed (err : GoError) : Prog (calls σ τ A) GoError :=
  reportNewsAndReturn r "ManagementConflict" err

def handlePreActuationTransformFailed (err : GoError) : Prog (calls σ τ A) GoError :=
  reportNewsAndReturn r "PreActuationTransformFailed" err

def handlePostActuationTransformFailed (err : GoError) : Prog (calls σ τ A) GoError :=
  reportNewsAndReturn r "PostActuationTransformFailed" err

def handleDeleted : Prog (calls σ τ A) (Except GoError (Resource σ τ)) := do
  -- The status is saved first: the object can go away with its last finalizer.
  match ← saveCondition (A := A) r .false "Deleted" "Successfully deleted" with
  | .error err => return .error (.wrap "error updating status" err)
  | .ok saved =>
    updateAPIServer { saved with
      metadata := saved.metadata.removeFinalizer controllerFinalizerName }

end ConfigConnector.Lifecycle
