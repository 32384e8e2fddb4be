import ConfigConnector.Direct.Controller
import ConfigConnector.Lib.Handler

/- The adapter of sql/sqlinstance_controller.go: how it looks for an instance in GCP and deletes
it, and the reconcile of the direct controller with this adapter. -/
namespace ConfigConnector.Direct.Sql

open Interact K8s
open Lifecycle (Result)

variable {σ τ : Type}

/-- An error of the Cloud SQL Admin API. -/
structure ApiError where
  code : Int
  message : String
  deriving DecidableEq, Repr

/-- `direct.IsNotFound`. -/
def ApiError.isNotFound (err : ApiError) : Bool := err.code == 404

/-- The API has no errors of the classes that the controller asks for. -/
def ApiError.toGo (err : ApiError) : GoError := .plain err.message

/-- The status of an `api.Operation` and its errors. -/
structure Operation where
  status : String
  error : Option String
  deriving DecidableEq, Repr

def Operation.done (op : Operation) : Bool := op.status == "DONE"

/-- `refs.GetResourceID`, from `spec.resourceID` and the name of the object. -/
def getResourceID (specified name : String) : String :=
  if specified = "" then name else specified

theorem getResourceID_ne {specified name : String} (named : name ≠ "") :
    getResourceID specified name ≠ "" := by
  unfold getResourceID
  split
  · exact named
  · assumption

/-- `sqlInstanceAdapter`. There is no object without a name, and so no adapter without an id. -/
structure Adapter where
  resourceID : String
  named : resourceID ≠ ""

/-- What the controller and its adapter ask outside the API server. -/
inductive Query where
  | adapterForObject
  /-- `Instances.Get`. -/
  | getInstance
  /-- `Instances.Delete`. -/
  | deleteInstance
  /-- `Operations.Get`, for the operation that the deletion has started. -/
  | getOperation
  /-- How many pauses end before the context does. -/
  | pauses
  /-- What the controller asks itself, and `Create` and `Update` of the adapter. -/
  | other (q : Direct.Query)

def Query.Answer (σ τ : Type) : Query → Type
  | .adapterForObject => Except GoError Adapter
  | .getInstance => Except ApiError Unit
  | .deleteInstance => Except ApiError Operation
  | .getOperation => Except ApiError Operation
  | .pauses => Nat
  | .other q => q.Answer σ τ

abbrev S (σ τ : Type) : Signature := calls σ τ (Query.Answer σ τ)

def ask (q : Query) : Prog (S σ τ) (q.Answer σ τ) := Prog.perform (S := S σ τ) (.ask q)

namespace Adapter

def find (a : Adapter) : Prog (S σ τ) (Except GoError Bool) := do
  if a.resourceID = "" then return .ok false
  else
    let found : Except ApiError Unit ← ask .getInstance
    match found with
    | .error _ => return .ok false
    | .ok _ => return .ok true

/-- A pause that the context ends is the last one. Where the operation cannot be read, the text
of the error takes the name of an operation that is not there: `none` is that panic. -/
def pollForLROCompletion (a : Adapter) (verb : String) :
    Nat → Operation → Prog (S σ τ) (Option (Except GoError Unit))
  | 0, op =>
    if op.done then return some (.ok ())
    else return some (.error (.wrap ("waiting for SQLInstance " ++ a.resourceID ++ " " ++ verb ++
      " failed") (.plain "context deadline exceeded")))
  | pauses + 1, op =>
    if op.done then return some (.ok ())
    else do
      let read : Except ApiError Operation ← ask .getOperation
      match read with
      | .error _ => return none
      | .ok op => a.pollForLROCompletion verb pauses op

def delete (a : Adapter) : Prog (S σ τ) (Option (Except GoError Unit)) := do
  let started : Except ApiError Operation ← ask .deleteInstance
  match started with
  | .error err =>
    if err.isNotFound then return some (.ok ())
    else return some (.error
      (.wrap ("deleting SQLInstance " ++ a.resourceID ++ " failed") err.toGo))
  | .ok op =>
    let pauses : Nat ← ask .pauses
    a.pollForLROCompletion "delete" pauses op

end Adapter

section Reconcile

/-- One call of the controller and the adapter after it; a method of no adapter panics. -/
def handler (adapter : Option Adapter) :
    (c : Call σ τ Direct.Query) →
      Prog (S σ τ) (Option (Call.Answer (Direct.Query.Answer σ τ) c × Option Adapter))
  | .ask .adapterForObject => do
    let built : Except GoError Adapter ← ask .adapterForObject
    match built with
    | .error err => return some ((.error err : Except GoError Unit), adapter)
    | .ok built => return some ((.ok () : Except GoError Unit), some built)
  | .ask .find =>
    match adapter with
    | none => return none
    | some a => do
      let found ← a.find
      return some (found, adapter)
  | .ask .delete =>
    match adapter with
    | none => return none
    | some a => do
      let deleted ← a.delete
      return deleted.map fun result => (result, adapter)
  | .ask q => do
    let answer ← ask (.other q)
    return some (answer, adapter)
  | .get => do
    let answer ← Prog.perform (S := S σ τ) .get
    return some (answer, adapter)
  | .update r => do
    let answer ← Prog.perform (S := S σ τ) (.update r)
    return some (answer, adapter)
  | .updateStatus r => do
    let answer ← Prog.perform (S := S σ τ) (.updateStatus r)
    return some (answer, adapter)
  | .patchSSA annotated => do
    let answer ← Prog.perform (S := S σ τ) (.patchSSA annotated)
    return some (answer, adapter)
  | .postUpdateStatusTransform r => do
    let answer ← Prog.perform (S := S σ τ) (.postUpdateStatusTransform r)
    return some (answer, adapter)

/-- The reconcile of an `SQLInstance`. A panic of the adapter is recovered, and `panicked` is the
error that is made of it. -/
def reconcile (panicked : GoError) : Prog (S σ τ) Result := do
  let result ← Prog.handle handler none Direct.reconcile
  return result.getD (.failed panicked)

end Reconcile

end ConfigConnector.Direct.Sql
