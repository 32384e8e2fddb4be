import ConfigConnector.Managed.Surroundings

/- The reconcile of dcl/controller.go up to the actuation of the object. What `sync`
does to an object that is not paused is a parameter. -/
namespace ConfigConnector.Dcl

open Interact K8s Actuation Managed
open Lifecycle (Result)

variable {σ τ : Type}

/-- The change is made to the object in memory only. -/
def applyChangesForBackwardsCompatibility (gvk : GroupVersionKind) (r : Resource σ τ) :
    Prog (S σ τ) (Except GoError (Resource σ τ)) := do
  let containers : Except GoError Unit ← ask .containersForGVK
  match containers with
  | .error err =>
    return .error (.wrap ("error getting containers supported by GroupVersionKind " ++
      gvk.text) err)
  | .ok _ =>
    let hierarchicalRefs : Except GoError Unit ← ask .hierarchicalReferencesForGVK
    match hierarchicalRefs with
    | .error err =>
      return .error (.wrap ("error getting hierarchical references supported by " ++
        "GroupVersionKind " ++ gvk.text) err)
    | .ok _ => ensureHierarchicalReference r

/-- The error of the last jitter does not say its cause. -/
def reconcileIntervalError (m : ObjectMeta) (_ : GoError) : GoError :=
  .plain ("error generating reconcile interval for resource " ++ namespacedName m)

variable (gvk : GroupVersionKind) (sync : Resource σ τ → Resource σ τ → Prog (S σ τ) Result)

/-- `Reconcile` from the parsing of the object on. -/
def reconcileResource (u : Resource σ τ) : Prog (S σ τ) Result := do
  let config : Except GoError ResourceConfig ← ask .newResource
  match config with
  | .error err => return .failed (parseError (namespacedName u.metadata) err)
  | .ok _ =>
    match ← applyChangesForBackwardsCompatibility gvk u with
    | .error err =>
      return .failed (.wrap ("error applying changes to resource '" ++
        namespacedName u.metadata ++ "' for backwards compatibility") err)
    | .ok r => actuate u r sync (reconcileIntervalError r.metadata)

/-- `Reconcile` from the defaulting of the object on. -/
def reconcileObject (read : Resource σ τ) : Prog (S σ τ) Result :=
  Managed.reconcileObject "dcl" newResourceError (reconcileResource gvk sync) read

def reconcile : Prog (S σ τ) Result := unlessSkipped (reconcileObject gvk sync)

end ConfigConnector.Dcl
