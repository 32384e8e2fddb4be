import ConfigConnector.Lifecycle.Handler

/- The deletion defender. It holds every deletion until it knows whether the whole
kind is being uninstalled, in which case the resources in GCP are left alone. -/
namespace ConfigConnector.DeletionDefender

open Interact K8s
open Lifecycle (Result)

variable {σ τ Q : Type} {A : Q → Type}

/-- `isUninstalling`, for a read of the CRD that says whether it is being deleted. -/
def isUninstalling (crdName : String) (getCRD : Prog (calls σ τ A) (Except GoError Bool)) :
    Prog (calls σ τ A) (Except GoError Bool) := do
  match ← getCRD with
  | .error err => return .error (.wrap ("error getting CRD '" ++ crdName ++ "'") err)
  | .ok deleting => return .ok deleting

/-- The metadata that the defender saves. -/
def defended (m : ObjectMeta) (uninstalling : Bool) : ObjectMeta :=
  if uninstalling then
    let unprotected :=
      (m.removeFinalizer deletionDefenderFinalizerName).removeFinalizer controllerFinalizerName
    unprotected.setAnnotation deletionPolicyAnnotation deletionPolicyAbandon
  else m.removeFinalizer deletionDefenderFinalizerName

def reconcile (crdName : String) (getCRD : Prog (calls σ τ A) (Except GoError Bool)) :
    Prog (calls σ τ A) Result := do
  let read : Except GoError (Resource σ τ) ← Prog.perform (S := calls σ τ A) .get
  match read with
  | .error err => if err.isClass .notFound then return .done else return .failed err
  | .ok u =>
    if !u.metadata.isDeleting || !u.metadata.hasFinalizer deletionDefenderFinalizerName then
      return .done
    else
      match ← isUninstalling crdName getCRD with
      | .error err => return .failed (.wrap "error determining if CRD is uninstalling" err)
      | .ok uninstalling =>
        let reply : Reply σ τ ← Prog.perform (S := calls σ τ A)
          (.update { u with metadata := defended u.metadata uninstalling })
        match reply with
        | .error err =>
          if err.isClass .conflict then
            return .failed (.wrap ("couldn't update the api server due to conflict. " ++
              "Re-enqueue the request for another reconciliation attempt") err)
          else return .failed (.wrap "error with update call to API server" err)
        | .status _ | .object _ => return .done

end ConfigConnector.DeletionDefender
