import ConfigConnector.Operator.Calls

/- The reconciler of the ConfigConnector object. It deploys the shared components and, in
cluster mode, the one controller manager. -/
namespace ConfigConnector.Operator

open Interact K8s

section Lifecycle

variable (isolation : Isolation)

/-- Where the pods of controller managers are looked for. -/
def podNamespace : String :=
  match isolation with
  | .shared => cnrmSystemNamespace
  | .dedicated => ""

/-- Only the objects that the operator made on the fly are deleted by name. -/
def finalizedResources : List Object :=
  [.named "ValidatingWebhookConfiguration" "" "validating-webhook.cnrm.cloud.google.com",
    .named "ValidatingWebhookConfiguration" "" "abandon-on-uninstall.cnrm.cloud.google.com",
    .named "MutatingWebhookConfiguration" "" "mutating-webhook.cnrm.cloud.google.com",
    .named "Service" cnrmSystemNamespace "cnrm-validating-webhook",
    .named "Service" cnrmSystemNamespace "abandon-on-uninstall"]

def finalizeSystemComponentsDeletion : Attempt :=
  (deleteObject true (.named "StatefulSet" cnrmSystemNamespace kccControllerManagerComponent)).onOk
    fun _ =>
  (wrapError "error waiting for controller manager pods to be deleted"
    (exponentialBackoff
      (do
        let pods ← wrapError "error listing controller manager pods"
          (listControllerPods (podNamespace isolation) 0)
        return pods.map (·.isEmpty))
      12)).onOk fun _ =>
  (wrapError "error waiting for CRDs to be deleted"
    (exponentialBackoff
      (do
        let left : Except GoError Bool ← Prog.perform (S := S) .deleteCRDs
        return left.map (!·))
      12)).onOk fun _ =>
  deleteObjects true finalizedResources

def createCNRMSystemNamespace (items : List Object) : Attempt :=
  match items.find? fun obj => obj.kind == "Namespace" && obj.name == cnrmSystemNamespace with
  | none => return .ok ()
  | some obj => do
    let outcome : CreateOutcome ← Prog.perform (S := S) (.create obj)
    match outcome with
    | .created => return .ok ()
    | .alreadyExists => return .ok ()
    | .failed err => return .error err

def removeNamespacedModeOnlySharedComponents : Attempt :=
  deleteObjects true
    [.named "StatefulSet" cnrmSystemNamespace kccUnmanagedDetectorComponent,
      .named "ServiceAccount" cnrmSystemNamespace kccUnmanagedDetectorComponent]

def removeClusterModeOnlySharedComponents : Attempt :=
  deleteObjects true
    [.named "Service" cnrmSystemNamespace controllerManagerService,
      .named "StatefulSet" cnrmSystemNamespace kccControllerManagerComponent,
      .named "ServiceAccount" cnrmSystemNamespace kccControllerManagerComponent]

/-- The list may hold the pod for cluster mode and no other. -/
def onlyClusterModePod : List Pod → Bool
  | [] => true
  | [pod] => pod.name == controllerManagerPodForClusterMode
  | _ => false

def verifyPerNamespaceControllerManagerPodsAreDeleted : Attempt := do
  match ← listControllerPods (podNamespace isolation) 100 with
  | .error err => return .error (.wrap "error listing controller manager pods" err)
  | .ok pods =>
    if onlyClusterModePod pods then return .ok ()
    else return .error (.plain ("per-namespace controller manager pods are not yet deleted by " ++
      "configconnectorcontext controller, reenquee the reconciliation for another attempt " ++
      "later; remaining pods include, but may not be limited to [" ++
      " ".intercalate (pods.map (·.name)) ++ "]"))

/-- The items that are left to apply. -/
def handleConfigConnectorLifecycle (cc : ConfigConnectorObject) (items : List Object) :
    Prog S (Except GoError (List Object)) :=
  if cc.deletionTimestamp.isSome then
    (wrapError ("error finalizing the deletion of Config Connector system components deployed " ++
        "by ConfigConnector controller")
      (finalizeSystemComponentsDeletion isolation)).onOk fun _ =>
    match removeOperatorFinalizer cc.finalizers with
    | (false, _) => .ret (.ok [])
    | (true, finalizers) =>
      (wrapError ("error removing " ++ operatorFinalizer ++
          " finalizer from ConfigConnector object " ++ cc.name)
        (updateConfigConnector { cc with finalizers })).onOk fun _ => .ret (.ok [])
  else
    (match ensureOperatorFinalizer cc.finalizers with
      | (true, _) => .ret (.ok ())
      | (false, finalizers) =>
        (wrapError ("error adding " ++ operatorFinalizer ++
            " finalizer in ConfigConnector object " ++ cc.name)
          (updateConfigConnector { cc with finalizers })).onOk fun _ =>
        wrapError ("error creating " ++ cnrmSystemNamespace ++ " namespace")
          (createCNRMSystemNamespace items) : Attempt).onOk fun _ =>
    match cc.getMode with
    | .cluster =>
      removeNamespacedModeOnlySharedComponents.onOk fun _ =>
      (wrapError "error waiting for all per-namespace controller manager pods to be removed"
        (verifyPerNamespaceControllerManagerPodsAreDeleted isolation)).onOk fun _ =>
      .ret (.ok items)
    | .namespaced => removeClusterModeOnlySharedComponents.onOk fun _ => .ret (.ok items)

end Lifecycle

section Reconcile

/-- What is deployed with the operator, read from the files of a version. -/
structure Manifests where
  /-- `LoadManifest`, for the mode of the object. -/
  system : ConfigConnectorObject → Except GoError (List Object)
  /-- `LoadNamespacedComponents`, for the version that the object asks for. -/
  perNamespace : String → Except GoError (List Object)

variable (isolation : Isolation) (manifests : Manifests)

def configConnectorName : NamespacedName := ⟨"", "configconnector.core.cnrm.cloud.google.com"⟩

/-- `declarative.Reconciler`: the object is read, its manifest goes through the transforms in
their order, and what comes out is applied. -/
def reconcileSystem : Attempt := do
  match ← getConfigConnector with
  | .error err => if isNotFound err then return .ok () else return .error err
  | .ok cc =>
    (preflight configConnectorName).onOk fun _ =>
    match manifests.system cc with
    | .error err => .ret (.error err)
    | .ok objects =>
      (editContents objects).onOk fun items =>
      (handleConfigConnectorLifecycle isolation cc items).onOk fun items =>
      (editContents items).onOk fun items =>
      applyAll items

/-- Whatever the error, it is reported as a conflict. -/
def updateConfigConnectorStatus (cc : ConfigConnectorObject) (status : CommonStatus) : Attempt :=
  let updated : Attempt :=
    Prog.perform (S := S) (.updateConfigConnectorStatus cc status)
  updated.mapError fun _ => .plain "couldn't update ConfigConnector on API server due to conflict"

/-- The last step of a reconcile, with what the status is to say. -/
def reportSystem (healthy : Bool) (errors : List String) : Attempt := do
  match ← getConfigConnector with
  | .error err =>
    if isNotFound err then return .ok ()
    else return .error (.wrap ("error getting ConfigConnector object " ++
      configConnectorName.name) err)
  | .ok cc => updateConfigConnectorStatus cc ⟨healthy, errors, cc.generation⟩

def handleReconcileFailed (reconcileErr : GoError) : Attempt :=
  reportSystem false [(GoError.wrap "error during reconciliation" reconcileErr).error]

def handleReconcileSucceeded : Attempt := reportSystem true []

/-- An error of the first read that is not that the object is gone is passed over. -/
def reconcileConfigConnector : Attempt := do
  let read ← getConfigConnector
  match read.mapError isNotFound with
  | .error true => return .ok ()
  | _ =>
    match ← reconcileSystem isolation manifests with
    | .error reconciliationErr =>
      (handleReconcileFailed reconciliationErr).onOk fun _ => .ret (.error reconciliationErr)
    | .ok () =>
      let _ ← Prog.perform (S := S) (.ensureWatchStarted configConnectorName)
      handleReconcileSucceeded

end Reconcile

end ConfigConnector.Operator
