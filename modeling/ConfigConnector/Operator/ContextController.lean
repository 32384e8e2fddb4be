import Mathlib
import ConfigConnector.Operator.SystemController

/- The reconciler of the ConfigConnectorContext objects. In namespaced mode it deploys a
controller manager for the namespace of each. -/
namespace ConfigConnector.Operator

open Interact K8s

section Templates

/-- `skip` characters are part of what was replaced last. -/
def replaceFrom (old new : List Char) : Nat → List Char → List Char
  | _, [] => []
  | skip + 1, _ :: rest => replaceFrom old new skip rest
  | 0, c :: rest =>
    if old.isPrefixOf (c :: rest) then new ++ replaceFrom old new (old.length - 1) rest
    else c :: replaceFrom old new 0 rest

/-- `strings.ReplaceAll`, for a pattern that is not empty. -/
def replaceAll (text old new : String) : String :=
  String.ofList (replaceFrom old.toList new.toList 0 text.toList)

def replaceNamespacePattern (obj : Object) (ns : String) : Object where
  kind := obj.kind
  ns := replaceAll obj.ns namespacePattern ns
  name := replaceAll obj.name namespacePattern ns
  labels := obj.labels.map fun label =>
    (replaceAll label.1 namespacePattern ns, replaceAll label.2 namespacePattern ns)
  finalizers := obj.finalizers

/-- Where the components of one watched namespace are looked for. -/
def componentNamespace (enableManagerNamespace : Bool) : String :=
  if enableManagerNamespace then "" else cnrmSystemNamespace

def removeStaleControllerManagerService (watched validName : String)
    (enableManagerNamespace : Bool) : Attempt := do
  let listed : Except GoError (List Object) ←
    Prog.perform (S := S) (.listServicesFor (componentNamespace enableManagerNamespace) watched)
  match listed with
  | .error err => return .error (.wrap ("error listing existing " ++
      kccControllerManagerComponent ++ " Services for watched namespace " ++ watched) err)
  | .ok services => deleteObjects true (services.filter fun service =>
    service.name.startsWith namespacedManagerServicePrefix && service.name != validName)

/-- No pod is left, or one that belongs to the StatefulSet which stays. -/
def stalePodsGone (validSts : String) : List Pod → Bool
  | [] => true
  | [pod] => pod.owner == validSts
  | _ => false

def removeStaleControllerManagerStatefulSet (watched validSts : String)
    (enableManagerNamespace : Bool) : Attempt := do
  let ns := componentNamespace enableManagerNamespace
  let listed : Except GoError (List Object) ←
    Prog.perform (S := S) (.listStatefulSetsFor ns watched)
  match listed with
  | .error err => return .error (.wrap ("error listing existing " ++
      kccControllerManagerComponent ++ " StatefulSets for watched namespace " ++ watched) err)
  | .ok sets =>
    let stale := sets.filter fun sts => sts.name != validSts
    (deleteObjects true stale).onOk fun _ =>
    if stale.isEmpty then .ret (.ok ())
    else
      wrapError "error waiting for stale controller pods to be deleted"
        (exponentialBackoff
          (do
            let listedPods : Except GoError (List Pod) ←
              Prog.perform (S := S) (.listPodsFor ns watched)
            return (listedPods.mapError (.wrap "error listing controller pods")).map
              (stalePodsGone validSts))
          12)

variable (ccc : ConfigConnectorContext) (obj : Object)

-- What the two handlers below change inside an object is done where its contents are edited.
def handleControllerManagerService : Prog S (Except GoError Object) :=
  (wrapError ("error getting namespace id for namespace " ++ ccc.nn.ns)
    (getNamespaceID ccc.nn.ns)).onOk fun nsID =>
  let named := { obj with name := replaceAll obj.name namespacePattern nsID }
  (wrapError ("error deleting stale Services for watched namespace " ++ ccc.nn.ns)
    (removeStaleControllerManagerService ccc.nn.ns named.name false)).onOk fun _ =>
  .ret (.ok named)

def handleControllerManagerStatefulSet : Prog S (Except GoError Object) :=
  (wrapError ("error getting namespace id for namespace " ++ ccc.nn.ns)
    (getNamespaceID ccc.nn.ns)).onOk fun nsID =>
  let named := { obj with name := replaceAll obj.name namespacePattern nsID }
  (wrapError ("error deleting stale StatefulSet for watched namespace " ++ ccc.nn.ns)
    (removeStaleControllerManagerStatefulSet ccc.nn.ns named.name false)).onOk fun _ =>
  .ret (.ok named)

def transformNamespacedComponentTemplates : List Object → Prog S (Except GoError (List Object))
  | [] => .ret (.ok [])
  | obj :: rest =>
    (if isControllerManagerService obj then handleControllerManagerService ccc obj
      else .ret (.ok obj)).onOk fun processed =>
    (if isControllerManagerStatefulSet processed then
        handleControllerManagerStatefulSet ccc processed
      else .ret (.ok processed)).onOk fun processed =>
    (transformNamespacedComponentTemplates rest).onOk fun others =>
    .ret (.ok (replaceNamespacePattern processed ccc.nn.ns :: others))

/-- The components that run in the namespace of the manager. -/
def movesToManagerNamespace : Bool :=
  obj.kind == "Service" && obj.name.startsWith namespacedManagerServicePrefix ||
    isControllerManagerStatefulSet obj ||
    obj.kind == "ServiceAccount" && obj.name.startsWith serviceAccountNamePrefix

def removeStalePerNamespace : Attempt :=
  if obj.kind == "Service" && obj.name.startsWith namespacedManagerServicePrefix then
    wrapError ("error deleting stale Services for watched namespace " ++ ccc.nn.ns)
      (removeStaleControllerManagerService ccc.nn.ns obj.name true)
  else if isControllerManagerStatefulSet obj then
    wrapError ("error deleting stale StatefulSet for watched namespace " ++ ccc.nn.ns)
      (removeStaleControllerManagerStatefulSet ccc.nn.ns obj.name true)
  else .ret (.ok ())

def transformPerNamespaceComponentTemplates : List Object → Prog S (Except GoError (List Object))
  | [] => .ret (.ok [])
  | obj :: rest =>
    (removeStalePerNamespace ccc obj).onOk fun _ =>
    (transformPerNamespaceComponentTemplates rest).onOk fun others =>
    .ret (.ok ((if movesToManagerNamespace obj then { obj with ns := ccc.managerNamespace }
      else obj) :: others))

end Templates

section Lifecycle

variable (isolation : Isolation) (ccc : ConfigConnectorContext) (items : List Object)

/-- What is done where each controller manager has a namespace of its own. -/
def onDedicated (program : Attempt) : Attempt :=
  match isolation with
  | .dedicated => program
  | .shared => .ret (.ok ())

def getNamespace (name : String) : Prog S (Except GoError NamespaceInfo) :=
  Prog.perform (S := S) (.getNamespace name)

def printedKey (nn : NamespacedName) : String := nn.ns ++ "/" ++ nn.name

def clusterModeStatefulSet : NamespacedName := ⟨cnrmSystemNamespace, kccControllerManagerComponent⟩

def clusterModePod : NamespacedName := ⟨cnrmSystemNamespace, controllerManagerPodForClusterMode⟩

/-- The error for the pod names the StatefulSet. -/
def verifyControllerManagerPodForClusterModeIsDeleted : Attempt := do
  let sts : Except GoError Object ← Prog.perform (S := S) (.getStatefulSet clusterModeStatefulSet)
  match sts with
  | .ok _ => return .error (.plain ("statefulset " ++ printedKey clusterModeStatefulSet ++
      " is not yet deleted, reenquee the reconciliation for another attempt later"))
  | .error err =>
    if !isNotFound err then
      return .error (.wrap ("error getting the StatefulSet " ++
        printedKey clusterModeStatefulSet) err)
    else
      let pod : Except GoError Pod ← Prog.perform (S := S) (.getPod clusterModePod)
      match pod with
      | .ok _ => return .error (.plain ("pod " ++ printedKey clusterModeStatefulSet ++
          " is not yet deleted, reenquee the reconciliation for another attempt later"))
      | .error err =>
        if !isNotFound err then
          return .error (.wrap ("error getting the pod " ++ printedKey clusterModePod) err)
        else return .ok ()

def verifyCNRMSystemNamespaceIsActive : Attempt := do
  match ← getNamespace cnrmSystemNamespace with
  | .error err =>
    if isNotFound err then
      return .error (.plain ("ConfigConnector system namespace " ++ cnrmSystemNamespace ++
        " is not created by configconnector controller yet, reenquee the reconciliation for " ++
        "another attempt later"))
    else return .error (.wrap ("error getting the ConfigConnector system namespace /" ++
      cnrmSystemNamespace) err)
  | .ok found =>
    if found.deletionTimestamp.isSome then
      return .error (.plain ("ConfigConnector system namespace " ++ cnrmSystemNamespace ++
        " is pending deletion, stop the reconciliation"))
    else return .ok ()

/-- A namespace that is missing is created. -/
def verifyManagerNamespaceIsActive (managerNamespace : String) : Attempt := do
  match ← getNamespace managerNamespace with
  | .error err =>
    if isNotFound err then
      let outcome : CreateOutcome ← Prog.perform (S := S) (.create
        ⟨"Namespace", "", managerNamespace, [(managedByKCCLabel, "true")], []⟩)
      match outcome with
      | .created => return .ok ()
      | .alreadyExists => return .error (.plain ("error creating the ConfigConnector manager " ++
          "namespace " ++ managerNamespace ++ ": it already exists"))
      | .failed err => return .error (.wrap ("error creating the ConfigConnector manager " ++
          "namespace " ++ managerNamespace) err)
    else return .error (.wrap ("error getting the ConfigConnector manager namespace /" ++
      managerNamespace) err)
  | .ok found =>
    if found.deletionTimestamp.isSome then
      return .error (.plain ("ConfigConnector manager namespace " ++ managerNamespace ++
        " is pending deletion, stop the reconciliation"))
    else return .ok ()

/-- Only a namespace that the operator created is deleted. -/
def deleteManagerNamespace (managerNamespace : String) : Attempt := do
  match ← getNamespace managerNamespace with
  | .error err => if isNotFound err then return .ok () else return .error err
  | .ok found =>
    if found.deletionTimestamp.isSome then return .ok ()
    else if found.labels.lookup managedByKCCLabel == some "true" then
      wrapError ("error deleting the ConfigConnector manager namespace " ++ managerNamespace)
        (Prog.perform (S := S) (.delete (.named "Namespace" "" managerNamespace)))
    else return .ok ()

def finalizeNamespacedComponentsDeletion : Attempt :=
  (wrapError ("error finalizing ConfigConnectorContext " ++ printedKey ccc.nn ++ " deletion")
    (deleteObjects false items)).onOk fun _ =>
  match removeOperatorFinalizer ccc.finalizers with
  | (false, _) => .ret (.ok ())
  | (true, finalizers) =>
    wrapError ("error removing " ++ operatorFinalizer ++
        " finalizer in ConfigConnectorContext object " ++ printedKey ccc.nn)
      (updateContext { ccc with finalizers })

def formatCNRMResourcesPresentError (kindToCount : List (String × Nat)) : GoError :=
  .plain ("cannot finalize deletion until all Config Connector resources in namespace have been " ++
    "removed: there are " ++ toString (kindToCount.map (·.2)).sum ++
    " Config Connector resource(s) in namespace (" ++
    ", ".intercalate (kindToCount.map fun entry => toString entry.2 ++ " " ++ entry.1 ++ "(s)") ++
    ")")

def finalizeCCContextDeletion : Prog S (Except GoError (List Object)) := do
  let counted : Except GoError (List (String × Nat)) ←
    Prog.perform (S := S) (.countResources ccc.nn.ns)
  match counted with
  | .error err => return .error (.wrap ("error verifying the Config Connector resource counts " ++
      "in namespace '" ++ ccc.nn.ns ++ "'") err)
  | .ok kindToCount =>
    if !kindToCount.isEmpty then return .error (formatCNRMResourcesPresentError kindToCount)
    else
      (finalizeNamespacedComponentsDeletion ccc items).onOk fun _ =>
      (Prog.perform (S := S) (.deleteNamespaceID ccc.nn.ns) :
        Attempt).onOk fun _ =>
      (onDedicated isolation (deleteManagerNamespace ccc.managerNamespace)).onOk fun _ =>
      .ret (.ok [])

/-- There is nothing to apply, whatever the clean-up did. -/
def handleCCContextLifecycleForClusterMode : Prog S (Except GoError (List Object)) :=
  (finalizeNamespacedComponentsDeletion ccc items).onOk fun _ =>
  .ret (.error (.plain ("ConfigConnector is in cluster-mode, this ConfigConnectorContext object " ++
    "does not serve any purpose and should be removed")))

def handleCCContextLifecycleForNamespacedMode : Prog S (Except GoError (List Object)) :=
  if ccc.deletionTimestamp.isSome then finalizeCCContextDeletion isolation ccc items
  else
    verifyControllerManagerPodForClusterModeIsDeleted.onOk fun _ =>
    verifyCNRMSystemNamespaceIsActive.onOk fun _ =>
    (onDedicated isolation (verifyManagerNamespaceIsActive ccc.managerNamespace)).onOk fun _ =>
    (match ensureOperatorFinalizer ccc.finalizers with
      | (true, _) => .ret (.ok ())
      | (false, finalizers) =>
        wrapError ("error adding " ++ operatorFinalizer ++
            " finalizer in ConfigConnectorContext object " ++ printedKey ccc.nn)
          (updateContext { ccc with finalizers }) : Attempt).onOk fun _ =>
    .ret (.ok items)

def finalizeOnUninstallation : Prog S (Except GoError (List Object)) :=
  (finalizeNamespacedComponentsDeletion ccc items).onOk fun _ =>
  if ccc.deletionTimestamp.isNone then
    .ret (.error (.plain ("the ConfigConnector object " ++ printedKey configConnectorName ++
      " is not found or pending deletion; this ConfigConnectorContext object does not serve any " ++
      "purpose and should be removed")))
  else .ret (.ok [])

/-- The object must say where its manager runs if and only if managers are kept apart. -/
def checkManagerNamespace : Except GoError Unit :=
  match isolation with
  | .dedicated =>
    if ccc.managerNamespace = "" then
      .error (.plain ("error in ConfigConnectorContext object " ++
        printedKey configConnectorName ++ ": dedicated manager namespace mode enabled, but " ++
        "spec.ManagerNamespace is not configured"))
    else .ok ()
  | .shared =>
    if ccc.managerNamespace ≠ "" then
      .error (.plain ("error in ConfigConnectorContext object " ++
        printedKey configConnectorName ++ ": dedicated manager namespace mode disabled, but " ++
        "spec.ManagerNamespace=" ++ ccc.managerNamespace ++ " is configured"))
    else .ok ()

/-- By what the ConfigConnector object says. -/
def handleByMode : Option ConfigConnectorObject → Prog S (Except GoError (List Object))
  | none => finalizeOnUninstallation ccc items
  | some cc =>
    if cc.deletionTimestamp.isSome then finalizeOnUninstallation ccc items
    else
      match cc.getMode with
      | .cluster => handleCCContextLifecycleForClusterMode ccc items
      | .namespaced => handleCCContextLifecycleForNamespacedMode isolation ccc items

def handleCCContextLifecycle : Prog S (Except GoError (List Object)) := do
  match ← getConfigConnector with
  | .error err =>
    if !isNotFound err then
      return .error (.wrap ("error getting the ConfigConnector object " ++
        printedKey configConnectorName) err)
    else
      match checkManagerNamespace isolation ccc with
      | .error err => return .error err
      | .ok () => handleByMode isolation ccc items none
  | .ok cc =>
    match checkManagerNamespace isolation ccc with
    | .error err => return .error err
    | .ok () => handleByMode isolation ccc items (some cc)

end Lifecycle

section Reconcile

variable (isolation : Isolation) (manifests : Manifests)

/-- This transform is there with dedicated namespaces only. -/
def transformPerNamespaceComponents (ccc : ConfigConnectorContext) (items : List Object) :
    Prog S (Except GoError (List Object)) :=
  match isolation with
  | .dedicated => wrapError "error transforming per namespace components"
      (transformPerNamespaceComponentTemplates ccc items)
  | .shared => .ret (.ok items)

/-- `declarative.Reconciler` with the transforms for an object of this kind. -/
def reconcileComponents (nn : NamespacedName) : Attempt := do
  match ← getContext nn with
  | .error err => if isNotFound err then return .ok () else return .error err
  | .ok ccc =>
    (preflight nn).onOk fun _ =>
    match manifests.perNamespace ccc.version with
    | .error err => .ret (.error err)
    | .ok templates =>
      (wrapError "error transforming namespaced components"
        (transformNamespacedComponentTemplates ccc templates)).onOk fun items =>
      (transformPerNamespaceComponents isolation ccc items).onOk fun items =>
      (editContents items).onOk fun items =>
      (handleCCContextLifecycle isolation ccc items).onOk fun items =>
      (editContents items).onOk fun items =>
      applyAll items

def reportContext (nn : NamespacedName) (healthy : Bool) (errors : List String) : Attempt := do
  match ← getContext nn with
  | .error err =>
    if isNotFound err then return .ok ()
    else return .error (.wrap ("error getting ConfigConnectorContext object " ++
      printedKey nn) err)
  | .ok ccc =>
    wrapError ("failed to update ConfigConnectorContext " ++ printedKey nn ++ " on API server")
      (Prog.perform (S := S) (.updateContextStatus ccc ⟨healthy, errors, ccc.generation⟩))

def reconcileContext (nn : NamespacedName) : Attempt := do
  let read ← getContext nn
  match read.mapError isNotFound with
  | .error true => return .ok ()
  | _ =>
    match ← reconcileComponents isolation manifests nn with
    | .error reconciliationErr =>
      let reported ← reportContext nn false
        [(GoError.wrap "error during reconciliation" reconciliationErr).error]
      match reported with
      | .error err => return .error (.wrap ("error handling reconciled failed: " ++ err.error ++
          ", original reconciliation error") reconciliationErr)
      | .ok () => return .error reconciliationErr
    | .ok () =>
      let _ ← Prog.perform (S := S) (.ensureWatchStarted nn)
      reportContext nn true []

end Reconcile

end ConfigConnector.Operator
