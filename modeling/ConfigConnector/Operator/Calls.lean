import ConfigConnector.K8s.Errors
import ConfigConnector.Lib.Prog

/- The operator: the objects that its two reconcilers read and write, the calls they make, and
the helpers they share. Of a component only what tells it from others is modelled. -/
namespace ConfigConnector.Operator

open Interact K8s

section Constants

def controllerManagerPodForClusterMode : String := "cnrm-controller-manager-0"
def operatorFinalizer : String := "configconnector.cnrm.cloud.google.com/finalizer"
def kccSystemComponentLabel : String := "cnrm.cloud.google.com/component"
def managedByKCCLabel : String := "cnrm.cloud.google.com/managed-by-kcc"
def kccControllerManagerComponent : String := "cnrm-controller-manager"
def kccUnmanagedDetectorComponent : String := "cnrm-unmanaged-detector"
def cnrmSystemNamespace : String := "cnrm-system"
def namespacedComponentLabel : String := "cnrm.cloud.google.com/scoped-namespace"
def controllerManagerService : String := "cnrm-manager"
def namespacedManagerServicePrefix : String := "cnrm-manager-"
def namespacedManagerServiceTmpl : String := "cnrm-manager-$\x7bNAMESPACE?\x7d"
def serviceAccountNamePrefix : String := "cnrm-controller-manager-"
def namespacePattern : String := "$\x7bNAMESPACE?\x7d"

end Constants

section Objects

structure NamespacedName where
  ns : String
  name : String
  deriving DecidableEq, Repr

inductive Mode where
  | cluster
  | namespaced
  deriving DecidableEq, Repr

/-- The flag `--manager-namespace-isolation`. -/
inductive Isolation where
  | shared
  | dedicated
  deriving DecidableEq, Repr

structure ConfigConnectorObject where
  name : String
  resourceVersion : Nat
  generation : Int
  deletionTimestamp : Option Nat
  finalizers : List String
  /-- `spec.mode`, empty where it is not set. -/
  mode : Option Mode
  deriving DecidableEq

def ConfigConnectorObject.getMode (cc : ConfigConnectorObject) : Mode := cc.mode.getD .namespaced

structure ConfigConnectorContext where
  nn : NamespacedName
  resourceVersion : Nat
  generation : Int
  deletionTimestamp : Option Nat
  finalizers : List String
  version : String
  managerNamespace : String
  deriving DecidableEq

structure Object where
  kind : String
  ns : String
  name : String
  labels : List (String × String)
  finalizers : List String
  deriving DecidableEq

/-- The object of a kind with nothing but its name, as it is made for a deletion. -/
def Object.named (kind ns name : String) : Object := ⟨kind, ns, name, [], []⟩

structure Pod where
  ns : String
  name : String
  labels : List (String × String)
  /-- The StatefulSet among its owners. -/
  owner : String
  deriving DecidableEq

structure NamespaceInfo where
  deletionTimestamp : Option Nat
  labels : List (String × String)

structure CommonStatus where
  healthy : Bool
  errors : List String
  observedGeneration : Int

/-- The first result says whether it was there. -/
def removeOperatorFinalizer (finalizers : List String) : Bool × List String :=
  if operatorFinalizer ∈ finalizers then (true, finalizers.filter (· ≠ operatorFinalizer))
  else (false, finalizers)

def ensureOperatorFinalizer (finalizers : List String) : Bool × List String :=
  if operatorFinalizer ∈ finalizers then (true, finalizers)
  else (false, finalizers ++ [operatorFinalizer])

def isControllerManagerStatefulSet (obj : Object) : Bool :=
  obj.kind == "StatefulSet" &&
    obj.labels.lookup kccSystemComponentLabel == some kccControllerManagerComponent

def isControllerManagerService (obj : Object) : Bool :=
  obj.kind == "Service" && obj.name == namespacedManagerServiceTmpl

end Objects

section Calls

inductive CreateOutcome where
  | created
  | alreadyExists
  | failed (err : GoError)

/-- Lists take a namespace, empty for all of them. -/
inductive Op where
  | getConfigConnector
  | updateConfigConnector (cc : ConfigConnectorObject)
  | updateConfigConnectorStatus (cc : ConfigConnectorObject) (status : CommonStatus)
  | getContext (nn : NamespacedName)
  | updateContext (ccc : ConfigConnectorContext)
  | updateContextStatus (ccc : ConfigConnectorContext) (status : CommonStatus)
  | getStatefulSet (nn : NamespacedName)
  | getPod (nn : NamespacedName)
  | getNamespace (name : String)
  /-- The pods of controller managers, at most `limit` of them if it is not 0. -/
  | listControllerPods (ns : String) (limit : Nat)
  /-- What controller managers of one watched namespace have. -/
  | listStatefulSetsFor (ns watched : String)
  | listServicesFor (ns watched : String)
  | listPodsFor (ns watched : String)
  | create (obj : Object)
  | update (obj : Object)
  | delete (obj : Object)
  | apply (obj : Object)
  /-- Of the CRDs of KCC each is deleted, and the call says whether there were any. -/
  | deleteCRDs
  | getNamespaceID (ns : String)
  | deleteNamespaceID (ns : String)
  | countResources (ns : String)
  /-- The checks before a reconcile. -/
  | preflight (nn : NamespacedName)
  /-- The transforms that look at what is inside the objects. -/
  | editContents (items : List Object)
  | ensureWatchStarted (nn : NamespacedName)

def Op.Answer : Op → Type
  | .getConfigConnector => Except GoError ConfigConnectorObject
  | .updateConfigConnector _ => Except GoError Unit
  | .updateConfigConnectorStatus _ _ => Except GoError Unit
  | .getContext _ => Except GoError ConfigConnectorContext
  | .updateContext _ => Except GoError Unit
  | .updateContextStatus _ _ => Except GoError Unit
  | .getStatefulSet _ => Except GoError Object
  | .getPod _ => Except GoError Pod
  | .getNamespace _ => Except GoError NamespaceInfo
  | .listControllerPods _ _ => Except GoError (List Pod)
  | .listStatefulSetsFor _ _ => Except GoError (List Object)
  | .listServicesFor _ _ => Except GoError (List Object)
  | .listPodsFor _ _ => Except GoError (List Pod)
  | .create _ => CreateOutcome
  | .update _ => Except GoError Unit
  | .delete _ => Except GoError Unit
  | .apply _ => Except GoError Unit
  | .deleteCRDs => Except GoError Bool
  | .getNamespaceID _ => Except GoError String
  | .deleteNamespaceID _ => Except GoError Unit
  | .countResources _ => Except GoError (List (String × Nat))
  | .preflight _ => Except GoError Unit
  | .editContents _ => Except GoError (List Object)
  | .ensureWatchStarted _ => Except GoError Unit

abbrev S : Signature where
  Op := Op
  Ans := Op.Answer

/-- A program that may fail. -/
abbrev Attempt := Prog S (Except GoError Unit)

def isNotFound (err : GoError) : Bool := err.isClass .notFound

def getConfigConnector : Prog S (Except GoError ConfigConnectorObject) :=
  Prog.perform (S := S) .getConfigConnector

def updateConfigConnector (cc : ConfigConnectorObject) : Attempt :=
  Prog.perform (S := S) (.updateConfigConnector cc)

def getContext (nn : NamespacedName) : Prog S (Except GoError ConfigConnectorContext) :=
  Prog.perform (S := S) (.getContext nn)

def updateContext (ccc : ConfigConnectorContext) : Attempt :=
  Prog.perform (S := S) (.updateContext ccc)

def preflight (nn : NamespacedName) : Attempt :=
  Prog.perform (S := S) (.preflight nn)

def editContents (items : List Object) : Prog S (Except GoError (List Object)) :=
  Prog.perform (S := S) (.editContents items)

def getNamespaceID (ns : String) : Prog S (Except GoError String) :=
  Prog.perform (S := S) (.getNamespaceID ns)

def listControllerPods (ns : String) (limit : Nat) : Prog S (Except GoError (List Pod)) :=
  Prog.perform (S := S) (.listControllerPods ns limit)

end Calls

section Helpers

/-- `fmt.Errorf("text: %w", err)` where the program fails. -/
def wrapError {α : Type} (text : String) (program : Prog S (Except GoError α)) :
    Prog S (Except GoError α) :=
  program.mapError (.wrap text)

/-- An object of a Go type does not know its kind, which the errors print. -/
def printedKind (typed : Bool) (obj : Object) : String := if typed then "" else obj.kind

def removeOperatorFinalizerIfPresent (typed : Bool) (obj : Object) : Attempt :=
  match removeOperatorFinalizer obj.finalizers with
  | (false, _) => return .ok ()
  | (true, finalizers) =>
    wrapError ("error removing operator finalizer from " ++ printedKind typed obj ++ " " ++
        obj.name)
      (Prog.perform (S := S) (.update { obj with finalizers }))

def deleteObject (typed : Bool) (obj : Object) : Attempt := do
  let deleted : Except GoError Unit ← Prog.perform (S := S) (.delete obj)
  match deleted with
  | .error err =>
    if isNotFound err then return .ok ()
    else return .error (.wrap ("error deleting " ++ printedKind typed obj ++ " " ++ obj.name) err)
  | .ok () => removeOperatorFinalizerIfPresent typed obj

def deleteObjects (typed : Bool) : List Object → Attempt
  | [] => .ret (.ok ())
  | obj :: rest => (deleteObject typed obj).onOk fun _ => deleteObjects typed rest

/-- `wait.ExponentialBackoff`: a condition is looked at until it holds, `steps` times at most. -/
def exponentialBackoff (condition : Prog S (Except GoError Bool)) : Nat → Attempt
  | 0 => .ret (.error (.plain "timed out waiting for the condition"))
  | steps + 1 => condition.onOk fun done =>
    if done then .ret (.ok ()) else exponentialBackoff condition steps

/-- The objects of a manifest are applied one by one; one that fails does not stop the others. -/
def applyAll : List Object → Attempt
  | [] => .ret (.ok ())
  | obj :: rest => do
    let applied : Except GoError Unit ← Prog.perform (S := S) (.apply obj)
    let others ← applyAll rest
    return applied >>= fun _ => others

end Helpers

end ConfigConnector.Operator
