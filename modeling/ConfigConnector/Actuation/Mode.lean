import ConfigConnector.K8s.Object

/- Whether a resource is actuated, as resourceactuation.go decides it from the
ConfigConnector objects and from an annotation of the resource. -/
namespace ConfigConnector.Actuation

open K8s

/-- `other` stands for the values that the schema of the CRD does not allow. -/
inductive ActuationMode where
  | reconciling
  | paused
  | other (value : String)
  deriving DecidableEq, Repr

/-- The fields of a `ConfigConnector` spec that matter here; `none` is an unset mode. -/
structure ConfigConnectorSpec where
  mode : String
  actuation : Option ActuationMode
  deriving DecidableEq, Repr

structure ConfigConnectorContextSpec where
  actuation : Option ActuationMode
  deriving DecidableEq, Repr

def namespacedMode : String := "namespaced"

def decideActuationMode (cc : ConfigConnectorSpec) (ccc : ConfigConnectorContextSpec) :
    ActuationMode :=
  match ccc.actuation, cc.mode == namespacedMode with
  | some mode, true => mode
  | _, _ => cc.actuation.getD .reconciling

def actuationModeAnnotation : String := "cnrm.cloud.google.com/actuation-mode"

/-- The annotation comes first, and pausing by annotation does not pause deletion. -/
def shouldSkipActuation (annotations : StringMap) (isDeleting : Bool) (cc : ConfigConnectorSpec)
    (ccc : ConfigConnectorContextSpec) : Except GoError Bool :=
  match (annotations.lookup actuationModeAnnotation).filter (· ≠ "") with
  | some "Reconciling" => .ok false
  | some "Paused" => .ok !isDeleting
  | some val =>
    .error (.plain ("invalid value \"" ++ val ++ "\" for annotation " ++
      actuationModeAnnotation ++ "; allowed values are \"Paused\" and \"Reconciling\""))
  | none =>
    match decideActuationMode cc ccc with
    | .reconciling => .ok false
    | .paused => .ok true
    | .other value => .error (.plain ("unknown actuation mode " ++ value))

end ConfigConnector.Actuation
