import ConfigConnector.Operator.ContextController
import ConfigConnector.Lib.Machine

/- The two reconcilers at work on one cluster, together with users and Kubernetes, and the
workloads they leave there. -/
namespace ConfigConnector.Operator

open Interact K8s

section Workloads

def Object.key (obj : Object) : NamespacedName := ⟨obj.ns, obj.name⟩

def Pod.key (pod : Pod) : NamespacedName := ⟨pod.ns, pod.name⟩

structure State where
  configConnector : Option ConfigConnectorObject
  contexts : NamespacedName → Option ConfigConnectorContext
  statefulSets : List Object
  pods : List Pod

/-- The one pod of a StatefulSet. -/
def podOf (sts : Object) : Pod := ⟨sts.ns, sts.name ++ "-0", sts.labels, sts.name⟩

def isControllerManager (labels : List (String × String)) : Bool :=
  labels.lookup kccSystemComponentLabel == some kccControllerManagerComponent

/-- A StatefulSet is that of the controller manager for cluster mode, one for a namespace, or
that of some other component. -/
def Object.isClusterMode (sts : Object) : Prop := sts.key = clusterModeStatefulSet

def Object.isPerNamespace (sts : Object) : Prop :=
  isControllerManager sts.labels = true ∧ sts.key ≠ clusterModeStatefulSet

def Pod.isClusterMode (pod : Pod) : Prop := pod.key = clusterModePod

def Pod.isPerNamespace (pod : Pod) : Prop :=
  isControllerManager pod.labels = true ∧ pod.key ≠ clusterModePod

theorem podOf_key (sts : Object) : (podOf sts).key = clusterModePod ↔ sts.isClusterMode := by
  have name : controllerManagerPodForClusterMode = kccControllerManagerComponent ++ "-0" := rfl
  simp only [podOf, Pod.key, clusterModePod, Object.isClusterMode, Object.key,
    clusterModeStatefulSet, NamespacedName.mk.injEq, name]
  exact and_congr_right fun _ => String.append_left_inj "-0"

theorem podOf_clusterMode (sts : Object) : (podOf sts).isClusterMode ↔ sts.isClusterMode :=
  podOf_key sts

theorem podOf_perNamespace (sts : Object) : (podOf sts).isPerNamespace ↔ sts.isPerNamespace :=
  and_congr_right fun _ => not_congr (podOf_key sts)

namespace State

variable (s : State)

def hasClusterModeSet : Prop := ∃ sts ∈ s.statefulSets, sts.isClusterMode

def hasPerNamespaceSet : Prop := ∃ sts ∈ s.statefulSets, sts.isPerNamespace

/-- A StatefulSet or a pod of the controller manager for cluster mode is there. -/
def hasClusterMode : Prop := s.hasClusterModeSet ∨ ∃ pod ∈ s.pods, pod.isClusterMode

def hasPerNamespace : Prop := s.hasPerNamespaceSet ∨ ∃ pod ∈ s.pods, pod.isPerNamespace

/-- The pods of controller managers of both kinds are not there at the same time. -/
def Exclusive : Prop :=
  ¬ ((∃ pod ∈ s.pods, pod.isClusterMode) ∧ ∃ pod ∈ s.pods, pod.isPerNamespace)

def applied (obj : Object) : State :=
  if obj.kind = "StatefulSet" then
    { s with statefulSets := obj :: s.statefulSets.filter (·.key ≠ obj.key) }
  else s

def deleted (obj : Object) : State :=
  if obj.kind = "StatefulSet" then
    { s with statefulSets := s.statefulSets.filter (·.key ≠ obj.key) }
  else s

/-- A pod that was there under the name is replaced. -/
def podCreated (sts : Object) : State :=
  { s with pods := podOf sts :: s.pods.filter (·.key ≠ (podOf sts).key) }

/-- What a list of controller pods may show; no namespace means all. -/
def controllerPods (ns : String) : List Pod :=
  s.pods.filter fun pod => isControllerManager pod.labels && (ns == "" || pod.ns == ns)

end State

end Workloads

section Surroundings

/-- A read finds what is stored, or fails for another reason. -/
def Found {α : Type} (stored : Option α) : Except GoError α → Prop
  | .ok value => stored = some value
  | .error err => isNotFound err = true → stored = none

/-- An object that is being deleted goes with its last finalizer. -/
def savedConfigConnector (cc : ConfigConnectorObject) (resourceVersion : Nat) :
    Option ConfigConnectorObject :=
  if cc.deletionTimestamp.isSome && cc.finalizers.isEmpty then none
  else some { cc with resourceVersion }

def savedContext (ccc : ConfigConnectorContext) (resourceVersion : Nat) :
    Option ConfigConnectorContext :=
  if ccc.deletionTimestamp.isSome && ccc.finalizers.isEmpty then none
  else some { ccc with resourceVersion }

/-- The labels by which the components of one watched namespace are listed. -/
def belongsTo (watched : String) (labels : List (String × String)) : Bool :=
  isControllerManager labels && labels.lookup namespacedComponentLabel == some watched

/-- Editing an object leaves what tells it from others. -/
def SameIdentity (edited obj : Object) : Prop :=
  edited.kind = obj.kind ∧ edited.key = obj.key ∧
    isControllerManager edited.labels = isControllerManager obj.labels

/-- What a call can be answered with, and what it leaves. A write may be made and its answer be
lost; an update is made only on the version that was read. -/
def answers (s : State) : (op : Op) → op.Answer → State → Prop
  | .getConfigConnector, answer, after => after = s ∧ Found s.configConnector answer
  | .updateConfigConnector cc, answer, after =>
    after = s ∧ answer ≠ .ok () ∨
      ∃ stored resourceVersion, s.configConnector = some stored ∧
        stored.resourceVersion = cc.resourceVersion ∧
        after = { s with configConnector := savedConfigConnector cc resourceVersion }
  | .getContext nn, answer, after => after = s ∧ Found (s.contexts nn) answer
  | .updateContext ccc, answer, after =>
    after = s ∧ answer ≠ .ok () ∨
      ∃ stored resourceVersion, s.contexts ccc.nn = some stored ∧
        stored.resourceVersion = ccc.resourceVersion ∧
        after = { s with contexts :=
          Function.update s.contexts ccc.nn (savedContext ccc resourceVersion) }
  | .getStatefulSet nn, answer, after =>
    after = s ∧ Found (s.statefulSets.find? (·.key = nn)) answer
  | .getPod nn, answer, after => after = s ∧ Found (s.pods.find? (·.key = nn)) answer
  | .listControllerPods ns limit, answer, after =>
    after = s ∧ ∀ listed, answer = .ok listed → ∃ all, all.Perm (s.controllerPods ns) ∧
      listed = if limit = 0 then all else all.take limit
  | .listStatefulSetsFor ns watched, answer, after =>
    after = s ∧ ∀ listed, answer = .ok listed → listed.Perm (s.statefulSets.filter fun sts =>
      belongsTo watched sts.labels && (ns == "" || sts.ns == ns))
  | .listPodsFor ns watched, answer, after =>
    after = s ∧ ∀ listed, answer = .ok listed → listed.Perm (s.pods.filter fun pod =>
      belongsTo watched pod.labels && (ns == "" || pod.ns == ns))
  | .delete obj, answer, after => after = s ∧ answer ≠ .ok () ∨ after = s.deleted obj
  | .apply obj, answer, after => after = s ∧ answer ≠ .ok () ∨ after = s.applied obj
  | .editContents items, answer, after =>
    after = s ∧ ∀ edited, answer = .ok edited →
      ∀ obj ∈ edited, ∃ item ∈ items, SameIdentity obj item
  | _, _, after => after = s

/-- All that a call can do to the state. -/
inductive Effect (s : State) : Op → State → Prop where
  | nothing (op : Op) : Effect s op s
  | configConnector (cc : ConfigConnectorObject) (resourceVersion : Nat) :
      Effect s (.updateConfigConnector cc)
        { s with configConnector := savedConfigConnector cc resourceVersion }
  | contexts (op : Op) (contexts : NamespacedName → Option ConfigConnectorContext) :
      Effect s op { s with contexts }
  | deleted (obj : Object) : Effect s (.delete obj) (s.deleted obj)
  | applied (obj : Object) : Effect s (.apply obj) (s.applied obj)

theorem effect_of_answers {s after : State} {op : Op} {answer : op.Answer}
    (answered : answers s op answer after) : Effect s op after := by
  cases op with
  | updateConfigConnector cc =>
    rcases answered with ⟨rfl, _⟩ | ⟨_, resourceVersion, _, _, rfl⟩
    · exact .nothing _
    · exact .configConnector cc resourceVersion
  | updateContext ccc =>
    rcases answered with ⟨rfl, _⟩ | ⟨_, _, _, _, rfl⟩
    · exact .nothing _
    · exact .contexts _ _
  | delete obj =>
    rcases answered with ⟨rfl, _⟩ | rfl
    · exact .nothing _
    · exact .deleted obj
  | apply obj =>
    rcases answered with ⟨rfl, _⟩ | rfl
    · exact .nothing _
    · exact .applied obj
  | getConfigConnector | getContext | getStatefulSet | getPod | listControllerPods
  | listStatefulSetsFor | listPodsFor | editContents =>
    rw [answered.1]
    exact .nothing _
  | updateConfigConnectorStatus | updateContextStatus | getNamespace | listServicesFor | create
  | update | deleteCRDs | getNamespaceID | deleteNamespaceID | countResources | preflight
  | ensureWatchStarted =>
    rw [show after = s from answered]
    exact .nothing _

/-- What users, Kubernetes and others do. -/
inductive Drift (s : State) : State → Prop where
  | user (configConnector : Option ConfigConnectorObject)
      (contexts : NamespacedName → Option ConfigConnectorContext) :
      Drift s { s with configConnector, contexts }
  | collected (keep : Object → Bool) :
      Drift s { s with statefulSets := s.statefulSets.filter keep }
  | podCreated (sts : Object) (there : sts ∈ s.statefulSets) : Drift s (s.podCreated sts)
  | podDeleted (keep : Pod → Bool) : Drift s { s with pods := s.pods.filter keep }

/-- Who reconciles: one worker for the ConfigConnector object, and one at a time for each of
the ConfigConnectorContext objects. -/
inductive Party where
  | configConnector
  | context (nn : NamespacedName)
  deriving DecidableEq

def machine (isolation : Isolation) (manifests : Manifests) : Machine S where
  State := State
  Party := Party
  program := fun p =>
    match p with
    | .configConnector => do
      let _ ← reconcileConfigConnector isolation manifests
      return ()
    | .context nn => do
      let _ ← reconcileContext isolation manifests nn
      return ()
  answers := fun _ => answers
  drift := Drift

instance (isolation : Isolation) (manifests : Manifests) :
    DecidableEq (machine isolation manifests).Party := inferInstanceAs (DecidableEq Party)

/-- No controller manager is there yet. -/
def Starts (s : State) : Prop := ¬ s.hasClusterMode ∧ ¬ s.hasPerNamespace

end Surroundings

end ConfigConnector.Operator
