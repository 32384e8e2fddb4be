import ConfigConnector.K8s.Errors
import Mathlib.Data.Finmap

/- Kubernetes objects as the controllers see them. The spec and the part of the
status that only one kind of resource has are type parameters. -/
namespace ConfigConnector.K8s

abbrev StringMap : Type := Finmap fun _ : String => String

def projectIDAnnotation : String := "cnrm.cloud.google.com/project-id"
def folderIDAnnotation : String := "cnrm.cloud.google.com/folder-id"
def orgIDAnnotation : String := "cnrm.cloud.google.com/organization-id"

structure ObjectMeta where
  name : String
  ns : String
  generation : Int
  resourceVersion : Nat
  deletionTimestamp : Option Nat
  finalizers : List String
  annotations : StringMap
  labels : StringMap
  managedFields : List String
  deriving DecidableEq

inductive ConditionStatus where
  | true
  | false
  | unknown
  deriving DecidableEq, Repr

structure Condition where
  type : String
  status : ConditionStatus
  reason : String
  message : String
  deriving DecidableEq, Repr

structure Status (τ : Type) where
  conditions : List Condition
  observedGeneration : Option Int
  fields : τ
  deriving DecidableEq

structure Resource (σ τ : Type) where
  metadata : ObjectMeta
  spec : σ
  status : Status τ
  deriving DecidableEq

section Constants

def controllerFinalizerName : String := "cnrm.cloud.google.com/finalizer"
def deletionDefenderFinalizerName : String := "cnrm.cloud.google.com/deletion-defender"
def deletionPolicyAnnotation : String := "cnrm.cloud.google.com/deletion-policy"
def deletionPolicyAbandon : String := "abandon"
def supportsSSAAnnotation : String := "cnrm.cloud.google.com/supports-ssa"
def supportsSSAManager : String := "supports-ssa"
def stateIntoSpecAnnotation : String := "cnrm.cloud.google.com/state-into-spec"
def readyConditionType : String := "Ready"
def upToDate : String := "UpToDate"
def upToDateMessage : String := "The resource is up to date"

end Constants

namespace ObjectMeta

/-- The metadata of an object a user has just created. -/
def created (ns name : String) : ObjectMeta where
  name := name
  ns := ns
  generation := 1
  resourceVersion := 1
  deletionTimestamp := none
  finalizers := []
  annotations := ∅
  labels := ∅
  managedFields := []

variable (m : ObjectMeta)

/-- `!GetDeletionTimestamp().IsZero()`. -/
def isDeleting : Bool := m.deletionTimestamp.isSome

def hasFinalizer (finalizer : String) : Bool := m.finalizers.contains finalizer

/-- Append the finalizer unless it is there; the second part says whether it was. -/
def ensureFinalizer (finalizer : String) : ObjectMeta × Bool :=
  if m.finalizers.contains finalizer then (m, true)
  else ({ m with finalizers := m.finalizers ++ [finalizer] }, false)

def ensureFinalizers (m : ObjectMeta) : List String → ObjectMeta × Bool
  | [] => (m, true)
  | f :: rest =>
    let one := m.ensureFinalizer f
    let others := one.1.ensureFinalizers rest
    (others.1, one.2 && others.2)

def removeFinalizer (finalizer : String) : ObjectMeta :=
  if m.finalizers.contains finalizer then
    { m with finalizers := m.finalizers.filter (· ≠ finalizer) }
  else m

def getAnnotation (key : String) : Option String :=
  m.annotations.lookup key

def setAnnotation (key value : String) : ObjectMeta :=
  { m with annotations := m.annotations.insert key value }

def hasAbandonAnnotation : Bool :=
  m.getAnnotation deletionPolicyAnnotation == some deletionPolicyAbandon

/-- The two finalizers the controllers put on every object they manage. -/
def kccFinalizers : List String := [controllerFinalizerName, deletionDefenderFinalizerName]

def HasKccFinalizers : Prop := ∀ f ∈ kccFinalizers, f ∈ m.finalizers

instance : Decidable m.HasKccFinalizers :=
  inferInstanceAs (Decidable (∀ f ∈ kccFinalizers, f ∈ m.finalizers))

theorem isDeleting_congr {m n : ObjectMeta} (same : n.deletionTimestamp = m.deletionTimestamp) :
    n.isDeleting = m.isDeleting := by
  rw [isDeleting, same, ← isDeleting]

/-- Setting another annotation does not touch the deletion policy. -/
theorem hasAbandon_insert {key : String} (value : String) (other : key ≠ deletionPolicyAnnotation) :
    hasAbandonAnnotation { m with annotations := m.annotations.insert key value } =
      m.hasAbandonAnnotation := by
  unfold hasAbandonAnnotation getAnnotation
  rw [Finmap.lookup_insert_of_ne _ (Ne.symm other)]

section Lemmas

variable (f g : String)

@[simp] theorem hasFinalizer_eq_true : m.hasFinalizer f ↔ f ∈ m.finalizers := by
  simp [hasFinalizer]

theorem ensureFinalizer_eq : (m.ensureFinalizer f).1 =
    { m with finalizers := if f ∈ m.finalizers then m.finalizers else m.finalizers ++ [f] } := by
  by_cases present : f ∈ m.finalizers <;> simp [ensureFinalizer, present]

@[simp] theorem ensureFinalizer_found : (m.ensureFinalizer f).2 ↔ f ∈ m.finalizers := by
  by_cases present : f ∈ m.finalizers <;> simp [ensureFinalizer, present]

@[simp] theorem mem_ensureFinalizer :
    g ∈ (m.ensureFinalizer f).1.finalizers ↔ g = f ∨ g ∈ m.finalizers := by
  rw [ensureFinalizer_eq]
  by_cases present : f ∈ m.finalizers
  · simp only [present, ↓reduceIte, iff_or_self]
    rintro rfl
    exact present
  · simp [present, or_comm]

section

variable (fs : List String)

/-- Nothing but the list of finalizers is changed. -/
theorem ensureFinalizers_frame :
    ∃ finalizers, (m.ensureFinalizers fs).1 = { m with finalizers := finalizers } := by
  induction fs generalizing m with
  | nil => exact ⟨m.finalizers, rfl⟩
  | cons f rest ih =>
    obtain ⟨finalizers, same⟩ := ih (m.ensureFinalizer f).1
    refine ⟨finalizers, ?_⟩
    rw [ensureFinalizers, same, ensureFinalizer_eq]

@[simp] theorem mem_ensureFinalizers :
    g ∈ (m.ensureFinalizers fs).1.finalizers ↔ g ∈ fs ∨ g ∈ m.finalizers := by
  induction fs generalizing m with
  | nil => simp [ensureFinalizers]
  | cons f rest ih =>
    simp only [ensureFinalizers, ih, mem_ensureFinalizer, List.mem_cons]
    tauto

theorem ensureFinalizers_found : (m.ensureFinalizers fs).2 ↔ ∀ f ∈ fs, f ∈ m.finalizers := by
  induction fs generalizing m with
  | nil => simp [ensureFinalizers]
  | cons f rest ih =>
    simp only [ensureFinalizers, Bool.and_eq_true, ensureFinalizer_found, ih,
      mem_ensureFinalizer, List.mem_cons, forall_eq_or_imp]
    refine and_congr_right fun present => forall₂_congr fun g _ => ?_
    rw [or_iff_right_iff_imp]
    rintro rfl
    exact present

theorem ensureFinalizers_of_found (found : ∀ f ∈ fs, f ∈ m.finalizers) :
    (m.ensureFinalizers fs).1 = m := by
  induction fs generalizing m with
  | nil => rfl
  | cons f rest ih =>
    have present : f ∈ m.finalizers := found f (by simp)
    have same : (m.ensureFinalizer f).1 = m := by simp [ensureFinalizer_eq, present]
    simp only [ensureFinalizers, same]
    exact ih m fun g member => found g (by simp [member])

end

@[simp] theorem mem_removeFinalizer :
    g ∈ (m.removeFinalizer f).finalizers ↔ g ∈ m.finalizers ∧ g ≠ f := by
  by_cases present : f ∈ m.finalizers
  · simp [removeFinalizer, present]
  simp only [removeFinalizer, List.contains_eq_mem, present, decide_false, Bool.false_eq_true,
    ↓reduceIte, iff_self_and]
  rintro member rfl
  exact present member

/-- Nothing but the list of finalizers is changed. -/
theorem removeFinalizer_frame :
    ∃ finalizers, m.removeFinalizer f = { m with finalizers := finalizers } := by
  unfold removeFinalizer
  split
  · exact ⟨_, rfl⟩
  · exact ⟨m.finalizers, rfl⟩

end Lemmas

end ObjectMeta

section Ready

variable {σ τ : Type}

def newCustomReadyCondition (status : ConditionStatus) (reason message : String) : Condition :=
  { type := readyConditionType, status, reason, message }

variable (r : Resource σ τ)

/-- The first condition of type `Ready`. -/
def getReadyCondition : Option Condition :=
  r.status.conditions.find? fun c => c.type == readyConditionType

def isResourceReady : Bool :=
  match getReadyCondition r with
  | some c => c.status == .true
  | none => false

def readyConditionMatches (status : ConditionStatus) (reason message : String) : Bool :=
  match getReadyCondition r with
  | some c => c == newCustomReadyCondition status reason message
  | none => false

def setCondition (status : ConditionStatus) (reason message : String) : Resource σ τ :=
  { r with status :=
    { r.status with conditions := [newCustomReadyCondition status reason message] } }

def setObservedGeneration (observedGeneration : Int) : Resource σ τ :=
  { r with status := { r.status with observedGeneration := some observedGeneration } }

@[simp] theorem isResourceReady_setCondition (status : ConditionStatus) (reason message : String) :
    isResourceReady (setCondition r status reason message) = (status == .true) := by
  simp [isResourceReady, getReadyCondition, setCondition, newCustomReadyCondition]

@[simp] theorem isResourceReady_setObservedGeneration (generation : Int) :
    isResourceReady (setObservedGeneration r generation) = isResourceReady r := rfl

/-- Whether an object is ready is written in its status. -/
theorem isResourceReady_congr {r w : Resource σ τ}
    (same : w.status.conditions = r.status.conditions) : isResourceReady w = isResourceReady r := by
  rw [isResourceReady, getReadyCondition, same, ← getReadyCondition, ← isResourceReady]

end Ready

end ConfigConnector.K8s
