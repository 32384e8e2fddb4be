import ConfigConnector.Actuation.Skip
import ConfigConnector.K8s.ApiServer

/- Which updates of an object a controller is woken for, and whether the reconcile
that follows is skipped again. The watch looks at the change, the skip rule at
the status of the object. -/
namespace ConfigConnector.Actuation

open K8s

def containerAnnotations : List String :=
  projectIDAnnotation :: folderIDAnnotation :: orgIDAnnotation :: []

def internalForceReconcileAnnotation : String := "test.cnrm.cloud.google.com/reconcile-cookie"

/-- A map lookup in Go: an absent key reads as the empty string. -/
def read (annotations : StringMap) (key : String) : String := (annotations.lookup key).getD ""

def hasDeletionDefenderFinalizerBeenRemoved (old new : ObjectMeta) : Bool :=
  old.hasFinalizer deletionDefenderFinalizerName && !new.hasFinalizer deletionDefenderFinalizerName

def areContainerAnnotationsEqual (a b : StringMap) : Bool :=
  containerAnnotations.all fun x => read a x == read b x

/-- `UnderlyingResourceOutOfSyncPredicate.Update`. -/
def outOfSyncUpdate (old new : ObjectMeta) : Bool :=
  if !old.isDeleting && new.isDeleting then true
  else if hasDeletionDefenderFinalizerBeenRemoved old new then true
  else if !areContainerAnnotationsEqual old.annotations new.annotations then true
  else if old.labels ≠ new.labels then true
  else if read old.annotations internalForceReconcileAnnotation ≠
      read new.annotations internalForceReconcileAnnotation then true
  -- A new interval of 0 is no reason of its own to reconcile.
  else if read old.annotations reconcileIntervalInSecondsAnnotation ≠
        read new.annotations reconcileIntervalInSecondsAnnotation ∧
      parseInt32 (read new.annotations reconcileIntervalInSecondsAnnotation) ≠ some 0 then true
  else new.generation ≠ old.generation

/-- The changes of an object that have to reach the underlying resource. -/
structure Unchanged (old new : ObjectMeta) : Prop where
  container : areContainerAnnotationsEqual old.annotations new.annotations = true
  labels : old.labels = new.labels
  force : read old.annotations internalForceReconcileAnnotation =
    read new.annotations internalForceReconcileAnnotation
  generation : new.generation = old.generation

/-- The watch lets every such change through. -/
theorem outOfSyncUpdate_of_changed {old new : ObjectMeta} (changed : ¬ Unchanged old new) :
    outOfSyncUpdate old new := by
  by_contra ignored
  apply changed
  unfold outOfSyncUpdate at ignored
  split at ignored
  · exact absurd rfl ignored
  split at ignored
  · exact absurd rfl ignored
  split at ignored
  · exact absurd rfl ignored
  rename_i container
  split at ignored
  · exact absurd rfl ignored
  rename_i labels
  split at ignored
  · exact absurd rfl ignored
  rename_i force
  split at ignored
  · exact absurd rfl ignored
  · have generation : new.generation = old.generation := by simpa using ignored
    exact ⟨by simpa using container, not_not.mp labels, not_not.mp force, generation⟩

section Agreement

variable {σ τ : Type} [DecidableEq σ]

/-- The skip rule looks only at the generation and the status, so it lets a change
through exactly if the old status is not already about the new generation. -/
theorem shouldSkip_updated (old r : Resource σ τ) (version : Nat) {val : String}
    (annotated : r.metadata.annotations.lookup reconcileIntervalInSecondsAnnotation = some val)
    (zero : parseInt32 val = some 0) :
    shouldSkip ((old.updatedBy r).withVersion version).toUnstructured r.metadata.annotations =
      .ok (decide (old.status.observedGeneration = some (old.updatedBy r).metadata.generation) &&
        saysUpToDate old) := by
  have interval : meanReconcileReenqueuePeriodFromAnnotation val = .ok 0 := by
    unfold meanReconcileReenqueuePeriodFromAnnotation
    rw [zero]
    rfl
  rw [shouldSkip_resource, annotated]
  change (if old.status.observedGeneration = some (old.updatedBy r).metadata.generation then _
    else _) = _
  by_cases observed : old.status.observedGeneration = some (old.updatedBy r).metadata.generation
  · simp only [observed, if_true, decide_true, Bool.true_and, interval]
    rfl
  · simp only [observed, if_false, decide_false, Bool.false_and]

/-- A change that the watch lets through for its labels, its container, its force
annotation or its generation is actuated exactly if the status from before the
change does not say that the generation after the change is up to date. With a
status that is not ahead of its object, every change of the spec is actuated. -/
theorem admitted_change_actuated_iff (old r : Resource σ τ) (version : Nat) (val : String)
    (annotated : r.metadata.annotations.lookup reconcileIntervalInSecondsAnnotation = some val)
    (zero : parseInt32 val = some 0)
    (changed : ¬ Unchanged old.metadata ((old.updatedBy r).withVersion version).metadata) :
    outOfSyncUpdate old.metadata ((old.updatedBy r).withVersion version).metadata = true ∧
    (shouldSkip ((old.updatedBy r).withVersion version).toUnstructured
        ((old.updatedBy r).withVersion version).metadata.annotations = .ok false ↔
      ¬ (old.status.observedGeneration = some (old.updatedBy r).metadata.generation ∧
        ∃ c ∈ old.status.conditions, c.status = .true ∧ c.reason = upToDate)) ∧
    (r.spec ≠ old.spec →
      (∀ g, old.status.observedGeneration = some g → g ≤ old.metadata.generation) →
      shouldSkip ((old.updatedBy r).withVersion version).toUnstructured
        ((old.updatedBy r).withVersion version).metadata.annotations = .ok false) := by
  have skip := shouldSkip_updated old r version annotated zero
  refine ⟨outOfSyncUpdate_of_changed changed, ?_, ?_⟩
  · change shouldSkip _ r.metadata.annotations = _ ↔ _
    rw [skip]
    simp [saysUpToDate]
  intro respecified notAhead
  change shouldSkip _ r.metadata.annotations = _
  have raised : (old.updatedBy r).metadata.generation = old.metadata.generation + 1 := by
    simp [Resource.updatedBy, respecified]
  have older : old.status.observedGeneration ≠
      some (old.updatedBy r).metadata.generation := by
    intro observed
    have bound := notAhead _ observed
    omega
  rw [skip]
  simp [older]

/-- An object that is up to date and asks for no periodic reconciles. -/
def idle (size : Nat) (labels : StringMap) : Resource Nat Unit where
  metadata := { ObjectMeta.created "ns" "bucket" with
    annotations := (∅ : StringMap).insert reconcileIntervalInSecondsAnnotation "0"
    labels := labels }
  spec := size
  status := ⟨[newCustomReadyCondition .true upToDate upToDateMessage], some 1, ()⟩

/-- A new label wakes the controller, and the reconcile is skipped. -/
theorem label_change_skipped :
    ¬ Unchanged (idle 1 ∅).metadata
        ((idle 1 ∅).updatedBy (idle 1 ((∅ : StringMap).insert "env" "prod"))).metadata ∧
      outOfSyncUpdate (idle 1 ∅).metadata
        ((idle 1 ∅).updatedBy (idle 1 ((∅ : StringMap).insert "env" "prod"))).metadata = true ∧
      shouldSkip
        ((idle 1 ∅).updatedBy (idle 1 ((∅ : StringMap).insert "env" "prod"))).toUnstructured
        ((idle 1 ∅).updatedBy (idle 1 ((∅ : StringMap).insert "env" "prod"))).metadata.annotations =
          .ok true := by
  have changed : ¬ Unchanged (idle 1 ∅).metadata
      ((idle 1 ∅).updatedBy (idle 1 ((∅ : StringMap).insert "env" "prod"))).metadata := by
    intro same
    have labels : (∅ : StringMap).lookup "env" =
        ((∅ : StringMap).insert "env" "prod").lookup "env" :=
      congrArg (fun labels : StringMap => labels.lookup "env") same.labels
    simp at labels
  refine ⟨changed, outOfSyncUpdate_of_changed changed, ?_⟩
  exact shouldSkip_updated (idle 1 ∅) (idle 1 ((∅ : StringMap).insert "env" "prod")) 1
    (Finmap.lookup_insert _) rfl

theorem admitted_change_actuated_iff_respecified :
    ¬ Unchanged (idle 1 ∅).metadata ((idle 1 ∅).updatedBy (idle 2 ∅)).metadata ∧
      shouldSkip ((idle 1 ∅).updatedBy (idle 2 ∅)).toUnstructured
        ((idle 1 ∅).updatedBy (idle 2 ∅)).metadata.annotations = .ok false := by
  have changed : ¬ Unchanged (idle 1 ∅).metadata
      ((idle 1 ∅).updatedBy (idle 2 ∅)).metadata := by
    intro same
    exact absurd same.generation (by decide)
  refine ⟨changed, ?_⟩
  have actuated := admitted_change_actuated_iff (idle 1 ∅) (idle 2 ∅) 1 "0"
    (Finmap.lookup_insert _) rfl changed
  exact actuated.2.2 (by decide) (by rintro g ⟨⟩; decide)

end Agreement

end ConfigConnector.Actuation
