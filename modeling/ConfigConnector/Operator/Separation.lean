import ConfigConnector.Operator.Workloads

/- What one step does to the workloads of the two modes, and when they are kept apart. -/
namespace ConfigConnector.Operator

open Interact K8s List

variable {s after : State} {sts : Object} {isolation : Isolation} {manifests : Manifests}

section Moves

/-- All that one step does to the workloads. -/
inductive Moved (s : State) : State → Prop where
  | shrunk (after : State) (sets : after.statefulSets ⊆ s.statefulSets)
      (pods : after.pods ⊆ s.pods) : Moved s after
  | applied (obj : Object) : Moved s
      { s with statefulSets := obj :: s.statefulSets.filter (·.key ≠ obj.key) }
  | podCreated (sts : Object) (there : sts ∈ s.statefulSets) : Moved s (s.podCreated sts)

theorem Moved.refl (s : State) : Moved s s := .shrunk s (List.Subset.refl _) (List.Subset.refl _)

theorem drift_moved (moved : Drift s after) : Moved s after := by
  cases moved with
  | user configConnector contexts => exact .shrunk _ (List.Subset.refl _) (List.Subset.refl _)
  | collected keep => exact .shrunk _ (filter_subset_self _) (List.Subset.refl _)
  | podCreated sts there => exact .podCreated sts there
  | podDeleted keep => exact .shrunk _ (List.Subset.refl _) (filter_subset_self _)

theorem effect_moved {op : Op} (effect : Effect s op after) : Moved s after := by
  cases effect with
  | nothing => exact .refl s
  | configConnector cc resourceVersion =>
    exact .shrunk _ (List.Subset.refl _) (List.Subset.refl _)
  | contexts contexts => exact .shrunk _ (List.Subset.refl _) (List.Subset.refl _)
  | deleted obj =>
    unfold State.deleted
    split
    · exact .shrunk _ (filter_subset_self _) (List.Subset.refl _)
    · exact .refl s
  | applied obj =>
    unfold State.applied
    split
    · exact .applied obj
    · exact .refl s

theorem step_moved {w after : (machine isolation manifests).World}
    (taken : (machine isolation manifests).Step w after) : Moved w.state after.state := by
  cases taken with
  | drift after moved => exact drift_moved moved
  | start _ _ | stop _ => exact .refl _
  | act p seen op next answer after running answered =>
    exact effect_moved (effect_of_answers answered)

end Moves

section Kinds

theorem clusterMode_not_perNamespace (cluster : sts.isClusterMode) :
    ¬ sts.isPerNamespace := fun perNamespace => perNamespace.2 cluster

theorem mem_of_mem_applied {obj : Object}
    (member : sts ∈ obj :: s.statefulSets.filter (·.key ≠ obj.key)) :
    sts = obj ∨ sts ∈ s.statefulSets := by
  rcases mem_cons.mp member with same | kept
  · exact .inl same
  · exact .inr ((mem_filter.mp kept).1)

theorem mem_podCreated {pod : Pod} (member : pod ∈ s.pods)
    (differ : pod.key ≠ (podOf sts).key) : pod ∈ (s.podCreated sts).pods :=
  .tail _ (mem_filter.mpr ⟨member, by simpa using differ⟩)

theorem mem_of_mem_podCreated {pod : Pod} (member : pod ∈ (s.podCreated sts).pods) :
    pod = podOf sts ∨ pod ∈ s.pods := by
  rcases mem_cons.mp member with same | kept
  · exact .inl same
  · exact .inr ((mem_filter.mp kept).1)

/-- A step that brings no StatefulSet of a kind brings no workload of it. `sets` and `pods` are
the kind, as it is told for StatefulSets and for pods. -/
theorem Moved.workload {sets : Object → Prop} {pods : Pod → Prop} (moved : Moved s after)
    (same : ∀ sts, pods (podOf sts) ↔ sets sts)
    (brought : (∃ sts ∈ after.statefulSets, sets sts) → ∃ sts ∈ s.statefulSets, sets sts)
    (there : (∃ sts ∈ after.statefulSets, sets sts) ∨ ∃ pod ∈ after.pods, pods pod) :
    (∃ sts ∈ s.statefulSets, sets sts) ∨ ∃ pod ∈ s.pods, pods pod := by
  rcases there with set | ⟨pod, member, kind⟩
  · exact .inl (brought set)
  cases moved with
  | shrunk _ _ shrunk => exact .inr ⟨pod, shrunk member, kind⟩
  | applied obj => exact .inr ⟨pod, member, kind⟩
  | podCreated sts there =>
    rcases mem_of_mem_podCreated member with rfl | old
    · exact .inl ⟨sts, there, (same sts).mp kind⟩
    · exact .inr ⟨pod, old, kind⟩

end Kinds

section Exclusion

/-- A step that brings a StatefulSet of a controller manager finds no workload of the other
mode. -/
structure State.Timely (s after : State) : Prop where
  cluster : after.hasClusterModeSet → ¬ s.hasClusterModeSet → ¬ s.hasPerNamespace
  perNamespace : after.hasPerNamespaceSet → ¬ s.hasPerNamespaceSet → ¬ s.hasClusterMode

theorem State.Timely.of_sets (sets : after.statefulSets ⊆ s.statefulSets) : s.Timely after where
  cluster := fun ⟨sts, member, kind⟩ new => absurd ⟨sts, sets member, kind⟩ new
  perNamespace := fun ⟨sts, member, kind⟩ new => absurd ⟨sts, sets member, kind⟩ new

/-- The workloads of at most one mode are there. -/
def State.Separate (s : State) : Prop := ¬ (s.hasClusterMode ∧ s.hasPerNamespace)

theorem State.Separate.exclusive (separate : s.Separate) : s.Exclusive :=
  fun ⟨cluster, perNamespace⟩ => separate ⟨.inr cluster, .inr perNamespace⟩

section

variable (moved : Moved s after)
include moved

theorem Moved.clusterMode (brought : after.hasClusterModeSet → s.hasClusterModeSet)
    (there : after.hasClusterMode) : s.hasClusterMode :=
  moved.workload podOf_clusterMode brought there

theorem Moved.perNamespace (brought : after.hasPerNamespaceSet → s.hasPerNamespaceSet)
    (there : after.hasPerNamespace) : s.hasPerNamespace :=
  moved.workload podOf_perNamespace brought there

/-- One step brings StatefulSets of one mode only. -/
theorem Moved.one_mode :
    (after.hasClusterModeSet → s.hasClusterModeSet) ∨
      (after.hasPerNamespaceSet → s.hasPerNamespaceSet) := by
  cases moved with
  | shrunk _ sets _ => exact .inl fun ⟨sts, member, kind⟩ => ⟨sts, sets member, kind⟩
  | podCreated sts there => exact .inl id
  | applied obj =>
    by_cases cluster : obj.isClusterMode
    · right
      rintro ⟨sts, member, kind⟩
      rcases mem_of_mem_applied member with rfl | old
      · exact absurd kind (clusterMode_not_perNamespace cluster)
      · exact ⟨sts, old, kind⟩
    · left
      rintro ⟨sts, member, kind⟩
      rcases mem_of_mem_applied member with rfl | old
      · exact absurd kind cluster
      · exact ⟨sts, old, kind⟩

theorem Moved.separate (separate : s.Separate) (timely : s.Timely after) : after.Separate := by
  rintro ⟨cluster, perNamespace⟩
  rcases moved.one_mode with same | same
  · have before := moved.clusterMode same cluster
    have none : ¬ s.hasPerNamespace := fun other => separate ⟨before, other⟩
    apply none
    refine moved.perNamespace (fun brought => ?_) perNamespace
    by_contra new
    exact timely.perNamespace brought new before
  · have before := moved.perNamespace same perNamespace
    have none : ¬ s.hasClusterMode := fun other => separate ⟨other, before⟩
    apply none
    refine moved.clusterMode (fun brought => ?_) cluster
    by_contra new
    exact timely.cluster brought new before

end

end Exclusion

section Runs

variable {meets : (machine isolation manifests).World → (machine isolation manifests).World → Prop}
  {w : (machine isolation manifests).World}

/-- Runs in which every StatefulSet is brought in time never show the pods of both modes. -/
theorem exclusive_of_timely
    (timely : ∀ w after, (machine isolation manifests).Reach Starts meets w →
      (machine isolation manifests).Step w after → meets w after → w.state.Timely after.state)
    (reached : (machine isolation manifests).Reach Starts meets w) : w.state.Exclusive := by
  apply State.Separate.exclusive
  induction reached with
  | init s starts => exact fun both => starts.1 both.1
  | step w after reached taken met ih =>
    exact (step_moved taken).separate ih (timely w after reached taken met)

end Runs

end ConfigConnector.Operator
