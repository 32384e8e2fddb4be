import ConfigConnector.Lib.GoSlice
import ConfigConnector.Lib.Protobuf

/- The diff of two messages of one type by their top-level fields. -/
namespace ConfigConnector.Direct

open Proto List

variable {σ : Type} [DecidableEq σ] (types : Types σ) {d : Descriptor σ}

structure FieldChange (σ : Type) where
  fieldPath : String
  actualValue : Value σ
  desiredValue : Value σ

variable (desired actual : d.Message)

/-- Each field of the type is found in both messages, also where it is not populated. After
`Value.Equal` the code asks `proto.Equal`, which is true of less. -/
def fieldHasChanged (i : d.Index) : Option (FieldChange σ) :=
  let actualValue := (d.field i).get types (actual.slot i)
  let desiredValue := (d.field i).get types (desired.slot i)
  if actualValue = desiredValue then none
  else some ⟨(d.field i).name, actualValue, desiredValue⟩

/-- The diff, and the paths of the field mask. -/
def diffForTopLevelFields : List (FieldChange σ) × List String :=
  let diff := ((List.finRange _).filterMap (fieldHasChanged types desired actual)).mergeSort
    fun a b => a.fieldPath ≤ b.fieldPath
  (diff, diff.map (·.fieldPath))

/-- The field mask of the diff. -/
abbrev diffMask : List String :=
  (diffForTopLevelFields types desired actual).2

/-- The fields that a mask lists, set to what the message has in them. -/
def applied (mask : List String) (desired actual : d.Message) : d.Message :=
  ((List.finRange _).filter fun i => (d.field i).name ∈ mask).foldl
    (fun m i => m.set i (desired.slot i)) actual

section Mask

variable {types desired actual}

variable {i : d.Index} {change : FieldChange σ}

theorem fieldHasChanged_eq_some :
    fieldHasChanged types desired actual i = some change →
      change.fieldPath = (d.field i).name := by
  unfold fieldHasChanged
  dsimp only
  split
  · exact nofun
  · rintro ⟨⟩
    rfl

theorem diff_eq_nil (same : ∀ i, fieldHasChanged types desired actual i = none) :
    diffForTopLevelFields types desired actual = ([], []) := by
  rw [diffForTopLevelFields, filterMap_eq_nil_iff.mpr fun i _ => same i, mergeSort_nil]
  rfl

theorem mem_diff :
    change ∈ (diffForTopLevelFields types desired actual).1 ↔
      ∃ i, fieldHasChanged types desired actual i = some change := by
  simp [diffForTopLevelFields]

theorem mem_diffMask :
    (d.field i).name ∈ diffMask types desired actual ↔
      (d.field i).get types (actual.slot i) ≠ (d.field i).get types (desired.slot i) := by
  rw [diffMask, show (diffForTopLevelFields types desired actual).2 =
    (diffForTopLevelFields types desired actual).1.map (·.fieldPath) from rfl, mem_map]
  simp only [mem_diff]
  constructor
  · rintro ⟨change, ⟨j, found⟩, same⟩
    obtain rfl : j = i := d.index_eq ((fieldHasChanged_eq_some found).symm.trans same)
    intro equal
    simp [fieldHasChanged, equal] at found
  · intro differ
    exact ⟨_, ⟨i, by rw [fieldHasChanged, if_neg differ]⟩, rfl⟩

theorem diffMask_sorted : (diffMask types desired actual).Pairwise (· < ·) := by
  have distinct : (diffMask types desired actual).Nodup := by
    refine ((mergeSort_perm _ _).map _).nodup_iff.mpr ?_
    rw [map_filterMap]
    refine List.Nodup.filterMap ?_ (nodup_finRange _)
    intro i j name first second
    obtain ⟨a, here, same⟩ := Option.map_eq_some_iff.mp first
    obtain ⟨b, there, same'⟩ := Option.map_eq_some_iff.mp second
    exact d.index_eq ((fieldHasChanged_eq_some here).symm.trans
      ((same.trans same'.symm).trans (fieldHasChanged_eq_some there)))
  have sorted : (diffMask types desired actual).Pairwise (· ≤ ·) :=
    pairwise_map.mpr (GoSlice.sorted_by FieldChange.fieldPath _)
  exact (sorted.and distinct).imp fun both => lt_of_le_of_ne both.1 both.2

end Mask

/-- The mask is sorted and lists the fields in which the messages differ, so that they are equal if
it is empty, and that the one becomes the other by what the mask lists. -/
structure ExactMask : Prop where
  sorted : (diffMask types desired actual).Pairwise (· < ·)
  listed : ∀ i : d.Index, (d.field i).name ∈ diffMask types desired actual ↔
    desired.slot i ≠ actual.slot i
  equal : diffMask types desired actual = [] → desired = actual
  yields : applied (diffMask types desired actual) desired actual = desired

theorem applied_of_listed {mask : List String} {desired actual : d.Message}
    (listed : ∀ i : d.Index, (d.field i).name ∉ mask → desired.slot i = actual.slot i) :
    applied mask desired actual = desired := by
  have step : ∀ (done : List d.Index) (m : d.Message),
      (∀ i, i ∈ done ∨ m.slot i = desired.slot i) →
      (done.foldl (fun m i => m.set i (desired.slot i)) m) = desired := by
    intro done
    induction done with
    | nil =>
      intro m all
      exact Descriptor.Message.ext fun i => (all i).resolve_left nofun
    | cons first rest ih =>
      intro m all
      refine ih _ fun i => ?_
      rcases all i with member | same
      · rcases mem_cons.mp member with rfl | later
        · exact .inr (Descriptor.Message.slot_set_self _ _ _)
        · exact .inl later
      · exact .inr (Descriptor.Message.slot_set_of same)
  refine step _ _ fun i => ?_
  by_cases member : (d.field i).name ∈ mask
  · exact .inl (by simp [member])
  · exact .inr (listed i member).symm

/-- The top-level diff is exact just when no field is populated with its default in one message
and not populated in the other. -/
theorem topLevelDiff_exact_iff (desired actual : d.Message) :
    ExactMask types desired actual ↔
      ∀ i : d.Index, ¬ (d.field i).PresenceOnly types (desired.slot i) (actual.slot i) := by
  constructor
  · intro exact i presence
    have differ : desired.slot i ≠ actual.slot i := by
      intro same
      rw [same] at presence
      rcases presence with ⟨unset, default⟩ | ⟨unset, default⟩ <;>
        exact Field.default_ne_unset (default.symm.trans unset)
    exact mem_diffMask.mp ((exact.listed i).mpr differ)
      (Field.get_eq_get_iff.mpr (.inr presence)).symm
  · intro none
    have listed : ∀ i : d.Index, (d.field i).name ∈ diffMask types desired actual ↔
        desired.slot i ≠ actual.slot i := by
      intro i
      rw [mem_diffMask, ne_comm]
      refine not_congr (Field.get_eq_get_iff.trans ⟨fun read => ?_, .inl⟩)
      exact read.resolve_right (none i)
    have kept : ∀ i : d.Index, (d.field i).name ∉ diffMask types desired actual →
        desired.slot i = actual.slot i := by
      intro i absent
      by_contra differ
      exact absent ((listed i).mpr differ)
    refine ⟨diffMask_sorted, listed, fun empty => ?_, applied_of_listed kept⟩
    exact Descriptor.Message.ext fun i => kept i (by simp [empty])

/-- A message with an optional number. -/
def sized : Descriptor Nat where
  fields := [{ name := "size", kind := .scalar 0 }]
  distinct := by decide

def sizedMessage (size : Value Nat) : sized.Message where
  slot := fun _ => size
  oneof := fun i j excludes => absurd (Subsingleton.elim (α := Fin 1) i j) excludes.1

/-- A size of zero that is asked for is not told from none. -/
theorem zero_size_not_listed :
    diffForTopLevelFields (fun _ => []) (sizedMessage (.scalar 0)) (sizedMessage .unset) =
      ([], []) ∧
      (sizedMessage (.scalar 0)).slot ⟨0, by decide⟩ ≠
        (sizedMessage .unset).slot ⟨0, by decide⟩ := by
  refine ⟨diff_eq_nil fun i => ?_, by decide⟩
  obtain rfl : i = ⟨0, by decide⟩ := Subsingleton.elim (α := Fin 1) _ _
  rfl

end ConfigConnector.Direct
