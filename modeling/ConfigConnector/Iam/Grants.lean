import ConfigConnector.Iam.Bindings

/- A list of bindings read as the set of grants it makes, and what each
function of bindings.go does to that set. -/
namespace ConfigConnector.Iam

open K8s GoMap Option

structure Grant where
  key : IamBindingKey
  member : Member
  deriving DecidableEq, Repr

def grants (bindings : List IAMPolicyBinding) : Set Grant :=
  fun g => ∃ b ∈ bindings, getIamBindingKey b = g.key ∧ g.member ∈ b.members

variable {g : Grant}

theorem mem_grants {bindings : List IAMPolicyBinding} :
    g ∈ grants bindings ↔
      ∃ b ∈ bindings, getIamBindingKey b = g.key ∧ g.member ∈ b.members := Iff.rfl

instance (bindings : List IAMPolicyBinding) (g : Grant) : Decidable (g ∈ grants bindings) :=
  inferInstanceAs (Decidable
    (∃ b ∈ bindings, getIamBindingKey b = g.key ∧ g.member ∈ b.members))

@[simp] theorem grants_nil : grants [] = ∅ := by
  ext g
  simp [mem_grants]

theorem grants_cons (a : IAMPolicyBinding) (rest : List IAMPolicyBinding) :
    grants (a :: rest) = grants [a] ∪ grants rest := by
  ext g
  simp only [mem_grants, Set.mem_union, List.mem_cons, List.mem_nil_iff, or_false,
    exists_eq_or_imp, exists_eq_left]

theorem mem_grants_singleton {a : IAMPolicyBinding} :
    g ∈ grants [a] ↔ getIamBindingKey a = g.key ∧ g.member ∈ a.members := by
  simp [mem_grants]

theorem grants_append (first second : List IAMPolicyBinding) :
    grants (first ++ second) = grants first ∪ grants second := by
  ext g
  simp only [mem_grants, Set.mem_union, List.mem_append, or_and_right, exists_or]

/-- The grants of a list do not depend on its order. -/
theorem grants_perm {first second : List IAMPolicyBinding} (same : first.Perm second) :
    grants first = grants second := by
  ext g
  simp only [mem_grants, same.mem_iff]

variable (order : RangeOrder)

section Members

variable (members others : List Member) (m : Member)

theorem memberMap_lookup (initial : AList fun _ : Member => Bool) :
    ((memberMap members initial).lookup m).isSome ↔ m ∈ members ∨ (initial.lookup m).isSome := by
  induction members generalizing initial with
  | nil => simp [memberMap]
  | cons head rest ih =>
    have step := ih (initial.insert head true)
    rw [memberMap, List.foldl_cons, ← memberMap, step, List.mem_cons]
    by_cases same : m = head
    · subst same
      simp
    · simp [AList.lookup_insert_ne same, same]

@[simp] theorem mem_mergeMembers :
    m ∈ mergeMembers order members others ↔ m ∈ members ∨ m ∈ others := by
  simp only [mergeMembers, mem_sortSlice, List.mem_map, Prod.exists, exists_and_right, mem_range,
    exists_eq_right, ← Option.isSome_iff_exists]
  rw [memberMap_lookup, memberMap_lookup]
  simp [or_comm]

private theorem memberMap_isNone : ((memberMap others ∅).lookup m).isNone = true ↔ m ∉ others := by
  have keys := memberMap_lookup others m ∅
  simp only [AList.lookup_empty, isSome_none, Bool.false_eq_true, or_false] at keys
  rw [← keys, not_isSome_iff_eq_none, isNone_iff_eq_none]

@[simp] theorem mem_removeDeletedMembers :
    m ∈ removeDeletedMembers members others ↔ m ∈ members ∧ m ∉ others := by
  rw [removeDeletedMembers, List.mem_filter, memberMap_isNone]

@[simp] theorem mem_computeDeletedMembers :
    m ∈ computeDeletedMembers members others ↔ m ∈ others ∧ m ∉ members := by
  rw [computeDeletedMembers, List.mem_filter, memberMap_isNone]

end Members

namespace BindingMap

/-- The grants of a map of bindings. -/
def grants (m : BindingMap) : Set Grant :=
  fun g => ∃ b, m.lookup g.key = some b ∧ g.member ∈ b.members

theorem mem_grants {m : BindingMap} :
    g ∈ m.grants ↔ ∃ b, m.lookup g.key = some b ∧ g.member ∈ b.members := Iff.rfl

@[simp] theorem grants_empty : empty.grants = ∅ := by
  ext g
  simp [mem_grants, lookup, empty]

section

variable (m : BindingMap)
include m

section

variable (k : IamBindingKey) (b : IAMPolicyBinding)
include k b

theorem lookup_set (same : getIamBindingKey b = k) (other : IamBindingKey) :
    (m.set k b same).lookup other = if other = k then some b else m.lookup other := by
  rw [lookup, set]
  split
  · rename_i equal
    rw [equal, AList.lookup_insert]
  · rename_i differ
    rw [AList.lookup_insert_ne differ, lookup]

theorem lookup_setMembers (found : m.lookup k = some b) (members : List Member)
    (other : IamBindingKey) :
    (m.setMembers k b found members).lookup other =
      if other = k then some { b with members } else m.lookup other :=
  lookup_set m k { b with members } _ other

/-- Storing a binding replaces the grants of its key and no others. -/
theorem mem_grants_set (same : getIamBindingKey b = k) (g : Grant) :
    g ∈ (m.set k b same).grants ↔
      (g.key = k ∧ g.member ∈ b.members) ∨ (g.key ≠ k ∧ g ∈ m.grants) := by
  rw [mem_grants, lookup_set]
  by_cases equal : g.key = k
  · simp [equal]
  · simp [mem_grants, equal]

theorem mem_grants_setMembers (found : m.lookup k = some b) (members : List Member) (g : Grant) :
    g ∈ (m.setMembers k b found members).grants ↔
      (g.key = k ∧ g.member ∈ members) ∨ (g.key ≠ k ∧ g ∈ m.grants) :=
  mem_grants_set m k { b with members } _ g

end

theorem mem_nonEmpty (b : IAMPolicyBinding) :
    b ∈ m.nonEmpty order ↔ m.lookup (getIamBindingKey b) = some b ∧ b.members ≠ [] := by
  simp only [nonEmpty, List.mem_filter, List.mem_map, Prod.exists, mem_range, exists_eq_right,
    List.length_pos_iff, gt_iff_lt, decide_eq_true_eq]
  refine and_congr_left fun _ => ⟨?_, fun found => ⟨_, found⟩⟩
  rintro ⟨k, found⟩
  rw [m.keyed k b found]
  exact found

theorem grants_nonEmpty : Iam.grants (m.nonEmpty order) = m.grants := by
  ext g
  simp only [Iam.mem_grants, mem_nonEmpty, mem_grants]
  constructor
  · rintro ⟨b, ⟨found, _⟩, key, member⟩
    exact ⟨b, key ▸ found, member⟩
  · rintro ⟨b, found, member⟩
    have key : getIamBindingKey b = g.key := m.keyed g.key b found
    exact ⟨b, ⟨key ▸ found, List.ne_nil_of_mem member⟩, key, member⟩

theorem nonEmpty_keys_nodup : ((m.nonEmpty order).map getIamBindingKey).Nodup := by
  have entries : ((range order m.entries).map Prod.snd).map getIamBindingKey =
      (range order m.entries).map Prod.fst := by
    rw [List.map_map]
    refine List.map_congr_left fun entry member => ?_
    exact m.keyed entry.1 entry.2 ((mem_range order m.entries entry.1 entry.2).mp member)
  have kept : ((m.nonEmpty order).map getIamBindingKey).Sublist
      (((range order m.entries).map Prod.snd).map getIamBindingKey) :=
    List.filter_sublist.map getIamBindingKey
  exact kept.nodup (entries ▸ range_keys_nodup order m.entries)

end

end BindingMap

section Merge

variable (orders : Orders)

theorem mergeInto_grants (m : BindingMap) (bindings : List IAMPolicyBinding) :
    (mergeInto orders m bindings).grants = m.grants ∪ grants bindings := by
  -- The grants stored so far and those of the bindings still to come never change.
  induction bindings generalizing orders m with
  | nil => simp [mergeInto]
  | cons a rest ih =>
    rw [mergeInto, grants_cons, ← Set.union_assoc]
    split
    · rename_i absent
      rw [ih]
      congr 1
      ext g
      rw [BindingMap.mem_grants_set, Set.mem_union, mem_grants_singleton]
      by_cases equal : g.key = getIamBindingKey a
      · simp [BindingMap.mem_grants, equal, absent]
      · simp [equal, Ne.symm equal]
    · rename_i b found
      rw [ih]
      congr 1
      ext g
      rw [BindingMap.mem_grants_setMembers, Set.mem_union, mem_grants_singleton]
      by_cases equal : g.key = getIamBindingKey a
      · simp [BindingMap.mem_grants, equal, found]
      · simp [equal, Ne.symm equal]

@[simp] theorem mergeBindings_grants (bindings : List IAMPolicyBinding) :
    (mergeBindings orders bindings).grants = grants bindings := by
  rw [mergeBindings, mergeInto_grants, BindingMap.grants_empty, Set.empty_union]

@[simp] theorem mergeBindingsWithSameRoleAndCondition_grants (bindings : List IAMPolicyBinding) :
    grants (mergeBindingsWithSameRoleAndCondition orders bindings) = grants bindings := by
  rw [mergeBindingsWithSameRoleAndCondition, BindingMap.grants_nonEmpty, mergeBindings_grants]

@[simp] theorem mergeBindingSlices_grants (first second : List IAMPolicyBinding) :
    grants (mergeBindingSlices orders first second) = grants first ∪ grants second := by
  rw [mergeBindingSlices, mergeBindingsWithSameRoleAndCondition_grants, grants_append]

theorem deletedBinding_grants (m : BindingMap) (k : IamBindingKey) (a : IAMPolicyBinding)
    (own : getIamBindingKey a = k) (g : Grant) :
    (∃ b, deletedBinding m k a = some b ∧ getIamBindingKey b = g.key ∧ g.member ∈ b.members) ↔
      g.key = k ∧ g.member ∈ a.members ∧ g ∉ m.grants := by
  rw [deletedBinding, BindingMap.mem_grants]
  cases present : m.lookup k with
  | none =>
    simp only [Option.some.injEq, exists_eq_left', own, eq_comm (a := k)]
    refine and_congr_right fun same => ?_
    simp [same, present]
  | some b =>
    have stored : getIamBindingKey b = k := m.keyed k b present
    have kept : ∀ members, getIamBindingKey { b with members } = k := fun _ => stored
    simp only [ite_none_right_eq_some, Option.some.injEq, and_assoc, exists_and_left,
      exists_eq_left', kept, mem_computeDeletedMembers, eq_comm (a := k)]
    constructor
    · rintro ⟨_, same, member, dropped⟩
      refine ⟨same, member, ?_⟩
      simpa [same, present] using dropped
    · rintro ⟨same, member, dropped⟩
      have gone : g.member ∉ b.members := by simpa [same, present] using dropped
      have removed : g.member ∈ computeDeletedMembers b.members a.members :=
        (mem_computeDeletedMembers b.members a.members g.member).mpr ⟨member, gone⟩
      exact ⟨List.length_pos_of_mem removed, same, member, gone⟩

/-- What is to be removed: the grants applied last that are no longer asked for. -/
@[simp] theorem computeDeletedMembersPerBinding_grants
    (bindings lastApplied : List IAMPolicyBinding) :
    grants (computeDeletedMembersPerBinding orders bindings lastApplied) =
      grants lastApplied \ grants bindings := by
  ext g
  rw [Set.mem_sdiff, ← mergeBindings_grants (orders.below 1) lastApplied,
    ← mergeBindings_grants (orders.below 0) bindings, mem_grants, BindingMap.mem_grants]
  simp only [computeDeletedMembersPerBinding, List.mem_filterMap, Prod.exists, mem_range]
  constructor
  · rintro ⟨b, ⟨k, a, found, deleted⟩, key, member⟩
    have own := (mergeBindings (orders.below 1) lastApplied).keyed k a found
    obtain ⟨rfl, applied, dropped⟩ :=
      (deletedBinding_grants _ k a own g).mp ⟨b, deleted, key, member⟩
    exact ⟨⟨a, found, applied⟩, dropped⟩
  · rintro ⟨⟨a, found, applied⟩, dropped⟩
    have own := (mergeBindings (orders.below 1) lastApplied).keyed g.key a found
    obtain ⟨b, deleted, key, member⟩ :=
      (deletedBinding_grants _ g.key a own g).mpr ⟨rfl, applied, dropped⟩
    exact ⟨b, ⟨g.key, a, found, deleted⟩, key, member⟩

theorem removeFrom_grants (m : BindingMap) (deleted : List IAMPolicyBinding) :
    (removeFrom m deleted).grants = m.grants \ grants deleted := by
  induction deleted generalizing m with
  | nil => simp [removeFrom]
  | cons a rest ih =>
    rw [removeFrom, grants_cons, ← Set.sdiff_sdiff]
    split
    · rename_i absent
      rw [ih]
      congr 1
      ext g
      rw [Set.mem_sdiff, mem_grants_singleton]
      by_cases equal : g.key = getIamBindingKey a
      · simp [BindingMap.mem_grants, equal, absent]
      · simp [Ne.symm equal]
    · rename_i b found
      rw [ih]
      congr 1
      ext g
      rw [BindingMap.mem_grants_setMembers, Set.mem_sdiff, mem_grants_singleton]
      by_cases equal : g.key = getIamBindingKey a
      · simp [BindingMap.mem_grants, equal, found]
      · simp [equal, Ne.symm equal]

@[simp] theorem removeMembersPerBinding_grants (bindings deleted : List IAMPolicyBinding) :
    grants (removeMembersPerBinding orders bindings deleted) =
      grants bindings \ grants deleted := by
  rw [removeMembersPerBinding, BindingMap.grants_nonEmpty, removeFrom_grants, mergeBindings_grants]

end Merge

end ConfigConnector.Iam
