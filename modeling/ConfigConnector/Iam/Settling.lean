import ConfigConnector.Iam.Merge
import ConfigConnector.Iam.PartialPolicy

/- Repeating the merge: which bindings the lists of the status settle on. -/
namespace ConfigConnector.Iam

open K8s GoMap List

variable {bindings : List IAMPolicyBinding}

section Members

theorem mergeMembers_sorted (order : RangeOrder) (members others : List Member) :
    (mergeMembers order members others).Pairwise (· < ·) := by
  refine sortSlice_strict _ (fun m => m) _ ?_ ?_
  · intro a b
    exact decide_eq_true_iff
  · rw [map_id']
    exact range_keys_nodup order _

/-- Merged members depend on neither the order of the `range` nor the order in which they
are written. -/
theorem mergeMembers_eq (order order' : RangeOrder) {members others members' others' : List Member}
    (same : ∀ m, m ∈ members ∨ m ∈ others ↔ m ∈ members' ∨ m ∈ others') :
    mergeMembers order members others = mergeMembers order' members' others' := by
  refine eq_of_strict (fun m => m) (mergeMembers_sorted ..) (mergeMembers_sorted ..) fun m => ?_
  rw [mem_mergeMembers, mem_mergeMembers, same]

end Members

variable {first second : List IAMPolicyBinding} (orders : Orders)

section Lookup

/-- The binding that `mergeBindings` makes of all bindings of one key. -/
def mergedBinding : List IAMPolicyBinding → Option IAMPolicyBinding
  | [] => none
  | b :: rest => some (rest.foldl
      (fun b a => { b with members := mergeMembers .stored b.members a.members }) b)

/-- The bindings of a key, in the order in which they are written. -/
def ofKey (k : IamBindingKey) (bindings : List IAMPolicyBinding) : List IAMPolicyBinding :=
  bindings.filter fun b => getIamBindingKey b = k

theorem mem_ofKey {k : IamBindingKey} {b : IAMPolicyBinding} :
    b ∈ ofKey k bindings ↔ b ∈ bindings ∧ getIamBindingKey b = k := by
  simp [ofKey]

theorem mergeInto_lookup (m : BindingMap) (bindings : List IAMPolicyBinding) (k : IamBindingKey) :
    (mergeInto orders m bindings).lookup k =
      mergedBinding ((m.lookup k).toList ++ ofKey k bindings) := by
  -- The binding stored for a key stands for the bindings of that key that were met.
  induction bindings generalizing orders m with
  | nil => cases present : m.lookup k <;> simp [mergeInto, ofKey, mergedBinding, present]
  | cons a rest ih =>
    rw [mergeInto]
    by_cases same : getIamBindingKey a = k
    · subst same
      have first : ofKey (getIamBindingKey a) (a :: rest) = a :: ofKey (getIamBindingKey a) rest :=
        filter_cons_of_pos (by simp)
      rw [first]
      split
      · rename_i absent
        rw [ih, BindingMap.lookup_set, if_pos rfl, absent]
        rfl
      rename_i b found
      rw [ih, BindingMap.lookup_setMembers, if_pos rfl, found,
        mergeMembers_eq (orders.below 0).here .stored fun m => Iff.rfl]
      rfl
    · have skipped : ofKey k (a :: rest) = ofKey k rest := filter_cons_of_neg (by simp [same])
      rw [skipped]
      split
      · rw [ih, BindingMap.lookup_set, if_neg (Ne.symm same)]
      · rw [ih, BindingMap.lookup_setMembers, if_neg (Ne.symm same)]

theorem mergeBindings_lookup (bindings : List IAMPolicyBinding) (k : IamBindingKey) :
    (mergeBindings orders bindings).lookup k = mergedBinding (ofKey k bindings) := by
  rw [mergeBindings, mergeInto_lookup]
  simp [BindingMap.lookup, BindingMap.empty]

theorem mem_mergeBindingsWithSameRoleAndCondition (bindings : List IAMPolicyBinding)
    (b : IAMPolicyBinding) :
    b ∈ mergeBindingsWithSameRoleAndCondition orders bindings ↔
      mergedBinding (ofKey (getIamBindingKey b) bindings) = some b ∧ b.members ≠ [] := by
  rw [mergeBindingsWithSameRoleAndCondition, BindingMap.mem_nonEmpty, mergeBindings_lookup]

/-- Where no two bindings share a key, that key's bindings are at most one. -/
theorem ofKey_eq_of_mem (unique : (bindings.map getIamBindingKey).Nodup) {b : IAMPolicyBinding}
    (member : b ∈ bindings) : ofKey (getIamBindingKey b) bindings = [b] := by
  induction bindings with
  | nil => cases member
  | cons a rest ih =>
    obtain ⟨fresh, others⟩ := nodup_cons.mp unique
    rcases mem_cons.mp member with same | inRest
    · subst same
      have none : ofKey (getIamBindingKey b) rest = [] := by
        rw [eq_nil_iff_forall_not_mem]
        intro c found
        obtain ⟨inRest, key⟩ := mem_ofKey.mp found
        exact fresh (mem_map.mpr ⟨c, inRest, key⟩)
      have first : ofKey (getIamBindingKey b) (b :: rest) = b :: ofKey (getIamBindingKey b) rest :=
        filter_cons_of_pos (by simp)
      rw [first, none]
    · have differ : getIamBindingKey a ≠ getIamBindingKey b :=
        fun same => fresh (mem_map.mpr ⟨b, inRest, same.symm⟩)
      have skipped : ofKey (getIamBindingKey b) (a :: rest) = ofKey (getIamBindingKey b) rest :=
        filter_cons_of_neg (by simp [differ])
      rw [skipped]
      exact ih others inRest

theorem ofKey_cases (unique : (bindings.map getIamBindingKey).Nodup) (k : IamBindingKey) :
    ofKey k bindings = [] ∨ ∃ b ∈ bindings, getIamBindingKey b = k ∧ ofKey k bindings = [b] := by
  cases found : ofKey k bindings with
  | nil => exact .inl rfl
  | cons b rest =>
    obtain ⟨member, key⟩ := mem_ofKey.mp (found ▸ (.head _) : b ∈ ofKey k bindings)
    refine .inr ⟨b, member, key, ?_⟩
    rw [← found, ← key]
    exact ofKey_eq_of_mem unique member

theorem ofKey_congr (firstUnique : (first.map getIamBindingKey).Nodup)
    (secondUnique : (second.map getIamBindingKey).Nodup) (same : ∀ b, b ∈ first ↔ b ∈ second)
    (k : IamBindingKey) : ofKey k first = ofKey k second := by
  rcases ofKey_cases firstUnique k with none | ⟨b, member, key, only⟩
  · rw [none, eq_comm, eq_nil_iff_forall_not_mem]
    intro b found
    have inFirst : b ∈ ofKey k first := mem_ofKey.mpr ((mem_ofKey.mp found).imp_left (same b).mpr)
    rw [none] at inFirst
    cases inFirst
  · rw [only, ← key, ofKey_eq_of_mem secondUnique ((same b).mp member)]

/-- Merging bindings that already have one binding for a key does nothing but drop the
empty ones. -/
theorem mem_merge_of_unique (unique : (bindings.map getIamBindingKey).Nodup)
    (b : IAMPolicyBinding) :
    b ∈ mergeBindingsWithSameRoleAndCondition orders bindings ↔ b ∈ bindings ∧ b.members ≠ [] := by
  rw [mem_mergeBindingsWithSameRoleAndCondition]
  refine and_congr_left fun _ => ⟨fun merged => ?_, fun member => ?_⟩
  · rcases ofKey_cases unique (getIamBindingKey b) with none | ⟨c, member, _, only⟩
    · rw [none] at merged
      cases merged
    rw [only] at merged
    cases merged
    exact member
  · rw [ofKey_eq_of_mem unique member]
    rfl

end Lookup

section Rounds

theorem Canonical.eq (firstForm : Canonical first) (secondForm : Canonical second)
    (same : ∀ b, b ∈ first ↔ b ∈ second) : first = second := by
  have sorted : ∀ {bindings : List IAMPolicyBinding}, Canonical bindings →
      bindings.Pairwise fun a b => rank (getIamBindingKey a) < rank (getIamBindingKey b) := by
    intro bindings form
    exact form.sorted.imp fun {a b} less => (keyLess_iff _ _).mp less
  exact eq_of_strict (fun b => rank (getIamBindingKey b)) (sorted firstForm)
    (sorted secondForm) same

/-- Nothing is to be removed if what was applied last is still asked for. -/
theorem computeDeletedMembersPerBinding_eq_nil {specified applied : List IAMPolicyBinding}
    (specifiedUnique : (specified.map getIamBindingKey).Nodup)
    (appliedUnique : (applied.map getIamBindingKey).Nodup)
    (same : ∀ b, b ∈ specified ↔ b ∈ applied) :
    computeDeletedMembersPerBinding orders specified applied = [] := by
  rw [computeDeletedMembersPerBinding, filterMap_eq_nil_iff]
  rintro ⟨k, a⟩ visited
  have stored : (mergeBindings (orders.below 1) applied).lookup k = some a :=
    (mem_range _ _ k a).mp visited
  rw [mergeBindings_lookup, ← ofKey_congr specifiedUnique appliedUnique same k] at stored
  have none : computeDeletedMembers a.members a.members = [] := by
    rw [eq_nil_iff_forall_not_mem]
    intro m deleted
    have parts := (mem_computeDeletedMembers a.members a.members m).mp deleted
    exact parts.2 parts.1
  simp only [deletedBinding]
  rw [mergeBindings_lookup, stored]
  simp [none]

/-- What a merge makes of the bindings that are asked for and those that are live, if nothing
is to be removed. -/
def Merges (asked live all : List IAMPolicyBinding) : Prop :=
  ∀ b, b ∈ all ↔
    mergedBinding (ofKey (getIamBindingKey b) asked ++ ofKey (getIamBindingKey b) live) = some b ∧
      b.members ≠ []

/-- Merging again what was merged into a policy that has all the keys changes nothing. -/
theorem Merges.again {asked live all again : List IAMPolicyBinding} (askedForm : Canonical asked)
    (liveForm : Canonical live) (allForm : Canonical all) (againForm : Canonical again)
    (covered : ∀ s ∈ asked, ∃ a ∈ live, getIamBindingKey a = getIamBindingKey s)
    (once : Merges asked live all) (twice : Merges asked all again) : again = all := by
  refine againForm.eq allForm fun b => ?_
  rw [twice b, once b]
  refine and_congr_left fun _ => ?_
  generalize getIamBindingKey b = k
  suffices same : mergedBinding (ofKey k asked ++ ofKey k all) =
      mergedBinding (ofKey k asked ++ ofKey k live) by rw [same]
  rcases ofKey_cases askedForm.unique k with notAsked | ⟨s, inAsked, rfl, onlyAsked⟩
  · rcases ofKey_cases liveForm.unique k with notLive | ⟨a, inLive, rfl, onlyLive⟩
    · have notMerged : ofKey k all = [] := by
        rw [eq_nil_iff_forall_not_mem]
        intro c found
        obtain ⟨inAll, rfl⟩ := mem_ofKey.mp found
        have merged := ((once c).mp inAll).1
        rw [notAsked, notLive] at merged
        cases merged
      rw [notAsked, notLive, notMerged]
    · have inAll : a ∈ all := (once a).mpr ⟨by rw [notAsked, onlyLive]; rfl,
        liveForm.nonEmpty a inLive⟩
      rw [ofKey_eq_of_mem allForm.unique inAll, onlyLive]
  · obtain ⟨a, inLive, sameKey⟩ := covered s inAsked
    have onlyLive : ofKey (getIamBindingKey s) live = [a] :=
      sameKey ▸ ofKey_eq_of_mem liveForm.unique inLive
    let c : IAMPolicyBinding := { s with members := mergeMembers .stored s.members a.members }
    obtain ⟨m, member⟩ := exists_mem_of_ne_nil _ (askedForm.nonEmpty s inAsked)
    have nonEmpty : c.members ≠ [] :=
      ne_nil_of_mem ((mem_mergeMembers .stored s.members a.members m).mpr (.inl member))
    have inAll : c ∈ all := by
      refine (once c).mpr ⟨?_, nonEmpty⟩
      change mergedBinding (ofKey (getIamBindingKey s) asked ++ ofKey (getIamBindingKey s) live) = _
      rw [onlyAsked, onlyLive]
      rfl
    have onlyMerged : ofKey (getIamBindingKey s) all = [c] := ofKey_eq_of_mem allForm.unique inAll
    have same : mergeMembers .stored s.members c.members =
        mergeMembers .stored s.members a.members := by
      refine mergeMembers_eq .stored .stored fun m => ?_
      simp only [c, mem_mergeMembers]
      tauto
    rw [onlyAsked, onlyLive, onlyMerged]
    simp only [singleton_append, mergedBinding, foldl_cons, foldl_nil, same]

/-- The bindings that are recorded as applied: the `range` of the merge leaves no trace. -/
theorem sortBindingSlice_merge (converted : List IAMPolicyBinding) :
    sortBindingSlice (mergeBindingsWithSameRoleAndCondition orders converted) =
      sortBindingSlice (mergeBindingsWithSameRoleAndCondition .stored converted) := by
  have form : ∀ orders : Orders, Canonical
      (sortBindingSlice (mergeBindingsWithSameRoleAndCondition orders converted)) :=
    fun _ => sortBindingSlice_canonical _ _
  refine (form orders).eq (form .stored) fun b => ?_
  rw [(sortBindingSlice_perm _).mem_iff, (sortBindingSlice_perm _).mem_iff,
    mem_mergeBindingsWithSameRoleAndCondition, mem_mergeBindingsWithSameRoleAndCondition]

variable (orders : Orders) (partialPolicy : IAMPartialPolicy) (livePolicy : IAMPolicy)
  (resolver : MemberIdentityResolver) {converted : List IAMPolicyBinding}

/-- A round for an object that has recorded what it asks for. -/
theorem computePartialPolicyWithMergedBindings_again
    (success : convertBindings resolver partialPolicy.metadata.ns partialPolicy.spec.bindings =
      .ok converted)
    (recorded : partialPolicy.status.fields.lastAppliedBindings =
      sortBindingSlice (mergeBindingsWithSameRoleAndCondition .stored converted)) :
    ∃ all,
      computePartialPolicyWithMergedBindings orders partialPolicy livePolicy resolver =
        .ok (withBindings partialPolicy partialPolicy.status.fields.lastAppliedBindings all) ∧
      Canonical all ∧
      Merges partialPolicy.status.fields.lastAppliedBindings livePolicy.spec.bindings all := by
  rw [computePartialPolicyWithMergedBindings, convertIAMPartialBindingsToIAMPolicyBindings, success]
  simp only [Except.map, sortBindingSlice_merge ((orders.below 0)), ← recorded]
  refine ⟨_, rfl, sortBindingSlice_canonical _ _, fun b => ?_⟩
  generalize specified : mergeBindingsWithSameRoleAndCondition (orders.below 0) converted = asked
  have askedUnique : (asked.map getIamBindingKey).Nodup :=
    specified ▸ BindingMap.nonEmpty_keys_nodup _ _
  have appliedForm : Canonical partialPolicy.status.fields.lastAppliedBindings :=
    recorded ▸ sortBindingSlice_canonical _ _
  have same : ∀ b, b ∈ asked ↔ b ∈ partialPolicy.status.fields.lastAppliedBindings := by
    intro b
    rw [recorded, ← sortBindingSlice_merge (orders.below 0), (sortBindingSlice_perm _).mem_iff,
      specified]
  have mergedUnique : ((mergeBindingSlices (orders.below 1) asked
      livePolicy.spec.bindings).map getIamBindingKey).Nodup := BindingMap.nonEmpty_keys_nodup _ _
  rw [(sortBindingSlice_perm _).mem_iff,
    computeDeletedMembersPerBinding_eq_nil _ askedUnique appliedForm.unique same]
  change b ∈ mergeBindingsWithSameRoleAndCondition (orders.below 3) _ ↔ _
  rw [mem_merge_of_unique _ mergedUnique, mergeBindingSlices,
    mem_mergeBindingsWithSameRoleAndCondition, ofKey, filter_append, ← ofKey, ← ofKey,
    ofKey_congr askedUnique appliedForm.unique same, and_assoc, and_self]

end Rounds

section Settled

variable (first second third : Orders) (partialPolicy : IAMPartialPolicy) (livePolicy : IAMPolicy)
  (resolver : MemberIdentityResolver)

/-- A list in canonical form is empty only if it makes no grant. -/
theorem Canonical.eq_nil_iff (form : Canonical bindings) : bindings = [] ↔ grants bindings = ∅ := by
  constructor
  · rintro rfl
    exact grants_nil
  · intro none
    rw [eq_nil_iff_forall_not_mem]
    intro b member
    obtain ⟨m, found⟩ := exists_mem_of_ne_nil _ (form.nonEmpty b member)
    have grant : (⟨getIamBindingKey b, m⟩ : Grant) ∈ grants bindings := ⟨b, member, rfl, found⟩
    rw [none] at grant
    exact grant

theorem resolvedGrants_eq_empty_iff {ns : String} {bindings : List IAMPartialPolicyBinding}
    (resolves : Resolves resolver ns bindings) :
    resolvedGrants resolver ns bindings = ∅ ↔ ¬ ∃ b ∈ bindings, b.members ≠ [] := by
  rw [Set.eq_empty_iff_forall_notMem]
  constructor
  · rintro none ⟨b, member, asks⟩
    obtain ⟨m, found⟩ := exists_mem_of_ne_nil _ asks
    obtain ⟨identity, resolved⟩ := resolves b member m found
    exact none ⟨⟨b.role, b.condition.getD .zero⟩, identity⟩ ⟨b, member, rfl, m, found, resolved⟩
  · rintro none g ⟨b, member, _, m, found, _⟩
    exact none ⟨b, member, ne_nil_of_mem found⟩

/-- Two rounds settle the lists, and the status is then left alone. If the object is read from
the API server in between, that is so where it asks for a grant; otherwise an empty list is
computed where the API server has none. -/
theorem merging_settles
    (resolves : Resolves resolver partialPolicy.metadata.ns partialPolicy.spec.bindings) :
    ∃ once, computePartialPolicyWithMergedBindings first partialPolicy livePolicy resolver =
        .ok once ∧
      ∀ policy₁ : IAMPolicy, policy₁.spec.bindings = once.status.fields.allBindings →
      ∃ twice, computePartialPolicyWithMergedBindings second once policy₁ resolver = .ok twice ∧
        grants twice.status.fields.allBindings = grants once.status.fields.allBindings ∧
        grants twice.status.fields.lastAppliedBindings =
          grants once.status.fields.lastAppliedBindings ∧
        ∀ policy₂ : IAMPolicy, policy₂.spec.bindings = twice.status.fields.allBindings →
        ∃ again, computePartialPolicyWithMergedBindings third twice policy₂ resolver = .ok again ∧
          again.status.fields = twice.status.fields ∧
          (twice.status.conditions = [newCustomReadyCondition .true upToDate upToDateMessage] →
            twice.status.observedGeneration.getD 0 = twice.metadata.generation →
            PartialPolicy.isAPIServerUpdateRequired again twice .computed = false ∧
              (PartialPolicy.isAPIServerUpdateRequired again twice .read = false ↔
                ∃ b ∈ partialPolicy.spec.bindings, b.members ≠ [])) := by
  obtain ⟨converted, success, asked⟩ := convertBindings_ok resolver _ resolves
  obtain ⟨applied, all, computed, appliedGrants, allGrants, appliedForm, allForm⟩ :=
    computePartialPolicyWithMergedBindings_ok first partialPolicy livePolicy resolver resolves
  have recorded : applied =
      sortBindingSlice (mergeBindingsWithSameRoleAndCondition .stored converted) := by
    rw [computePartialPolicyWithMergedBindings, convertIAMPartialBindingsToIAMPolicyBindings,
      success] at computed
    have same := congrArg (fun p => p.status.fields.lastAppliedBindings) (Except.ok.inj computed)
    exact same.symm.trans (sortBindingSlice_merge _ converted)
  refine ⟨_, computed, fun policy₁ live₁ => ?_⟩
  obtain ⟨all₂, computed₂, form₂, merges₂⟩ := computePartialPolicyWithMergedBindings_again second
    (withBindings partialPolicy applied all) policy₁ resolver success recorded
  have kept : grants all₂ = grants all := by
    obtain ⟨_, _, computed', _, grants', _⟩ := computePartialPolicyWithMergedBindings_ok second
      (withBindings partialPolicy applied all) policy₁ resolver resolves
    obtain ⟨rfl, rfl⟩ : _ ∧ _ := by
      have same := congrArg (fun p => p.status.fields)
        (Except.ok.inj (computed₂.symm.trans computed'))
      exact AppliedBindings.mk.inj same
    rw [grants', live₁]
    change resolvedGrants _ _ _ ∪ (grants all \ grants applied) = grants all
    rw [appliedGrants, allGrants]
    exact Set.union_sdiff_cancel Set.subset_union_left
  refine ⟨_, computed₂, kept, rfl, fun policy₂ live₂ => ?_⟩
  obtain ⟨all₃, computed₃, form₃, merges₃⟩ := computePartialPolicyWithMergedBindings_again third
    (withBindings partialPolicy applied all₂) policy₂ resolver success recorded
  have covered : ∀ s ∈ applied, ∃ a ∈ all, getIamBindingKey a = getIamBindingKey s := by
    intro s member
    obtain ⟨m, found⟩ := exists_mem_of_ne_nil _ (appliedForm.nonEmpty s member)
    have grant : (⟨getIamBindingKey s, m⟩ : Grant) ∈ grants all := by
      rw [allGrants, ← appliedGrants]
      exact .inl ⟨s, member, rfl, found⟩
    obtain ⟨a, inAll, key, _⟩ := grant
    exact ⟨a, inAll, key⟩
  rw [live₁] at merges₂
  rw [live₂] at merges₃
  obtain rfl : all₃ = all₂ := merges₂.again appliedForm allForm form₂ form₃ covered merges₃
  refine ⟨_, computed₃, rfl, fun ready observed => ?_⟩
  have some : applied ≠ [] ↔ ∃ b ∈ partialPolicy.spec.bindings, b.members ≠ [] := by
    rw [Ne, appliedForm.eq_nil_iff, appliedGrants, resolvedGrants_eq_empty_iff resolver resolves,
      not_not]
  have more : applied ≠ [] → all₃ ≠ [] := by
    rw [Ne, appliedForm.eq_nil_iff, Ne, form₃.eq_nil_iff, kept, allGrants, ← appliedGrants]
    intro asks none
    exact asks (Set.union_empty_iff.mp none).1
  rw [← some]
  simp only [PartialPolicy.isAPIServerUpdateRequired, ready, observed]
  refine ⟨by simp [withBindings], ?_⟩
  simpa [PartialPolicy.Origin.slice, withBindings] using more

/-- It asks for two members, in this order, and has been reported up to date. -/
def unsorted : IAMPartialPolicy :=
  policyAsking ["user:b", "user:a"]
    ⟨[newCustomReadyCondition .true upToDate upToDateMessage], some 1, ⟨[], []⟩⟩

theorem merging_settles_viewers :
    ∃ once twice again,
      computePartialPolicyWithMergedBindings .stored unsorted ⟨projectRef, [], [], "e1"⟩
        found = .ok once ∧
      computePartialPolicyWithMergedBindings .stored once
        ⟨projectRef, once.status.fields.allBindings, [], "e2"⟩ found = .ok twice ∧
      computePartialPolicyWithMergedBindings .stored twice
        ⟨projectRef, twice.status.fields.allBindings, [], "e3"⟩ found = .ok again ∧
      PartialPolicy.isAPIServerUpdateRequired again twice .computed = false ∧
      PartialPolicy.isAPIServerUpdateRequired again twice .read = false := by
  obtain ⟨once, computed₁, settles⟩ := merging_settles .stored .stored .stored unsorted
    ⟨projectRef, [], [], "e1"⟩ found (resolves_asWritten _ _)
  obtain ⟨twice, computed₂, _, _, settled⟩ :=
    settles ⟨projectRef, once.status.fields.allBindings, [], "e2"⟩ rfl
  obtain ⟨again, computed₃, _, quiet⟩ :=
    settled ⟨projectRef, twice.status.fields.allBindings, [], "e3"⟩ rfl
  refine ⟨once, twice, again, computed₁, computed₂, computed₃, ?_⟩
  cases computed₁
  cases computed₂
  exact (quiet rfl rfl).imp_right fun asks => asks.mpr ⟨_, mem_singleton_self _, by simp⟩

end Settled

end ConfigConnector.Iam
