import ConfigConnector.Iam.Grants

/- What the two computations of bindings.go return: which grants, and in which
canonical form. -/
namespace ConfigConnector.Iam

open K8s GoMap List

/-- One binding for a key, none without members, in the order of their keys. -/
structure Canonical (bindings : List IAMPolicyBinding) : Prop where
  unique : (bindings.map getIamBindingKey).Nodup
  nonEmpty : ∀ b ∈ bindings, b.members ≠ []
  sorted : bindings.Pairwise fun a b => keyLess (getIamBindingKey a) (getIamBindingKey b) = true

section Sorting

/-- The place of a key in the lexicographic order that `keyLess` spells out. -/
def rank (k : IamBindingKey) : String ×ₗ String ×ₗ String ×ₗ String :=
  toLex (k.role, toLex (k.condition.title, toLex (k.condition.description, k.condition.expression)))

theorem keyLess_iff (k1 k2 : IamBindingKey) : keyLess k1 k2 = true ↔ rank k1 < rank k2 := by
  simp only [rank, Prod.Lex.toLex_lt_toLex, keyLess]
  split_ifs with role title description expression <;> simp_all

theorem rank_injective : Function.Injective rank := by
  rintro ⟨role, ⟨title, description, expression⟩⟩ ⟨role', ⟨title', description', expression'⟩⟩ same
  simpa [rank, Prod.ext_iff] using same

variable (bindings : List IAMPolicyBinding)

theorem sortBindingSlice_perm :
    (sortBindingSlice bindings).Perm bindings := sortSlice_perm _ bindings

@[simp] theorem sortBindingSlice_grants : grants (sortBindingSlice bindings) = grants bindings :=
  grants_perm (sortBindingSlice_perm bindings)

theorem sortBindingSlice_canonical (m : BindingMap) (order : RangeOrder) :
    Canonical (sortBindingSlice (m.nonEmpty order)) := by
  have same := sortBindingSlice_perm (m.nonEmpty order)
  have unique := m.nonEmpty_keys_nodup order
  refine ⟨(same.map _).nodup_iff.mpr unique, ?_, ?_⟩
  · intro b member
    exact ((m.mem_nonEmpty order b).mp (same.mem_iff.mp member)).2
  have ranks : ((m.nonEmpty order).map fun b => rank (getIamBindingKey b)).Nodup := by
    have mapped := unique.map rank_injective
    rwa [map_map] at mapped
  refine (sortSlice_strict _ (fun b => rank (getIamBindingKey b)) _ ?_ ranks).imp ?_
  · intro a b
    exact keyLess_iff _ _
  · intro a b below
    exact (keyLess_iff _ _).mpr below

end Sorting

section Resolve

variable (resolver : MemberIdentityResolver) (ns : String)

/-- The resolver finds the identity of every member that is written. -/
def Resolves (bindings : List IAMPartialPolicyBinding) : Prop :=
  ∀ b ∈ bindings, ∀ m ∈ b.members, ∃ identity, resolver m.member m.memberFrom ns = .ok identity

/-- The grants a user asks for. -/
def resolvedGrants (bindings : List IAMPartialPolicyBinding) : Set Grant :=
  fun g => ∃ b ∈ bindings, g.key = ⟨b.role, b.condition.getD .zero⟩ ∧
    ∃ m ∈ b.members, resolver m.member m.memberFrom ns = .ok g.member

variable {bindings : List IAMPartialPolicyBinding}

theorem mem_resolvedGrants {g : Grant} :
    g ∈ resolvedGrants resolver ns bindings ↔
      ∃ b ∈ bindings, g.key = ⟨b.role, b.condition.getD .zero⟩ ∧
        ∃ m ∈ b.members, resolver m.member m.memberFrom ns = .ok g.member := Iff.rfl

theorem resolveMembers_spec (members : List IAMPartialPolicyMember) :
    match resolveMembers resolver ns members with
    | .error _ => ¬ ∀ m ∈ members, ∃ identity, resolver m.member m.memberFrom ns = .ok identity
    | .ok resolved =>
      (∀ m ∈ members, ∃ identity, resolver m.member m.memberFrom ns = .ok identity) ∧
        ∀ identity, identity ∈ resolved ↔
          ∃ m ∈ members, resolver m.member m.memberFrom ns = .ok identity := by
  induction members with
  | nil => simp [resolveMembers]
  | cons head rest ih =>
    rw [resolveMembers]
    cases first : resolver head.member head.memberFrom ns with
    | error err => simp [first]
    | ok identity =>
      cases others : resolveMembers resolver ns rest with
      | error err =>
        rw [others] at ih
        simpa [Except.map, first] using ih
      | ok resolved =>
        rw [others] at ih
        refine ⟨?_, fun found => ?_⟩
        · intro m member
          rcases mem_cons.mp member with rfl | inRest
          · exact ⟨identity, first⟩
          · exact ih.1 m inRest
        · simp [first, ih.2, eq_comm]

theorem convertBindings_spec (bindings : List IAMPartialPolicyBinding) :
    match convertBindings resolver ns bindings with
    | .error _ => ¬ Resolves resolver ns bindings
    | .ok converted => Resolves resolver ns bindings ∧
        grants converted = resolvedGrants resolver ns bindings := by
  induction bindings with
  | nil =>
    refine ⟨by simp [Resolves], ?_⟩
    ext g
    simp [mem_resolvedGrants]
  | cons head rest ih =>
    have members := resolveMembers_spec resolver ns head.members
    rw [convertBindings, toIAMPolicyBinding]
    cases first : resolveMembers resolver ns head.members with
    | error err =>
      rw [first] at members
      intro resolves
      exact members (resolves head (by simp))
    | ok resolved =>
      rw [first] at members
      cases others : convertBindings resolver ns rest with
      | error err =>
        rw [others] at ih
        intro resolves
        exact ih fun b member => resolves b (by simp [member])
      | ok converted =>
        rw [others] at ih
        refine ⟨?_, ?_⟩
        · intro b member
          rcases mem_cons.mp member with rfl | inRest
          · exact members.1
          · exact ih.1 b inRest
        · change grants (_ :: converted) = _
          ext g
          rw [grants_cons, Set.mem_union, mem_grants_singleton, ih.2]
          simp only [mem_resolvedGrants, mem_cons, exists_eq_or_imp, members.2,
            getIamBindingKey, eq_comm (a := g.key)]

theorem convertBindings_ok (resolves : Resolves resolver ns bindings) :
    ∃ converted, convertBindings resolver ns bindings = .ok converted ∧
      grants converted = resolvedGrants resolver ns bindings := by
  have spec := convertBindings_spec resolver ns bindings
  cases result : convertBindings resolver ns bindings with
  | error err =>
    rw [result] at spec
    exact absurd resolves spec
  | ok converted =>
    rw [result] at spec
    exact ⟨converted, rfl, spec.2⟩

end Resolve

section Compute

variable (orders : Orders) (partialPolicy : IAMPartialPolicy) (livePolicy : IAMPolicy)
  (resolver : MemberIdentityResolver)

/-- Taking the dropped grants out of the union of what is asked for and what is
live leaves what was live and not applied before. -/
theorem merged_grants (specified applied live : Set Grant) :
    (specified ∪ live) \ (applied \ specified) = specified ∪ (live \ applied) := by
  ext g
  simp only [Set.mem_sdiff, Set.mem_union]
  tauto

/-- The computation for an object whose members all resolve, in one step. -/
theorem computePartialPolicyWithMergedBindings_ok
    (resolves : Resolves resolver partialPolicy.metadata.ns partialPolicy.spec.bindings) :
    ∃ lastApplied all : List IAMPolicyBinding,
      computePartialPolicyWithMergedBindings orders partialPolicy livePolicy resolver =
        .ok (withBindings partialPolicy lastApplied all) ∧
      grants lastApplied =
        resolvedGrants resolver partialPolicy.metadata.ns partialPolicy.spec.bindings ∧
      grants all =
        resolvedGrants resolver partialPolicy.metadata.ns partialPolicy.spec.bindings ∪
          (grants livePolicy.spec.bindings \
            grants partialPolicy.status.fields.lastAppliedBindings) ∧
      Canonical lastApplied ∧ Canonical all := by
  obtain ⟨converted, success, asked⟩ := convertBindings_ok resolver _ resolves
  rw [computePartialPolicyWithMergedBindings, convertIAMPartialBindingsToIAMPolicyBindings, success]
  refine ⟨_, _, rfl, ?_, ?_, sortBindingSlice_canonical _ _, sortBindingSlice_canonical _ _⟩
  · rw [sortBindingSlice_grants, mergeBindingsWithSameRoleAndCondition_grants, asked]
  rw [sortBindingSlice_grants, removeMembersPerBinding_grants, mergeBindingSlices_grants,
    computeDeletedMembersPerBinding_grants, mergeBindingsWithSameRoleAndCondition_grants, asked,
    merged_grants]

theorem computePartialPolicyWithMergedBindings_error
    (unresolved : ¬ Resolves resolver partialPolicy.metadata.ns partialPolicy.spec.bindings) :
    ∃ err, computePartialPolicyWithMergedBindings orders partialPolicy livePolicy resolver =
      .error err := by
  have spec := convertBindings_spec resolver partialPolicy.metadata.ns partialPolicy.spec.bindings
  rw [computePartialPolicyWithMergedBindings, convertIAMPartialBindingsToIAMPolicyBindings]
  cases result : convertBindings resolver partialPolicy.metadata.ns partialPolicy.spec.bindings with
  | error err => exact ⟨_, rfl⟩
  | ok converted =>
    rw [result] at spec
    exact absurd spec.1 unresolved

/-- What the object asks for is granted, and of what it applied before only what
it still asks for; nothing else in the live policy is touched. -/
theorem merged_bindings_exact :
    (Resolves resolver partialPolicy.metadata.ns partialPolicy.spec.bindings →
      ∃ desired,
        computePartialPolicyWithMergedBindings orders partialPolicy livePolicy resolver =
          .ok desired ∧
        grants desired.status.fields.allBindings =
          resolvedGrants resolver partialPolicy.metadata.ns partialPolicy.spec.bindings ∪
            (grants livePolicy.spec.bindings \
              grants partialPolicy.status.fields.lastAppliedBindings) ∧
        grants desired.status.fields.lastAppliedBindings =
          resolvedGrants resolver partialPolicy.metadata.ns partialPolicy.spec.bindings ∧
        Canonical desired.status.fields.allBindings ∧
        Canonical desired.status.fields.lastAppliedBindings) ∧
    (¬ Resolves resolver partialPolicy.metadata.ns partialPolicy.spec.bindings →
      ∃ err, computePartialPolicyWithMergedBindings orders partialPolicy livePolicy resolver =
        .error err) := by
  refine ⟨fun resolves => ?_,
    computePartialPolicyWithMergedBindings_error orders partialPolicy livePolicy resolver⟩
  obtain ⟨lastApplied, all, computed, applied, merged, appliedForm, allForm⟩ :=
    computePartialPolicyWithMergedBindings_ok orders partialPolicy livePolicy resolver resolves
  exact ⟨_, computed, merged, applied, allForm, appliedForm⟩

def projectRef : ResourceReference := ⟨"Project", "", "", "", "p"⟩

/-- An object that asks for viewers of a project. -/
def policyAsking (members : List String) (status : Status AppliedBindings) : IAMPartialPolicy where
  metadata := .created "ns" "policy"
  spec := ⟨projectRef, [⟨members.map (⟨·, none⟩), "roles/viewer", none⟩]⟩
  status := status

def asWritten (member : Member) (_ : Option MemberSource) (_ : String) : Member := member

def found : MemberIdentityResolver := fun member source ns => .ok (asWritten member source ns)

theorem resolves_asWritten (ns : String) (bindings : List IAMPartialPolicyBinding) :
    Resolves found ns bindings := fun _ _ m _ => ⟨m.member, rfl⟩

/-- It asks for `user:new` and has applied `user:old`. -/
def replacing : IAMPartialPolicy :=
  policyAsking ["user:new"] ⟨[], none, ⟨[⟨["user:old"], "roles/viewer", none⟩], []⟩⟩

def liveViewers (members : List String) : IAMPolicy :=
  ⟨projectRef, [⟨members, "roles/viewer", some .zero⟩], [], "e1"⟩

/-- `user:new` takes the place of `user:old`, and `user:other` stays. -/
theorem merged_bindings_exact_replaces :
    Resolves found "ns" replacing.spec.bindings ∧
      ∃ desired,
        computePartialPolicyWithMergedBindings .stored replacing
          (liveViewers ["user:old", "user:other"]) found = .ok desired ∧
        Canonical desired.status.fields.allBindings ∧
        ⟨⟨"roles/viewer", .zero⟩, "user:old"⟩ ∉ grants desired.status.fields.allBindings := by
  have resolves := resolves_asWritten "ns" replacing.spec.bindings
  obtain ⟨desired, computed, all, _, form, _⟩ := (merged_bindings_exact .stored replacing
    (liveViewers ["user:old", "user:other"]) found).1 resolves
  refine ⟨resolves, desired, computed, form, ?_⟩
  rw [all]
  simp [mem_resolvedGrants, mem_grants, getIamBindingKey, replacing, policyAsking, liveViewers,
    found, asWritten]

/-- After a deletion the grants applied last are gone and all others are left. -/
theorem computePartialPolicyWithRemainingBindings_grants :
    grants (computePartialPolicyWithRemainingBindings orders partialPolicy
      livePolicy).status.fields.allBindings =
      grants livePolicy.spec.bindings \ grants partialPolicy.status.fields.lastAppliedBindings := by
  rw [computePartialPolicyWithRemainingBindings, withBindings, sortBindingSlice_grants,
    removeMembersPerBinding_grants]

/-- A deletion leaves the live grants that were not applied last, in canonical form. After
a merge that is what was live before and neither applied before nor asked for. -/
theorem remaining_bindings_exact :
    (grants (computePartialPolicyWithRemainingBindings orders partialPolicy
        livePolicy).status.fields.allBindings =
      grants livePolicy.spec.bindings \ grants partialPolicy.status.fields.lastAppliedBindings ∧
    Canonical (computePartialPolicyWithRemainingBindings orders partialPolicy
      livePolicy).status.fields.allBindings ∧
    (computePartialPolicyWithRemainingBindings orders partialPolicy
      livePolicy).status.fields.lastAppliedBindings = []) ∧
    (Resolves resolver partialPolicy.metadata.ns partialPolicy.spec.bindings →
      ∃ merged,
        computePartialPolicyWithMergedBindings orders partialPolicy livePolicy resolver =
          .ok merged ∧
        ∀ (deletion : Orders) (mergedPolicy : IAMPolicy),
          mergedPolicy.spec.bindings = merged.status.fields.allBindings →
          grants (computePartialPolicyWithRemainingBindings deletion merged
              mergedPolicy).status.fields.allBindings =
            grants livePolicy.spec.bindings \
              (grants partialPolicy.status.fields.lastAppliedBindings ∪
                resolvedGrants resolver partialPolicy.metadata.ns
                  partialPolicy.spec.bindings)) := by
  refine ⟨⟨computePartialPolicyWithRemainingBindings_grants orders partialPolicy livePolicy,
    sortBindingSlice_canonical _ _, rfl⟩, fun resolves => ?_⟩
  obtain ⟨lastApplied, all, success, applied, granted, _⟩ :=
    computePartialPolicyWithMergedBindings_ok orders partialPolicy livePolicy resolver resolves
  refine ⟨_, success, fun deletion mergedPolicy live => ?_⟩
  rw [computePartialPolicyWithRemainingBindings_grants, live]
  simp only [withBindings, applied, granted]
  ext g
  simp only [Set.mem_sdiff, Set.mem_union]
  tauto

/-- Of three live grants only the one that was neither applied nor asked for is left. -/
theorem remaining_bindings_exact_keeps_other :
    ∃ merged,
      computePartialPolicyWithMergedBindings .stored replacing
        (liveViewers ["user:old", "user:other", "user:new"]) found = .ok merged ∧
      grants (computePartialPolicyWithRemainingBindings .stored merged
        ⟨projectRef, merged.status.fields.allBindings, [], "e2"⟩).status.fields.allBindings =
        {⟨⟨"roles/viewer", .zero⟩, "user:other"⟩} := by
  obtain ⟨merged, computed, left⟩ := (remaining_bindings_exact .stored replacing
    (liveViewers ["user:old", "user:other", "user:new"]) found).2 (resolves_asWritten _ _)
  refine ⟨merged, computed, ?_⟩
  rw [left .stored _ rfl]
  ext ⟨key, member⟩
  simp only [Set.mem_sdiff, Set.mem_union, mem_grants, mem_resolvedGrants, Set.mem_singleton_iff,
    replacing, policyAsking, liveViewers, found, asWritten, map_cons, map_nil,
    exists_eq_left, Grant.mk.injEq, getIamBindingKey, mem_cons, Option.getD_some,
    Option.getD_none, Except.ok.injEq, not_mem_nil, or_false]
  constructor
  · rintro ⟨⟨rfl, rfl | rfl | rfl⟩, kept⟩ <;> simp_all
  · rintro ⟨rfl, rfl⟩
    simp

end Compute

end ConfigConnector.Iam
