import ConfigConnector.Direct.Iam

/- What is left of a member's role after `DeleteIAMPolicyMember`: it edits the last
binding of the role only, while `GetIAMPolicyMember` looks at all of them. -/
namespace ConfigConnector.Direct

open Interact K8s List
open ConfigConnector.Iam (Member)

variable {fold : Char → Char} {memberID : Member} {role : String}
variable {before after : List Iampb.Binding} {binding : Iampb.Binding}

section Bindings

variable {bindings before after : List Iampb.Binding}

/-- There is no binding of the role, or the list is split at the last one. -/
theorem bindingOf_cases (role : String) (bindings : List Iampb.Binding) :
    (bindingOf role bindings = none ∧ ∀ b ∈ bindings, b.role ≠ role) ∨
      ∃ before binding after, bindingOf role bindings = some before.length ∧
        bindings = before ++ binding :: after ∧ binding.role = role ∧
        ∀ b ∈ after, b.role ≠ role := by
  cases found : bindingOf role bindings with
  | none =>
    have others := GoSlice.lastIndex_eq_none _ _ found
    exact Or.inl ⟨rfl, fun b member => by simpa using others b member⟩
  | some i =>
    obtain ⟨before, binding, after, whole, place, same, rest⟩ :=
      GoSlice.lastIndex_eq_some _ _ found
    refine Or.inr ⟨before, binding, after, ?_, whole, by simpa using same, fun b member => ?_⟩
    · rw [place]
    · simpa using rest b member

/-- Only the last binding of the role has the member, and it has no condition then. -/
structure SingleGrant (fold : Char → Char) (role : String) (memberID : Member)
    (bindings : List Iampb.Binding) : Prop where
  earlier : ∀ b ∈ (bindings.filter fun b => b.role == role).dropLast,
    hasMember fold memberID b.members = false
  unconditional : ∀ b, lastBinding role bindings = some b →
    hasMember fold memberID b.members = true → b.condition = none

theorem singleGrant_of_missing (missing : ∀ b ∈ bindings, b.role ≠ role) :
    SingleGrant fold role memberID bindings := by
  have none_left : (bindings.filter fun b => b.role == role) = [] := by simpa using missing
  constructor
  · simp [none_left]
  · simp [lastBinding, none_left]

theorem singleGrant_split (same : binding.role = role) (rest : ∀ b ∈ after, b.role ≠ role) :
    SingleGrant fold role memberID (before ++ binding :: after) ↔
      (∀ b ∈ before, b.role = role → hasMember fold memberID b.members = false) ∧
        (hasMember fold memberID binding.members → binding.condition = none) := by
  have none_left : (after.filter fun b => b.role == role) = [] := by simpa using rest
  have filtered : ((before ++ binding :: after).filter fun b => b.role == role) =
      (before.filter fun b => b.role == role) ++ [binding] := by
    simp [filter_append, same, none_left]
  constructor
  · intro single
    constructor
    · intro b member isRole
      apply single.earlier b
      rw [filtered, dropLast_concat]
      simp [member, isRole]
    · intro has
      apply single.unconditional binding _ has
      rw [lastBinding, filtered, List.getLast?_concat]
  · intro conditions
    constructor
    · intro b member
      rw [filtered, dropLast_concat] at member
      obtain ⟨listed, isRole⟩ := mem_filter.mp member
      exact conditions.1 b listed (by simpa using isRole)
    · intro b last has
      rw [lastBinding, filtered, List.getLast?_concat] at last
      cases last
      exact conditions.2 has

/-- The bindings without the member in the last one of the role. -/
def revoked (fold : Char → Char) (role : String) (memberID : Member)
    (bindings : List Iampb.Binding) : List Iampb.Binding :=
  match bindingOf role bindings with
  | none => bindings
  | some i => bindings.modify i (removeMatching fold memberID)

/-- A binding that lacks the member stays as it is. -/
theorem removeMatching_eq_self (lacks : hasMember fold memberID binding.members = false) :
    removeMatching fold memberID binding = binding := by
  have kept : (binding.members.filter fun member => !memberMatches fold member memberID) =
      binding.members := by
    apply filter_eq_self.mpr
    intro member listed
    have unmatched := any_eq_false.mp lacks member listed
    simpa using unmatched
  rw [removeMatching, kept]

theorem hasMember_removeMatching :
    hasMember fold memberID (removeMatching fold memberID binding).members = false := by
  apply any_eq_false.mpr
  intro member listed
  have unmatched := (mem_filter.mp listed).2
  simpa using unmatched

theorem mem_grantsOf_removeMatching {g : Iampb.Grant} :
    g ∈ grantsOf (before ++ removeMatching fold memberID binding :: after) ↔
      (binding.role = g.role ∧ binding.condition = g.condition ∧ g.member ∈ binding.members ∧
        memberMatches fold g.member memberID = false) ∨ g ∈ grantsOf (before ++ after) := by
  rw [mem_grantsOf_middle]
  simp [removeMatching]

end Bindings

section Law

variable {want : IAMPolicyMember} {live : Iampb.Policy} {seen : Trace IamCalls}

/-- Some binding of the role has the member. -/
def Reported (fold : Char → Char) (role : String) (memberID : Member)
    (bindings : List Iampb.Binding) : Prop :=
  ∃ b ∈ bindings, b.role = role ∧ hasMember fold memberID b.members = true

/-- Every grant of another role, condition or member is in both lists or in neither. -/
def OthersKept (fold : Char → Char) (role : String) (memberID : Member)
    (bindings left : List Iampb.Binding) : Prop :=
  ∀ g : Iampb.Grant, g.role ≠ role ∨ g.condition ≠ none ∨
    memberMatches fold g.member memberID = false → (g ∈ grantsOf left ↔ g ∈ grantsOf bindings)

theorem actualMember_role_iff (named : want.spec.role ≠ "") :
    (actualMember fold want memberID live).spec.role = want.spec.role ↔
      Reported fold want.spec.role memberID live.bindings := by
  have found : (live.bindings.any fun binding =>
      binding.role == want.spec.role && hasMember fold memberID binding.members) = true ↔
        Reported fold want.spec.role memberID live.bindings := by
    simp [Reported]
  rw [← found]
  by_cases granted : (live.bindings.any fun binding =>
      binding.role == want.spec.role && hasMember fold memberID binding.members) = true
  · simp only [actualMember, granted, ↓reduceIte]
  · simp only [actualMember, granted, Bool.false_eq_true, ↓reduceIte, iff_false]
    exact fun same => named same.symm

theorem reported_removeMatching (rest : ∀ b ∈ after, b.role ≠ role) :
    Reported fold role memberID (before ++ removeMatching fold memberID binding :: after) ↔
      ∃ b ∈ before, b.role = role ∧ hasMember fold memberID b.members := by
  constructor
  · rintro ⟨b, listed, isRole, has⟩
    rcases mem_append.mp listed with earlier | later
    · exact ⟨b, earlier, isRole, has⟩
    rcases mem_cons.mp later with rfl | behind
    · rw [hasMember_removeMatching] at has
      cases has
    · exact absurd isRole (rest b behind)
  · rintro ⟨b, earlier, isRole, has⟩
    exact ⟨b, mem_append_left _ earlier, isRole, has⟩

theorem hasMember_of_mem {members : List Member} {member : Member} (listed : member ∈ members)
    (matched : memberMatches fold member memberID) : hasMember fold memberID members :=
  any_eq_true.mpr ⟨member, listed, matched⟩

/-- A grant under a condition is lost with the member of its binding. -/
theorem unconditional_of_othersKept (same : binding.role = role) (rest : ∀ b ∈ after, b.role ≠ role)
    (earlier : ∀ b ∈ before, b.role = role → hasMember fold memberID b.members = false)
    (kept : OthersKept fold role memberID (before ++ binding :: after)
      (before ++ removeMatching fold memberID binding :: after))
    (has : hasMember fold memberID binding.members) : binding.condition = none := by
  by_contra conditional
  obtain ⟨member, listed, matched⟩ := any_eq_true.mp has
  have granted : (⟨role, binding.condition, member⟩ : Iampb.Grant) ∈
      grantsOf (before ++ binding :: after) := mem_grantsOf_middle.mpr (Or.inl ⟨same, rfl, listed⟩)
  have left := (kept _ (Or.inr (Or.inl conditional))).mpr granted
  rcases mem_grantsOf_removeMatching.mp left with ⟨_, _, _, unmatched⟩ |
    ⟨b, among, isRole, _, inside⟩
  · rw [matched] at unmatched
    cases unmatched
  have hasIt := hasMember_of_mem inside matched
  rcases mem_append.mp among with before' | behind
  · rw [earlier b before' isRole] at hasIt
    cases hasIt
  · exact rest b behind isRole

theorem othersKept_removeMatching (same : binding.role = role)
    (unconditional : hasMember fold memberID binding.members → binding.condition = none) :
    OthersKept fold role memberID (before ++ binding :: after)
      (before ++ removeMatching fold memberID binding :: after) := by
  intro g other
  rw [mem_grantsOf_removeMatching, mem_grantsOf_middle]
  refine or_congr_left ⟨fun granted => ⟨granted.1, granted.2.1, granted.2.2.1⟩, fun granted => ?_⟩
  obtain ⟨isRole, isCondition, listed⟩ := granted
  refine ⟨isRole, isCondition, listed, ?_⟩
  rcases other with otherRole | otherCondition | unmatched
  · exact absurd (isRole.symm.trans same) otherRole
  · by_contra matched
    have has := hasMember_of_mem listed (by simpa using matched)
    exact otherCondition (isCondition.symm.trans (unconditional has))
  · exact unmatched

/-- The edit does what is wanted just when no other binding and no condition is in its way. -/
theorem revoked_iff (bindings : List Iampb.Binding) :
    (¬ Reported fold role memberID (revoked fold role memberID bindings) ∧
        OthersKept fold role memberID bindings (revoked fold role memberID bindings)) ↔
      SingleGrant fold role memberID bindings := by
  rcases bindingOf_cases role bindings with
    ⟨missing, others⟩ | ⟨before, binding, after, place, rfl, same, rest⟩
  · have unchanged : revoked fold role memberID bindings = bindings := by
      rw [revoked, missing]
    rw [unchanged]
    refine iff_of_true ⟨?_, fun g _ => Iff.rfl⟩ (singleGrant_of_missing others)
    rintro ⟨b, listed, isRole, _⟩
    exact others b listed isRole
  · have edited : revoked fold role memberID (before ++ binding :: after) =
        before ++ removeMatching fold memberID binding :: after := by
      rw [revoked, place]
      exact GoSlice.modify_middle before after binding _
    rw [edited, singleGrant_split same rest, reported_removeMatching rest]
    constructor
    · rintro ⟨unreported, kept⟩
      have earlier : ∀ b ∈ before, b.role = role → hasMember fold memberID b.members = false := by
        intro b listed isRole
        by_contra has
        exact unreported ⟨b, listed, isRole, by simpa using has⟩
      exact ⟨earlier, unconditional_of_othersKept same rest earlier kept⟩
    · rintro ⟨earlier, unconditional⟩
      refine ⟨?_, othersKept_removeMatching same unconditional⟩
      rintro ⟨b, listed, isRole, has⟩
      rw [earlier b listed isRole] at has
      cases has

theorem getIAMPolicyMember_ends :
    Ends iamAnswers (fun _ result _ => ∀ actual, result = .ok actual →
        actual = actualMember fold want memberID live) seen live
      (getIAMPolicyMember fold want memberID) := by
  refine readPolicy_ends.bind ?_
  rintro later result after ⟨rfl, same⟩
  cases result with
  | error err => rintro _ ⟨⟩
  | ok policy =>
    rintro _ ⟨⟩
    rw [same policy rfl]

/-- A call that succeeds leaves the bindings without the member in the last of the role. -/
theorem deleteIAMPolicyMember_leaves :
    Ends iamAnswers (fun _ result after => result = .ok () →
        after.bindings = revoked fold want.spec.role memberID live.bindings) seen live
      (deleteIAMPolicyMember fold want memberID) := by
  refine readPolicy_ends.bind ?_
  rintro later result after ⟨rfl, same⟩
  cases result with
  | error err => exact nofun
  | ok policy =>
    obtain rfl := same policy rfl
    change Ends _ _ _ _ (revokeMember fold want.spec.role memberID policy)
    unfold revokeMember revoked
    rcases bindingOf_cases want.spec.role policy.bindings with
      ⟨missing, _⟩ | ⟨before, binding, rest, place, whole, _⟩
    · rw [missing]
      exact fun _ => rfl
    rw [place]
    dsimp only
    split
    · refine ends_perform.mpr fun answer after answered => ?_
      cases answered with
      | written etag => exact fun _ => rfl
      | lost _ _ | refused _ => exact nofun
    · rename_i lacks
      have found : policy.bindings[before.length]? = some binding := by simp [whole]
      rw [found] at lacks
      have unchanged : removeMatching fold memberID binding = binding :=
        removeMatching_eq_self (by simpa using lacks)
      intro _
      rw [whole, GoSlice.modify_middle, unchanged]

/-- Every call may succeed. -/
theorem deleteIAMPolicyMember_succeeds
    {post : Trace IamCalls → Except GoError Unit → Iampb.Policy → Prop}
    (ends : Ends iamAnswers post seen live (deleteIAMPolicyMember fold want memberID)) :
    ∃ later after, post later (.ok ()) after := by
  have read : Ends iamAnswers post _ live (revokeMember fold want.spec.role memberID live) :=
    ends (.ok true) live rfl (.ok live) live ⟨rfl, fun _ same => by cases same; rfl⟩
  unfold revokeMember at read
  split at read
  · exact ⟨_, _, read⟩
  split at read
  · exact ⟨_, _, read (.ok _) _ (.written live.etag)⟩
  · exact ⟨_, _, read⟩

/-- After a removal that succeeds, the member is not reported with the role, and every
grant of another member, role or condition is as it was. -/
def RemovesMember (fold : Char → Char) (want : IAMPolicyMember) (memberID : Member)
    (live : Iampb.Policy) : Prop :=
  Ends iamAnswers (fun later result after => result = .ok () →
      Ends iamAnswers (fun _ reported _ => ∀ actual, reported = .ok actual →
          actual.spec.role ≠ want.spec.role) later after (getIAMPolicyMember fold want memberID) ∧
        OthersKept fold want.spec.role memberID live.bindings after.bindings)
    [] live (deleteIAMPolicyMember fold want memberID)

theorem singleGrant_of_removes (named : want.spec.role ≠ "")
    (removes : RemovesMember fold want memberID live) :
    SingleGrant fold want.spec.role memberID live.bindings := by
  obtain ⟨later, after, law, left⟩ :=
    deleteIAMPolicyMember_succeeds (removes.and deleteIAMPolicyMember_leaves)
  obtain ⟨unreported, kept⟩ := law rfl
  apply (revoked_iff live.bindings).mp
  rw [← left rfl]
  refine ⟨fun reported => ?_, kept⟩
  have report := unreported (.ok true) after rfl (.ok after) after
    ⟨rfl, fun _ same => by cases same; rfl⟩
  exact report _ rfl ((actualMember_role_iff named).mpr reported)

theorem removes_of_singleGrant (named : want.spec.role ≠ "")
    (single : SingleGrant fold want.spec.role memberID live.bindings) :
    RemovesMember fold want memberID live := by
  obtain ⟨unreported, kept⟩ := (revoked_iff live.bindings).mpr single
  refine deleteIAMPolicyMember_leaves.mono fun later result after left success => ?_
  rw [← left success] at unreported kept
  refine ⟨getIAMPolicyMember_ends.mono fun _ reported _ same actual found => ?_, kept⟩
  rw [same actual found]
  exact fun role => unreported ((actualMember_role_iff named).mp role)

/-- A removal works on every policy in which only the last binding of the role has the
member, without a condition, and on no other. The schema of the resource refuses an
empty role. -/
theorem deleteIAMPolicyMember_removes_iff (fold : Char → Char) (want : IAMPolicyMember)
    (memberID : Member) (live : Iampb.Policy) (named : want.spec.role ≠ "") :
    RemovesMember fold want memberID live ↔
      SingleGrant fold want.spec.role memberID live.bindings :=
  ⟨singleGrant_of_removes named, removes_of_singleGrant named⟩

theorem deleteIAMPolicyMember_removes_iff_viewer :
    RemovesMember Char.toLower viewer "user:a" (viewerPolicy ["user:a", "user:b"] none) := by
  apply (deleteIAMPolicyMember_removes_iff Char.toLower viewer "user:a" _ (by decide)).mpr
  constructor
  · decide
  · intro b last _
    cases last
    rfl

/-- A member of two bindings of one role, as conditions make them. -/
def doubledPolicy : Iampb.Policy :=
  { viewerPolicy ["user:a"] none with
    bindings := [⟨"roles/viewer", ["user:a"], none⟩,
      ⟨"roles/viewer", ["user:b"], some ⟨"request.time < t", "until", "", ""⟩⟩] }

/-- The grant in the first binding is not even looked at. -/
theorem doubled_member_stays : ¬ RemovesMember Char.toLower viewer "user:a" doubledPolicy := by
  intro removes
  have single := singleGrant_of_removes (by decide) removes
  have lacks := single.earlier ⟨"roles/viewer", ["user:a"], none⟩ (by decide)
  revert lacks
  decide

end Law

end ConfigConnector.Direct
