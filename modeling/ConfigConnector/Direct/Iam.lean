import ConfigConnector.Iam.Types
import ConfigConnector.Lib.GoSlice
import ConfigConnector.Lib.Prog

/- Reading and editing the IAM policy of a resource that has a direct controller, for
one `IAMPolicyMember`, as direct/iam.go does it. -/
namespace ConfigConnector.Direct

open Interact K8s List
open ConfigConnector.Iam (Member MemberSource IAMCondition ResourceReference)

section Types

structure Iampb.Expr where
  expression : String
  title : String
  description : String
  location : String
  deriving DecidableEq, Repr

structure Iampb.Binding where
  role : String
  members : List Member
  condition : Option Iampb.Expr
  deriving DecidableEq, Repr

structure Iampb.Policy where
  version : Int
  bindings : List Iampb.Binding
  auditConfigs : List ConfigConnector.Iam.IAMPolicyAuditConfig
  etag : String
  deriving DecidableEq, Repr

structure IAMPolicyMemberSpec where
  resourceReference : ResourceReference
  member : Member
  memberFrom : Option MemberSource
  role : String
  condition : Option IAMCondition
  deriving DecidableEq, Repr

/-- The status is neither read nor set here. -/
structure IAMPolicyMember where
  metadata : ObjectMeta
  spec : IAMPolicyMemberSpec
  deriving DecidableEq

end Types

variable (fold : Char → Char)

section Members

/-- `strings.ToLower`, as far as it matters: no other character becomes one of those in
the text that the result is compared with. -/
def toLower (member : String) : List Char := member.toList.map Char.toLower

def stripTombstone (member : String) : String :=
  let named :=
    if "deleted:".toList.isPrefixOf (toLower member) then member.toList.drop "deleted:".length
    else member.toList
  String.ofList (named.takeWhile (· ≠ '?'))

/-- `strings.EqualFold`. Which characters are equal but for their case is in the tables
of Unicode: `fold` takes each to one that stands for all of them. -/
def equalFold (s t : String) : Bool :=
  s.toList.map fold == t.toList.map fold

def memberMatches (member wantMember : String) : Bool :=
  equalFold fold (stripTombstone member) (stripTombstone wantMember)

/-- What the matching looks at. -/
def principal (member : Member) : List Char :=
  (stripTombstone member).toList.map fold

theorem memberMatches_iff (member wantMember : Member) : memberMatches fold member wantMember ↔
      principal fold member = principal fold wantMember := by
  simp [memberMatches, equalFold, principal]

example : stripTombstone "DELETED:serviceAccount:a@p?UID=12345" = "serviceAccount:a@p" := by
  decide

end Members

section Adapter

variable (want : IAMPolicyMember) (memberID : Member)

/-- The calls of an `IAMAdapter`, and the one that finds the adapter. -/
inductive IamCall where
  | adapterForReference (sourceNamespace : String) (resourceRef : ResourceReference)
  | getIAMPolicy
  | setIAMPolicy (policy : Iampb.Policy)

/-- An adapter may be of a kind that has no IAM policy. -/
def IamCall.Answer : IamCall → Type
  | .adapterForReference _ _ => Except GoError Bool
  | .getIAMPolicy => Except GoError Iampb.Policy
  | .setIAMPolicy _ => Except GoError Iampb.Policy

abbrev IamCalls : Signature where
  Op := IamCall
  Ans := IamCall.Answer

/-- How the three operations start. -/
def readPolicy : Prog IamCalls (Except GoError Iampb.Policy) := do
  let adapter : Except GoError Bool ← Prog.perform (S := IamCalls)
    (.adapterForReference want.metadata.ns want.spec.resourceReference)
  match adapter with
  | .error err => return .error (.wrap "building adapter" err)
  | .ok false => return .error (.plain "adapter does not implement IAMAdapter")
  | .ok true =>
    let policy : Except GoError Iampb.Policy ← Prog.perform (S := IamCalls) .getIAMPolicy
    match policy with
    | .error err => return .error (.wrap "getting IAM policy" err)
    | .ok policy => return .ok policy

def hasMember (members : List Member) : Bool :=
  members.any fun member => memberMatches fold member memberID

/-- The member as the policy has it: the role is empty unless it is granted. -/
def actualMember (policy : Iampb.Policy) : IAMPolicyMember where
  metadata := want.metadata
  spec :=
    { resourceReference := want.spec.resourceReference
      member := memberID
      memberFrom := none
      role :=
        if policy.bindings.any fun binding =>
          binding.role == want.spec.role && hasMember fold memberID binding.members
        then want.spec.role else ""
      condition := none }

def getIAMPolicyMember : Prog IamCalls (Except GoError IAMPolicyMember) := do
  match ← readPolicy want with
  | .error err => return .error err
  | .ok policy => return .ok (actualMember fold want memberID policy)

/-- The place of the last binding of the role; the condition is not looked at. -/
def bindingOf (role : String) (bindings : List Iampb.Binding) : Option Nat :=
  GoSlice.lastIndex (fun binding => binding.role == role) bindings

/-- The bindings and the place of the one to edit, which is added if there is none. -/
def ensureBinding (role : String) (bindings : List Iampb.Binding) : List Iampb.Binding × Nat :=
  match bindingOf role bindings with
  | some i => (bindings, i)
  | none => (bindings ++ [{ role, members := [], condition := none }], bindings.length)

def appendMember (binding : Iampb.Binding) : Iampb.Binding :=
  { binding with members := binding.members ++ [memberID] }

/-- The part of `SetIAMPolicyMember` after the policy is read. -/
def grantMember (read : Iampb.Policy) : Prog IamCalls (Except GoError IAMPolicyMember) := do
  let (bindings, i) := ensureBinding want.spec.role read.bindings
  if bindings[i]?.any fun binding => hasMember fold memberID binding.members then
    return .ok (actualMember fold want memberID { read with bindings })
  else
    let policy := { read with bindings := bindings.modify i (appendMember memberID) }
    let newPolicy : Except GoError Iampb.Policy ←
      Prog.perform (S := IamCalls) (.setIAMPolicy policy)
    match newPolicy with
    | .error err => return .error (.wrap "setting IAM policy" err)
    | .ok latest => return .ok (actualMember fold want memberID latest)

def setIAMPolicyMember : Prog IamCalls (Except GoError IAMPolicyMember) := do
  match ← readPolicy want with
  | .error err => return .error err
  | .ok read => grantMember fold want memberID read

def removeMatching (removeMember : Member) (binding : Iampb.Binding) : Iampb.Binding :=
  { binding with
    members := binding.members.filter fun member => !memberMatches fold member removeMember }

/-- The part of `DeleteIAMPolicyMember` after the policy is read. -/
def revokeMember (role : String) (removeMember : Member)
    (read : Iampb.Policy) : Prog IamCalls (Except GoError Unit) := do
  match bindingOf role read.bindings with
  | none => return .ok ()
  | some i =>
    if read.bindings[i]?.any fun binding => hasMember fold removeMember binding.members then
      let policy :=
        { read with bindings := read.bindings.modify i (removeMatching fold removeMember) }
      let newPolicy : Except GoError Iampb.Policy ←
        Prog.perform (S := IamCalls) (.setIAMPolicy policy)
      match newPolicy with
      | .error err => return .error (.wrap "setting IAM policy" err)
      | .ok _ => return .ok ()
    else return .ok ()

def deleteIAMPolicyMember (removeMember : Member) : Prog IamCalls (Except GoError Unit) := do
  match ← readPolicy want with
  | .error err => return .error err
  | .ok read => revokeMember fold want.spec.role removeMember read

end Adapter

variable {binding : Iampb.Binding} {role : String}

section Grants

/-- A policy is the set of what it grants. -/
@[ext]
structure Iampb.Grant where
  role : String
  condition : Option Iampb.Expr
  member : Member
  deriving DecidableEq

def grantsOf (bindings : List Iampb.Binding) : Set Iampb.Grant :=
  fun g => ∃ b ∈ bindings, b.role = g.role ∧ b.condition = g.condition ∧ g.member ∈ b.members

def Iampb.Policy.grants (policy : Iampb.Policy) : Set Iampb.Grant := grantsOf policy.bindings

/-- The grants with their members read in some way. -/
def Iampb.Policy.grantsBy (policy : Iampb.Policy) (reading : Member → List Char) :
    Set (String × Option Iampb.Expr × List Char) :=
  (fun g => (g.role, g.condition, reading g.member)) '' policy.grants

/-- The binding that the policy has last for a role. -/
def lastBinding (role : String) (bindings : List Iampb.Binding) : Option Iampb.Binding :=
  (bindings.filter fun binding => binding.role == role).getLast?

variable {bindings : List Iampb.Binding}

theorem mem_grantsOf {g : Iampb.Grant} :
    g ∈ grantsOf bindings ↔ ∃ b ∈ bindings,
      b.role = g.role ∧ b.condition = g.condition ∧ g.member ∈ b.members := Iff.rfl

/-- A binding without members grants nothing. -/
theorem grantsOf_append_empty (bindings : List Iampb.Binding) (role : String)
    (condition : Option Iampb.Expr) :
    grantsOf (bindings ++ [{ role, members := [], condition }]) = grantsOf bindings := by
  ext g
  simp [mem_grantsOf, or_and_right, exists_or]

variable {before after : List Iampb.Binding}

theorem mem_grantsOf_middle
    {g : Iampb.Grant} : g ∈ grantsOf (before ++ binding :: after) ↔
      (binding.role = g.role ∧ binding.condition = g.condition ∧ g.member ∈ binding.members) ∨
        g ∈ grantsOf (before ++ after) := by
  simp only [mem_grantsOf, mem_append, mem_cons, or_and_right, exists_or, exists_eq_left]
  exact or_left_comm

theorem grantsOf_appendMember (before after : List Iampb.Binding) (binding : Iampb.Binding)
    (memberID : Member) :
    grantsOf (before ++ appendMember memberID binding :: after) =
      grantsOf (before ++ binding :: after) ∪ {⟨binding.role, binding.condition, memberID⟩} := by
  ext g
  have added : g = ⟨binding.role, binding.condition, memberID⟩ ↔
      binding.role = g.role ∧ binding.condition = g.condition ∧ g.member = memberID := by
    rw [Iampb.Grant.ext_iff, eq_comm, eq_comm (a := g.condition)]
  rw [Set.mem_union, Set.mem_singleton_iff, mem_grantsOf_middle, mem_grantsOf_middle, added]
  simp only [appendMember, mem_append, mem_singleton]
  tauto

/-- The binding that is edited, between those before and after it: the last one of the
role, or a new one without condition and members. -/
inductive Chosen (role : String) (bindings : List Iampb.Binding) :
    List Iampb.Binding → Iampb.Binding → List Iampb.Binding → Prop where
  | last (before after : List Iampb.Binding) (binding : Iampb.Binding)
      (same : binding.role = role) (whole : bindings = before ++ binding :: after)
      (found : lastBinding role bindings = some binding) :
      Chosen role bindings before binding after
  | added (missing : lastBinding role bindings = none) :
      Chosen role bindings bindings { role, members := [], condition := none } []

theorem ensureBinding_chosen (role : String) (bindings : List Iampb.Binding) :
    ∃ before binding after, Chosen role bindings before binding after ∧
      ensureBinding role bindings = (before ++ binding :: after, before.length) := by
  unfold ensureBinding
  cases found : bindingOf role bindings with
  | some i =>
    obtain ⟨before, binding, after, rfl, rfl, same, rest⟩ :=
      GoSlice.lastIndex_eq_some _ _ found
    have last : lastBinding role (before ++ binding :: after) = some binding :=
      GoSlice.last_of_filter same rest
    exact ⟨before, binding, after, .last _ _ _ (by simpa using same) rfl last, rfl⟩
  | none =>
    have others := GoSlice.lastIndex_eq_none _ _ found
    have empty : bindings.filter (fun binding => binding.role == role) = [] := by
      simpa using others
    have missing : lastBinding role bindings = none := by
      rw [lastBinding, empty]
      rfl
    exact ⟨bindings, _, [], .added missing, rfl⟩

namespace Chosen

variable {bindings before after : List Iampb.Binding}

section

variable (chosen : Chosen role bindings before binding after)
include chosen

theorem grants : grantsOf (before ++ binding :: after) = grantsOf bindings := by
  cases chosen with
  | last _ _ _ _ whole _ => rw [whole]
  | added _ => exact grantsOf_append_empty bindings role none

theorem role_eq : binding.role = role := by
  cases chosen with
  | last _ _ _ same _ _ => exact same
  | added _ => rfl

/-- A condition can only come from a binding that is there. -/
theorem condition_eq
    (unconditional : ∀ b, lastBinding role bindings = some b → b.condition = none) :
    binding.condition = none := by
  cases chosen with
  | last _ _ _ _ _ found => exact unconditional binding found
  | added _ => rfl

end

end Chosen

/-- The last binding of the role has the member, or a tombstone of it. -/
def Named (fold : Char → Char) (role : String) (memberID : Member)
    (bindings : List Iampb.Binding) : Prop :=
  ∃ binding, lastBinding role bindings = some binding ∧
    hasMember fold memberID binding.members = true

theorem Chosen.named_iff (chosen : Chosen role bindings before binding after) (fold : Char → Char)
    (memberID : Member) :
    Named fold role memberID bindings ↔ hasMember fold memberID binding.members := by
  cases chosen with
  | last _ _ _ _ _ found => simp [Named, found]
  | added missing => simp [Named, missing, hasMember]

end Grants

variable {fold : Char → Char} {before rest : List Iampb.Binding}

section Runs

/-- What a write of a policy can end in: the service takes the policy and gives it a new
etag, the answer to that is lost, or the policy is refused. -/
inductive SetOutcome (live policy : Iampb.Policy) :
    Except GoError Iampb.Policy → Iampb.Policy → Prop where
  | written (etag : String) : SetOutcome live policy (.ok { policy with etag }) { policy with etag }
  | lost (etag : String) (err : GoError) : SetOutcome live policy (.error err) { policy with etag }
  | refused (err : GoError) : SetOutcome live policy (.error err) live

/-- The answers about a live policy that nobody else changes. -/
def iamAnswers (live : Iampb.Policy) :
    (c : IamCall) → IamCall.Answer c → Iampb.Policy → Prop
  | .adapterForReference _ _, _, after => after = live
  | .getIAMPolicy, answer, after => after = live ∧ ∀ policy, answer = .ok policy → policy = live
  | .setIAMPolicy policy, answer, after => SetOutcome live policy answer after

variable {live : Iampb.Policy} {seen : Trace IamCalls} {want : IAMPolicyMember}

theorem readPolicy_ends :
    Ends iamAnswers (fun _ result after => after = live ∧
        ∀ policy, result = .ok policy → policy = live) seen live (readPolicy want) := by
  refine ends_perform.mpr fun adapter after answered => ?_
  obtain rfl : after = live := answered
  match adapter with
  | .error err => exact ⟨rfl, fun policy success => by cases success⟩
  | .ok false => exact ⟨rfl, fun policy success => by cases success⟩
  | .ok true =>
    refine ends_perform.mpr fun read later answered => ?_
    obtain ⟨rfl, same⟩ := answered
    cases read with
    | error err => exact ⟨rfl, fun policy success => by cases success⟩
    | ok policy =>
      refine ⟨rfl, fun other success => ?_⟩
      cases success
      exact same policy rfl

/-- What a call that succeeds leaves of the policy. -/
theorem setIAMPolicyMember_leaves (fold : Char → Char) (memberID : Member) :
    Ends iamAnswers (fun _ result after => ∀ actual, result = .ok actual →
        (Named fold want.spec.role memberID live.bindings ∧ after = live) ∨
          (¬ Named fold want.spec.role memberID live.bindings ∧ ∃ before binding rest etag,
            Chosen want.spec.role live.bindings before binding rest ∧
            after = { live with
              bindings := before ++ appendMember memberID binding :: rest, etag }))
      seen live (setIAMPolicyMember fold want memberID) := by
  refine readPolicy_ends.bind ?_
  rintro later result after ⟨rfl, same⟩
  cases result with
  | error err => exact fun actual success => by cases success
  | ok policy =>
    obtain rfl := same policy rfl
    obtain ⟨before, binding, rest, chosen, ensured⟩ :=
      ensureBinding_chosen want.spec.role policy.bindings
    have named := chosen.named_iff fold memberID
    have place : (before ++ binding :: rest)[before.length]? = some binding := by simp
    change Ends _ _ _ _ (grantMember fold want memberID policy)
    unfold grantMember
    rw [ensured]
    dsimp only
    rw [place, GoSlice.modify_middle]
    split
    · rename_i found
      exact fun actual _ => Or.inl ⟨named.mpr found, rfl⟩
    rename_i lacks
    refine ends_perform.mpr fun answer after answered => ?_
    cases answered with
    | lost _ _ | refused _ => exact fun actual success => by cases success
    | written etag =>
      exact fun actual _ => Or.inr ⟨fun isNamed => lacks (named.mp isNamed),
        before, binding, rest, etag, chosen, rfl⟩

/-- The run in which every call succeeds. -/
theorem setIAMPolicyMember_succeeds {memberID : Member}
    {post : Trace IamCalls → Except GoError IAMPolicyMember → Iampb.Policy → Prop}
    (ensured : ensureBinding want.spec.role live.bindings =
      (before ++ binding :: rest, before.length))
    (ends : Ends iamAnswers post seen live (setIAMPolicyMember fold want memberID)) :
    ∃ later actual, post later (.ok actual)
      { live with bindings :=
          if hasMember fold memberID binding.members then live.bindings
          else before ++ appendMember memberID binding :: rest } := by
  have place : (before ++ binding :: rest)[before.length]? = some binding := by simp
  have read : Ends iamAnswers post _ live (grantMember fold want memberID live) :=
    ends (.ok true) live rfl (.ok live) live ⟨rfl, fun _ same => by cases same; rfl⟩
  unfold grantMember at read
  rw [ensured] at read
  dsimp only at read
  rw [place, GoSlice.modify_middle, Option.any_some] at read
  split
  · rename_i has
    rw [if_pos has] at read
    exact ⟨_, _, read⟩
  rename_i lacks
  rw [if_neg lacks] at read
  exact ⟨_, _, read (.ok _) _ (.written live.etag)⟩

end Runs

section Law

variable {live after : Iampb.Policy} {memberID : Member}

theorem grantsBy_union {reading : Member → List Char}
    (grown : after.grants = live.grants ∪ {⟨role, none, memberID⟩}) :
    after.grantsBy reading = live.grantsBy reading ∪ {(role, none, reading memberID)} := by
  rw [Iampb.Policy.grantsBy, grown, Set.image_union, Set.image_singleton, ← Iampb.Policy.grantsBy]

/-- A member that the policy names already adds nothing but its letter case and marks. -/
theorem grantsBy_named
    (unconditional : ∀ b, lastBinding role live.bindings = some b → b.condition = none)
    (named : Named fold role memberID live.bindings) :
    (role, none, principal fold memberID) ∈ live.grantsBy (principal fold) := by
  obtain ⟨binding, last, has⟩ := named
  obtain ⟨member, listed, found⟩ := any_eq_true.mp has
  have matched : principal fold member = principal fold memberID :=
    (memberMatches_iff fold member memberID).mp found
  have among := mem_filter.mp (mem_of_getLast? last)
  have same : binding.role = role := by simpa using among.2
  refine ⟨⟨role, none, member⟩, ⟨binding, among.1, same, unconditional binding last, listed⟩, ?_⟩
  exact congrArg (fun name => (role, none, name)) matched

/-- Where the binding that a policy has last for the role has no condition, the member is
granted the role and nothing else changes, but for the letter case and the tombstone
marks of members. Nothing is written when that binding names the member, and otherwise
exactly the wanted grant is added. -/
theorem setIAMPolicyMember_grants (fold : Char → Char) (want : IAMPolicyMember)
    (memberID : Member) (live : Iampb.Policy)
    (unconditional : ∀ b, lastBinding want.spec.role live.bindings = some b →
      b.condition = none) :
    Ends iamAnswers (fun _ result after => ∀ actual, result = .ok actual →
        after.grantsBy (principal fold) =
          live.grantsBy (principal fold) ∪ {(want.spec.role, none, principal fold memberID)} ∧
        (Named fold want.spec.role memberID live.bindings → after = live) ∧
        (¬ Named fold want.spec.role memberID live.bindings →
          after.grants = live.grants ∪ {⟨want.spec.role, none, memberID⟩}))
      [] live (setIAMPolicyMember fold want memberID) := by
  refine (setIAMPolicyMember_leaves fold memberID).mono fun _ result after leaves => ?_
  intro actual success
  rcases leaves actual success with ⟨named, rfl⟩ | ⟨fresh, before, binding, rest, etag, chosen, rfl⟩
  · have held := grantsBy_named unconditional named
    refine ⟨?_, fun _ => rfl, fun fresh => absurd named fresh⟩
    rw [Set.union_singleton, Set.insert_eq_of_mem held]
  have grown : grantsOf (before ++ appendMember memberID binding :: rest) =
      live.grants ∪ {⟨want.spec.role, none, memberID⟩} := by
    rw [grantsOf_appendMember, chosen.grants, chosen.role_eq, chosen.condition_eq unconditional]
    rfl
  exact ⟨grantsBy_union grown, fun named => absurd named fresh, fun _ => grown⟩

/-- A policy with one binding. -/
def viewerPolicy (members : List Member) (condition : Option Iampb.Expr) : Iampb.Policy where
  version := 3
  bindings := [{ role := "roles/viewer", members, condition }]
  auditConfigs := []
  etag := "etag"

def viewer : IAMPolicyMember where
  metadata := .created "ns" "viewer"
  spec :=
    { resourceReference := ⟨"PrivateCACAPool", "ns", "pool", "", ""⟩
      member := "user:a"
      memberFrom := none
      role := "roles/viewer"
      condition := none }

theorem setIAMPolicyMember_grants_viewer :
    Ends iamAnswers (fun _ result after => ∀ actual, result = .ok actual →
        after.grantsBy (principal Char.toLower) =
          (viewerPolicy ["user:b"] none).grantsBy (principal Char.toLower) ∪
            {("roles/viewer", none, principal Char.toLower "user:a")})
      [] (viewerPolicy ["user:b"] none) (setIAMPolicyMember Char.toLower viewer "user:a") := by
  have unconditional : ∀ b, lastBinding viewer.spec.role (viewerPolicy ["user:b"] none).bindings =
      some b → b.condition = none := by
    intro b last
    cases last
    rfl
  exact (setIAMPolicyMember_grants Char.toLower viewer "user:a" _ unconditional).mono
    fun _ _ _ granted actual success => (granted actual success).1

/-- The wanted grant and the old ones are those of the policy that is left, but for the
letter case of members. -/
def GrantsExactly (fold : Char → Char) (want : IAMPolicyMember) (memberID : Member)
    (live : Iampb.Policy) : Prop :=
  Ends iamAnswers (fun _ result after => ∀ actual, result = .ok actual →
      after.grantsBy (fun member => member.toList.map fold) =
        live.grantsBy (fun member => member.toList.map fold) ∪
          {(want.spec.role, none, memberID.toList.map fold)})
    [] live (setIAMPolicyMember fold want memberID)

/-- The policy that is left by the run in which every call succeeds has the member in a
binding without condition. -/
theorem GrantsExactly.unconditional {want : IAMPolicyMember}
    (law : GrantsExactly fold want memberID live)
    (ensured : ensureBinding want.spec.role live.bindings =
      (before ++ binding :: rest, before.length)) :
    ∃ b ∈ (if hasMember fold memberID binding.members then live.bindings
        else before ++ appendMember memberID binding :: rest),
      b.condition = none ∧ ∃ member ∈ b.members,
        member.toList.map fold = memberID.toList.map fold := by
  obtain ⟨later, actual, exactly⟩ := setIAMPolicyMember_succeeds ensured law
  obtain ⟨g, ⟨b, listed, _, condition, member⟩, same⟩ := (exactly actual rfl).superset (Or.inr rfl)
  simp only [Prod.mk.injEq] at same
  exact ⟨b, listed, condition.trans same.2.1, g.member, member, same.2.2⟩

/-- A condition that happens to stand on the binding goes with the new member too, and a
tombstone is taken for the member. -/
theorem viewer_not_granted :
    ¬ GrantsExactly Char.toLower viewer "user:a"
        (viewerPolicy ["user:b"] (some ⟨"request.time < t", "until", "", ""⟩)) ∧
      ¬ GrantsExactly Char.toLower viewer "user:a"
        (viewerPolicy ["deleted:user:a?uid=1"] none) := by
  have ensured : ∀ members condition, ensureBinding viewer.spec.role
      (viewerPolicy members condition).bindings = ([] ++ ⟨"roles/viewer", members, condition⟩ :: [],
        ([] : List Iampb.Binding).length) := fun _ _ => rfl
  constructor
  · intro law
    obtain ⟨b, listed, condition, _⟩ := law.unconditional (ensured _ _)
    rw [if_neg (by decide)] at listed
    simp only [nil_append, mem_singleton] at listed
    rw [listed] at condition
    cases condition
  · intro law
    obtain ⟨b, listed, _, member, among, same⟩ := law.unconditional (ensured _ _)
    rw [if_pos (by decide)] at listed
    simp only [viewerPolicy, mem_singleton] at listed
    rw [listed, mem_singleton] at among
    rw [among] at same
    revert same
    decide

end Law

end ConfigConnector.Direct
