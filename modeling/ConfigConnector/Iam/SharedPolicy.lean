import ConfigConnector.Iam.PartialPolicyContract
import ConfigConnector.Iam.Service
import ConfigConnector.Lib.Machine

/- Any number of partial policies for one GCP resource. Each reconcile reads the
whole policy and writes the whole policy back, and so does everybody else. -/
namespace ConfigConnector.Iam.PartialPolicy

open Interact K8s Function

/-- The objects, each in the API server, and the policy they share. -/
structure Fleet (ι : Type) where
  server : ι → Server IAMPartialPolicySpec AppliedBindings
  live : LivePolicy

namespace Fleet

variable {ι : Type} [DecidableEq ι]
variable (identity : Member → Option MemberSource → String → Member) (dcl : Bool)
variable {server : Server IAMPartialPolicySpec AppliedBindings}

def answers (p : ι) (s : Fleet ι) : (c : S.Op) → S.Ans c → Fleet ι → Prop
  | .ask (.getPolicy resource), answer, after =>
    after = s ∧ ∀ policy, answer = .ok policy → policy = s.live.read dcl resource
  | .ask (.setPolicy policy), answer, after =>
    ∃ live, LivePolicy.SetOutcome dcl s.live policy answer live ∧ after = { s with live }
  | .ask .resolver, resolver, after => after = s ∧ ∀ member source ns found,
      resolver member source ns = .ok found → found = identity member source ns
  | .postUpdateStatusTransform r, answer, after => after = s ∧ answer = .ok r.spec
  | c, answer, after => ∃ server, (s.server p).answers c answer server ∧
      after = { s with server := Function.update s.server p server }

/-- The grants an object asks for or has applied. -/
def manages (pp : IAMPartialPolicy) : Set Grant := specGrants identity pp ∪ appliedGrants pp

variable (owned : ι → Set Grant) (foreign : Set Grant)

/-- What users and others do: edit an object within the grants that are its own,
delete it, or change the policy outside of what the objects own. -/
inductive Moves (s : Fleet ι) : Fleet ι → Prop where
  | edit (p : ι) (r : IAMPartialPolicy)
      (within : ∀ v, ((s.server p).userUpdate r).stored = some v →
        specGrants identity v ⊆ owned p) :
      Moves s { s with server := Function.update s.server p ((s.server p).userUpdate r) }
  | delete (p : ι) (time : Nat) :
      Moves s { s with server := Function.update s.server p ((s.server p).userDelete time) }
  | external (live : LivePolicy) (follows : LivePolicy.Follows s.live live)
      (outside : ∀ g, g ∉ foreign → (g ∈ grants live.bindings ↔ g ∈ grants s.live.bindings)) :
      Moves s { s with live }

def Starts (s : Fleet ι) : Prop :=
  ∀ p o, (s.server p).stored = some o → manages identity o ⊆ owned p

def machine : Machine S where
  State := Fleet ι
  Party := ι
  program := fun _ => do
    let _ ← reconcile
    return ()
  answers := answers identity dcl
  drift := Moves identity owned foreign

instance : DecidableEq (machine identity dcl owned foreign).Party :=
  inferInstanceAs (DecidableEq ι)

/-- What a reconcile of the object `p` knows while it runs. -/
structure Own (p : ι) (s : Fleet ι) (seen : Trace S) : Prop where
  known : Seen (s.server p) seen
  policy : ∀ policy, readPolicy seen = some policy → LivePolicy.Knows dcl s.live policy
  within : ∀ v, latest seen = some v → manages identity v ⊆ owned p

variable {owned foreign}

section Steps

variable {identity} {dcl} {p : ι} {s after : Fleet ι} {seen : Trace S}
  {c : S.Op} {answer : Call.Answer Query.Answer c}

omit [DecidableEq ι] in
/-- A write of the reconcile stays within the grants of its object. -/
theorem manages_saved {v new : IAMPartialPolicy} (saved : SavedFrom identity seen v new) :
    manages identity new ⊆ manages identity v := by
  rintro g (asked | applied)
  · exact Or.inl (saved.specGrants ▸ asked)
  rcases saved.records with same | ⟨_, recorded⟩
  · rw [appliedGrants, same] at applied
    exact Or.inr applied
  rw [appliedGrants, recorded] at applied
  split at applied
  · exact absurd applied (Set.notMem_empty g)
  · exact Or.inl applied

omit [DecidableEq ι] in
theorem Own.quiet (own : Own identity dcl owned p s seen)
    (object : latest (⟨c, answer⟩ :: seen : Trace S) = latest seen)
    (read : readPolicy (⟨c, answer⟩ :: seen : Trace S) = readPolicy seen) :
    Own identity dcl owned p s (⟨c, answer⟩ :: seen) where
  known := fun v last => own.known v (object ▸ last)
  policy := fun policy found => own.policy policy (read ▸ found)
  within := fun v last => own.within v (object ▸ last)

omit [DecidableEq ι] in
/-- The policy that a reconcile sets differs from the live one only in grants that
its object asks for or has applied. -/
theorem Own.set_frame (own : Own identity dcl owned p s seen) {policy : IAMPolicy}
    {live : LivePolicy} {result : Except GoError Unit}
    (guarded : guard identity seen (.ask (.setPolicy policy)))
    (outcome : LivePolicy.SetOutcome dcl s.live policy result live) :
    (∀ g, (g ∈ grants live.bindings ↔ g ∈ grants s.live.bindings) ∨
      ∃ v, latest seen = some v ∧ g ∈ manages identity v) ∧
    live.auditConfigs = s.live.auditConfigs := by
  obtain ⟨v, read, last, readIs, etag, audit, granted⟩ := guarded
  rcases outcome.cases with write | ⟨rfl, _⟩
  · -- The etag says that the policy is still the one that was read.
    have current := (own.policy read readIs).same (etag.symm.trans write.etag)
    refine ⟨fun g => ?_, ?_⟩
    · by_cases mine : g ∈ manages identity v
      · exact Or.inr ⟨v, last, mine⟩
      have notAsked : g ∉ specGrants identity v := fun asked => mine (Or.inl asked)
      have notApplied : g ∉ appliedGrants v := fun applied => mine (Or.inr applied)
      rw [write.bindings, granted, current.1, mem_target]
      simp [notAsked, notApplied]
    · rw [write.auditConfigs, audit, current.2]
      cases dcl with
      | true | false => rfl
  · exact ⟨fun g => Or.inl Iff.rfl, rfl⟩

/-- A call sets the policy, or does nothing but to the object of the reconcile. -/
theorem answers_cases (answered : answers identity dcl p s c answer after) :
    (∃ policy, c = .ask (.setPolicy policy)) ∨
      ∃ server, after = { s with server := Function.update s.server p server } := by
  have unchanged : after = s →
      ∃ server, after = { s with server := Function.update s.server p server } := by
    rintro rfl
    exact ⟨after.server p, by rw [update_eq_self]⟩
  cases c with
  | get | update | updateStatus | patchSSA => exact .inr (answered.imp fun _ => And.right)
  | postUpdateStatusTransform r => exact .inr (unchanged answered.1)
  | ask q =>
    cases q with
    | setPolicy policy => exact .inl ⟨policy, rfl⟩
    | getPolicy | resolver => exact .inr (unchanged answered.1)
    | applyDefaults | fetchLiveKCCState | orders | watch | track | jitteredReenqueue =>
      exact .inr (answered.imp fun _ => And.right)

theorem Starts.moved (shared : Starts identity owned s)
    (kept : ∀ v, server.stored = some v → manages identity v ⊆ owned p) :
    Starts identity owned { s with server := Function.update s.server p server } := by
  intro q o found
  change (Function.update s.server p server q).stored = some o at found
  by_cases same : q = p
  · subst same
    rw [update_self] at found
    exact kept o found
  · rw [update_of_ne same] at found
    exact shared q o found

section

variable (shared : Starts identity owned s) (own : Own identity dcl owned p s seen)
  (guarded : guard identity seen c)
include shared own guarded

/-- A call that only the API server answers. -/
theorem Own.served (answered : (s.server p).answers c answer server)
    (read : readPolicy (⟨c, answer⟩ :: seen : Trace S) = readPolicy seen) :
    Starts identity owned { s with server := Function.update s.server p server } ∧
      Own identity dcl owned p { s with server := Function.update s.server p server }
        (⟨c, answer⟩ :: seen) := by
  -- It is enough to look at what is stored for `p` now and at what was answered.
  have enough : (∀ o, server.stored = some o → manages identity o ⊆ owned p) →
      (∀ v, latest (⟨c, answer⟩ :: seen : Trace S) = some v → manages identity v ⊆ owned p) →
      Starts identity owned { s with server := Function.update s.server p server } ∧
        Own identity dcl owned p { s with server := Function.update s.server p server }
          (⟨c, answer⟩ :: seen) := by
    intro stored last
    refine ⟨shared.moved stored, ⟨?_, fun policy isRead => own.policy policy (read ▸ isRead), last⟩⟩
    change Seen (Function.update s.server p server p) _
    rw [update_self]
    exact own.known.answered answered
  by_cases isGet : c = .get
  · subst isGet
    obtain ⟨rfl, outcome⟩ := answered
    refine enough (shared p) ?_
    intro v last
    cases outcome with
    | found r stored =>
      cases last
      exact shared p v stored
    | absent _ _ | failed _ _ => exact own.within v last
  · rcases guarded_write own.known guarded isGet answered with
      ⟨rfl, quiet⟩ | ⟨v, new, last, stored, saved, rfl, object⟩
    · refine enough (shared p) fun v last => own.within v ?_
      rw [← last, latest_cons, quiet, Option.none_or]
    have within : manages identity new ⊆ owned p :=
      (manages_saved saved).trans (own.within v last)
    refine enough ?_ ?_
    · intro o found
      obtain ⟨version, rfl⟩ := write_stored stored found
      exact within
    intro w found
    rcases latest_written last object w found with rfl | ⟨version, rfl⟩
    · exact own.within w last
    · exact within

/-- Every call of a reconcile keeps what is known, and is answered as relied on. -/
theorem Own.act (answered : answers identity dcl p s c answer after) :
    rely identity seen c answer ∧ Starts identity owned after ∧
      Own identity dcl owned p after (⟨c, answer⟩ :: seen) := by
  cases c with
  | get | update | updateStatus =>
    obtain ⟨server, served, rfl⟩ := answered
    exact ⟨⟨own.known.rely served, trivial⟩, own.served shared guarded served rfl⟩
  | patchSSA annotated => exact absurd guarded id
  | postUpdateStatusTransform r =>
    obtain ⟨rfl, rfl⟩ := answered
    have served : (after.server p).answers (A := Query.Answer)
      (.postUpdateStatusTransform r : Call _ _ Query) (.ok r.spec) (after.server p) := rfl
    refine ⟨⟨own.known.rely served, ?_⟩, shared, own.quiet rfl rfl⟩
    rintro spec ⟨⟩
    rfl
  | ask q =>
    have asked : (s.server p).answers (.ask q) answer (s.server p) := rfl
    have quiet : SessionRely seen (.ask q) answer := own.known.rely asked
    cases q with
    | getPolicy resource =>
      obtain ⟨rfl, read⟩ := answered
      refine ⟨⟨quiet, trivial⟩, shared, ?_⟩
      cases answer with
      | error err => exact own.quiet rfl rfl
      | ok policy =>
        refine ⟨own.known, ?_, own.within⟩
        rintro found ⟨⟩
        rw [read policy rfl]
        exact LivePolicy.knows_read _ dcl resource
    | setPolicy policy =>
      obtain ⟨live, outcome, rfl⟩ := answered
      refine ⟨⟨quiet, trivial⟩, shared, own.known, ?_, own.within⟩
      intro found isRead
      exact (own.policy found isRead).set outcome
    | resolver =>
      obtain ⟨rfl, known⟩ := answered
      exact ⟨⟨quiet, known⟩, shared, own.quiet rfl rfl⟩
    | applyDefaults | fetchLiveKCCState | orders | watch | track | jitteredReenqueue =>
      obtain ⟨server, served, rfl⟩ := answered
      exact ⟨⟨quiet, trivial⟩, own.served shared guarded served rfl⟩

end

/-- A reconcile of another object leaves what is known in place. -/
theorem Own.other {q : ι} (different : q ≠ p) (own : Own identity dcl owned q s seen)
    (answered : answers identity dcl p s c answer after) : Own identity dcl owned q after seen := by
  rcases answers_cases answered with ⟨policy, rfl⟩ | ⟨server, rfl⟩
  · obtain ⟨live, outcome, rfl⟩ := answered
    exact ⟨own.known, fun _ read => (own.policy _ read).set outcome, own.within⟩
  · refine ⟨?_, own.policy, own.within⟩
    change Seen (Function.update s.server p server q) seen
    rw [update_of_ne different]
    exact own.known

/-- No call of a reconcile reaches beyond the grants of its object. -/
theorem Own.frame (own : Own identity dcl owned p s seen) (guarded : guard identity seen c)
    (answered : answers identity dcl p s c answer after) :
    (∀ g, (g ∈ grants after.live.bindings ↔ g ∈ grants s.live.bindings) ∨
      ∃ v, latest seen = some v ∧ g ∈ manages identity v) ∧
    after.live.auditConfigs = s.live.auditConfigs := by
  rcases answers_cases answered with ⟨policy, rfl⟩ | ⟨server, rfl⟩
  · obtain ⟨live, outcome, rfl⟩ := answered
    exact own.set_frame guarded outcome
  · exact ⟨fun g => Or.inl Iff.rfl, rfl⟩

end Steps

section Runs

variable {identity} {dcl}

omit [DecidableEq ι] in
theorem userUpdate_manages {r : IAMPartialPolicy} {mine : Set Grant}
    (before : ∀ o, server.stored = some o → manages identity o ⊆ mine)
    (within : ∀ v, (server.userUpdate r).stored = some v → specGrants identity v ⊆ mine) :
    ∀ v, (server.userUpdate r).stored = some v → manages identity v ⊆ mine := by
  intro v stored
  apply Set.union_subset (within v stored)
  obtain ⟨o, version, found, rfl⟩ := userUpdate_stored stored
  exact Set.subset_union_right.trans (before o found)

omit [DecidableEq ι] in
theorem userDelete_manages {time : Nat}
    {mine : Set Grant} (before : ∀ o, server.stored = some o → manages identity o ⊆ mine) :
    ∀ v, (server.userDelete time).stored = some v → manages identity v ⊆ mine := by
  intro v stored
  rcases userDelete_stored stored with same | ⟨o, version, found, -, rfl⟩
  · exact before v same
  · exact before o found

theorem Own.moved {s : Fleet ι} {seen : Trace S} {q : ι} (own : Own identity dcl owned q s seen)
    (p : ι) (advances : Advances (s.server p) server) :
    Own identity dcl owned q { s with server := Function.update s.server p server } seen := by
  refine ⟨?_, own.policy, own.within⟩
  change Seen (Function.update s.server p server q) seen
  by_cases same : q = p
  · subst same
    rw [update_self]
    exact own.known.advances advances
  · rw [update_of_ne same]
    exact own.known

theorem invariant : (machine identity dcl owned foreign).Invariant (fun _ => contract identity)
    (Starts identity owned) (fun _ _ => True) (Starts identity owned) (Own identity dcl owned) where
  init := fun _ starts => starts
  fresh := by
    intro p s _
    exact ⟨nofun, nofun, nofun⟩
  drift := by
    intro w after shared own moved _
    cases moved with
    | edit p r within =>
      refine ⟨shared.moved (userUpdate_manages (shared p) within), fun q t running => ?_⟩
      exact (own q t running).moved p (userUpdate_advances _ r)
    | delete p time =>
      refine ⟨shared.moved (userDelete_manages (shared p)), fun q t running => ?_⟩
      exact (own q t running).moved p (userDelete_advances _ time)
    | external live follows outside =>
      refine ⟨shared, fun q t running => ?_⟩
      have mine := own q t running
      exact ⟨mine.known, fun policy read => (mine.policy policy read).follows follows,
        mine.within⟩
  act := by
    intro w after p seen op answer shared own guarded answered _
    obtain ⟨relied, kept, mine⟩ := own.act shared guarded answered
    exact ⟨relied, kept, mine, fun q other different known => known.other different answered⟩

/-- Whatever the reconciles of the objects do in between, a call of one of them
changes only grants that its object, as it read it, asks for or has applied. It
leaves the audit configs, the grants of the other objects and those of others. -/
theorem reconcile_changes_only_managed
    (identity : Member → Option MemberSource → String → Member) (dcl : Bool)
    (owned : ι → Set Grant) (foreign : Set Grant)
    (disjoint : ∀ p q, p ≠ q → Disjoint (owned p) (owned q))
    (apart : ∀ p, Disjoint foreign (owned p)) (w : (machine identity dcl owned foreign).World)
    (reached : (machine identity dcl owned foreign).Reach (Starts identity owned)
      (fun _ _ => True) w)
    (p : ι) (seen : Trace S) (c : S.Op)
    (next : Call.Answer Query.Answer c → Prog S Unit)
    (running : w.threads p = some ⟨seen, .call c next⟩)
    (answer : Call.Answer Query.Answer c) (after : Fleet ι)
    (answered : answers identity dcl p w.state c answer after) :
    (∀ g, (g ∈ grants after.live.bindings ↔ g ∈ grants w.state.live.bindings) ∨
      ∃ v, latest seen = some v ∧ (g ∈ specGrants identity v ∨ g ∈ appliedGrants v)) ∧
    after.live.auditConfigs = w.state.live.auditConfigs ∧
    (∀ q, q ≠ p → ∀ g ∈ owned q,
      (g ∈ grants after.live.bindings ↔ g ∈ grants w.state.live.bindings)) ∧
    (∀ g ∈ foreign, (g ∈ grants after.live.bindings ↔ g ∈ grants w.state.live.bindings)) := by
  have programs : ∀ p, Abides (contract identity) []
      ((machine identity dcl owned foreign).program p) :=
    fun _ => Obeys.bind_any reconcile_obeys fun _ _ => trivial
  obtain ⟨own, obeys⟩ := (Machine.Reach.invariant programs invariant reached).2 p _ running
  have frame := own.frame obeys.1 answered
  have others : ∀ g, g ∉ owned p →
      (g ∈ grants after.live.bindings ↔ g ∈ grants w.state.live.bindings) := by
    intro g notMine
    rcases frame.1 g with same | ⟨v, last, managed⟩
    · exact same
    · exact absurd (own.within v last managed) notMine
  refine ⟨frame.1, frame.2, ?_, ?_⟩
  · intro q different g member
    apply others
    exact Set.disjoint_left.mp (disjoint q p different) member
  intro g member
  apply others
  exact Set.disjoint_left.mp (apart p) member

end Runs

section Replay

/-- An object that asks for one role for one member. -/
def grantTo (role : String) (member : Member) : IAMPartialPolicy where
  metadata := .created "ns" role
  spec := ⟨projectRef, [⟨[⟨member, none⟩], role, none⟩]⟩
  status := ⟨[], none, ⟨[], []⟩⟩

def editors : IAMPolicyBinding := ⟨["user:b"], "roles/editor", none⟩

def viewers : IAMPolicyBinding := ⟨["user:a"], "roles/viewer", none⟩

/-- `true` asks for a viewer and `false` for an editor, who is granted already. -/
def two : Fleet Bool where
  server := fun p =>
    .holding (bif p then grantTo "roles/viewer" "user:a" else grantTo "roles/editor" "user:b")
  live := ⟨[editors], [], "e1", []⟩

def ownedRole (p : Bool) : Set Grant :=
  {g | g.key.role = bif p then "roles/viewer" else "roles/editor"}

theorem two_starts : Starts asWritten ownedRole two := by
  intro p o stored
  cases stored
  rintro g (⟨b, member, role, _⟩ | ⟨b, member, _⟩)
  · cases p <;> cases List.mem_singleton.mp member <;> simp [ownedRole, role]
  · cases p <;> cases member

theorem ownedRole_disjoint (p q : Bool) (different : p ≠ q) :
    Disjoint (ownedRole p) (ownedRole q) := by
  rw [Set.disjoint_left]
  intro g mine theirs
  have roles := Eq.trans (Eq.symm mine) theirs
  cases p <;> cases q <;> simp at different roles

def bothPolicy : IAMPolicy where
  spec := ⟨projectRef, [editors, viewers], [], "e1"⟩

def bothGranted : LivePolicy := ⟨[editors, viewers], [], "e2", ["e1"]⟩

theorem bothPolicy_written : LivePolicy.Written false two.live bothPolicy bothGranted :=
  ⟨⟨by decide, rfl⟩, rfl, by decide, rfl, rfl⟩

theorem reconcile_changes_only_managed_two :
    viewers ∈ bothGranted.bindings ∧
      (⟨⟨"roles/editor", .zero⟩, "user:b"⟩ ∈ grants bothGranted.bindings ↔
        ⟨⟨"roles/editor", .zero⟩, "user:b"⟩ ∈ grants two.live.bindings) ∧
      bothGranted.auditConfigs = two.live.auditConfigs := by
  have init := @Machine.Reach.init _ (machine asWritten false ownedRole ∅) _
    (Starts asWritten ownedRole) (fun _ _ => True) two two_starts
  have same : ∀ p, two = { two with server := Function.update two.server p (two.server p) } := by
    intro p
    rw [update_eq_self]
  have started := init.start true
  have read := started.reply true rfl (Except.ok (grantTo "roles/viewer" "user:a")) two
    ⟨two.server true, ⟨rfl, .found _ rfl⟩, same true⟩
  have defaulted := read.reply true rfl (Except.ok none) two ⟨_, rfl, same true⟩
  have actuated := defaulted.reply true rfl (Except.ok (⟨"cluster", none⟩, ⟨none⟩)) two
    ⟨_, rfl, same true⟩
  have policy := actuated.reply true rfl
    (Except.ok (two.live.read false projectRef)) two
    ⟨rfl, by rintro found ⟨⟩; rfl⟩
  have resolver := policy.reply true rfl (fun member _ _ => Except.ok member) two
    ⟨rfl, by rintro member source ns found ⟨⟩; rfl⟩
  have ordered := resolver.reply true rfl GoMap.Orders.stored two ⟨_, rfl, same true⟩
  have kept := reconcile_changes_only_managed asWritten false ownedRole ∅ ownedRole_disjoint
    (fun p => Set.empty_disjoint _) _ ordered true _ (.ask (.setPolicy bothPolicy)) _ rfl
    (Except.ok ()) { two with live := bothGranted }
    ⟨bothGranted, .written bothGranted bothPolicy_written, rfl⟩
  exact ⟨by decide, kept.2.2.1 false (by decide) _ rfl, kept.2.1⟩

end Replay

end Fleet

end ConfigConnector.Iam.PartialPolicy
