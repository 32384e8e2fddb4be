import ConfigConnector.Iam.PartialPolicyContract
import ConfigConnector.Iam.Service
import ConfigConnector.Lib.Machine

/- One partial policy and one GCP resource: the reconciles of the object, the edits
of its users and the changes others make to the policy, in any order. A grant is
orphaned when the controller brought it in and nothing says so any more. -/
namespace ConfigConnector.Iam.PartialPolicy

open Interact K8s

/-- `introduced` are the grants that a `SetPolicy` of the controller brought in and
that have been in the policy ever since. -/
structure Cluster where
  server : Server IAMPartialPolicySpec AppliedBindings
  live : LivePolicy
  introduced : Set Grant

namespace Cluster

/-- After a `SetPolicy` the grants that were not there before are introduced ones. -/
def afterSet (s : Cluster) (live : LivePolicy) : Cluster where
  server := s.server
  live := live
  introduced := fun g =>
    g ∈ grants live.bindings ∧ (g ∈ s.introduced ∨ g ∉ grants s.live.bindings)

variable (identity : Member → Option MemberSource → String → Member) (dcl : Bool) (s : Cluster)

def answers : (c : S.Op) → S.Ans c → Cluster → Prop
  | .ask (.getPolicy resource), answer, after =>
    after = s ∧ ∀ policy, answer = .ok policy → policy = s.live.read dcl resource
  | .ask (.setPolicy policy), answer, after =>
    ∃ live, LivePolicy.SetOutcome dcl s.live policy answer live ∧ after = s.afterSet live
  | .ask .resolver, resolver, after => after = s ∧ ∀ member source ns found,
      resolver member source ns = .ok found → found = identity member source ns
  | .postUpdateStatusTransform r, answer, after => after = s ∧ answer = .ok r.spec
  | c, answer, after => s.server.answers c answer after.server ∧
      after.live = s.live ∧ after.introduced = s.introduced

/-- What users and others do. -/
inductive Moves : Cluster → Prop where
  | edit (r : IAMPartialPolicy) : Moves { s with server := s.server.userUpdate r }
  | external (live : LivePolicy) (follows : LivePolicy.Follows s.live live) :
      Moves { s with live, introduced := s.introduced ∩ grants live.bindings }

/-- An object that is not being deleted, and nothing introduced so far. -/
structure Starts : Prop where
  stored : ∀ o, s.server.stored = some o → o.metadata.isDeleting = false
  introduced : s.introduced = ∅

/-- Every grant the controller introduced is asked for or recorded as applied. -/
def NoOrphans : Prop :=
  ∀ o, s.server.stored = some o → ∀ g ∈ s.introduced,
    g ∈ specGrants identity o ∨ g ∈ appliedGrants o

def machine : Machine S where
  State := Cluster
  Party := Unit
  program := fun _ => do
    let _ ← reconcile
    return ()
  answers := fun _ s => s.answers identity dcl
  drift := Moves

instance : DecidableEq (machine identity dcl).Party := inferInstanceAs (DecidableEq Unit)

/-- No step takes a grant out of the spec that is not recorded as applied, once it
has been introduced or a running reconcile has read it. -/
def KeepsPending (w after : (machine identity dcl).World) : Prop :=
  ∀ o o', w.state.server.stored = some o → after.state.server.stored = some o' →
    ∀ g ∈ specGrants identity o, g ∉ specGrants identity o' →
      g ∈ appliedGrants o ∨ (g ∉ w.state.introduced ∧
        ∀ p t v, w.threads p = some t → latest t.seen = some v → g ∉ specGrants identity v)

/-- What holds of the state alone. -/
structure Shared : Prop where
  live : ∀ o, s.server.stored = some o → o.metadata.isDeleting = false
  recorded : NoOrphans identity s

/-- What a reconcile knows while it runs. -/
structure Own (seen : Trace S) : Prop where
  known : Seen s.server seen
  policy : ∀ policy, readPolicy seen = some policy → LivePolicy.Knows dcl s.live policy
  live : ∀ v, latest seen = some v → v.metadata.isDeleting = false
  /-- What it has read in the spec is still accounted for. -/
  covered : ∀ v, latest seen = some v → ∀ o, s.server.stored = some o →
    ∀ g ∈ specGrants identity v, g ∈ specGrants identity o ∨ g ∈ appliedGrants o
  /-- Once the policy is set, nothing introduced is among the grants it dropped. -/
  dropped : Applied seen → ∀ v, latest seen = some v →
    ∀ g ∈ s.introduced, g ∈ appliedGrants v → g ∈ specGrants identity v

section Steps

variable {identity} {dcl} {s after : Cluster} {seen : Trace S}
  {c : S.Op} {answer : Call.Answer Query.Answer c}

/-- A call that has no object in its answer and sets no policy. -/
theorem Own.quiet (own : Own identity dcl s seen)
    (object : latest (⟨c, answer⟩ :: seen : Trace S) = latest seen)
    (read : readPolicy (⟨c, answer⟩ :: seen : Trace S) = readPolicy seen)
    (applied : Applied (⟨c, answer⟩ :: seen : Trace S) = Applied seen) :
    Own identity dcl s (⟨c, answer⟩ :: seen) where
  known := fun v last => own.known v (object ▸ last)
  policy := fun policy found => own.policy policy (read ▸ found)
  live := fun v last => own.live v (object ▸ last)
  covered := fun v last => own.covered v (object ▸ last)
  dropped := fun set v last => own.dropped (applied ▸ set) v (object ▸ last)

section

variable (shared : Shared identity s) (own : Own identity dcl s seen)
include shared own

theorem Own.get
    {answer : Call.Answer Query.Answer (.get : S.Op)}
    (first : seen = []) (read : ReadOutcome s.server answer) :
    Own identity dcl s (⟨.get, answer⟩ :: seen) := by
  cases read with
  | found r stored =>
    refine ⟨?_, own.policy, ?_, ?_, fun set => ?_⟩
    · rintro v ⟨⟩
      exact knows_stored stored
    · rintro v ⟨⟩
      exact shared.live r stored
    · rintro v ⟨⟩ o again g member
      rw [stored] at again
      cases again
      exact Or.inl member
    · subst first
      exact absurd set id
  | absent _ _ | failed _ _ => exact own.quiet rfl rfl rfl

section

variable (answered : s.server.answers c answer after.server) (live : after.live = s.live)
  (introduced : after.introduced = s.introduced)
  (read : readPolicy (⟨c, answer⟩ :: seen : Trace S) = readPolicy seen)
  (applied : Applied (⟨c, answer⟩ :: seen : Trace S) = Applied seen)
include answered live introduced read applied

/-- A write to the object that was seen last. What was applied is forgotten only
after the policy has been set, when nothing introduced depends on it. -/
theorem Own.saved {v new : IAMPartialPolicy} (stored : s.server.stored = some v)
    (last : latest seen = some v) (saved : SavedFrom identity seen v new)
    (server : after.server = (s.server.write v new).1)
    (object : ∀ u, c.object answer = some u → u = (s.server.write v new).2) :
    Shared identity after ∧ Own identity dcl after (⟨c, answer⟩ :: seen) := by
  have spec := saved.specGrants
  have notDeleting : new.metadata.isDeleting = false := saved.isDeleting.trans (own.live v last)
  have kept : ∀ g ∈ s.introduced, g ∈ appliedGrants v →
      g ∈ specGrants identity v ∨ g ∈ appliedGrants new := by
    intro g member recorded
    rcases saved.records with same | ⟨set, _⟩
    · rw [appliedGrants, same]
      exact Or.inr recorded
    · exact Or.inl (own.dropped set v last g member recorded)
  have gone : Applied seen → ∀ g ∈ s.introduced, g ∈ appliedGrants new →
      g ∈ specGrants identity v := by
    intro set g member recorded
    rcases saved.records with same | ⟨_, recordsSpec⟩
    · rw [appliedGrants, same] at recorded
      exact own.dropped set v last g member recorded
    · rw [appliedGrants, recordsSpec, own.live v last] at recorded
      exact recorded
  have written : ∀ o, after.server.stored = some o →
      ∃ version, o = new.withVersion version := by
    intro o found
    rw [server] at found
    exact write_stored stored found
  have lastIs := latest_written last object
  refine ⟨⟨?_, ?_⟩, ⟨own.known.answered answered, ?_, ?_, ?_, ?_⟩⟩
  · intro o found
    obtain ⟨version, rfl⟩ := written o found
    exact notDeleting
  · intro o found g member
    obtain ⟨version, rfl⟩ := written o found
    rw [introduced] at member
    change g ∈ specGrants identity new ∨ g ∈ appliedGrants new
    rw [spec]
    rcases shared.recorded v stored g member with asked | recorded
    · exact Or.inl asked
    · exact kept g member recorded
  · intro policy found
    rw [live]
    exact own.policy policy (read ▸ found)
  · intro w found
    rcases lastIs w found with rfl | ⟨version, rfl⟩
    · exact own.live w last
    · exact notDeleting
  · intro w found o now g member
    obtain ⟨version, rfl⟩ := written o now
    have asked : g ∈ specGrants identity v := by
      rcases lastIs w found with rfl | ⟨version, rfl⟩
      · exact member
      · exact spec ▸ member
    exact Or.inl (spec.symm ▸ asked)
  · intro set w found g member recorded
    rw [introduced] at member
    rw [applied] at set
    rcases lastIs w found with rfl | ⟨version, rfl⟩
    · exact own.dropped set w last g member recorded
    · exact spec.symm ▸ gone set g member recorded

/-- A call that only the API server answers. -/
theorem Own.served (guarded : guard identity seen c) (notGet : c ≠ .get) :
    Shared identity after ∧ Own identity dcl after (⟨c, answer⟩ :: seen) := by
  rcases guarded_write own.known guarded notGet answered with
    ⟨server, quiet⟩ | ⟨v, new, last, stored, saved, server, object⟩
  · obtain rfl : after = s := by
      cases after
      cases s
      simp_all
    exact ⟨shared, own.quiet (by rw [latest_cons, quiet, Option.none_or]) read applied⟩
  · exact own.saved shared answered live introduced read applied stored last saved server object

end

theorem Own.setPolicy
    {policy : IAMPolicy} {answer : Call.Answer Query.Answer
      (.ask (.setPolicy policy) : S.Op)}
    (guarded : guard identity seen (.ask (.setPolicy policy)))
    (answered : s.answers identity dcl (.ask (.setPolicy policy)) answer after) :
    Shared identity after ∧
      Own identity dcl after (⟨.ask (.setPolicy policy), answer⟩ :: seen) := by
  obtain ⟨live, outcome, rfl⟩ := answered
  obtain ⟨v, read, last, readIs, etag, _, granted⟩ := guarded
  -- A grant that comes in is one that the object asks for.
  have fromSpec : ∀ g ∈ grants live.bindings, g ∉ grants s.live.bindings →
      g ∈ specGrants identity v := by
    intro g member new
    rcases outcome.cases with write | ⟨rfl, _⟩
    · have current := (own.policy read readIs).same (etag.symm.trans write.etag)
      rw [write.bindings, granted, current.1, mem_target] at member
      rcases member with ⟨_, asked⟩ | ⟨old, _⟩
      · exact asked
      · exact absurd old new
    · exact absurd member new
  have readStays : ∀ found, readPolicy (⟨.ask (.setPolicy policy), answer⟩ :: seen : Trace S) =
      some found → LivePolicy.Knows dcl live found := by
    intro found isRead
    exact (own.policy found isRead).set outcome
  refine ⟨⟨shared.live, ?_⟩, ⟨own.known, readStays, own.live, own.covered, ?_⟩⟩
  · rintro o stored g ⟨member, old | new⟩
    · exact shared.recorded o stored g old
    · exact own.covered v last o stored g (fromSpec g member new)
  intro set w lastIs g member recorded
  cases last.symm.trans lastIs
  obtain ⟨present, since⟩ := member
  cases answer with
  | error err =>
    rcases since with old | new
    · exact own.dropped set v last g old recorded
    · exact fromSpec g present new
  | ok _ =>
    rw [outcome.grants_ok rfl, granted, mem_target] at present
    rcases present with ⟨_, asked⟩ | ⟨_, notRecorded⟩
    · exact asked
    · exact absurd recorded notRecorded

/-- Every call of a reconcile keeps what is known, and is answered as relied on. -/
theorem Own.act (guarded : guard identity seen c)
    (answered : s.answers identity dcl c answer after) :
    rely identity seen c answer ∧ Shared identity after ∧
      Own identity dcl after (⟨c, answer⟩ :: seen) := by
  have same : after.server = s.server → after.live = s.live →
      after.introduced = s.introduced → after = s := by
    intro server live introduced
    cases after
    cases s
    simp_all
  cases c with
  | get =>
    obtain ⟨⟨server, read⟩, live, introduced⟩ := answered
    obtain rfl := same server live introduced
    have served : after.server.answers .get answer after.server := ⟨rfl, read⟩
    exact ⟨⟨own.known.rely served, trivial⟩, shared, own.get shared guarded read⟩
  | update _ | updateStatus _ =>
    obtain ⟨served, live, introduced⟩ := answered
    exact ⟨⟨own.known.rely served, trivial⟩,
      own.served shared served live introduced rfl rfl guarded (by simp)⟩
  | patchSSA annotated => exact absurd guarded id
  | postUpdateStatusTransform r =>
    obtain ⟨rfl, rfl⟩ := answered
    have served : after.server.answers (A := Query.Answer)
      (.postUpdateStatusTransform r : Call _ _ Query) (.ok r.spec) after.server := rfl
    refine ⟨⟨own.known.rely served, ?_⟩, shared, own.quiet rfl rfl rfl⟩
    rintro spec ⟨⟩
    rfl
  | ask q =>
    have served : s.server.answers (.ask q) answer s.server := rfl
    have quiet : SessionRely seen (.ask q) answer := own.known.rely served
    cases q with
    | getPolicy resource =>
      obtain ⟨rfl, read⟩ := answered
      refine ⟨⟨quiet, trivial⟩, shared, ?_⟩
      cases answer with
      | error err => exact own.quiet rfl rfl rfl
      | ok policy =>
        refine ⟨own.known, ?_, own.live, own.covered, own.dropped⟩
        rintro found ⟨⟩
        rw [read policy rfl]
        exact LivePolicy.knows_read _ dcl resource
    | setPolicy policy => exact ⟨⟨quiet, trivial⟩, own.setPolicy shared guarded answered⟩
    | resolver =>
      obtain ⟨rfl, known⟩ := answered
      exact ⟨⟨quiet, known⟩, shared, own.quiet rfl rfl rfl⟩
    | applyDefaults | fetchLiveKCCState | orders | watch | track | jitteredReenqueue =>
      obtain ⟨asked, live, introduced⟩ := answered
      exact ⟨⟨quiet, trivial⟩,
        own.served shared asked live introduced rfl rfl guarded (by simp)⟩

end

end Steps

section Runs

variable {identity} {dcl} {w : (machine identity dcl).World}

theorem Shared.edit (r : IAMPartialPolicy) (shared : Shared identity w.state)
    (met : KeepsPending identity dcl w
      ⟨{ w.state with server := w.state.server.userUpdate r }, w.threads⟩) :
    Shared identity { w.state with server := w.state.server.userUpdate r } := by
  constructor
  · intro o' stored
    obtain ⟨o, version, before, rfl⟩ := userUpdate_stored stored
    exact shared.live o before
  · intro o' stored g member
    obtain ⟨o, version, before, same⟩ := userUpdate_stored stored
    have applied : appliedGrants o' = appliedGrants o := by rw [same]; rfl
    rw [applied]
    by_cases still : g ∈ specGrants identity o'
    · exact Or.inl still
    rcases shared.recorded o before g member with asked | recorded
    · rcases met o o' before stored g asked still with recorded | ⟨foreign, _⟩
      · exact Or.inr recorded
      · exact absurd member foreign
    · exact Or.inr recorded

theorem Own.edit (r : IAMPartialPolicy) {p : (machine identity dcl).Party} {t : Thread S}
    (running : w.threads p = some t) (own : Own identity dcl w.state t.seen)
    (met : KeepsPending identity dcl w
      ⟨{ w.state with server := w.state.server.userUpdate r }, w.threads⟩) :
    Own identity dcl { w.state with server := w.state.server.userUpdate r } t.seen where
  known := own.known.advances (userUpdate_advances _ r)
  policy := own.policy
  live := own.live
  dropped := own.dropped
  covered := by
    intro v last o' stored g member
    obtain ⟨o, version, before, same⟩ := userUpdate_stored stored
    have applied : appliedGrants o' = appliedGrants o := by rw [same]; rfl
    rw [applied]
    by_cases still : g ∈ specGrants identity o'
    · exact Or.inl still
    rcases own.covered v last o before g member with asked | recorded
    · rcases met o o' before stored g asked still with recorded | ⟨_, unread⟩
      · exact Or.inr recorded
      · exact absurd member (unread p t v running last)
    · exact Or.inr recorded

theorem invariant : (machine identity dcl).Invariant (fun _ => contract identity) Starts
    (KeepsPending identity dcl) (Shared identity) (fun _ => Own identity dcl) where
  init := by
    intro s starts
    refine ⟨starts.stored, fun o _ g member => ?_⟩
    rw [starts.introduced] at member
    exact absurd member (Set.notMem_empty g)
  fresh := by
    intro _ s _
    exact ⟨nofun, nofun, nofun, nofun, fun set => absurd set id⟩
  drift := by
    intro w after shared own moved met
    cases moved with
    | edit r =>
      exact ⟨shared.edit r met, fun p t running => (own p t running).edit r running met⟩
    | external live follows =>
      refine ⟨⟨shared.live, fun o stored g member => shared.recorded o stored g member.1⟩, ?_⟩
      intro p t running
      have mine := own p t running
      exact ⟨mine.known, fun policy read => (mine.policy policy read).follows follows, mine.live,
        mine.covered, fun set v last g member => mine.dropped set v last g member.1⟩
  act := by
    intro w after p seen op answer shared own guarded answered _
    obtain ⟨relied, kept, mine⟩ := own.act shared guarded answered
    exact ⟨relied, kept, mine, fun q other different => absurd rfl different⟩

/-- While no edit takes back a grant that is not recorded yet, every grant the
controller introduces stays within reach of a later reconcile or deletion. -/
theorem no_orphans_while_pending_kept (identity : Member → Option MemberSource → String → Member)
    (dcl : Bool) (w : (machine identity dcl).World)
    (reached : (machine identity dcl).Reach Starts (KeepsPending identity dcl) w) :
    NoOrphans identity w.state := by
  have programs : ∀ p, Abides (contract identity) []
      ((machine identity dcl).program p) :=
    fun _ => Obeys.bind_any reconcile_obeys fun _ _ => trivial
  exact (Machine.Reach.invariant programs invariant reached).1.recorded

end Runs

section Replay

def viewer (members : List Member) : IAMPartialPolicy :=
  policyAsking members ⟨[], none, ⟨[], []⟩⟩

def viewerGrant : Grant := ⟨⟨"roles/viewer", .zero⟩, "user:a"⟩

/-- The object asks for one grant, and the policy is empty. -/
def created : Cluster where
  server := .holding (viewer ["user:a"])
  live := ⟨[], [], "e1", []⟩
  introduced := ∅

def viewerPolicy : IAMPolicy where
  spec := ⟨projectRef, [⟨["user:a"], "roles/viewer", none⟩], [], "e1"⟩

def granted : LivePolicy := ⟨[⟨["user:a"], "roles/viewer", none⟩], [], "e2", ["e1"]⟩

theorem viewerPolicy_written : LivePolicy.Written false created.live viewerPolicy granted :=
  ⟨⟨by decide, rfl⟩, rfl, by decide, rfl, rfl⟩

theorem viewerGrant_introduced : viewerGrant ∈ (created.afterSet granted).introduced :=
  ⟨by decide, Or.inr (by decide)⟩

/-- A reconcile of the object, up to the call that sets the policy. -/
theorem reaches_setPolicy
    (meets : (machine asWritten false).World → (machine asWritten false).World → Prop)
    (quiet : ∀ w after, w.state.server = after.state.server → meets w after) :
    ∃ threads, (machine asWritten false).Reach Starts meets ⟨created, threads⟩ ∧
      ∃ (seen : Trace S) (next : Except GoError Unit → Prog S Unit),
        threads () = some ⟨seen, .call (.ask (.setPolicy viewerPolicy)) next⟩ := by
  have starts : Starts created := ⟨by rintro o ⟨⟩; rfl, rfl⟩
  have init := @Machine.Reach.init _ (machine asWritten false) _ Starts meets created starts
  have started := init.step _ _ (.start _ () rfl) (quiet _ _ rfl)
  have read := started.reply () rfl (Except.ok (viewer ["user:a"])) created
    ⟨⟨rfl, .found _ rfl⟩, rfl, rfl⟩ (quiet _ _ rfl)
  have defaulted := read.reply () rfl (Except.ok none) created ⟨rfl, rfl, rfl⟩ (quiet _ _ rfl)
  have actuated := defaulted.reply () rfl (Except.ok (⟨"cluster", none⟩, ⟨none⟩)) created
    ⟨rfl, rfl, rfl⟩ (quiet _ _ rfl)
  have policy := actuated.reply () rfl
    (Except.ok (created.live.read false projectRef)) created
    ⟨rfl, by rintro found ⟨⟩; rfl⟩ (quiet _ _ rfl)
  have resolver := policy.reply () rfl found created
    ⟨rfl, by rintro member source ns found ⟨⟩; rfl⟩ (quiet _ _ rfl)
  have ordered := resolver.reply () rfl GoMap.Orders.stored created ⟨rfl, rfl, rfl⟩ (quiet _ _ rfl)
  exact ⟨_, ordered, _, _, rfl⟩

/-- The user takes the grant out of the spec after the reconcile has read it and
before the policy is set. The policy is set all the same, and neither the spec
nor the status names the grant. -/
theorem edit_orphans_grant :
    ∃ w, (machine asWritten false).Reach Starts (fun _ _ => True) w ∧
      ¬ NoOrphans asWritten w.state := by
  obtain ⟨threads, reached, seen, next, running⟩ :=
    reaches_setPolicy (fun _ _ => True) fun _ _ _ => trivial
  have edited := reached.step _ _ (.drift _ _ (.edit (viewer []))) trivial
  have set := edited.reply () running (Except.ok ()) _
    ⟨granted, .written granted viewerPolicy_written, rfl⟩
  refine ⟨_, set, fun recorded => ?_⟩
  rcases recorded _ rfl viewerGrant viewerGrant_introduced with asked | applied
  · obtain ⟨b, member, _, m, written, _⟩ := asked
    cases List.mem_singleton.mp member
    cases written
  · obtain ⟨b, member, _⟩ := applied
    cases member

theorem no_orphans_while_pending_kept_unedited :
    ∃ w, (machine asWritten false).Reach Starts (KeepsPending asWritten false) w ∧
      viewerGrant ∈ w.state.introduced ∧ NoOrphans asWritten w.state := by
  have quiet : ∀ w after : (machine asWritten false).World,
      w.state.server = after.state.server → KeepsPending asWritten false w after := by
    intro w after same o o' before now g asked dropped
    rw [same, now] at before
    cases before
    exact absurd asked dropped
  obtain ⟨threads, reached, seen, next, running⟩ := reaches_setPolicy _ quiet
  have set := reached.reply () running (Except.ok ()) _
    ⟨granted, .written granted viewerPolicy_written, rfl⟩ (quiet _ _ rfl)
  exact ⟨_, set, viewerGrant_introduced,
    no_orphans_while_pending_kept asWritten false _ set⟩

end Replay

end Cluster

end ConfigConnector.Iam.PartialPolicy
