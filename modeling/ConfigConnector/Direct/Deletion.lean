import ConfigConnector.DeletionDefender.Controller
import ConfigConnector.Direct.Contract

/- One object, the direct controller, the deletion defender and the users, read by
read and write by write. When the controller deletes the resource in GCP, the
defender has found the CRD of the kind in place. -/
namespace ConfigConnector.Direct

open Interact K8s Lifecycle

variable {σ τ : Type}

/-- `defended` says that some defender has read the CRD as not being deleted while
the object was marked for deletion. -/
structure Cluster (σ τ : Type) where
  server : Server σ τ
  crdDeleting : Bool
  defended : Bool

inductive Party where
  | controller
  | defender
  deriving DecidableEq

namespace Cluster

variable (s : Cluster σ τ)

def marked : Bool := s.server.stored.any fun o => o.metadata.isDeleting

def readCRD : Except GoError Bool → Cluster σ τ
  | .ok false => { s with defended := s.defended || s.marked }
  | _ => s

theorem readCRD_server (answer : Except GoError Bool) : (s.readCRD answer).server = s.server := by
  unfold readCRD
  split
  · rfl
  · rfl

variable [DecidableEq σ] [DecidableEq τ] (s : Cluster σ τ)

def answers : (c : Call σ τ Query) → Call.Answer (Query.Answer σ τ) c → Cluster σ τ → Prop
  | .ask .getCRD, answer, after =>
    (∀ deleting, answer = .ok deleting → deleting = s.crdDeleting) ∧ after = s.readCRD answer
  | c, answer, after => ∃ server, s.server.answers c answer server ∧ after = { s with server }

/-- What users do: edit the object but for the two finalizers, delete it, or start
to uninstall the kind. -/
inductive Moves : Cluster σ τ → Prop where
  | edit (r : Resource σ τ)
      (keeps : ∀ o, s.server.stored = some o → ∀ f ∈ ObjectMeta.kccFinalizers,
        f ∈ r.metadata.finalizers ↔ f ∈ o.metadata.finalizers) :
      Moves { s with server := s.server.userUpdate r }
  | delete (time : Nat) : Moves { s with server := s.server.userDelete time }
  | uninstall : Moves { s with crdDeleting := true }

/-- An object without finalizers, and nothing defended so far. -/
structure Starts : Prop where
  stored : ∀ o, s.server.stored = some o → o.metadata.finalizers = []
  defended : s.defended = false

def machine (crdName : String) : Machine (S σ τ) where
  State := Cluster σ τ
  Party := Party
  program
    | .controller => do
      let _ ← Direct.reconcile
      return ()
    | .defender => do
      let _ ← DeletionDefender.reconcile crdName (ask .getCRD)
      return ()
  answers := fun _ s => s.answers
  drift := Moves

instance (crdName : String) : DecidableEq (machine (σ := σ) (τ := τ) crdName).Party :=
  inferInstanceAs (DecidableEq Party)

end Cluster

/-- The defender has read that the CRD is not being deleted. -/
def CRDKept (seen : Trace (S σ τ)) : Prop :=
  (⟨.ask .getCRD, (Except.ok false : Except GoError Bool)⟩ : Sigma (S σ τ).Ans) ∈ seen

/-- The defender writes only to objects that are marked for deletion, and leaves
the finalizer of the controller only if the kind is not being uninstalled. -/
def defenderGuard (seen : Trace (S σ τ)) : Call σ τ Query → Prop
  | .get => seen = []
  | .update r => ∃ v, latest seen = some v ∧
      r.metadata.resourceVersion = v.metadata.resourceVersion ∧ v.metadata.isDeleting = true ∧
      (controllerFinalizerName ∈ r.metadata.finalizers → CRDKept seen)
  | .ask .getCRD => ∃ v, latest seen = some v ∧ v.metadata.isDeleting = true
  | _ => False

def defenderContract (σ τ : Type) : Contract (S σ τ) where
  guard := defenderGuard
  rely := fun _ _ _ => True

theorem defended_version (m : ObjectMeta) (uninstalling : Bool) :
    (DeletionDefender.defended m uninstalling).resourceVersion = m.resourceVersion := by
  have frame : ∀ (m : ObjectMeta) (f : String),
      (m.removeFinalizer f).resourceVersion = m.resourceVersion := by
    intro m f
    obtain ⟨finalizers, same⟩ := m.removeFinalizer_frame f
    rw [same]
  cases uninstalling with
  | true => exact (frame _ _).trans (frame _ _)
  | false => exact frame _ _

theorem defended_uninstalling (m : ObjectMeta) :
    controllerFinalizerName ∉ (DeletionDefender.defended m true).finalizers := by
  intro held
  have kept : controllerFinalizerName ∈ ((m.removeFinalizer
    deletionDefenderFinalizerName).removeFinalizer controllerFinalizerName).finalizers := held
  exact ((ObjectMeta.mem_removeFinalizer _ _ _).mp kept).2 rfl

variable (crdName : String)

/-- The defender keeps to its rules in every reconcile. -/
theorem defender_obeys :
    Abides (defenderContract σ τ) []
      (DeletionDefender.reconcile crdName (ask .getCRD)) := by
  refine .call rfl (.onOk (fun u _ => .ite (fun _ => trivial) fun held => ?_)
    fun _ => .ite (fun _ => trivial) fun _ => trivial)
  have deleting : u.metadata.isDeleting := by
    by_contra stays
    simp [stays] at held
  refine (obeys_bind _ _ _).mpr (.call ⟨u, rfl, deleting⟩
    (.onOk (fun uninstalling _ => ?_) fun _ => trivial))
  refine .call ⟨u, rfl, ?_, deleting, ?_⟩ fun reply _ => ?_
  · exact defended_version u.metadata uninstalling
  · intro stays
    cases uninstalling with
    | true => exact absurd stays (defended_uninstalling u.metadata)
    | false => exact .head _
  · cases reply with
    | error err => exact .ite (fun _ => trivial) fun _ => trivial
    | status _ | object _ => trivial

section Invariant

/-- What the finalizers of an object say: one that stays has the finalizer of the
defender next to that of the controller, and one that goes without it has been
defended. -/
structure Guarded (defended : Bool) (v : Resource σ τ) : Prop where
  stays : v.metadata.isDeleting = false → controllerFinalizerName ∈ v.metadata.finalizers →
    deletionDefenderFinalizerName ∈ v.metadata.finalizers
  goes : v.metadata.isDeleting = true → controllerFinalizerName ∈ v.metadata.finalizers →
    deletionDefenderFinalizerName ∉ v.metadata.finalizers → defended = true

/-- What a party knows of the object while it runs. -/
structure Own (s : Cluster σ τ) (seen : Trace (S σ τ)) : Prop where
  known : Seen s.server seen
  guarded : ∀ v, latest seen = some v → Guarded s.defended v
  marked : ∀ v, latest seen = some v → v.metadata.isDeleting = true →
    ∀ o, s.server.stored = some o → o.metadata.isDeleting = true
  kept : ∀ v, latest seen = some v → Protected v →
    ∀ o, s.server.stored = some o → o.metadata.isDeleting = true ∨ o.metadata.HasKccFinalizers
  crd : CRDKept seen → s.defended = true ∨ s.server.stored = none

/-- All that a step changes, as far as the parties that do not take it can tell:
marks for deletion stay, and only marked objects lose a finalizer. -/
structure Leads (s after : Cluster σ τ) : Prop where
  advances : Advances s.server after.server
  defended : s.defended = true → after.defended = true
  gone : s.server.stored = none → after.server.stored = none
  object : ∀ o', after.server.stored = some o' → ∃ o, s.server.stored = some o ∧
    (o.metadata.isDeleting = true → o'.metadata.isDeleting = true) ∧
    (o.metadata.HasKccFinalizers → o'.metadata.isDeleting = true ∨ o'.metadata.HasKccFinalizers)

variable {s after : Cluster σ τ} {seen : Trace (S σ τ)} {o v new : Resource σ τ}

theorem Guarded.mono {defended later : Bool} (guarded : Guarded defended v)
    (still : defended → later) : Guarded later v :=
  ⟨guarded.stays, fun goes controller defender => still (guarded.goes goes controller defender)⟩

/-- Nothing but the finalizers and the mark counts. -/
theorem Guarded.congr {defended : Bool} (guarded : Guarded defended v)
    (deletion : new.metadata.deletionTimestamp = v.metadata.deletionTimestamp)
    (same : ∀ f ∈ ObjectMeta.kccFinalizers,
      f ∈ new.metadata.finalizers ↔ f ∈ v.metadata.finalizers) : Guarded defended new := by
  have controller := same controllerFinalizerName (by decide)
  have defender := same deletionDefenderFinalizerName (by decide)
  have deleting := ObjectMeta.isDeleting_congr deletion
  constructor
  · intro stays held
    exact defender.mpr (guarded.stays (deleting ▸ stays) (controller.mp held))
  · intro goes held unheld
    exact guarded.goes (deleting ▸ goes) (controller.mp held)
      fun still => unheld (defender.mpr still)

theorem Own.leads (own : Own s seen) (leads : Leads s after) : Own after seen := by
  refine ⟨own.known.advances leads.advances, ?_, ?_, ?_, ?_⟩
  · intro v last
    exact (own.guarded v last).mono leads.defended
  · intro v last goes o' stored
    obtain ⟨o, before, deleting, _⟩ := leads.object o' stored
    exact deleting (own.marked v last goes o before)
  · intro v last isProtected o' stored
    obtain ⟨o, before, deleting, both⟩ := leads.object o' stored
    rcases own.kept v last isProtected o before with goes | held
    · exact Or.inl (deleting goes)
    · exact both held
  · intro crd
    exact (own.crd crd).imp leads.defended leads.gone

theorem leads_refl (s : Cluster σ τ) : Leads s s where
  advances := Advances.refl s.server
  defended := id
  gone := id
  object := fun o stored => ⟨o, stored, id, Or.inr⟩

/-- What the controller writes. -/
theorem Saved.guarded {defended : Bool} (saved : (rules σ τ).Saved seen o new)
    (guarded : Guarded defended o) : Guarded defended new := by
  have deleting := ObjectMeta.isDeleting_congr saved.deletion
  cases saved.finalizes with
  | kept same => exact guarded.congr saved.deletion same
  | ensured stays both =>
    refine ⟨fun _ _ => both _ (by decide), fun goes => ?_⟩
    rw [deleting, stays] at goes
    cases goes
  | dropped goes allowed controller defender =>
    exact ⟨fun _ held => absurd held controller, fun _ held => absurd held controller⟩

/-- The defender reads the CRD. -/
theorem Own.readCRD {answer : Except GoError Bool} (own : Own s seen)
    (marked : ∃ v, latest seen = some v ∧ v.metadata.isDeleting) :
    Own (s.readCRD answer) (⟨.ask .getCRD, answer⟩ :: seen) ∧ Leads s (s.readCRD answer) := by
  have leads : Leads s (s.readCRD answer) := by
    unfold Cluster.readCRD
    split
    · refine ⟨Advances.refl _, fun defended => ?_, id, fun o stored => ⟨o, stored, id, Or.inr⟩⟩
      simp [defended]
    · exact leads_refl s
  have before := own.leads leads
  refine ⟨⟨before.known, before.guarded, before.marked, before.kept, fun crd => ?_⟩, leads⟩
  rcases List.mem_cons.mp crd with this | earlier
  · -- The object that the defender has read as marked is still marked, or gone.
    cases this
    obtain ⟨v, last, goes⟩ := marked
    cases stored : s.server.stored with
    | none => exact Or.inr stored
    | some o =>
      have isMarked : s.marked := by
        simp [Cluster.marked, stored, own.marked v last goes o stored]
      simp [Cluster.readCRD, isMarked]
  · exact before.crd earlier

section Steps

variable [DecidableEq σ] [DecidableEq τ]

/-- A write that keeps the mark, and the finalizers of an object that stays. -/
theorem leads_write (stored : s.server.stored = some o)
    (deleting : o.metadata.isDeleting → new.metadata.isDeleting)
    (both : o.metadata.HasKccFinalizers →
      new.metadata.isDeleting ∨ new.metadata.HasKccFinalizers) :
    Leads s { s with server := (s.server.write o new).1 } where
  advances := write_advances s.server o new
  defended := id
  gone := by
    intro absent
    rw [absent] at stored
    cases stored
  object := by
    intro o' found
    obtain ⟨version, rfl⟩ := write_stored stored found
    exact ⟨o, stored, deleting, both⟩

theorem Saved.leads (stored : s.server.stored = some o) (saved : (rules σ τ).Saved seen o new) :
    Leads s { s with server := (s.server.write o new).1 } := by
  have deleting := ObjectMeta.isDeleting_congr saved.deletion
  refine leads_write stored (fun goes => deleting.trans goes) fun held => ?_
  cases saved.finalizes with
  | kept same => exact Or.inr fun f member => (same f member).mpr (held f member)
  | ensured stays both => exact Or.inr both
  | dropped goes allowed controller defender => exact Or.inl (deleting.trans goes)

variable {c : Call σ τ Query} {answer : Call.Answer (Query.Answer σ τ) c}

/-- A call that only the API server answers, seen by the party that makes it. -/
theorem Own.served {server : Server σ τ} (own : Own s seen) (leads : Leads s { s with server })
    (answered : s.server.answers c answer server) (notCRD : c ≠ .ask .getCRD)
    (guarded : ∀ u, c.object answer = some u → Guarded s.defended u) :
    Own { s with server } (⟨c, answer⟩ :: seen) := by
  have before := own.leads leads
  have split : ∀ v, latest (⟨c, answer⟩ :: seen : Trace (S σ τ)) = some v →
      c.object answer = some v ∨ latest seen = some v := by
    intro v last
    rw [latest_cons] at last
    cases object : c.object answer with
    | none =>
      rw [object, Option.none_or] at last
      exact Or.inr last
    | some u =>
      rw [object, Option.some_or] at last
      exact Or.inl last
  refine ⟨own.known.answered answered, ?_, ?_, ?_, ?_⟩
  · intro v last
    rcases split v last with new | old
    · exact guarded v new
    · exact before.guarded v old
  · intro v last goes o stored
    rcases split v last with new | old
    · rw [answers_current answered new stored]
      exact goes
    · exact before.marked v old goes o stored
  · intro v last isProtected o stored
    rcases split v last with new | old
    · rw [answers_current answered new stored]
      exact Or.inr isProtected.both
    · exact before.kept v old isProtected o stored
  · intro crd
    rcases List.mem_cons.mp crd with this | earlier
    · cases this
      exact absurd rfl notCRD
    · exact before.crd earlier

/-- A call of the controller. -/
theorem Own.controller (shared : ∀ o, s.server.stored = some o → Guarded s.defended o)
    (own : Own s seen) (guarded : (rules σ τ).guard seen c) (answered : s.answers c answer after) :
    SessionRely seen c answer ∧ (∀ o, after.server.stored = some o → Guarded after.defended o) ∧
      Own after (⟨c, answer⟩ :: seen) ∧ Leads s after := by
  have notCRD : c ≠ .ask .getCRD := by
    rintro rfl
    exact guarded
  obtain ⟨server, served, rfl⟩ : ∃ server, s.server.answers c answer server ∧
      after = { s with server } := by
    cases c with
    | ask q =>
      cases q with
      | getCRD => exact absurd rfl notCRD
      | _ => exact answered
    | _ => exact answered
  refine ⟨own.known.rely served, ?_⟩
  rcases guarded_write own.known guarded served with
    ⟨rfl, read⟩ | ⟨o, new, stored, saved, rfl, object⟩
  · have leads : Leads s { s with server := s.server } := leads_refl s
    exact ⟨shared, own.served leads served notCRD fun u found => shared u (read u found), leads⟩
  have newGuarded := Saved.guarded saved (shared o stored)
  have leads := Saved.leads stored saved
  refine ⟨?_, own.served leads served notCRD ?_, leads⟩
  · intro o' found
    obtain ⟨version, rfl⟩ := write_stored stored found
    exact newGuarded.congr rfl fun _ _ => Iff.rfl
  intro u found
  obtain ⟨version, same⟩ := write_answer s.server o new
  rw [object u found, same]
  exact newGuarded.congr rfl fun _ _ => Iff.rfl

section

variable (shared : ∀ o, s.server.stored = some o → Guarded s.defended o)
include shared

/-- A call of the defender. -/
theorem Own.defender (own : Own s seen) (guarded : defenderGuard seen c)
    (answered : s.answers c answer after) :
    (∀ o, after.server.stored = some o → Guarded after.defended o) ∧
      Own after (⟨c, answer⟩ :: seen) ∧ Leads s after := by
  cases c with
  | get =>
    obtain ⟨server, served, rfl⟩ := answered
    obtain ⟨rfl, read⟩ := served
    have leads : Leads s { s with server := s.server } := leads_refl s
    refine ⟨shared, own.served leads ⟨rfl, read⟩ (by simp) fun u found => ?_, leads⟩
    cases read with
    | found r stored =>
      cases found
      exact shared u stored
    | absent _ _ | failed _ _ => cases found
  | update r =>
    obtain ⟨server, served, rfl⟩ := answered
    obtain ⟨v, last, carries, goes, crd⟩ := guarded
    rcases answers_effect served with ⟨rfl, read⟩ | ⟨o, new, stored, writes, rfl, object⟩
    · have leads : Leads s { s with server := s.server } := leads_refl s
      refine ⟨shared, own.served leads served (by simp) fun u found => ?_, leads⟩
      exact shared u (read u found).2
    cases writes with
    | update _ _ version =>
      obtain rfl := own.known.writes stored last carries version
      have newGuarded : Guarded s.defended (o.updatedBy r) := by
        refine ⟨fun stays => ?_, fun _ held _ => ?_⟩
        · exact absurd (stays.symm.trans goes) (by decide)
        rcases own.crd (crd held) with defended | absent
        · exact defended
        · rw [absent] at stored
          cases stored
      have leads : Leads s { s with server := (s.server.write o (o.updatedBy r)).1 } :=
        leads_write stored (fun _ => goes) fun _ => Or.inl goes
      refine ⟨?_, own.served leads served (by simp) ?_, leads⟩
      · intro o' found
        obtain ⟨number, rfl⟩ := write_stored stored found
        exact newGuarded.congr rfl fun _ _ => Iff.rfl
      intro u found
      obtain ⟨number, same⟩ := write_answer s.server o (o.updatedBy r)
      rw [object u found, same]
      exact newGuarded.congr rfl fun _ _ => Iff.rfl
  | ask q =>
    cases q with
    | getCRD =>
      obtain ⟨_, rfl⟩ := answered
      obtain ⟨mine, leads⟩ := own.readCRD guarded
      refine ⟨fun o stored => ?_, mine, leads⟩
      have same := congrArg Server.stored (Cluster.readCRD_server s answer)
      exact (shared o (same.symm.trans stored)).mono leads.defended
    | _ => exact absurd guarded id
  | _ => exact absurd guarded id

/-- The moves of users. -/
theorem moves_leads (moved : s.Moves after) :
    (∀ o, after.server.stored = some o → Guarded after.defended o) ∧ Leads s after := by
  cases moved with
  | edit r keeps =>
    refine ⟨fun o' found => ?_, userUpdate_advances _ r, id, fun absent => ?_, fun o' found => ?_⟩
    · obtain ⟨o, version, stored, rfl⟩ := userUpdate_stored found
      exact (shared o stored).congr rfl (keeps o stored)
    · simp [Server.userUpdate, absent]
    · obtain ⟨o, version, stored, rfl⟩ := userUpdate_stored found
      exact ⟨o, stored, id, fun held => .inr fun f member =>
        (keeps o stored f member).mpr (held f member)⟩
  | delete time =>
    refine ⟨fun o' found => ?_, userDelete_advances _ time, id, fun absent => ?_,
      fun o' found => ?_⟩
    · rcases userDelete_stored found with same | ⟨o, version, stored, stays, rfl⟩
      · exact shared o' same
      -- An object that was not marked has both finalizers or neither.
      refine ⟨nofun, fun _ controller defender => ?_⟩
      exact absurd ((shared o stored).stays stays controller) defender
    · simp [Server.userDelete, absent]
    · rcases userDelete_stored found with same | ⟨o, version, stored, -, rfl⟩
      · exact ⟨o', same, id, .inr⟩
      · exact ⟨o, stored, fun _ => rfl, fun _ => .inl rfl⟩
  | uninstall => exact ⟨shared, Advances.refl _, id, id, fun o stored => ⟨o, stored, id, Or.inr⟩⟩

end

end Steps

end Invariant

section Runs

variable [DecidableEq σ] [DecidableEq τ]

/-- The rules of each party. -/
def contractOf (σ τ : Type) [DecidableEq σ] : Party → Contract (S σ τ)
  | .controller => contract σ τ
  | .defender => defenderContract σ τ

theorem Cluster.invariant :
    (Cluster.machine (σ := σ) (τ := τ) crdName).Invariant (contractOf σ τ) Cluster.Starts
      (fun _ _ => True) (fun s => ∀ o, s.server.stored = some o → Guarded s.defended o)
      (fun _ => Own) where
  init := by
    intro s starts o stored
    have none : ∀ f, f ∉ o.metadata.finalizers := by
      rw [starts.stored o stored]
      exact fun f => List.not_mem_nil
    exact ⟨fun _ held => absurd held (none _), fun _ held => absurd held (none _)⟩
  fresh := by
    intro p s _
    refine ⟨nofun, nofun, nofun, nofun, fun crd => ?_⟩
    exact absurd crd List.not_mem_nil
  drift := by
    intro w after shared own moved _
    obtain ⟨kept, leads⟩ := moves_leads shared moved
    exact ⟨kept, fun p t running => (own p t running).leads leads⟩
  act := by
    intro w after p seen c answer shared own guarded answered _
    cases p with
    | controller =>
      obtain ⟨relied, kept, mine, leads⟩ := own.controller shared guarded answered
      exact ⟨relied, kept, mine, fun _ _ _ others => others.leads leads⟩
    | defender =>
      obtain ⟨kept, mine, leads⟩ := own.defender shared guarded answered
      exact ⟨trivial, kept, mine, fun _ _ _ others => others.leads leads⟩

theorem Cluster.programs (p : Party) :
    Abides (contractOf σ τ p) []
      ((Cluster.machine (σ := σ) (τ := τ) crdName).program p) := by
  cases p with
  | controller => exact Obeys.bind_any reconcile_obeys fun _ _ => trivial
  | defender => exact (defender_obeys crdName).map _

/-- The resource in GCP is deleted only for an object that was read as marked for
deletion, with the finalizer of the controller, without that of the defender and
without the abandon annotation, and only after a defender has found the CRD in
place for the marked object. It is created or updated only for an object that was
read or written with both finalizers, and that has them still unless it has been
marked for deletion or removed since. -/
theorem gcp_calls_guarded (crdName : String) (w : (Cluster.machine (σ := σ) (τ := τ) crdName).World)
    (reached : (Cluster.machine crdName).Reach Cluster.Starts (fun _ _ => True) w)
    (seen : Trace (S σ τ)) (q : Query)
    (next : q.Answer σ τ → Prog (S σ τ) Unit)
    (running : w.threads Party.controller = some ⟨seen, .call (.ask q) next⟩) :
    (q = .delete → ∃ v, latest seen = some v ∧ v.metadata.isDeleting = true ∧
      controllerFinalizerName ∈ v.metadata.finalizers ∧
      deletionDefenderFinalizerName ∉ v.metadata.finalizers ∧
      v.metadata.hasAbandonAnnotation = false ∧ w.state.defended = true) ∧
    (q = .create ∨ q = .update → ¬ Rejected seen → ∃ v, latest seen = some v ∧
      v.metadata.HasKccFinalizers ∧ ∀ o, w.state.server.stored = some o →
        o.metadata.isDeleting = true ∨ o.metadata.HasKccFinalizers) := by
  obtain ⟨own, obeys⟩ := (Machine.Reach.invariant (Cluster.programs crdName)
    (Cluster.invariant crdName) reached).2 Party.controller _ running
  have asks : Asks seen q := obeys.1
  constructor
  · rintro rfl
    obtain ⟨v, last, deletable⟩ := asks
    refine ⟨v, last, deletable.deleting, deletable.controller, deletable.defender,
      deletable.abandon, ?_⟩
    exact (own.guarded v last).goes deletable.deleting deletable.controller deletable.defender
  · intro writes notRejected
    obtain ⟨v, last, isProtected⟩ : ∃ v, latest seen = some v ∧ Protected v := by
      rcases writes with rfl | rfl
      · exact asks.resolve_left notRejected
      · exact asks.resolve_left notRejected
    exact ⟨v, last, isProtected.both, own.kept v last isProtected⟩

/-- For every interleaving: a reconcile asks its adapter once whether the resource is there,
creates it only if it is not, and updates or deletes it only if it is. -/
theorem adapter_called_in_order (crdName : String)
    (w : (Cluster.machine (σ := σ) (τ := τ) crdName).World)
    (reached : (Cluster.machine crdName).Reach Cluster.Starts (fun _ _ => True) w)
    (p : Party) (seen : Trace (S σ τ)) (c : (S σ τ).Op) (next : (S σ τ).Ans c → Prog (S σ τ) Unit)
    (running : w.threads p = some ⟨seen, .call c next⟩) : (ordered σ τ).guard seen c := by
  have programs : ∀ p, Abides ((contractOf σ τ p).both (ordered σ τ)) []
      ((Cluster.machine crdName).program p) := by
    intro p
    cases p with
    | controller => exact Obeys.bind_any reconcile_ordered fun _ _ => trivial
    | defender =>
      refine (Cluster.programs crdName .defender).under (fun seen c guarded => ⟨guarded, ?_⟩)
        fun _ _ _ relied => relied.1
      cases c with
      | ask q => cases q <;> trivial
      | _ => trivial
  have kept := (Cluster.invariant crdName).both (D := ordered σ τ) fun _ _ _ => trivial
  exact ((Machine.Reach.invariant programs kept reached).2 p _ running).2.1.2

end Runs

section Replay

def bucket (finalizers : List String) (deletionTimestamp : Option Nat) (generation : Int)
    (resourceVersion : Nat) : Resource Unit Unit where
  metadata := { ObjectMeta.created "ns" "bucket" with
    finalizers, deletionTimestamp, generation, resourceVersion }
  spec := ()
  status := ⟨[], none, ()⟩

/-- The bucket is stored as its latest version. -/
def holding (finalizers : List String) (deletionTimestamp : Option Nat) (generation : Int)
    (resourceVersion : Nat) : Server Unit Unit :=
  .holding (bucket finalizers deletionTimestamp generation resourceVersion)

def kcc : List String := ObjectMeta.kccFinalizers

def created : Cluster Unit Unit := ⟨holding [] none 1 1, false, false⟩

theorem created_starts : created.Starts := ⟨by rintro o ⟨⟩; rfl, rfl⟩

/-- A first reconcile of the bucket, up to the call that creates it in GCP. -/
theorem reaches_create : ∃ threads,
    (Cluster.machine "buckets").Reach Cluster.Starts (fun _ _ => True)
      ⟨⟨holding kcc none 1 2, false, false⟩, threads⟩ ∧ threads Party.defender = none ∧
    ∃ (seen : Trace (S Unit Unit)) (next : Script Unit Unit → Prog (S Unit Unit) Unit),
      threads Party.controller = some ⟨seen, .call (.ask .create) next⟩ ∧ ¬ Rejected seen := by
  have init := @Machine.Reach.init _ (Cluster.machine "buckets") _ Cluster.Starts
    (fun _ _ => True) created created_starts
  have started := init.start Party.controller
  have read := started.reply Party.controller rfl (Except.ok (bucket [] none 1 1)) created
    ⟨_, ⟨rfl, .found _ rfl⟩, rfl⟩
  have state := read.reply Party.controller rfl (Except.ok (⟨"cluster", none⟩, ⟨none⟩)) created
  have defaulted := state.reply Party.controller rfl (Except.ok none) created
  have adapted := defaulted.reply Party.controller rfl (Except.ok ()) created
  have found := adapted.reply Party.controller rfl (Except.ok false) created
  have ensured := found.reply Party.controller rfl (Reply.object (bucket kcc none 1 2))
    ⟨holding kcc none 1 2, false, false⟩ ⟨_, .done _ _ rfl, rfl⟩
  exact ⟨_, ensured, rfl, _, _, rfl, by rintro ⟨r, message, rest, same⟩; cases same⟩

/-- Then the user deletes the bucket, and the defender lets go of it. -/
theorem reaches_release : ∃ threads,
    (Cluster.machine "buckets").Reach Cluster.Starts (fun _ _ => True)
      ⟨⟨holding [controllerFinalizerName] (some 7) 2 4, false, true⟩, threads⟩ ∧
    ∃ (seen : Trace (S Unit Unit)) (next : Script Unit Unit → Prog (S Unit Unit) Unit),
      threads Party.controller = some ⟨seen, .call (.ask .create) next⟩ := by
  obtain ⟨threads, reached, idle, seen, next, running, _⟩ := reaches_create
  have deleted := reached.step _ _ (.drift _ _ (.delete 7)) trivial
  have started := deleted.start Party.defender idle
  have read := started.reply Party.defender rfl
    (Except.ok (bucket kcc (some 7) 2 3)) ⟨holding kcc (some 7) 2 3, false, false⟩
    ⟨_, ⟨rfl, .found _ rfl⟩, rfl⟩
  have crd := read.reply Party.defender rfl (Except.ok false)
    ⟨holding kcc (some 7) 2 3, false, true⟩ ⟨by rintro d ⟨⟩; rfl, rfl⟩
  have released := crd.reply Party.defender rfl
    (Reply.object (bucket [controllerFinalizerName] (some 7) 2 4))
    ⟨holding [controllerFinalizerName] (some 7) 2 4, false, true⟩
    ⟨_, .done _ _ rfl, rfl⟩
  exact ⟨_, released, seen, next, running⟩

/-- The controller, which has saved both finalizers, is still about to create the
bucket in GCP. -/
theorem create_without_defender :
    ∃ w, (Cluster.machine "buckets").Reach Cluster.Starts (fun _ _ => True) w ∧
      (∃ (seen : Trace (S Unit Unit)) (next : Script Unit Unit → Prog (S Unit Unit) Unit),
        w.threads Party.controller = some ⟨seen, .call (.ask .create) next⟩) ∧
      ∃ o, w.state.server.stored = some o ∧ ¬ o.metadata.HasKccFinalizers := by
  obtain ⟨threads, reached, running⟩ := reaches_release
  exact ⟨_, reached, running, _, rfl, by decide⟩

/-- The next reconcile deletes the bucket in GCP. -/
theorem gcp_calls_guarded_delete :
    ∃ w, (Cluster.machine "buckets").Reach Cluster.Starts (fun _ _ => True) w ∧
      ∃ (seen : Trace (S Unit Unit)) (next : Except GoError Unit → Prog (S Unit Unit) Unit),
        w.threads Party.controller = some ⟨seen, .call (.ask .delete) next⟩ ∧
        w.state.defended = true ∧ ∃ v, latest seen = some v ∧ v.metadata.isDeleting = true := by
  obtain ⟨threads, reached, _⟩ := reaches_release
  have stopped := reached.step _ _ (.stop _ Party.controller) trivial
  have started := stopped.start Party.controller
  have read := started.reply Party.controller rfl
    (Except.ok (bucket [controllerFinalizerName] (some 7) 2 4))
    ⟨holding [controllerFinalizerName] (some 7) 2 4, false, true⟩
    ⟨_, ⟨rfl, .found _ rfl⟩, rfl⟩
  have state := read.reply Party.controller rfl (Except.ok (⟨"cluster", none⟩, ⟨none⟩)) _
  have defaulted := state.reply Party.controller rfl (Except.ok none) _
  have adapted := defaulted.reply Party.controller rfl (Except.ok ()) _
  have found := adapted.reply Party.controller rfl (Except.ok true) _
  have guarded := gcp_calls_guarded "buckets" _ found _ .delete _ rfl
  obtain ⟨v, last, deleting, _, _, _, defended⟩ := guarded.1 rfl
  exact ⟨_, found, _, _, rfl, defended, v, last, deleting⟩

theorem create_after_find :
    ∃ w, (Cluster.machine "buckets").Reach Cluster.Starts (fun _ _ => True) w ∧
      ∃ (seen : Trace (S Unit Unit)) (next : Script Unit Unit → Prog (S Unit Unit) Unit),
        w.threads Party.controller = some ⟨seen, .call (.ask .create) next⟩ ∧
        asked seen = [.find (.ok false)] := by
  obtain ⟨_, reached, _, seen, next, running, _⟩ := reaches_create
  exact ⟨_, reached, seen, next, running,
    adapter_called_in_order _ _ reached .controller seen (.ask .create) _ running⟩

end Replay

end ConfigConnector.Direct
