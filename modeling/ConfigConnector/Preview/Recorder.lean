import Mathlib
import ConfigConnector.Lib.Machine

/- How the preview counts the objects that are still to be reconciled. -/
namespace ConfigConnector.Preview

open Interact List

structure GKNN where
  group : String
  kind : String
  «namespace» : String
  name : String
deriving DecidableEq, Repr

structure Recorder where
  /-- What a key of the map reads as: an object that is not in it has not been reconciled. -/
  reconciledResources : GKNN → Bool
  remainResourcesCount : Int

def newRecorder : Recorder := ⟨fun _ => false, 0⟩

namespace Recorder

def doneReconciling (r : Recorder) : Bool := r.remainResourcesCount == 0

/-- The resources that are tracked are listed one after the other, up to the first error. -/
def preloadGKNN {ε : Type} (r : Recorder) : List (Except ε (List GKNN)) → Recorder × Except ε Unit
  | [] => (r, .ok ())
  | .error err :: _ => (r, .error err)
  | .ok items :: rest =>
    preloadGKNN
      { reconciledResources := items.foldl (fun m gknn => Function.update m gknn false)
          r.reconciledResources
        remainResourcesCount := r.remainResourcesCount + items.length } rest

/-- The critical section at the end of `recordReconcileEnd`. -/
def record (r : Recorder) (gknn : GKNN) : Recorder where
  reconciledResources := Function.update r.reconciledResources gknn true
  remainResourcesCount := r.remainResourcesCount - 1

end Recorder

inductive Op where
  | gknnDoneReconcile (gknn : GKNN)
  | record (gknn : GKNN)

def Op.Answer : Op → Type
  | .gknnDoneReconcile _ => Bool
  | .record _ => Unit

abbrev S : Signature := ⟨Op, Op.Answer⟩

def recordReconcileEnd (gknn : GKNN) : Prog S Unit := do
  let done : Bool ← Prog.perform (S := S) (.gknnDoneReconcile gknn)
  if done then return ()
  Prog.perform (S := S) (.record gknn)

def answers (r : Recorder) : (op : Op) → op.Answer → Recorder → Prop
  | .gknnDoneReconcile gknn, done, after => after = r ∧ done = r.reconciledResources gknn
  | .record gknn, _, after => after = r.record gknn

/-- Any number of notifications for every object, interleaved section by section. -/
def machine : Machine S where
  State := Recorder
  Party := GKNN × Nat
  program := fun notification => recordReconcileEnd notification.1
  answers := fun _ => answers
  drift := fun _ _ => False

instance : DecidableEq machine.Party := inferInstanceAs (DecidableEq (GKNN × Nat))

/-- The listings of a preload that ends without an error: no object is listed twice. -/
structure Listings where
  items : List (List GKNN)
  distinct : items.flatten.Nodup

variable (listings : Listings)

namespace Listings

def objects : List GKNN := listings.items.flatten

def preloaded : Recorder :=
  (newRecorder.preloadGKNN (listings.items.map (Except.ok (ε := Empty)))).1

end Listings

/-- The recorder right after the preload. -/
def Starts (r : Recorder) : Prop := r = listings.preloaded

/-- A notification starts for a preloaded object only, and while no other of the object is under
way. -/
def Orderly (w after : machine.World) : Prop :=
  ∀ p : GKNN × Nat, w.threads p = none → after.threads p ≠ none →
    p.1 ∈ listings.objects ∧
      ∀ (q : GKNN × Nat) t, q.1 = p.1 → w.threads q = some t → t.rest = .ret ()

section Counting

theorem foldl_update_false (items : List GKNN) :
    items.foldl (fun m gknn => Function.update m gknn false) (fun _ => false) = fun _ => false := by
  induction items with
  | nil => rfl
  | cons gknn rest ih => rw [foldl_cons, Function.update_eq_self, ih]

theorem preloadGKNN_count {ε : Type} (items : List (List GKNN)) (count : Int) :
    (Recorder.preloadGKNN ⟨fun _ => false, count⟩ (items.map (Except.ok (ε := ε)))).1 =
      ⟨fun _ => false, count + items.flatten.length⟩ := by
  induction items generalizing count with
  | nil => simp [Recorder.preloadGKNN]
  | cons first rest ih =>
    rw [map_cons, Recorder.preloadGKNN, foldl_update_false, ih]
    simp [Int.add_assoc]

/-- The preloaded objects without a recorded end. -/
def remaining (r : Recorder) : Nat :=
  listings.objects.countP fun gknn => !r.reconciledResources gknn

/-- The end of a preloaded object that had none makes one less. -/
theorem remaining_record {listings : Listings} {r : Recorder} {gknn : GKNN}
    (tracked : gknn ∈ listings.objects) (unended : r.reconciledResources gknn = false) :
    remaining listings (r.record gknn) + 1 = remaining listings r := by
  have distinct : listings.objects.Nodup := listings.distinct
  unfold remaining
  generalize listings.objects = objects at tracked distinct
  induction objects with
  | nil => cases tracked
  | cons first rest ih =>
    obtain ⟨absent, distinct⟩ := nodup_cons.mp distinct
    rw [countP_cons, countP_cons]
    by_cases same : first = gknn
    · have others : ∀ other ∈ rest, (!(r.record gknn).reconciledResources other) =
          !r.reconciledResources other := by
        intro other member
        have differs : other ≠ gknn := fun equal => absent (same ▸ equal ▸ member)
        simp [Recorder.record, differs]
      rw [countP_congr fun other member => by rw [others other member]]
      simp [Recorder.record, same, unended]
    · have later := ih ((mem_cons.mp tracked).resolve_left (Ne.symm same)) distinct
      simp only [Recorder.record, Function.update_of_ne same] at later ⊢
      omega

end Counting

section Runs

variable {listings : Listings} {w : machine.World} {r : Recorder}

/-- Where a notification is in `recordReconcileEnd`. One that has passed the check finds its object
as it was. -/
def Stage (listings : Listings) (r : Recorder) (gknn : GKNN) (rest : Prog S Unit) : Prop :=
  rest = .ret () ∨ gknn ∈ listings.objects ∧ (rest = recordReconcileEnd gknn ∨
    rest = Prog.perform (S := S) (.record gknn) ∧ r.reconciledResources gknn = false)

structure Good (listings : Listings) (w : machine.World) : Prop where
  count : w.state.remainResourcesCount = remaining listings w.state
  stage : ∀ (p : GKNN × Nat) t, w.threads p = some t → Stage listings w.state p.1 t.rest
  alone : ∀ (p q : GKNN × Nat) t u, q ≠ p → q.1 = p.1 → w.threads p = some t →
    w.threads q = some u → t.rest ≠ .ret () → u.rest = .ret ()

/-- One notification moves on. -/
theorem Good.move (good : Good listings w) {p : GKNN × Nat} {slot : Option (Thread S)}
    (count : r.remainResourcesCount = remaining listings r)
    (kept : ∀ (q : GKNN × Nat) t, q ≠ p → w.threads q = some t → Stage listings r q.1 t.rest)
    (new : ∀ t, slot = some t → Stage listings r p.1 t.rest)
    (single : ∀ (q : GKNN × Nat) t u, q ≠ p → q.1 = p.1 → slot = some t →
      w.threads q = some u → t.rest ≠ .ret () → u.rest = .ret ()) :
    Good listings ⟨r, Function.update w.threads p slot⟩ where
  count := count
  stage := Machine.forall_update (M := machine) kept new
  alone := by
    intro a b t u other same here there busy
    have moved : Function.update w.threads p slot p = slot := Function.update_self _ _ _
    have stays (q : GKNN × Nat) (differs : q ≠ p) : Function.update w.threads p slot q = _ :=
      Function.update_of_ne differs _ _
    by_cases first : a = p
    · subst first
      exact single b t u other same (moved.symm.trans here) ((stays b other).symm.trans there) busy
    · have before := (stays a first).symm.trans here
      by_cases second : b = p
      · subst second
        by_contra late
        exact busy (single a u t (Ne.symm other) same.symm (moved.symm.trans there) before late)
      · exact good.alone a b t u other same before ((stays b second).symm.trans there) busy

theorem good_init : Good listings ⟨listings.preloaded, fun _ => none⟩ := by
  refine ⟨?_, nofun, nofun⟩
  rw [Listings.preloaded, newRecorder, preloadGKNN_count]
  simp [remaining, Listings.objects]

theorem Good.start (good : Good listings w) {p : GKNN × Nat} (idle : w.threads p = none)
    (met : Orderly listings w
      ⟨w.state, Function.update w.threads p (some ⟨[], recordReconcileEnd p.1⟩)⟩) :
    Good listings ⟨w.state, Function.update w.threads p (some ⟨[], recordReconcileEnd p.1⟩)⟩ := by
  have begun : Function.update w.threads p (some ⟨[], recordReconcileEnd p.1⟩) p ≠ none := by
    intro none
    cases (Function.update_self p _ w.threads).symm.trans none
  obtain ⟨tracked, others⟩ := met p idle begun
  refine good.move good.count (fun q t _ => good.stage q t) ?_ ?_
  · rintro t ⟨⟩
    exact .inr ⟨tracked, .inl rfl⟩
  · intro q t u _ same _ there _
    exact others q u same there

/-- The check makes the difference: what passes it has no recorded end, and gets none from the
others, since no other notification of the object is under way. -/
theorem Good.act (good : Good listings w) {p : GKNN × Nat} {seen : Trace S} {op : Op}
    {next : op.Answer → Prog S Unit} {answer : op.Answer} {after : Recorder}
    (running : w.threads p = some ⟨seen, .call op next⟩)
    (answered : answers w.state op answer after) (trace : Trace S) :
    Good listings ⟨after, Function.update w.threads p (some ⟨trace, next answer⟩)⟩ := by
  have single (q : GKNN × Nat) (t u : Thread S) (other : q ≠ p) (same : q.1 = p.1)
      (_ : some ⟨trace, next answer⟩ = some t) (there : w.threads q = some u)
      (_ : t.rest ≠ .ret ()) : u.rest = .ret () :=
    good.alone p q _ u other same running there nofun
  rcases good.stage p _ running with ended | ⟨tracked, checks | ⟨records, unended⟩⟩
  · cases ended
  · cases checks
    obtain ⟨rfl, rfl⟩ := answered
    refine good.move good.count (fun q t _ => good.stage q t) ?_ single
    rintro t ⟨⟩
    cases done : w.state.reconciledResources p.1 with
    | true => exact .inl rfl
    | false => exact .inr ⟨tracked, .inr ⟨rfl, done⟩⟩
  · cases records
    obtain rfl : after = w.state.record p.1 := answered
    refine good.move ?_ ?_ ?_ single
    · have count := good.count
      have fewer := remaining_record tracked unended
      simp only [Recorder.record] at fewer ⊢
      omega
    · intro q t other there
      rcases good.stage q t there with ended | ⟨trackedQ, checks | ⟨records, unendedQ⟩⟩
      · exact .inl ended
      · exact .inr ⟨trackedQ, .inl checks⟩
      · have differs : q.1 ≠ p.1 := by
          intro same
          have late := good.alone p q _ t other same running there nofun
          cases records.symm.trans late
        refine .inr ⟨trackedQ, .inr ⟨records, ?_⟩⟩
        simp [Recorder.record, differs, unendedQ]
    · rintro t ⟨⟩
      exact .inl rfl

theorem good_reached (reached : machine.Reach (Starts listings) (Orderly listings) w) :
    Good listings w := by
  induction reached with
  | init r starts =>
    subst starts
    exact good_init
  | step w after _ taken met ih =>
    cases taken with
    | drift _ moved => exact moved.elim
    | start p idle => exact ih.start idle met
    | stop p => exact ih.move ih.count (fun q t _ => ih.stage q t) nofun nofun
    | act p seen op next answer after running answered => exact ih.act running answered _

end Runs

section Replay

def first : GKNN := ⟨"pubsub.cnrm.cloud.google.com", "PubSubTopic", "ns", "first"⟩

def second : GKNN := { first with name := "second" }

/-- One object is preloaded. -/
def one : Listings := ⟨[[first]], by simp⟩

theorem orderly_update {listings : Listings} {w : machine.World} {p : GKNN × Nat}
    (begins : w.threads p = none → p.1 ∈ listings.objects ∧
      ∀ (q : GKNN × Nat) t, q.1 = p.1 → w.threads q = some t → t.rest = .ret ())
    (r : Recorder) (slot : Option (Thread S)) :
    Orderly listings w ⟨r, Function.update w.threads p slot⟩ := by
  intro q idle begun
  by_cases same : q = p
  · subst same
    exact begins idle
  · exact absurd ((Function.update_of_ne same _ _).trans idle) begun

end Replay

end ConfigConnector.Preview
