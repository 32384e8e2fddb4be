import ConfigConnector.Lib.Handler
import Mathlib.Logic.Function.Basic

/- Parties that run programs against one shared state, interleaved call by
call. A party may be stopped between any two of its calls, so every crash is
a run as well. -/
namespace Interact

structure Machine (S : Signature) where
  State : Type
  Party : Type
  /-- What a party runs each time it is started. -/
  program : Party → Prog S Unit
  /-- The call of a party may get this answer and leave this state. -/
  answers : Party → State → (op : S.Op) → S.Ans op → State → Prop
  /-- Changes of the state that no party makes. -/
  drift : State → State → Prop

/-- A program that has been started: what it has seen and what is left of it. -/
structure Thread (S : Signature) where
  seen : Trace S
  rest : Prog S Unit

namespace Machine

variable {S : Signature}

structure World (M : Machine S) where
  state : M.State
  threads : M.Party → Option (Thread S)

variable (M : Machine S) [DecidableEq M.Party]

inductive Step : M.World → M.World → Prop where
  | drift (w : M.World) (after : M.State) (moved : M.drift w.state after) :
      Step w ⟨after, w.threads⟩
  | start (w : M.World) (p : M.Party) (idle : w.threads p = none) :
      Step w ⟨w.state, Function.update w.threads p (some ⟨[], M.program p⟩)⟩
  | act (w : M.World) (p : M.Party) (seen : Trace S) (op : S.Op)
      (next : S.Ans op → Prog S Unit) (answer : S.Ans op) (after : M.State)
      (running : w.threads p = some ⟨seen, .call op next⟩)
      (answered : M.answers p w.state op answer after) :
      Step w ⟨after, Function.update w.threads p (some ⟨⟨op, answer⟩ :: seen, next answer⟩)⟩
  | stop (w : M.World) (p : M.Party) :
      Step w ⟨w.state, Function.update w.threads p none⟩

/-- Worlds reached from an initial state by steps that all meet `meets`. -/
inductive Reach (init : M.State → Prop) (meets : M.World → M.World → Prop) : M.World → Prop where
  | init (s : M.State) (starts : init s) : Reach init meets ⟨s, fun _ => none⟩
  | step (w after : M.World) (reached : Reach init meets w) (taken : M.Step w after)
      (met : meets w after) : Reach init meets after

variable {M} {init : M.State → Prop} {meets : M.World → M.World → Prop} {w : M.World}

/-- A party is started: one step of a run that is written out. -/
theorem Reach.start (reached : M.Reach init meets w) (p : M.Party)
    (idle : w.threads p = none := by rfl)
    (met : meets w ⟨w.state, Function.update w.threads p (some ⟨[], M.program p⟩)⟩ := by trivial) :
    M.Reach init meets ⟨w.state, Function.update w.threads p (some ⟨[], M.program p⟩)⟩ :=
  reached.step _ _ (.start w p idle) met

/-- The next call of a party is answered. -/
theorem Reach.reply (reached : M.Reach init meets w) (p : M.Party) {seen : Trace S} {op : S.Op}
    {next : S.Ans op → Prog S Unit} (running : w.threads p = some ⟨seen, .call op next⟩)
    (answer : S.Ans op) (after : M.State)
    (answered : M.answers p w.state op answer after
      := by first | exact ⟨_, rfl, rfl⟩ | exact ⟨rfl, rfl⟩ | rfl)
    (met : meets w ⟨after, Function.update w.threads p (some ⟨⟨op, answer⟩ :: seen, next answer⟩)⟩
      := by trivial) :
    M.Reach init meets
      ⟨after, Function.update w.threads p (some ⟨⟨op, answer⟩ :: seen, next answer⟩)⟩ :=
  reached.step _ _ (.act w p seen op next answer after running answered) met

/-- What holds of every thread still holds after one slot was set, if it holds there. -/
theorem forall_update {T : Type} {P : M.Party → T → Prop} {threads : M.Party → Option T}
    {q : M.Party} {slot : Option T} (old : ∀ p t, p ≠ q → threads p = some t → P p t)
    (new : ∀ t, slot = some t → P q t) (p : M.Party) (t : T)
    (running : Function.update threads q slot p = some t) : P p t := by
  by_cases same : p = q
  · subst same
    exact new t (by simpa using running)
  · rw [Function.update_of_ne same] at running
    exact old p t same running

/-- What an invariant of whole worlds has to satisfy. A call that keeps to the contract gets an
answer that the contract relies on. -/
structure Keeps (C : M.Party → Contract S) (init : M.State → Prop)
    (meets : M.World → M.World → Prop) (good : M.World → Prop) : Prop where
  init : ∀ s, init s → good ⟨s, fun _ => none⟩
  drift : ∀ (w : M.World) after, good w → M.drift w.state after → meets w ⟨after, w.threads⟩ →
    good ⟨after, w.threads⟩
  start : ∀ (w : M.World) p, good w →
    good ⟨w.state, Function.update w.threads p (some ⟨[], M.program p⟩)⟩
  act : ∀ (w : M.World) p seen op next answer after, good w →
    w.threads p = some ⟨seen, .call op next⟩ → (C p).guard seen op →
    M.answers p w.state op answer after →
    meets w ⟨after, Function.update w.threads p (some ⟨⟨op, answer⟩ :: seen, next answer⟩)⟩ →
    (C p).rely seen op answer ∧
      good ⟨after, Function.update w.threads p (some ⟨⟨op, answer⟩ :: seen, next answer⟩)⟩
  stop : ∀ (w : M.World) p, good w → good ⟨w.state, Function.update w.threads p none⟩

variable {C : M.Party → Contract S}

/-- In every world reached the invariant holds, and every thread keeps to the
contract in all it has still to do. -/
theorem Reach.kept {good : M.World → Prop} (programs : ∀ p, Abides (C p) [] (M.program p))
    (keeps : M.Keeps C init meets good) (reached : M.Reach init meets w) :
    good w ∧ ∀ p t, w.threads p = some t → Abides (C p) t.seen t.rest := by
  induction reached with
  | init s starts => exact ⟨keeps.init s starts, nofun⟩
  | step w after reached taken met ih =>
    obtain ⟨before, obeys⟩ := ih
    cases taken with
    | drift after moved => exact ⟨keeps.drift w after before moved met, obeys⟩
    | start q idle =>
      refine ⟨keeps.start w q before, forall_update (fun p t _ => obeys p t) fun t set => ?_⟩
      cases set
      exact programs q
    | act q seen op next answer after running answered =>
      obtain ⟨guarded, goesOn⟩ := obeys q _ running
      obtain ⟨relied, kept⟩ :=
        keeps.act w q seen op next answer after before running guarded answered met
      refine ⟨kept, forall_update (fun p t _ => obeys p t) fun t set => ?_⟩
      cases set
      exact goesOn answer relied
    | stop q => exact ⟨keeps.stop w q before, forall_update (fun p t _ => obeys p t) nofun⟩

/-- What an invariant of the shared state and of what each party knows about it
has to satisfy. `own` relates one party's trace to the state, and has to survive
the moves of all the others. A call that keeps to the contract gets an answer
that the contract relies on. -/
structure Invariant (C : M.Party → Contract S) (init : M.State → Prop)
    (meets : M.World → M.World → Prop) (shared : M.State → Prop)
    (own : M.Party → M.State → Trace S → Prop) : Prop where
  init : ∀ s, init s → shared s
  fresh : ∀ p s, shared s → own p s []
  drift : ∀ (w : M.World) after, shared w.state →
    (∀ p t, w.threads p = some t → own p w.state t.seen) →
    M.drift w.state after → meets w ⟨after, w.threads⟩ →
    shared after ∧ ∀ p t, w.threads p = some t → own p after t.seen
  act : ∀ (w after : M.World) p seen op answer, shared w.state → own p w.state seen →
    (C p).guard seen op → M.answers p w.state op answer after.state → meets w after →
    (C p).rely seen op answer ∧ shared after.state ∧
      own p after.state (⟨op, answer⟩ :: seen) ∧
      ∀ q other, q ≠ p → own q w.state other → own q after.state other

variable {shared : M.State → Prop} {own : M.Party → M.State → Trace S → Prop}

/-- An invariant of the shared state and of each party's part in it is one of worlds. -/
theorem Invariant.keeps (inv : M.Invariant C init meets shared own) :
    M.Keeps C init meets fun w =>
      shared w.state ∧ ∀ p t, w.threads p = some t → own p w.state t.seen where
  init := fun s starts => ⟨inv.init s starts, nofun⟩
  drift := fun w after good moved met => inv.drift w after good.1 good.2 moved met
  start := by
    intro w q good
    refine ⟨good.1, forall_update (fun p t _ => good.2 p t) fun t set => ?_⟩
    cases set
    exact inv.fresh q _ good.1
  act := by
    intro w q seen op next answer after good running guarded answered met
    obtain ⟨relied, kept, mine, stable⟩ := inv.act w ⟨after, _⟩ q seen op answer good.1
      (good.2 q _ running) guarded answered met
    refine ⟨relied, kept, forall_update (fun p t other old => ?_) fun t set => ?_⟩
    · exact stable p t.seen other (good.2 p t old)
    · cases set
      exact mine
  stop := fun w q good => ⟨good.1, forall_update (fun p t _ => good.2 p t) nofun⟩

omit [DecidableEq M.Party] in
/-- An invariant holds as well for parties that promise more and rely on nothing for it. -/
theorem Invariant.both {D : Contract S} (inv : M.Invariant C init meets shared own)
    (free : ∀ seen op answer, D.rely seen op answer) :
    M.Invariant (fun p => (C p).both D) init meets shared own := by
  refine ⟨inv.init, inv.fresh, inv.drift, ?_⟩
  intro w after p seen op answer known mine guarded answered met
  have acted := inv.act w after p seen op answer known mine guarded.1 answered met
  exact ⟨⟨acted.1, free seen op answer⟩, acted.2⟩

theorem Reach.invariant (programs : ∀ p, Abides (C p) [] (M.program p))
    (inv : M.Invariant C init meets shared own) (reached : M.Reach init meets w) :
    shared w.state ∧ ∀ p t, w.threads p = some t →
      own p w.state t.seen ∧ Abides (C p) t.seen t.rest := by
  obtain ⟨⟨global, knows⟩, obeys⟩ := reached.kept programs inv.keeps
  exact ⟨global, fun p t running => ⟨knows p t running, obeys p t running⟩⟩

end Machine

end Interact
