import Mathlib.Logic.Basic

/- Programs that make calls to their surroundings one at a time, the traces of
calls and answers they leave behind, and a rule for reasoning about every call
a program can make. Nothing here fixes what the calls are. -/
namespace Interact

/-- The calls a program may make, and the type of the answer to each. -/
structure Signature where
  Op : Type
  Ans : Op → Type

/-- A program returns, or makes a call and goes on with the answer to it. -/
inductive Prog (S : Signature) (α : Type) : Type where
  | ret (value : α) : Prog S α
  | call (op : S.Op) (next : S.Ans op → Prog S α) : Prog S α

/-- The calls made so far with their answers, the latest one first. -/
abbrev Trace (S : Signature) : Type := List (Sigma S.Ans)

namespace Prog

variable {S : Signature} {α β : Type}

def bind : Prog S α → (α → Prog S β) → Prog S β
  | .ret value, f => f value
  | .call op next, f => .call op (fun answer => bind (next answer) f)

instance : Monad (Prog S) where
  pure := .ret
  bind := bind

/-- Make one call and return its answer. -/
def perform (op : S.Op) : Prog S (S.Ans op) := .call op .ret

/-- Go on with the result of a program that may fail; its error is the result of the whole. -/
def onOk {ε : Type} (first : Prog S (Except ε α)) (next : α → Prog S (Except ε β)) :
    Prog S (Except ε β) :=
  first >>= fun result =>
    match result with
    | .ok value => next value
    | .error err => .ret (.error err)

/-- The same result, with another error. -/
def mapError {ε δ : Type} (f : ε → δ) (program : Prog S (Except ε α)) : Prog S (Except δ α) :=
  program >>= fun result => .ret (result.mapError f)

end Prog

/-- `guard` says which calls may be made after a trace; `rely` says which answers
to them the surroundings can give. -/
structure Contract (S : Signature) where
  guard : Trace S → S.Op → Prop
  rely : Trace S → (op : S.Op) → S.Ans op → Prop

/-- Every call `program` can make after `seen` meets the guard, as long as the
answers meet the rely condition, and `post` holds of every value it returns. -/
def Obeys (C : Contract S) (post : Trace S → α → Prop) : Trace S → Prog S α → Prop
  | seen, .ret value => post seen value
  | seen, .call op next =>
    C.guard seen op ∧
      ∀ answer, C.rely seen op answer → Obeys C post (⟨op, answer⟩ :: seen) (next answer)

variable {seen : Trace S} {post : Trace S → α → Prop} {program : Prog S α} {C : Contract S}
  {next : α → Prog S β} {op : S.Op}

section Rules

theorem obeys_bind (post : Trace S → β → Prop) (program : Prog S α) (next : α → Prog S β) :
    Obeys C post seen (program >>= next) ↔
      Obeys C (fun later value => Obeys C post later (next value)) seen program := by
  change Obeys C post seen (Prog.bind program next) ↔ _
  induction program generalizing seen with
  | ret value => rfl
  | call op rest ih =>
    simp only [Prog.bind, Obeys]
    exact and_congr_right fun _ => forall_congr' fun answer =>
      imp_congr_right fun _ => ih answer

/-- A call that may be made, and the rest. -/
theorem Obeys.call {next : S.Ans op → Prog S α} (guarded : C.guard seen op)
    (rest : ∀ answer, C.rely seen op answer → Obeys C post (⟨op, answer⟩ :: seen) (next answer)) :
    Obeys C post seen (Prog.perform op >>= next) :=
  (obeys_bind post (Prog.perform op) next).mpr ⟨guarded, rest⟩

/-- The rule for a condition. -/
theorem Obeys.ite {condition : Prop} [Decidable condition] {other : Prog S α}
    (holds : condition → Obeys C post seen program)
    (fails : ¬ condition → Obeys C post seen other) :
    Obeys C post seen (if condition then program else other) := by
  split
  · exact holds ‹_›
  · exact fails ‹_›

theorem Obeys.mono {weaker : Trace S → α → Prop} (obeys : Obeys C post seen program)
    (weaken : ∀ later value, post later value → weaker later value) :
    Obeys C weaker seen program := by
  induction program generalizing seen with
  | ret value => exact weaken seen value obeys
  | call op rest ih =>
    exact ⟨obeys.1, fun answer relied => ih answer (obeys.2 answer relied)⟩

/-- The rule used at a call of a procedure: its own specification, then the rest. -/
theorem Obeys.bind {mid : Trace S → α → Prop} {post : Trace S → β → Prop}
    (first : Obeys C mid seen program)
    (rest : ∀ later value, mid later value → Obeys C post later (next value)) :
    Obeys C post seen (program >>= next) :=
  (obeys_bind post program next).mpr (first.mono rest)

/-- The program keeps to the contract, whatever it returns. -/
abbrev Abides (C : Contract S) (seen : Trace S) (program : Prog S α) : Prop :=
  Obeys C (fun _ _ => True) seen program

/-- The same where nothing has to be known about the result of the first part. -/
theorem Obeys.bind_any {post : Trace S → β → Prop} (first : Abides C seen program)
    (rest : ∀ later value, Obeys C post later (next value)) :
    Obeys C post seen (program >>= next) :=
  first.bind fun later value _ => rest later value

theorem Obeys.map (abides : Abides C seen program) (f : α → β) :
    Abides C seen (program >>= fun value => pure (f value)) :=
  abides.bind fun _ _ _ => trivial

/-- Nothing a program has seen is forgotten. -/
theorem Obeys.grows (obeys : Obeys C post seen program) :
    Obeys C (fun later value => seen <:+ later ∧ post later value) seen program := by
  have from_start : ∀ start, start <:+ seen →
      Obeys C (fun later value => start <:+ later ∧ post later value) seen program := by
    intro start since
    induction program generalizing seen with
    | ret value => exact ⟨since, obeys⟩
    | call op rest ih =>
      refine ⟨obeys.1, fun answer relied => ?_⟩
      exact ih answer (obeys.2 answer relied) (since.trans (List.suffix_cons _ _))
  exact from_start seen List.suffix_rfl

end Rules

section Success

variable {ε δ : Type}

/-- `post` holds where the program succeeds. -/
def Succeeds (C : Contract S) (post : Trace S → α → Prop) (seen : Trace S)
    (program : Prog S (Except ε α)) : Prop :=
  Obeys C (fun later result => ∀ value, result = .ok value → post later value) seen program

theorem Succeeds.ok {value : α} (holds : post seen value) :
    Succeeds C post seen (.ret (.ok value : Except ε α)) := by
  intro other same
  cases same
  exact holds

theorem Succeeds.error (err : ε) : Succeeds C post seen (.ret (.error err : Except ε α)) := by
  intro other same
  cases same

/-- The rule for an answer after which nothing more is called if it is an error. -/
theorem Obeys.onOk {later : Except ε α → Trace S} {rely : Except ε α → Prop}
    {next : Except ε α → Prog S β} {post : Trace S → β → Prop}
    (rest : ∀ value, rely (.ok value) → Obeys C post (later (.ok value)) (next (.ok value)))
    (fails : ∀ err, Obeys C post (later (.error err)) (next (.error err))) :
    ∀ answer, rely answer → Obeys C post (later answer) (next answer)
  | .ok value, relied => rest value relied
  | .error err, _ => fails err

variable {mid : Trace S → α → Prop} {first : Prog S (Except ε α)}

/-- The rule for a part after which nothing more is called if it fails. -/
theorem Succeeds.tried {post : Trace S → β → Prop} {next : Except ε α → Prog S β}
    (succeeds : Succeeds C mid seen first)
    (rest : ∀ later value, seen <:+ later → mid later value →
      Obeys C post later (next (.ok value)))
    (fails : ∀ later err, Obeys C post later (next (.error err))) :
    Obeys C post seen (first >>= next) := by
  refine (Obeys.grows succeeds).bind fun later result reached => ?_
  cases result with
  | error err => exact fails later err
  | ok value => exact rest later value reached.1 (reached.2 value rfl)

/-- Each part goes on where the one before it succeeded. -/
theorem Succeeds.onOk {post : Trace S → β → Prop} {next : α → Prog S (Except ε β)}
    (succeeds : Succeeds C mid seen first)
    (rest : ∀ later value, seen <:+ later → mid later value →
      Succeeds C post later (next value)) :
    Succeeds C post seen (first.onOk next) :=
  succeeds.tried rest fun _ => Succeeds.error

theorem Succeeds.mapError {program : Prog S (Except ε α)} {f : ε → δ}
    (succeeds : Succeeds C post seen program) : Succeeds C post seen (program.mapError f) := by
  refine Obeys.bind succeeds fun later result holds value same => ?_
  cases result with
  | ok found =>
    obtain rfl : found = value := Except.ok.inj same
    exact holds found rfl
  | error err => cases same

/-- A single call. -/
theorem Succeeds.perform {next : S.Ans op → Except ε α} (guarded : C.guard seen op)
    (answered : ∀ answer value, C.rely seen op answer → next answer = .ok value →
      post (⟨op, answer⟩ :: seen) value) :
    Succeeds C post seen (.call op fun answer => .ret (next answer)) :=
  ⟨guarded, fun answer relied value same => answered answer value relied same⟩

end Success

section Alone

variable {W : Type} (answers : W → (op : S.Op) → S.Ans op → W → Prop)

/-- Every run of `program` from a state that nothing else changes ends in `post`, where
`answers` says what a call can be answered with and which state it can leave. -/
def Ends (post : Trace S → α → W → Prop) : Trace S → W → Prog S α → Prop
  | seen, s, .ret value => post seen value s
  | seen, s, .call op next => ∀ answer after, answers s op answer after →
      Ends post (⟨op, answer⟩ :: seen) after (next answer)

variable {answers} {s : W}

theorem ends_bind (post : Trace S → β → W → Prop) (program : Prog S α) (next : α → Prog S β) :
    Ends answers post seen s (program >>= next) ↔
      Ends answers (fun later value after => Ends answers post later after (next value))
        seen s program := by
  change Ends answers post seen s (Prog.bind program next) ↔ _
  induction program generalizing seen s with
  | ret value => rfl
  | call op rest ih =>
    simp only [Prog.bind, Ends]
    exact forall_congr' fun answer => forall_congr' fun after =>
      imp_congr_right fun _ => ih answer

variable {post : Trace S → α → W → Prop}

theorem ends_perform {next : S.Ans op → Prog S α} :
    Ends answers post seen s (Prog.perform op >>= next) ↔
      ∀ answer after, answers s op answer after →
        Ends answers post (⟨op, answer⟩ :: seen) after (next answer) :=
  ends_bind post (Prog.perform op) next

theorem Ends.mono {weaker : Trace S → α → W → Prop} (ends : Ends answers post seen s program)
    (weaken : ∀ later value after, post later value after → weaker later value after) :
    Ends answers weaker seen s program := by
  induction program generalizing seen s with
  | ret value => exact weaken seen value s ends
  | call op rest ih => exact fun answer after answered => ih answer (ends answer after answered)

theorem Ends.and {first second : Trace S → α → W → Prop}
    (left : Ends answers first seen s program) (right : Ends answers second seen s program) :
    Ends answers (fun later value after => first later value after ∧ second later value after)
      seen s program := by
  induction program generalizing seen s with
  | ret value => exact ⟨left, right⟩
  | call op rest ih =>
    exact fun answer after answered =>
      ih answer (left answer after answered) (right answer after answered)

theorem Ends.bind {mid : Trace S → α → W → Prop} {post : Trace S → β → W → Prop}
    (first : Ends answers mid seen s program)
    (rest : ∀ later value after, mid later value after →
      Ends answers post later after (next value)) :
    Ends answers post seen s (program >>= next) :=
  (ends_bind post program next).mpr (first.mono rest)

/-- The rule for an answer whose error ends the program. -/
theorem Ends.onOk {ε : Type} {later : Except ε β → Trace S} {permitted : Except ε β → Prop}
    {next : Except ε β → Prog S α}
    (rest : ∀ value, permitted (.ok value) →
      Ends answers post (later (.ok value)) s (next (.ok value)))
    (failed : ∀ err, Ends answers post (later (.error err)) s (next (.error err))) :
    ∀ answer, permitted answer → Ends answers post (later answer) s (next answer)
  | .ok value, holds => rest value holds
  | .error err, _ => failed err

/-- The rule for a part whose error ends the program. -/
theorem Ends.tried {ε : Type} {mid : Trace S → Except ε α → W → Prop}
    {post : Trace S → β → W → Prop} {program : Prog S (Except ε α)}
    {next : Except ε α → Prog S β} (first : Ends answers mid seen s program)
    (rest : ∀ later value after, mid later (.ok value) after →
      Ends answers post later after (next (.ok value)))
    (failed : ∀ later err after, mid later (.error err) after →
      Ends answers post later after (next (.error err))) :
    Ends answers post seen s (program >>= next) := by
  refine first.bind fun later result after holds => ?_
  cases result with
  | error err => exact failed later err after holds
  | ok value => exact rest later value after holds

/-- Where every call has an answer, a program has a run. -/
theorem Ends.exists_run (ends : Ends answers post seen s program)
    (total : ∀ s op, ∃ answer after, answers s op answer after) :
    ∃ later value after, post later value after := by
  induction program generalizing seen s with
  | ret value => exact ⟨seen, value, s, ends⟩
  | call op rest ih =>
    obtain ⟨answer, after, answered⟩ := total s op
    exact ih answer (ends answer after answered)

/-- What the calls that a program may make preserve, holds at its end. -/
theorem Ends.of_obeys {post : Trace S → α → Prop} {I : W → Prop}
    (obeys : Obeys C post seen program)
    (step : ∀ seen op s answer after, C.guard seen op → I s → answers s op answer after →
      C.rely seen op answer ∧ I after)
    (holds : I s) :
    Ends answers (fun _ _ after => I after) seen s program := by
  induction program generalizing seen s with
  | ret value => exact holds
  | call op rest ih =>
    intro answer after answered
    obtain ⟨relied, next⟩ := step seen op s answer after obeys.1 holds answered
    exact ih answer (obeys.2 answer relied) next

end Alone

end Interact
