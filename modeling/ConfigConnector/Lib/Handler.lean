import ConfigConnector.Lib.Prog

/- Programs whose calls are answered by other programs. The handler has a memory, and may
give up, in which case the whole program does. -/
namespace Interact

variable {S T : Signature} {α K : Type} {post : Trace S → α → Prop}

/-- Go on with the answer of a handler, unless it has given up. -/
def Prog.resume {β : Type} (next : β → K → Prog T (Option α)) :
    Option (β × K) → Prog T (Option α)
  | none => .ret none
  | some (answer, memory) => next answer memory

/-- A program over `S` run with the programs that `handler` has for its calls. -/
def Prog.handle (handler : K → (op : S.Op) → Prog T (Option (S.Ans op × K))) :
    K → Prog S α → Prog T (Option α)
  | _, .ret value => .ret (some value)
  | memory, .call op next =>
    handler memory op >>= resume fun answer later => (next answer).handle handler later

section Contracts

variable {C C' : Contract S}

/-- Two contracts at once. -/
def Contract.both (C C' : Contract S) : Contract S where
  guard := fun seen op => C.guard seen op ∧ C'.guard seen op
  rely := fun seen op answer => C.rely seen op answer ∧ C'.rely seen op answer

/-- A contract that guards less and relies on more. -/
theorem Obeys.under {seen : Trace S} {program : Prog S α} (obeys : Obeys C post seen program)
    (guard : ∀ seen op, C.guard seen op → C'.guard seen op)
    (rely : ∀ seen op answer, C'.rely seen op answer → C.rely seen op answer) :
    Obeys C' post seen program := by
  induction program generalizing seen with
  | ret value => exact obeys
  | call op next ih =>
    exact ⟨guard _ _ obeys.1, fun answer relied => ih answer (obeys.2 answer (rely _ _ _ relied))⟩

end Contracts

/-- If `R` links what the program sees to what its handler sees, and the handler keeps to
`D` while the program keeps to `C`, the handled program keeps to `D`. -/
theorem Obeys.handle {C : Contract S} {D : Contract T}
    {handler : K → (op : S.Op) → Prog T (Option (S.Ans op × K))}
    {R : Trace S → Trace T → K → Prop}
    (step : ∀ seen heard memory op, R seen heard memory → C.guard seen op →
      Obeys D (fun later outcome => ∀ answer memory, outcome = some (answer, memory) →
        C.rely seen op answer ∧ R (⟨op, answer⟩ :: seen) later memory)
      heard (handler memory op))
    {seen : Trace S} {heard : Trace T} {memory : K} {program : Prog S α}
    (obeys : Obeys C post seen program) (start : R seen heard memory) :
    Abides D heard (program.handle handler memory) := by
  induction program generalizing seen heard memory with
  | ret value => trivial
  | call op next ih =>
    rw [Prog.handle]
    refine (step seen heard memory op start obeys.1).bind fun later outcome handled => ?_
    cases outcome with
    | none => trivial
    | some result =>
      obtain ⟨relied, goesOn⟩ := handled result.1 result.2 rfl
      exact ih result.1 (obeys.2 result.1 relied) goesOn

end Interact
