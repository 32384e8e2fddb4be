import ConfigConnector.Lib.Prog

/- An operation that is tried again until it succeeds, fails for good or the patience for it
is over. -/
namespace Interact

variable {S : Signature} {α ε : Type}

/-- How one try ends. -/
inductive Try (ε α : Type) where
  | done (value : α)
  | again (err : ε)
  | permanent (err : ε)

/-- What is returned when there is no further try. -/
def Try.result : Try ε α → Except ε α
  | done value => .ok value
  | again err => .error err
  | permanent err => .error err

/-- One try more than `retries` at most. -/
def Prog.retry (operation : Prog S (Try ε α)) : Nat → Prog S (Except ε α)
  | 0 => operation >>= fun outcome => .ret outcome.result
  | retries + 1 => operation >>= fun outcome =>
    match outcome with
    | .again _ => retry operation retries
    | .done value => .ret (.ok value)
    | .permanent err => .ret (.error err)

/-- What holds after every try, and lets the next one start. -/
theorem Obeys.retry {C : Contract S} {post : Trace S → Except ε α → Prop} {I : Trace S → Prop}
    {operation : Prog S (Try ε α)}
    (tried : ∀ seen, I seen →
      Obeys C (fun later outcome => I later ∧ post later outcome.result) seen operation)
    (retries : Nat) {seen : Trace S} (start : I seen) :
    Obeys C post seen (operation.retry retries) := by
  induction retries generalizing seen with
  | zero => exact (tried seen start).bind fun later outcome ended => ended.2
  | succ retries ih =>
    refine (tried seen start).bind fun later outcome ended => ?_
    cases outcome with
    | done _ | permanent _ => exact ended.2
    | again err => exact ih ended.1

end Interact
