import ConfigConnector.K8s.Unstructured
import ConfigConnector.Lifecycle.Handler

/- Whether a reconcile is skipped altogether: the object asks for no periodic
reconciles, and its status says that its present generation is up to date. -/
namespace ConfigConnector.Actuation

open K8s

def reconcileIntervalInSecondsAnnotation : String :=
  "cnrm.cloud.google.com/reconcile-interval-in-seconds"

section ParseInt

/-- The value of a sequence of decimal digits. -/
def parseDigits : Nat → List Char → Option Nat
  | value, [] => some value
  | value, c :: rest =>
    if c.isDigit then parseDigits (10 * value + (c.toNat - '0'.toNat)) rest else none

def parseNat : List Char → Option Nat
  | [] => none
  | digits => parseDigits 0 digits

/-- `strconv.ParseInt(s, 10, bits)`, without the two kinds of errors. -/
def parseInt (bits : Nat) (s : String) : Option Int :=
  match s.toList with
  | '-' :: digits => ((parseNat digits).filter (· ≤ 2 ^ (bits - 1))).map fun n => -(n : Int)
  | '+' :: digits => ((parseNat digits).filter (· < 2 ^ (bits - 1))).map Int.ofNat
  | digits => ((parseNat digits).filter (· < 2 ^ (bits - 1))).map Int.ofNat

def parseInt32 : String → Option Int := parseInt 32

end ParseInt

/-- `MeanReconcileReenqueuePeriodFromAnnotation`, in seconds. -/
def meanReconcileReenqueuePeriodFromAnnotation (val : String) : Except GoError Int :=
  match parseInt32 val with
  | none => .error (.plain ("error converting the annotation " ++
      reconcileIntervalInSecondsAnnotation ++ "'s value " ++ val ++ " to int32"))
  | some seconds =>
    if seconds < 0 then
      .error (.plain ("a negative val " ++ toString seconds ++ " is set in the annotation " ++
        reconcileIntervalInSecondsAnnotation))
    else .ok seconds

/-- The loop over the conditions. Any condition counts, whatever its type. -/
def anyUpToDate : List Value → Except GoError Bool
  | [] => .ok false
  | .map fields :: rest =>
    if Value.stringField fields "status" = some "True" ∧
        Value.stringField fields "reason" = some upToDate then .ok true
    else anyUpToDate rest
  | condition :: _ =>
    .error (.plain ("error converting condition " ++ condition.format ++ " to map"))

def shouldSkip (u : Value) (annotations : StringMap) : Except GoError Bool := do
  match ← (u.nestedInt64 ["metadata", "generation"]).mapError
      (.wrap "error getting the value for 'metadata.generation'") with
  | none => return false
  | some generation =>
    match ← (u.nestedInt64 ["status", "observedGeneration"]).mapError
        (.wrap "error getting the value for 'status.observedGeneration'") with
    | none => return false
    | some observedGeneration =>
      if observedGeneration ≠ generation then return false
      else
        match annotations.lookup reconcileIntervalInSecondsAnnotation with
        | none => return false
        | some val =>
          let reconcileInterval ← meanReconcileReenqueuePeriodFromAnnotation val
          if reconcileInterval = 0 then
            match ← (u.nestedSlice ["status", "conditions"]).mapError
                (.wrap "error getting object conditions") with
            | none => return false
            | some conditions => anyUpToDate conditions
          else return false

section Typed

variable {σ τ : Type}

/-- A condition says that the object is up to date. -/
def saysUpToDate (r : Resource σ τ) : Bool :=
  r.status.conditions.any fun c => c.status == .true && c.reason == upToDate

theorem anyUpToDate_conditions (conditions : List Condition) :
    anyUpToDate (conditions.map Condition.toUnstructured) =
      .ok (conditions.any fun c => c.status == .true && c.reason == upToDate) := by
  induction conditions with
  | nil => rfl
  | cons c rest ih =>
    have status : Value.stringField [("type", .string c.type), ("status", .string c.status.text),
        ("reason", .string c.reason), ("message", .string c.message)] "status" =
        some c.status.text := rfl
    have reason : Value.stringField [("type", .string c.type), ("status", .string c.status.text),
        ("reason", .string c.reason), ("message", .string c.message)] "reason" =
        some c.reason := rfl
    have isTrue : c.status.text = "True" ↔ c.status = .true := by
      cases c.status <;> simp [ConditionStatus.text]
    rw [List.map_cons, Condition.toUnstructured, anyUpToDate, status, reason, ih]
    simp only [Option.some.injEq, isTrue, List.any_cons]
    by_cases both : c.status = .true ∧ c.reason = upToDate
    · simp [both]
    simp only [both, if_false]
    have neither : (c.status == .true && c.reason == upToDate) = false := by
      simpa using both
    rw [neither, Bool.false_or]

/-- What `ShouldSkip` says of an object that the API server has validated. -/
theorem shouldSkip_resource (r : Resource σ τ) (annotations : StringMap) :
    shouldSkip r.toUnstructured annotations =
      if r.status.observedGeneration = some r.metadata.generation then
        match annotations.lookup reconcileIntervalInSecondsAnnotation with
        | none => .ok false
        | some val => Except.map (fun interval => interval == 0 && saysUpToDate r) <|
          meanReconcileReenqueuePeriodFromAnnotation val
      else .ok false := by
  have generation : r.toUnstructured.nestedInt64 ["metadata", "generation"] =
      .ok (some r.metadata.generation) := rfl
  have observed : r.toUnstructured.nestedInt64 ["status", "observedGeneration"] =
      .ok r.status.observedGeneration := by
    unfold Resource.toUnstructured
    cases r.status.observedGeneration <;> rfl
  have conditions : r.toUnstructured.nestedSlice ["status", "conditions"] =
      .ok (some (r.status.conditions.map Condition.toUnstructured)) := by
    unfold Resource.toUnstructured
    cases r.status.observedGeneration <;> rfl
  unfold shouldSkip
  rw [generation, observed, conditions]
  cases stored : r.status.observedGeneration with
  | none => rfl
  | some observedGeneration =>
    by_cases same : observedGeneration = r.metadata.generation
    · subst same
      simp only [Except.mapError, bind, Except.bind, ne_eq, not_true_eq_false, if_false, if_true]
      cases annotations.lookup reconcileIntervalInSecondsAnnotation with
      | none => rfl
      | some val =>
        dsimp only
        cases meanReconcileReenqueuePeriodFromAnnotation val with
        | error err => rfl
        | ok interval =>
          by_cases zero : interval = 0
          · simp [zero, anyUpToDate_conditions, saysUpToDate, Except.map]
          · simp [zero, Except.map, pure, Except.pure]
    · have different : ¬ some observedGeneration = some r.metadata.generation := by
        simpa using same
      simp only [Except.mapError, bind, Except.bind, ne_eq, same, not_false_eq_true, if_true,
        different, if_false]
      rfl

end Typed

section Reconcile

open Interact
open Lifecycle (Result)

variable {σ τ Q : Type} {A : Q → Type} {next : Resource σ τ → Prog (calls σ τ A) Result}

/-- How the reconciles of the Terraform, the DCL and the direct controller begin: `next` is
done to the object that is read, unless the object is gone or is skipped. -/
def unlessSkipped (next : Resource σ τ → Prog (calls σ τ A) Result) :
    Prog (calls σ τ A) Result := do
  let read : Except GoError (Resource σ τ) ← Prog.perform (S := calls σ τ A) .get
  match read with
  | .error err => if err.isClass .notFound then return .done else return .failed err
  | .ok u =>
    match shouldSkip u.toUnstructured u.metadata.annotations with
    | .error err => return .failed err
    | .ok true => return .done
    | .ok false => next u

theorem unlessSkipped_abides {C : Contract (calls σ τ A)} (reads : C.guard [] .get)
    (rest : ∀ u, Abides C [⟨.get, .ok u⟩] (next u)) : Abides C [] (unlessSkipped next) := by
  refine .call reads (.onOk (fun u _ => ?_) fun _ => .ite (fun _ => trivial) fun _ => trivial)
  dsimp only
  split
  · trivial
  · trivial
  · exact rest u

end Reconcile

end ConfigConnector.Actuation
