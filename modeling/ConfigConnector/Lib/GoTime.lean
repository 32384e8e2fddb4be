import Mathlib

/- `time.ParseDuration`, over the characters of the text. -/
namespace GoTime

open List Nat

inductive ParseError where
  | invalid
  | missingUnit
  | unknownUnit (unit : List Char)
  deriving DecidableEq, Repr

/-- `uint64(float64(f) * (float64(unit) / 10^k))`, of which only what IEEE 754 leaves no choice in
is known: integers below 2^53 are not rounded. -/
structure FloatProduct where
  apply : Nat → Nat → Nat → Nat
  exact : ∀ f unit k, 10 ^ k ∣ unit → unit < 2 ^ 53 → f * (unit / 10 ^ k) < 2 ^ 53 →
    apply f unit k = f * (unit / 10 ^ k)

def leadingInt : List Char → Nat → Option (Nat × List Char)
  | [], x => some (x, [])
  | c :: rest, x =>
    if c.isDigit then
      if 2 ^ 63 / 10 < x then none
      else if 2 ^ 63 < 10 * x + (c.toNat - '0'.toNat) then none
      else leadingInt rest (10 * x + (c.toNat - '0'.toNat))
    else some (x, c :: rest)

/-- The digits that fit, how many they are, and what follows the digits. -/
def leadingFraction : List Char → Nat → Nat → Bool → Nat × Nat × List Char
  | [], x, scale, _ => (x, scale, [])
  | c :: rest, x, scale, overflow =>
    if c.isDigit then
      if overflow || decide ((2 ^ 63 - 1) / 10 < x) ||
          decide (2 ^ 63 < 10 * x + (c.toNat - '0'.toNat)) then
        leadingFraction rest x scale true
      else leadingFraction rest (10 * x + (c.toNat - '0'.toNat)) (scale + 1) false
    else (x, scale, c :: rest)

def unitMap : List (List Char × Nat) :=
  [(['n', 's'], 1), (['u', 's'], 10 ^ 3), (['µ', 's'], 10 ^ 3), (['μ', 's'], 10 ^ 3),
    (['m', 's'], 10 ^ 6), (['s'], 10 ^ 9), (['m'], 60 * 10 ^ 9), (['h'], 3600 * 10 ^ 9)]

/-- Neither a digit nor a point. -/
def inUnit (c : Char) : Bool := !(c == '.' || c.isDigit)

/-- The number behind the point: its digits, how many they are, whether there is any, and what
follows. -/
def fraction : List Char → Nat × Nat × Bool × List Char
  | '.' :: rest =>
    let (f, scale, behind) := leadingFraction rest 0 0 false
    (f, scale, decide (behind.length ≠ rest.length), behind)
  | s => (0, 0, false, s)

variable (float : FloatProduct)

/-- The number is taken in its unit, which is read here, and added. -/
def addUnit (d v f scale : Nat) (s : List Char) : Except ParseError (Nat × List Char) :=
  let u := s.takeWhile inUnit
  if u = [] then .error .missingUnit else
  match unitMap.lookup u with
  | none => .error (.unknownUnit u)
  | some unit =>
    if 2 ^ 63 / unit < v then .error .invalid else
    let v := if 0 < f then v * unit + float.apply f unit scale else v * unit
    if 2 ^ 63 < v then .error .invalid else
    if 2 ^ 63 < (d + v) % 2 ^ 64 then .error .invalid else
    .ok ((d + v) % 2 ^ 64, s.dropWhile inUnit)

/-- The loop over the numbers and their units; a round takes at least one character. -/
def parseRounds : Nat → List Char → Nat → Except ParseError Nat
  | 0, _, d => .ok d
  | _ + 1, [], d => .ok d
  | fuel + 1, c :: rest, d =>
    if !(c == '.' || c.isDigit) then .error .invalid else
    match leadingInt (c :: rest) 0 with
    | none => .error .invalid
    | some (v, behind) =>
      let (f, scale, post, behind') := fraction behind
      if decide (behind.length = rest.length + 1) && !post then .error .invalid else
      match addUnit float d v f scale behind' with
      | .error err => .error err
      | .ok (d', s) => parseRounds fuel s d'

/-- The text without its sign, and whether the sign is a minus. -/
def sign : List Char → Bool × List Char
  | '-' :: rest => (true, rest)
  | '+' :: rest => (false, rest)
  | s => (false, s)

def parseDuration (s : List Char) : Except ParseError Int :=
  let (neg, s) := sign s
  if s = ['0'] then .ok 0
  else if s = [] then .error .invalid
  else match parseRounds float s.length s 0 with
    | .error err => .error err
    | .ok d =>
      if neg then .ok (-d) else if 2 ^ 63 - 1 < d then .error .invalid else .ok d

section Digits

variable {digits behind : List Char}

theorem le_ofDigitChars (digits : List Char) (x : Nat) : x ≤ Nat.ofDigitChars 10 digits x := by
  rw [ofDigitChars_eq_ofDigitChars_zero]
  exact Nat.le_add_right_of_le (Nat.le_mul_of_pos_left x (Nat.pow_pos (by decide)))

section

variable (all : ∀ c ∈ digits, c.isDigit) (stops : ∀ c ∈ behind.head?, c.isDigit = false)
include all stops

theorem leadingInt_digits {x : Nat} (bound : Nat.ofDigitChars 10 digits x ≤ 2 ^ 63) :
    leadingInt (digits ++ behind) x = some (Nat.ofDigitChars 10 digits x, behind) := by
  induction digits generalizing x with
  | nil =>
    cases behind with
    | nil => rfl
    | cons c rest => simp [leadingInt, stops c rfl]
  | cons c rest ih =>
    rw [ofDigitChars_cons] at bound
    have grown := le_ofDigitChars rest (10 * x + (c.toNat - '0'.toNat))
    rw [cons_append, leadingInt, if_pos (all c (.head _)), if_neg (by omega),
      if_neg (by omega), ih (fun c member => all c (.tail _ member)) bound, ofDigitChars_cons]

theorem leadingFraction_digits {x : Nat} (scale : Nat)
    (bound : Nat.ofDigitChars 10 digits x < 2 ^ 63) :
    leadingFraction (digits ++ behind) x scale false =
      (Nat.ofDigitChars 10 digits x, scale + digits.length, behind) := by
  induction digits generalizing x scale with
  | nil =>
    cases behind with
    | nil => rfl
    | cons c rest => simp [leadingFraction, stops c rfl]
  | cons c rest ih =>
    rw [ofDigitChars_cons] at bound
    have grown := le_ofDigitChars rest (10 * x + (c.toNat - '0'.toNat))
    rw [cons_append, leadingFraction, if_pos (all c (.head _)),
      if_neg (by simp only [Bool.false_or, Bool.or_eq_true, decide_eq_true_eq]; omega),
      ih (fun c member => all c (.tail _ member)) _ bound, ofDigitChars_cons, length_cons]
    congr 2
    omega

theorem fraction_digits (bound : Nat.ofDigitChars 10 digits 0 < 2 ^ 63) :
    ∃ post, fraction ('.' :: (digits ++ behind)) =
      (Nat.ofDigitChars 10 digits 0, digits.length, post, behind) := by
  rw [fraction, leadingFraction_digits all stops 0 bound, Nat.zero_add]
  exact ⟨_, rfl⟩

end

@[simp] theorem parseRounds_nil (fuel d : Nat) : parseRounds float fuel [] d = .ok d := by
  cases fuel <;> rfl

theorem parseRounds_digits {v : Nat} (bound : v ≤ 2 ^ 63)
    (stops : ∀ c ∈ behind.head?, c.isDigit = false) (fuel d : Nat) :
    parseRounds float (fuel + 1) (Nat.toDigits 10 v ++ behind) d =
      match addUnit float d v (fraction behind).1 (fraction behind).2.1 (fraction behind).2.2.2 with
      | .error err => .error err
      | .ok (d', s) => parseRounds float fuel s d' := by
  have all : ∀ c ∈ Nat.toDigits 10 v, c.isDigit = true :=
    fun c member => isDigit_of_mem_toDigits (by decide) (by decide) member
  have read := leadingInt_digits all stops (x := 0) (by rwa [ofDigitChars_ten_toDigits])
  rw [ofDigitChars_ten_toDigits] at read
  have some_digit : (Nat.toDigits 10 v).length ≠ 0 := (length_toDigits_pos).ne'
  cases text : Nat.toDigits 10 v with
  | nil => simp [text] at some_digit
  | cons c rest =>
    have digit : c.isDigit = true := all c (by rw [text]; exact (.head _))
    rw [text, cons_append] at read
    rw [cons_append, parseRounds, read, if_neg (by simp [digit])]
    dsimp only
    rw [if_neg (by simp; omega)]

end Digits

end GoTime
