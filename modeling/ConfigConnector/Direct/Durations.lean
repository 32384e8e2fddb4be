import ConfigConnector.Lib.GoTime

/- Durations as text, between the API and the Kubernetes objects. -/
namespace ConfigConnector.Direct

open GoTime List Nat

/-- `durationpb.Duration`. -/
structure Duration where
  seconds : Int
  nanos : Int
  deriving DecidableEq, Repr

namespace Duration

def total (d : Duration) : Int := d.seconds * 10 ^ 9 + d.nanos

/-- The parts have one sign, and the nanoseconds are less than a second. -/
structure Valid (d : Duration) : Prop where
  oneSign : 0 ≤ d.seconds ∧ 0 ≤ d.nanos ∨ d.seconds ≤ 0 ∧ d.nanos ≤ 0
  below : d.nanos.natAbs < 10 ^ 9

def Fits (d : Duration) : Prop := -2 ^ 63 ≤ d.total ∧ d.total < 2 ^ 63

/-- `durationpb.New`. -/
def new (d : Int) : Duration := ⟨d.tdiv (10 ^ 9), d.tmod (10 ^ 9)⟩

end Duration

/-- What the mapping context records. -/
inductive DurationError where
  | parsing (s : String) (err : ParseError)
  | mustEndInS (s : String)
  deriving DecidableEq, Repr

def durationToProto (float : FloatProduct) : Option String → Except DurationError (Option Duration)
  | none => .ok none
  | some s =>
    if s = "" then .ok none
    else if ['s'].isSuffixOf s.toList then
      match parseDuration float s.toList with
      | .error err => .error (.parsing s err)
      | .ok d => .ok (some (.new d))
    else .error (.mustEndInS s)

/-- `strconv.FormatInt` in base ten. -/
def formatInt : Int → List Char
  | .ofNat n => Nat.toDigits 10 n
  | .negSucc n => '-' :: Nat.toDigits 10 (n + 1)

/-- `strings.TrimRight(s, "0")`. -/
def trimZeros (s : List Char) : List Char := s.rdropWhile (· == '0')

/-- `none` is the panic of `strings.Repeat` with a negative count. -/
def durationFromProto : Option Duration → Option (Option String)
  | none => some none
  | some d =>
    let carried := d.nanos.tdiv (10 ^ 9)
    let s := if 0 < carried then (d.seconds + carried).bmod (2 ^ 64) else d.seconds
    let n := if 0 < carried then d.nanos.tmod (10 ^ 9) else d.nanos
    if n = 0 then some (some (String.ofList (formatInt s ++ ['s'])))
    else if 9 < (formatInt n).length then none
    else
      let nanos := List.replicate (9 - (formatInt n).length) '0' ++ formatInt n
      some (some (String.ofList (formatInt s ++ '.' :: trimZeros nanos ++ ['s'])))

variable (float : FloatProduct) {n : Nat}

/-- The text is written and read back, and no other duration has it. -/
def Lossless (d : Duration) : Prop :=
  ∃ text, durationFromProto (some d) = some (some text) ∧
    durationToProto float (some text) = .ok (some d) ∧
    ∀ other : Duration, other.Valid → other.Fits →
      durationFromProto (some other) = some (some text) → other = d

section Text

theorem digit_of_toDigits : ∀ c ∈ Nat.toDigits 10 n, c.isDigit = true :=
  fun _ member => isDigit_of_mem_toDigits (by decide) (by decide) member

theorem trimZeros_concat (s : List Char) (last : Char) :
    trimZeros (s ++ [last]) = if last = '0' then trimZeros s else s ++ [last] := by
  simp [trimZeros, rdropWhile_concat]

theorem trimZeros_append_cons (before after : List Char) {c : Char} (kept : c ≠ '0') :
    trimZeros (before ++ c :: after) = before ++ c :: trimZeros after := by
  induction after using List.reverseRecOn with
  | nil => rw [trimZeros_concat, if_neg kept]; rfl
  | append_singleton after last ih =>
    rw [← List.cons_append, ← append_assoc, trimZeros_concat, trimZeros_concat, ih]
    split <;> simp

/-- Trailing zeros do not count behind the point. -/
theorem ofDigitChars_trimZeros (digits : List Char) :
    ∃ k, (trimZeros digits).length + k = digits.length ∧
      Nat.ofDigitChars 10 (trimZeros digits) 0 * 10 ^ k = Nat.ofDigitChars 10 digits 0 := by
  induction digits using List.reverseRecOn with
  | nil => exact ⟨0, rfl, rfl⟩
  | append_singleton digits last ih =>
    rw [trimZeros_concat]
    split
    · rename_i zero
      obtain ⟨k, length, value⟩ := ih
      refine ⟨k + 1, by simp only [length_append, length_singleton]; omega, ?_⟩
      rw [Nat.pow_succ, ← Nat.mul_assoc, value, Nat.ofDigitChars_append, zero]
      simp [Nat.ofDigitChars_cons, Nat.mul_comm]
    · exact ⟨0, rfl, by simp⟩

theorem mem_of_mem_trimZeros {c : Char} {s : List Char} (member : c ∈ trimZeros s) : c ∈ s := by
  have front := rdropWhile_prefix (· = '0') s
  exact front.subset member

theorem sign_formatInt (s : Int) (behind : List Char) :
    sign (formatInt s ++ behind) = (decide (s < 0), Nat.toDigits 10 s.natAbs ++ behind) := by
  cases s with
  | ofNat v =>
    have digits := @digit_of_toDigits v
    change sign (Nat.toDigits 10 v ++ behind) = (_, Nat.toDigits 10 v ++ behind)
    cases text : Nat.toDigits 10 v with
    | nil => exact absurd text Nat.toDigits_ne_nil
    | cons c rest =>
      rw [text] at digits
      have digit := digits c (.head _)
      rw [List.cons_append, sign]
      · simp
      · rintro _ ⟨⟩
        cases digit
      · rintro _ ⟨⟩
        cases digit
  | negSucc v => simp [formatInt, sign]

theorem parseDuration_formatInt (s : Int) {behind : List Char} (more : behind ≠ []) :
    parseDuration float (formatInt s ++ behind) =
      match parseRounds float ((Nat.toDigits 10 s.natAbs).length + behind.length)
        (Nat.toDigits 10 s.natAbs ++ behind) 0 with
      | .error err => .error err
      | .ok d =>
        if s < 0 then .ok (-d) else if 2 ^ 63 - 1 < d then .error .invalid else .ok d := by
  have some_digit := @length_toDigits_pos 10 s.natAbs
  have some_more := length_pos_of_ne_nil more
  rw [parseDuration, sign_formatInt]
  dsimp only
  rw [if_neg (fun same => by have := congrArg List.length same; simp at this; omega),
    if_neg (by simp [more]), length_append]
  cases parseRounds float _ _ 0 <;> simp

/-- What follows the seconds. -/
def behindSeconds (n : Nat) : List Char :=
  if n = 0 then ['s']
  else '.' :: trimZeros (List.replicate (9 - (Nat.toDigits 10 n).length) '0' ++
    Nat.toDigits 10 n) ++ ['s']

/-- The digits behind the point are those of the nanoseconds, but for zeros at the end. -/
theorem fraction_behindSeconds (positive : n ≠ 0) (below : n < 10 ^ 9) :
    ∃ f k post, fraction (behindSeconds n) = (f, k, post, ['s']) ∧ k ≤ 9 ∧
      f * 10 ^ (9 - k) = n := by
  rw [behindSeconds, if_neg positive, List.cons_append]
  generalize digits_eq : List.replicate (9 - (Nat.toDigits 10 n).length) '0' ++
    Nat.toDigits 10 n = digits
  have length : digits.length = 9 := by
    have := (length_toDigits_le_iff (b := 10) (k := 9) (by decide) (by decide)).mpr below
    rw [← digits_eq, length_append, length_replicate]
    omega
  have value : Nat.ofDigitChars 10 digits 0 = n := by
    rw [← digits_eq, Nat.ofDigitChars_append, Nat.ofDigitChars_replicate_zero, Nat.mul_zero,
      Nat.ofDigitChars_ten_toDigits]
  have all : ∀ c ∈ trimZeros digits, c.isDigit = true := by
    intro c member
    have member := mem_of_mem_trimZeros member
    rw [← digits_eq, mem_append, mem_replicate] at member
    rcases member with ⟨-, rfl⟩ | member
    · rfl
    · exact digit_of_toDigits c member
  obtain ⟨k, cut, scaled⟩ := ofDigitChars_trimZeros digits
  rw [value] at scaled
  have bound : Nat.ofDigitChars 10 (trimZeros digits) 0 ≤ n :=
    scaled ▸ Nat.le_mul_of_pos_right _ (Nat.pow_pos (by decide))
  obtain ⟨post, read⟩ := @fraction_digits _ ['s'] all (by simp) (by omega)
  refine ⟨_, _, post, read, by omega, ?_⟩
  rwa [show 9 - (trimZeros digits).length = k by omega]

theorem addUnit_seconds {v f k : Nat} (few : k ≤ 9) (below : f * 10 ^ (9 - k) < 10 ^ 9)
    (bound : v * 10 ^ 9 + f * 10 ^ (9 - k) ≤ 2 ^ 63) :
    addUnit float 0 v f k ['s'] = .ok (v * 10 ^ 9 + f * 10 ^ (9 - k), []) := by
  have split : 10 ^ 9 = 10 ^ (9 - k) * 10 ^ k := by rw [← Nat.pow_add, Nat.sub_add_cancel few]
  have shares : 10 ^ 9 / 10 ^ k = 10 ^ (9 - k) := by
    rw [split, Nat.mul_div_cancel _ (Nat.pow_pos (by decide))]
  have exact := float.exact f (10 ^ 9) k ⟨_, split.trans (Nat.mul_comm _ _)⟩ (by decide)
    (by rw [shares]; omega)
  rw [shares] at exact
  have total : (if 0 < f then v * 10 ^ 9 + float.apply f (10 ^ 9) k else v * 10 ^ 9) =
      v * 10 ^ 9 + f * 10 ^ (9 - k) := by
    rcases Nat.eq_zero_or_pos f with rfl | positive
    · simp
    · rw [if_pos positive, exact]
  change (if 2 ^ 63 / 10 ^ 9 < v then _ else _) = _
  rw [if_neg (by omega), total, if_neg (by omega), Nat.zero_add, Nat.mod_eq_of_lt (by omega),
    if_neg (by omega)]
  rfl

theorem parseRounds_seconds {v : Nat} (below : n < 10 ^ 9) (bound : v * 10 ^ 9 + n ≤ 2 ^ 63)
    (fuel : Nat) :
    parseRounds float (fuel + 1) (Nat.toDigits 10 v ++ behindSeconds n) 0 =
      .ok (v * 10 ^ 9 + n) := by
  have stops : ∀ c ∈ (behindSeconds n).head?, c.isDigit = false := by
    rw [behindSeconds]
    split <;> simp
  rw [parseRounds_digits float (by omega) stops]
  by_cases zero : n = 0
  · subst zero
    have read : fraction (behindSeconds 0) = (0, 0, false, ['s']) := rfl
    rw [read]
    dsimp only
    rw [addUnit_seconds float (by decide) (by decide) (by omega)]
    simp
  · obtain ⟨f, k, post, read, few, scaled⟩ := fraction_behindSeconds zero below
    rw [read]
    dsimp only
    rw [addUnit_seconds float few (by omega) (by omega), scaled]
    simp

/-- A minus behind the point is read as the beginning of a unit. -/
theorem parseDuration_minus {s : Int} (bound : s.natAbs ≤ 2 ^ 63) (zeros : Nat)
    (behind : List Char) :
    ∃ err, parseDuration float
      (formatInt s ++ '.' :: (List.replicate zeros '0' ++ '-' :: behind)) = .error err := by
  have value : Nat.ofDigitChars 10 (List.replicate zeros '0') 0 = 0 := by
    rw [Nat.ofDigitChars_replicate_zero, Nat.mul_zero]
  obtain ⟨post, read⟩ := @fraction_digits (List.replicate zeros '0') ('-' :: behind)
    (by simp [mem_replicate]) (by simp) (by omega)
  have unknown : ∀ unit, unitMap.lookup ('-' :: unit) = none := by
    intro unit
    simp [unitMap, List.lookup]
  rw [parseDuration_formatInt float s (by simp), List.length_cons, ← Nat.add_assoc,
    parseRounds_digits float bound (by simp), read, addUnit,
    show ('-' :: behind).takeWhile inUnit = '-' :: behind.takeWhile inUnit from rfl, unknown]
  exact ⟨.unknownUnit ('-' :: behind.takeWhile inUnit), rfl⟩

end Text

section RoundTrip

theorem durationFromProto_of_nonneg (s : Int) (below : n < 10 ^ 9) :
    durationFromProto (some ⟨s, n⟩) =
      some (some (String.ofList (formatInt s ++ behindSeconds n))) := by
  have carried : (n : Int).tdiv (10 ^ 9) = 0 := Int.tdiv_eq_zero_of_lt (by omega) (by omega)
  have short := (length_toDigits_le_iff (b := 10) (k := 9) (by decide) (by decide)).mpr below
  rw [durationFromProto, behindSeconds]
  simp only [carried, Int.lt_irrefl, if_false, Int.natCast_eq_zero]
  split
  · rfl
  change (if 9 < (Nat.toDigits 10 n).length then none else _) = _
  rw [if_neg (by omega)]
  simp [formatInt]

theorem durationToProto_of_s (s : List Char) :
    durationToProto float (some (String.ofList (s ++ ['s']))) =
      match parseDuration float (s ++ ['s']) with
      | .error err => .error (.parsing (String.ofList (s ++ ['s'])) err)
      | .ok d => .ok (some (.new d)) := by
  rw [durationToProto, if_neg (by simp [← String.toList_inj]), String.toList_ofList,
    if_pos (isSuffixOf_iff_suffix.mpr (suffix_append s ['s']))]

/-- A fraction below zero is written with its own sign, which cannot be read. -/
theorem negative_lost {d : Duration} (valid : d.Valid) (fits : d.Fits) (negative : d.nanos < 0)
    {text : String} (written : durationFromProto (some d) = some (some text)) :
    ∃ err, durationToProto float (some text) = .error err := by
  obtain ⟨s, n⟩ := d
  obtain ⟨m, rfl⟩ : ∃ m, n = Int.negSucc m := Int.eq_negSucc_of_lt_zero negative
  have bound : s.natAbs ≤ 2 ^ 63 := by
    have oneSign := valid.oneSign
    have lower := fits.1
    rw [Duration.total] at lower
    dsimp only at oneSign lower negative
    omega
  have carried : ¬ 0 < (Int.negSucc m).tdiv (10 ^ 9) := by
    rw [Int.negSucc_eq, Int.neg_tdiv]
    have := Int.tdiv_nonneg (a := m + 1) (b := 10 ^ 9) (by omega) (by decide)
    omega
  rw [durationFromProto] at written
  simp only [carried, if_false] at written
  rw [if_neg (by omega)] at written
  split at written
  · cases written
  rw [formatInt, trimZeros_append_cons _ _ (by decide), Option.some.injEq,
    Option.some.injEq] at written
  obtain ⟨err, failed⟩ := parseDuration_minus float (s := s) bound
    (9 - ('-' :: Nat.toDigits 10 (m + 1)).length) (trimZeros (Nat.toDigits 10 (m + 1)) ++ ['s'])
  rw [← written, durationToProto_of_s]
  simp only [append_assoc, List.cons_append] at failed ⊢
  rw [failed]
  exact ⟨_, rfl⟩

theorem read_back {s : Int} (below : n < 10 ^ 9) (oneSign : s < 0 → n = 0)
    (fits : Duration.Fits ⟨s, n⟩) :
    durationToProto float (some (String.ofList (formatInt s ++ behindSeconds n))) =
      .ok (some ⟨s, n⟩) := by
  obtain ⟨lower, upper⟩ := fits
  rw [Duration.total] at lower upper
  dsimp only at lower upper
  obtain ⟨front, ends⟩ : ∃ front, behindSeconds n = front ++ ['s'] := by
    rw [behindSeconds]
    split
    · exact ⟨[], rfl⟩
    · exact ⟨_, rfl⟩
  have long : behindSeconds n ≠ [] := by simp [ends]
  have some_more := length_pos_of_ne_nil long
  obtain ⟨fuel, fuel_eq⟩ : ∃ fuel, (Nat.toDigits 10 s.natAbs).length + (behindSeconds n).length =
      fuel + 1 := ⟨_, (succ_pred (by omega)).symm⟩
  have parsed := parseDuration_formatInt float s long
  rw [fuel_eq, parseRounds_seconds float below (by omega)] at parsed
  rw [ends, ← append_assoc] at parsed ⊢
  rw [durationToProto_of_s, parsed]
  dsimp only
  by_cases below_zero : s < 0
  · have back : -((s.natAbs * 10 ^ 9 + n : Nat) : Int) = s * 10 ^ 9 := by
      have := oneSign below_zero
      omega
    simp only [if_pos below_zero, back, Duration.new]
    rw [Int.mul_tdiv_cancel _ (by decide), Int.mul_tmod_left, oneSign below_zero]
    rfl
  · have back : ((s.natAbs * 10 ^ 9 + n : Nat) : Int) = n + s * 10 ^ 9 := by omega
    rw [if_neg below_zero, if_neg (by omega), back]
    simp only [Duration.new]
    rw [Int.tdiv_eq_ediv_of_nonneg (by omega), Int.tmod_eq_emod_of_nonneg (by omega),
      Int.add_mul_ediv_right _ _ (by decide), Int.add_mul_emod_self_right,
      Int.ediv_eq_zero_of_lt (by omega) (by omega), Int.emod_eq_of_lt (by omega) (by omega),
      Int.zero_add]

/-- Text keeps a duration exactly when its nanoseconds are not below zero. -/
theorem duration_lossless_iff (d : Duration) (valid : d.Valid) (fits : d.Fits) :
    Lossless float d ↔ 0 ≤ d.nanos := by
  constructor
  · rintro ⟨text, written, read, -⟩
    by_contra negative
    obtain ⟨err, lost⟩ := negative_lost float valid fits (by omega) written
    rw [lost] at read
    cases read
  · intro nonneg
    have back : ∀ d : Duration, d.Valid → d.Fits → 0 ≤ d.nanos →
        ∃ text, durationFromProto (some d) = some (some text) ∧
          durationToProto float (some text) = .ok (some d) := by
      rintro ⟨s, n⟩ ⟨oneSign, below⟩ fits nonneg
      obtain ⟨n, rfl⟩ := Int.eq_ofNat_of_zero_le nonneg
      dsimp only at oneSign below
      exact ⟨_, durationFromProto_of_nonneg s (by omega),
        read_back float (by omega) (by omega) fits⟩
    obtain ⟨text, written, read⟩ := back d valid fits nonneg
    refine ⟨text, written, read, ?_⟩
    intro other valid' fits' same
    by_cases negative : other.nanos < 0
    · obtain ⟨err, lost⟩ := negative_lost float valid' fits' negative same
      rw [lost] at read
      cases read
    obtain ⟨text', written', read'⟩ := back other valid' fits' (by omega)
    cases written'.symm.trans same
    cases read'.symm.trans read
    rfl

/-- Products that are never rounded. -/
def exactProduct : FloatProduct := ⟨fun f unit k => f * (unit / 10 ^ k), fun _ _ _ _ _ _ => rfl⟩

theorem second_and_a_half_lossless :
    Duration.Valid ⟨1, 500000000⟩ ∧ Duration.Fits ⟨1, 500000000⟩ ∧
      Lossless exactProduct ⟨1, 500000000⟩ := by
  have valid : Duration.Valid ⟨1, 500000000⟩ := ⟨by decide, by decide⟩
  have fits : Duration.Fits ⟨1, 500000000⟩ := ⟨by decide, by decide⟩
  exact ⟨valid, fits, (duration_lossless_iff exactProduct _ valid fits).mpr (by decide)⟩

/-- The code panics for half a second below zero. -/
theorem minus_half_second_panics :
    Duration.Valid ⟨0, -500000000⟩ ∧ Duration.Fits ⟨0, -500000000⟩ ∧
      durationFromProto (some ⟨0, -500000000⟩) = none ∧
        ¬ Lossless exactProduct ⟨0, -500000000⟩ := by
  have panics : durationFromProto (some ⟨0, -500000000⟩) = none := by decide
  refine ⟨⟨by decide, by decide⟩, ⟨by decide, by decide⟩, panics, ?_⟩
  rintro ⟨text, written, -⟩
  cases panics.symm.trans written

end RoundTrip

end ConfigConnector.Direct
