import ConfigConnector.Text.Case

/- The object name made of a free text. The text is cut last, behind the step that looks
after its first and last character. -/
namespace ConfigConnector.K8s

open List Text

/-- The punctuation of ASCII as Unicode has it: `$`, `+`, `<`, `=`, `>`, `^`, `|`, `~` and
the grave accent are symbols. -/
def asciiPunctuation : List Char := "!\"#%&'()*,-./:;?@[\\]_\x7b\x7d".toList

/-- The tables of Go's `unicode` package that are read here. Nothing is said of them outside
ASCII: some letters there, such as the Kelvin sign, have a small letter in ASCII. -/
structure UnicodeTables where
  toLower : Char → Char
  isPunct : Char → Bool
  isLetter : Char → Bool
  isNumber : Char → Bool
  toLower_ascii : ∀ r : Char, r.toNat < 128 → toLower r = r.toLower
  isPunct_ascii : ∀ r : Char, r.toNat < 128 → isPunct r = asciiPunctuation.contains r
  isLetter_ascii : ∀ r : Char, r.toNat < 128 → isLetter r = r.isAlpha
  isNumber_ascii : ∀ r : Char, r.toNat < 128 → isNumber r = r.isDigit

def maxSubdomainLength : Nat := 253

def isLegalPunctuation (r : Char) : Bool := r == '-' || r == '.'

/-- The complement of `notLegalRegex`. -/
def isLegal (r : Char) : Bool := r.isLower || r.isDigit || isLegalPunctuation r

/-- `notLegalRegex.ReplaceAllString(value, "")`. -/
def toAlphaNumeric (value : List Char) : List Char := value.filter isLegal

namespace UnicodeTables

variable (tables : UnicodeTables)

def replaceIllegalPunctuation (value : List Char) : List Char :=
  value.map fun r => if tables.isPunct r then if !isLegalPunctuation r then '-' else r else r

def isAlphaNumeric (r : Char) : Bool := tables.isLetter r || tables.isNumber r

def ensureFirstAndLastCharactersAreAlphaNumeric (runes : List Char) : List Char :=
  match runes with
  | [] => ['a']
  | first :: rest =>
    let value := if !tables.isAlphaNumeric first then 'a' :: runes else runes
    if !tables.isAlphaNumeric ((first :: rest).getLast (by simp)) then value ++ ['a'] else value

/-- Only ASCII is left when the text is cut, so its bytes are its characters. -/
def valueToDNSSubdomainName (value : String) : String :=
  let value := value.toList.map tables.toLower
  let value := tables.replaceIllegalPunctuation value
  let value := toAlphaNumeric value
  let value := tables.ensureFirstAndLastCharactersAreAlphaNumeric value
  String.ofList (if value.length > maxSubdomainLength then value.take maxSubdomainLength else value)

end UnicodeTables

/-- A DNS subdomain name, by the rules that the comment of the function lists. -/
structure IsDNSSubdomainName (name : String) : Prop where
  notEmpty : 1 ≤ name.toList.length
  notLong : name.toList.length ≤ 253
  legal : ∀ c ∈ name.toList, c.isLower ∨ c.isDigit ∨ c = '-' ∨ c = '.'
  first : ∀ c, name.toList.head? = some c → c.isLower ∨ c.isDigit
  last : ∀ c, name.toList.getLast? = some c → c.isLower ∨ c.isDigit

namespace UnicodeTables

variable (tables : UnicodeTables) (value : String)

section Kept

/-- What becomes of one character of the text. -/
def keptRune (r : Char) : Option Char :=
  let lower := tables.toLower r
  if isLegal lower then some lower else if tables.isPunct lower then some '-' else none

/-- What is kept of the text. -/
def kept (value : String) : List Char := value.toList.filterMap tables.keptRune

/-- The character at which the name is cut, counted in what is kept of the text, is missing
or a letter or digit. In front of a `-` or `.` comes one letter more. -/
def CutBehindAlphaNumeric (value : String) : Prop :=
  let position := if (tables.kept value).head?.any isLegalPunctuation then 251 else 252
  ((tables.kept value)[position]?).any isLegalPunctuation = false

instance (value : String) : Decidable (tables.CutBehindAlphaNumeric value) :=
  inferInstanceAs (Decidable (_ = _))

variable {c : Char}

theorem legal_lt (legal : isLegal c) : c.toNat < 128 := by
  simp only [isLegal, isLegalPunctuation, Bool.or_eq_true, beq_iff_eq] at legal
  rcases legal with alphanum | rfl | rfl
  · exact alphanum_lt (by grind [Char.isAlphanum, Char.isAlpha])
  · decide
  · decide

theorem isAlphaNumeric_legal (legal : isLegal c) :
    tables.isAlphaNumeric c = !isLegalPunctuation c := by
  have ascii := legal_lt legal
  rw [isAlphaNumeric, tables.isLetter_ascii c ascii, tables.isNumber_ascii c ascii]
  revert legal
  exact of_ascii (P := fun c => isLegal c = true → (c.isAlpha || c.isDigit) = !isLegalPunctuation c)
    (by decide) ascii

theorem isPunct_legal (legal : isLegal c) (punct : tables.isPunct c) : isLegalPunctuation c := by
  have ascii := legal_lt legal
  rw [tables.isPunct_ascii c ascii] at punct
  revert legal punct
  exact of_ascii (P := fun c => isLegal c = true → asciiPunctuation.contains c = true →
    isLegalPunctuation c = true) (by decide) ascii

theorem keptRune_legal (legal : isLegal c) : tables.keptRune c = some c := by
  have ascii := legal_lt legal
  have lower : tables.toLower c = c := by
    rw [tables.toLower_ascii c ascii]
    revert legal
    exact of_ascii (P := fun c => isLegal c = true → c.toLower = c) (by decide) ascii
  rw [keptRune, lower, if_pos legal]

theorem legal_of_keptRune {r : Char} (keeps : tables.keptRune r = some c) : isLegal c := by
  rw [keptRune] at keeps
  split at keeps
  · rename_i legal
    rwa [← Option.some.inj keeps]
  split at keeps
  · rw [← Option.some.inj keeps]
    decide
  · cases keeps

theorem legal_of_kept {value : String} (member : c ∈ tables.kept value) : isLegal c := by
  obtain ⟨r, _, keeps⟩ := mem_filterMap.mp member
  exact tables.legal_of_keptRune keeps

/-- The replacement of a rune and the filter behind it, for one rune. -/
theorem filter_replaced (r : Char) :
    [if tables.isPunct r then if !isLegalPunctuation r then '-' else r else r].filter isLegal =
      (if isLegal r then some r else if tables.isPunct r then some '-' else none).toList := by
  cases legal : isLegal r with
  | true =>
    cases punct : tables.isPunct r with
    | true => simp [tables.isPunct_legal legal punct, legal]
    | false => simp [legal]
  | false =>
    have other : isLegalPunctuation r = false := by
      simp only [isLegal, Bool.or_eq_false_iff] at legal
      exact legal.2
    have hyphen : isLegal '-' = true := by decide
    cases punct : tables.isPunct r with
    | true => simp [other, hyphen]
    | false => simp [legal]

/-- The first three steps together. -/
theorem steps_eq_kept :
    toAlphaNumeric (tables.replaceIllegalPunctuation (value.toList.map tables.toLower)) =
      tables.kept value := by
  rw [kept, toAlphaNumeric, replaceIllegalPunctuation, List.map_map]
  induction value.toList with
  | nil => rfl
  | cons r rest ih =>
    have step := tables.filter_replaced (tables.toLower r)
    rw [map_cons, ← singleton_append, filter_append, ih, Function.comp, step,
      filterMap_cons]
    change (tables.keptRune r).toList ++ _ = _
    cases tables.keptRune r <;> rfl

theorem kept_of_legal {text : List Char} (legal : ∀ c ∈ text, isLegal c) :
    tables.kept (String.ofList text) = text := by
  rw [kept, String.toList_ofList, filterMap_congr fun c member =>
    tables.keptRune_legal (legal c member)]
  exact filterMap_some

end Kept

section Padding

/-- The text behind the letter it gets in front. -/
def front (text : List Char) : List Char :=
  if text.head?.any isLegalPunctuation then 'a' :: text else text

/-- The letter that the text gets at its end. -/
def back (text : List Char) : List Char :=
  if text.getLast?.all isLegalPunctuation then ['a'] else []

theorem ensure_eq {text : List Char} (legal : ∀ c ∈ text, isLegal c) :
    tables.ensureFirstAndLastCharactersAreAlphaNumeric text = front text ++ back text := by
  cases text with
  | nil => rfl
  | cons first rest =>
    have atFirst := tables.isAlphaNumeric_legal (legal first (.head _))
    have atLast := tables.isAlphaNumeric_legal (legal _ (getLast_mem (l := first :: rest)
      (by simp)))
    rw [ensureFirstAndLastCharactersAreAlphaNumeric, front, back,
      List.getLast?_eq_getLast_of_ne_nil (by simp)]
    simp only [atFirst, atLast, Bool.not_not, List.head?_cons, Option.any_some, Option.all_some]
    split
    · rfl
    · exact (append_nil _).symm

theorem front_getElem (text : List Char) :
    (front text)[252]? = text[if text.head?.any isLegalPunctuation then 251 else 252]? := by
  rw [front]
  split <;> rfl

theorem front_first (text : List Char) :
    (front text ++ back text).head?.any isLegalPunctuation = false := by
  rw [front]
  split
  · rfl
  rename_i plain
  cases text with
  | nil => rfl
  | cons first rest => simpa using plain

theorem length_pos_padded (text : List Char) : 1 ≤ (front text ++ back text).length := by
  cases text with
  | nil => decide
  | cons first rest =>
    rw [List.length_append, front]
    split <;> simp only [length_cons] <;> omega

/-- The last character of the name: the cut takes the 253rd character of the text with its
letter in front, whatever follows. -/
theorem last_punctuation (text : List Char) :
    ((front text ++ back text).take 253).getLast?.any isLegalPunctuation =
      (front text)[252]?.any isLegalPunctuation := by
  rw [List.getLast?_take, if_neg (by decide)]
  by_cases long : 252 < (front text).length
  · rw [List.getElem?_append_left long, List.getElem?_eq_getElem long]
    rfl
  rw [List.getElem?_eq_none (show (front text).length ≤ 252 by omega), Option.any_none]
  have lastEnds : (front text ++ back text).getLast?.any isLegalPunctuation = false := by
    rw [back]
    split
    · simp [show isLegalPunctuation 'a' = false by decide]
    rename_i plain
    cases text with
    | nil => exact absurd rfl plain
    | cons first rest =>
      rw [append_nil, front]
      simp only [List.getLast?_cons, Option.all_some, Bool.not_eq_true] at plain
      split <;> simpa [List.getLast?_cons] using plain
  -- The text is not cut; the 253rd character can only be the letter at its end.
  by_cases full : 252 < (front text ++ back text).length
  · have ends : (front text ++ back text)[252]? = (front text ++ back text).getLast? := by
      have size : (front text ++ back text).length = 253 := by
        have one : (back text).length ≤ 1 := by rw [back]; split <;> simp
        rw [List.length_append] at full ⊢
        omega
      rw [List.getLast?_eq_getElem?, size]
    rw [ends, Option.or_self, lastEnds]
  · rw [List.getElem?_eq_none (by omega), Option.none_or, lastEnds]

end Padding

section Names

variable {text : List Char}

theorem legal_padded (legal : ∀ c ∈ text, isLegal c) :
    ∀ c ∈ front text ++ back text, isLegal c := by
  intro c member
  have letter : isLegal 'a' = true := by decide
  rw [mem_append, front, back] at member
  rcases member with inFront | inBack
  · split at inFront
    · rcases mem_cons.mp inFront with rfl | inText
      · exact letter
      · exact legal c inText
    · exact legal c inFront
  · split at inBack
    · rwa [mem_singleton.mp inBack]
    · cases inBack

theorem valueToDNSSubdomainName_eq :
    tables.valueToDNSSubdomainName value =
      String.ofList ((front (tables.kept value) ++ back (tables.kept value)).take 253) := by
  rw [valueToDNSSubdomainName, tables.steps_eq_kept, tables.ensure_eq fun c => tables.legal_of_kept]
  split
  · rfl
  · rename_i short
    rw [take_of_length_le (by simpa [maxSubdomainLength] using short)]

theorem alphanumeric_iff {c : Char} (legal : isLegal c) :
    c.isLower ∨ c.isDigit ↔ isLegalPunctuation c = false := by
  have ascii := legal_lt legal
  revert legal
  exact of_ascii (P := fun c => isLegal c = true →
    (c.isLower ∨ c.isDigit ↔ isLegalPunctuation c = false)) (by decide) ascii

/-- A text of legal characters is a name if it neither begins nor ends with punctuation. -/
theorem isDNSSubdomainName_iff (legal : ∀ c ∈ text, isLegal c)
    (notEmpty : 1 ≤ text.length) (notLong : text.length ≤ 253)
    (first : text.head?.any isLegalPunctuation = false) :
    IsDNSSubdomainName (String.ofList text) ↔ text.getLast?.any isLegalPunctuation = false := by
  constructor
  · intro name
    cases found : text.getLast? with
    | none => rfl
    | some c =>
      have ends := name.last c (by rw [String.toList_ofList, found])
      exact (alphanumeric_iff (legal c (List.mem_of_getLast? found))).mp ends
  · intro last
    refine ⟨?_, ?_, ?_, ?_, ?_⟩ <;> rw [String.toList_ofList]
    · exact notEmpty
    · exact notLong
    · intro c member
      simpa [isLegal, isLegalPunctuation, or_assoc] using legal c member
    · intro c found
      rw [found] at first
      exact (alphanumeric_iff (legal c (List.mem_of_head? found))).mpr first
    · intro c found
      rw [found] at last
      exact (alphanumeric_iff (legal c (List.mem_of_getLast? found))).mpr last

theorem legal_taken :
    ∀ c ∈ (front (tables.kept value) ++ back (tables.kept value)).take 253, isLegal c :=
  fun c member => legal_padded (fun _ => tables.legal_of_kept) c (mem_of_mem_take member)

/-- A text that begins with a letter or digit stays as it is, if only one of full length ends
with punctuation: the letter it gets at its end is cut off again. -/
theorem take_padded (notEmpty : 1 ≤ text.length) (notLong : text.length ≤ 253)
    (first : text.head?.any isLegalPunctuation = false)
    (last : text.getLast?.any isLegalPunctuation → text.length = 253) :
    (front text ++ back text).take 253 = text := by
  rw [front, if_neg (by simp [first]), back]
  split
  · rename_i ends
    obtain ⟨c, found⟩ := Option.isSome_iff_exists.mp
      (List.getLast?_isSome.mpr (length_pos_iff.mp notEmpty))
    have full : text.length = 253 := last (by rwa [found] at ends ⊢)
    rw [← full, take_left]
  · rw [append_nil, take_of_length_le notLong]

theorem length_of_last_punctuation (text : List Char)
    (ends : ((front text ++ back text).take 253).getLast?.any isLegalPunctuation) :
    ((front text ++ back text).take 253).length = 253 := by
  rw [last_punctuation] at ends
  have long : 252 < (front text).length := by
    by_contra short
    rw [List.getElem?_eq_none (by omega)] at ends
    cases ends
  rw [length_take, List.length_append]
  omega

theorem first_taken (text : List Char) :
    ((front text ++ back text).take 253).head?.any isLegalPunctuation = false := by
  rw [List.head?_take, if_neg (by decide), front_first]

theorem length_pos_taken (text : List Char) : 1 ≤ ((front text ++ back text).take 253).length := by
  have notEmpty := length_pos_padded text
  rw [length_take]
  omega

theorem valueToDNSSubdomainName_idempotent :
    tables.valueToDNSSubdomainName (tables.valueToDNSSubdomainName value) =
      tables.valueToDNSSubdomainName value := by
  rw [tables.valueToDNSSubdomainName_eq (tables.valueToDNSSubdomainName value),
    tables.valueToDNSSubdomainName_eq value, tables.kept_of_legal (tables.legal_taken value)]
  rw [take_padded (length_pos_taken _) (length_take_le _ _) (first_taken _)
    (length_of_last_punctuation _)]

/-- The name is a DNS subdomain name exactly if the text is not cut behind punctuation. -/
theorem valueToDNSSubdomainName_name_iff (value : String) :
    (IsDNSSubdomainName (tables.valueToDNSSubdomainName value) ∧
        tables.valueToDNSSubdomainName (tables.valueToDNSSubdomainName value) =
          tables.valueToDNSSubdomainName value) ↔
      tables.CutBehindAlphaNumeric value := by
  rw [and_iff_left (tables.valueToDNSSubdomainName_idempotent value),
    tables.valueToDNSSubdomainName_eq value,
    isDNSSubdomainName_iff (tables.legal_taken value) (length_pos_taken _)
      (length_take_le _ _) (first_taken _),
    last_punctuation, front_getElem]
  rfl

/-- The tables with ASCII in them and nothing else. -/
def ascii : UnicodeTables where
  toLower := Char.toLower
  isPunct := asciiPunctuation.contains
  isLetter := Char.isAlpha
  isNumber := Char.isDigit
  toLower_ascii := fun _ _ => rfl
  isPunct_ascii := fun _ _ => rfl
  isLetter_ascii := fun _ _ => rfl
  isNumber_ascii := fun _ _ => rfl

/-- 252 letters, a hyphen and one more letter: the hyphen becomes the last character. -/
theorem name_ends_with_hyphen :
    ¬ IsDNSSubdomainName (ascii.valueToDNSSubdomainName
      (String.ofList (List.replicate 252 'a' ++ ['-', 'b']))) := by
  have legal : ∀ c ∈ List.replicate 252 'a' ++ ['-', 'b'], isLegal c := by decide +kernel
  rw [ascii.valueToDNSSubdomainName_eq, isDNSSubdomainName_iff (ascii.legal_taken _)
    (length_pos_taken _) (length_take_le _ _) (first_taken _), last_punctuation, front_getElem,
    ascii.kept_of_legal legal]
  decide +kernel

example : ascii.valueToDNSSubdomainName "-value." = "a-value.a" := by decide +kernel

end Names

end UnicodeTables

end ConfigConnector.K8s
