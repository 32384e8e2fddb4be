import Mathlib

/- The two spellings of a field name: snake_case in Terraform, camelCase in Kubernetes.
Field names are ASCII, so upper and lower case are those of ASCII letters. -/
namespace ConfigConnector.Text

/-- Only the characters of the list are looked at. -/
instance (priority := high) decidableForallMem {P : Char → Prop} [DecidablePred P]
    (cs : List Char) :
    Decidable (∀ c ∈ cs, P c) :=
  List.decidableBAll P cs

/-- A fact about ASCII, decided for each of its characters. -/
theorem of_ascii {P : Char → Prop} (all : ∀ n : Fin 128, P (Char.ofNat n)) {c : Char}
    (ascii : c.toNat < 128) : P c :=
  Char.ofNat_toNat c ▸ all ⟨c.toNat, ascii⟩

theorem alphanum_lt {c : Char} (alphanum : c.isAlphanum) : c.toNat < 128 := by
  have last : 'Z'.toNat = 90 ∧ 'z'.toNat = 122 ∧ '9'.toNat = 57 := by decide
  simp only [Char.isAlphanum, Char.isAlpha, Char.isUpper, Char.isLower, Char.isDigit,
    Bool.or_eq_true, Bool.and_eq_true, decide_eq_true_eq, UInt32.le_iff_toNat_le] at alphanum
  simp only [Char.toNat] at last ⊢
  omega

/-- `strings.Split` by one character. -/
def split (sep : Char) : List Char → List (List Char)
  | [] => [[]]
  | c :: rest =>
    if c = sep then [] :: split sep rest
    else match split sep rest with
      | word :: words => (c :: word) :: words
      | [] => [[c]]

theorem split_ne_nil (sep : Char) (text : List Char) : split sep text ≠ [] := by
  induction text with
  | nil => simp [split]
  | cons c rest ih =>
    rw [split]
    split
    · simp
    · split <;> simp

theorem split_append (sep : Char) (first rest : List Char) :
    split sep (first ++ sep :: rest) = split sep first ++ split sep rest := by
  induction first with
  | nil => simp [split]
  | cons c first ih =>
    rw [List.cons_append, split, split, ih]
    split
    · rfl
    cases words : split sep first with
    | nil => exact absurd words (split_ne_nil sep first)
    | cons word words => rfl

theorem split_of_not_mem {sep : Char} {text : List Char} (absent : sep ∉ text) :
    split sep text = [text] := by
  induction text with
  | nil => rfl
  | cons c rest ih =>
    rw [List.mem_cons, not_or] at absent
    rw [split, if_neg (Ne.symm absent.1), ih absent.2]

/-- `strings.Join` undoes `strings.Split`. -/
theorem intercalate_split (sep : Char) (text : List Char) :
    [sep].intercalate (split sep text) = text := by
  induction text with
  | nil => rfl
  | cons c rest ih =>
    cases words : split sep rest with
    | nil => exact absurd words (split_ne_nil sep rest)
    | cons word words' =>
      rw [words] at ih
      by_cases same : c = sep
      · rw [split, if_pos same, words, List.intercalate_cons_cons, ih, same]
        rfl
      · rw [split, if_neg same, words, ← ih]
        cases words' <;> simp [List.intercalate_cons_cons]

/-- `strings.Title` behind the character `previous`: a letter behind a separator
becomes a capital. -/
def titleFrom (previous : Char) : List Char → List Char
  | [] => []
  | c :: rest =>
    (if previous.isAlphanum || previous = '_' then c else c.toUpper) :: titleFrom c rest

def title (word : List Char) : List Char := titleFrom ' ' word

/-- `snakeCaseToUpperCamelCase`, which `SnakeCaseToLowerCamelCase` is an alias of: all
words but the first get a capital. -/
def snakeCaseToLowerCamelCase (s : String) : String :=
  match split '_' s.toList with
  | [] => ""
  | first :: words => String.ofList (first ++ (words.map title).flatten)

/-- `snakeCaseRegex1.ReplaceAllString(s, "${1}_${2}")` for `(.)([A-Z][a-z]+)`. With
`inMatch` the text continues a match, which takes all the small letters there are. -/
def splitBeforeWords (inMatch : Bool) : List Char → List Char
  | c :: upper :: lower :: rest =>
    if inMatch && c.isLower then c :: splitBeforeWords true (upper :: lower :: rest)
    else if c != '\n' && upper.isUpper && lower.isLower then
      c :: '_' :: upper :: lower :: splitBeforeWords true rest
    else c :: splitBeforeWords false (upper :: lower :: rest)
  | short => short

/-- `snakeCaseRegex2.ReplaceAllString(s, "${1}_${2}")` for `([a-z0-9])([A-Z])`. -/
def splitBeforeCapitals : List Char → List Char
  | c :: upper :: rest =>
    if (c.isLower || c.isDigit) && upper.isUpper then
      c :: '_' :: upper :: splitBeforeCapitals rest
    else c :: splitBeforeCapitals (upper :: rest)
  | short => short

def asSnakeCase (s : String) : String :=
  String.ofList ((splitBeforeCapitals (splitBeforeWords false s.toList)).map Char.toLower)

example : asSnakeCase (snakeCaseToLowerCamelCase "max_ttl_in_s3") = "max_ttl_in_s3" := by decide

end ConfigConnector.Text
