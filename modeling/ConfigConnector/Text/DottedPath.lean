import ConfigConnector.Text.Case

/- Dotted paths of field names: the camel case of a whole path against that of its parts.
`strings.Title` takes a dot for the end of a word. -/
namespace ConfigConnector.Text

open List

/-- `strings.Split(path, ".")`. -/
def components (path : String) : List String := (split '.' path.toList).map String.ofList

/-- Camel-casing in one pass. With `capitals` an underscore was met, and a letter behind a
separator becomes a capital. -/
def camelFrom (capitals : Bool) (previous : Char) : List Char → List Char
  | [] => []
  | c :: rest =>
    if c = '_' then camelFrom true ' ' rest
    else (if capitals && !(previous.isAlphanum || previous = '_') then c.toUpper else c) ::
      camelFrom capitals c rest

/-- The camel case of a name on its own. -/
def camel (name : List Char) : List Char := camelFrom false ' ' name

variable (capitals : Bool)

theorem camelFrom_eq (previous : Char) (text first : List Char) (words : List (List Char))
    (parts : split '_' text = first :: words) :
    camelFrom capitals previous text =
      (if capitals then titleFrom previous first else first) ++ (words.map title).flatten := by
  induction text generalizing capitals previous first words with
  | nil =>
    simp only [split, List.cons.injEq] at parts
    simp [← parts.1, ← parts.2, camelFrom, titleFrom]
  | cons c rest ih =>
    obtain ⟨word, others, below⟩ := exists_cons_of_ne_nil (split_ne_nil '_' rest)
    rw [split] at parts
    rw [camelFrom]
    by_cases underscore : c = '_'
    · rw [if_pos underscore, below, List.cons.injEq] at parts
      rw [if_pos underscore, ih true ' ' word others below, ← parts.1, ← parts.2]
      simp [titleFrom, title]
    rw [if_neg underscore, below] at parts
    simp only [List.cons.injEq] at parts
    rw [if_neg underscore, ih capitals c word others below, ← parts.1, ← parts.2]
    cases capitals with
    | false => simp
    | true =>
      cases joined : previous.isAlphanum || decide (previous = '_') <;>
        simp [titleFrom, joined]

theorem snakeCaseToLowerCamelCase_eq (s : String) :
    snakeCaseToLowerCamelCase s = String.ofList (camel s.toList) := by
  obtain ⟨first, words, parts⟩ := exists_cons_of_ne_nil (split_ne_nil '_' s.toList)
  rw [snakeCaseToLowerCamelCase, camel, camelFrom_eq false ' ' _ first words parts, parts]
  simp

section Characters

variable {c : Char}

theorem toUpper_of_lower (lower : c.isLower) :
    c.toUpper ≠ '.' ∧ c.toUpper ≠ c ∧ c.toUpper.isUpper := by
  have ascii : c.toNat < 128 := alphanum_lt (by simp [Char.isAlphanum, Char.isAlpha, lower])
  revert lower
  exact of_ascii (P := fun c => c.isLower = true → c.toUpper ≠ '.' ∧ c.toUpper ≠ c ∧
    c.toUpper.isUpper = true) (by decide) ascii

theorem toUpper_of_not_lower (other : c.isLower = false) : c.toUpper = c := by
  rw [Char.toUpper]
  split
  · rename_i lower
    have isLower : c.isLower = true :=
      Bool.and_eq_true_iff.mpr ⟨decide_eq_true lower.1, decide_eq_true lower.2⟩
    rw [isLower] at other
    cases other
  · rfl

theorem toUpper_ne_dot (other : c ≠ '.') : c.toUpper ≠ '.' := by
  cases lower : c.isLower with
  | true => exact (toUpper_of_lower lower).1
  | false => rwa [toUpper_of_not_lower lower]

end Characters

section Parts

/-- What camel-casing a whole path makes of its parts: an underscore in one part has an
effect on all later ones. -/
def camelParts (capitals : Bool) (previous : Char) : List (List Char) → List (List Char)
  | [] => []
  | part :: rest =>
    camelFrom capitals previous part :: camelParts (capitals || part.contains '_') '.' rest

theorem split_camelFrom (previous : Char) (text : List Char) :
    split '.' (camelFrom capitals previous text) =
      camelParts capitals previous (split '.' text) := by
  induction text generalizing capitals previous with
  | nil => rfl
  | cons c rest ih =>
    obtain ⟨part, others, below⟩ := exists_cons_of_ne_nil (split_ne_nil '.' rest)
    by_cases underscore : c = '_'
    · subst underscore
      have next := ih true ' '
      rw [below] at next
      rw [camelFrom, if_pos rfl, next, split, if_neg (by decide), below]
      simp [camelParts, camelFrom]
    · rw [camelFrom, if_neg underscore]
      by_cases dot : c = '.'
      · subst dot
        have kept : (if capitals && !(previous.isAlphanum || previous = '_') then
            Char.toUpper '.' else '.') = '.' := by split <;> rfl
        rw [kept, split, if_pos rfl, ih, split, if_pos rfl]
        simp [camelParts, camelFrom]
      · have notDot : (if capitals && !(previous.isAlphanum || previous = '_') then
            c.toUpper else c) ≠ '.' := by
          split
          · exact toUpper_ne_dot dot
          · exact dot
        have next := ih capitals c
        rw [below] at next
        rw [split, if_neg notDot, next, split, if_neg dot, below]
        simp [camelParts, camelFrom, underscore, Ne.symm underscore]

/-- A name of letters, digits and underscores. -/
def isSnakeCase (name : List Char) : Bool :=
  name.all fun c => c.isLower || c.isDigit || c = '_'

theorem isAlphanum_of_snake {c : Char} (char : (c.isLower || c.isDigit || decide (c = '_')))
    (other : c ≠ '_') : c.isAlphanum := by
  simp only [other, decide_false, Bool.or_false, Bool.or_eq_true] at char
  simp only [Char.isAlphanum, Char.isAlpha, Bool.or_eq_true]
  tauto

theorem camelFrom_false (previous other : Char) (name : List Char) :
    camelFrom false previous name = camelFrom false other name := by
  induction name generalizing previous other with
  | nil => rfl
  | cons c rest ih => simp [camelFrom]

theorem camelFrom_inside {previous : Char} {name : List Char} (snake : isSnakeCase name)
    (inside : previous.isAlphanum) : camelFrom true previous name = camel name := by
  induction name generalizing previous with
  | nil => rfl
  | cons c rest ih =>
    simp only [isSnakeCase, all_cons, Bool.and_eq_true] at snake
    by_cases underscore : c = '_'
    · simp [camel, camelFrom, underscore]
    have alphanum := isAlphanum_of_snake snake.1 underscore
    rw [camelFrom, if_neg underscore, ih snake.2 alphanum]
    simp [camel, camelFrom, underscore, inside, camelFrom_false c ' ']

/-- The name begins with a small letter. -/
def startsLower (name : List Char) : Bool := name.head?.any Char.isLower

/-- Behind a dot, a small letter becomes a capital once an underscore was met. -/
theorem camelFrom_dot_iff {name : List Char} (snake : isSnakeCase name) (capitals : Bool) :
    camelFrom capitals '.' name = camel name ↔ ¬ (capitals ∧ startsLower name) := by
  cases capitals with
  | false => simp [camel, camelFrom_false '.' ' ']
  | true =>
    cases name with
    | nil => simp [camel, camelFrom, startsLower]
    | cons c rest =>
      simp only [isSnakeCase, all_cons, Bool.and_eq_true] at snake
      by_cases underscore : c = '_'
      · subst underscore
        simp [camel, camelFrom, startsLower, Char.isLower]
      have alphanum := isAlphanum_of_snake snake.1 underscore
      have dot : ('.'.isAlphanum || decide ('.' = '_')) = false := by decide
      rw [camelFrom, if_neg underscore, dot, camelFrom_inside snake.2 alphanum, camel, camel,
        camelFrom, if_neg underscore, camelFrom_false c ' ']
      cases lower : c.isLower with
      | true => simp [startsLower, lower, (toUpper_of_lower lower).2.1]
      | false => simp [startsLower, lower, toUpper_of_not_lower lower]

theorem camelParts_dot_iff (parts : List (List Char)) (snake : ∀ part ∈ parts, isSnakeCase part) :
    camelParts capitals '.' parts = parts.map camel ↔
      (capitals → ∀ part ∈ parts, startsLower part = false) ∧
        parts.Pairwise fun earlier later => '_' ∈ earlier → startsLower later = false := by
  induction parts generalizing capitals with
  | nil => simp [camelParts]
  | cons part rest ih =>
    have first := camelFrom_dot_iff (snake part (by simp)) capitals
    have others := ih (capitals || part.contains '_')
      fun other member => snake other (.tail _ member)
    rw [camelParts, map_cons, List.cons.injEq, first, others, List.pairwise_cons]
    cases capitals <;> simp <;> grind

/-- The name begins with a capital. -/
def startsUpper (name : List Char) : Bool := name.head?.any Char.isUpper

/-- Where the two differ first, the camel case of the whole path has a capital. -/
theorem camelParts_dot_cases (parts : List (List Char)) (snake : ∀ part ∈ parts, isSnakeCase part) :
    camelParts capitals '.' parts = parts.map camel ∨
      ∃ before part after name rest, parts = before ++ part :: after ∧
        camelParts capitals '.' parts = before.map camel ++ name :: rest ∧
        startsUpper name := by
  induction parts generalizing capitals with
  | nil => exact .inl rfl
  | cons part parts ih =>
    by_cases plain : camelFrom capitals '.' part = camel part
    · rw [camelParts, plain]
      rcases ih (capitals || part.contains '_') fun other member =>
        snake other (.tail _ member) with same | ⟨before, next, after, name, rest,
          rfl, differs, upper⟩
      · exact .inl (by rw [same, map_cons])
      · exact .inr ⟨part :: before, next, after, name, rest, rfl, by rw [differs]; rfl, upper⟩
    · have changed := (not_iff_not.mpr (camelFrom_dot_iff (snake part (.head _))
        capitals)).mp plain
      obtain ⟨rfl, lower⟩ := not_not.mp changed
      cases part with
      | nil => cases lower
      | cons c chars =>
        have letter : c.isLower = true := by simpa [startsLower] using lower
        have notUnderscore : c ≠ '_' := by
          rintro rfl
          cases letter
        refine .inr ⟨[], c :: chars, parts, _, _, rfl, rfl, ?_⟩
        have dot : ('.'.isAlphanum || decide ('.' = '_')) = false := by decide
        rw [camelFrom, if_neg notUnderscore, dot]
        exact (toUpper_of_lower letter).2.2

theorem camelParts_dropLast (previous : Char) (parts : List (List Char)) :
    (camelParts capitals previous parts).dropLast =
      camelParts capitals previous parts.dropLast := by
  induction parts generalizing capitals previous with
  | nil => rfl
  | cons part rest ih =>
    cases rest with
    | nil => rfl
    | cons next rest =>
      have below := ih (capitals || part.contains '_') '.'
      exact congrArg (camelFrom capitals previous part :: ·) below

/-- No part that begins with a letter follows one that has an underscore. -/
def keepsCase (parts : List String) : Prop :=
  parts.Pairwise fun earlier later =>
    '_' ∈ earlier.toList → startsLower later.toList = false

instance (parts : List String) : Decidable (keepsCase parts) :=
  inferInstanceAs (Decidable (List.Pairwise _ _))

section

variable (parts : List (List Char)) (snake : ∀ part ∈ parts, isSnakeCase part)
include snake

theorem camelParts_iff :
    camelParts false ' ' parts = parts.map camel ↔ keepsCase (parts.map String.ofList) := by
  cases parts with
  | nil => simp [camelParts, keepsCase]
  | cons first rest =>
    have others := camelParts_dot_iff (first.contains '_') rest
      fun part member => snake part (.tail _ member)
    change camel first :: camelParts (false || first.contains '_') '.' rest =
      camel first :: rest.map camel ↔ _
    rw [List.cons.injEq, Bool.false_or, others, keepsCase, List.pairwise_map]
    simp only [String.toList_ofList, List.pairwise_cons, List.contains_eq_mem, decide_eq_true_eq,
      true_and]
    exact and_congr_left fun _ => ⟨fun all part member seen => all seen part member,
      fun all seen part member => all part member seen⟩

theorem camelParts_cases :
    camelParts false ' ' parts = parts.map camel ∨
      ∃ before part after name rest, parts = before ++ part :: after ∧
        camelParts false ' ' parts = before.map camel ++ name :: rest ∧
        startsUpper name := by
  cases parts with
  | nil => exact .inl rfl
  | cons first parts =>
    rcases camelParts_dot_cases (first.contains '_') parts fun part member =>
      snake part (.tail _ member) with same | ⟨before, next, after, name, rest,
        rfl, differs, upper⟩
    · exact .inl (congrArg (camel first :: ·) same)
    · exact .inr ⟨first :: before, next, after, name, rest, rfl,
        congrArg (camel first :: ·) differs, upper⟩

end

theorem components_camelCase (path : String) :
    components (snakeCaseToLowerCamelCase path) =
      (camelParts false ' ' (split '.' path.toList)).map String.ofList := by
  rw [components, snakeCaseToLowerCamelCase_eq, String.toList_ofList, camel, split_camelFrom]

theorem map_camelCase (parts : List (List Char)) :
    (parts.map String.ofList).map snakeCaseToLowerCamelCase =
      (parts.map camel).map String.ofList := by
  simp [List.map_map, Function.comp_def, snakeCaseToLowerCamelCase_eq]

theorem map_ofList_inj {first second : List (List Char)} :
    first.map String.ofList = second.map String.ofList ↔ first = second :=
  (map_injective_iff.mpr fun _ _ same => String.ofList_injective same).eq_iff

end Parts

end ConfigConnector.Text
