import ConfigConnector.Krmtotf.Expansion

/- Are the values of a template's places data? A place's value is not looked at again, but
the text of a group is, and so is a value that is put in before the expansion. -/
namespace ConfigConnector.Krmtotf

open K8s List Nat

/-- Literal text and places, without the signs that make up groups and alternatives. -/
structure Phrase where
  parts : List Piece
  valid : ∀ p ∈ parts, p.Valid
  unsigned : ∀ c ∈ ['[', ']', '|'], .text c ∉ parts

/-- One or two alternatives. -/
structure Alternatives (α : Type) where
  first : α
  second : Option α

/-- How a template is laid out: alternatives, or a group of them in brackets. -/
inductive Layout (α : Type) where
  | plain (a : Alternatives α)
  | grouped (before : α) (group : Alternatives α) (after : α)

abbrev Template : Type := Layout Phrase

def Alternatives.map {α β : Type} (f : α → β) (a : Alternatives α) : Alternatives β :=
  ⟨f a.first, a.second.map f⟩

def Layout.map {α β : Type} (f : α → β) : Layout α → Layout β
  | plain a => plain (a.map f)
  | grouped before group after => grouped (f before) (group.map f) (f after)

namespace Alternatives

/-- All pieces of the text, its signs among them. -/
def flat (a : Alternatives (List Piece)) : List Piece :=
  match a.second with
  | none => a.first
  | some second => a.first ++ .text '|' :: second

def text (a : Alternatives (List Piece)) : List Char := spell a.flat

/-- The first alternative whose places all have values. -/
def fill (values : List Char → Option (List Char)) (a : Alternatives (List Piece)) :
    Option (List Char) :=
  match a.second with
  | none => Krmtotf.fill values a.first
  | some second => Krmtotf.fill values a.first <|> Krmtotf.fill values second

end Alternatives

namespace Layout

def flat : Layout (List Piece) → List Piece
  | plain a => a.flat
  | grouped before group after => before ++ .text '[' :: (group.flat ++ .text ']' :: after)

def text (l : Layout (List Piece)) : List Char := spell l.flat

/-- What a template stands for: the values of its places, and of its alternatives the
first that has all its values. -/
def fill (values : List Char → Option (List Char)) : Layout (List Piece) → Option (List Char)
  | plain a => a.fill values
  | grouped before group after => do
    return (← Krmtotf.fill values before) ++ (← group.fill values) ++
      (← Krmtotf.fill values after)

end Layout

def Template.layout (t : Template) : Layout (List Piece) := t.map Phrase.parts

/-- Pieces that are cut from their text as they are, and make no group or alternatives. -/
structure Clean (ps : List Piece) : Prop where
  cut : pieces (spell ps) = ps
  noGroup : '[' ∉ spell ps
  single : '|' ∉ spell ps

variable {ps : List Piece} {before after : List Piece}

section Expand

variable {r : Resource} {values : List Char → Option (List Char)}

theorem Clean.expands (clean : Clean ps) (resolved : Resolves r ps values) :
    ExpandsTo r (spell ps) (fill values ps) := by
  have cut := clean.cut
  have expanded : ExpandsTo r (spell ps) (fill values (pieces (spell ps))) :=
    field_expands clean.noGroup clean.single (by rwa [cut])
  rwa [cut] at expanded

/-- All the alternatives are clean. -/
structure Alternatives.Clean (a : Alternatives (List Piece)) : Prop where
  first : Krmtotf.Clean a.first
  second : ∀ ps, a.second = some ps → Krmtotf.Clean ps

theorem Alternatives.Clean.expands {a : Alternatives (List Piece)} (clean : a.Clean)
    (resolved : Resolves r a.flat values) : ExpandsTo r a.text (a.fill values) := by
  obtain ⟨first, second⟩ := a
  cases second with
  | none => exact clean.first.expands resolved
  | some second =>
    have right := clean.second second rfl
    have text : Alternatives.text ⟨first, some second⟩ = spell first ++ '|' :: spell second := by
      simp [text, flat, Piece.spell]
    rw [text]
    apply or_expands
    · simp [clean.first.noGroup, right.noGroup]
    · simp [clean.first.single, right.single]
    · apply clean.first.expands
      exact resolved.mono fun name member => by simp [flat, member]
    · apply right.expands
      exact resolved.mono fun name member => by simp [flat, member]

/-- A group whose text is put among clean pieces. -/
theorem group_fills {group : Alternatives (List Piece)}
    (first : '[' ∉ spell before) (last : ']' ∉ spell after) (clean : group.Clean)
    (settled : ∀ g, group.fill values = some g → Clean (before ++ literal g ++ after))
    (resolved : Resolves r (Layout.grouped before group after).flat values) :
    ExpandsTo r (Layout.grouped before group after).text
      ((Layout.grouped before group after).fill values) := by
  have text : (Layout.grouped before group after).text =
      spell before ++ '[' :: (group.text ++ ']' :: spell after) := by
    simp [Layout.text, Layout.flat, Alternatives.text, Piece.spell]
  have inner := clean.expands (resolved.mono fun name member => by simp [Layout.flat, member])
  rw [text, Layout.fill]
  cases filled : group.fill values with
  | none =>
    rw [filled] at inner
    have failed := group_fails first last inner
    cases Krmtotf.fill values before <;> exact failed
  | some g =>
    rw [filled] at inner
    apply group_expands first last inner
    have outer := (settled g filled).expands (resolved.mono fun name member => by
      have apart : Piece.place name ∉ literal g := by simp [literal]
      simp only [mem_append, apart, or_false] at member
      simp only [Layout.flat, mem_append, mem_cons]
      tauto)
    rw [fill_append, fill_append, fill_literal, spell_append, spell_append, spell_literal]
      at outer
    cases here : Krmtotf.fill values before <;> simpa [here] using outer

end Expand

section Phrases

theorem mem_spell {c : Char} (valid : ∀ p ∈ ps, p.Valid) (sign : c ∈ ['[', ']', '|'])
    (member : c ∈ spell ps) : .text c ∈ ps := by
  obtain ⟨p, inside, here⟩ := mem_flatMap.mp member
  cases p with
  | text d =>
    rw [Piece.spell, mem_singleton] at here
    rwa [here]
  | place name =>
    have field := (valid _ inside).2
    have signs : ∀ c ∈ ['[', ']', '|'], isFieldChar c = false ∧ c ≠ '{' ∧ c ≠ '}' := by decide
    have letters := signs c sign
    simp only [Piece.spell, mem_cons, mem_append, letters.2.1, letters.2.2,
      false_or, not_mem_nil, or_false] at here
    rw [field c here] at letters
    cases letters.1

variable (ph : Phrase)

theorem Phrase.not_mem_text {c : Char} (sign : c ∈ ['[', ']', '|']) : c ∉ spell ph.parts :=
  fun member => ph.unsigned c sign (mem_spell ph.valid sign member)

theorem Phrase.clean : Clean ph.parts where
  cut := pieces_spell ph.valid
  noGroup := ph.not_mem_text (by decide)
  single := ph.not_mem_text (by decide)

theorem Alternatives.clean_parts (a : Alternatives Phrase) : (a.map Phrase.parts).Clean where
  first := a.first.clean
  second := by
    intro ps same
    obtain ⟨second, -, rfl⟩ := Option.map_eq_some_iff.mp same
    exact second.clean

/-- Pieces before and after a text are cut on their own. -/
theorem pieces_between (validBefore : ∀ p ∈ before, p.Valid) (validAfter : ∀ p ∈ after, p.Valid)
    (text : List Char) :
    pieces (spell before ++ text ++ spell after) = before ++ pieces text ++ after := by
  rw [pieces_append (apart_spell validAfter), pieces_spell validAfter]
  congr 1
  induction before with
  | nil => rfl
  | cons p rest ih =>
    have below := ih fun q member => validBefore q (.tail _ member)
    have head := validBefore p (.head _)
    cases p with
    | text c =>
      have free : placeName (c :: (spell rest ++ text)) = none := placeName_of_ne head.1
      exact (pieces_cons_text free).trans (congrArg _ below)
    | place name =>
      rw [spell_cons, append_assoc, pieces_cons_place head, below, cons_append]

end Phrases

/-- A text that is not looked at again: it has neither signs nor places. A closing bracket
alone makes no group. -/
structure IsData (text : List Char) : Prop where
  noGroup : '[' ∉ text
  single : '|' ∉ text
  noPlace : hasPlace text = false

theorem IsData.clean_between {text : List Char} (data : IsData text) (before after : Phrase) :
    Clean (before.parts ++ literal text ++ after.parts) where
  cut := by
    rw [spell_append, spell_append, spell_literal, pieces_between before.valid after.valid,
      hasPlace_eq_false data.noPlace]
  noGroup := by
    simp [before.not_mem_text, after.not_mem_text, data.noGroup]
  single := by
    simp [before.not_mem_text, after.not_mem_text, data.single]

section Blank

/-- The name of the one field that `referring` has. -/
def fieldOf (n : Nat) : List Char := List.replicate n 'a'

/-- A resource without any value but that of one reference, whose field's name is long. -/
def referring (n : Nat) (v : List Char) : Resource where
  resourceConfig :=
    { name := "", kind := "", resourceReferences := [{ tfField := String.ofList (fieldOf n) }] }
  getResourceID := .error (.plain "")
  getValueFromReference := fun _ => .ok (some (String.ofList v))

/-- What is left of a place whose field has no value: nothing if it is optional. -/
def blank (name : List Char) : Option (List Char) :=
  if name.getLast? = some '?' ∧ name.dropLast ≠ [] then some [] else none

variable {n : Nat} {v : List Char}

theorem nestedText_nil (path : List String) : nestedText [] path = none := by
  cases path <;> rfl

theorem isReferenceField_short {field : List Char} (short : field.length < n) :
    isReferenceField (String.ofList field) (referring n v).resourceConfig = none := by
  have other : String.ofList field ≠ String.ofList (fieldOf n) := by
    intro same
    rw [String.ofList_injective same, fieldOf, length_replicate] at short
    omega
  simp [isReferenceField, referring, other]

theorem resolveUnmapped_referring (field : String) (isRequired : Bool) :
    resolveUnmapped (referring n v) field isRequired =
      .returns (if isRequired then
        .error (.plain ("unable to resolve missing value: " ++ field)) else .ok []) := by
  cases isRequired <;>
    simp [resolveUnmapped, referring, resolveInObject, nestedText_nil,
      supportsHierarchicalReferences]

section

variable (expand : List Char → Expanded)

theorem resolveField_short {field : List Char} (short : field.length < n) (isRequired : Bool) :
    ∃ outcome, resolveField expand (referring n v) (String.ofList field) isRequired =
        .returns outcome ∧
      outcome.toOption = if isRequired = false ∧ field ≠ [] then some [] else none := by
  simp only [resolveField, isReferenceField_short short]
  by_cases empty : field = []
  · subst empty
    exact ⟨_, rfl, by simp [Except.toOption, Except.mapError]⟩
  have other : String.ofList field ≠ "" := fun same => empty (String.ofList_injective same)
  have target : String.ofList field ≠
      (referring n v).resourceConfig.resourceIDTargetField := other
  have name : String.ofList field ≠ (referring n v).resourceConfig.metadataMapping.name := other
  have labels : String.ofList field ≠
      (referring n v).resourceConfig.metadataMapping.labels := other
  rw [if_neg target, if_neg name, if_neg labels, resolveUnmapped_referring]
  refine ⟨_, rfl, ?_⟩
  cases isRequired with
  | true => rfl
  | false => simp [empty, Except.toOption]

theorem resolve_blank {name : List Char} (short : name.length < n) :
    ∃ outcome, resolveFunc expand (referring n v) name = .returns outcome ∧
      outcome.toOption = blank name := by
  rw [resolveFunc, blank]
  by_cases optional : name.getLast? = some '?'
  · have below : name.dropLast.length < n := by
      rw [length_dropLast]
      omega
    simpa [optional] using resolveField_short expand below false
  · simpa [optional] using resolveField_short expand short true

theorem resolve_field : resolveFunc expand (referring n v) (fieldOf n) = .returns (.ok v) := by
  have required : (fieldOf n).getLast? ≠ some '?' := by
    intro last
    have member := mem_of_getLast? last
    rw [fieldOf, mem_replicate] at member
    exact absurd member.2 (by decide)
  have found : isReferenceField (String.ofList (fieldOf n)) (referring n v).resourceConfig =
      some { tfField := String.ofList (fieldOf n) } := by
    simp [isReferenceField, referring]
  rw [resolveFunc, if_neg required]
  simp only [resolveField, found]
  simp [referring]

end

/-- The characters of a text outside its places. -/
def letters (ps : List Piece) : List Char :=
  ps.flatMap fun
    | .text c => [c]
    | .place _ => []

theorem length_letters_le (ps : List Piece) : (letters ps).length ≤ (spell ps).length := by
  induction ps with
  | nil => exact le_refl 0
  | cons p rest ih =>
    cases p with
    | text c => exact succ_le_succ ih
    | place name =>
      simp only [spell_cons, length_append]
      exact le_add_left_of_le ih

theorem length_letters_lt (found : ps.any Piece.isPlace = true) :
    (letters ps).length < (spell ps).length := by
  induction ps with
  | nil => cases found
  | cons p rest ih =>
    cases p with
    | text c => exact succ_lt_succ (ih found)
    | place name =>
      have below : (letters (.place name :: rest)).length ≤ (spell rest).length :=
        length_letters_le rest
      simp only [spell_cons, length_append, Piece.spell, length_cons]
      omega

theorem letters_subset (ps : List Piece) : letters ps ⊆ spell ps := by
  induction ps with
  | nil => exact List.Subset.refl []
  | cons p rest ih =>
    cases p with
    | text c => exact cons_subset_cons c ih
    | place name => exact subset_append_of_subset_right _ ih

theorem length_name_lt {name text : List Char} (member : .place name ∈ pieces text) :
    name.length < text.length := by
  induction text using pieces_induction with
  | nil => cases member
  | text c rest free ih =>
    rw [pieces_cons_text free, mem_cons] at member
    cases member with
    | inl same => cases same
    | inr below => exact lt_succ_of_lt (ih below)
  | place other rest valid ih =>
    rw [pieces_cons_place valid, mem_cons] at member
    simp only [Piece.spell, length_append, length_cons]
    cases member with
    | inl same =>
      cases same
      omega
    | inr below =>
      have inside := ih below
      omega

theorem expandPieces_blank (expand : List Char → Expanded)
    (short : ∀ name, .place name ∈ ps → name.length < n) {text : List Char} {err : Option GoError}
    (ran : expandPieces (resolveFunc expand (referring n v)) ps = .returns (text, err)) :
    text = letters ps := by
  induction ps generalizing text err with
  | nil =>
    cases ran
    rfl
  | cons p rest ih =>
    have below : ∀ name, .place name ∈ rest → name.length < n :=
      fun name member => short name (.tail _ member)
    cases p with
    | text c =>
      obtain ⟨⟨others, cause⟩, ranRest, same⟩ := Run.bind_eq_returns.mp ran
      cases same
      rw [ih below ranRest]
      rfl
    | place name =>
      obtain ⟨val, found, ran⟩ := Run.bind_eq_returns.mp ran
      obtain ⟨⟨others, cause⟩, ranRest, same⟩ := Run.bind_eq_returns.mp ran
      obtain ⟨outcome, resolved, value⟩ := resolve_blank expand (short name (.head _))
      rw [resolved] at found
      cases found
      cases val with
      | error err =>
        cases same
        rw [ih below ranRest]
        rfl
      | ok val =>
        cases same
        have nothing : val = [] := by
          rw [blank] at value
          split at value
          · exact Option.some.inj value
          · cases value
        rw [ih below ranRest, nothing]
        rfl

theorem length_le_of_mem_split {sep : Char} {text word : List Char}
    (member : word ∈ Text.split sep text) : word.length ≤ text.length := by
  induction text generalizing word with
  | nil =>
    rw [Text.split, mem_singleton] at member
    rw [member]
  | cons c rest ih =>
    rw [Text.split] at member
    split at member
    · cases mem_cons.mp member with
      | inl same => simp [same]
      | inr below => exact le_succ_of_le (ih below)
    split at member
    · rename_i first words parts
      rw [parts] at ih
      cases mem_cons.mp member with
      | inl same =>
        rw [same]
        exact succ_le_succ (ih (.head _))
      | inr below => exact le_succ_of_le (ih (.tail _ below))
    · rw [mem_singleton] at member
      simp [member]

/-- Where no place has a value, what is left of a text has no signs, and is shorter if
there was a place in it. -/
theorem expandTemplate_blank {depth : Nat} {text result : List Char} (short : text.length ≤ n)
    (ran : expandTemplate (referring n v) depth text = .returns (.ok result)) :
    result.length ≤ text.length ∧ '[' ∉ result ∧ '|' ∉ result ∧
      ('[' ∉ text → '|' ∉ text → hasPlace text = true → result.length < text.length) := by
  induction depth generalizing text result with
  | zero => cases ran
  | succ depth ih =>
    rcases expandTemplate_ok ran with ⟨noGroup, both, t, member, ran⟩ |
      ⟨noGroup, single, ran⟩ | ⟨grouped, left, right, inner, ordered, ranInner, ran⟩
    · have within := length_le_of_mem_split member
      obtain ⟨shorter, noGroup, single, -⟩ := ih (by omega) ran
      exact ⟨by omega, noGroup, single, fun _ single => absurd both single⟩
    · have short : ∀ name, .place name ∈ pieces text → name.length < n :=
        fun name member => lt_of_lt_of_le (length_name_lt member) short
      have spelled := spell_pieces text
      have left := letters_subset (pieces text)
      have fewer := length_letters_le (pieces text)
      rw [expandPieces_blank (expandTemplate (referring n v) depth) short ran]
      rw [spelled] at left fewer
      refine ⟨fewer, fun member => noGroup (left member), fun member => single (left member),
        fun _ _ found => ?_⟩
      rw [hasPlace] at found
      simpa only [spelled] using length_letters_lt found
    · have innerText : ((text.take right).drop (left + 1)).length ≤ n := by
        simp only [length_drop, length_take]
        omega
      have innerShort := (ih innerText ranInner).1
      have outerText : (text.take left ++ inner ++ text.drop (right + 1)).length ≤
          text.length := by
        simp only [length_append, length_drop, length_take] at innerShort ⊢
        omega
      obtain ⟨shorter, noGroup, single, -⟩ := ih (by omega) ran
      exact ⟨by omega, noGroup, single, fun noGroup => absurd grouped noGroup⟩

end Blank

end ConfigConnector.Krmtotf
