import ConfigConnector.Krmtotf.Templating

/- Cutting a text at its places, and putting it together again. -/
namespace ConfigConnector.Krmtotf

open K8s List

/-- The text of a piece. -/
def Piece.spell : Piece → List Char
  | text c => [c]
  | place name => '{' :: '{' :: (name ++ ['}', '}'])

/-- The text that pieces are cut from. -/
def spell (ps : List Piece) : List Char := ps.flatMap Piece.spell

/-- A text as pieces none of which is a place. -/
def literal (text : List Char) : List Piece := text.map Piece.text

/-- Literal text has no braces, and a name is a field's. -/
def Piece.Valid : Piece → Prop
  | text c => c ≠ '{' ∧ c ≠ '}'
  | place name => name ≠ [] ∧ ∀ c ∈ name, isFieldChar c = true

@[simp] theorem spell_nil : spell [] = [] := rfl

@[simp] theorem spell_cons (p : Piece) (ps : List Piece) :
    spell (p :: ps) = p.spell ++ spell ps := rfl

@[simp] theorem spell_append (ps qs : List Piece) : spell (ps ++ qs) = spell ps ++ spell qs :=
  flatMap_append

@[simp] theorem spell_literal (text : List Char) : spell (literal text) = text := by
  induction text with
  | nil => rfl
  | cons c rest ih =>
    change c :: spell (literal rest) = c :: rest
    rw [ih]

theorem piecesFrom_skip (first rest : List Char) :
    piecesFrom first.length (first ++ rest) = pieces rest := by
  induction first with
  | nil => rfl
  | cons c first ih => exact ih

theorem pieces_cons_text {c : Char} {rest : List Char} (free : placeName (c :: rest) = none) :
    pieces (c :: rest) = .text c :: pieces rest := by
  simp only [pieces, piecesFrom, free]

theorem placeName_of_ne {c : Char} {rest : List Char} (other : c ≠ '{') :
    placeName (c :: rest) = none := by
  unfold placeName
  split
  · rename_i same
    exact absurd (List.cons.inj same).1 other
  · rfl

/-- What a text that starts with two braces holds. -/
theorem placeName_braces (rest : List Char) :
    placeName ('{' :: '{' :: rest) =
      if rest.takeWhile isFieldChar ≠ [] ∧ (rest.dropWhile isFieldChar).take 2 = ['}', '}'] then
        some (rest.takeWhile isFieldChar) else none := rfl

section Names

variable {name : List Char}

theorem takeWhile_name (valid : ∀ c ∈ name, isFieldChar c) (rest : List Char) :
    (name ++ '}' :: rest).takeWhile isFieldChar = name := by
  rw [takeWhile_append_of_pos valid]
  simp [isFieldChar]

theorem dropWhile_name (valid : ∀ c ∈ name, isFieldChar c) (rest : List Char) :
    (name ++ '}' :: rest).dropWhile isFieldChar = '}' :: rest := by
  rw [dropWhile_append_of_pos valid]
  simp [isFieldChar]

theorem pieces_cons_place (valid : Piece.Valid (.place name)) (rest : List Char) :
    pieces (Piece.spell (.place name) ++ rest) = .place name :: pieces rest := by
  have text : Piece.spell (.place name) ++ rest =
      '{' :: '{' :: (name ++ '}' :: '}' :: rest) := by simp [Piece.spell]
  have found : placeName ('{' :: '{' :: (name ++ '}' :: '}' :: rest)) = some name := by
    rw [placeName_braces, takeWhile_name valid.2, dropWhile_name valid.2]
    simp [valid.1]
  have after := piecesFrom_skip (name ++ ['}', '}']) rest
  rw [text]
  simp only [pieces, piecesFrom, found]
  rw [pieces] at after
  simpa using after

end Names

variable {text : List Char}

theorem placeName_eq_some {name : List Char} (found : placeName text = some name) :
    ∃ rest, text = Piece.spell (.place name) ++ rest ∧ Piece.Valid (.place name) := by
  unfold placeName at found
  split at found
  · rename_i rest
    simp only [Option.ite_none_right_eq_some, Option.some.injEq] at found
    obtain ⟨⟨some, closed⟩, rfl⟩ := found
    refine ⟨(rest.dropWhile isFieldChar).drop 2, ?_, some, fun c member =>
      mem_takeWhile_imp member⟩
    have whole : rest = rest.takeWhile isFieldChar ++ (['}', '}'] ++
        (rest.dropWhile isFieldChar).drop 2) := by
      rw [← closed, take_append_drop, takeWhile_append_dropWhile]
    simpa [Piece.spell] using whole
  · cases found

/-- Induction along the pieces that a text is cut into. -/
theorem pieces_induction {P : List Char → Prop} (nil : P [])
    (text : ∀ c rest, placeName (c :: rest) = none → P rest → P (c :: rest))
    (place : ∀ name rest, Piece.Valid (.place name) → P rest →
      P (Piece.spell (.place name) ++ rest)) : ∀ whole, P whole := by
  intro whole
  cases whole with
  | nil => exact nil
  | cons c rest =>
    cases found : placeName (c :: rest) with
    | none => exact text c rest found (pieces_induction nil text place rest)
    | some name =>
      obtain ⟨after, same, valid⟩ := placeName_eq_some found
      have shorter : after.length < rest.length + 1 := by
        have sizes := congrArg length same
        simp only [Piece.spell, length_cons, length_append] at sizes
        omega
      rw [same]
      exact place name after valid (pieces_induction nil text place after)
termination_by whole => whole.length

theorem spell_pieces (whole : List Char) : spell (pieces whole) = whole := by
  induction whole using pieces_induction with
  | nil => rfl
  | text c rest free ih =>
    rw [pieces_cons_text free, spell_cons, ih]
    rfl
  | place name rest valid ih => rw [pieces_cons_place valid, spell_cons, ih]

theorem hasPlace_eq_false {whole : List Char} (none : hasPlace whole = false) :
    pieces whole = literal whole := by
  induction whole using pieces_induction with
  | nil => rfl
  | text c rest free ih =>
    rw [hasPlace, pieces_cons_text free, any_cons] at none
    rw [pieces_cons_text free, ih (Bool.or_eq_false_iff.mp none).2]
    rfl
  | place name rest valid ih =>
    rw [hasPlace, pieces_cons_place valid, any_cons] at none
    exact absurd (Bool.or_eq_false_iff.mp none).1 nofun

/-- A text that cannot end a place which starts before it: no closing brace comes after
characters of a name, and an opening brace is one of two. -/
structure Apart (text : List Char) : Prop where
  unclosed : (text.dropWhile isFieldChar).head? ≠ some '}'
  doubled : ∀ rest, text = '{' :: rest → rest.head? = some '{'

theorem apart_spell {ps : List Piece} (valid : ∀ p ∈ ps, p.Valid) : Apart (spell ps) := by
  induction ps with
  | nil => exact ⟨nofun, nofun⟩
  | cons p rest ih =>
    have below := ih fun q member => valid q (.tail _ member)
    have head := valid p (.head _)
    cases p with
    | text c =>
      constructor
      · change ((c :: spell rest).dropWhile isFieldChar).head? ≠ some '}'
        rw [dropWhile_cons]
        split
        · exact below.unclosed
        · intro closes
          exact head.2 (Option.some.inj closes)
      · intro text same
        exact absurd (List.cons.inj same).1 head.1
    | place name =>
      constructor
      · simp [Piece.spell, isFieldChar]
      · intro text same
        rw [← (List.cons.inj same).2]
        rfl

section

variable (apart : Apart text)
include apart

theorem Apart.open_behind_name : (text.dropWhile isFieldChar).take 2 ≠ ['}', '}'] := by
  intro closed
  apply apart.unclosed
  have head := congrArg List.head? closed
  rw [List.head?_take] at head
  exact head

theorem Apart.head_ne : text.head? ≠ some '}' := by
  intro closes
  apply apart.unclosed
  cases text with
  | nil => cases closes
  | cons c rest =>
    cases closes
    rfl

theorem placeName_braces_append (s : List Char) :
    placeName ('{' :: '{' :: (s ++ text)) = placeName ('{' :: '{' :: s) := by
  rw [placeName_braces, placeName_braces]
  by_cases field : ∀ x ∈ s, isFieldChar x = true
  · -- the name would go on in the text
    have ends : s.dropWhile isFieldChar = [] := dropWhile_eq_nil_iff.mpr field
    rw [dropWhile_append_of_pos field, ends]
    simp [apart.open_behind_name]
  · have stops : s.dropWhile isFieldChar ≠ [] := fun ends =>
      field (dropWhile_eq_nil_iff.mp ends)
    have short : (s.takeWhile isFieldChar).length ≠ s.length := by
      intro same
      have sum := congrArg List.length (s.takeWhile_append_dropWhile (p := isFieldChar))
      rw [length_append, same] at sum
      exact stops (length_eq_zero_iff.mp (by omega))
    obtain ⟨d, u, rest⟩ := exists_cons_of_ne_nil stops
    rw [takeWhile_append, if_neg short, dropWhile_append, rest]
    have same : (d :: u ++ text).take 2 = ['}', '}'] ↔ (d :: u).take 2 = ['}', '}'] := by
      cases u with
      | cons e u => simp
      | nil =>
        cases text with
        | nil => simp
        | cons e text =>
          have other : e ≠ '}' := fun closes => apart.head_ne (congrArg some closes)
          simp [other]
    simp only [isEmpty_cons, Bool.false_eq_true, ↓reduceIte, same]

/-- Text that cannot end a place changes no place before it. -/
theorem placeName_append {s : List Char} (nonempty : s ≠ []) :
    placeName (s ++ text) = placeName s := by
  obtain ⟨c, s, rfl⟩ := exists_cons_of_ne_nil nonempty
  by_cases first : c = '{'
  · subst first
    cases s with
    | nil =>
      by_cases second : text.head? = some '{'
      · obtain ⟨rest, rfl⟩ := List.head?_eq_some_iff.mp second
        obtain ⟨after, rfl⟩ := List.head?_eq_some_iff.mp (apart.doubled rest rfl)
        rw [cons_append, nil_append, placeName_braces]
        simp [isFieldChar, placeName]
      · cases text with
        | nil => rfl
        | cons d text =>
          have other : d ≠ '{' := fun same => second (congrArg some same)
          simp [placeName, other]
    | cons d s =>
      by_cases second : d = '{'
      · subst second
        exact placeName_braces_append apart s
      · simp [placeName, second]
  · rw [cons_append, placeName_of_ne first, placeName_of_ne first]

/-- Text that cannot end a place is cut on its own. -/
theorem pieces_append (first : List Char) :
    pieces (first ++ text) = pieces first ++ pieces text := by
  induction first using pieces_induction with
  | nil => rfl
  | text c rest free ih =>
    have still : placeName (c :: (rest ++ text)) = none :=
      (placeName_append apart (cons_ne_nil c rest)).trans free
    rw [cons_append, pieces_cons_text still, pieces_cons_text free, ih, cons_append]
  | place name rest valid ih =>
    rw [append_assoc, pieces_cons_place valid, pieces_cons_place valid, ih, cons_append]

end

theorem pieces_spell {ps : List Piece} (valid : ∀ p ∈ ps, p.Valid) : pieces (spell ps) = ps := by
  induction ps with
  | nil => rfl
  | cons p rest ih =>
    have below := ih fun q member => valid q (.tail _ member)
    have head := valid p (.head _)
    cases p with
    | text c =>
      have free : placeName (c :: spell rest) = none := placeName_of_ne head.1
      exact (pieces_cons_text free).trans (congrArg _ below)
    | place name => rw [spell_cons, pieces_cons_place head, below]

end ConfigConnector.Krmtotf
