import ConfigConnector.Krmtotf.TemplateText

/- What expanding a text comes to, given what its places resolve to. -/
namespace ConfigConnector.Krmtotf

open K8s List

variable {before after group template result : List Char}

/-- The text of pieces with the values of their places, if all the places have one. -/
def fill (values : List Char → Option (List Char)) : List Piece → Option (List Char)
  | [] => some []
  | .text c :: rest => (fill values rest).map (c :: ·)
  | .place name :: rest => do return (← values name) ++ (← fill values rest)

section Fill

variable (values : List Char → Option (List Char))

theorem fill_append (ps qs : List Piece) :
    fill values (ps ++ qs) = do return (← fill values ps) ++ (← fill values qs) := by
  induction ps with
  | nil => cases rest : fill values qs <;> simp [fill, rest]
  | cons p ps ih =>
    cases p with
    | text c =>
      simp only [cons_append, fill, ih]
      cases fill values ps <;> cases fill values qs <;> rfl
    | place name =>
      simp only [cons_append, fill, ih]
      cases values name <;> cases fill values ps <;> cases fill values qs <;> simp

@[simp] theorem fill_literal (text : List Char) : fill values (literal text) = some text := by
  induction text with
  | nil => rfl
  | cons c rest ih =>
    change (fill values (literal rest)).map (c :: ·) = some (c :: rest)
    rw [ih, Option.map_some]

end Fill

/-- From some depth of calls on, a call returns, and either with the expected text or, if
there is none, with an error. -/
def Settles (call : Nat → Expanded) (expected : Option (List Char)) : Prop :=
  ∃ depth, ∀ more, depth ≤ more → ∃ outcome, call more = .returns outcome ∧
    outcome.toOption = expected

variable {expected : Option (List Char)}

theorem settles_of_succ {call : Nat → Expanded} (depth : Nat)
    (returned : ∀ more, depth ≤ more → ∃ outcome,
      call (more + 1) = .returns outcome ∧ outcome.toOption = expected) :
    Settles call expected := by
  refine ⟨depth + 1, fun more deep => ?_⟩
  have same : more - 1 + 1 = more := by omega
  rw [← same]
  exact returned (more - 1) (by omega)

def ExpandsTo (r : Resource) (template : List Char) (expected : Option (List Char)) : Prop :=
  Settles (fun depth => expandTemplate r depth template) expected

/-- The places among the pieces resolve to the values. -/
def Resolves (r : Resource) (ps : List Piece) (values : List Char → Option (List Char)) : Prop :=
  ∀ name, .place name ∈ ps →
    Settles (fun depth => resolveFunc (expandTemplate r depth) r name) (values name)

variable {r : Resource}

section Places

variable {values : List Char → Option (List Char)}

theorem Resolves.mono {ps qs : List Piece} (resolved : Resolves r qs values)
    (within : ∀ name, .place name ∈ ps → .place name ∈ qs) : Resolves r ps values :=
  fun name member => resolved name (within name member)

/-- What `ReplaceAllStringFunc` and `resolutionError` say together. -/
def filled : List Char × Option GoError → Option (List Char)
  | (text, none) => some text
  | (_, some _) => none

theorem expandPieces_settles {ps : List Piece} (resolved : Resolves r ps values) :
    ∃ depth, ∀ more, depth ≤ more → ∃ result,
      expandPieces (resolveFunc (expandTemplate r more) r) ps = .returns result ∧
        filled result = fill values ps := by
  induction ps with
  | nil => exact ⟨0, fun more _ => ⟨([], none), rfl, rfl⟩⟩
  | cons p rest ih =>
    obtain ⟨below, settled⟩ :=
      ih (resolved.mono fun name member => .tail _ member)
    cases p with
    | text c =>
      refine ⟨below, fun more deep => ?_⟩
      obtain ⟨⟨text, err⟩, ran, same⟩ := settled more deep
      refine ⟨(c :: text, err), by rw [expandPieces, ran]; rfl, ?_⟩
      rw [fill, ← same]
      cases err <;> rfl
    | place name =>
      obtain ⟨depth, returned⟩ := resolved name (.head _)
      refine ⟨max depth below, fun more deep => ?_⟩
      obtain ⟨val, found, value⟩ := returned more (by omega)
      obtain ⟨⟨text, err⟩, ran, same⟩ := settled more (by omega)
      rw [fill, ← same, ← value]
      beta_reduce at found
      cases val with
      | ok val =>
        refine ⟨(val ++ text, err), by rw [expandPieces, found, Run.returns_bind, ran]; rfl, ?_⟩
        cases err <;> rfl
      | error cause =>
        refine ⟨(text, err.or (some cause)),
          by rw [expandPieces, found, Run.returns_bind, ran]; rfl, ?_⟩
        cases err <;> rfl

theorem field_expands {text : List Char} (noGroup : '[' ∉ text) (single : '|' ∉ text)
    (resolved : Resolves r (pieces text) values) :
    ExpandsTo r text (fill values (pieces text)) := by
  obtain ⟨depth, settled⟩ := expandPieces_settles resolved
  refine settles_of_succ depth fun more deep => ?_
  obtain ⟨⟨filledText, err⟩, ran, same⟩ := settled more deep
  have alone : text.contains '|' = false := by simpa using single
  rw [← same]
  simp only [expandTemplate, List.idxOf?_eq_none_iff.mpr noGroup, alone, expandFieldTemplate, ran,
    Run.returns_bind]
  cases err with
  | none => exact ⟨.ok filledText, rfl, rfl⟩
  | some cause => exact ⟨.error cause, rfl, rfl⟩

end Places

section Calls

theorem or_expands {t1 t2 : List Char} {first second : Option (List Char)}
    (noGroup : '[' ∉ t1 ++ '|' :: t2) (single : '|' ∉ t1 ++ t2)
    (left : ExpandsTo r t1 first) (right : ExpandsTo r t2 second) :
    ExpandsTo r (t1 ++ '|' :: t2) (first <|> second) := by
  obtain ⟨leftDepth, left⟩ := left
  obtain ⟨rightDepth, right⟩ := right
  rw [mem_append, not_or] at single
  have split : Text.split '|' (t1 ++ '|' :: t2) = [t1, t2] := by
    rw [Text.split_append, Text.split_of_not_mem single.1, Text.split_of_not_mem single.2]
    rfl
  refine settles_of_succ (max leftDepth rightDepth) fun more deep => ?_
  obtain ⟨one, ranOne, sameOne⟩ := left more (by omega)
  obtain ⟨two, ranTwo, sameTwo⟩ := right more (by omega)
  have both : (t1 ++ '|' :: t2).contains '|' = true := by simp
  beta_reduce at ranOne ranTwo
  simp only [expandTemplate, List.idxOf?_eq_none_iff.mpr noGroup, both, ↓reduceIte,
    expandOrTemplate, split, ranOne, ranTwo, Run.returns_bind, ← sameOne, ← sameTwo]
  cases one with
  | ok result => exact ⟨.ok result, rfl, rfl⟩
  | error _ =>
    cases two with
    | ok result => exact ⟨.ok result, rfl, rfl⟩
    | error err => exact ⟨_, rfl, rfl⟩

theorem idxOf?_append {c : Char} (absent : c ∉ before) (rest : List Char) :
    (before ++ c :: rest).idxOf? c = some before.length := by
  induction before with
  | nil => simp [List.idxOf?_cons]
  | cons d before ih =>
    rw [mem_cons, not_or] at absent
    have other : (d == c) = false := by simp [Ne.symm absent.1]
    simp [List.idxOf?_cons, other, ih absent.2]

theorem lastIndex_append {c : Char} (absent : c ∉ after)
    (before : List Char) : lastIndex c (before ++ c :: after) = some before.length := by
  have reversed : (before ++ c :: after).reverse = after.reverse ++ c :: before.reverse := by simp
  rw [lastIndex, reversed, idxOf?_append (by simpa using absent)]
  simp

/-- One call at a group: the text in the brackets is expanded, put in the brackets' place,
and the whole is expanded again. -/
theorem expandTemplate_group (first : '[' ∉ before) (last : ']' ∉ after) (depth : Nat) :
    expandTemplate r (depth + 1) (before ++ '[' :: (group ++ ']' :: after)) = (do
      match ← expandTemplate r depth group with
      | .error err => return .error (.wrap "error resolving sub-template: " err)
      | .ok result => expandTemplate r depth (before ++ result ++ after)) := by
  have left := idxOf?_append first (group ++ ']' :: after)
  have whole : before ++ '[' :: (group ++ ']' :: after) =
      (before ++ '[' :: group) ++ ']' :: after := by simp
  have right : lastIndex ']' (before ++ '[' :: (group ++ ']' :: after)) =
      some (before ++ '[' :: group).length := by rw [whole, lastIndex_append last]
  have inside : ((before ++ '[' :: (group ++ ']' :: after)).take
      (before ++ '[' :: group).length).drop (before.length + 1) = group := by
    rw [whole, take_left', drop_append]
    · simp
    · rfl
  have behind : (before ++ '[' :: (group ++ ']' :: after)).drop
      ((before ++ '[' :: group).length + 1) = after := by
    rw [whole, drop_append]
    simp
  have ordered : ¬ (before ++ '[' :: group).length < before.length + 1 := by simp
  have prior : (before ++ '[' :: (group ++ ']' :: after)).take before.length = before :=
    take_left' rfl
  rewrite [expandTemplate, left]
  dsimp only
  rewrite [right]
  dsimp only
  rewrite [if_neg ordered, inside, behind, prior]
  rfl

theorem group_expands {text : List Char} (first : '[' ∉ before) (last : ']' ∉ after)
    (inner : ExpandsTo r group (some text))
    (outer : ExpandsTo r (before ++ text ++ after) expected) :
    ExpandsTo r (before ++ '[' :: (group ++ ']' :: after)) expected := by
  obtain ⟨innerDepth, inner⟩ := inner
  obtain ⟨outerDepth, outer⟩ := outer
  refine settles_of_succ (max innerDepth outerDepth) fun more deep => ?_
  obtain ⟨result, ran, same⟩ := inner more (by omega)
  beta_reduce at ran
  cases result with
  | error err => cases same
  | ok result =>
    cases same
    rw [expandTemplate_group first last, ran]
    exact outer more (by omega)

theorem group_fails (first : '[' ∉ before) (last : ']' ∉ after) (inner : ExpandsTo r group none) :
    ExpandsTo r (before ++ '[' :: (group ++ ']' :: after)) none := by
  obtain ⟨depth, inner⟩ := inner
  refine settles_of_succ depth fun more deep => ?_
  obtain ⟨result, ran, same⟩ := inner more deep
  beta_reduce at ran
  cases result with
  | ok result => cases same
  | error err =>
    rw [expandTemplate_group first last, ran]
    exact ⟨_, rfl, rfl⟩

theorem expandOrTemplate_ok {expand : List Char → Expanded}
    (ran : expandOrTemplate expand template = .returns (.ok result)) :
    ∃ t ∈ Text.split '|' template, expand t = .returns (.ok result) := by
  unfold expandOrTemplate at ran
  split at ran
  · rename_i t1 t2 parts
    rw [parts]
    obtain ⟨one, ranOne, ran⟩ := Run.bind_eq_returns.mp ran
    cases one with
    | ok first =>
      cases ran
      exact ⟨t1, by simp, ranOne⟩
    | error err =>
      obtain ⟨two, ranTwo, ran⟩ := Run.bind_eq_returns.mp ran
      cases two with
      | ok second =>
        cases ran
        exact ⟨t2, by simp, ranTwo⟩
      | error err => cases ran
  · cases ran

theorem expandFieldTemplate_ok {resolve : List Char → Expanded}
    (ran : expandFieldTemplate resolve template = .returns (.ok result)) :
    expandPieces resolve (pieces template) = .returns (result, none) := by
  obtain ⟨⟨text, err⟩, ranPieces, ran⟩ := Run.bind_eq_returns.mp ran
  cases err with
  | none =>
    cases ran
    exact ranPieces
  | some err => cases ran

/-- What a call that succeeds did: it expanded one of the alternatives, the places of a
text without signs, or a group and then the text around it. -/
theorem expandTemplate_ok {depth : Nat}
    (ran : expandTemplate r (depth + 1) template = .returns (.ok result)) :
    ('[' ∉ template ∧ '|' ∈ template ∧
      ∃ t ∈ Text.split '|' template, expandTemplate r depth t = .returns (.ok result)) ∨
    ('[' ∉ template ∧ '|' ∉ template ∧
      expandPieces (resolveFunc (expandTemplate r depth) r) (pieces template) =
        .returns (result, none)) ∨
    ('[' ∈ template ∧ ∃ left right inner, left < right ∧
      expandTemplate r depth ((template.take right).drop (left + 1)) = .returns (.ok inner) ∧
      expandTemplate r depth (template.take left ++ inner ++ template.drop (right + 1)) =
        .returns (.ok result)) := by
  rw [expandTemplate] at ran
  split at ran
  · rename_i noGroup
    rw [List.idxOf?_eq_none_iff] at noGroup
    by_cases both : '|' ∈ template
    · rw [if_pos (by simpa using both)] at ran
      exact .inl ⟨noGroup, both, expandOrTemplate_ok ran⟩
    · rw [if_neg (by simpa using both)] at ran
      exact .inr (.inl ⟨noGroup, both, expandFieldTemplate_ok ran⟩)
  · rename_i left found
    have grouped : '[' ∈ template := by
      by_contra absent
      rw [List.idxOf?_eq_none_iff.mpr absent] at found
      cases found
    split at ran
    · cases ran
    rename_i right last
    split at ran
    · cases ran
    rename_i ordered
    obtain ⟨inner, ranInner, ran⟩ := Run.bind_eq_returns.mp ran
    cases inner with
    | error err => cases ran
    | ok inner =>
      exact .inr (.inr ⟨grouped, left, right, inner, by omega, ranInner, ran⟩)

end Calls

end ConfigConnector.Krmtotf
