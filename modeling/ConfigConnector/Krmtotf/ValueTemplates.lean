import ConfigConnector.Krmtotf.TemplateValues

/- A value that is put into a template's text before the text is expanded. -/
namespace ConfigConnector.Krmtotf

open K8s List Option Nat

variable {ps : List Piece} {c : Char} {text v : List Char} {t : Template} {n : Nat}

def valuePiece : Piece := .place "value".toList

/-- The pieces with a text for each place of the value. -/
def insertValue (val : List Char) (ps : List Piece) : List Piece :=
  ps.flatMap fun p => if p = valuePiece then literal val else [p]

/-- The values of the places, with one for the value. -/
def withValue (values : List Char → Option (List Char)) (val : List Char) :
    List Char → Option (List Char) :=
  fun name => if name = "value".toList then some val else values name

section Insert

variable (val : List Char)

@[simp] theorem insertValue_append (ps qs : List Piece) :
    insertValue val (ps ++ qs) = insertValue val ps ++ insertValue val qs := flatMap_append

@[simp] theorem insertValue_text (c : Char) (ps : List Piece) :
    insertValue val (.text c :: ps) = .text c :: insertValue val ps := rfl

theorem insertValue_value (ps : List Piece) :
    insertValue val (valuePiece :: ps) = literal val ++ insertValue val ps := rfl

theorem insertValue_cons {p : Piece} (other : p ≠ valuePiece) (ps : List Piece) :
    insertValue val (p :: ps) = p :: insertValue val ps := by
  simp [insertValue, other]

theorem insertValue_of_not_mem (absent : valuePiece ∉ ps) : insertValue val ps = ps := by
  induction ps with
  | nil => rfl
  | cons p rest ih =>
    rw [mem_cons, not_or] at absent
    rw [insertValue_cons val (Ne.symm absent.1), ih absent.2]

theorem insertValue_literal (text : List Char) : insertValue val (literal text) = literal text := by
  apply insertValue_of_not_mem
  simp [literal, valuePiece]

theorem fill_insertValue (values : List Char → Option (List Char)) (ps : List Piece) :
    fill values (insertValue val ps) = fill (withValue values val) ps := by
  induction ps with
  | nil => rfl
  | cons p rest ih =>
    by_cases value : p = valuePiece
    · rw [value, insertValue_value, fill_append, fill_literal, ih]
      rfl
    rw [insertValue_cons val value]
    cases p with
    | text c => rw [fill, fill, ih]
    | place name =>
      have other : name ≠ "value".toList := fun same => value (congrArg _ same)
      rw [fill, fill, ih, withValue, if_neg other]

theorem place_of_mem_insertValue {name : List Char}
    (member : .place name ∈ insertValue val ps) : .place name ∈ ps := by
  obtain ⟨p, inside, here⟩ := mem_flatMap.mp member
  by_cases value : p = valuePiece
  · simp [value, literal] at here
  · rw [if_neg value, mem_singleton] at here
    rwa [here]

theorem mem_spell_insertValue
    (member : c ∈ spell (insertValue val ps)) : c ∈ val ∨ c ∈ spell ps := by
  induction ps with
  | nil => exact .inr member
  | cons p rest ih =>
    by_cases value : p = valuePiece
    · rw [value, insertValue_value, spell_append, spell_literal, mem_append] at member
      rcases member with here | below
      · exact .inl here
      · exact (ih below).imp_right fun below => by simp [below]
    · rw [insertValue_cons val value, spell_cons, mem_append] at member
      rcases member with here | below
      · exact .inr (by simp [here])
      · exact (ih below).imp_right fun below => by simp [below]

/-- A text without places, put in once, makes no place with what stands around it. -/
theorem pieces_insertValue (valid : ∀ p ∈ ps, p.Valid)
    (once : ps.count valuePiece ≤ 1) (none : hasPlace val = false) :
    pieces (spell (insertValue val ps)) = insertValue val ps := by
  by_cases member : valuePiece ∈ ps
  · obtain ⟨before, after, rfl⟩ := append_of_mem member
    simp only [count_append, count_cons_self] at once
    have first : valuePiece ∉ before := count_eq_zero.mp (by omega)
    have last : valuePiece ∉ after := count_eq_zero.mp (by omega)
    have text : pieces (spell before ++ val ++ spell after) = before ++ pieces val ++ after :=
      pieces_between (fun p member => valid p (by simp [member]))
        (fun p member => valid p (by simp [member])) val
    rw [insertValue_append, insertValue_value, insertValue_of_not_mem val first,
      insertValue_of_not_mem val last, ← append_assoc]
    rw [hasPlace_eq_false none] at text
    simpa using text
  · rw [insertValue_of_not_mem val member, pieces_spell valid]

end Insert

section Replace

variable {new : List Char}

theorem replaceFrom_skip (old first rest : List Char) :
    replaceFrom old new first.length (first ++ rest) = replaceAll old new rest := by
  induction first with
  | nil => rfl
  | cons c first ih => exact ih

theorem replaceAll_cons {old : List Char} {rest : List Char} (other : ¬ old <+: c :: rest) :
    replaceAll old new (c :: rest) = c :: replaceAll old new rest := by
  have no : old.isPrefixOf (c :: rest) = false := by
    rw [Bool.eq_false_iff]
    exact fun found => other <| isPrefixOf_iff_prefix.mp found
  simp [replaceAll, replaceFrom, no]

theorem replaceAll_value (rest : List Char) :
    replaceAll valuePlace new (valuePlace ++ rest) = new ++ replaceAll valuePlace new rest := by
  have skipped : replaceFrom valuePlace new valuePlace.tail.length (valuePlace.tail ++ rest) =
      replaceAll valuePlace new rest := replaceFrom_skip valuePlace valuePlace.tail rest
  exact congrArg _ skipped

theorem valuePlace_eq : valuePlace = '{' :: '{' :: ("value".toList ++ ['}', '}']) := rfl

theorem valuePlace_elsewhere (other : c ≠ '{') (rest : List Char) : ¬ valuePlace <+: c :: rest := by
  rintro ⟨after, same⟩
  exact other (List.cons.inj same).1.symm

/-- Text without an opening brace is left as it is. -/
theorem replaceAll_append (free : '{' ∉ text) (rest : List Char) :
    replaceAll valuePlace new (text ++ rest) = text ++ replaceAll valuePlace new rest := by
  induction text with
  | nil => rfl
  | cons c text ih =>
    rw [mem_cons, not_or] at free
    rw [cons_append, replaceAll_cons (valuePlace_elsewhere (Ne.symm free.1) _),
      ih free.2, cons_append]

theorem replaceAll_place {name : List Char} (valid : Piece.Valid (.place name))
    (other : name ≠ "value".toList) (rest : List Char) :
    replaceAll valuePlace new (Piece.spell (.place name) ++ rest) =
      Piece.spell (.place name) ++ replaceAll valuePlace new rest := by
  have text : Piece.spell (.place name) ++ rest =
      '{' :: '{' :: ((name ++ ['}', '}']) ++ rest) := by simp [Piece.spell]
  have free : '{' ∉ name ++ ['}', '}'] := by
    intro member
    rw [mem_append] at member
    rcases member with inside | behind
    · exact absurd (valid.2 _ inside) (by decide)
    · exact absurd behind (by decide)
  have first : ¬ valuePlace <+: '{' :: '{' :: ((name ++ ['}', '}']) ++ rest) := by
    rintro ⟨after, same⟩
    rw [valuePlace_eq, cons_append, cons_append, append_assoc, append_assoc] at same
    have names : "value".toList ++ '}' :: ('}' :: after) = name ++ '}' :: ('}' :: rest) :=
      (List.cons.inj (List.cons.inj same).2).2
    have letters : ∀ c ∈ "value".toList, isFieldChar c = true := by decide
    apply other
    rw [← takeWhile_name valid.2 ('}' :: rest), ← names, takeWhile_name letters]
  have second : ¬ valuePlace <+: '{' :: ((name ++ ['}', '}']) ++ rest) := by
    rintro ⟨after, same⟩
    obtain ⟨c, letters, rfl⟩ := exists_cons_of_ne_nil valid.1
    have brace : '{' = c := (List.cons.inj (List.cons.inj same).2).1
    exact free (by rw [brace]; exact (.head _))
  rw [text, replaceAll_cons first, replaceAll_cons second, replaceAll_append free]
  simp [Piece.spell]

theorem replaceAll_spell (val : List Char) (valid : ∀ p ∈ ps, p.Valid) :
    replaceAll valuePlace val (spell ps) = spell (insertValue val ps) := by
  induction ps with
  | nil => rfl
  | cons p rest ih =>
    have below := ih fun q member => valid q (.tail _ member)
    have head := valid p (.head _)
    by_cases value : p = valuePiece
    · rw [value, insertValue_value, spell_append, spell_literal, ← below]
      exact replaceAll_value (spell rest)
    rw [insertValue_cons val value, spell_cons, spell_cons, ← below]
    cases p with
    | text c => exact replaceAll_cons (valuePlace_elsewhere head.1 _)
    | place name => exact replaceAll_place head (fun same => value (congrArg _ same)) _

end Replace

section Layouts

variable (val : List Char)

theorem Alternatives.flat_insertValue (a : Alternatives (List Piece)) :
    (a.map (insertValue val)).flat = insertValue val a.flat := by
  obtain ⟨first, second⟩ := a
  cases second with
  | none => rfl
  | some second => simp [Alternatives.map, Alternatives.flat]

theorem Layout.flat_insertValue (l : Layout (List Piece)) :
    (l.map (insertValue val)).flat = insertValue val l.flat := by
  cases l with
  | plain a => exact a.flat_insertValue val
  | grouped before group after => simp [Layout.map, Layout.flat, group.flat_insertValue]

theorem Alternatives.fill_insertValue (values : List Char → Option (List Char))
    (a : Alternatives (List Piece)) :
    (a.map (insertValue val)).fill values = a.fill (withValue values val) := by
  obtain ⟨first, second⟩ := a
  cases second with
  | none => exact Krmtotf.fill_insertValue val values first
  | some second =>
    simp only [Alternatives.map, Alternatives.fill, map_some, Krmtotf.fill_insertValue]

theorem Layout.fill_insertValue (values : List Char → Option (List Char))
    (l : Layout (List Piece)) :
    (l.map (insertValue val)).fill values = l.fill (withValue values val) := by
  cases l with
  | plain a => exact a.fill_insertValue val values
  | grouped before group after =>
    simp only [Layout.map, Layout.fill, Krmtotf.fill_insertValue, group.fill_insertValue]

theorem Alternatives.valid_flat (a : Alternatives Phrase) :
    ∀ p ∈ (a.map Phrase.parts).flat, p.Valid := by
  obtain ⟨first, second⟩ := a
  cases second with
  | none => exact first.valid
  | some second =>
    intro p member
    simp only [Alternatives.map, Alternatives.flat, map_some, mem_append, mem_cons] at member
    rcases member with left | rfl | right
    · exact first.valid p left
    · simp [Piece.Valid]
    · exact second.valid p right

theorem Template.valid_flat (t : Template) : ∀ p ∈ t.layout.flat, p.Valid := by
  cases t with
  | plain a => exact a.valid_flat
  | grouped before group after =>
    intro p member
    simp only [Template.layout, Layout.map, Layout.flat, mem_append, mem_cons]
      at member
    rcases member with left | rfl | inside | rfl | right
    · exact before.valid p left
    · simp [Piece.Valid]
    · exact group.valid_flat p inside
    · simp [Piece.Valid]
    · exact after.valid p right

end Layouts

/-- A value that is neither expanded nor split, and moves no bracket of the template. -/
structure IsPlain (val : List Char) : Prop extends IsData val where
  noEnd : ']' ∉ val

variable {val : List Char}

section Plain

variable (plain : IsPlain val)

include plain

theorem clean_insertValue (ps : List Piece) (valid : ∀ p ∈ ps, p.Valid)
    (once : ps.count valuePiece ≤ 1) (noGroup : '[' ∉ spell ps) (single : '|' ∉ spell ps) :
    Clean (insertValue val ps) where
  cut := pieces_insertValue val valid once plain.noPlace
  noGroup := fun member =>
    (mem_spell_insertValue val member).elim plain.noGroup noGroup
  single := fun member =>
    (mem_spell_insertValue val member).elim plain.single single

theorem Phrase.clean_insertValue (ph : Phrase) (once : ph.parts.count valuePiece ≤ 1) :
    Clean (insertValue val ph.parts) :=
  Krmtotf.clean_insertValue plain ph.parts ph.valid once (ph.not_mem_text (by decide))
    (ph.not_mem_text (by decide))

theorem Phrase.not_mem_insertValue (ph : Phrase) (sign : c ∈ ['[', ']', '|']) :
    c ∉ spell (insertValue val ph.parts) := by
  have absent : ∀ c ∈ ['[', ']', '|'], c ∉ val := by
    simp [plain.noGroup, plain.noEnd, plain.single]
  exact fun member =>
    (mem_spell_insertValue val member).elim (absent c sign) (ph.not_mem_text sign)

theorem Alternatives.clean_insertValue (a : Alternatives Phrase)
    (once : (a.map Phrase.parts).flat.count valuePiece ≤ 1) :
    ((a.map Phrase.parts).map (insertValue val)).Clean := by
  obtain ⟨first, second⟩ := a
  cases second with
  | none => exact ⟨first.clean_insertValue plain once, nofun⟩
  | some second =>
    simp only [Alternatives.map, Alternatives.flat, map_some, count_append] at once
    have after : second.parts.count valuePiece ≤
        (Piece.text '|' :: second.parts).count valuePiece :=
      count_le_count_cons
    refine ⟨first.clean_insertValue plain (by omega), fun ps same => ?_⟩
    cases same
    exact second.clean_insertValue plain (by omega)

end Plain

/-- A template with one place for the value. Signs are expanded only if there is another
place. -/
structure IsValueTemplate (t : Template) : Prop where
  once : t.layout.flat.count valuePiece = 1
  expanded : (∃ first, t = .plain ⟨first, none⟩) ∨
    ∃ name, .place name ∈ t.layout.flat ∧ .place name ≠ valuePiece

/-- The text of the template's group is not looked at again, nor does it make a place
together with the value outside the group. -/
def GroupSettled (t : Template) (values : List Char → Option (List Char)) : Prop :=
  ∀ before group after, t = .grouped before group after →
    ∀ g, (group.map Phrase.parts).fill values = some g →
      IsData g ∧ (valuePiece ∈ (group.map Phrase.parts).flat ∨ '{' ∉ g ∧ '}' ∉ g)

def ValueResolvesTo (r : Resource) (template val : List Char) (expected : Option (List Char)) :
    Prop :=
  Settles (fun depth => resolveValueTemplate (expandTemplate r depth) template val) expected

section Resolve

variable {r : Resource} {values : List Char → Option (List Char)}

theorem mem_of_once (once : t.layout.flat.count valuePiece = 1) :
    valuePiece ∈ t.layout.flat := count_pos_iff.mp (by rw [once]; decide)

theorem text_ne_nil (once : t.layout.flat.count valuePiece = 1) : t.layout.text ≠ [] := by
  intro empty
  have spelled := flatMap_eq_nil_iff.mp empty valuePiece (mem_of_once once)
  exact absurd spelled (by decide)

theorem count_grouped (before after : Phrase) (group : Alternatives Phrase) :
    (Template.layout (.grouped before group after)).flat.count valuePiece =
      before.parts.count valuePiece + (group.map Phrase.parts).flat.count valuePiece +
        after.parts.count valuePiece := by
  have sign : ∀ (c : Char) (ps : List Piece),
      (Piece.text c :: ps).count valuePiece = ps.count valuePiece := fun c ps =>
    count_cons_of_ne (by simp [valuePiece])
  simp only [Template.layout, Layout.map, Layout.flat, count_append, sign]
  omega

theorem clean_around_group (plain : IsPlain val) (before after : Phrase)
    (group : Alternatives Phrase)
    (once : (Template.layout (.grouped before group after)).flat.count valuePiece = 1)
    {g : List Char} (data : IsData g)
    (apart : valuePiece ∈ (group.map Phrase.parts).flat ∨ '{' ∉ g ∧ '}' ∉ g) :
    Clean (insertValue val before.parts ++ literal g ++ insertValue val after.parts) := by
  rcases apart with inside | ⟨noOpen, noClose⟩
  · -- the one place of the value is in the group
    have some := count_pos_iff.mpr inside
    rw [count_grouped] at once
    have first : valuePiece ∉ before.parts := count_eq_zero.mp (by omega)
    have last : valuePiece ∉ after.parts := count_eq_zero.mp (by omega)
    rw [insertValue_of_not_mem val first, insertValue_of_not_mem val last]
    exact data.clean_between before after
  · have absent : valuePiece ∉ literal g := by simp [literal, valuePiece]
    have clean := clean_insertValue plain (before.parts ++ literal g ++ after.parts)
      (by
        intro p member
        simp only [mem_append] at member
        rcases member with (left | inside) | right
        · exact before.valid p left
        · obtain ⟨c, here, rfl⟩ := mem_map.mp inside
          exact ⟨fun same => noOpen (same ▸ here), fun same => noClose (same ▸ here)⟩
        · exact after.valid p right)
      (by
        rw [count_append, count_append, count_eq_zero.mpr absent]
        rw [count_grouped] at once
        omega)
      (by simp [before.not_mem_text, after.not_mem_text, data.noGroup])
      (by simp [before.not_mem_text, after.not_mem_text, data.single])
    simpa [insertValue_literal] using clean

theorem template_expands (plain : IsPlain val) (t : Template)
    (once : t.layout.flat.count valuePiece = 1)
    (resolved : Resolves r (insertValue val t.layout.flat) values)
    (settled : GroupSettled t (withValue values val)) :
    ExpandsTo r (spell (insertValue val t.layout.flat))
      (t.layout.fill (withValue values val)) := by
  rw [← Layout.flat_insertValue] at resolved ⊢
  rw [← Layout.fill_insertValue]
  cases t with
  | plain a => exact (a.clean_insertValue plain once.le).expands resolved
  | grouped before group after =>
    have counted := count_grouped before after group
    apply group_fills
    · exact before.not_mem_insertValue plain (by decide)
    · exact after.not_mem_insertValue plain (by decide)
    · exact group.clean_insertValue plain (by omega)
    · intro g filled
      rw [Alternatives.fill_insertValue] at filled
      obtain ⟨data, apart⟩ := settled before group after rfl g filled
      exact clean_around_group plain before after group once data apart
    · exact resolved

theorem value_resolves (plain : IsPlain val) (t : Template) (template : IsValueTemplate t)
    (resolved : Resolves r (insertValue val t.layout.flat) values)
    (settled : GroupSettled t (withValue values val)) :
    ValueResolvesTo r t.layout.text val (t.layout.fill (withValue values val)) := by
  have ret : replaceAll valuePlace val t.layout.text = spell (insertValue val t.layout.flat) :=
    replaceAll_spell val t.valid_flat
  have cut : pieces (spell (insertValue val t.layout.flat)) = insertValue val t.layout.flat :=
    pieces_insertValue val t.valid_flat template.once.le plain.noPlace
  simp only [ValueResolvesTo, resolveValueTemplate, if_neg (text_ne_nil template.once), ret]
  cases found : hasPlace (spell (insertValue val t.layout.flat)) with
  | true => exact template_expands plain t template.once resolved settled
  | false =>
    -- the text is returned as it is, and it has no signs
    have literally := hasPlace_eq_false found
    rw [cut] at literally
    rcases template.expanded with ⟨first, rfl⟩ | ⟨name, member, other⟩
    · refine ⟨0, fun more _ => ⟨.ok _, rfl, ?_⟩⟩
      calc some (spell (insertValue val first.parts))
          = fill values (literal (spell (insertValue val first.parts))) :=
            (fill_literal values _).symm
        _ = fill values (insertValue val first.parts) := congrArg (fill values) literally.symm
        _ = fill (withValue values val) first.parts := fill_insertValue val values first.parts
    · have still : Piece.place name ∈ insertValue val t.layout.flat :=
        mem_flatMap.mpr ⟨_, member, by simp [other]⟩
      rw [literally] at still
      simp [literal] at still

end Resolve

instance (p : Piece) : Decidable p.Valid :=
  match p with
  | .text _ => inferInstanceAs (Decidable (_ ∧ _))
  | .place _ => inferInstanceAs (Decidable (_ ∧ _))

section Spoilt

/-- The phrase that is one place. -/
def placePhrase (name : List Char) (valid : Piece.Valid (.place name)) : Phrase where
  parts := [.place name]
  valid := by simpa using valid
  unsigned := by simp

def emptyPhrase : Phrase := ⟨[], by simp, by simp⟩

theorem valid_fieldOf (n : Nat) : Piece.Valid (.place (fieldOf (n + 1))) := by
  refine ⟨by simp [fieldOf], fun c member => ?_⟩
  rw [(mem_replicate.mp member).2]
  decide

theorem eq_ok_of_toOption {outcome : Except GoError (List Char)}
    (same : outcome.toOption = some text) : outcome = .ok text := by
  cases outcome with
  | ok result => exact congrArg _ (Option.some.inj same)
  | error err => cases same

/-- A text that is left as it is where no place has a value. -/
theorem isData_of_fixed {depth : Nat} (short : text.length ≤ n)
    (ran : expandTemplate (referring n v) depth text = .returns (.ok text)) : IsData text := by
  obtain ⟨-, noGroup, single, shorter⟩ := expandTemplate_blank short ran
  refine ⟨noGroup, single, ?_⟩
  cases found : hasPlace text with
  | false => rfl
  | true =>
    have less := shorter noGroup single found
    omega

/-- The text of a group is data where it is put in. -/
def GroupIsData (v : List Char) : Prop :=
  ∀ r before group after values,
    Resolves r (Template.layout (.grouped before group after)).flat values →
    (group.map Phrase.parts).fill values = some v →
    ExpandsTo r (Template.layout (.grouped before group after)).text
      ((Template.layout (.grouped before group after)).fill values)

/-- If groups with a text are expanded to it, the text is not looked at again. -/
theorem isData_of_groups (expands : GroupIsData v) : IsData v := by
  have value : Settles (fun depth => resolveFunc (expandTemplate (referring (v.length + 1) v) depth)
      (referring (v.length + 1) v) (fieldOf (v.length + 1))) (some v) :=
    ⟨0, fun more _ => ⟨.ok v, resolve_field _, rfl⟩⟩
  have resolved : Resolves (referring (v.length + 1) v)
      [.text '[', .place (fieldOf (v.length + 1)), .text ']'] fun _ => some v := by
    intro name member
    have same : name = fieldOf (v.length + 1) := by simpa using member
    rw [same]
    exact value
  have inner : ExpandsTo (referring (v.length + 1) v)
      (spell [.place (fieldOf (v.length + 1))]) (some (v ++ [])) :=
    (placePhrase _ (valid_fieldOf v.length)).clean.expands
      (resolved.mono fun name member => mem_cons_of_mem _ (by simpa [placePhrase] using member))
  have whole := expands (referring (v.length + 1) v) emptyPhrase
    ⟨placePhrase _ (valid_fieldOf v.length), none⟩ emptyPhrase (fun _ => some v) resolved
    (congrArg some (append_nil v))
  obtain ⟨innerDepth, inner⟩ := inner
  obtain ⟨depth, whole⟩ := whole
  obtain ⟨one, ranOne, sameOne⟩ := inner (max innerDepth depth) (by omega)
  obtain ⟨two, ranTwo, sameTwo⟩ := whole (max innerDepth depth + 1) (by omega)
  beta_reduce at ranOne ranTwo
  rw [eq_ok_of_toOption sameOne] at ranOne
  rw [eq_ok_of_toOption sameTwo] at ranTwo
  have text : (Template.layout (.grouped emptyPhrase
      ⟨placePhrase _ (valid_fieldOf v.length), none⟩ emptyPhrase)).text =
      [] ++ '[' :: (spell [.place (fieldOf (v.length + 1))] ++ ']' :: []) := by
    simp [Template.layout, Layout.map, Layout.text, Layout.flat, Alternatives.map,
      Alternatives.flat, emptyPhrase, placePhrase, Piece.spell]
  rw [text, expandTemplate_group (by simp) (by simp), ranOne, Run.returns_bind] at ranTwo
  have again : expandTemplate (referring (v.length + 1) v) (max innerDepth depth) v =
      .returns (.ok v) := by simpa using ranTwo
  exact isData_of_fixed (le_succ _) again

theorem resolves_blank
    (short : ∀ name, .place name ∈ ps → name.length < n) : Resolves (referring n v) ps blank :=
  fun name member => ⟨0, fun _ _ => resolve_blank _ (short name member)⟩

def optionalName : List Char := "x?".toList

/-- The value alone. -/
def valueAlone : Template := .plain ⟨placePhrase "value".toList (by decide), none⟩

/-- The value, and behind it an optional place. -/
def valueAndPlace : Template :=
  .plain ⟨⟨[valuePiece, .place optionalName], by decide, by decide⟩, none⟩

/-- The value behind a group. -/
def valueBehindGroup : Template :=
  .grouped emptyPhrase ⟨⟨[.text 'x'], by decide, by decide⟩,
    some (placePhrase optionalName (by decide))⟩ (placePhrase "value".toList (by decide))

/-- The first alternative of `valueBehindGroup` is taken, whatever stands behind the second. -/
theorem first_alternative {n : Nat} {v behind : List Char} (noGroup : '[' ∉ behind)
    (single : '|' ∉ behind) (short : behind.length + 6 ≤ n) :
    ExpandsTo (referring n v) (['x'] ++ '|' :: (spell [.place optionalName] ++ behind))
      (some ['x']) := by
  have sign : ∀ c ∈ ['[', '|'], c ∉ spell [.place optionalName] := by decide
  have second : ExpandsTo (referring n v) (spell [.place optionalName] ++ behind)
      (fill blank (pieces (spell [.place optionalName] ++ behind))) := by
    apply field_expands
    · simpa using ⟨sign '[' (by decide), noGroup⟩
    · simpa using ⟨sign '|' (by decide), single⟩
    · apply resolves_blank
      intro name member
      have within := length_name_lt member
      have six : (spell [.place optionalName]).length = 6 := by decide
      rw [length_append, six] at within
      omega
  have none : Resolves (referring n v) (pieces ['x']) blank := resolves_blank nofun
  have first : ExpandsTo (referring n v) ['x'] (some ['x']) :=
    field_expands (by decide) (by decide) none
  refine or_expands ?_ ?_ first second
  · simpa using ⟨sign '[' (by decide), noGroup⟩
  · simpa using ⟨sign '|' (by decide), single⟩

/-- What the theorem says of a value. -/
def ValueIsData (val : List Char) : Prop :=
  ∀ r t values, IsValueTemplate t → Resolves r (insertValue val t.layout.flat) values →
    GroupSettled t (withValue values val) →
    ValueResolvesTo r t.layout.text val (t.layout.fill (withValue values val))

variable (data : ValueIsData val)

include data

/-- A run of a template that has a place, in a resource without values. -/
theorem data_ran (template : IsValueTemplate t) (settled : GroupSettled t (withValue blank val))
    (short : ∀ p ∈ t.layout.flat, p.spell.length ≤ 12)
    (found : hasPlace (spell (insertValue val t.layout.flat)))
    (filled : t.layout.fill (withValue blank val) = some text) :
    ∃ depth, ∀ more, depth ≤ more →
      expandTemplate (referring (val.length + 12) []) more (spell (insertValue val t.layout.flat)) =
        .returns (.ok text) := by
  have resolved : Resolves (referring (val.length + 12) []) (insertValue val t.layout.flat) blank :=
    resolves_blank fun name member => by
      have within := short _ (place_of_mem_insertValue val member)
      simp only [Piece.spell, length_cons, length_append] at within
      omega
  obtain ⟨depth, returned⟩ := data _ t blank template resolved settled
  refine ⟨depth, fun more deep => ?_⟩
  obtain ⟨outcome, ran, same⟩ := returned more deep
  have ret : replaceAll valuePlace val t.layout.text = spell (insertValue val t.layout.flat) :=
    replaceAll_spell val t.valid_flat
  simp only [resolveValueTemplate, if_neg (text_ne_nil template.once), ret, found, ↓reduceIte]
    at ran
  rw [ran, eq_ok_of_toOption (same.trans filled)]

theorem unsigned_of_data : '[' ∉ val ∧ '|' ∉ val := by
  have ret : spell (insertValue val valueAndPlace.layout.flat) =
      val ++ spell [.place optionalName] := by
    change spell (literal val ++ [.place optionalName]) = _
    rw [spell_append, spell_literal]
  have found : hasPlace (val ++ spell [.place optionalName]) := by
    have apart : Apart (spell [.place optionalName]) := apart_spell (by decide)
    rw [hasPlace, pieces_append apart, any_append, Bool.or_eq_true]
    exact .inr (by decide)
  have template : IsValueTemplate valueAndPlace := ⟨by decide, .inl ⟨_, rfl⟩⟩
  have filled : valueAndPlace.layout.fill (withValue blank val) = some (val ++ []) := rfl
  obtain ⟨depth, ran⟩ := data_ran data template (by rintro _ _ _ ⟨⟩) (by decide)
    (by rw [ret, found]) filled
  have last := ran depth (le_refl depth)
  rw [ret, append_nil] at last
  have short : (val ++ spell [.place optionalName]).length ≤ val.length + 12 := by
    rw [length_append]
    exact Nat.add_le_add_left (by decide) _
  obtain ⟨-, noGroup, single, -⟩ := expandTemplate_blank short last
  exact ⟨noGroup, single⟩

theorem noPlace_of_data : hasPlace val = false := by
  cases found : hasPlace val with
  | false => rfl
  | true =>
    have ret : spell (insertValue val valueAlone.layout.flat) = val := by
      change spell (literal val ++ []) = val
      rw [append_nil, spell_literal]
    have template : IsValueTemplate valueAlone := ⟨by decide, .inl ⟨_, rfl⟩⟩
    have filled : valueAlone.layout.fill (withValue blank val) = some (val ++ []) := rfl
    obtain ⟨depth, ran⟩ := data_ran data template nofun (by decide) (by rw [ret, found]) filled
    have last := ran depth (le_refl depth)
    rw [ret, append_nil] at last
    rw [← found]
    exact (isData_of_fixed (le_add_right _ _) last).noPlace

theorem noEnd_of_data : ']' ∉ val := by
  intro member
  obtain ⟨noGroup, single⟩ := unsigned_of_data data
  obtain ⟨b, a, reversed, last⟩ := eq_append_cons_of_mem (mem_reverse.mpr member)
  have parts : val = a.reverse ++ ']' :: b.reverse := by
    rw [← reverse_reverse val, reversed]
    simp
  have template : IsValueTemplate valueBehindGroup :=
    ⟨by decide, .inr ⟨optionalName, by decide, by decide⟩⟩
  have settled : GroupSettled valueBehindGroup (withValue blank val) := by
    intro before group after same g filled
    cases same
    cases filled
    exact ⟨⟨by decide, by decide, by decide⟩, .inr ⟨by decide, by decide⟩⟩
  have filled : valueBehindGroup.layout.fill (withValue blank val) =
    some ('x' :: (val ++ [])) := rfl
  have found : hasPlace (spell (insertValue val valueBehindGroup.layout.flat)) := by
    rfl
  obtain ⟨depth, ran⟩ := data_ran data template settled (by decide) found filled
  have sizes : val.length = a.length + b.length + 1 := by
    rw [parts]
    simp
    omega
  have inner : ExpandsTo (referring (val.length + 12) [])
      (['x'] ++ '|' :: (spell [.place optionalName] ++ ']' :: a.reverse)) (some ['x']) := by
    rw [parts] at noGroup single
    apply first_alternative
    · simpa using fun member => noGroup (by simp [member])
    · simpa using fun member => single (by simp [member])
    · simp only [length_cons, length_reverse]
      omega
  obtain ⟨innerDepth, inner⟩ := inner
  obtain ⟨one, ranOne, sameOne⟩ := inner (max innerDepth depth) (by omega)
  beta_reduce at ranOne
  rw [eq_ok_of_toOption sameOne] at ranOne
  have whole := ran (max innerDepth depth + 1) (by omega)
  have text : spell (insertValue val valueBehindGroup.layout.flat) =
      [] ++ '[' :: ((['x'] ++ '|' :: (spell [.place optionalName] ++ ']' :: a.reverse)) ++
        ']' :: b.reverse) := by
    change '[' :: 'x' :: '|' :: (spell [.place optionalName] ++ ']' ::
      spell (literal val ++ [])) = _
    rw [append_nil, spell_literal, parts]
    simp
  rw [text, expandTemplate_group (by simp) (by simpa using last), ranOne, Run.returns_bind]
    at whole
  have short : ([] ++ ['x'] ++ b.reverse).length ≤ val.length + 12 := by
    simp only [length_append, length_reverse, length_nil, length_singleton]
    omega
  have shrunk := (expandTemplate_blank short whole).1
  simp only [length_append, length_reverse, length_nil, length_cons] at shrunk
  omega

end Spoilt

/-- Values in a template without a group are data, and so is what goes wrong in a group.
The text of a group, and a value put in for its place, are data exactly if they have
nothing in them that a template would have. -/
theorem template_values_are_data_iff (v val : List Char) :
    (∀ r (a : Alternatives Phrase) values, Resolves r (a.map Phrase.parts).flat values →
      ExpandsTo r (a.map Phrase.parts).text ((a.map Phrase.parts).fill values)) ∧
    (∀ r before (group : Alternatives Phrase) after values,
      Resolves r (Template.layout (.grouped before group after)).flat values →
      (group.map Phrase.parts).fill values = none →
      ExpandsTo r (Template.layout (.grouped before group after)).text none) ∧
    (GroupIsData v ↔ IsData v) ∧ (ValueIsData val ↔ IsPlain val) := by
  have around : ∀ (before : Phrase) (group : Alternatives Phrase) (after : Phrase) r values,
      Resolves r (Template.layout (.grouped before group after)).flat values →
      (∀ g, (group.map Phrase.parts).fill values = some g → IsData g) →
      ExpandsTo r (Template.layout (.grouped before group after)).text
        ((Template.layout (.grouped before group after)).fill values) := by
    intro before group after r values resolved data
    apply group_fills (before.not_mem_text (by decide)) (after.not_mem_text (by decide))
      group.clean_parts _ resolved
    exact fun g filled => (data g filled).clean_between before after
  refine ⟨fun r a values resolved => a.clean_parts.expands resolved, ?_, ⟨?_, ?_⟩, ?_, ?_⟩
  · intro r before group after values resolved failed
    have none : (Template.layout (.grouped before group after)).fill values = none := by
      change (do return (← fill values before.parts) ++ (← (group.map Phrase.parts).fill values) ++
        (← fill values after.parts)) = none
      rw [failed]
      cases fill values before.parts <;> rfl
    rw [← none]
    apply around before group after r values resolved
    intro g filled
    rw [failed] at filled
    cases filled
  · exact isData_of_groups
  · intro data r before group after values resolved filled
    apply around before group after r values resolved
    intro g same
    rw [filled] at same
    cases same
    exact data
  · intro data
    obtain ⟨noGroup, single⟩ := unsigned_of_data data
    exact ⟨⟨noGroup, single, noPlace_of_data data⟩, noEnd_of_data data⟩
  · intro plain r t values template resolved settled
    exact value_resolves plain t template resolved settled

/-- A resource with a field of the spec. -/
def withField (value : String) : Resource where
  resourceConfig := { name := "google_example", kind := "Example" }
  spec := [("field", .string value)]
  getResourceID := .error (.plain "invalid empty value for resource ID")
  getValueFromReference := fun _ => .ok none

def fieldGroup : List Char := "a/[\x7b\x7bfield\x7d\x7d]".toList

/-- Of the value `b[c]` the brackets are lost, at `]b[` the call panics, and the value
`[{{field}}]` is expanded without end. -/
theorem group_value_expanded :
    expandTemplate (withField "b[c]") 9 fieldGroup = .returns (.ok "a/bc".toList) ∧
    expandTemplate (withField "]b[") 9 fieldGroup = .panics ∧
    (fun depth => expandTemplate (withField "[\x7b\x7bfield\x7d\x7d]") depth fieldGroup) =
      fun _ => .runsOn := by
  refine ⟨by decide, by decide, ?_⟩
  funext depth
  induction depth with
  | zero => rfl
  | succ depth ih =>
    cases depth with
    | zero => rfl
    | succ depth =>
      exact ih

end ConfigConnector.Krmtotf
