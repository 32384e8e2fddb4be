import ConfigConnector.Lib.GoSlice
import ConfigConnector.Lib.Protobuf

/- The sorting of the lists in a message, for comparisons in which the order does not matter. -/
namespace ConfigConnector.Direct

open Proto List

variable {σ κ τ : Type} [LinearOrder τ]

/-- The texts that the elements of lists are sorted by: the JSON of a message of a type, and other
values as `%+v` prints them. -/
structure Texts (σ τ : Type) where
  json : String → List (Value σ) → τ
  print : Value σ → τ

def Texts.key (texts : Texts σ τ) : Value σ → τ
  | .message type fields => texts.json type fields
  | value => texts.print value

/-- `slices.SortFunc`; in what order it leaves items with the same key is not said. -/
structure SortFunc (σ τ : Type) [LinearOrder τ] where
  sort : (Value σ → τ) → List (Value σ) → List (Value σ)
  perm : ∀ key items, (sort key items).Perm items
  sorted : ∀ key items, (sort key items).Pairwise fun a b => key a ≤ key b

section

variable (texts : Texts σ τ) (sortFunc : SortFunc σ τ)

/-- The loops over elements that were sorted inside. -/
def sortProtoReflectList (items : List (Value σ)) : List (Value σ) := sortFunc.sort texts.key items

mutual

/-- `SortRepeatedFields` of a message; it goes on in what the fields hold, in the values of maps
and in the elements of lists. -/
def sortRepeatedFields : Value σ → Value σ
  | .node tag parts =>
    .node tag <| match tag with
      | .list => sortProtoReflectList texts sortFunc (sortParts parts)
      | _ => sortParts parts

def sortParts : List (Value σ) → List (Value σ)
  | [] => []
  | part :: rest => sortRepeatedFields part :: sortParts rest

end

end

variable {texts : Texts σ τ} {sortFunc : SortFunc σ τ}

theorem sortParts_eq_map (parts : List (Value σ)) :
    sortParts texts sortFunc parts = parts.map (sortRepeatedFields texts sortFunc) := by
  induction parts with
  | nil => rw [sortParts, map_nil]
  | cons part rest ih => rw [sortParts, ih, map_cons]

/-- The parts of a sorted value are the parts, sorted; those of a list are in another order. -/
theorem sorted_node (tag : Tag σ) (parts : List (Value σ)) :
    ∃ sorted, sortRepeatedFields texts sortFunc (.node tag parts) = .node tag sorted ∧
      sorted.Perm (parts.map (sortRepeatedFields texts sortFunc)) ∧
      (tag ≠ .list → sorted = parts.map (sortRepeatedFields texts sortFunc)) := by
  rw [← sortParts_eq_map]
  cases tag with
  | list => exact ⟨_, rfl, sortFunc.perm _ _, fun other => absurd rfl other⟩
  | unset | scalar s | message type | map keys => exact ⟨_, rfl, .refl _, fun _ => rfl⟩

/-- Only the order of lists is left open. -/
abbrev SameUpToOrder : Value σ → Value σ → Prop := Rose.Reordered (· = .list)

theorem sorted_reordered (v : Value σ) : SameUpToOrder v (sortRepeatedFields texts sortFunc v) := by
  induction v using Rose.tree with
  | step tag parts each =>
    have inside : SameUpToOrder (.node tag parts)
        (.node tag (parts.map (sortRepeatedFields texts sortFunc))) := by
      apply Rose.Reordered.parts
      rw [List.forall₂_map_right_iff, List.forall₂_same]
      exact each
    obtain ⟨sorted, same, perm, kept⟩ := @sorted_node _ _ _ texts sortFunc tag parts
    rw [same]
    by_cases list : tag = .list
    · exact inside.trans (.perm list perm.symm)
    · rwa [kept list]

section Canonical

variable (kind : σ → κ)

/-- The elements of a list are messages of one type, or scalars of one kind. -/
def Elements (tags : List (Tag σ)) : Prop :=
  (∃ type, ∀ tag ∈ tags, tag = .message type) ∨
    ∃ k, ∀ tag ∈ tags, ∃ s, tag = .scalar s ∧ kind s = k

inductive Typed : Value σ → Prop where
  | node {tag : Tag σ} {parts : List (Value σ)}
      (elements : tag = .list → Elements kind (parts.map Rose.tag))
      (scalar : ∀ s, tag = .scalar s → parts = []) (below : ∀ part ∈ parts, Typed part) :
      Typed (.node tag parts)

/-- Different elements of a list have different texts. -/
structure Texts.Tell (texts : Texts σ τ) : Prop where
  json : ∀ type, Function.Injective (texts.json type)
  print : ∀ s t, kind s = kind t → texts.print (.scalar s) = texts.print (.scalar t) → s = t

variable {kind} {v w : Value σ}

theorem Typed.reordered (typed : Typed kind v) (same : SameUpToOrder v w) : Typed kind w := by
  induction same with
  | refl a => exact typed
  | @perm tag parts others here perm =>
    obtain ⟨elements, -, below⟩ := typed
    refine .node (fun list => ?_) (fun s scalar => ?_) fun part member =>
      below part (perm.mem_iff.mpr member)
    · have tags : ∀ tag ∈ others.map Rose.tag, tag ∈ parts.map Rose.tag :=
        fun tag => (perm.map Rose.tag).mem_iff.mpr
      exact (elements list).imp
        (fun ⟨type, all⟩ => ⟨type, fun tag member => all tag (tags tag member)⟩)
        fun ⟨k, all⟩ => ⟨k, fun tag member => all tag (tags tag member)⟩
    · cases here
      cases scalar
  | @part tag a b before after inner ih =>
    obtain ⟨elements, scalar, below⟩ := typed
    refine .node (fun list => ?_) (fun s isScalar => ?_) fun part member => ?_
    · have old := elements list
      simpa [inner.tag_eq] using old
    · simpa using scalar s isScalar
    · rw [mem_append, mem_cons] at member
      rcases member with earlier | rfl | later
      · exact below part (by simp [earlier])
      · exact ih (below a (by simp))
      · exact below part (by simp [later])
  | trans _ _ first second => exact second (first typed)

omit [LinearOrder τ] in
/-- Elements of one list with the same key are the same. -/
theorem eq_of_key (tell : texts.Tell kind) {tags : List (Tag σ)} (elements : Elements kind tags)
    (first : v.tag ∈ tags) (second : w.tag ∈ tags) (typed : Typed kind v) (other : Typed kind w)
    (same : texts.key v = texts.key w) : v = w := by
  obtain ⟨-, leaf, -⟩ := typed
  obtain ⟨-, otherLeaf, -⟩ := other
  rcases elements with ⟨type, messages⟩ | ⟨k, scalars⟩
  · cases messages _ first
    cases messages _ second
    rw [tell.json type same]
  obtain ⟨s, rfl, here⟩ := scalars _ first
  obtain ⟨t, rfl, there⟩ := scalars _ second
  rw [leaf s rfl, otherLeaf t rfl] at same
  rw [leaf s rfl, otherLeaf t rfl, tell.print s t (here.trans there.symm) same]

/-- Values that differ in the order of lists are sorted alike. -/
theorem sorted_eq (tell : texts.Tell kind) (typed : Typed kind v) (same : SameUpToOrder v w) :
    sortRepeatedFields texts sortFunc v = sortRepeatedFields texts sortFunc w := by
  induction same with
  | refl a => rfl
  | @perm tag parts others here perm =>
    subst here
    rw [sortRepeatedFields, sortRepeatedFields, sortParts_eq_map, sortParts_eq_map]
    congr 1
    have both := perm.map (sortRepeatedFields texts sortFunc)
    obtain ⟨elements, -, below⟩ := typed
    have element : ∀ v ∈ parts.map (sortRepeatedFields texts sortFunc),
        v.tag ∈ parts.map Rose.tag ∧ Typed kind v := by
      intro v member
      obtain ⟨part, inParts, rfl⟩ := mem_map.mp member
      have order := @sorted_reordered _ _ _ texts sortFunc part
      exact ⟨mem_map.mpr ⟨part, inParts, order.tag_eq⟩, (below part inParts).reordered order⟩
    refine List.Perm.eq_of_pairwise ?_ (sortFunc.sorted _ _) (sortFunc.sorted _ _)
      ((sortFunc.perm _ _).trans (both.trans (sortFunc.perm _ _).symm))
    intro a b inFirst inSecond le ge
    have first := element a ((sortFunc.perm _ _).mem_iff.mp inFirst)
    have second := element b (both.mem_iff.mpr ((sortFunc.perm _ _).mem_iff.mp inSecond))
    exact eq_of_key tell (elements rfl) first.1 second.1 first.2 second.2 (le_antisymm le ge)
  | part before after inner ih =>
    obtain ⟨-, -, below⟩ := typed
    have parts := ih (below _ (by simp))
    simp only [sortRepeatedFields, sortParts_eq_map, map_append, map_cons, parts]
  | trans one _ first second =>
    exact (first typed).trans (second (typed.reordered one))

/-- The sorting of lists at any depth keeps the elements, has nothing left to do the second time,
and takes values that differ in the order of lists to one. -/
theorem sorted_canonical (tell : texts.Tell kind) (typed : Typed kind v) :
    (∀ tag parts, ∃ sorted,
      sortRepeatedFields texts sortFunc (.node tag parts) = .node tag sorted ∧
      sorted.Perm (parts.map (sortRepeatedFields texts sortFunc)) ∧
      (tag ≠ .list → sorted = parts.map (sortRepeatedFields texts sortFunc))) ∧
    sortRepeatedFields texts sortFunc (sortRepeatedFields texts sortFunc v) =
      sortRepeatedFields texts sortFunc v ∧
    ∀ w, SameUpToOrder v w →
      sortRepeatedFields texts sortFunc w = sortRepeatedFields texts sortFunc v :=
  ⟨sorted_node, (sorted_eq tell typed (sorted_reordered v)).symm,
    fun _ same => (sorted_eq tell typed same).symm⟩

end Canonical

section Nested

/-- The word of a tag, as numbered characters. -/
def word : Tag Nat → List Nat
  | .unset => [0]
  | .scalar s => [1, s]
  | .message type => 2 :: type.toList.map Char.toNat
  | .list => [3]
  | .map keys => 4 :: keys

mutual

/-- The text of a value, in words of which the empty one ends a value. -/
def text : Value Nat → List (List Nat)
  | .node tag parts => word tag :: (textOf parts ++ [[]])

def textOf : List (Value Nat) → List (List Nat)
  | [] => []
  | part :: rest => text part ++ textOf rest

end

theorem word_injective : Function.Injective word := by
  have chars : Function.Injective (List.map Char.toNat) :=
    map_injective_iff.mpr fun _ _ => Char.toNat_inj.mp
  intro s t same
  cases s <;> cases t <;> simp_all [word, chars.eq_iff, String.toList_inj]

theorem not_ends (value : Value Nat) (rest after : List (List Nat)) :
    text value ++ rest ≠ [] :: after := by
  rcases value with ⟨tag, parts⟩
  cases tag <;> simp [text, word]

theorem textOf_append_inj {parts : List (Value Nat)} (each : ∀ part ∈ parts, ∀ b rest other,
      text part ++ rest = text b ++ other → part = b ∧ rest = other) :
    ∀ others rest other, textOf parts ++ [] :: rest = textOf others ++ [] :: other →
      parts = others ∧ rest = other := by
  induction parts with
  | nil =>
    rintro (_ | ⟨b, others⟩) rest other same
    · exact ⟨rfl, (cons.inj same).2⟩
    · simp only [textOf, append_assoc] at same
      exact absurd same.symm (not_ends b _ _)
  | cons part parts ih =>
    rintro (_ | ⟨b, others⟩) rest other same <;> simp only [textOf, append_assoc] at same
    · exact absurd same (not_ends part _ _)
    · obtain ⟨rfl, later⟩ := each part (mem_cons_self ..) b _ _ same
      obtain ⟨rfl, rfl⟩ := ih (fun p member => each p (mem_cons_of_mem _ member)) others _ _ later
      exact ⟨rfl, rfl⟩

/-- A text shows where it ends. -/
theorem text_append_inj (a : Value Nat) : ∀ b rest other,
    text a ++ rest = text b ++ other → a = b ∧ rest = other := by
  induction a using Rose.tree with
  | step tag parts each =>
    rintro ⟨tag', others⟩ rest other same
    simp only [text, append_assoc, cons_append, nil_append, cons.injEq] at same
    obtain ⟨rfl, rfl⟩ := textOf_append_inj each others rest other same.2
    exact ⟨by rw [word_injective same.1], rfl⟩

/-- Texts of messages with their types, in lexicographic order. -/
def typedTexts : Texts Nat (List (List Nat)) :=
  ⟨fun type fields => text (.message type fields), text⟩

theorem typedTexts_tell : typedTexts.Tell fun _ => () := by
  have injective : Function.Injective text := fun a b same =>
    (text_append_inj a b [] [] (by rw [same])).1
  refine ⟨fun type fields others same => ?_, fun s t _ same => ?_⟩
  · cases injective same
    rfl
  · cases injective same
    rfl

def mergeSortFunc : SortFunc σ τ where
  sort key items := items.mergeSort fun a b => key a ≤ key b
  perm _ _ := mergeSort_perm _ _
  sorted := GoSlice.sorted_by

abbrev numbers (items : List Nat) : Value Nat := .message "Numbers" [.list (items.map .scalar)]

theorem typed_numbers (items : List Nat) : Typed (fun _ => ()) (numbers items) := by
  have scalar : ∀ n, Typed (fun _ : Nat => ()) (.scalar n) := fun n =>
    .node nofun (by simp) (by simp)
  refine .node nofun nofun fun part member => ?_
  rw [mem_singleton.mp member]
  exact .node (fun _ => .inr ⟨(), by simp [Rose.tag]⟩) nofun (by simp [scalar])

/-- A list of messages with lists, in another order at both levels. -/
theorem sorted_canonical_nested :
    Typed (fun _ => ()) (.message "Lists" [.list [numbers [2, 1], numbers [3]]]) ∧
    sortRepeatedFields typedTexts mergeSortFunc
        (.message "Lists" [.list [numbers [3], numbers [1, 2]]]) =
      sortRepeatedFields typedTexts mergeSortFunc
        (.message "Lists" [.list [numbers [2, 1], numbers [3]]]) := by
  have typed : Typed (fun _ => ()) (.message "Lists" [.list [numbers [2, 1], numbers [3]]]) := by
    refine .node nofun nofun fun part member => ?_
    rw [mem_singleton.mp member]
    exact .node (fun _ => .inl ⟨"Numbers", by simp [Rose.tag]⟩) nofun (by simp [typed_numbers])
  have below : SameUpToOrder (numbers [2, 1]) (numbers [1, 2]) :=
    .part [] [] (.perm rfl (.swap _ _ _))
  have swapped : SameUpToOrder (.message "Lists" [.list [numbers [2, 1], numbers [3]]])
      (.message "Lists" [.list [numbers [3], numbers [1, 2]]]) :=
    .part [] [] ((Rose.Reordered.part [] [numbers [3]] below).trans (.perm rfl (.swap _ _ _)))
  exact ⟨typed, (sorted_canonical typedTexts_tell typed).2.2 _ swapped⟩

end Nested

end ConfigConnector.Direct
