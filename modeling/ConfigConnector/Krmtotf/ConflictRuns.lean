import ConfigConnector.Krmtotf.ConflictRemoval
import ConfigConnector.Krmtotf.FieldTree

/- The removal of all fields with conflicts, over every order in which the fields of a
schema may be visited. -/
namespace ConfigConnector.Krmtotf

open K8s Text List Fallible

variable {rc : ResourceConfig} {spec state obj result : Fields} {cut more : Cut} {value : Value}
  {path tfPath above : List String} {schemas : SchemaMap} {k : String} {attributes : Attributes}
  {elem : Elem}

/-- A conflicting key of the field is found in the spec. -/
def Sees (rc : ResourceConfig) (spec : Fields) (tfPath : List String) (attributes : Attributes) :
    Prop :=
  clashes rc spec (conflictingTFKeys attributes tfPath) ≠ []

/-- The paths at which the fields with such a key are looked for, below the path `above`. -/
def taken (rc : ResourceConfig) (spec : Fields) (above : List String) (schemas : SchemaMap) : Cut :=
  fun path => ∃ tfPath attributes, Visited schemas tfPath attributes ∧
    krmPathOf rc (above ++ tfPath) = path ∧ Sees rc spec (above ++ tfPath) attributes

section Visits

/-- A field by its Terraform path. -/
abbrev Visit : Type := List String × Attributes

mutual

/-- The fields that are visited below the path `above`, in the order of the visits. -/
def visits (above : List String) : SchemaMap → List Visit
  | [] => []
  | (k, s) :: rest => visitsAt (above ++ [k]) s ++ visits above rest

def visitsAt (tfPath : List String) : Schema → List Visit
  | .mk attributes elem => (tfPath, attributes) :: visitsBelow tfPath attributes elem

def visitsBelow (tfPath : List String) (attributes : Attributes) : Elem → List Visit
  | .resource fields => if isObjectField attributes then visits tfPath fields else []
  | .none => []
  | .schema _ => []

end

theorem visits_eq_flatMap (above : List String) (schemas : SchemaMap) :
    visits above schemas = schemas.flatMap fun entry => visitsAt (above ++ [entry.1]) entry.2 := by
  induction schemas with
  | nil => rw [visits, flatMap_nil]
  | cons entry rest ih => rw [visits, ih, flatMap_cons]

theorem mem_visitsBelow {v : Visit} :
    v ∈ visitsBelow tfPath attributes elem ↔ ∃ fields, elem = .resource fields ∧
      isObjectField attributes = true ∧ v ∈ visits tfPath fields := by
  cases elem with
  | none | schema _ => simp [visitsBelow]
  | resource fields =>
    rw [visitsBelow]
    split
    · rename_i object
      simp [object]
    · rename_i other
      simp [other]

theorem visited_of_mem (s : Schema) : ∀ (above : List String) (k : String) (schemas : SchemaMap),
    (k, s) ∈ schemas → (path, attributes) ∈ visitsAt (above ++ [k]) s →
      ∃ rest, Visited schemas (k :: rest) attributes ∧ path = above ++ k :: rest := by
  induction s using Schema.tree with
  | step around elem _ inside =>
    intro above k schemas member found
    rw [visitsAt, mem_cons] at found
    rcases found with same | below
    · cases same
      exact ⟨[], .here member, rfl⟩
    obtain ⟨fields, rfl, entered, deeper⟩ := mem_visitsBelow.mp below
    rw [visits_eq_flatMap, mem_flatMap] at deeper
    obtain ⟨⟨name, s⟩, inFields, deeper⟩ := deeper
    obtain ⟨rest, visited, rfl⟩ := inside fields rfl name s inFields (above ++ [k]) name fields
      inFields deeper
    exact ⟨name :: rest, .into member entered visited, (append_cons _ _ _).symm⟩

theorem mem_visits : (path, attributes) ∈ visits above schemas ↔
    ∃ rest, Visited schemas rest attributes ∧ path = above ++ rest := by
  constructor
  · intro member
    rw [visits_eq_flatMap, mem_flatMap] at member
    obtain ⟨entry, inSchemas, found⟩ := member
    obtain ⟨rest, visited, same⟩ := visited_of_mem entry.2 above entry.1 schemas inSchemas found
    exact ⟨_, visited, same⟩
  · rintro ⟨rest, visited, rfl⟩
    induction visited generalizing above with
    | here member =>
      rw [visits_eq_flatMap, mem_flatMap]
      refine ⟨_, member, ?_⟩
      rw [visitsAt]
      exact .head _
    | @into schemas fields k around attributes path member entered below ih =>
      rw [visits_eq_flatMap, mem_flatMap]
      refine ⟨_, member, ?_⟩
      rw [visitsAt, append_cons above k path]
      exact .tail _ (mem_visitsBelow.mpr ⟨_, rfl, entered, ih⟩)

end Visits

section Step

/-- The lookups of a run find what they look for, or nothing, and for a field of the state one
conflicting key at most. -/
structure Readable (rc : ResourceConfig) (spec state : Fields) (all : List Visit) : Prop where
  proper : Proper (.map state)
  present : ∀ v ∈ all, krmPathOf rc v.1 ≠ []
  passable : ∀ v ∈ all, Passable (.map state) (krmPathOf rc v.1)
  keys : ∀ v ∈ all, ∀ key ∈ conflictingTFKeys v.2 v.1,
    krmPathOf rc (conflictingTFPath key) ≠ [] ∧
      Passable (.map spec) (krmPathOf rc (conflictingTFPath key))
  nested : ∀ u ∈ all, ∀ v ∈ all, u.1 <+: v.1 → dig (.map state) (krmPathOf rc v.1) ≠ none →
    krmPathOf rc u.1 <+: krmPathOf rc v.1
  once : ∀ v ∈ all, dig (.map state) (krmPathOf rc v.1) ≠ none →
    (clashes rc spec (conflictingTFKeys v.2 v.1)).length ≤ 1

/-- A round of the loop for one field, without the fields inside of it. -/
def visit (rc : ResourceConfig) (spec state : Fields) (v : Visit) : Except GoError Fields :=
  match dig (.map state) (krmPathOf rc v.1) with
  | none => .ok state
  | some _ => (conflictingTFKeys v.2 v.1).foldlM
      (removeIfConflicting rc spec (krmPathOf rc v.1)) state

/-- What is taken out in visits. -/
def takenBy (rc : ResourceConfig) (spec : Fields) (done : List Visit) : Cut :=
  fun path => ∃ v ∈ done, krmPathOf rc v.1 = path ∧ Sees rc spec v.1 v.2

variable {all done : List Visit} {u v : Visit}

theorem takenBy_append (first second : List Visit) :
    takenBy rc spec (first ++ second) =
      (takenBy rc spec first).union (takenBy rc spec second) := by
  funext path
  simp only [takenBy, Cut.union, mem_append, or_and_right, exists_or]

theorem takenBy_one (sees : Sees rc spec v.1 v.2) :
    takenBy rc spec [v] = .only (krmPathOf rc v.1) := by
  funext path
  simp [takenBy, Cut.only, sees, eq_comm]

/-- Where there is nothing to take out, more is not taken out. -/
theorem strip_union_absent (proper : Proper (.map state))
    (absent : ∀ path, path ≠ [] → more path → dig (.map (strip cut state)) path = none) :
    strip (cut.union more) state = strip cut state := by
  rw [← strip_strip, strip_of_absent (proper.strip cut) absent]

theorem absent_below {first : List String} (before : first <+: path)
    (absent : dig value first = none) : dig value path = none := by
  obtain ⟨rest, rfl⟩ := before
  rw [dig_append, absent]
  rfl

/-- With a field everything that is looked for inside of it is absent. -/
theorem Readable.absent (readable : Readable rc spec state all) (first : u ∈ all) (second : v ∈ all)
    (inside : u.1 <+: v.1) (absent : dig (.map (strip cut state)) (krmPathOf rc u.1) = none) :
    dig (.map (strip cut state)) (krmPathOf rc v.1) = none := by
  by_cases here : dig (.map state) (krmPathOf rc v.1) = none
  · exact absent_strip readable.proper (readable.present v second) here
  · exact absent_below (readable.nested u first v second inside here) absent

theorem visit_idle (keys : ∀ key ∈ conflictingTFKeys v.2 v.1,
      Passable (.map spec) (krmPathOf rc (conflictingTFPath key)))
    (idle : dig (.map obj) (krmPathOf rc v.1) = none ∨ ¬ Sees rc spec v.1 v.2) :
    visit rc spec obj v = .ok obj := by
  rw [visit]
  split
  · rfl
  rename_i value found
  rcases idle with absent | unseen
  · rw [absent] at found
    cases found
  · exact removeKeys_none keys (not_not.mp unseen)

section

variable (readable : Readable rc spec state all)
include readable

/-- What one visit does. -/
theorem visit_ok (member : v ∈ all) (cut : Cut) :
    visit rc spec (strip cut state) v = .ok (strip (cut.union (takenBy rc spec [v])) state) := by
  have keys := fun key inKeys => (readable.keys v member key inKeys).2
  by_cases idle : dig (.map (strip cut state)) (krmPathOf rc v.1) = none ∨ ¬ Sees rc spec v.1 v.2
  · have same : strip (cut.union (takenBy rc spec [v])) state = strip cut state := by
      apply strip_union_absent readable.proper
      rintro path _ ⟨u, only, rfl, sees⟩
      cases mem_singleton.mp only
      exact idle.resolve_right (not_not.mpr sees)
    rw [visit_idle keys idle, same]
  · rw [not_or, not_not] at idle
    obtain ⟨there, sees⟩ := idle
    obtain ⟨value, found⟩ := Option.ne_none_iff_exists'.mp there
    have before : dig (.map state) (krmPathOf rc v.1) ≠ none :=
      mt (absent_strip readable.proper (readable.present v member)) there
    obtain ⟨key, one⟩ : ∃ key, clashes rc spec (conflictingTFKeys v.2 v.1) = [key] :=
      length_eq_one_iff.mp
        (Nat.le_antisymm (readable.once v member before) (length_pos_iff.mpr sees))
    rw [visit, found]
    dsimp only
    rw [removeKeys_present (readable.proper.strip cut) keys (readable.present v member) found one,
      strip_strip, takenBy_one sees]

/-- What a run of visits does. -/
theorem visits_ok (within : done ⊆ all) (cut : Cut) :
    done.foldlM (visit rc spec) (strip cut state) =
      .ok (strip (cut.union (takenBy rc spec done)) state) := by
  induction done generalizing cut with
  | nil =>
    have start : cut.union (takenBy rc spec []) = cut := by
      funext path
      simp [Cut.union, takenBy]
    rw [start]
    rfl
  | cons v rest ih =>
    rw [foldlM_cons, visit_ok readable (within (.head _)), ok_bind,
      ih fun u member => within (.tail _ member), Cut.union_assoc, ← takenBy_append,
      singleton_append]

/-- The loop over the fields of a schema is the run of its visits. -/
theorem removeInFields_eq_of
    (each : ∀ entry ∈ schemas, ∀ tfPath cut, visitsAt tfPath entry.2 ⊆ all →
      removeInField rc spec tfPath (strip cut state) entry.2 =
        (visitsAt tfPath entry.2).foldlM (visit rc spec) (strip cut state))
    (within : visits above schemas ⊆ all) (cut : Cut) :
    removeInFields rc spec above (strip cut state) schemas =
      (visits above schemas).foldlM (visit rc spec) (strip cut state) := by
  induction schemas generalizing cut with
  | nil => rfl
  | cons entry rest ih =>
    obtain ⟨k, s⟩ := entry
    rw [visits] at within ⊢
    obtain ⟨first, others⟩ := append_subset.mp within
    rw [removeInFields, foldlM_append, each (k, s) (.head _) _ cut first]
    rw [visits_ok readable first]
    exact ih (fun entry member => each entry (.tail _ member)) others _

/-- Without a state or a spec there is nothing to do. -/
theorem unlessEmpty_visits (within : done ⊆ all) (cut : Cut) :
    unlessEmpty spec (strip cut state) (done.foldlM (visit rc spec) (strip cut state)) =
      done.foldlM (visit rc spec) (strip cut state) := by
  rw [unlessEmpty]
  split
  · rename_i empty
    symm
    apply foldlM_same
    intro v member
    have keys := readable.keys v (within member)
    apply visit_idle fun key inKeys => (keys key inKeys).2
    rcases Bool.or_eq_true_iff.mp empty with noState | noSpec
    · left
      rw [List.isEmpty_iff.mp noState]
      obtain ⟨first, rest, split⟩ := exists_cons_of_ne_nil (readable.present v (within member))
      rw [split]
      rfl
    · right
      rw [List.isEmpty_iff] at noSpec
      subst noSpec
      rw [Sees, not_not, clashes, List.filter_eq_nil_iff]
      intro key inKeys found
      obtain ⟨first, rest, split⟩ := exists_cons_of_ne_nil (keys key inKeys).1
      rw [split] at found
      cases found
  · rfl

/-- A round of the loop is the visit of the field and of those inside of it: with the field
they have all gone. -/
theorem removeInField_eq (s : Schema) :
    ∀ (tfPath : List String) (cut : Cut), visitsAt tfPath s ⊆ all →
      removeInField rc spec tfPath (strip cut state) s =
        (visitsAt tfPath s).foldlM (visit rc spec) (strip cut state) := by
  induction s using Schema.tree with
  | step attributes elem _ inside =>
    intro tfPath cut within
    rw [visitsAt] at within ⊢
    obtain ⟨member, below⟩ := cons_subset.mp within
    have passable := (readable.passable _ member).strip readable.proper cut
    rw [removeInField, Value.nestedField, nestedFieldFrom_passable _ passable, foldlM_cons]
    cases found : dig (.map (strip cut state)) (krmPathOf rc tfPath) with
    | none =>
      rw [visit, found]
      symm
      apply foldlM_same
      rintro ⟨path, other⟩ deeper
      obtain ⟨fields, _, _, visited⟩ := mem_visitsBelow.mp deeper
      obtain ⟨rest, _, rfl⟩ := mem_visits.mp visited
      apply visit_idle fun key inKeys => (readable.keys _ (below deeper) key inKeys).2
      exact .inl (readable.absent member (below deeper) (prefix_append _ _) found)
    | some value =>
      have round : visit rc spec (strip cut state) (tfPath, attributes) =
          (conflictingTFKeys attributes tfPath).foldlM
            (removeIfConflicting rc spec (krmPathOf rc tfPath)) (strip cut state) := by
        rw [visit, found]
      dsimp only
      rw [← round]
      rw [visit_ok readable member, ok_bind, ok_bind]
      cases elem with
      | none | schema _ => rfl
      | resource fields =>
        rw [removeInElem, visitsBelow]
        rw [visitsBelow] at below
        split
        · rename_i object
          rw [if_pos object] at below
          rw [removeInFields_eq_of readable (fun entry inFields =>
            inside fields rfl entry.1 entry.2 inFields) below, unlessEmpty_visits readable below]
        · rfl

end

/-- In whatever order the fields are visited, a run takes out the fields with conflicts. -/
theorem remove_ok (readable : Readable rc spec state (visits [] schemas)) :
    removeFieldsFromStateThatConflictWithSpec rc spec state [] schemas =
      .ok (strip (takenBy rc spec (visits [] schemas)) state) := by
  have nothing : strip (fun _ => False) state = state :=
    strip_of_absent readable.proper fun _ _ member => member.elim
  have start : Cut.union (fun _ => False) (takenBy rc spec (visits [] schemas)) =
      takenBy rc spec (visits [] schemas) := by
    funext path
    simp [Cut.union]
  have run := visits_ok readable (List.Subset.refl _) (fun _ => False)
  rw [start, ← unlessEmpty_visits readable (List.Subset.refl _), ← removeInFields_eq_of readable
    (fun entry _ => removeInField_eq readable entry.2) (List.Subset.refl _), nothing] at run
  exact run

end Step

end ConfigConnector.Krmtotf
