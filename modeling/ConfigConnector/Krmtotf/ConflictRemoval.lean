import ConfigConnector.K8s.Strip
import ConfigConnector.Krmtotf.Conflicts

/- Removing one field: what `removeFieldAndAnyEmptyAncestorsFromObject` leaves, and what
several conflicting keys of one field do. -/
namespace ConfigConnector.Krmtotf

open K8s List Option Dict

variable {value : Value} {path keys : List String} {result obj : Fields}

section Entries

variable {obj : Fields} {key : String}

theorem set_set (key : String) (first second : Value) (obj : Fields) :
    Dict.set key second (Dict.set key first obj) = Dict.set key second obj := by
  induction obj with
  | nil => simp [Dict.set]
  | cons entry rest ih =>
    obtain ⟨other, old⟩ := entry
    by_cases same : key = other
    · simp [Dict.set, same]
    · simp [Dict.set, same, ih]

theorem remove_set (key : String) (value : Value) (obj : Fields) :
    remove key (Dict.set key value obj) = remove key obj := by
  induction obj with
  | nil => simp [Dict.set, remove]
  | cons entry rest ih =>
    obtain ⟨other, old⟩ := entry
    simp only [remove] at ih
    by_cases same : key = other
    · simp [Dict.set, remove, same]
    · simp [Dict.set, remove, same, filter_cons, ih]

theorem remove_of_absent (absent : obj.lookup key = none) : remove key obj = obj := by
  rw [remove, filter_eq_self]
  intro entry member
  have differ : key ≠ entry.1 := by simpa using lookup_eq_none_iff.mp absent entry member
  simpa using Ne.symm differ

/-- If only the entry of one key changes, it is removed or set. -/
theorem strip_at {cut : Cut} (nodup : (obj.map (·.1)).Nodup) (found : obj.lookup key = some value)
    (others : ∀ entry ∈ obj, entry.1 ≠ key → left cut entry.1 entry.2 = some entry.2) :
    strip cut obj = match left cut key value with
      | none => remove key obj
      | some result => Dict.set key result obj := by
  induction obj with
  | nil => cases found
  | cons entry rest ih =>
    obtain ⟨first, old⟩ := entry
    rw [map_cons, nodup_cons] at nodup
    rw [lookup_cons] at found
    have below : ∀ entry ∈ rest, entry.1 ≠ key → left cut entry.1 entry.2 = some entry.2 :=
      fun entry member => others entry (.tail _ member)
    rw [strip_cons]
    by_cases here : key = first
    · subst here
      rw [if_pos rfl] at found
      cases found
      have absent := lookup_eq_none_of_notMem nodup.1
      have same : strip cut rest = rest := by
        rw [strip_eq_filterMap]
        conv_rhs => rw [← filterMap_some (l := rest)]
        apply filterMap_congr
        intro entry member
        have differ : entry.1 ≠ key := by
          rintro rfl
          exact nodup.1 (mem_map.mpr ⟨entry, member, rfl⟩)
        rw [below entry member differ]
        rfl
      rw [same]
      cases left cut key value with
      | none => simpa [remove] using (remove_of_absent absent).symm
      | some result => simp [Dict.set]
    · rw [if_neg here] at found
      rw [others (first, old) (.head _) (Ne.symm here), ih nodup.2 found below]
      cases left cut key value with
      | none => simp [remove, Ne.symm here]
      | some result => simp [Dict.set, here]

theorem left_elsewhere {cut : Cut} (proper : Proper (.map obj))
    (through : ∀ path, cut path → ∃ rest, path = key :: rest) :
    ∀ entry ∈ obj, entry.1 ≠ key → left cut entry.1 entry.2 = some entry.2 := by
  intro entry member differ
  have kept : ¬ cut [entry.1] := by
    intro out
    obtain ⟨rest, same⟩ := through _ out
    exact differ (List.cons.inj same).1
  rw [left_of_not_cut kept]
  apply stripped_none _ _ (proper.mem member)
  intro path _ out
  obtain ⟨rest, same⟩ := through _ out
  exact absurd (List.cons.inj same).1 differ

end Entries

section Removal

variable (first second : String)

theorem ancestors_cons (rest : List String) :
    ancestors (first :: second :: rest) =
      (ancestors (second :: rest)).map (first :: ·) ++ [[first]] := by
  simp only [ancestors, length_cons, Nat.add_sub_cancel, range_succ_eq_map,
    reverse_cons, map_append, map_reverse, List.map_map, map_cons, map_nil]
  rfl

theorem nestedFieldFrom_above {above other : List String}
    {result : Option Value} (found : value.nestedFieldFrom above path = .ok result) :
    value.nestedFieldFrom other path = .ok result := by
  induction path generalizing above other value with
  | nil =>
    rw [Value.nestedFieldFrom] at found ⊢
    exact found
  | cons key rest ih =>
    cases value with
    | null => exact found
    | map fields =>
      rw [Value.nestedFieldFrom] at found ⊢
      cases held : fields.lookup key with
      | none =>
        rw [held] at found
        exact found
      | some next =>
        rw [held] at found
        exact ih found
    | _ => cases found

/-- Cleaning up inside the object at a key, and then that object. -/
theorem removeEmptyAncestors_inside {paths : List (List String)} {inner : Fields}
    (key : String) (obj : Fields) (present : ∀ path ∈ paths, path ≠ [])
    (done : removeEmptyAncestors inner paths = .ok result) :
    removeEmptyAncestors (Dict.set key (.map inner) obj) (paths.map (key :: ·) ++ [[key]]) =
      .ok (if result = [] then remove key obj else Dict.set key (.map result) obj) := by
  induction paths generalizing inner with
  | nil =>
    obtain rfl : inner = result := Except.ok.inj done
    have here : Value.nestedField (.map (Dict.set key (.map inner) obj)) [key] =
        .ok (some (.map inner)) := by
      rw [Value.nestedField, Value.nestedFieldFrom]
      simp [Value.nestedFieldFrom]
    rw [map_nil, nil_append, removeEmptyAncestors, here]
    cases inner with
    | nil =>
      change Except.ok (remove key (Dict.set key _ obj)) = _
      rw [remove_set, if_pos rfl]
    | cons entry rest =>
      rw [if_neg (by simp)]
  | cons path paths ih =>
    obtain ⟨first, rest, rfl⟩ := exists_cons_of_ne_nil (present path (.head _))
    have others : ∀ path ∈ paths, path ≠ [] := fun path member =>
      present path (.tail _ member)
    have same : ∀ found, Value.nestedField (.map inner) (first :: rest) = .ok found →
        Value.nestedField (.map (Dict.set key (.map inner) obj)) (key :: first :: rest) =
          .ok found := by
      intro found held
      rw [Value.nestedField, Value.nestedFieldFrom, lookup_set, if_pos rfl]
      exact nestedFieldFrom_above held
    rw [removeEmptyAncestors] at done
    rw [map_cons, cons_append, removeEmptyAncestors]
    cases held : Value.nestedField (.map inner) (first :: rest) with
    | error err =>
      rw [held] at done
      cases done
    | ok found =>
      rw [held] at done
      rw [same found held]
      rcases found with _ | value
      · cases done
      cases value with
      | map entries =>
        cases entries with
        | cons entry entries =>
          obtain rfl : inner = result := Except.ok.inj done
          have some_left : inner ≠ [] := by
            rintro rfl
            cases held
          rw [if_neg some_left]
        | nil =>
          have removed : removeAt (Dict.set key (.map inner) obj) (key :: first :: rest) =
              Dict.set key (.map (removeAt inner (first :: rest))) obj := by
            rw [removeAt, removeNestedField, lookup_set, if_pos rfl]
            exact set_set _ _ _ _
          rw [removed]
          exact ih others done
      | _ => cases done

theorem ancestors_ne_nil {ancestor : List String} (member : ancestor ∈ ancestors path) :
    ancestor ≠ [] := by
  obtain ⟨i, inside, rfl⟩ := mem_map.mp member
  rw [mem_reverse, mem_range] at inside
  intro empty
  have short : (path.take (i + 1)).length = 0 := by rw [empty]; rfl
  rw [length_take] at short
  omega

/-- A field that is there is taken out with the objects that become empty. -/
theorem removeField_present (proper : Proper (.map obj)) (present : path ≠ [])
    (found : dig (.map obj) path = some value) :
    removeFieldAndAnyEmptyAncestorsFromObject path obj = .ok (strip (.only path) obj) := by
  induction path generalizing obj with
  | nil => exact absurd rfl present
  | cons first rest ih =>
    obtain ⟨next, here, below⟩ := bind_eq_some_iff.mp found
    have through : ∀ path, Cut.only (first :: rest) path → ∃ rest, path = first :: rest :=
      fun path same => ⟨rest, same⟩
    rw [removeFieldAndAnyEmptyAncestorsFromObject,
      strip_at proper.nodup here (left_elsewhere proper through)]
    cases rest with
    | nil =>
      rw [left_of_cut (show Cut.only [first] [first] from rfl)]
      rfl
    | cons second rest =>
      obtain ⟨inner, _, rfl, _, _⟩ := dig_cons_some below
      have inside := ih (proper.lookup here) (by simp) below
      have removed : removeAt obj (first :: second :: rest) =
          Dict.set first (.map (removeAt inner (second :: rest))) obj := by
        rw [removeAt, removeNestedField, here]
        rfl
      have outside : ¬ Cut.only (first :: second :: rest) [first] := by simp [Cut.only]
      have under : (Cut.only (first :: second :: rest)).under first =
          .only (second :: rest) := by
        funext path
        simp [Cut.under, Cut.only]
      have some_inside : inner ≠ [] := by
        rintro rfl
        cases below
      rw [removed, ancestors_cons, removeEmptyAncestors_inside first obj
        (fun path member => ancestors_ne_nil member) inside, left_of_not_cut outside, under,
        stripped]
      by_cases empty : strip (.only (second :: rest)) inner = []
      · simp [empty, some_inside]
      · simp [empty]

end Removal

section Keys

variable {rc : ResourceConfig} {spec obj : Fields} {path : List String}

/-- The keys that are found in the spec. -/
def clashes (rc : ResourceConfig) (spec : Fields) (keys : List String) : List String :=
  keys.filter fun key => (dig (.map spec) (krmPathOf rc (conflictingTFPath key))).isSome

theorem removeIfConflicting_absent {key : String}
    (passable : Passable (.map spec) (krmPathOf rc (conflictingTFPath key)))
    (unseen : dig (.map spec) (krmPathOf rc (conflictingTFPath key)) = none) :
    removeIfConflicting rc spec path obj key = .ok obj := by
  rw [removeIfConflicting, Value.nestedField, nestedFieldFrom_passable _ passable, unseen]

theorem removeIfConflicting_present {key : String}
    (seen : (dig (.map spec) (krmPathOf rc (conflictingTFPath key))).isSome) :
    removeIfConflicting rc spec path obj key =
      match removeFieldAndAnyEmptyAncestorsFromObject path obj with
      | .error err => .error (.wrap ("error removing field at path " ++ formatPath path ++
          " from state") err)
      | .ok removed => .ok removed := by
  obtain ⟨other, held⟩ := isSome_iff_exists.mp seen
  rewrite [removeIfConflicting, Value.nestedField,
    nestedFieldFrom_passable _ (passable_of_dig held), held]
  rfl

section

variable (passable : ∀ key ∈ keys, Passable (.map spec) (krmPathOf rc (conflictingTFPath key)))
include passable

/-- Only the keys that are found in the spec count. -/
theorem removeKeys_clashes (obj : Fields) :
    keys.foldlM (removeIfConflicting rc spec path) obj =
      (clashes rc spec keys).foldlM (removeIfConflicting rc spec path) obj := by
  induction keys generalizing obj with
  | nil => rfl
  | cons key keys ih =>
    have below := ih fun other member => passable other (.tail _ member)
    rw [foldlM_cons, clashes, filter_cons]
    cases seen : (dig (.map spec) (krmPathOf rc (conflictingTFPath key))).isSome with
    | false =>
      rw [removeIfConflicting_absent (passable key (.head _))
        (isNone_iff_eq_none.mp (by simpa using seen))]
      exact below obj
    | true =>
      rw [if_pos rfl, foldlM_cons]
      exact congrArg _ (funext below)

theorem removeKeys_none (unseen : clashes rc spec keys = []) :
    keys.foldlM (removeIfConflicting rc spec path) obj = .ok obj := by
  rw [removeKeys_clashes passable, unseen]
  rfl

end

/-- The loop over the conflicting keys of a field that is there, if just one is found in the
spec. -/
theorem removeKeys_present (proper : Proper (.map obj))
    (passable : ∀ key ∈ keys, Passable (.map spec) (krmPathOf rc (conflictingTFPath key)))
    (present : path ≠ []) (found : dig (.map obj) path = some value) {key : String}
    (one : clashes rc spec keys = [key]) :
    keys.foldlM (removeIfConflicting rc spec path) obj = .ok (strip (.only path) obj) := by
  have seen : key ∈ clashes rc spec keys := by simp [one]
  rw [removeKeys_clashes passable, one, foldlM_cons,
    removeIfConflicting_present (mem_filter.mp seen).2, removeField_present proper present found]
  rfl

end Keys

end ConfigConnector.Krmtotf
