/- Maps with string keys as lists of entries, for maps that are part of an inductive type.
Of two entries for one key the first counts. -/
namespace Dict

open List

variable {V : Type}
variable {entries : List (String × V)} {key : String} {value : V}

theorem lookup_cons (key other : String) (value : V) (entries : List (String × V)) :
    ((other, value) :: entries).lookup key =
      if key = other then some value else entries.lookup key := by
  by_cases same : key = other
  · simp [same]
  · have differ : (key == other) = false := by simp [same]
    simp [List.lookup_cons, differ, same]

/-- A recursion that stops at the first entry of a key is a lookup. -/
theorem eq_lookup {β : Type} {f : List (String × V) → β} {found : V → β} {absent : β}
    (nil : f [] = absent) (cons : ∀ other value rest,
      f ((other, value) :: rest) = if other = key then found value else f rest)
    (entries : List (String × V)) : f entries = ((entries.lookup key).map found).getD absent := by
  induction entries with
  | nil => exact nil
  | cons entry rest ih =>
    rw [cons, lookup_cons, ih]
    by_cases here : entry.1 = key
    · rw [if_pos here, if_pos here.symm]
      rfl
    · rw [if_neg here, if_neg (Ne.symm here)]

theorem mem_of_lookup (found : entries.lookup key = some value) : (key, value) ∈ entries := by
  obtain ⟨before, after, same, -⟩ := lookup_eq_some_iff.mp found
  simp [same]

/-- `m[key] = value`. -/
def set (key : String) (value : V) : List (String × V) → List (String × V)
  | [] => [(key, value)]
  | (other, old) :: rest =>
    if key = other then (key, value) :: rest else (other, old) :: set key value rest

@[simp] theorem lookup_set (key other : String) (value : V) (entries : List (String × V)) :
    (set other value entries).lookup key =
      if key = other then some value else entries.lookup key := by
  induction entries with
  | nil => simp [set, lookup_cons]
  | cons entry rest ih =>
    obtain ⟨first, old⟩ := entry
    by_cases same : other = first
    · subst same
      simp only [set, ↓reduceIte, lookup_cons]
      split <;> rfl
    simp only [set, if_neg same, lookup_cons, ih]
    by_cases here : key = first
    · subst here
      simp [Ne.symm same]
    · simp [here]

theorem lookup_filter (keep : String → Bool) (key : String) (entries : List (String × V)) :
    (entries.filter fun entry => keep entry.1).lookup key =
      if keep key then entries.lookup key else none := by
  induction entries with
  | nil => simp
  | cons entry rest ih =>
    obtain ⟨first, value⟩ := entry
    rw [filter_cons, lookup_cons]
    by_cases here : key = first
    · subst here
      cases kept : keep key with
      | true => simp
      | false => simp [kept, ih]
    · cases keep first with
      | true => simp [lookup_cons, here, ih]
      | false => simp [here, ih]

theorem mem_of_mem_set {entry : String × V}
    (member : entry ∈ set key value entries) : entry = (key, value) ∨ entry ∈ entries := by
  induction entries with
  | nil => simpa [set] using member
  | cons first rest ih =>
    rw [set] at member
    split at member
    · rcases mem_cons.mp member with same | inRest
      · exact .inl same
      · exact .inr (.tail _ inRest)
    rcases mem_cons.mp member with same | inRest
    · exact .inr (by simp [same])
    · exact (ih inRest).imp_right (.tail _)

theorem mem_keys_set {other : String} (member : key ∈ (set other value entries).map (·.1)) :
    key = other ∨ key ∈ entries.map (·.1) := by
  obtain ⟨entry, inSet, rfl⟩ := mem_map.mp member
  rcases mem_of_mem_set inSet with same | inEntries
  · exact .inl (by rw [same])
  · exact .inr (mem_map_of_mem inEntries)

/-- Assignments keep the keys apart. -/
theorem nodup_set (key : String) (value : V)
    (nodup : (entries.map (·.1)).Nodup) : ((set key value entries).map (·.1)).Nodup := by
  induction entries with
  | nil => simp [set]
  | cons entry rest ih =>
    obtain ⟨first, old⟩ := entry
    obtain ⟨absent, rest_nodup⟩ := nodup_cons.mp nodup
    rw [set]
    split
    · rename_i same
      subst same
      exact nodup
    rename_i differ
    apply nodup_cons.mpr
    constructor
    · intro member
      rcases mem_keys_set member with same | inRest
      · exact differ same.symm
      · exact absent inRest
    · exact ih rest_nodup

theorem forall_entry_cons {P : String → V → Prop} {entry : String × V} :
    (∀ key value, (key, value) ∈ entry :: entries → P key value) ↔
      P entry.1 entry.2 ∧ ∀ key value, (key, value) ∈ entries → P key value := by
  simpa only [Prod.forall] using List.forall_mem_cons (p := fun e => P e.1 e.2) (l := entries)

theorem lookup_eq_none_of_notMem (absent : key ∉ entries.map (·.1)) :
    entries.lookup key = none := by
  rw [lookup_eq_none_iff]
  intro entry member
  simpa using fun same : key = entry.1 => absent (same ▸ mem_map_of_mem member)

/-- Where no key occurs twice, every entry is found. -/
theorem lookup_of_mem (nodup : (entries.map (·.1)).Nodup) (member : (key, value) ∈ entries) :
    entries.lookup key = some value := by
  induction entries with
  | nil => cases member
  | cons entry rest ih =>
    obtain ⟨first, old⟩ := entry
    obtain ⟨absent, rest_nodup⟩ := nodup_cons.mp nodup
    rw [lookup_cons]
    rcases mem_cons.mp member with same | inRest
    · cases same
      rw [if_pos rfl]
    have differ : key ≠ first := by
      rintro rfl
      exact absent (mem_map.mpr ⟨(key, value), inRest, rfl⟩)
    rw [if_neg differ, ih rest_nodup inRest]

end Dict
