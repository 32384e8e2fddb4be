import ConfigConnector.Krmtotf.TfToKrm

/- Where the converter puts the value of a field. -/
namespace ConfigConnector.Krmtotf

open K8s GoMap List Option

/-- The key of a field in the spec of the Kubernetes object. -/
def krmKey (rc : ResourceConfig) (above field : String) : String :=
  match isReferenceField (qualify above field) rc with
  | some refConfig => getKeyForReferenceField refConfig
  | none => Text.snakeCaseToLowerCamelCase field

/-- No two fields of an object have the same key. -/
def DistinctKeys (rc : ResourceConfig) (above : String) (schemas : SchemaMap) : Prop :=
  (schemas.map fun entry => krmKey rc above entry.1).Nodup

instance (rc : ResourceConfig) (above : String) (schemas : SchemaMap) :
    Decidable (DistinctKeys rc above schemas) := inferInstanceAs (Decidable (List.Nodup _))

variable {c : Conversion} {field : String}

section Entries

variable {state prevSpec : Fields} {above : String} {managedFields : Option FieldSet}

theorem assignment_key {key : String} {converted : Option (Option Value)} {val : Value}
    (assigned : assignment c state prevSpec above field converted = some (some (key, val))) :
    key = krmKey c.rc above field := by
  rw [assignment] at assigned
  rw [krmKey]
  split at assigned
  · cases assigned
  cases reference : isReferenceField (qualify above field) c.rc with
  | some refConfig =>
    rw [reference] at assigned
    obtain ⟨ref, _, same⟩ := map_eq_some_iff.mp assigned
    split at same
    · cases same
    · cases same
      rfl
  | none =>
    rw [reference] at assigned
    obtain ⟨kept, _, same⟩ := map_eq_some_iff.mp assigned
    obtain ⟨_, _, same⟩ := map_eq_some_iff.mp same
    cases same
    rfl

variable {orders : Orders} {s : Schema} {entries : Fields}

theorem convertedEntries_cons {rest : SchemaMap} :
    convertedEntries c orders state prevSpec above managedFields ((field, s) :: rest) =
        some entries ↔
      ∃ entry others, assignment c state prevSpec above field
          (convertField c (orders.below 0) state prevSpec above managedFields field s) =
            some entry ∧
        convertedEntries c (orders.below 1) state prevSpec above managedFields rest = some others ∧
        entry.toList ++ others = entries := by
  rw [convertedEntries]
  simp [bind_eq_some_iff]

/-- The keys of the assignments are those of the fields. -/
theorem keys_of_converted {schemas : SchemaMap}
    (done : convertedEntries c orders state prevSpec above managedFields schemas = some entries) :
    (entries.map (·.1)).Sublist (schemas.map fun entry => krmKey c.rc above entry.1) := by
  induction schemas generalizing orders entries with
  | nil =>
    cases done
    exact .slnil
  | cons first rest ih =>
    obtain ⟨entry, others, here, below, rfl⟩ := convertedEntries_cons.mp done
    cases entry with
    | none => exact .cons _ (ih below)
    | some entry =>
      have key := assignment_key here
      simp only [toList_some, singleton_append, map_cons, key]
      exact .cons_cons _ (ih below)

theorem lookup_assign (distinct : (entries.map (·.1)).Nodup) (key : String) :
    (assign entries).lookup key = entries.lookup key := by
  induction entries using List.reverseRecOn with
  | nil => rfl
  | append_singleton entries entry ih =>
    obtain ⟨last, val⟩ := entry
    rw [map_append, nodup_append] at distinct
    rw [assign, foldl_append, ← assign]
    simp only [foldl_cons, foldl_nil, Dict.lookup_set, ih distinct.1,
      lookup_append, Dict.lookup_cons, lookup_nil]
    split
    · rename_i same
      subst same
      have absent : key ∉ entries.map (·.1) := fun member =>
        distinct.2.2 key member key (by simp) rfl
      simp [Dict.lookup_eq_none_of_notMem absent]
    · simp

theorem asObject_of_ne_nil (present : entries ≠ []) :
    asObject entries = some (.map (assign entries)) := by
  cases entries with
  | nil => exact absurd rfl present
  | cons entry rest => rfl

theorem assign_ne_nil (present : entries ≠ []) : assign entries ≠ [] := by
  obtain ⟨init, last, rfl⟩ := eq_nil_or_concat entries |>.resolve_left present
  intro empty
  have held : (assign (init ++ [last])).lookup last.1 = some last.2 := by
    rw [assign, foldl_append]
    simp
  rw [concat_eq_append, empty] at *
  cases held

/-- Where no two fields have the same key, a field's value is what its round of the loop
assigns. -/
theorem lookup_converted {schemas : SchemaMap} (distinct : DistinctKeys c.rc above schemas)
    (done : convertedEntries c orders state prevSpec above managedFields schemas = some entries)
    (member : (field, s) ∈ schemas) :
    ∃ orders' entry, assignment c state prevSpec above field
        (convertField c orders' state prevSpec above managedFields field s) = some entry ∧
      (assign entries).lookup (krmKey c.rc above field) = entry.map (·.2) := by
  have nodup : (entries.map (·.1)).Nodup := (keys_of_converted done).nodup distinct
  rw [lookup_assign nodup]
  clear nodup
  induction schemas generalizing orders entries with
  | nil => cases member
  | cons first rest ih =>
    obtain ⟨name, s'⟩ := first
    obtain ⟨fresh, others⟩ := nodup_cons.mp distinct
    obtain ⟨entry, later, here, below, rfl⟩ := convertedEntries_cons.mp done
    have absent : krmKey c.rc above name ∉ later.map (·.1) :=
      fun again => fresh ((keys_of_converted below).subset again)
    rcases mem_cons.mp member with same | inRest
    · cases same
      refine ⟨_, entry, here, ?_⟩
      cases entry with
      | none =>
        exact Dict.lookup_eq_none_of_notMem absent
      | some entry =>
        obtain ⟨key, val⟩ := entry
        simp [assignment_key here]
    · obtain ⟨orders', found, assigned, held⟩ := ih others below inRest
      refine ⟨orders', found, assigned, ?_⟩
      rw [← held]
      cases entry with
      | none => rfl
      | some entry =>
        obtain ⟨key, val⟩ := entry
        have differ : krmKey c.rc above field ≠ key := by
          rw [assignment_key here]
          intro same
          exact fresh (mem_map.mpr ⟨(field, s), inRest, same⟩)
        simp [Dict.lookup_cons, differ]

end Entries

section Nested

/-- What the converter is called with for one object. -/
structure Place where
  above : String
  schemas : SchemaMap
  state : Fields
  prevSpec : Fields
  managedFields : Option FieldSet

namespace Place

def entries (c : Conversion) (orders : Orders) (place : Place) : Option Fields :=
  convertedEntries c orders place.state place.prevSpec place.above place.managedFields place.schemas

/-- The object in `field`, where the state holds `obj`. -/
def inside (place : Place) (field : String) (fields : SchemaMap) (obj : Fields) : Place where
  above := qualify place.above field
  schemas := fields
  state := obj
  prevSpec := (Value.get place.prevSpec (Text.snakeCaseToLowerCamelCase field)).entries
  managedFields := nestedManagedFields (Text.snakeCaseToLowerCamelCase field) place.managedFields

end Place

/-- The field is converted as it is, to a key that no other field has. -/
structure Converts (c : Conversion) (place : Place) (field : String) : Prop where
  distinct : DistinctKeys c.rc place.above place.schemas
  kept : isOverriddenField c.rc (qualify place.above field) c.ignoreOutputOnlySpecFields = false
  plain : isReferenceField (qualify place.above field) c.rc = none
  unmanaged : isGCPManagedField c.rc.kind (qualify place.above field) = false

theorem Converts.lookup {place : Place} (converts : Converts c place field) {orders : Orders}
    {entries : Fields} (done : place.entries c orders = some entries) {s : Schema}
    (member : (field, s) ∈ place.schemas) :
    ∃ orders' value, convertField c orders' place.state place.prevSpec place.above
        place.managedFields field s = some value ∧
      (assign entries).lookup (Text.snakeCaseToLowerCamelCase field) = value := by
  obtain ⟨orders', entry, assigned, held⟩ := lookup_converted converts.distinct done member
  rw [assignment, converts.kept, converts.plain] at assigned
  obtain ⟨value, converted, rfl⟩ := map_eq_some_iff.mp assigned
  have key : krmKey c.rc place.above field = Text.snakeCaseToLowerCamelCase field := by
    rw [krmKey, converts.plain]
  rw [key] at held
  exact ⟨orders', value, converted, held.trans (by cases value <;> rfl)⟩

/-- The field holds a nested object that the converter enters. -/
structure Enters (c : Conversion) (place : Place) (field : String) (fields : SchemaMap)
    (obj : Fields) : Prop extends Converts c place field where
  schema : ∃ s, (field, s) ∈ place.schemas ∧ s.nestedObject = some fields
  state : ∃ rest, Value.get place.state field = .list (.map obj :: rest)

/-- Places that are reached through the fields of a path. -/
inductive Reached (c : Conversion) : Place → List String → Place → Prop where
  | here (place : Place) : Reached c place [] place
  | into {place inner : Place} {field : String} {path : List String} {fields : SchemaMap}
      {obj : Fields} : Enters c place field fields obj →
      Reached c (place.inside field fields obj) path inner → Reached c place (field :: path) inner

/-- The value of a nested object is what the converter makes of its place. -/
theorem Enters.convertField {place : Place} {fields : SchemaMap} {obj : Fields}
    (enters : Enters c place field fields obj) {s : Schema}
    (nested : s.nestedObject = some fields) (orders : Orders) :
    Krmtotf.convertField c orders place.state place.prevSpec place.above place.managedFields
        field s =
      ((place.inside field fields obj).entries c orders).map asObject := by
  obtain ⟨rest, held⟩ := enters.state
  obtain ⟨attributes, elem⟩ := s
  cases elem with
  | none | schema _ => cases nested
  | resource inner =>
    simp only [Schema.nestedObject, ite_none_right_eq_some, Option.some.injEq] at nested
    obtain ⟨⟨isList, one⟩, rfl⟩ := nested
    rw [Krmtotf.convertField]
    simp only [held, Value.isNil, enters.unmanaged, Bool.false_eq_true, ↓reduceIte]
    rcases isList with type | type
    all_goals
      rw [type]
      simp only [convertList, one, ↓reduceIte]
      rfl

/-- What the converter makes of a place is found along the keys of its path. -/
theorem Reached.nestedField {place inner : Place} {path : List String}
    (reached : Reached c place path inner) {orders : Orders} {entries : Fields}
    (done : place.entries c orders = some entries) :
    ∃ orders' innerEntries, inner.entries c orders' = some innerEntries ∧
      (innerEntries ≠ [] → ∀ above, Value.nestedFieldFrom above (.map (assign entries))
        (path.map Text.snakeCaseToLowerCamelCase) = .ok (some (.map (assign innerEntries)))) := by
  induction reached generalizing orders entries with
  | here place => exact ⟨orders, entries, done, fun _ _ => rfl⟩
  | @into place inner field path fields obj enters below ih =>
    obtain ⟨s, member, nested⟩ := enters.schema
    obtain ⟨orders', value, converted, held⟩ := enters.lookup done member
    rw [enters.convertField nested] at converted
    obtain ⟨nestedEntries, nestedDone, rfl⟩ := map_eq_some_iff.mp converted
    obtain ⟨orders'', innerEntries, innerDone, found⟩ := ih nestedDone
    refine ⟨orders'', innerEntries, innerDone, fun present above => ?_⟩
    have nonEmpty : nestedEntries ≠ [] := by
      rintro rfl
      have none := found present above
      cases path with
      | nil =>
        simp only [map_nil, Value.nestedFieldFrom, Except.ok.injEq, Option.some.injEq,
          Value.map.injEq] at none
        exact assign_ne_nil present none.symm
      | cons next rest => cases none
    rw [asObject_of_ne_nil nonEmpty] at held
    rw [map_cons, Value.nestedFieldFrom, held]
    exact found present _

end Nested

end ConfigConnector.Krmtotf
