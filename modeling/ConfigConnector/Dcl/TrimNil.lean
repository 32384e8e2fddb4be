import ConfigConnector.Dcl.ObjectSplit

/- What `TrimNilFields` leaves of a tree of values. An entry that is a nil map or list is `null`,
a nil map among the items of a list an empty map. -/
namespace ConfigConnector.Dcl

open K8s Value List

/-- A map somewhere in the value has a nil entry. -/
inductive HasNil : Value → Prop where
  | here {fields : Fields} (key : String) (nil : fields.lookup key = some null) :
      HasNil (.map fields)
  | entry {fields : Fields} {key : String} {value : Value} (held : fields.lookup key = some value)
      (below : HasNil value) : HasNil (.map fields)
  | item {items : List Value} {item : Value} (member : item ∈ items) (below : HasNil item) :
      HasNil (.list items)

/-- A nil entry lies in a list that is not one of maps alone. -/
inductive Missed : Value → Prop where
  | here {items : List Value} (mixed : isListOfStringInterfaceMaps items = false)
      (nil : HasNil (.list items)) : Missed (.list items)
  | entry {fields : Fields} {key : String} {value : Value} (held : fields.lookup key = some value)
      (below : Missed value) : Missed (.map fields)
  | item {items : List Value} {item : Value} (maps : isListOfStringInterfaceMaps items)
      (member : item ∈ items) (below : Missed item) : Missed (.list items)

/-- A list keeps its items in their order, and a map all entries that are not nil. -/
inductive KeepsRest : Value → Value → Prop where
  | same (value : Value) : KeepsRest value value
  | list {items others : List Value} (each : Forall₂ KeepsRest items others) :
      KeepsRest (.list items) (.list others)
  | map {fields others : Fields}
      (keys : ∀ key, (others.lookup key).isSome ↔
        ∃ value, fields.lookup key = some value ∧ value ≠ null)
      (each : ∀ key value other, fields.lookup key = some value →
        others.lookup key = some other → KeepsRest value other) :
      KeepsRest (.map fields) (.map others)

section Entries

variable {fields : Fields} {items : List Value} {key : String} {value other : Value}

@[simp] theorem trimValue_eq_null : trimValue value = null ↔ value = null := by
  cases value with
  | list items =>
    rw [trimValue]
    split <;> simp
  | _ => simp [trimValue]

theorem lookup_trimNilFields : (trimNilFields fields).lookup key = some other ↔
    ∃ value, fields.lookup key = some value ∧ value ≠ null ∧ trimValue value = other := by
  rw [trimNilFields, Dict.lookup_filter fun name => !(Value.get fields name).isNil,
    lookup_trimEntries, Value.get]
  cases fields.lookup key with
  | none => simp
  | some value => by_cases nil : value = null <;> simp [nil, isNil_of_ne]

theorem trimNilFields_eq : trimNilFields fields =
    (fields.filter fun entry => !(Value.get fields entry.1).isNil).map
      fun entry => (entry.1, trimValue entry.2) := by
  have each (fields : Fields) : trimEntries fields = fields.map fun e => (e.1, trimValue e.2) := by
    induction fields with
    | nil => rfl
    | cons entry rest ih => rw [trimEntries, ih, map_cons]
  rw [trimNilFields, each, filter_map]
  rfl

theorem trimNilFields_again
    (each : ∀ key value, (key, value) ∈ fields → trimValue (trimValue value) = trimValue value) :
    trimNilFields (trimNilFields fields) = trimNilFields fields := by
  have still (key : String) :
      (Value.get (trimNilFields fields) key).isNil = (Value.get fields key).isNil := by
    rw [get_trimNilFields, Bool.eq_iff_iff, isNil_iff, isNil_iff, trimValue_eq_null]
  rw [trimNilFields_eq]
  simp only [still]
  rw [trimNilFields_eq, filter_map, map_map, Function.comp_def, filter_filter]
  simp only [Bool.and_self, Function.comp_def]
  apply map_congr_left
  rintro ⟨key, value⟩ member
  exact congrArg (key, ·) (each key value (mem_of_mem_filter member))

/-- The items of a list stay maps. -/
theorem isListOfStringInterfaceMaps_trim :
    isListOfStringInterfaceMaps (items.map trimValue) = isListOfStringInterfaceMaps items := by
  simp only [isListOfStringInterfaceMaps, isEmpty_map, all_map]
  congr 2
  funext value
  cases value with
  | list items => by_cases maps : isListOfStringInterfaceMaps items <;> simp [trimValue, maps]
  | _ => rfl

end Entries

/-- One value: what is left in it, what is kept of it, and what a second run does to it. -/
theorem trimValue_spec (value : Value) : (HasNil (trimValue value) ↔ Missed value) ∧
    KeepsRest value (trimValue value) ∧ trimValue (trimValue value) = trimValue value := by
  induction value using Value.tree with
  | step value ofItems ofFields =>
    cases value with
    | null | bool _ | int _ | float _ | string _ => exact ⟨⟨nofun, nofun⟩, .same _, rfl⟩
    | map fields =>
      have below := ofFields fields rfl
      rw [show trimValue (.map fields) = .map (trimNilFields fields) from rfl]
      refine ⟨⟨?_, ?_⟩, .map (fun key => ?_) ?_,
        congrArg Value.map (trimNilFields_again fun key item member => (below key item member).2.2)⟩
      · rintro (⟨key, nil⟩ | ⟨kept, nil⟩)
        · obtain ⟨value, _, present, same⟩ := lookup_trimNilFields.mp nil
          exact absurd (trimValue_eq_null.mp same) present
        · obtain ⟨value, held, _, rfl⟩ := lookup_trimNilFields.mp kept
          exact .entry held ((below _ value (Dict.mem_of_lookup held)).1.mp nil)
      · rintro (_ | @⟨_, key, value, held, missed⟩)
        have present : value ≠ null := by
          rintro rfl
          cases missed
        exact .entry (lookup_trimNilFields.mpr ⟨value, held, present, rfl⟩)
          ((below key value (Dict.mem_of_lookup held)).1.mpr missed)
      · simp [Option.isSome_iff_exists, lookup_trimNilFields]
      · intro key value other held kept
        obtain ⟨_, again, -, rfl⟩ := lookup_trimNilFields.mp kept
        cases held.symm.trans again
        exact (below key value (Dict.mem_of_lookup held)).2.1
    | list items =>
      have below := ofItems items rfl
      rw [trimValue]
      cases maps : isListOfStringInterfaceMaps items with
      | false =>
        refine ⟨⟨.here maps, ?_⟩, .same _, by simp [trimValue, maps]⟩
        rintro (⟨_, nil⟩ | _ | ⟨isMaps, _, _⟩)
        · exact nil
        · rw [maps] at isMaps
          cases isMaps
      | true =>
        rw [if_pos rfl, trimItems_eq_map]
        refine ⟨⟨?_, ?_⟩, .list ?_, ?_⟩
        · rintro (_ | _ | ⟨member, nil⟩)
          obtain ⟨item, held, rfl⟩ := mem_map.mp member
          exact .item maps held ((below item held).1.mp nil)
        · rintro (⟨mixed, _⟩ | _ | ⟨_, member, missed⟩)
          · rw [maps] at mixed
            cases mixed
          · exact .item (mem_map_of_mem member) ((below _ member).1.mpr missed)
        · exact forall₂_map_right_iff.mpr
            (forall₂_same.mpr fun item member => (below item member).2.1)
        · rw [trimValue, isListOfStringInterfaceMaps_trim, maps, if_pos rfl, trimItems_eq_map,
            map_map]
          exact congrArg _ (map_congr_left fun item member => (below item member).2.2)

/-- All nil entries go and nothing else does, and a second run finds nothing to do. -/
def TrimsNils (m : Fields) : Prop :=
  ¬ HasNil (.map (trimNilFields m)) ∧ KeepsRest (.map m) (.map (trimNilFields m)) ∧
    trimNilFields (trimNilFields m) = trimNilFields m

/-- Nil entries are missed just where they lie in a list that is not one of maps alone. -/
theorem trimsNils_iff (m : Fields) : TrimsNils m ↔ ¬ Missed (.map m) := by
  obtain ⟨left, keeps, again⟩ := trimValue_spec (.map m)
  refine ⟨fun trims => mt left.mpr trims.1, fun none => ⟨mt left.mp none, keeps, ?_⟩⟩
  exact Value.map.inj again

/-- A map in a list of lists keeps its nil entry. -/
theorem nil_in_inner_list_stays :
    ¬ TrimsNils [("rows", .list [.list [.map [("cell", .null)]]])] := by
  rintro ⟨complete, -⟩
  have nil : HasNil (.map [("cell", .null)]) := .here "cell" rfl
  exact complete (@HasNil.entry _ "rows" _ rfl (.item (.head _) (.item (.head _) nil)))

end ConfigConnector.Dcl
