import ConfigConnector.K8s.Leaves
import ConfigConnector.Krmtotf.Pruning

/- Lists of objects. An object of which nothing is reported is not appended to the result, so
those behind it move up. -/
namespace ConfigConnector.Krmtotf

open K8s GoMap List Option Fallible Value

variable (c : Conversion) (place : Place)

namespace Place

/-- The object at one position of the list in `field`, where the state holds `obj`. -/
def item (field : String) (fields : SchemaMap) (position : Nat) (obj : Fields) : Place where
  above := qualify place.above field
  schemas := fields
  state := obj
  prevSpec := ((Value.items (Value.get place.prevSpec (Text.snakeCaseToLowerCamelCase field))).getD
    position .null).entries
  managedFields := none

def Fits : Prop :=
  FieldsFit c place.above place.state place.schemas ∧
    PrevFieldsFit c place.prevSpec place.schemas

def convert (orders : Orders) (place : Place) : Option Fields :=
  convertTFMapToKCCMap c orders place.state place.prevSpec place.schemas place.above
    place.managedFields

theorem convert_eq_some {c : Conversion} {orders : Orders} {place : Place} {ret : Fields} :
    place.convert c orders = some ret ↔
      ∃ entries, place.entries c orders = some entries ∧ assign entries = ret :=
  map_eq_some_iff

/-- Nothing of the object is reported. -/
def blank : Bool :=
  blankFields c place.state place.prevSpec place.above place.managedFields place.schemas

end Place

/-- The field holds a list of objects that the converter converts one by one. -/
structure HoldsList (field : String) (fields : SchemaMap) (items : List Value) : Prop
    extends Converts c place field where
  schema : ∃ a, (field, .mk a (.resource fields)) ∈ place.schemas ∧ a.type = .list ∧ a.maxItems ≠ 1
  state : Value.get place.state field = .list items

/-- Places inside a place, with the path to them: through nested objects and the positions of
lists. -/
inductive PlaceAt : Place → Path → Place → Prop where
  | here (place : Place) : PlaceAt place [] place
  | object {place inner : Place} {field : String} {path : Path} {fields : SchemaMap}
      {obj : Fields} : Enters c place field fields obj →
      PlaceAt (place.inside field fields obj) path inner →
      PlaceAt place (.key (Text.snakeCaseToLowerCamelCase field) :: path) inner
  | item {place inner : Place} {field : String} {path : Path} {fields : SchemaMap}
      {items : List Value} {position : Nat} {obj : Fields} : HoldsList c place field fields items →
      items[position]? = some (.map obj) →
      PlaceAt (place.item field fields position obj) path inner →
      PlaceAt place (.key (Text.snakeCaseToLowerCamelCase field) :: .index position :: path) inner

/-- The list has the length of the list in the state, and at each position the conversion of
the object at that position with the previous one there. -/
def Aligned (field : String) (fields : SchemaMap) (items reported : List Value) : Prop :=
  reported.length = items.length ∧ ∀ position obj, items[position]? = some (.map obj) →
    ∃ orders ret, (place.item field fields position obj).convert c orders = some ret ∧
      reported[position]? = some (.map ret)

/-- All lists of objects in a result, at any depth, are aligned with those of the state. A list
that is not there has no items. -/
def KeepsPositions (result : Value) : Prop :=
  ∀ path inner field fields items, PlaceAt c place path inner →
    HoldsList c inner field fields items →
    Aligned c inner field fields items
      (Value.items ((result.follow path).step (.key (Text.snakeCaseToLowerCamelCase field))))

variable {c place} {fields : SchemaMap} {orders : Orders} {field : String}

section OneList

variable {items : List Value}

theorem HoldsList.convertField {a : Attributes} (holds : HoldsList c place field fields items)
    (list : a.type = .list) (many : a.maxItems ≠ 1) (orders : Orders) :
    Krmtotf.convertField c orders place.state place.prevSpec place.above place.managedFields field
        (.mk a (.resource fields)) =
      (items.zipIdx.mapM (convertListItem c orders (Value.get place.prevSpec
        (Text.snakeCaseToLowerCamelCase field))
          (qualify place.above field) fields)).map fun elems =>
          if (elems.filterMap asObject).isEmpty then none
          else some (.list (elems.filterMap asObject)) := by
  rw [Krmtotf.convertField]
  simp only [holds.state, Value.isNil, holds.unmanaged, Bool.false_eq_true, ↓reduceIte, list]
  cases items with
  | nil => simp [convertList]
  | cons first rest =>
    exact convertList_objects many (fun set => by simp [list] at set) (cons_ne_nil first rest)

variable {entries : Fields}

/-- The list in the result, from the rounds of the loop. -/
theorem HoldsList.reported (holds : HoldsList c place field fields items)
    (done : place.entries c orders = some entries) :
    ∃ orders' elems, items.zipIdx.mapM (convertListItem c orders' (Value.get place.prevSpec
        (Text.snakeCaseToLowerCamelCase field)) (qualify place.above field) fields) = some elems ∧
      Value.items (Value.get (assign entries) (Text.snakeCaseToLowerCamelCase field)) =
        elems.filterMap asObject := by
  obtain ⟨a, member, list, many⟩ := holds.schema
  obtain ⟨orders', value, converted, held⟩ := holds.lookup done member
  rw [holds.convertField list many] at converted
  obtain ⟨elems, elemsDone, rfl⟩ := map_eq_some_iff.mp converted
  refine ⟨orders', elems, elemsDone, ?_⟩
  rw [Value.get, held]
  cases reported : elems.filterMap asObject with
  | nil | cons _ _ => rfl

variable {elems : List Fields} {position : Nat}

/-- Each round is the conversion of one item. -/
theorem round_of_item (done : items.zipIdx.mapM (convertListItem c orders (Value.get place.prevSpec
      (Text.snakeCaseToLowerCamelCase field)) (qualify place.above field) fields) = some elems)
    {obj : Fields} (found : items[position]? = some (.map obj)) :
    ∃ entries, (place.item field fields position obj).entries c (orders.below position) =
      some entries ∧ elems[position]? = some entries := by
  have rounds := mapM_eq_some.mp done
  obtain ⟨bound, atPosition⟩ := List.getElem?_eq_some_iff.mp found
  have inside : position < elems.length := by
    have same := rounds.length_eq
    rw [length_zipIdx] at same
    omega
  have here := rounds.get (i := position) (by simpa using bound) inside
  simp only [get_eq_getElem, getElem_zipIdx, atPosition, Nat.zero_add] at here
  exact ⟨elems[position], here, List.getElem?_eq_getElem inside⟩

theorem items_are_objects {prevSpecVal : Value} {name : String}
    (done : items.zipIdx.mapM (convertListItem c orders prevSpecVal name fields) = some elems)
    (bound : position < items.length) : ∃ obj, items[position]? = some (.map obj) := by
  have rounds := mapM_eq_some.mp done
  have inside : position < elems.length := by
    have same := rounds.length_eq
    rw [length_zipIdx] at same
    omega
  have here := rounds.get (i := position) (by simpa using bound) inside
  simp only [get_eq_getElem, getElem_zipIdx, convertListItem] at here
  rw [List.getElem?_eq_getElem bound]
  split at here
  · rename_i obj same
    exact ⟨obj, by rw [same]⟩
  · cases here

theorem filterMap_asObject_length :
    (elems.filterMap asObject).length = elems.length ↔ ∀ entries ∈ elems, entries ≠ [] := by
  rw [length_filterMap_eq_countP, countP_eq_length]
  refine forall₂_congr fun entries _ => ?_
  rw [isSome_iff_ne_none, ne_eq, asObject_eq_none]

theorem filterMap_asObject_of_ne_nil (filled : ∀ entries ∈ elems, entries ≠ []) :
    elems.filterMap asObject = elems.map fun entries => .map (assign entries) := by
  rw [← filterMap_eq_map]
  exact filterMap_congr fun entries member => asObject_of_ne_nil (filled entries member)

theorem blank_eq_false (done : place.entries c orders = some entries) :
    place.blank c = false ↔ entries ≠ [] := by
  rw [ne_eq, blankFields_iff done, Bool.not_eq_true]
  rfl

/-- A list is aligned exactly if something is reported of each of its objects. -/
theorem HoldsList.aligned_iff (holds : HoldsList c place field fields items)
    (done : place.entries c orders = some entries) :
    Aligned c place field fields items
        (Value.items (Value.get (assign entries) (Text.snakeCaseToLowerCamelCase field))) ↔
      ∀ position obj, items[position]? = some (.map obj) →
        (place.item field fields position obj).blank c = false := by
  obtain ⟨orders', elems, rounds, same⟩ := holds.reported done
  have length : elems.length = items.length := by
    rw [← (mapM_eq_some.mp rounds).length_eq, length_zipIdx]
  rw [Aligned, same, ← length, filterMap_asObject_length]
  constructor
  · rintro ⟨filled, -⟩ position obj found
    obtain ⟨itemEntries, itemDone, inElems⟩ := round_of_item rounds found
    exact (blank_eq_false itemDone).mpr (filled itemEntries (mem_of_getElem? inElems))
  · intro reports
    have filled : ∀ entries ∈ elems, entries ≠ [] := by
      intro itemEntries member
      obtain ⟨position, bound, atPosition⟩ := getElem_of_mem member
      obtain ⟨obj, found⟩ := items_are_objects rounds (length ▸ bound)
      obtain ⟨others, itemDone, inElems⟩ := round_of_item rounds found
      rw [List.getElem?_eq_getElem bound, Option.some.injEq] at inElems
      rw [← atPosition, inElems]
      exact (blank_eq_false itemDone).mp (reports position obj found)
    refine ⟨filled, ?_⟩
    intro position obj found
    obtain ⟨itemEntries, itemDone, inElems⟩ := round_of_item rounds found
    refine ⟨_, assign itemEntries, Place.convert_eq_some.mpr ⟨itemEntries, itemDone, rfl⟩, ?_⟩
    rw [filterMap_asObject_of_ne_nil filled, List.getElem?_map, inElems]
    rfl

end OneList

section Depth

theorem follow_asObject (entries : Fields) (path : Path) (last : Step) :
    ((asObject entries).getD .null).follow (path ++ [last]) =
      (Value.map (assign entries)).follow (path ++ [last]) := by
  cases entries with
  | cons first rest => rfl
  | nil =>
    have empty : ∀ step, (Value.map (assign [])).step step = .null := by
      intro step
      cases step <;> rfl
    rw [show (asObject []).getD .null = Value.null from rfl, follow_null]
    cases path with
    | nil => exact (empty last).symm
    | cons first rest =>
      rw [cons_append, Value.follow, empty first, follow_null]

theorem follow_concat (value : Value) (path : Path) (last : Step) :
    (value.follow path).step last = value.follow (path ++ [last]) := by
  rw [follow_append]
  rfl

variable {obj entries : Fields}

/-- Below a nested object everything is as in its own conversion. -/
theorem Enters.reported (enters : Enters c place field fields obj)
    (done : place.entries c orders = some entries) :
    ∃ orders' inner, (place.inside field fields obj).entries c orders' = some inner ∧
      ∀ path last, ((Value.map (assign entries)).follow
          (.key (Text.snakeCaseToLowerCamelCase field) :: path)).step last =
        ((Value.map (assign inner)).follow path).step last := by
  obtain ⟨s, member, nested⟩ := enters.schema
  obtain ⟨orders', value, converted, held⟩ := enters.lookup done member
  rw [enters.convertField nested] at converted
  obtain ⟨inner, innerDone, rfl⟩ := map_eq_some_iff.mp converted
  refine ⟨orders', inner, innerDone, fun path last => ?_⟩
  have object : Value.get (assign entries) (Text.snakeCaseToLowerCamelCase field) =
      (asObject inner).getD .null := by
    rw [Value.get, held]
  rw [follow_concat, follow_concat, ← follow_asObject inner, ← object]
  rfl

theorem step_index {value item : Value} {position : Nat}
    (found : value.items[position]? = some item) : value.step (.index position) = item := by
  cases value with
  | list items => rw [Value.step, getD_eq_getElem?_getD, show items[position]? = _ from found]; rfl
  | _ => cases found

/-- Below an item of an aligned list everything is as in its own conversion. -/
theorem Aligned.reported {items : List Value}
    (aligned : Aligned c place field fields items
      (Value.items (Value.get (assign entries) (Text.snakeCaseToLowerCamelCase field))))
    {position : Nat} (held : items[position]? = some (.map obj)) :
    ∃ orders inner, (place.item field fields position obj).entries c orders = some inner ∧
      ∀ path last, ((Value.map (assign entries)).follow
          (.key (Text.snakeCaseToLowerCamelCase field) :: .index position :: path)).step last =
        ((Value.map (assign inner)).follow path).step last := by
  obtain ⟨orders, ret, converted, found⟩ := aligned.2 position obj held
  obtain ⟨inner, innerDone, rfl⟩ := Place.convert_eq_some.mp converted
  refine ⟨orders, inner, innerDone, fun path last => ?_⟩
  rw [← step_index found]
  rfl

/-- Something is reported of every object of every list inside the place. -/
def ReportsItems (c : Conversion) (place : Place) : Prop :=
  ∀ path inner field fields items, PlaceAt c place path inner →
    HoldsList c inner field fields items → ∀ position obj, items[position]? = some (.map obj) →
      (inner.item field fields position obj).blank c = false

theorem ReportsItems.keepsPositions (reports : ReportsItems c place)
    (done : place.entries c orders = some entries) :
    KeepsPositions c place (.map (assign entries)) := by
  intro path inner field fields items found holds
  induction found generalizing orders entries with
  | here place =>
    exact (holds.aligned_iff done).mpr (reports [] place field fields items (.here _) holds)
  | object enters below ih =>
    obtain ⟨orders', nested, nestedDone, same⟩ := enters.reported done
    rw [same]
    exact ih (fun path inner field fields items deeper =>
      reports _ inner field fields items (.object enters deeper)) nestedDone holds
  | item list held below ih =>
    have aligned := (list.aligned_iff done).mpr (reports [] _ _ _ _ (.here _) list)
    obtain ⟨orders', nested, nestedDone, same⟩ := aligned.reported held
    rw [same]
    exact ih (fun path inner field fields items deeper =>
      reports _ inner field fields items (.item list held deeper)) nestedDone holds

theorem KeepsPositions.reportsItems (keeps : KeepsPositions c place (.map (assign entries)))
    (done : place.entries c orders = some entries) : ReportsItems c place := by
  intro path inner field fields items found holds
  induction found generalizing orders entries with
  | here place =>
    exact (holds.aligned_iff done).mp (keeps [] place field fields items (.here _) holds)
  | object enters below ih =>
    obtain ⟨orders', nested, nestedDone, same⟩ := enters.reported done
    refine ih (fun path inner field fields items deeper holds => ?_) nestedDone holds
    rw [← same]
    exact keeps _ inner field fields items (.object enters deeper) holds
  | item list held below ih =>
    obtain ⟨orders', nested, nestedDone, same⟩ := (keeps [] _ _ _ _ (.here _) list).reported held
    refine ih (fun path inner field fields items deeper holds => ?_) nestedDone holds
    rw [← same]
    exact keeps _ inner field fields items (.item list held deeper) holds

/-- Lists of objects keep their positions, at every depth, exactly if something is reported of
each of their objects. -/
theorem lists_keep_positions_iff (c : Conversion) (place : Place) (fits : place.Fits c)
    (orders : Orders) :
    (∃ ret, convertTFMapToKCCMap c orders place.state place.prevSpec place.schemas place.above
        place.managedFields = some ret ∧ KeepsPositions c place (.map ret)) ↔
      ReportsItems c place := by
  constructor
  · rintro ⟨ret, converted, keeps⟩
    obtain ⟨entries, done, rfl⟩ := Place.convert_eq_some.mp converted
    exact keeps.reportsItems done
  · intro reports
    obtain ⟨entries, done⟩ : ∃ entries, place.entries c orders = some entries :=
      convertedEntries_isSome fits.1 fits.2 orders
    exact ⟨assign entries, Place.convert_eq_some.mpr ⟨entries, done, rfl⟩,
      reports.keepsPositions done⟩

/-- A resource with a list of rules that have a name. -/
def ruled : Conversion where
  rc := { name := "google_ruled", kind := "Ruled" }
  ignoreOutputOnlySpecFields := false
  hash := fun _ _ => none

def rules : SchemaMap :=
  [("rule", .mk { type := .list, optional := true }
    (.resource [("name", .mk { type := .string, optional := true } .none)]))]

/-- The rules of the state and of the previous spec, by their names. -/
def ruledPlace (live : List String) (declared : List Fields) : Place where
  above := ""
  schemas := rules
  state := [("rule", .list (live.map fun name => .map [("name", .string name)]))]
  prevSpec := [("rule", .list (declared.map .map))]
  managedFields := none

theorem ruledPlace_fits (live : List String) (declared : List Fields) :
    (ruledPlace live declared).Fits ruled := by
  have name : ∀ obj : Fields, PrevFieldsFit ruled obj
      [("name", .mk { type := .string, optional := true } .none)] := by
    intro obj
    simp [PrevFieldsFit, PrevFits]
  constructor
  · refine ⟨.inr (.inr ?_), trivial⟩
    rw [StateFits]
    refine .inr ⟨_, rfl, fun set => absurd set (by decide), ?_⟩
    rw [ItemsFit]
    intro item member
    obtain ⟨text, _, rfl⟩ := mem_map.mp member
    refine ⟨_, rfl, .inr (.inr ?_), trivial⟩
    rw [StateFits]
    exact .inr ⟨text, rfl⟩
  · refine ⟨?_, trivial⟩
    rw [PrevFits]
    intro _
    rw [PrevItemsFit]
    exact ⟨fun set => absurd set (by decide), name _, fun item _ => name _⟩

theorem lists_keep_positions_two :
    (ruledPlace ["", "b"] [[], []]).Fits ruled ∧
    ((∃ ret, convertTFMapToKCCMap ruled .stored (ruledPlace ["", "b"] [[], []]).state
        (ruledPlace ["", "b"] [[], []]).prevSpec rules "" none = some ret ∧
        KeepsPositions ruled (ruledPlace ["", "b"] [[], []]) (.map ret)) ↔
      ReportsItems ruled (ruledPlace ["", "b"] [[], []])) :=
  ⟨ruledPlace_fits _ _, lists_keep_positions_iff ruled _ (ruledPlace_fits _ _) .stored⟩

theorem ruledPlace_holdsList (live : List String) (declared : List Fields) :
    HoldsList ruled (ruledPlace live declared) "rule"
      [("name", .mk { type := .string, optional := true } .none)]
      (live.map fun name => .map [("name", .string name)]) where
  schema := ⟨_, mem_singleton_self _, rfl, by decide⟩
  distinct := show DistinctKeys ruled.rc "" rules by decide
  kept := rfl
  plain := rfl
  unmanaged := rfl
  state := rfl

/-- Of two rules that the user declared, the first without a name, only the second is left. -/
theorem first_rule_dropped :
    (ruledPlace ["", "b"] [[], [("name", .string "b")]]).convert ruled .stored =
      some [("rule", .list [.map [("name", .string "b")]])] ∧
    ¬ KeepsPositions ruled (ruledPlace ["", "b"] [[], [("name", .string "b")]])
      (.map [("rule", .list [.map [("name", .string "b")]])]) := by
  refine ⟨rfl, ?_⟩
  intro keeps
  have length := (keeps [] _ "rule" _ _ (.here _) (ruledPlace_holdsList _ _)).1
  revert length
  decide

end Depth

end ConfigConnector.Krmtotf
