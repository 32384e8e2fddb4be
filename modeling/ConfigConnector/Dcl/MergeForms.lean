import ConfigConnector.Dcl.MergeFields

/- The forms of a field's schema, and what a merge of two values of each form gives. -/
namespace ConfigConnector.Dcl

open K8s List Fallible Value

variable {stateVal specVal : Value} {stateList specList vals : List Value} {field : String}

section Maps

variable {merge : String → Fields → Fields → Except Failure Fields} {stateMap specMap : Fields}

/-- The entry of an object map: both sides have an object there. -/
structure MergedEntry (merge : String → Fields → Fields → Except Failure Fields)
    (stateMap specMap : Fields) (k : String) (val : Value) : Prop where
  objects : ∃ a b c, Value.get stateMap k = .map a ∧ specMap.lookup k = some (.map b) ∧
    merge k a b = .ok c ∧ val = .map c

theorem mergeNestedObject_iff {merge : Fields → Fields → Except Failure Fields} {val : Value} :
    mergeNestedObject field merge stateVal specVal = .ok val ↔
      ∃ a b c, stateVal = .map a ∧ specVal = .map b ∧ merge a b = .ok c ∧ val = .map c := by
  unfold mergeNestedObject
  split
  · rename_i a b
    rw [bind_eq_ok]
    constructor
    · intro ⟨c, done, same⟩
      exact ⟨a, b, c, rfl, rfl, done, (Except.ok.inj same).symm⟩
    · intro ⟨a', b', c, sameA, sameB, done, same⟩
      cases sameA
      cases sameB
      exact ⟨c, done, by rw [same]; rfl⟩
  · rename_i a other notMap
    constructor
    · intro failed
      cases failed
    · intro ⟨a', b', c, sameA, sameB, done, same⟩
      exact absurd sameB (notMap b')
  · rename_i other notMap
    constructor
    · intro failed
      cases failed
    · intro ⟨a', b', c, sameA, sameB, done, same⟩
      exact absurd sameB (notMap a' b' sameA)

theorem mergeEntries_ok {keys : List String} {entries : Fields}
    (done : mergeEntries field merge stateMap specMap keys = .ok entries) (k : String) :
    (k ∈ keys → ∃ val, entries.lookup k = some val ∧ MergedEntry merge stateMap specMap k val) ∧
      (k ∉ keys → entries.lookup k = none) := by
  induction keys generalizing entries with
  | nil =>
    cases done
    exact ⟨nofun, fun _ => rfl⟩
  | cons first rest ih =>
    rw [mergeEntries] at done
    split at done
    · cases done
    rename_i specVal found
    obtain ⟨val, merged, done⟩ := bind_eq_ok.mp done
    obtain ⟨others, rest_done, same⟩ := bind_eq_ok.mp done
    cases same
    obtain ⟨a, b, c, inState, rfl, inner, rfl⟩ := mergeNestedObject_iff.mp merged
    by_cases here : k = first
    · subst here
      exact ⟨fun _ => ⟨.map c, by simp, ⟨a, b, c, inState, found, inner, rfl⟩⟩,
        fun absent => absurd (.head _) absent⟩
    rw [Dict.lookup_cons, if_neg here, mem_cons]
    obtain ⟨inside, outside⟩ := ih rest_done
    exact ⟨fun member => inside (member.resolve_left here),
      fun absent => outside fun member => absent (.inr member)⟩

theorem mergeEntries_succeeds {keys : List String}
    (each : ∀ k ∈ keys, ∃ val, MergedEntry merge stateMap specMap k val) :
    ∃ entries, mergeEntries field merge stateMap specMap keys = .ok entries := by
  induction keys with
  | nil => exact ⟨[], rfl⟩
  | cons first rest ih =>
    obtain ⟨val, a, b, c, inState, found, merged, rfl⟩ := each first (.head _)
    obtain ⟨others, rest_done⟩ := ih fun k member => each k (.tail _ member)
    have here : mergeNestedObject first (merge first) (Value.get stateMap first) (.map b) =
        .ok (.map c) := mergeNestedObject_iff.mpr ⟨a, b, c, inState, rfl, merged, rfl⟩
    refine ⟨(first, .map c) :: others, ?_⟩
    simp only [mergeEntries, found, here, ok_bind, rest_done]
    rfl

theorem mem_keysOf {fields : Fields} {k : String} :
    k ∈ keysOf fields ↔ (fields.lookup k).isSome := by
  rw [keysOf, mem_dedup, lookup_isSome_iff, mem_map]
  constructor
  · intro ⟨entry, member, same⟩
    exact ⟨entry, member, by simp [same]⟩
  · intro ⟨entry, member, same⟩
    exact ⟨entry, member, (eq_of_beq same).symm⟩

/-- What a merge of object maps that succeeds gives. -/
theorem mergeObjectMap_ok {val : Value}
    (done : mergeObjectMap field merge stateVal specVal = .ok val) :
    ∃ stateMap specMap entries, stateVal = .map stateMap ∧ specVal = .map specMap ∧
      val = .map entries ∧ (keysOf specMap).length = (keysOf stateMap).length ∧
      ∀ k, ((stateMap.lookup k).isSome →
          ∃ val, entries.lookup k = some val ∧ MergedEntry merge stateMap specMap k val) ∧
        (stateMap.lookup k = none → entries.lookup k = none) := by
  unfold mergeObjectMap at done
  split at done
  · rename_i specMap stateMap
    split at done
    · cases done
    rename_i same
    obtain ⟨entries, merged, result⟩ := bind_eq_ok.mp done
    cases result
    refine ⟨stateMap, specMap, entries, rfl, rfl, rfl, by simpa using same, fun k => ?_⟩
    obtain ⟨inside, outside⟩ := mergeEntries_ok merged k
    rw [mem_keysOf] at inside outside
    exact ⟨inside, fun absent => outside (by simp [absent])⟩
  · cases done
  · cases done

theorem mergeObjectMap_succeeds (same : (keysOf specMap).length = (keysOf stateMap).length)
    (each : ∀ k, (stateMap.lookup k).isSome →
      ∃ val, MergedEntry merge stateMap specMap k val) :
    ∃ val, mergeObjectMap field merge (.map stateMap) (.map specMap) = .ok val := by
  obtain ⟨entries, done⟩ : ∃ entries,
      mergeEntries field merge stateMap specMap (keysOf stateMap) = .ok entries :=
    mergeEntries_succeeds fun k member => each k (mem_keysOf.mp member)
  refine ⟨.map entries, ?_⟩
  simp only [mergeObjectMap, same, ne_eq, not_true_eq_false, ↓reduceIte, done, ok_bind]
  rfl

/-- Object maps of which one has the keys of the other, and as many, have the same keys. -/
theorem lookup_none_of_count (count : (keysOf specMap).length = (keysOf stateMap).length)
    (within : ∀ k, (stateMap.lookup k).isSome → (specMap.lookup k).isSome)
    {k : String} (absent : stateMap.lookup k = none) : specMap.lookup k = none := by
  have subset : keysOf stateMap ⊆ keysOf specMap :=
    fun k member => mem_keysOf.mpr (within k (mem_keysOf.mp member))
  have perm := (subperm_of_subset (nodup_dedup _) subset).perm_of_length_le
    (Nat.le_of_eq count)
  by_contra present
  have member := mem_keysOf.mpr (Option.isSome_iff_ne_none.mpr present)
  have found := mem_keysOf.mp (perm.mem_iff.mpr member)
  rw [absent] at found
  cases found

/-- When a merge of object maps gives the object map of the spec again. -/
theorem mergeObjectMap_equal_iff :
    (∃ val, mergeObjectMap field merge (.map stateMap) (.map specMap) = .ok val ∧
      val.deepEqual (.map specMap)) ↔
    (keysOf specMap).length = (keysOf stateMap).length ∧
      ∀ k, (specMap.lookup k).isSome = (stateMap.lookup k).isSome ∧
        ((stateMap.lookup k).isSome → ∃ a b c, Value.get stateMap k = .map a ∧
          specMap.lookup k = some (.map b) ∧ merge k a b = .ok c ∧
          Value.deepEqual (.map c) (.map b)) := by
  constructor
  · intro ⟨val, done, equal⟩
    obtain ⟨_, _, entries, same, same', rfl, count, each⟩ := mergeObjectMap_ok done
    cases same
    cases same'
    rw [deepEqual_map] at equal
    refine ⟨count, fun k => ?_⟩
    cases inState : stateMap.lookup k with
    | none =>
      have absent := mt (equal k).2 (by simp [(each k).2 inState])
      exact ⟨Bool.eq_false_iff.mpr absent, nofun⟩
    | some stateVal =>
      obtain ⟨val, found, a, b, c, atState, atSpec, merged, rfl⟩ := (each k).1 (by simp [inState])
      obtain ⟨other, atSpec', equalHere⟩ := (equal k).1 _ found
      cases atSpec.symm.trans atSpec'
      exact ⟨by simp [atSpec], fun _ => ⟨a, b, c, atState, atSpec, merged, equalHere⟩⟩
  · intro ⟨count, each⟩
    obtain ⟨val, done⟩ : ∃ val,
        mergeObjectMap field merge (.map stateMap) (.map specMap) = .ok val := by
      apply mergeObjectMap_succeeds count
      intro k held
      obtain ⟨a, b, c, atState, atSpec, merged, -⟩ := (each k).2 held
      exact ⟨.map c, a, b, c, atState, atSpec, merged, rfl⟩
    refine ⟨val, done, ?_⟩
    obtain ⟨_, _, entries, same, same', rfl, -, given⟩ := mergeObjectMap_ok done
    cases same
    cases same'
    rw [deepEqual_map]
    intro k
    cases inState : stateMap.lookup k with
    | none =>
      have absent := (each k).1
      rw [(given k).2 inState, absent, inState]
      exact ⟨nofun, id⟩
    | some stateVal =>
      obtain ⟨val, found, a, b, c, atState, atSpec, merged, rfl⟩ := (given k).1 (by simp [inState])
      obtain ⟨a', b', c', atState', atSpec', merged', equal⟩ := (each k).2 (by simp [inState])
      cases atState.symm.trans atState'
      cases atSpec.symm.trans atSpec'
      cases merged.symm.trans merged'
      simp [found, atSpec, equal]

end Maps

section Lists

variable {merge : Fields → Fields → Except Failure Fields}

/-- The items of two lists, merged one by one. -/
inductive MergedItems (merge : Fields → Fields → Except Failure Fields) :
    List Value → List Value → List Value → Prop where
  | nil (specList : List Value) : MergedItems merge [] specList []
  | behind {a c : Fields} {stateList vals : List Value} (merged : merge a [] = .ok c)
      (rest : MergedItems merge stateList [] vals) :
      MergedItems merge (.map a :: stateList) [] (.map c :: vals)
  | both {a b c : Fields} {stateList specList vals : List Value} (merged : merge a b = .ok c)
      (rest : MergedItems merge stateList specList vals) :
      MergedItems merge (.map a :: stateList) (.map b :: specList) (.map c :: vals)

theorem mergeItems_of (items : MergedItems merge stateList specList vals) :
    mergeItems field merge stateList specList = .ok vals := by
  induction items with
  | nil specList => rfl
  | behind merged rest ih =>
    simp only [mergeItems, specItem, ok_bind, merged, tail_nil, ih]
    rfl
  | both merged rest ih =>
    simp only [mergeItems, specItem, ok_bind, merged, tail_cons, ih]
    rfl

theorem mergeItems_ok (done : mergeItems field merge stateList specList = .ok vals) :
    MergedItems merge stateList specList vals := by
  induction stateList generalizing specList vals with
  | nil =>
    cases done
    exact .nil specList
  | cons elem rest ih =>
    unfold mergeItems at done
    split at done
    · obtain ⟨b, object, done⟩ := bind_eq_ok.mp done
      obtain ⟨c, merged, done⟩ := bind_eq_ok.mp done
      obtain ⟨others, rest_done, same⟩ := bind_eq_ok.mp done
      cases same
      unfold specItem at object
      split at object
      · cases object
        exact .behind merged (ih rest_done)
      · cases object
        exact .both merged (ih rest_done)
      · cases object
    · cases done

theorem mergeObjectArray_iff :
    mergeObjectArray field merge stateVal specVal = .ok vals ↔
      ∃ stateList specList, stateVal = .list stateList ∧ specVal = .list specList ∧
        specList.length ≤ stateList.length ∧ MergedItems merge stateList specList vals := by
  constructor
  · intro done
    unfold mergeObjectArray at done
    split at done
    · rename_i specList stateList
      split at done
      · cases done
      · exact ⟨stateList, specList, rfl, rfl, by omega, mergeItems_ok done⟩
    · cases done
    · cases done
  · intro ⟨stateList, specList, sameState, sameSpec, shorter, items⟩
    subst sameState sameSpec
    simp only [mergeObjectArray, if_neg (Nat.not_lt.mpr shorter)]
    exact mergeItems_of items

theorem MergedItems.length_eq
    (items : MergedItems merge stateList specList vals) : vals.length = stateList.length := by
  induction items with
  | nil => rfl
  | behind _ _ ih | both _ _ ih => simp [ih]

/-- When a merge of lists of one length gives the list of the spec again. -/
theorem mergedItems_equal_iff (same : stateList.length = specList.length) :
    (∃ vals, MergedItems merge stateList specList vals ∧
      List.Forall₂ (fun val item => Value.deepEqual val item = true) vals specList) ↔
    List.Forall₂ (fun stateItem specItem => ∃ a b c, stateItem = .map a ∧ specItem = .map b ∧
      merge a b = .ok c ∧ Value.deepEqual (.map c) (.map b)) stateList specList := by
  induction stateList generalizing specList with
  | nil =>
    obtain rfl := length_eq_zero_iff.mp same.symm
    exact ⟨fun _ => .nil, fun _ => ⟨[], .nil [], .nil⟩⟩
  | cons elem rest ih =>
    cases specList with
    | nil => cases same
    | cons other others =>
      rw [List.forall₂_cons, ← ih (by simpa using same)]
      constructor
      · intro ⟨vals, items, equal⟩
        cases items with
        | both merged items =>
          obtain ⟨here, behind⟩ := List.forall₂_cons.mp equal
          exact ⟨⟨_, _, _, rfl, rfl, merged, here⟩, _, items, behind⟩
      · intro ⟨⟨a, b, c, isState, isSpec, merged, here⟩, vals, items, equal⟩
        subst isState isSpec
        exact ⟨.map c :: vals, .both merged items, .cons here equal⟩

end Lists

section Atoms

variable {state spec : Fields} {f : String} {managedFields : Option FieldSet} {c : Schema}
  {val : Value}

theorem Regular.not_sensitive (regular : Regular c) (other : c.type ≠ .string) :
    isSensitive c = false := by
  have known := regular.sensitive
  rw [isSensitiveField] at known
  rw [isSensitive, hasFlag]
  cases found : c.extension.lookup "x-dcl-sensitive" with
  | none => rfl
  | some raw =>
    rw [found, if_pos other] at known
    cases known

theorem mergeScalar_eq (regular : Regular c) :
    mergeScalar state spec f managedFields c =
      if isK8sManaged f spec managedFields then .ok (Value.get spec f)
      else do
        if isSensitive c then marshalSensitiveField (Value.get state f)
        return Value.get state f := by
  rw [mergeScalar]
  by_cases string : c.type = .string
  · rw [if_pos string, regular.sensitive, ok_bind]
  · rw [if_neg string, regular.not_sensitive string, ok_bind]

theorem mergeScalar_iff (regular : Regular c) :
    mergeScalar state spec f managedFields c = .ok val ↔
      if isK8sManaged f spec managedFields then val = Value.get spec f
      else (isSensitive c → sensitiveFieldMismatch (Value.get state f) = none) ∧
        val = Value.get state f := by
  rw [mergeScalar_eq regular]
  cases isK8sManaged f spec managedFields with
  | true => simp [eq_comm]
  | false =>
    cases isSensitive c with
    | false => exact ⟨fun done => ⟨(nomatch ·), (Except.ok.inj done).symm⟩,
        fun same => by rw [same.2]; rfl⟩
    | true =>
      simp only [Bool.false_eq_true, ↓reduceIte, marshalSensitiveField, true_implies]
      cases sensitiveFieldMismatch (Value.get state f) with
      | none => exact ⟨fun done => ⟨rfl, (Except.ok.inj done).symm⟩,
          fun same => by rw [same.2]; rfl⟩
      | some text => exact ⟨(nomatch ·), fun same => nomatch same.1⟩

theorem mergePrimitiveMap_iff (present : Value.get state f ≠ .null) :
    mergePrimitiveMap state spec f managedFields = .ok val ↔
      if isK8sManaged f spec managedFields then val = Value.get spec f
      else ∃ entries, Value.get state f = .map entries ∧
        val = if entries.isEmpty then .null else .map entries := by
  rw [mergePrimitiveMap]
  cases isK8sManaged f spec managedFields with
  | true => simp [eq_comm]
  | false =>
    cases held : Value.get state f with
    | null => exact absurd held present
    | map entries =>
      simp only [Bool.false_eq_true, ↓reduceIte, Value.map.injEq, exists_eq_left']
      cases entries with
      | nil | cons _ _ => exact ok_eq_ok
    | _ => simp [notA, fail]

end Atoms

section Forms

/-- An empty list is not stored. -/
def listOrNull (items : List Value) : Value := if items.isEmpty then .null else .list items

theorem deepEqual_listOrNull {items : List Value} :
    (listOrNull vals).deepEqual (.list items) ↔
      vals ≠ [] ∧ List.Forall₂ (fun val item => Value.deepEqual val item = true) vals items := by
  cases vals with
  | nil => simp [listOrNull, Value.isNil]
  | cons val rest => simp [listOrNull, Value.deepEqual, itemsEqual_iff]

/-- How the values of a field that is no reference are merged. -/
inductive Form where
  | scalar
  | primitiveMap
  | objectMap (inner : Schema)
  | nested
  | primitiveList
  | objectList (inner : Schema)
  | unsupported

def form : Schema → Form
  | .mk .object _ _ _ (some inner) _ =>
    if inner.type.isPrimitive then .primitiveMap
    else if inner.type = .object then .objectMap inner
    else .unsupported
  | .mk .object _ _ _ none _ => .nested
  | .mk .array _ _ _ _ (some inner) =>
    if inner.type.isPrimitive then .primitiveList
    else if inner.type = .object then .objectList inner
    else .unsupported
  | .mk .array _ _ _ _ none | .mk (.other _) _ _ _ _ _ => .unsupported
  | .mk .string _ _ _ _ _ | .mk .boolean _ _ _ _ _ | .mk .number _ _ _ _ _
  | .mk .integer _ _ _ _ _ => .scalar

theorem additional_of_form {c inner : Schema} (isMap : form c = .objectMap inner) :
    c.additionalProperties = some inner ∧ inner.type = .object := by
  unfold form at isMap
  repeat' split at isMap
  all_goals cases isMap
  exact ⟨rfl, ‹_›⟩

theorem items_of_form {c inner : Schema} (isList : form c = .objectList inner) :
    c.items = some inner ∧ inner.type = .object := by
  unfold form at isList
  repeat' split at isList
  all_goals cases isList
  exact ⟨rfl, ‹_›⟩

variable (services : Services) (state spec : Fields) (path : List String)
  (managedFields : Option FieldSet) (within : DataType) (f : String) (c : Schema) (val : Value)

/-- What the merge of a field gives, form by form. -/
def Merges : Form → Prop
  | .scalar => mergeScalar state spec f managedFields c = .ok val
  | .primitiveMap => mergePrimitiveMap state spec f managedFields = .ok val
  | .objectMap inner => mergeObjectMap f (fun k stateMap specMap =>
      mergeSpecWithLiteState services stateMap specMap (path ++ [f] ++ [k])
        (nestedManagedFields k (nestedManagedFields f managedFields)) inner)
      (Value.get state f) (Value.get spec f) = .ok val
  | .nested => mergeNestedObject f (fun stateMap specMap =>
      mergeSpecWithLiteState services stateMap specMap (path ++ [f])
        (nestedManagedFields f managedFields) c)
      (Value.get state f) (Value.get spec f) = .ok val
  | .primitiveList => ∃ items, Value.get state f = .list items ∧ val = listOrNull items
  | .objectList inner => ∃ stateList specList vals, Value.get state f = .list stateList ∧
      Value.get spec f = .list specList ∧ specList.length ≤ stateList.length ∧
      MergedItems (fun stateMap specMap => mergeSpecWithLiteState services stateMap specMap
        (path ++ [f]) none inner) stateList specList vals ∧
      val = listOrNull vals
  | .unsupported => False

theorem mergeField_iff :
    mergeField services state spec path managedFields within f c = .ok val ↔
      Merges services state spec path managedFields f c val (form c) := by
  obtain ⟨type, readOnly, extension, properties, additional, items⟩ := c
  cases type with
  | object =>
    cases additional with
    | none => simp only [form, mergeField, Merges, mergeSpecWithLiteState]
    | some inner =>
      rw [form, mergeField]
      by_cases primitive : inner.type.isPrimitive = true
      · simp only [if_pos primitive, Merges]
      by_cases object : inner.type = .object
      · simp only [if_neg primitive, if_pos object, Merges]
      · simp [primitive, object, Merges, fail]
  | array =>
    cases items with
    | none => simp [form, mergeField, Merges]
    | some inner =>
      rw [form, mergeField]
      by_cases primitive : inner.type.isPrimitive = true
      · simp only [if_pos primitive, Merges]
        cases Value.get state f with
        | list items =>
          simp only [Value.list.injEq, exists_eq_left']
          cases items <;> exact ok_eq_ok
        | _ => simp [notA, fail]
      · by_cases object : inner.type = .object
        · simp only [if_neg primitive, if_pos object, Merges]
          rw [bind_eq_ok]
          constructor
          · rintro ⟨vals, done, same⟩
            obtain ⟨stateList, specList, atState, atSpec, shorter, items⟩ :=
              mergeObjectArray_iff.mp done
            refine ⟨stateList, specList, vals, atState, atSpec, shorter, items, ?_⟩
            cases vals <;> exact (Except.ok.inj same).symm
          · rintro ⟨stateList, specList, vals, atState, atSpec, shorter, items, same⟩
            refine ⟨vals, mergeObjectArray_iff.mpr
              ⟨stateList, specList, atState, atSpec, shorter, items⟩, ?_⟩
            rw [same]
            cases vals <;> rfl
        · simp [primitive, object, Merges, fail]
  | other name => simp [form, mergeField, Merges, fail]
  | string | boolean | number | integer => simp only [form, mergeField, Merges]

end Forms

end ConfigConnector.Dcl
