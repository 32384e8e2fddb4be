import ConfigConnector.Dcl.MergeForms

/- What a state must be like for a merge of it with itself to give it back. -/
namespace ConfigConnector.Dcl

open K8s List Fallible Value

/-- The set of managed fields, if there is one, has the field. -/
def managedIn (f : String) : Option FieldSet → Bool
  | none => true
  | some managedFields =>
    managedFields.members.contains f || (managedFields.children.lookup f).isSome

/-- Every key has a value, and belongs to a property. -/
def known (services : Services) (properties : Properties) (fields : Fields) : Bool :=
  (keysOf fields).all fun key =>
    !(Value.get fields key).isNil && (allMergeKeys services false properties).contains key

section Conditions

variable (services : Services)

mutual

/-- The value of a field in the state is what a merge of it with itself gives. -/
def returnsField (managedFields : Option FieldSet) (f : String) (val : Value) : Schema → Bool
  | .mk .object _ _ _ (some inner) _ =>
    if inner.type.isPrimitive then
      managedIn f managedFields || !val.entries.isEmpty
    else if inner.type = .object then
      match val with
      | .map entries => (keysOf entries).all fun k =>
        match Value.get entries k with
        | .map fields => returnsObject
            (nestedManagedFields k (nestedManagedFields f managedFields)) fields inner
        | _ => false
      | _ => false
    else false
  | .mk .object _ _ properties none _ =>
    match val with
    | .map fields => known services properties fields &&
        returnsProperties (nestedManagedFields f managedFields) fields properties
    | _ => false
  | .mk .array _ _ _ _ (some inner) =>
    if inner.type.isPrimitive then !val.items.isEmpty
    else if inner.type = .object then
      match val with
      | .list items => !items.isEmpty && items.all fun item =>
        match item with
        | .map fields => returnsObject none fields inner
        | _ => false
      | _ => false
    else false
  | .mk .array _ _ _ _ none | .mk (.other _) _ _ _ _ _ => false
  | .mk type readOnly extension properties additional items =>
    managedIn f managedFields ||
      !isSensitive (.mk type readOnly extension properties additional items) ||
      (sensitiveFieldMismatch val).isNone

def returnsObject (managedFields : Option FieldSet) (fields : Fields) : Schema → Bool
  | .mk _ _ _ properties _ _ =>
    known services properties fields && returnsProperties managedFields fields properties

def returnsProperties (managedFields : Option FieldSet) (fields : Fields) : Properties → Bool
  | [] => true
  | (f, s) :: rest =>
    (isReference s || (Value.get fields f).isNil ||
      returnsField managedFields f (Value.get fields f) s) &&
    returnsProperties managedFields fields rest

end

end Conditions

variable {managedFields : Option FieldSet} {services : Services}

section Level

variable {state spec target : Fields} {path : List String} {s : Schema}

theorem ne_null_of_deepEqual {a b : Value} (equal : a.deepEqual b) (present : a ≠ .null) :
    b ≠ .null := by
  intro nil
  rw [nil, deepEqual_null_right, Value.isNil_iff] at equal
  exact present equal

/-- Every key of the target has a value, and belongs to a property. -/
def Known (services : Services) (atRoot : Bool) (s : Schema) (target : Fields) : Prop :=
  ∀ key val, target.lookup key = some val →
    val ≠ .null ∧ ∃ entry ∈ s.properties, key ∈ mergeKeys services atRoot entry.1 entry.2

/-- The property gives what the target has under its keys. -/
def Gives (services : Services) (state spec : Fields) (path : List String)
    (managedFields : Option FieldSet) (within : DataType) (target : Fields)
    (entry : String × Schema) : Prop :=
  ∃ k val, mergeProperty services state spec path managedFields within entry = .ok (k, val) ∧
    ∀ key ∈ mergeKeys services path.isEmpty entry.1 entry.2,
      Value.deepEqual (if key = k then val else .null) (Value.get target key) = true

/-- A merge gives the target if every property gives its part of it. -/
theorem merge_equal_iff (lawful : Lawful services path.isEmpty s) :
    (∃ merged, mergeSpecWithLiteState services state spec path managedFields s = .ok merged ∧
      Value.deepEqual (.map merged) (.map target)) ↔
    Known services path.isEmpty s target ∧
      ∀ entry ∈ s.properties, Gives services state spec path managedFields s.type target entry := by
  constructor
  · rintro ⟨merged, done, equal⟩
    obtain ⟨entries, given, rfl⟩ := mergeSpecWithLiteState_iff.mp done
    constructor
    · intro key val held
      obtain ⟨other, found⟩ := Option.isSome_iff_exists.mp
        (((deepEqual_map _ _).mp equal key).2 (by simp [held]))
      have present : other ≠ .null := by
        intro nil
        exact lookup_collect_ne_null entries key (by rw [found, nil])
      have same := deepEqual_get equal key
      rw [Value.get, Value.get, found, held] at same
      obtain ⟨entry, member, gives⟩ :=
        (get_merged_iff lawful given key present).mp (by rw [Value.get, found]; rfl)
      exact ⟨ne_null_of_deepEqual same present, entry, member,
        mergeProperty_key (lawful.property member).regular gives present⟩
    · intro entry member
      obtain ⟨k, val, gives⟩ := given_of_mem given member
      refine ⟨k, val, gives, fun key ofEntry => ?_⟩
      rw [← get_merged lawful given member gives ofEntry]
      exact deepEqual_get equal key
  · rintro ⟨known, each⟩
    have succeeds : ∀ entry ∈ s.properties,
        ∃ given, mergeProperty services state spec path managedFields s.type entry = .ok given := by
      intro entry member
      obtain ⟨k, val, gives, -⟩ := each entry member
      exact ⟨(k, val), gives⟩
    obtain ⟨entries, given⟩ := mapM_ok succeeds
    have same : ∀ entry ∈ s.properties, ∀ key ∈ mergeKeys services path.isEmpty entry.1 entry.2,
        Value.deepEqual (Value.get (collect entries) key) (Value.get target key) = true := by
      intro entry member key ofEntry
      obtain ⟨k, val, gives, equal⟩ := each entry member
      rw [get_merged lawful given member gives ofEntry]
      exact equal key ofEntry
    refine ⟨collect entries, mergeSpecWithLiteState_iff.mpr ⟨entries, given, rfl⟩, ?_⟩
    rw [deepEqual_map]
    intro key
    constructor
    · intro val found
      have present : val ≠ .null := by
        intro nil
        exact lookup_collect_ne_null entries key (by rw [found, nil])
      have held : Value.get (collect entries) key = val := by rw [Value.get, found]; rfl
      obtain ⟨entry, member, gives⟩ := (get_merged_iff lawful given key present).mp held
      have equal := same entry member key
        (mergeProperty_key (lawful.property member).regular gives present)
      rw [held] at equal
      exact ⟨_, lookup_of_get rfl (ne_null_of_deepEqual equal present), equal⟩
    · intro held
      obtain ⟨val, found⟩ := Option.isSome_iff_exists.mp held
      obtain ⟨present, entry, member, ofEntry⟩ := known key val found
      have equal := same entry member key ofEntry
      rw [deepEqual_comm, (by rw [Value.get, found]; rfl : Value.get target key = val)] at equal
      rw [lookup_of_get rfl (ne_null_of_deepEqual equal present)]
      rfl

variable {f k : String} {c : Schema} {within : DataType} {val : Value}

theorem gives_iff {entry : String × Schema} {key : String}
    (given : mergeProperty services state spec path managedFields within entry = .ok (k, val))
    (onlyKey : mergeKeys services path.isEmpty entry.1 entry.2 = [key]) :
    Gives services state spec path managedFields within target entry ↔
      Value.deepEqual (if key = k then val else .null) (Value.get target key) := by
  rw [Gives, onlyKey]
  constructor
  · intro ⟨k', val', same, equal⟩
    cases given.symm.trans same
    exact equal key (mem_singleton_self key)
  · intro equal
    refine ⟨k, val, given, fun other isKey => ?_⟩
    rw [mem_singleton.mp isKey]
    exact equal

theorem gives_reference_iff (regular : Regular c) (refers : isReference c)
    (single : (path.isEmpty && f == "parent") = false) :
    Gives services state spec path managedFields within spec (f, c) ↔
      (spec.lookup (referenceKey f c) = none → Value.get state (referenceKey f c) = .null) := by
  have onlyKey : mergeKeys services path.isEmpty f c = [referenceKey f c] := by
    simp [mergeKeys, refers, single]
  have given : mergeProperty services state spec path managedFields within (f, c) =
      .ok (singleReference state spec (referenceKey f c)) := by
    rw [mergeProperty_reference regular refers, single]
    rfl
  rw [gives_iff given onlyKey]
  cases found : spec.lookup (referenceKey f c) with
  | some val => simp [Value.get, found]
  | none =>
    have absent : Value.get spec (referenceKey f c) = .null := by rw [Value.get, found]; rfl
    by_cases nil : Value.get state (referenceKey f c) = .null
    · simp [nil, absent, Value.isNil]
    · simp [nil, absent, isNil_of_ne nil]

/-- A spec with one parent names no other. -/
theorem parentsIn_length_le_one (nodup : ((parentTypes services c).map (·.key)).Nodup)
    {config : Fields}
    (held : ∀ key ∈ (parentTypes services c).map (·.key),
      Value.get config key = if key = k then val else .null) :
    (parentsIn services c config).length ≤ 1 := by
  have within : ∀ tc ∈ parentTypes services c,
      (!(Value.get config tc.key).isNil) = true → (tc.key == k) = true := by
    intro tc member present
    rw [held tc.key (mem_map_of_mem member)] at present
    by_contra other
    rw [if_neg (by simpa using other)] at present
    cases present
  calc (parentsIn services c config).length
      = (parentTypes services c).countP fun tc => !(Value.get config tc.key).isNil := by
        rw [parentsIn, countP_eq_length_filter]
    _ ≤ (parentTypes services c).countP fun tc => tc.key == k := countP_mono_left within
    _ = ((parentTypes services c).map (·.key)).count k := by
        rw [List.count, countP_map]
        rfl
    _ ≤ 1 := nodup_iff_count_le_one.mp nodup k

theorem parentEntry_null (nil : (parentEntry services c state spec).2 = .null) :
    parentsIn services c spec = [] ∧ parentsIn services c state = [] := by
  rw [parentEntry] at nil
  cases inSpec : parentsIn services c spec with
  | cons tc rest =>
    rw [inSpec] at nil
    have member : tc ∈ parentsIn services c spec := by simp [inSpec]
    exact absurd nil (mem_parentsIn.mp member).2
  | nil =>
    cases inState : parentsIn services c state with
    | nil => exact ⟨rfl, rfl⟩
    | cons tc rest =>
      rw [inSpec, inState] at nil
      have member : tc ∈ parentsIn services c state := by simp [inState]
      exact absurd nil (mem_parentsIn.mp member).2

/-- The parent is found again in the merged spec. -/
theorem gives_parent (lawful : Lawful services path.isEmpty s) (member : (f, c) ∈ s.properties)
    (refers : isReference c) (parent : (path.isEmpty && f == "parent")) {merged : Fields}
    (given : mergeProperty services state spec path managedFields within (f, c) = .ok (k, val))
    (held : ∀ key ∈ mergeKeys services path.isEmpty f c,
      Value.get merged key = if key = k then val else .null) :
    Gives services state merged path managedFields within merged (f, c) := by
  have regular := (lawful.property member).regular
  have keys : mergeKeys services path.isEmpty f c = (parentTypes services c).map (·.key) := by
    rw [mergeKeys, if_pos refers, if_pos parent]
  have nodup := lawful.nodup_keys member
  rw [keys] at held nodup
  rw [mergeProperty_reference regular refers, if_pos parent, mergeParent_iff] at given
  obtain ⟨typesKnown, -, -, entry⟩ := given
  rw [Gives, mergeProperty_reference regular refers, if_pos parent, keys]
  have atMostOne := parentsIn_length_le_one nodup held
  cases inMerged : parentsIn services c merged with
  | cons tc rest =>
    have found : tc ∈ parentsIn services c merged := by simp [inMerged]
    obtain ⟨isType, present⟩ := mem_parentsIn.mp found
    have isKey : tc.key = k := by
      by_contra other
      rw [held tc.key (mem_map_of_mem isType), if_neg other] at present
      exact present rfl
    have value : Value.get merged tc.key = val := by
      rw [held tc.key (mem_map_of_mem isType), if_pos isKey]
    refine ⟨k, val, (mergeParent_iff services c).mpr ⟨typesKnown, atMostOne, ?_, ?_⟩, ?_⟩
    · rw [inMerged]
      intro empty
      cases empty
    · rw [parentEntry, inMerged]
      exact Prod.ext isKey.symm value.symm
    · intro key ofParent
      rw [held key ofParent, deepEqual_refl]
  | nil =>
    have nothing : ∀ key ∈ (parentTypes services c).map (·.key), Value.get merged key = .null := by
      intro key ofParent
      obtain ⟨tc, isType, rfl⟩ := mem_map.mp ofParent
      by_contra present
      have found := mem_parentsIn.mpr ⟨isType, present⟩
      rw [inMerged] at found
      cases found
    have nil : val = .null := by
      by_contra present
      have ofParent := parentEntry_mem entry.symm present
      rw [← nothing k ofParent, held k ofParent, if_pos rfl] at present
      exact present rfl
    have noEntry : (parentEntry services c state spec).2 = .null := by rw [← entry, nil]
    have inState := (parentEntry_null noEntry).2
    refine ⟨"", .null, (mergeParent_iff services c).mpr ⟨typesKnown, atMostOne, ?_, ?_⟩, ?_⟩
    · simp [inState]
    · rw [parentEntry, inMerged, inState]
    · intro key ofParent
      simp [nothing key ofParent]

theorem gives_plain_iff (regular : Regular c) (plain : isReference c = false) :
    Gives services state spec path managedFields within spec (f, c) ↔
      Value.get state f = .null ∨ (Value.get spec f ≠ .null ∧
        ∃ val, mergeField services state spec path managedFields within f c = .ok val ∧
          val.deepEqual (Value.get spec f)) := by
  have onlyKey : mergeKeys services path.isEmpty f c = [f] := by simp [mergeKeys, plain]
  have merged := @mergeProperty_plain services managedFields state spec path within f c
    regular plain
  by_cases inState : Value.get state f = .null
  · rw [inState, Value.isNil, if_pos rfl] at merged
    rw [gives_iff merged onlyKey]
    simp [inState]
  have isState := isNil_of_ne inState
  rw [isState, if_neg Bool.false_ne_true] at merged
  by_cases inSpec : Value.get spec f = .null
  · rw [inSpec, Value.isNil, if_pos rfl] at merged
    rw [gives_iff merged onlyKey]
    simp [inState, inSpec, isState]
  have isSpec := isNil_of_ne inSpec
  rw [isSpec, if_neg Bool.false_ne_true] at merged
  cases both : mergeField services state spec path managedFields within f c with
  | error err =>
    rw [both, error_bind] at merged
    simp [Gives, merged, inState]
  | ok val =>
    rw [both, ok_bind] at merged
    rw [gives_iff merged onlyKey]
    simp [inState, inSpec]

end Level

section Alone

theorem isK8sManaged_of_present {f : String} {spec : Fields} (managedFields : Option FieldSet)
    (present : Value.get spec f ≠ .null) :
    isK8sManaged f spec managedFields = managedIn f managedFields := by
  cases managedFields with
  | none => rw [isK8sManaged, managedIn, lookup_of_get rfl present]; rfl
  | some set => rfl

variable {s : Schema} {fields : Fields}

theorem known_iff : known services s.properties fields ↔ Known services false s fields := by
  simp only [known, List.all_eq_true, mem_keysOf, Bool.and_eq_true, Bool.not_eq_true',
    List.contains_iff_mem, allMergeKeys, List.mem_flatMap, Bool.eq_false_iff, ne_eq,
    Value.isNil_iff, Known]
  constructor
  · intro all key val found
    have held := all key (by simp [found])
    rwa [Value.get, found] at held
  · intro all key found
    obtain ⟨val, found⟩ := Option.isSome_iff_exists.mp found
    have held := all key val found
    rwa [Value.get, found]

theorem returnsProperties_iff {properties : Properties} :
    returnsProperties services managedFields fields properties ↔
      ∀ f c, (f, c) ∈ properties → isReference c = false → Value.get fields f ≠ .null →
        returnsField services managedFields f (Value.get fields f) c := by
  induction properties with
  | nil => simp [returnsProperties]
  | cons entry rest ih =>
    obtain ⟨first, s⟩ := entry
    have head : (isReference s || (Value.get fields first).isNil ||
        returnsField services managedFields first (Value.get fields first) s) = true ↔
        (isReference s = false → Value.get fields first ≠ .null →
          returnsField services managedFields first (Value.get fields first) s = true) := by
      rw [Bool.or_eq_true, Bool.or_eq_true, or_assoc, or_iff_not_imp_left, or_iff_not_imp_left,
        Bool.not_eq_true, Value.isNil_iff]
    rw [returnsProperties, Bool.and_eq_true, ih, head, Dict.forall_entry_cons]

theorem returnsObject_iff :
    returnsObject services managedFields fields s ↔ Known services false s fields ∧
      ∀ f c, (f, c) ∈ s.properties → isReference c = false → Value.get fields f ≠ .null →
        returnsField services managedFields f (Value.get fields f) c := by
  rw [← known_iff, ← returnsProperties_iff]
  cases s
  simp only [returnsObject, Bool.and_eq_true]
  rfl

/-- When the value of a field returns, form by form. -/
def ReturnsAs (services : Services) (managedFields : Option FieldSet) (f : String) (val : Value)
    (c : Schema) : Form → Prop
  | .scalar =>
    (managedIn f managedFields || !isSensitive c || (sensitiveFieldMismatch val).isNone) = true
  | .primitiveMap =>
    managedIn f managedFields = true ∨ ∃ entry entries, val = .map (entry :: entries)
  | .objectMap inner => ∃ entries, val = .map entries ∧ ∀ k, (entries.lookup k).isSome = true →
      ∃ fields, Value.get entries k = .map fields ∧ returnsObject services
        (nestedManagedFields k (nestedManagedFields f managedFields)) fields inner = true
  | .nested => ∃ fields, val = .map fields ∧
      returnsObject services (nestedManagedFields f managedFields) fields c = true
  | .primitiveList => ∃ item items, val = .list (item :: items)
  | .objectList inner => ∃ items, val = .list items ∧ items ≠ [] ∧ ∀ item ∈ items,
      ∃ fields, item = .map fields ∧ returnsObject services none fields inner = true
  | .unsupported => False

theorem returnsField_iff {f : String} {val : Value}
    {c : Schema} : returnsField services managedFields f val c ↔
      ReturnsAs services managedFields f val c (form c) := by
  obtain ⟨type, readOnly, extension, properties, additional, items⟩ := c
  cases type with
  | object =>
    cases additional with
    | none =>
      rw [form, ReturnsAs]
      unfold returnsField
      cases val <;> simp [returnsObject]
    | some inner =>
      unfold form returnsField
      by_cases primitive : inner.type.isPrimitive = true
      · simp only [if_pos primitive, ReturnsAs]
        rw [Bool.or_eq_true]
        apply or_congr Iff.rfl
        cases val with
        | map entries => cases entries <;> simp [Value.entries]
        | _ => simp [Value.entries]
      · by_cases object : inner.type = .object
        · simp only [if_neg primitive, if_pos object, ReturnsAs]
          cases val with
          | map entries =>
            simp only [List.all_eq_true, mem_keysOf, Value.map.injEq, exists_eq_left']
            apply forall_congr'
            intro k
            apply imp_congr Iff.rfl
            cases Value.get entries k <;> simp
          | _ => simp
        · simp [primitive, object, ReturnsAs]
  | array =>
    cases items with
    | none => simp [form, returnsField, ReturnsAs]
    | some inner =>
      unfold form returnsField
      by_cases primitive : inner.type.isPrimitive = true
      · simp only [if_pos primitive, ReturnsAs]
        cases val with
        | list items => cases items <;> simp [Value.items]
        | _ => simp [Value.items]
      · by_cases object : inner.type = .object
        · simp only [if_neg primitive, if_pos object, ReturnsAs]
          cases val with
          | list items =>
            simp only [Bool.and_eq_true, List.all_eq_true, Value.list.injEq,
              exists_eq_left', Bool.not_eq_true', isEmpty_eq_false_iff]
            apply and_congr Iff.rfl
            apply forall₂_congr
            intro item member
            cases item <;> simp
          | _ => simp
        · simp [primitive, object, ReturnsAs]
  | other name => simp [form, returnsField, ReturnsAs]
  | string | boolean | number | integer => simp only [form, returnsField, ReturnsAs]

/-- The condition says when a value is merged with itself. -/
def FieldReturns (services : Services) (c : Schema) : Prop :=
  ∀ (state spec : Fields) (path : List String) (managedFields : Option FieldSet)
    (within : DataType) (f : String) (val : Value), Value.get state f = val →
    Value.get spec f = val → val ≠ .null →
    ((∃ merged, mergeField services state spec path managedFields within f c = .ok merged ∧
        merged.deepEqual val = true) ↔ returnsField services managedFields f val c = true)

def ObjectReturns (services : Services) (s : Schema) : Prop :=
  ∀ (fields : Fields) (path : List String) (managedFields : Option FieldSet), path ≠ [] →
    ((∃ merged, mergeSpecWithLiteState services fields fields path managedFields s = .ok merged ∧
        Value.deepEqual (.map merged) (.map fields) = true) ↔
      returnsObject services managedFields fields s = true)

theorem object_returns_alone (lawful : Lawful services false s)
    (each : ∀ f c, (f, c) ∈ s.properties → isReference c = false → FieldReturns services c) :
    ObjectReturns services s := by
  intro fields path managedFields below
  have atDepth : path.isEmpty = false := by simpa using below
  have lawfulHere : Lawful services path.isEmpty s := atDepth ▸ lawful
  rw [merge_equal_iff lawfulHere, returnsObject_iff, atDepth]
  apply and_congr Iff.rfl
  constructor
  · intro gives f c member plain present
    have held := (gives_plain_iff (lawful.property member).regular plain).mp (gives (f, c) member)
    obtain ⟨-, merged⟩ := held.resolve_left present
    exact (each f c member plain fields fields path _ _ f _ rfl rfl present).mp merged
  · intro returns ⟨f, c⟩ member
    have regular := (lawful.property member).regular
    by_cases refers : isReference c = true
    · apply (gives_reference_iff regular refers (by simp [atDepth])).mpr
      intro absent
      rw [Value.get, absent]
      rfl
    · have plain := Bool.eq_false_iff.mpr refers
      apply (gives_plain_iff regular plain).mpr
      by_cases present : Value.get fields f = .null
      · exact .inl present
      · exact .inr ⟨present, (each f c member plain fields fields path _ _ f _ rfl rfl present).mpr
          (returns f c member plain present)⟩

variable {c : Schema}

theorem scalar_returns (regular : Regular c) (scalar : form c = .scalar) :
    FieldReturns services c := by
  intro state spec path managedFields within f val inState inSpec present
  simp only [mergeField_iff, returnsField_iff, scalar, Merges, ReturnsAs]
  simp only [mergeScalar_iff regular, isK8sManaged_of_present managedFields (inSpec ▸ present),
    inState, inSpec]
  cases managedIn f managedFields with
  | true => simp
  | false => cases isSensitive c <;> simp

theorem primitiveMap_returns (isMap : form c = .primitiveMap) : FieldReturns services c := by
  intro state spec path managedFields within f val inState inSpec present
  simp only [mergeField_iff, returnsField_iff, isMap, Merges, ReturnsAs]
  simp only [mergePrimitiveMap_iff (inState ▸ present),
    isK8sManaged_of_present managedFields (inSpec ▸ present), inState, inSpec]
  cases managedIn f managedFields with
  | true => simp
  | false =>
    simp only [Bool.false_eq_true, ↓reduceIte, false_or]
    constructor
    · rintro ⟨result, ⟨entries, same, given⟩, equal⟩
      cases entries with
      | nil =>
        rw [given, same] at equal
        cases equal
      | cons entry rest => exact ⟨entry, rest, same⟩
    · rintro ⟨entry, entries, same⟩
      exact ⟨val, ⟨_, same, by simp [same]⟩, val.deepEqual_refl⟩

theorem objectMap_returns {inner : Schema} (isMap : form c = .objectMap inner)
    (each : ObjectReturns services inner) : FieldReturns services c := by
  intro state spec path managedFields within f val inState inSpec present
  simp only [mergeField_iff, returnsField_iff, isMap, Merges, ReturnsAs]
  rw [inState, inSpec]
  cases val with
  | map entries =>
    rw [mergeObjectMap_equal_iff]
    simp only [true_and, Value.map.injEq, exists_eq_left']
    apply forall_congr'
    intro k
    apply imp_congr Iff.rfl
    constructor
    · rintro ⟨a, b, both, same, found, inside, equal⟩
      obtain rfl : b = a := by simpa [Value.get, found] using same
      exact ⟨b, same, (each b _ _ (by simp)).mp ⟨both, inside, equal⟩⟩
    · rintro ⟨a, same, returnsThere⟩
      obtain ⟨both, inside, equal⟩ := (each a (path ++ [f] ++ [k]) _ (by simp)).mpr returnsThere
      exact ⟨a, a, both, same, lookup_of_get same (by simp), inside, equal⟩
  | _ => simp [mergeObjectMap, notA, fail]

theorem nested_returns (nested : form c = .nested)
    (whole : ObjectReturns services c) : FieldReturns services c := by
  intro state spec path managedFields within f val inState inSpec present
  simp only [mergeField_iff, returnsField_iff, nested, Merges, ReturnsAs]
  rw [inState, inSpec]
  simp only [mergeNestedObject_iff]
  constructor
  · rintro ⟨result, ⟨a, b, c, same, same', done, isMap⟩, equal⟩
    subst same
    cases same'
    rw [isMap] at equal
    exact ⟨a, rfl, (whole a _ _ (by simp)).mp ⟨c, done, equal⟩⟩
  · rintro ⟨fields, same, returnsThere⟩
    obtain ⟨result, done, equal⟩ := (whole fields (path ++ [f]) _ (by simp)).mpr returnsThere
    exact ⟨.map result, ⟨fields, fields, result, same, same, done, rfl⟩, by rw [same]; exact equal⟩

theorem primitiveList_returns (isList : form c = .primitiveList) : FieldReturns services c := by
  intro state spec path managedFields within f val inState inSpec present
  simp only [mergeField_iff, returnsField_iff, isList, Merges, ReturnsAs, inState]
  constructor
  · rintro ⟨result, ⟨items, same, given⟩, equal⟩
    rw [same, given, deepEqual_listOrNull] at equal
    obtain ⟨item, rest, isCons⟩ := exists_cons_of_ne_nil equal.1
    exact ⟨item, rest, by rw [same, isCons]⟩
  · rintro ⟨item, rest, same⟩
    exact ⟨val, ⟨_, same, by rw [same]; rfl⟩, val.deepEqual_refl⟩

theorem objectList_returns {inner : Schema} (isList : form c = .objectList inner)
    (each : ObjectReturns services inner) : FieldReturns services c := by
  intro state spec path managedFields within f val inState inSpec present
  simp only [mergeField_iff, returnsField_iff, isList, Merges, ReturnsAs, inState, inSpec]
  cases val with
  | list items =>
    simp only [Value.list.injEq, exists_eq_left']
    have fits := @mergedItems_equal_iff items items (fun stateMap specMap =>
      mergeSpecWithLiteState services stateMap specMap (path ++ [f]) none inner) rfl
    have alone : ∀ item ∈ items, (∃ a b both, item = .map a ∧ item = .map b ∧
        mergeSpecWithLiteState services a b (path ++ [f]) none inner = .ok both ∧
        Value.deepEqual (.map both) (.map b) = true) ↔
        ∃ fields, item = .map fields ∧ returnsObject services none fields inner = true := by
      intro item _
      constructor
      · rintro ⟨a, b, both, same, same', inside, equal⟩
        cases same.symm.trans same'
        exact ⟨a, same, (each a _ _ (by simp)).mp ⟨both, inside, equal⟩⟩
      · rintro ⟨a, same, returnsThere⟩
        obtain ⟨both, inside, equal⟩ := (each a (path ++ [f]) _ (by simp)).mpr returnsThere
        exact ⟨a, a, both, same, same, inside, equal⟩
    rw [List.forall₂_same, forall₂_congr alone] at fits
    rw [← fits]
    constructor
    · rintro ⟨result, ⟨_, _, vals, sameState, sameSpec, _, inside, given⟩, equal⟩
      subst sameState sameSpec
      rw [given, deepEqual_listOrNull] at equal
      refine ⟨fun empty => equal.1 ?_, vals, inside, equal.2⟩
      rw [← length_eq_zero_iff, inside.length_eq, empty]
      rfl
    · rintro ⟨nonempty, vals, inside, equal⟩
      refine ⟨listOrNull vals, ⟨items, items, vals, rfl, rfl, Nat.le_refl _, inside, rfl⟩,
        deepEqual_listOrNull.mpr ⟨fun empty => nonempty ?_, equal⟩⟩
      rw [← length_eq_zero_iff, ← inside.length_eq, empty]
      rfl
  | _ => simp

theorem unsupported_returns (unsupported : form c = .unsupported) : FieldReturns services c := by
  intro state spec path managedFields within f val inState inSpec present
  simp [mergeField_iff, returnsField_iff, unsupported, Merges, ReturnsAs]

theorem returns_alone (s : Schema) (lawful : Lawful services false s) :
    FieldReturns services s ∧ ObjectReturns services s := by
  induction s using Schema.tree with
  | step s ofProperty ofAdditional ofItem =>
    have whole : ObjectReturns services s := object_returns_alone lawful fun f c member _ =>
      (ofProperty f c member (lawful.property member)).1
    refine ⟨?_, whole⟩
    cases isForm : form s with
    | scalar => exact scalar_returns lawful.regular isForm
    | primitiveMap => exact primitiveMap_returns isForm
    | objectMap inner =>
      have found := (additional_of_form isForm).1
      exact objectMap_returns isForm (ofAdditional inner found (lawful.additional found)).2
    | nested => exact nested_returns isForm whole
    | primitiveList => exact primitiveList_returns isForm
    | objectList inner =>
      have found := (items_of_form isForm).1
      exact objectList_returns isForm (ofItem inner found (lawful.item found)).2
    | unsupported => exact unsupported_returns isForm

end Alone

end ConfigConnector.Dcl
