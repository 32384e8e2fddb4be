import ConfigConnector.Dcl.MergeReturns
import ConfigConnector.Dcl.ObjectSplit

/- When a merged spec is merged with the same state again. -/
namespace ConfigConnector.Dcl

open K8s List Value

variable {c inner : Schema} {managedFields : Option FieldSet}

/-- A check on the items of two lists; behind the items of the second there is nothing. -/
def checkItems (check : Fields → Fields → Bool) : List Value → List Value → Bool
  | [], _ => true
  | item :: rest, others =>
    check item.entries (others.headD .null).entries && checkItems check rest others.tail

/-- A reference of the state is not null in the spec; `alone` is what is asked of a field that
only the state has, `both` of one that both have. -/
def stableEntry (atRoot : Bool) (state spec : Fields) (f : String) (s : Schema)
    (alone both : Bool) : Bool :=
  if isReference s then
    atRoot && f == "parent" || (Value.get state (referenceKey f s)).isNil ||
      !spec.lookup (referenceKey f s) matches some .null
  else if (Value.get state f).isNil then true
  else if (Value.get spec f).isNil then alone
  else both

section Conditions

variable (services : Services)

mutual

/-- A field that both the state and the spec have is merged in the same way again. -/
def stableField (managedFields : Option FieldSet) (f : String) (stateVal specVal : Value) :
    Schema → Bool
  | .mk .object _ _ _ (some inner) _ =>
    if inner.type.isPrimitive then
      managedIn f managedFields || !stateVal.entries.isEmpty
    else
      (keysOf stateVal.entries).all fun k =>
        stableObject (nestedManagedFields k (nestedManagedFields f managedFields))
          (Value.get stateVal.entries k).entries (Value.get specVal.entries k).entries inner
  | .mk .object _ _ properties none _ =>
    stableProperties false (nestedManagedFields f managedFields) stateVal.entries specVal.entries
      properties
  | .mk .array _ _ _ _ (some inner) =>
    !stateVal.items.isEmpty && (inner.type.isPrimitive ||
      checkItems (fun a b => stableObject none a b inner) stateVal.items
        specVal.items)
  | _ => true

def stableObject (managedFields : Option FieldSet) (state spec : Fields) : Schema → Bool
  | .mk _ _ _ properties _ _ => stableProperties false managedFields state spec properties

def stableProperties (atRoot : Bool) (managedFields : Option FieldSet) (state spec : Fields) :
    Properties → Bool
  | [] => true
  | (f, s) :: rest =>
    stableEntry atRoot state spec f s
      (returnsField services managedFields f (Value.get state f) s)
      (stableField managedFields f (Value.get state f) (Value.get spec f) s) &&
    stableProperties atRoot managedFields state spec rest

end

theorem stableProperties_iff {atRoot : Bool} {state spec : Fields} {properties : Properties} :
    stableProperties services atRoot managedFields state spec properties ↔
      ∀ f c, (f, c) ∈ properties → stableEntry atRoot state spec f c
        (returnsField services managedFields f (Value.get state f) c)
        (stableField services managedFields f (Value.get state f) (Value.get spec f) c) := by
  induction properties with
  | nil => simp [stableProperties]
  | cons entry rest ih => rw [stableProperties, Bool.and_eq_true, ih, Dict.forall_entry_cons]

/-- What `stableField` asks of a field, form by form. -/
def StableAs (managedFields : Option FieldSet) (f : String) (stateVal specVal : Value)
    (c : Schema) : Form → Prop
  | .scalar => True
  | .primitiveMap =>
    managedIn f managedFields = true ∨ ∃ entry entries, stateVal = .map (entry :: entries)
  | .objectMap inner => ∀ k, (stateVal.entries.lookup k).isSome = true →
      stableObject services (nestedManagedFields k (nestedManagedFields f managedFields))
        (Value.get stateVal.entries k).entries (Value.get specVal.entries k).entries inner = true
  | .nested => stableObject services (nestedManagedFields f managedFields) stateVal.entries
      specVal.entries c = true
  | .primitiveList => ∃ item items, stateVal = .list (item :: items)
  | .objectList inner => stateVal.items ≠ [] ∧
      checkItems (fun a b => stableObject services none a b inner) stateVal.items
        specVal.items = true
  | .unsupported => stableField services managedFields f stateVal specVal c = true

theorem stableField_iff {f : String} {stateVal specVal : Value} :
    stableField services managedFields f stateVal specVal c ↔
      StableAs services managedFields f stateVal specVal c (form c) := by
  obtain ⟨type, readOnly, extension, properties, additional, items⟩ := c
  cases type with
  | object =>
    cases additional with
    | none =>
      unfold form stableField
      simp only [StableAs, stableObject]
    | some inner =>
      unfold form stableField
      by_cases primitive : inner.type.isPrimitive = true
      · simp only [if_pos primitive, StableAs]
        cases stateVal with
        | map entries => cases entries <;> simp [Value.entries]
        | _ => simp [Value.entries]
      · by_cases object : inner.type = .object
        · simp only [if_neg primitive, if_pos object, StableAs, all_eq_true, mem_keysOf]
        · simp only [if_neg primitive, if_neg object, StableAs, stableField]
  | array =>
    cases items with
    | none => simp only [form, StableAs]
    | some inner =>
      unfold form stableField
      by_cases primitive : inner.type.isPrimitive = true
      · simp only [primitive, StableAs]
        cases stateVal with
        | list items => cases items <;> simp [Value.items]
        | _ => simp [Value.items]
      · by_cases object : inner.type = .object
        · simp only [if_pos object, primitive, StableAs, Bool.false_or]
          simp
        · simp only [if_neg primitive, if_neg object, StableAs, stableField]
  | other name => simp only [form, StableAs]
  | string | boolean | number | integer => simp only [form, stableField, StableAs]

end Conditions

section Again

variable {services : Services}

/-- The condition says when a merged value is merged with the state's in the same way again. -/
def FieldStable (services : Services) (c : Schema) : Prop :=
  ∀ (state spec merged : Fields) (path : List String) (managedFields : Option FieldSet)
    (within : DataType) (f : String) (val : Value), Value.get state f ≠ .null →
    Value.get spec f ≠ .null →
    mergeField services state spec path managedFields within f c = .ok val →
    Value.get merged f = val →
    ((val ≠ .null ∧ ∃ again,
        mergeField services state merged path managedFields within f c = .ok again ∧
          again.deepEqual val = true) ↔
      stableField services managedFields f (Value.get state f) (Value.get spec f) c = true)

def ObjectStable (services : Services) (s : Schema) : Prop :=
  ∀ (state spec merged : Fields) (path : List String) (managedFields : Option FieldSet),
    path ≠ [] → mergeSpecWithLiteState services state spec path managedFields s = .ok merged →
    ((∃ again, mergeSpecWithLiteState services state merged path managedFields s = .ok again ∧
        Value.deepEqual (.map again) (.map merged) = true) ↔
      stableObject services managedFields state spec s = true)

section Level

variable {state spec entries : Fields} {path : List String} {managedFields : Option FieldSet}
  {s c : Schema} {f : String} (lawful : Lawful services path.isEmpty s)
  (done : s.properties.mapM (mergeProperty services state spec path managedFields s.type) =
    .ok entries)

include lawful done

theorem known_merged : Known services path.isEmpty s (collect entries) := by
  intro key val found
  have present : val ≠ .null := by
    intro nil
    exact lookup_collect_ne_null entries key (by rw [found, nil])
  obtain ⟨entry, member, given⟩ :=
    (get_merged_iff lawful done key present).mp (by rw [Value.get, found]; rfl)
  exact ⟨present, entry, member, mergeProperty_key (lawful.property member).regular given present⟩

theorem reference_stable (member : (f, c) ∈ s.properties) (refers : isReference c)
    (single : (path.isEmpty && f == "parent") = false) (alone both : Bool) :
    Gives services state (collect entries) path managedFields s.type (collect entries) (f, c) ↔
      stableEntry path.isEmpty state spec f c alone both := by
  have regular := (lawful.property member).regular
  have given : mergeProperty services state spec path managedFields s.type (f, c) =
      .ok (singleReference state spec (referenceKey f c)) := by
    rw [mergeProperty_reference regular refers, single]
    rfl
  have held := get_merged lawful done member given
    (by simp [mergeKeys, refers, single] : referenceKey f c ∈ _)
  rw [gives_reference_iff regular refers single, stableEntry, if_pos refers, single]
  by_cases inState : Value.get state (referenceKey f c) = .null
  · simp [inState, Value.isNil]
  have isState := isNil_of_ne inState
  cases inSpec : spec.lookup (referenceKey f c) with
  | none =>
    have kept : Value.get (collect entries) (referenceKey f c) =
        Value.get state (referenceKey f c) := by
      rw [held]
      simp [inSpec, isState]
    simp [lookup_of_get kept inState]
  | some val =>
    have kept : Value.get (collect entries) (referenceKey f c) = val := by
      rw [held]
      simp [inSpec]
    by_cases nil : val = .null
    · have lost := lookup_eq_none (kept.trans nil) (lookup_collect_ne_null entries _)
      simp [lost, inState, isState, nil]
    cases val with
    | null => exact absurd rfl nil
    | _ => simp [lookup_of_get kept nil]

theorem plain_stable (member : (f, c) ∈ s.properties) (plain : isReference c = false)
    (returns : FieldReturns services c) (stable : FieldStable services c) :
    Gives services state (collect entries) path managedFields s.type (collect entries) (f, c) ↔
      stableEntry path.isEmpty state spec f c
        (returnsField services managedFields f (Value.get state f) c)
        (stableField services managedFields f (Value.get state f) (Value.get spec f) c) := by
  have regular := (lawful.property member).regular
  have ofField : f ∈ mergeKeys services path.isEmpty f c := by simp [mergeKeys, plain]
  have given := @mergeProperty_plain services managedFields state spec path s.type f c regular plain
  rw [gives_plain_iff regular plain, stableEntry, if_neg (by simp [plain])]
  by_cases inState : Value.get state f = .null
  · simp [inState, Value.isNil]
  have isState := isNil_of_ne inState
  rw [isState, if_neg Bool.false_ne_true] at given
  rw [isState, if_neg Bool.false_ne_true, or_iff_right inState]
  by_cases inSpec : Value.get spec f = .null
  · rw [inSpec, Value.isNil, if_pos rfl] at given
    have held := get_merged lawful done member given ofField
    rw [if_pos rfl] at held
    rw [inSpec, Value.isNil, if_pos rfl, held, and_iff_right inState]
    exact returns state (collect entries) path managedFields s.type f _ rfl held inState
  · have isSpec := isNil_of_ne inSpec
    rw [isSpec, if_neg Bool.false_ne_true] at given
    rw [isSpec, if_neg Bool.false_ne_true]
    obtain ⟨k, val, succeeds⟩ := given_of_mem done member
    rw [given] at succeeds
    obtain ⟨both, merged, same⟩ := Fallible.bind_eq_ok.mp succeeds
    cases same
    rw [merged, Fallible.ok_bind] at given
    have held := get_merged lawful done member given ofField
    rw [if_pos rfl] at held
    rw [held]
    exact stable state spec (collect entries) path managedFields s.type f val inState inSpec
      merged held

end Level

theorem object_stable {state spec merged : Fields} {path : List String}
    {managedFields : Option FieldSet} {s : Schema} (lawful : Lawful services path.isEmpty s)
    (each : ∀ f c, (f, c) ∈ s.properties → FieldStable services c)
    (done : mergeSpecWithLiteState services state spec path managedFields s = .ok merged) :
    (∃ again, mergeSpecWithLiteState services state merged path managedFields s = .ok again ∧
        Value.deepEqual (.map again) (.map merged)) ↔
      stableProperties services path.isEmpty managedFields state spec s.properties := by
  obtain ⟨entries, given, rfl⟩ := mergeSpecWithLiteState_iff.mp done
  rw [merge_equal_iff lawful, and_iff_right (known_merged lawful given), stableProperties_iff,
    Prod.forall]
  apply forall₃_congr
  intro f c member
  by_cases refers : isReference c = true
  · by_cases parent : (path.isEmpty && f == "parent") = true
    · obtain ⟨k, val, here⟩ := given_of_mem given member
      have gives := gives_parent lawful member refers parent here
        fun key ofEntry => get_merged lawful given member here ofEntry
      simp [gives, stableEntry, refers, parent]
    · exact reference_stable lawful given member refers (Bool.eq_false_iff.mpr parent) _ _
  · exact plain_stable lawful given member (Bool.eq_false_iff.mpr refers)
      (returns_alone c (lawful.property member)).1 (each f c member)

theorem scalar_stable (regular : Regular c) (scalar : form c = .scalar) :
    FieldStable services c := by
  intro state spec merged path managedFields within f val inState inSpec done held
  simp only [mergeField_iff, stableField_iff, scalar, Merges, StableAs] at done ⊢
  rw [mergeScalar_iff regular, isK8sManaged_of_present managedFields inSpec] at done
  simp only [mergeScalar_iff regular, iff_true]
  have present : val ≠ .null := by
    cases managed : managedIn f managedFields with
    | true =>
      rw [managed, if_pos rfl] at done
      rwa [done]
    | false =>
      rw [managed, if_neg Bool.false_ne_true] at done
      rwa [done.2]
  rw [isK8sManaged_of_present managedFields (held ▸ present), held]
  refine ⟨present, val, ?_, val.deepEqual_refl⟩
  cases managed : managedIn f managedFields with
  | true => rw [if_pos rfl]
  | false => simpa [managed] using done

theorem primitiveMap_stable (isMap : form c = .primitiveMap) : FieldStable services c := by
  intro state spec merged path managedFields within f val inState inSpec done held
  simp only [mergeField_iff, stableField_iff, isMap, Merges, StableAs] at done ⊢
  rw [mergePrimitiveMap_iff inState, isK8sManaged_of_present managedFields inSpec] at done
  simp only [mergePrimitiveMap_iff inState]
  have settled : val ≠ .null → ((∃ again, (if isK8sManaged f merged managedFields then
      again = Value.get merged f
      else ∃ entries, Value.get state f = .map entries ∧
        again = if entries.isEmpty then .null else .map entries) ∧
      again.deepEqual val = true)) := by
    intro present
    rw [isK8sManaged_of_present managedFields (held ▸ present), held]
    refine ⟨val, ?_, val.deepEqual_refl⟩
    cases managed : managedIn f managedFields with
    | true => rw [if_pos rfl]
    | false => simpa [managed] using done
  rw [and_iff_left_of_imp settled]
  cases managed : managedIn f managedFields with
  | true =>
    rw [managed, if_pos rfl] at done
    simp [done, inSpec]
  | false =>
    rw [managed, if_neg Bool.false_ne_true] at done
    obtain ⟨entries, same, given⟩ := done
    cases entries with
    | nil | cons _ _ => simp [given, same]

theorem nested_stable (nested : form c = .nested) (whole : ObjectStable services c) :
    FieldStable services c := by
  intro state spec merged path managedFields within f val inState inSpec done held
  simp only [mergeField_iff, stableField_iff, nested, Merges, StableAs] at done ⊢
  rw [mergeNestedObject_iff] at done
  obtain ⟨a, b, both, atState, atSpec, inside, rfl⟩ := done
  rw [atState, atSpec, held]
  have again := whole a b both (path ++ [f]) (nestedManagedFields f managedFields) (by simp) inside
  simp only [mergeNestedObject_iff, ne_eq, reduceCtorEq, not_false_eq_true, true_and, Value.entries]
  rw [← again]
  constructor
  · rintro ⟨result, ⟨a', b', both', same, same', inside', isMap⟩, equal⟩
    cases same
    cases same'
    rw [isMap] at equal
    exact ⟨both', inside', equal⟩
  · rintro ⟨result, inside', equal⟩
    exact ⟨.map result, ⟨a, both, result, rfl, rfl, inside', rfl⟩, equal⟩

theorem primitiveList_stable (isList : form c = .primitiveList) : FieldStable services c := by
  intro state spec merged path managedFields within f val inState inSpec done held
  simp only [mergeField_iff, stableField_iff, isList, Merges, StableAs] at done ⊢
  obtain ⟨items, atState, given⟩ := done
  simp only [atState, Value.list.injEq, exists_eq_left']
  cases items with
  | nil | cons _ _ => simp [given, listOrNull]

theorem objectMap_stable (isMap : form c = .objectMap inner)
    (each : ObjectStable services inner) : FieldStable services c := by
  intro state spec merged path managedFields within f val inState inSpec done held
  simp only [mergeField_iff, stableField_iff, isMap, Merges, StableAs] at done ⊢
  obtain ⟨stateMap, specMap, entries, atState, atSpec, rfl, -, given⟩ := mergeObjectMap_ok done
  rw [atState, atSpec, held]
  have sameKeys : ∀ k, (entries.lookup k).isSome = (stateMap.lookup k).isSome := by
    intro k
    cases found : stateMap.lookup k with
    | none => rw [(given k).2 found]
    | some stateVal =>
      obtain ⟨entry, there, -⟩ := (given k).1 (by simp [found])
      rw [there]
      rfl
  have count : (keysOf entries).length = (keysOf stateMap).length := by
    apply List.Perm.length_eq
    apply (perm_ext_iff_of_nodup (nodup_dedup _) (nodup_dedup _)).mpr
    intro k
    exact mem_keysOf.trans (by rw [sameKeys k]; exact mem_keysOf.symm)
  simp only [ne_eq, reduceCtorEq, not_false_eq_true, true_and, mergeObjectMap_equal_iff, count,
    sameKeys, Value.entries]
  apply forall_congr'
  intro k
  apply imp_congr_right
  intro inMap
  obtain ⟨entry, found, a, b, both, atState, atSpec, inside, rfl⟩ := (given k).1 inMap
  have specVal : Value.get specMap k = .map b := by rw [Value.get, atSpec]; rfl
  rw [atState, specVal]
  rw [← each a b both _ _ (by simp) inside]
  constructor
  · rintro ⟨a', both', again, same, found', inside', equal⟩
    cases same
    cases found.symm.trans found'
    exact ⟨again, inside', equal⟩
  · rintro ⟨again, inside', equal⟩
    exact ⟨a, both, again, rfl, found, inside', equal⟩

theorem items_stable (each : ObjectStable services inner) {path : List String}
    (below : path ≠ []) {stateList specList vals : List Value}
    (items : MergedItems (fun stateMap specMap =>
      mergeSpecWithLiteState services stateMap specMap path none inner) stateList specList vals) :
    List.Forall₂ (fun stateItem val => ∃ a b c, stateItem = .map a ∧ val = .map b ∧
        mergeSpecWithLiteState services a b path none inner = .ok c ∧
        Value.deepEqual (.map c) (.map b)) stateList vals ↔
      checkItems (fun a b => stableObject services none a b inner) stateList specList = true := by
  have here : ∀ {a b c : Fields},
      mergeSpecWithLiteState services a b path none inner = .ok c →
      ((∃ a' c' again, Value.map a = .map a' ∧ Value.map c = .map c' ∧
        mergeSpecWithLiteState services a' c' path none inner = .ok again ∧
        Value.deepEqual (.map again) (.map c') = true) ↔
      stableObject services none a b inner = true) := by
    intro a b c merged
    rw [← each a b c path none below merged]
    constructor
    · intro ⟨a', c', again, same, same', done, equal⟩
      cases same
      cases same'
      exact ⟨again, done, equal⟩
    · intro ⟨again, done, equal⟩
      exact ⟨a, c, again, rfl, rfl, done, equal⟩
  induction items with
  | nil => simp [checkItems]
  | behind merged _ ih | both merged _ ih =>
    rw [List.forall₂_cons, checkItems, Bool.and_eq_true]
    exact and_congr (here merged) ih

theorem objectList_stable (isList : form c = .objectList inner)
    (each : ObjectStable services inner) : FieldStable services c := by
  intro state spec merged path managedFields within f val inState inSpec done held
  simp only [mergeField_iff, stableField_iff, isList, Merges, StableAs] at done ⊢
  obtain ⟨stateList, specList, vals, atState, atSpec, -, items, given⟩ := done
  have count := items.length_eq
  rw [atState, atSpec, Value.items, Value.items, ← items_stable each (by simp) items,
    ← mergedItems_equal_iff count.symm]
  simp only [held, Value.list.injEq]
  cases vals with
  | nil =>
    have empty : stateList = [] := length_eq_zero_iff.mp count.symm
    simp [given, listOrNull, empty]
  | cons val rest =>
    have nonempty : stateList ≠ [] := by
      intro empty
      rw [empty] at count
      cases count
    subst given
    constructor
    · rintro ⟨_, again, ⟨_, _, results, same, same', _, inside, result⟩, equal⟩
      subst same
      cases same'
      rw [result] at equal
      exact ⟨nonempty, results, inside, (deepEqual_listOrNull.mp equal).2⟩
    · rintro ⟨_, results, inside, equal⟩
      refine ⟨by simp [listOrNull], listOrNull results, ⟨stateList, val :: rest, results, rfl, rfl,
        Nat.le_of_eq count, inside, rfl⟩, deepEqual_listOrNull.mpr ⟨?_, equal⟩⟩
      intro empty
      rw [empty] at equal
      cases equal

theorem unsupported_stable (unsupported : form c = .unsupported) : FieldStable services c := by
  intro state spec merged path managedFields within f val inState inSpec done held
  rw [mergeField_iff, unsupported] at done
  exact done.elim

theorem stable_again (s : Schema) (lawful : Lawful services false s) :
    FieldStable services s ∧ ObjectStable services s := by
  induction s using Schema.tree with
  | step s ofProperty ofAdditional ofItem =>
    have whole : ObjectStable services s := by
      intro state spec merged path managedFields below done
      have atDepth : path.isEmpty = false := by simpa using below
      rw [object_stable (atDepth ▸ lawful : Lawful services path.isEmpty s)
        (fun f c member => (ofProperty f c member (lawful.property member)).1) done, atDepth]
      cases s
      rfl
    refine ⟨?_, whole⟩
    cases isForm : form s with
    | scalar => exact scalar_stable lawful.regular isForm
    | primitiveMap => exact primitiveMap_stable isForm
    | objectMap inner =>
      have found := (additional_of_form isForm).1
      exact objectMap_stable isForm (ofAdditional inner found (lawful.additional found)).2
    | nested => exact nested_stable isForm whole
    | primitiveList => exact primitiveList_stable isForm
    | objectList inner =>
      have found := (items_of_form isForm).1
      exact objectList_stable isForm (ofItem inner found (lawful.item found)).2
    | unsupported => exact unsupported_stable isForm

/-- A merge of the merged spec with the same state gives the merged spec again if no reference
of the state is null in the spec, and if what the state has is what its merge with itself
gives. -/
theorem merge_stable_iff (services : Services) (schema : Schema)
    (lawful : Lawful services true schema) (managedFields : Option FieldSet)
    (state spec merged : Fields)
    (done : mergeSpecWithLiteState services state spec [] managedFields schema = .ok merged) :
    (∃ again, mergeSpecWithLiteState services state merged [] managedFields schema = .ok again ∧
        Value.deepEqual (.map again) (.map merged) = true) ↔
      stableProperties services true managedFields state spec schema.properties = true :=
  object_stable lawful
    (fun _ c member => (stable_again c (lawful.property member)).1) done

theorem folder_lawful : Lawful folderServices true folderSchema := ⟨by decide, by decide⟩

theorem merge_stable_folder :
    ∃ merged,
      mergeSpecWithLiteState folderServices folderSpec [("quota", .int 5)] [] none folderSchema =
        .ok merged ∧
      stableProperties folderServices true none folderSpec [("quota", .int 5)]
        folderSchema.properties = true ∧
      ∃ again,
        mergeSpecWithLiteState folderServices folderSpec merged [] none folderSchema = .ok again ∧
        Value.deepEqual (.map again) (.map merged) = true :=
  ⟨_, rfl, by decide, (merge_stable_iff folderServices folderSchema folder_lawful none folderSpec
    [("quota", .int 5)] _ rfl).mpr (by decide)⟩

end Again

section Tags

/-- A resource with a map of strings. -/
def taggedSchema : Schema :=
  .mk .object false [] [("tags", .mk .object false [] [] (some (stringSchema [])) none)] none none

def noTags : Fields := [("tags", .map [])]

/-- Empty tags of the state are copied into a spec that has none, dropped by the next merge and
copied again by the one after it. -/
theorem tags_come_and_go :
    Lawful folderServices true taggedSchema ∧
    convertToKRMSpec folderServices (.map noTags) [] false taggedSchema = .ok (.map noTags) ∧
    mergeSpecWithLiteState folderServices noTags [] [] (some .empty) taggedSchema = .ok noTags ∧
    mergeSpecWithLiteState folderServices noTags noTags [] (some .empty) taggedSchema = .ok [] ∧
    Value.deepEqual (.map []) (.map noTags) = false :=
  ⟨⟨by decide, by decide⟩, rfl, rfl, rfl, rfl⟩

end Tags

end ConfigConnector.Dcl
