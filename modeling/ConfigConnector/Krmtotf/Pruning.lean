import ConfigConnector.Krmtotf.Fits

/- What the converter leaves out of the spec, told from the state and the previous spec. -/
namespace ConfigConnector.Krmtotf

open K8s GoMap List

variable {stateVal : Value} {val : Option Value} {field above : String}
  {state prevSpec entries : Fields} {managedFields : Option FieldSet}

/-- The value of a scalar or a map that is noise of the provider. -/
def blankScalar (c : Conversion) (a : Attributes) (stateVal : Value) : Bool :=
  match a.type, stateVal with
  | .bool, .bool value => prunes a stateVal !value
  | .float, .float printed | .int, .float printed => prunes a stateVal (Value.isZeroFloat printed)
  | .string, .string value => value == "" || (isSensitiveConfigurableField a &&
      (c.rc.name == "google_sql_database_instance" ||
        c.rc.name == "google_compute_backend_service" ||
        c.rc.name == "google_compute_region_backend_service"))
  | .map, .map m => m.isEmpty
  | _, _ => false

/-- There is nothing to refer to, in the previous spec or else in the state. -/
def blankReference (field specKey : String) (state prevSpec : Fields) : Bool :=
  match prevSpec.lookup specKey with
  | some prevSpecVal => prevSpecVal.isNil
  | none =>
    match Value.get state field with
    | .null | .list [] => true
    | .string name => name == ""
    | _ => false

mutual

/-- Nothing in the object is reported. -/
def blankFields (c : Conversion) (state prevSpec : Fields) (above : String)
    (managedFields : Option FieldSet) : SchemaMap → Bool
  | [] => true
  | (field, s) :: rest =>
    (isOverriddenField c.rc (qualify above field) c.ignoreOutputOnlySpecFields ||
      match isReferenceField (qualify above field) c.rc with
      | some refConfig => blankReference field (getKeyForReferenceField refConfig) state prevSpec
      | none => blankField c state prevSpec above managedFields field s) &&
    blankFields c state prevSpec above managedFields rest

/-- The value of a field that is no reference is not reported. -/
def blankField (c : Conversion) (state prevSpec : Fields) (above : String)
    (managedFields : Option FieldSet) (field : String) : Schema → Bool
  | .mk a elem =>
    let key := Text.snakeCaseToLowerCamelCase field
    let stateVal := Value.get state field
    let prevSpecVal := Value.get prevSpec key
    let isManaged := isK8sManaged key prevSpec managedFields
    if stateVal.isNil then prevSpecVal.isNil || !isManaged
    else if isGCPManagedField c.rc.kind (qualify above field) then false
    else match a.type with
      | .list | .set => blankItems c stateVal.items prevSpecVal (qualify above field)
          (nestedManagedFields key managedFields) a elem
      | _ => !isManaged && blankScalar c a stateVal

/-- The value of a list or a set is not reported. -/
def blankItems (c : Conversion) (items : List Value) (prevSpecVal : Value) (name : String)
    (nested : Option FieldSet) (a : Attributes) : Elem → Bool
  | .none => items.isEmpty || !isSpecSet a
  | .schema _ => items.isEmpty
  | .resource fields =>
    if a.maxItems = 1 then
      items.head?.all fun first =>
        blankFields c first.entries prevSpecVal.entries name nested fields
    else if isSpecSet a then items.isEmpty
    else items.zipIdx.all fun item => blankFields c item.1.entries
      (prevSpecVal.items.getD item.2 .null).entries name none fields

end

variable {c : Conversion}

theorem of_pruned {pruned : Bool}
    (done : some (if pruned then none else some stateVal) = some val) : val = none ↔ pruned := by
  cases done
  cases pruned <;> simp

theorem of_required {a : Attributes}
    (done : (if a.required then some (some stateVal) else none) = some val) :
    val = none ↔ false := by
  split at done
  · cases done
    simp
  · cases done

theorem blankScalar_iff {a : Attributes} (done : convertScalar c a stateVal = some val) :
    val = none ↔ blankScalar c a stateVal := by
  unfold convertScalar at done
  unfold blankScalar
  cases type : a.type with
  | bool =>
    rw [type] at done
    cases stateVal with
    | bool value => exact of_pruned done
    | _ => exact of_required done
  | int | float =>
    rw [type] at done
    cases stateVal with
    | float printed => exact of_pruned done
    | _ => exact of_required done
  | map =>
    rw [type] at done
    cases stateVal with
    | map m => exact of_pruned done
    | _ => cases done
  | string =>
    rw [type] at done
    cases stateVal with
    | string value =>
      dsimp only at done ⊢
      split at done
      · cases done
        simp_all
      split at done
      · split at done <;> cases done <;> simp_all [or_assoc]
      · cases done
        simp_all
    | _ => cases done
  | list | set | invalid =>
    rw [type] at done
    cases stateVal <;> cases done

theorem blankReference_iff {specKey : String} {refConfig : ReferenceConfig} {val : Value}
    (done : convertTFReferenceToKCCReference field specKey state prevSpec refConfig = some val) :
    val.isNil ↔ blankReference field specKey state prevSpec := by
  rw [convertTFReferenceToKCCReference] at done
  rw [blankReference]
  cases found : lookup specKey prevSpec
  case some =>
    rw [found] at done
    cases done
    rfl
  rw [found] at done
  cases held : Value.get state field with
  | null =>
    rw [held] at done
    cases done
    rfl
  | string name =>
    rw [held] at done
    dsimp only at done ⊢
    split at done
    · cases done
      simp_all [Value.isNil]
    split at done
    · split at done <;> cases done <;> simp_all [Value.isNil]
    · cases done
      simp_all [Value.isNil, externalReference]
  | list items =>
    rw [held] at done
    cases items with
    | nil =>
      cases done
      rfl
    | cons first rest =>
      obtain ⟨refs, _, same⟩ := Option.bind_eq_some_iff.mp done
      cases same
      simp [Value.isNil]
  | bool _ | int _ | float _ | map _ =>
    rw [held] at done
    cases done

/-- What is assigned in one round of the loop, if anything. -/
theorem assignment_none_iff
    {converted : Option (Option Value)} {entry : Option (String × Value)} {blank : Bool}
    (done : assignment c state prevSpec above field converted = some entry)
    (value : ∀ val, converted = some val → (val = none ↔ blank)) :
    entry = none ↔
      (isOverriddenField c.rc (qualify above field) c.ignoreOutputOnlySpecFields ||
        match isReferenceField (qualify above field) c.rc with
        | some refConfig => blankReference field (getKeyForReferenceField refConfig) state prevSpec
        | none => blank) := by
  rw [assignment] at done
  split at done
  · rename_i overridden
    cases done
    simp [overridden]
  rename_i kept
  rw [Bool.not_eq_true] at kept
  rw [kept, Bool.false_or]
  cases reference : isReferenceField (qualify above field) c.rc with
  | some refConfig =>
    rw [reference] at done
    obtain ⟨val, converted, same⟩ := Option.map_eq_some_iff.mp done
    rw [← blankReference_iff converted, ← same]
    cases val.isNil <;> simp
  | none =>
    rw [reference] at done
    obtain ⟨val, converted, same⟩ := Option.map_eq_some_iff.mp done
    rw [← value val converted, ← same]
    cases val <;> simp

theorem blankFields_iff_of {schemas : SchemaMap}
    (each : ∀ field s, (field, s) ∈ schemas → ∀ orders val,
      convertField c orders state prevSpec above managedFields field s = some val →
      (val = none ↔ blankField c state prevSpec above managedFields field s))
    {orders : Orders}
    (done : convertedEntries c orders state prevSpec above managedFields schemas = some entries) :
    entries = [] ↔ blankFields c state prevSpec above managedFields schemas := by
  induction schemas generalizing orders entries with
  | nil =>
    rw [convertedEntries] at done
    cases done
    simp [blankFields]
  | cons first rest ih =>
    obtain ⟨field, s⟩ := first
    obtain ⟨entry, others, here, below, rfl⟩ := convertedEntries_cons.mp done
    have first := assignment_none_iff here (each field s (.head _) (orders.below 0))
    have later := ih (fun field s member => each field s (.tail _ member)) below
    rw [append_eq_nil_iff, later, blankFields, Bool.and_eq_true, ← first]
    simp

theorem asObject_eq_none : asObject entries = none ↔ entries = [] := by
  cases entries <;> simp [asObject]

section Tree

variable {a : Attributes} {name : String} {items : List Value} {prevSpecVal : Value}
  {nested : Option FieldSet} {orders : Orders}

/-- A set of the spec that is not empty is reported. -/
theorem convertList_set_ne_none {elem : Elem} (set : isSpecSet a) (filled : items ≠ [])
    (done : convertList c orders (.list items) prevSpecVal name nested a elem = some val) :
    val ≠ none := by
  rw [convertList_set set filled] at done
  obtain ⟨retObj, converted, rfl⟩ := Option.map_eq_some_iff.mp done
  have present : retObj.isNil = false := by
    unfold convertTFSetToKCCSet at converted
    split at converted
    · rename_i fallsBack
      cases converted
      simpa using (Bool.and_eq_true_iff.mp fallsBack).2
    obtain ⟨first, rest, rfl⟩ := exists_cons_of_ne_nil filled
    obtain ⟨elems, elemsDone, same⟩ := Option.bind_eq_some_iff.mp converted
    obtain ⟨e, es, rfl⟩ := exists_cons_of_ne_nil (convertSetElems_ne_nil elemsDone filled)
    cases same
    rfl
  simp [present]

theorem filterMap_asObject_nil {elems : List Fields} :
    elems.filterMap asObject = [] ↔ ∀ entries ∈ elems, entries = [] := by
  rw [filterMap_eq_nil_iff]
  exact forall₂_congr fun entries _ => asObject_eq_none

/-- What is blank of the objects below a field. -/
def BlanksBelow (c : Conversion) (name : String) (elem : Elem) : Prop :=
  ∀ fields, elem = .resource fields → ∀ orders state prevSpec managed entries,
    convertedEntries c orders state prevSpec name managed fields = some entries →
    (entries = [] ↔ blankFields c state prevSpec name managed fields)

theorem blankItems_iff {elem : Elem} (below : BlanksBelow c name elem)
    (done : convertList c orders (.list items) prevSpecVal name nested a elem = some val) :
    val = none ↔ blankItems c items prevSpecVal name nested a elem := by
  cases items with
  | nil =>
    have empty : val = none := by
      cases elem <;> rw [convertList] at done <;> exact (Option.some.inj done).symm
    cases elem with
    | none | schema _ => simp [empty, blankItems]
    | resource fields =>
      rw [empty, blankItems]
      split
      · simp
      · split <;> simp
  | cons first rest =>
    by_cases set : isSpecSet a = true
    · have reported := convertList_set_ne_none set (cons_ne_nil first rest) done
      have many : a.maxItems ≠ 1 := by
        simp only [isSpecSet, Bool.and_eq_true, bne_iff_ne] at set
        exact set.2
      cases elem <;> simp [blankItems, set, many, reported]
    · have plain : a.maxItems ≠ 1 → ¬ (a.type = .set ∧ isConfigurableField a = true) := by
        intro many
        simpa [isSpecSet, many] using set
      cases elem with
      | none | schema _ =>
        simp only [convertList] at done
        split at done
        · cases done
        rename_i many
        rw [if_neg (plain many)] at done
        cases done
        simp [blankItems, set]
      | resource fields =>
        by_cases one : a.maxItems = 1
        · simp only [convertList, if_pos one] at done
          cases first with
          | map tfObjMap =>
            obtain ⟨entries, converted, rfl⟩ := Option.map_eq_some_iff.mp done
            rw [asObject_eq_none, below fields rfl _ _ _ _ entries converted]
            simp [blankItems, one, Value.entries]
          | _ => cases done
        · rw [convertList_objects one (plain one) (cons_ne_nil first rest)] at done
          obtain ⟨elems, converted, rfl⟩ := Option.map_eq_some_iff.mp done
          have every := Fallible.mapM_eq_some.mp converted
          rw [ite_eq_left_iff, List.isEmpty_iff]
          simp only [reduceCtorEq, imp_false, not_not]
          rw [filterMap_asObject_nil, blankItems, if_neg one, if_neg set, List.all_eq_true]
          have each : ∀ {rounds : List (Value × Nat)} {elems : List Fields},
              List.Forall₂ (fun round entries =>
                convertListItem c orders prevSpecVal name fields round = some entries)
                rounds elems →
              ((∀ entries ∈ elems, entries = []) ↔ ∀ round ∈ rounds,
                blankFields c round.1.entries
                  (prevSpecVal.items.getD round.2 .null).entries name none fields = true) := by
            intro rounds elems all
            induction all with
            | nil => simp
            | @cons round entries _ _ here _ ih =>
              obtain ⟨item, idx⟩ := round
              cases item with
              | map obj =>
                have first := below fields rfl _ _ _ _ entries here
                simp only [forall_mem_cons, ih, first]
                rfl
              | _ => cases here
          exact each every

/-- What a field is converted to, if anything. -/
theorem blankField_iff (s : Schema) {val : Option Value}
    (done : convertField c orders state prevSpec above managedFields field s = some val) :
    val = none ↔ blankField c state prevSpec above managedFields field s := by
  induction s using Schema.tree generalizing orders state prevSpec above managedFields
    field val with
  | step a elem _ fieldsIh =>
    have below : BlanksBelow c (qualify above field) elem :=
      fun fields same _ _ _ _ _ converted => blankFields_iff_of
        (fun inner s member _ _ => fieldsIh fields same inner s member) converted
    rw [convertField] at done
    rw [blankField]
    split at done
    · rename_i absent
      cases done
      rw [if_pos absent]
      generalize Value.get prevSpec (Text.snakeCaseToLowerCamelCase field) = prevSpecVal
      cases prevSpecVal.isNil <;>
        cases isK8sManaged (Text.snakeCaseToLowerCamelCase field) prevSpec managedFields <;> simp
    · rename_i present
      rw [if_neg present]
      split at done
      · rename_i managed
        cases done
        simp [managed]
      rename_i unmanaged
      rw [if_neg unmanaged]
      have scalar : (if isK8sManaged (Text.snakeCaseToLowerCamelCase field) prevSpec managedFields
            then some (some (Value.get prevSpec (Text.snakeCaseToLowerCamelCase field)))
            else convertScalar c a (Value.get state field)) = some val →
          (val = none ↔ (!isK8sManaged (Text.snakeCaseToLowerCamelCase field) prevSpec
            managedFields && blankScalar c a (Value.get state field)) = true) := by
        intro done
        split at done
        · rename_i managed
          cases done
          simp [managed]
        rename_i free
        rw [Bool.not_eq_true] at free
        rw [blankScalar_iff done, free]
        simp
      cases type : a.type with
      | list | set =>
        simp only [type] at done ⊢
        cases held : Value.get state field with
        | list items =>
          rw [held] at done
          exact blankItems_iff below done
        | _ =>
          rw [held] at done
          cases elem <;> cases done
      | invalid =>
        simp only [type] at done
        cases done
      | _ =>
        simp only [type] at done ⊢
        exact scalar done

/-- Nothing is assigned exactly if the object is blank. -/
theorem blankFields_iff {schemas : SchemaMap}
    (done : convertedEntries c orders state prevSpec above managedFields schemas = some entries) :
    entries = [] ↔ blankFields c state prevSpec above managedFields schemas :=
  blankFields_iff_of (fun _ s _ _ _ => blankField_iff s) done

end Tree

end ConfigConnector.Krmtotf
