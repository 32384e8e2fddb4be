import ConfigConnector.Krmtotf.Sets

/- States and previous specs that fit a schema. They are converted without a panic. -/
namespace ConfigConnector.Krmtotf

open K8s GoMap List Option

variable {schemas : SchemaMap} {field : String}

/-- What Terraform has for a reference: a name or a list of them, if anything. -/
def ReferenceFits (value : Value) : Prop :=
  value = .null ∨ (∃ name, value = .string name) ∨
    ∃ names : List String, value = .list (names.map .string)

variable (c : Conversion)

mutual

/-- The value of a state fits the schema of its field. -/
def StateFits (name : String) (value : Value) : Schema → Prop
  | .mk a elem =>
    value = .null ∨ match a.type with
      | .bool => ∃ b, value = .bool b
      | .int | .float => ∃ printed, value = .float printed
      | .string => ∃ text, value = .string text
      | .map => ∃ entries, value = .map entries
      | .list | .set => ∃ items, value = .list items ∧
          (isSpecSet a = true → ∀ item ∈ items, ∃ h, c.hash (.mk a elem) item = some h) ∧
          ItemsFit name items a elem
      | .invalid => False

/-- The items of a list fit its element. A list of at most one item is an object. -/
def ItemsFit (name : String) (items : List Value) (a : Attributes) : Elem → Prop
  | .none => items = []
  | .schema _ => (a.maxItems = 1 → items = []) ∧ ∀ item ∈ items, item ≠ .null
  | .resource fields => ∀ item ∈ items, ∃ obj, item = .map obj ∧ FieldsFit name obj fields

/-- The fields of an object of the state fit, other than those that are not converted. -/
def FieldsFit (above : String) (state : Fields) : SchemaMap → Prop
  | [] => True
  | (field, s) :: rest =>
    (isOverriddenField c.rc (qualify above field) c.ignoreOutputOnlySpecFields = true ∨
      if (isReferenceField (qualify above field) c.rc).isSome then
        ReferenceFits (Value.get state field)
      else isGCPManagedField c.rc.kind (qualify above field) = true ∨
        StateFits (qualify above field) (Value.get state field) s) ∧
    FieldsFit above state rest

end

mutual

/-- The value of a previous spec fits: the elements of its sets have a hash. -/
def PrevFits (prev : Value) : Schema → Prop
  | .mk a elem => a.type = .list ∨ a.type = .set → PrevItemsFit prev a elem

def PrevItemsFit (prev : Value) (a : Attributes) : Elem → Prop
  | .none => True
  | .schema element => isSpecSet a = true → ∀ item ∈ prev.items, item ≠ .null →
      ∃ h, c.hash (.mk a (.schema element)) item = some h
  | .resource fields =>
    (isSpecSet a = true → ∀ item ∈ prev.items, item ≠ .null → ∃ obj tf h, item = .map obj ∧
      krmObjectToTFObject false obj fields = .ok tf ∧
      c.hash (.mk a (.resource fields)) (.map tf) = some h) ∧
    PrevFieldsFit prev.entries fields ∧ ∀ item ∈ prev.items, PrevFieldsFit item.entries fields

def PrevFieldsFit (prev : Fields) : SchemaMap → Prop
  | [] => True
  | (field, s) :: rest =>
    PrevFits (Value.get prev (Text.snakeCaseToLowerCamelCase field)) s ∧
      PrevFieldsFit prev rest

end

variable {c}

section Members

theorem FieldsFit.of_mem {above : String} {state : Fields}
    (fits : FieldsFit c above state schemas) {s : Schema} (member : (field, s) ∈ schemas) :
    isOverriddenField c.rc (qualify above field) c.ignoreOutputOnlySpecFields ∨
      if (isReferenceField (qualify above field) c.rc).isSome then
        ReferenceFits (Value.get state field)
      else isGCPManagedField c.rc.kind (qualify above field) ∨
        StateFits c (qualify above field) (Value.get state field) s := by
  induction schemas with
  | nil => cases member
  | cons first rest ih =>
    obtain ⟨name, other⟩ := first
    rw [FieldsFit] at fits
    rcases mem_cons.mp member with same | inRest
    · cases same
      exact fits.1
    · exact ih fits.2 inRest

theorem prevFieldsFit_iff {prev : Fields} :
    PrevFieldsFit c prev schemas ↔ ∀ field s, (field, s) ∈ schemas →
      PrevFits c (Value.get prev (Text.snakeCaseToLowerCamelCase field)) s := by
  induction schemas with
  | nil => simp [PrevFieldsFit]
  | cons first rest ih =>
    obtain ⟨name, other⟩ := first
    rw [PrevFieldsFit, ih, Dict.forall_entry_cons]

/-- An object without fields fits every schema. -/
theorem fieldsFit_nil (above : String) (schemas : SchemaMap) : FieldsFit c above [] schemas := by
  induction schemas with
  | nil => trivial
  | cons first rest ih =>
    obtain ⟨name, s⟩ := first
    obtain ⟨a, elem⟩ := s
    rw [FieldsFit, Value.get_nil]
    refine ⟨.inr ?_, ih⟩
    split
    · exact .inl rfl
    · exact .inr (by rw [StateFits]; exact .inl rfl)

theorem prevFits_null (s : Schema) : PrevFits c .null s := by
  induction s using Schema.tree with
  | step a elem _ fieldsIh =>
    rw [PrevFits]
    intro _
    cases elem with
    | none => trivial
    | schema element =>
      rw [PrevItemsFit]
      intro _ item member
      cases member
    | resource fields =>
      rw [PrevItemsFit]
      refine ⟨fun _ _ member => absurd member not_mem_nil, ?_,
        fun _ member => absurd member not_mem_nil⟩
      rw [prevFieldsFit_iff]
      intro field s member
      exact fieldsIh fields rfl field s member

theorem prevFieldsFit_nil (schemas : SchemaMap) : PrevFieldsFit c [] schemas := by
  rw [prevFieldsFit_iff]
  intro field s _
  exact prevFits_null s

end Members

section Total

variable {state prevSpec : Fields} {above : String} {managedFields : Option FieldSet}

theorem convertTFReferenceToKCCReference_isSome (prevSpec : Fields)
    (specKey : String) (refConfig : ReferenceConfig)
    (fits : ReferenceFits (Value.get state field)) :
    ∃ val, convertTFReferenceToKCCReference field specKey state prevSpec refConfig = some val := by
  rw [convertTFReferenceToKCCReference]
  split
  · exact ⟨_, rfl⟩
  rcases fits with none | ⟨name, one⟩ | ⟨names, many⟩
  · rw [none]
    exact ⟨_, rfl⟩
  · rw [one]
    dsimp only
    split
    · exact ⟨_, rfl⟩
    split
    · split <;> exact ⟨_, rfl⟩
    · exact ⟨_, rfl⟩
  · rw [many]
    cases names with
    | nil => exact ⟨_, rfl⟩
    | cons first rest =>
      refine (Fallible.mapM_isSome ?_).elim fun refs done =>
        ⟨.list refs, bind_eq_some_iff.mpr ⟨refs, done, rfl⟩⟩
      intro item member
      obtain ⟨name, _, rfl⟩ := mem_map.mp member
      dsimp only
      split <;> exact ⟨_, rfl⟩

theorem convertedEntries_isSome_of (each : ∀ field s, (field, s) ∈ schemas → ∀ orders, ∃ entry,
      assignment c state prevSpec above field
        (convertField c orders state prevSpec above managedFields field s) = some entry)
    (orders : Orders) :
    ∃ entries, convertedEntries c orders state prevSpec above managedFields schemas =
      some entries := by
  induction schemas generalizing orders with
  | nil => exact ⟨[], by rw [convertedEntries]⟩
  | cons first rest ih =>
    obtain ⟨field, s⟩ := first
    obtain ⟨entry, here⟩ := each field s (.head _) (orders.below 0)
    obtain ⟨others, below⟩ := ih (fun field s member =>
      each field s (.tail _ member)) (orders.below 1)
    exact ⟨entry.toList ++ others, convertedEntries_cons.mpr ⟨entry, others, here, below, rfl⟩⟩

theorem assignment_isSome (fits : FieldsFit c above state schemas) {s : Schema}
    (member : (field, s) ∈ schemas) {converted : Option (Option Value)}
    (converts : isGCPManagedField c.rc.kind (qualify above field) ∨
      StateFits c (qualify above field) (Value.get state field) s → ∃ val, converted = some val) :
    ∃ entry, assignment c state prevSpec above field converted = some entry := by
  rw [assignment]
  split
  · exact ⟨_, rfl⟩
  rename_i kept
  have here := (fits.of_mem member).resolve_left kept
  cases reference : isReferenceField (qualify above field) c.rc with
  | some refConfig =>
    rw [reference, if_pos (by rfl)] at here
    obtain ⟨val, done⟩ := convertTFReferenceToKCCReference_isSome prevSpec
      (getKeyForReferenceField refConfig) refConfig here
    exact ⟨_, map_eq_some_iff.mpr ⟨val, done, rfl⟩⟩
  | none =>
    rw [reference, if_neg (by simp)] at here
    obtain ⟨val, done⟩ := converts here
    exact ⟨_, map_eq_some_iff.mpr ⟨val, done, rfl⟩⟩

theorem convertScalar_isSome {a : Attributes} {elem : Elem} {name : String} {value : Value}
    (fits : StateFits c name value (.mk a elem)) (present : value ≠ .null)
    (scalar : a.type ≠ .list ∧ a.type ≠ .set) : ∃ val, convertScalar c a value = some val := by
  rw [StateFits] at fits
  have typed := fits.resolve_left present
  cases type : a.type with
  | list => exact absurd type scalar.1
  | set => exact absurd type scalar.2
  | invalid => simp [type] at typed
  | bool | int | float | map =>
    rw [type] at typed
    obtain ⟨held, rfl⟩ := typed
    unfold convertScalar
    rw [type]
    exact ⟨_, rfl⟩
  | string =>
    rw [type] at typed
    obtain ⟨text, rfl⟩ := typed
    unfold convertScalar
    rw [type]
    dsimp only
    split
    · exact ⟨_, rfl⟩
    split
    · split <;> exact ⟨_, rfl⟩
    · exact ⟨_, rfl⟩

theorem entries_of_member {items : List Value} {fields : SchemaMap} {name : String} {value : Value}
    (fits : ∀ item ∈ items, ∃ obj, item = .map obj ∧ FieldsFit c name obj fields)
    (cause : value = .map [] ∨ value ∈ items) : FieldsFit c name value.entries fields := by
  rcases cause with rfl | member
  · exact fieldsFit_nil name fields
  · obtain ⟨obj, rfl, below⟩ := fits value member
    exact below

section Lists

variable {a : Attributes} {elem : Elem} {name : String} {items : List Value} {prevSpecVal : Value}
  {nested : Option FieldSet}

/-- One round of the loop over a list of objects. -/
def convertListItem (c : Conversion) (orders : Orders) (prevSpecVal : Value) (name : String)
    (fields : SchemaMap) (elem : Value × Nat) : Option Fields :=
  match elem.1 with
  | .map tfObjMap => convertedEntries c (orders.below elem.2) tfObjMap
      (prevSpecVal.items.getD elem.2 .null).entries name none fields
  | _ => none

/-- A list of objects that is no set of the spec. -/
theorem convertList_objects {orders : Orders} {fields : SchemaMap} (many : a.maxItems ≠ 1)
    (plain : ¬ (a.type = .set ∧ isConfigurableField a)) (filled : items ≠ []) :
    convertList c orders (.list items) prevSpecVal name nested a (.resource fields) =
      (items.zipIdx.mapM (convertListItem c orders prevSpecVal name fields)).map fun elems =>
        if (elems.filterMap asObject).isEmpty then none
        else some (.list (elems.filterMap asObject)) := by
  obtain ⟨first, rest, rfl⟩ := exists_cons_of_ne_nil filled
  simp only [convertList, if_neg many, if_neg plain]
  exact (map_eq_bind ..).symm

/-- Objects below the field that fit are converted. -/
def ConvertsBelow (c : Conversion) (name : String) (elem : Elem) : Prop :=
  ∀ fields, elem = .resource fields → ∀ orders state prevSpec managed,
    FieldsFit c name state fields → PrevFieldsFit c prevSpec fields →
    ∃ entries, convertedEntries c orders state prevSpec name managed fields = some entries

/-- The conversion of a set succeeds if that of the objects in it does. -/
theorem convertTFSetToKCCSet_isSome (set : isSpecSet a) (below : ConvertsBelow c name elem)
    (hashed : ∀ item ∈ items, ∃ h, c.hash (.mk a elem) item = some h)
    (itemsFit : ItemsFit c name items a elem) (prevFit : PrevItemsFit c prevSpecVal a elem)
    (orders : Orders) :
    ∃ retObj, convertTFSetToKCCSet c orders (.list items) prevSpecVal (.mk a elem) name =
      some retObj := by
  have converts : items ≠ [] → ∃ elems, convertSetElems (hashElem c (.mk a elem)) (prevAsTF · elem)
      (fun orders tfObj prevElem => convertTFElemToKCCElem c orders tfObj prevElem name elem) orders
      items prevSpecVal.items = some elems := by
    intro filled
    cases elem with
    | none =>
      rw [ItemsFit] at itemsFit
      exact absurd itemsFit filled
    | schema element =>
      rw [PrevItemsFit] at prevFit
      exact convertSetElems_isSome hashed (prevFit set) (fun _ _ _ _ _ => ⟨_, rfl⟩)
        (fun _ _ _ => ⟨_, rfl⟩) orders
    | resource fields =>
      rw [ItemsFit] at itemsFit
      rw [PrevItemsFit] at prevFit
      apply convertSetElems_isSome hashed
      · intro prevElem member present
        obtain ⟨obj, tf, h, rfl, converted, found⟩ := prevFit.1 set prevElem member present
        exact ⟨h, by simp only [prevAsTF, converted]; exact found⟩
      · intro orders prevElem member value cause
        obtain ⟨entries, done⟩ := below fields rfl orders value.entries prevElem.entries none
          (entries_of_member itemsFit cause) (prevFit.2.2 prevElem member)
        exact ⟨_, map_eq_some_iff.mpr ⟨entries, done, rfl⟩⟩
      · intro orders value member
        obtain ⟨entries, done⟩ := below fields rfl orders value.entries [] none
          (entries_of_member itemsFit (.inr member)) (prevFieldsFit_nil fields)
        exact ⟨_, map_eq_some_iff.mpr ⟨entries, done, rfl⟩⟩
  unfold convertTFSetToKCCSet
  split
  · exact ⟨_, rfl⟩
  cases items with
  | nil => exact ⟨_, rfl⟩
  | cons first rest =>
    obtain ⟨elems, done⟩ := converts (cons_ne_nil first rest)
    exact ⟨_, bind_eq_some_iff.mpr ⟨elems, done, rfl⟩⟩

/-- The conversion of a list succeeds if that of the objects in it does. -/
theorem convertList_isSome (below : ConvertsBelow c name elem)
    (hashed : isSpecSet a → ∀ item ∈ items, ∃ h, c.hash (.mk a elem) item = some h)
    (itemsFit : ItemsFit c name items a elem) (prevFit : PrevItemsFit c prevSpecVal a elem)
    (orders : Orders) :
    ∃ val, convertList c orders (.list items) prevSpecVal name nested a elem = some val := by
  cases items with
  | nil => exact ⟨none, by cases elem <;> rw [convertList]⟩
  | cons first rest =>
    by_cases set : isSpecSet a = true
    · obtain ⟨retObj, done⟩ := convertTFSetToKCCSet_isSome set below (hashed set) itemsFit prevFit
        orders
      rw [convertList_set set (cons_ne_nil first rest), done]
      exact ⟨_, rfl⟩
    · cases elem with
      | none =>
        rw [ItemsFit] at itemsFit
        cases itemsFit
      | schema element =>
        rw [ItemsFit] at itemsFit
        have many : a.maxItems ≠ 1 := fun one => absurd (itemsFit.1 one) (cons_ne_nil _ _)
        have plain : ¬ (a.type = .set ∧ isConfigurableField a = true) := by
          simpa [isSpecSet, many] using set
        exact ⟨_, by simp only [convertList, if_neg many, if_neg plain]; rfl⟩
      | resource fields =>
        rw [ItemsFit] at itemsFit
        rw [PrevItemsFit] at prevFit
        by_cases one : a.maxItems = 1
        · obtain ⟨obj, rfl, fits⟩ := itemsFit first (.head _)
          obtain ⟨entries, done⟩ := below fields rfl orders obj prevSpecVal.entries nested fits
            prevFit.2.1
          exact ⟨_, by simp only [convertList, if_pos one, done]; rfl⟩
        · have plain : ¬ (a.type = .set ∧ isConfigurableField a = true) := by
            simpa [isSpecSet, one] using set
          rw [convertList_objects one plain (cons_ne_nil first rest)]
          refine (Fallible.mapM_isSome ?_).elim fun elems done =>
            ⟨_, map_eq_some_iff.mpr ⟨elems, done, rfl⟩⟩
          rintro ⟨item, idx⟩ member
          obtain ⟨obj, rfl, fits⟩ := itemsFit item (fst_mem_of_mem_zipIdx member)
          apply below fields rfl _ _ _ _ fits
          rw [getD_eq_getElem?_getD]
          cases found : prevSpecVal.items[idx]? with
          | none => exact prevFieldsFit_nil fields
          | some prevElem => exact prevFit.2.2 prevElem (mem_of_getElem? found)

end Lists

theorem convertField_isSome (s : Schema)
    (fits : isGCPManagedField c.rc.kind (qualify above field) ∨
      StateFits c (qualify above field) (Value.get state field) s)
    (prevFit : PrevFits c (Value.get prevSpec (Text.snakeCaseToLowerCamelCase field)) s)
    (orders : Orders) :
    ∃ val, convertField c orders state prevSpec above managedFields field s = some val := by
  induction s using Schema.tree generalizing orders state prevSpec above managedFields field with
  | step a elem _ fieldsIh =>
    rw [convertField]
    split
    · exact ⟨_, rfl⟩
    rename_i present
    split
    · exact ⟨_, rfl⟩
    rename_i unmanaged
    have stateFits := fits.resolve_left unmanaged
    have notNull : Value.get state field ≠ .null := by simpa using present
    have below : ConvertsBelow c (qualify above field) elem := by
      intro fields same orders state prevSpec managed fit prev
      apply convertedEntries_isSome_of
      intro inner s member orders
      apply assignment_isSome fit member
      intro innerFits
      exact fieldsIh fields same inner s member innerFits
        (prevFieldsFit_iff.mp prev inner s member) orders
    by_cases list : a.type = .list ∨ a.type = .set
    · have held : ∃ items, Value.get state field = .list items ∧
          (isSpecSet a = true → ∀ item ∈ items, ∃ h, c.hash (.mk a elem) item = some h) ∧
          ItemsFit c (qualify above field) items a elem := by
        rw [StateFits] at stateFits
        rcases list with type | type <;> simpa [type] using stateFits.resolve_left notNull
      obtain ⟨items, value, hashed, itemsFit⟩ := held
      rw [PrevFits] at prevFit
      rw [value]
      have done : ∃ val, convertList c orders (.list items)
          (Value.get prevSpec (Text.snakeCaseToLowerCamelCase field)) (qualify above field)
          (nestedManagedFields (Text.snakeCaseToLowerCamelCase field) managedFields) a elem =
            some val :=
        convertList_isSome below hashed itemsFit (prevFit list) orders
      rcases list with type | type <;> simpa only [type] using done
    · obtain ⟨notList, notSet⟩ := not_or.mp list
      have done := convertScalar_isSome stateFits notNull ⟨notList, notSet⟩
      split
      · exact absurd ‹_› notList
      · exact absurd ‹_› notSet
      · rename_i type
        rw [StateFits, type] at stateFits
        exact absurd stateFits (by simpa using notNull)
      · split
        · exact ⟨_, rfl⟩
        · exact done

/-- An object that fits, with a previous spec that fits, is converted. -/
theorem convertedEntries_isSome (fits : FieldsFit c above state schemas)
    (prevFit : PrevFieldsFit c prevSpec schemas) (orders : Orders) :
    ∃ entries, convertedEntries c orders state prevSpec above managedFields schemas =
      some entries := by
  apply convertedEntries_isSome_of
  intro field s member orders
  apply assignment_isSome fits member
  intro fieldFits
  exact convertField_isSome s fieldFits (prevFieldsFit_iff.mp prevFit field s member) orders

end Total

end ConfigConnector.Krmtotf
