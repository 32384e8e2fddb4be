import ConfigConnector.Webhook.ImmutableFields

/- Which changes of a spec the webhook reports, for every schema. -/
namespace ConfigConnector.Webhook

open K8s Krmtotf Option

/-- A place of the comparison: the fields of one nested object, with the object as both
specs have it. -/
structure Level where
  above : String
  schemaMap : SchemaMap
  obj : Fields
  oldObj : Fields

/-- A scalar, a map or a list of primitives. -/
def comparedWhole (s : Schema) : Bool :=
  match s.attributes.type, s.elem with
  | .bool, _ | .float, _ | .string, _ | .int, _ | .map, _ => true
  | .list, .schema _ | .set, .schema _ => true
  | _, _ => false

namespace Level

variable (rc : ResourceConfig) (level : Level) (k : String)

def qualifiedName : String := getQualifiedFieldName level.above k
def value : Value := Value.get level.obj (Text.snakeCaseToLowerCamelCase k)
def oldValue : Value := Value.get level.oldObj (Text.snakeCaseToLowerCamelCase k)

/-- The nested object in field `k`; where a spec does not have it, it is empty. -/
def inside (fields : SchemaMap) : Level where
  above := level.qualifiedName k
  schemaMap := fields
  obj := (level.value k).entries
  oldObj := (level.oldValue k).entries

/-- The path of the field is one that the resource config ignores or maps to metadata. -/
def Ignored : Prop := level.qualifiedName k ∈ getIgnoredFields rc

/-- Exactly one of the specs has the field. -/
def InOneOnly : Prop := (level.value k).isNil ≠ (level.oldValue k).isNil

def Differs (key : String) : Prop :=
  (Value.get level.obj key).deepEqual (Value.get level.oldObj key) = false

/-- An immutable field that was changed; a reference is named by its key. -/
def Changed (s : Schema) (path : String) : Prop :=
  ¬ level.Ignored rc k ∧ s.attributes.forceNew = true ∧
    match isReferenceField (level.qualifiedName k) rc with
    | some refConfig =>
      path = getQualifiedFieldName level.above (getKeyForReferenceField refConfig) ∧
        level.Differs (getKeyForReferenceField refConfig)
    | none =>
      path = level.qualifiedName k ∧
        (comparedWhole s = true ∧ level.Differs (Text.snakeCaseToLowerCamelCase k) ∨
          level.InOneOnly k)

/-- The field is looked into: it is no reference, and was not added or removed as a whole
where that is reported. -/
def Entered (s : Schema) : Prop :=
  ¬ level.Ignored rc k ∧ isReferenceField (level.qualifiedName k) rc = none ∧
    ¬ (s.attributes.forceNew = true ∧ level.InOneOnly k)

end Level

/-- Levels below `level`, through nested objects in fields that `enters` admits. -/
inductive Reached (enters : Level → String → Schema → Prop) : Level → Level → Prop where
  | here (level : Level) : Reached enters level level
  | nested {level inner : Level} {k : String} {s : Schema} {fields : SchemaMap} :
      (k, s) ∈ level.schemaMap → s.nestedObject = some fields → enters level k s →
      Reached enters (level.inside k fields) inner → Reached enters level inner

/-- `path` names a changed immutable field of a level that can be reached. -/
def Reports (rc : ResourceConfig) (enters : Level → String → Schema → Prop) (root : Level)
    (path : String) : Prop :=
  ∃ level, Reached enters root level ∧
    ∃ k s, (k, s) ∈ level.schemaMap ∧ level.Changed rc k s path

section Fits

variable (rc : ResourceConfig)

mutual

/-- Every nested object that is compared is a map in the spec, or not there. -/
def specFits (obj : Fields) (above : String) : SchemaMap → Bool
  | [] => true
  | (k, s) :: rest => fieldFits obj above k s && specFits obj above rest

def fieldFits (obj : Fields) (above k : String) : Schema → Bool
  | .mk attributes (.resource fields) =>
    let qualifiedName := getQualifiedFieldName above k
    if (attributes.type = .list ∨ attributes.type = .set) ∧ attributes.maxItems = 1 ∧
        qualifiedName ∉ getIgnoredFields rc ∧ isReferenceField qualifiedName rc = none then
      match Value.get obj (Text.snakeCaseToLowerCamelCase k) with
      | .null => true
      | .map nested => specFits nested qualifiedName fields
      | _ => false
    else true
  | _ => true

end

/-- The empty object fits every schema. -/
theorem specFits_nil {rc : ResourceConfig} (fields : SchemaMap) (above : String) :
    specFits rc [] above fields := by
  induction fields with
  | nil => rfl
  | cons entry rest ih =>
    obtain ⟨k, attributes, elem⟩ := entry
    simp only [specFits, ih, Bool.and_true]
    cases elem <;> simp [fieldFits]

theorem asObject_of_fits {rc : ResourceConfig} {obj : Fields} {above k : String} {s : Schema}
    {fields : SchemaMap} (fits : fieldFits rc obj above k s) (nested : s.nestedObject = some fields)
    (compared : getQualifiedFieldName above k ∉ getIgnoredFields rc)
    (plain : isReferenceField (getQualifiedFieldName above k) rc = none) :
    let value := Value.get obj (Text.snakeCaseToLowerCamelCase k)
    asObject value = some value.entries ∧
      specFits rc value.entries (getQualifiedFieldName above k) fields = true := by
  obtain ⟨attributes, elem⟩ := s
  cases elem with
  | none | schema _ => simp [Schema.nestedObject] at nested
  | resource inner =>
    simp only [Schema.nestedObject, Option.ite_none_right_eq_some, Option.some.injEq] at nested
    obtain ⟨⟨isList, one⟩, rfl⟩ := nested
    simp only [fieldFits, isList, one, compared, plain, not_false_eq_true, and_self,
      ↓reduceIte] at fits
    generalize Value.get obj (Text.snakeCaseToLowerCamelCase k) = value at fits ⊢
    cases value with
    | null => exact ⟨rfl, specFits_nil inner _⟩
    | map nested => exact ⟨rfl, fits⟩
    | _ => simp at fits

end Fits

variable {rc : ResourceConfig}

section Search

/-- What is reported at a level: its own changed fields, and what is reported inside
the nested objects that are entered. -/
theorem reports_iff (enters : Level → String → Schema → Prop) (level : Level) (path : String) :
    Reports rc enters level path ↔
      ∃ k s, (k, s) ∈ level.schemaMap ∧ (level.Changed rc k s path ∨
        ∃ fields, s.nestedObject = some fields ∧ enters level k s ∧
          Reports rc enters (level.inside k fields) path) := by
  constructor
  · rintro ⟨found, reached, k, s, member, changed⟩
    cases reached with
    | here => exact ⟨k, s, member, .inl changed⟩
    | nested outer isNested entered reached =>
      exact ⟨_, _, outer, .inr ⟨_, isNested, entered, found, reached, k, s, member, changed⟩⟩
  · rintro ⟨k, s, member, changed | ⟨fields, isNested, entered, found, reached, inner⟩⟩
    · exact ⟨level, .here level, k, s, member, changed⟩
    · exact ⟨found, .nested member isNested entered reached, inner⟩

/-- Where neither spec has the nested object, nothing in it has changed. -/
theorem not_reports_of_empty {enters : Level → String → Schema → Prop} {level : Level}
    (empty : level.obj = [] ∧ level.oldObj = []) (path : String) :
    ¬ Reports rc enters level path := by
  rintro ⟨found, reached, k, s, member, changed⟩
  induction reached with
  | here level =>
    have same : ∀ key, (Value.get level.obj key).deepEqual (Value.get level.oldObj key) := by
      intro key
      simp [empty]
    have absent : ¬ level.InOneOnly k := by
      simp [Level.InOneOnly, Level.value, Level.oldValue, empty]
    obtain ⟨_, _, changed⟩ := changed
    split at changed
    · simp [Level.Differs, same] at changed
    · simp [Level.Differs, same, absent] at changed
  | nested outer isNested entered reached ih =>
    exact ih (by simp [Level.inside, Level.value, Level.oldValue, empty, Value.entries]) member
      changed

/-- The search ends, and what it has found are the paths that `expected` holds of. -/
def Finds (found : Option (List String)) (expected : String → Prop) : Prop :=
  ∃ changes, found = some changes ∧ ∀ path, path ∈ changes ↔ expected path

def Level.Fits (rc : ResourceConfig) (level : Level) : Prop :=
  specFits rc level.obj level.above level.schemaMap = true ∧
    specFits rc level.oldObj level.above level.schemaMap = true

/-- What one field adds: itself, or what is found inside it. -/
def FieldReports (rc : ResourceConfig) (level : Level) (k : String) (s : Schema)
    (path : String) : Prop :=
  level.Changed rc k s path ∨ ∃ fields, s.nestedObject = some fields ∧ level.Entered rc k s ∧
    Reports rc (Level.Entered rc) (level.inside k fields) path

variable (level : Level) (k : String) (s : Schema)

theorem ignored_finds (ignored : level.Ignored rc k) :
    Finds (some []) (FieldReports rc level k s) := by
  refine ⟨[], rfl, fun path => ?_⟩
  simp [FieldReports, Level.Changed, Level.Entered, ignored]

theorem compareReference_finds (compared : ¬ level.Ignored rc k) {refConfig : ReferenceConfig}
    (reference : isReferenceField (level.qualifiedName k) rc = some refConfig) :
    Finds (some (compareReference s.attributes level.obj level.oldObj level.above refConfig))
      (FieldReports rc level k s) := by
  refine ⟨_, rfl, fun path => ?_⟩
  simp only [FieldReports, Level.Changed, Level.Entered, compared, reference, compareReference,
    isReferenceValRawModified, Level.Differs]
  by_cases immutable : s.attributes.forceNew = true
  · by_cases same : (Value.get level.obj (getKeyForReferenceField refConfig)).deepEqual
        (Value.get level.oldObj (getKeyForReferenceField refConfig)) = true
    · simp [immutable, same]
    · simp [immutable, same]
  · simp [immutable]

/-- An immutable field that only one spec has is reported, and not entered. -/
theorem oneOnly_finds (compared : ¬ level.Ignored rc k)
    (plain : isReferenceField (level.qualifiedName k) rc = none)
    (immutable : s.attributes.forceNew) (one : level.InOneOnly k) :
    Finds (some [level.qualifiedName k]) (FieldReports rc level k s) := by
  refine ⟨_, rfl, fun path => ?_⟩
  simp [FieldReports, Level.Changed, Level.Entered, compared, plain, immutable, one]

/-- A field of an entered kind is reported itself only where its values are compared. -/
theorem changed_of_entered {level : Level} {k : String} {s : Schema} (path : String)
    (entered : level.Entered rc k s) :
    level.Changed rc k s path ↔ s.attributes.forceNew ∧ comparedWhole s ∧
      level.Differs (Text.snakeCaseToLowerCamelCase k) ∧ path = level.qualifiedName k := by
  obtain ⟨compared, plain, kept⟩ := entered
  simp only [Level.Changed, compared, plain, not_false_eq_true, true_and]
  by_cases immutable : s.attributes.forceNew = true
  · have both : ¬ level.InOneOnly k := fun one => kept ⟨immutable, one⟩
    simp only [immutable, both, or_false, true_and]
    exact and_comm.trans and_assoc
  · simp [immutable]

theorem compareWhole_finds (entered : level.Entered rc k s) (whole : comparedWhole s)
    (single : s.nestedObject = none) :
    Finds (some (compareWhole s.attributes (level.qualifiedName k) (level.value k)
      (level.oldValue k))) (FieldReports rc level k s) := by
  refine ⟨_, rfl, fun path => ?_⟩
  simp [FieldReports, changed_of_entered path entered, whole, single, compareWhole,
    Level.Differs, Level.value, Level.oldValue, and_assoc]

/-- Fields of a type that is neither compared nor looked into. -/
theorem skipped_finds (entered : level.Entered rc k s) (skipped : comparedWhole s = false)
    (single : s.nestedObject = none) : Finds (some []) (FieldReports rc level k s) := by
  refine ⟨[], rfl, fun path => ?_⟩
  simp [FieldReports, changed_of_entered path entered, skipped, single]

/-- A comparison of all levels that have these fields finds what is to be reported there. -/
def Complete (rc : ResourceConfig) (fields : SchemaMap) : Prop :=
  ∀ level : Level, level.schemaMap = fields → level.Fits rc →
    Finds (compareAndFindChangesOnImmutableFields rc level.obj level.oldObj level.above fields)
      (Reports rc (Level.Entered rc) level)

theorem compareNested_finds (fits : fieldFits rc level.obj level.above k s)
    (oldFits : fieldFits rc level.oldObj level.above k s)
    (entered : level.Entered rc k s) (skipped : comparedWhole s = false)
    {fields : SchemaMap} (nested : s.nestedObject = some fields) (inner : Complete rc fields) :
    Finds (do
      let o1 ← asObject (level.value k)
      let o2 ← asObject (level.oldValue k)
      compareAndFindChangesOnImmutableFields rc o1 o2 (level.qualifiedName k) fields)
      (FieldReports rc level k s) := by
  have new := asObject_of_fits fits nested entered.1 entered.2.1
  have old := asObject_of_fits oldFits nested entered.1 entered.2.1
  obtain ⟨changes, found, exact⟩ := inner (level.inside k fields) rfl ⟨new.2, old.2⟩
  refine ⟨changes, ?_, fun path => ?_⟩
  · simp only [Level.value, Level.oldValue, new.1, old.1]
    exact found
  · simp [FieldReports, changed_of_entered path entered, skipped, nested, entered, exact]

theorem compareValues_finds (attributes : Attributes) (elem : Elem)
    (fits : fieldFits rc level.obj level.above k (.mk attributes elem))
    (oldFits : fieldFits rc level.oldObj level.above k (.mk attributes elem))
    (entered : level.Entered rc k (.mk attributes elem))
    (inner : ∀ fields, elem = .resource fields → Complete rc fields) :
    Finds (compareValues rc attributes (level.qualifiedName k) (level.value k) (level.oldValue k)
      elem) (FieldReports rc level k (.mk attributes elem)) := by
  have whole := compareWhole_finds level k _ entered
  have skipped := skipped_finds level k _ entered
  cases elem with
  | none | schema _ =>
    cases type : attributes.type <;>
      simp_all [compareValues, comparedWhole, Schema.nestedObject]
  | resource fields =>
    by_cases one : attributes.maxItems = 1
    · have nested := compareNested_finds level k _ fits oldFits entered
      cases type : attributes.type <;>
        simp_all [compareValues, comparedWhole, Schema.nestedObject]
    · cases type : attributes.type <;>
        simp_all [compareValues, comparedWhole, Schema.nestedObject]

/-- Where neither spec has the field, there is nothing to report. -/
theorem absent_finds (absent : level.value k = .null) (oldAbsent : level.oldValue k = .null)
    (plain : isReferenceField (level.qualifiedName k) rc = none) :
    Finds (some []) (FieldReports rc level k s) := by
  refine ⟨[], rfl, fun path => ?_⟩
  have inside : ∀ fields, ¬ Reports rc (Level.Entered rc) (level.inside k fields) path := by
    intro fields
    apply not_reports_of_empty
    simp [Level.inside, absent, oldAbsent, Value.entries]
  have same : ¬ level.Differs (Text.snakeCaseToLowerCamelCase k) := by
    simp only [Level.value, Level.oldValue] at absent oldAbsent
    simp [Level.Differs, absent, oldAbsent]
  simp [FieldReports, Level.Changed, plain, inside, same, Level.InOneOnly, absent, oldAbsent]

theorem compareField_finds (fits : fieldFits rc level.obj level.above k s)
    (oldFits : fieldFits rc level.oldObj level.above k s)
    (inner : ∀ fields, s.elem = .resource fields → Complete rc fields) :
    Finds (compareField rc level.obj level.oldObj level.above k s)
      (FieldReports rc level k s) := by
  obtain ⟨attributes, elem⟩ := s
  simp only [compareField]
  rw [← Level.qualifiedName, ← Level.value, ← Level.oldValue]
  by_cases ignored : level.Ignored rc k
  · simpa [show level.qualifiedName k ∈ getIgnoredFields rc from ignored] using
      ignored_finds level k _ ignored
  simp only [show level.qualifiedName k ∉ getIgnoredFields rc from ignored,
    List.contains_eq_mem, decide_false, Bool.false_eq_true, ↓reduceIte]
  cases reference : isReferenceField (level.qualifiedName k) rc with
  | some refConfig =>
    exact compareReference_finds level k (.mk attributes elem) ignored reference
  | none =>
    dsimp only
    split
    next absent =>
      simp only [Bool.and_eq_true, Value.isNil_iff] at absent
      exact absent_finds level k _ absent.1 absent.2 reference
    next present =>
      have one_iff : level.InOneOnly k ↔
          ((level.value k).isNil || (level.oldValue k).isNil) = true := by
        revert present
        rw [Level.InOneOnly]
        cases (level.value k).isNil <;> cases (level.oldValue k).isNil <;> simp
      split
      next one =>
        rw [Bool.and_eq_true, ← one_iff] at one
        exact oneOnly_finds level k _ ignored reference one.2 one.1
      next kept =>
        rw [Bool.and_eq_true, ← one_iff, and_comm] at kept
        exact compareValues_finds level k attributes elem fits oldFits
          ⟨ignored, reference, kept⟩ inner

/-- The fields of one object, one after the other. -/
theorem compareFields_finds (fields : SchemaMap) (fits : specFits rc level.obj level.above fields)
    (oldFits : specFits rc level.oldObj level.above fields)
    (inner : ∀ k s, (k, s) ∈ fields → ∀ nested, s.elem = .resource nested → Complete rc nested) :
    Finds (compareAndFindChangesOnImmutableFields rc level.obj level.oldObj level.above fields)
      fun path => ∃ k s, (k, s) ∈ fields ∧ FieldReports rc level k s path := by
  induction fields with
  | nil => exact ⟨[], rfl, by simp⟩
  | cons entry rest ih =>
    obtain ⟨k, s⟩ := entry
    simp only [specFits, Bool.and_eq_true] at fits oldFits
    obtain ⟨changes, found, exact⟩ := compareField_finds level k s fits.1 oldFits.1
      (inner k s (.head _))
    obtain ⟨others, foundOthers, exactOthers⟩ := ih fits.2 oldFits.2
      fun k s member => inner k s (.tail _ member)
    refine ⟨changes ++ others, ?_, fun path => ?_⟩
    · simp [compareAndFindChangesOnImmutableFields, found, foundOthers]
    · simp [exact, exactOthers, or_and_right, exists_or]

theorem complete_of_fields (fields : SchemaMap)
    (inner : ∀ k s, (k, s) ∈ fields → ∀ nested, s.elem = .resource nested → Complete rc nested) :
    Complete rc fields := by
  rintro level rfl fits
  obtain ⟨changes, found, exact⟩ := compareFields_finds level level.schemaMap fits.1 fits.2 inner
  refine ⟨changes, found, fun path => ?_⟩
  rw [exact, reports_iff]
  rfl

/-- By induction on the schema: a nested object is compared completely if all the nested
objects in it are. -/
theorem complete (fields : SchemaMap) : Complete rc fields := by
  have nested : ∀ s : Schema, ∀ fields, s.elem = .resource fields → Complete rc fields := by
    apply Schema.tree
    intro attributes elem _ inner fields isResource
    exact complete_of_fields fields (inner fields isResource)
  exact complete_of_fields fields fun k s _ => nested s

end Search

section Admission

/-- Annotations that stay as they are pass, for containers of the known types. -/
theorem validateContainerAnnotationsForResource_same (kind : String) (annotations : StringMap)
    (containers : List Container) (hierarchicalRefs : List HierarchicalReference)
    (known : ∀ c ∈ containers, (getAnnotationForContainerType c.type).isSome) :
    validateContainerAnnotationsForResource kind annotations annotations containers
      hierarchicalRefs = some (.ok ()) := by
  have current : ∀ all, validateContainerAnnotations kind annotations annotations all containers =
      some (.ok ()) := by
    intro all
    induction containers with
    | nil => rfl
    | cons c rest ih =>
      obtain ⟨a, found⟩ := isSome_iff_exists.mp (known c (.head _))
      simpa [validateContainerAnnotations, found] using
        ih fun c member => known c (.tail _ member)
  have deprecated : validateDeprecatedContainerAnnotations annotations annotations
      hierarchicalRefs containers = some (.ok ()) := by
    clear current
    induction containers with
    | nil => rfl
    | cons c rest ih =>
      obtain ⟨a, found⟩ := isSome_iff_exists.mp (known c (.head _))
      simpa [validateDeprecatedContainerAnnotations, found] using
        ih fun c member => known c (.tail _ member)
  simp [validateContainerAnnotationsForResource, current, deprecated]

/-- An update of an object that changes nothing but its spec, for a resource that the
service mappings and the provider know. -/
structure SpecUpdate (getResourceConfig : Reviewed → Except GoError ResourceConfig)
    (tfResourceMap : String → Option SchemaMap) (obj oldObj : Reviewed) (rc : ResourceConfig)
    (schemaMap : SchemaMap) : Prop where
  config : getResourceConfig obj = .ok rc
  schema : tfResourceMap rc.name = some schemaMap
  containers : ∀ c ∈ rc.containers, (getAnnotationForContainerType c.type).isSome = true
  annotations : oldObj.annotations = obj.annotations

/-- The two specs of an update, as the comparison starts. -/
def specLevel (schemaMap : SchemaMap) (spec oldSpec : Fields) : Level where
  above := ""
  schemaMap := schemaMap
  obj := spec
  oldObj := oldSpec

/-- The answer depends on the resource ID, the location and what the comparison finds. -/
theorem validate_specUpdate {getResourceConfig : Reviewed → Except GoError ResourceConfig}
    {tfResourceMap : String → Option SchemaMap} {obj oldObj : Reviewed} {schemaMap : SchemaMap}
    (update : SpecUpdate getResourceConfig tfResourceMap obj oldObj rc schemaMap)
    {changes : List String}
    (found : compareAndFindChangesOnImmutableFields rc obj.spec oldObj.spec "" schemaMap =
      some changes) :
    validateImmutableFieldsForTFBasedResource getResourceConfig tfResourceMap obj oldObj =
      some (if findChangesOnImmutableResourceIDField obj.spec oldObj.spec rc then
          .errored 403 (.immutableFieldsMutation ["spec.resourceID"])
        else if findChangesOnImmutableLocationField obj.spec oldObj.spec rc then
          .errored 403 (.immutableFieldsMutation ["spec.location"])
        else if changes.length ≠ 0 then
          .errored 400 (.immutableFieldsMutation (changes.map constructCamelCasePath))
        else .allowed) := by
  have passed := validateContainerAnnotationsForResource_same obj.kind obj.annotations
    rc.containers rc.hierarchicalReferences update.containers
  simp only [validateImmutableFieldsForTFBasedResource, update.config, update.annotations,
    update.schema, passed, found, bind_eq_bind, bind_some, pure_def]
  split
  · rfl
  split
  · rfl
  split <;> rfl

end Admission

/-- The comparison ends, and reports a path if and only if it names a changed immutable
field that lies in no nested object that is ignored, a reference or itself reported as
added or removed. So an update is refused if it changes such a field, and an update that
changes none, nor the resource ID and the location, is admitted. -/
theorem immutable_changes_reported (rc : ResourceConfig) (schemaMap : SchemaMap)
    (spec oldSpec : Fields) (fits : (specLevel schemaMap spec oldSpec).Fits rc) :
    Finds (compareAndFindChangesOnImmutableFields rc spec oldSpec "" schemaMap)
      (Reports rc (Level.Entered rc) (specLevel schemaMap spec oldSpec)) ∧
    ∀ getResourceConfig tfResourceMap obj oldObj,
      SpecUpdate getResourceConfig tfResourceMap obj oldObj rc schemaMap →
      obj.spec = spec → oldObj.spec = oldSpec →
      ((∃ path, Reports rc (Level.Entered rc) (specLevel schemaMap spec oldSpec) path) →
        ∃ code reason, validateImmutableFieldsForTFBasedResource getResourceConfig tfResourceMap
          obj oldObj = some (.errored code reason)) ∧
      ((∀ path, ¬ Reports rc (Level.Entered rc) (specLevel schemaMap spec oldSpec) path) →
        findChangesOnImmutableResourceIDField spec oldSpec rc = false →
        findChangesOnImmutableLocationField spec oldSpec rc = false →
        validateImmutableFieldsForTFBasedResource getResourceConfig tfResourceMap obj oldObj =
          some .allowed) := by
  have finds := complete schemaMap (specLevel schemaMap spec oldSpec) rfl fits
  refine ⟨finds, ?_⟩
  rintro getResourceConfig tfResourceMap obj oldObj update rfl rfl
  obtain ⟨changes, found, exact⟩ := finds
  rw [validate_specUpdate update found]
  constructor
  · rintro ⟨path, reported⟩
    have some_change : changes.length ≠ 0 := by
      have member := (exact path).mpr reported
      exact Nat.ne_of_gt (List.length_pos_of_mem member)
    split
    · exact ⟨_, _, rfl⟩
    split <;> exact ⟨_, _, rfl⟩
  · intro unreported sameID sameLocation
    have no_change : changes = [] := by
      apply List.eq_nil_iff_forall_not_mem.mpr
      intro path member
      exact unreported path ((exact path).mp member)
    simp [sameID, sameLocation, no_change]

section Example

/-- A block that cannot be added later, with a field that cannot be changed. -/
def blockSchema : SchemaMap :=
  [("encryption_config", .mk { type := .list, maxItems := 1, forceNew := true }
    (.resource [("kms_key", .mk { type := .string, forceNew := true } .none)]))]

def blockConfig : ResourceConfig where
  name := "google_spanner_database"
  kind := "SpannerDatabase"

def blockSpec : Fields := [("encryptionConfig", .map [("kmsKey", .string "key")])]

theorem immutable_changes_reported_block :
    (specLevel blockSchema blockSpec []).Fits blockConfig ∧
      Finds (compareAndFindChangesOnImmutableFields blockConfig blockSpec [] "" blockSchema)
        (Reports blockConfig (Level.Entered blockConfig) (specLevel blockSchema blockSpec [])) :=
  have fits : (specLevel blockSchema blockSpec []).Fits blockConfig := by
    constructor <;> decide
  ⟨fits, (immutable_changes_reported blockConfig blockSchema blockSpec [] fits).1⟩

/-- A field inside a block that was added as a whole is immutable, is reached through
nested objects only and is in one spec only, but only the block is reported. -/
theorem added_block_reported_alone :
    compareAndFindChangesOnImmutableFields blockConfig blockSpec [] "" blockSchema =
      some ["encryption_config"] ∧
    Reports blockConfig (fun level k _ => ¬ level.Ignored blockConfig k)
      (specLevel blockSchema blockSpec []) "encryption_config.kms_key" := by
  refine ⟨by decide, _, .nested (.head _) rfl ?_ (.here _), "kms_key", _,
    (.head _), ?_, rfl, rfl, .inr ?_⟩
  · unfold Level.Ignored
    decide
  · unfold Level.Ignored
    decide
  · unfold Level.InOneOnly
    decide

end Example

end ConfigConnector.Webhook
