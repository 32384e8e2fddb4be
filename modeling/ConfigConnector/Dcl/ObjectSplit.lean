import ConfigConnector.Dcl.RoundTrip
import ConfigConnector.Dcl.StatusLeaves

/- Where the leaves of an object of the DCL are in the Kubernetes object. -/
namespace ConfigConnector.Dcl

open K8s Value List Option Fallible Dict

variable {field key : String} {s : Schema}

section Trimming

theorem lookup_trimEntries (key : String) (fields : Fields) :
    (trimEntries fields).lookup key = (fields.lookup key).map trimValue := by
  induction fields with
  | nil => rfl
  | cons entry rest ih =>
    rw [trimEntries, lookup_cons, lookup_cons, ih]
    split <;> rfl

theorem get_trimNilFields (key : String) (fields : Fields) :
    Value.get (trimNilFields fields) key = trimValue (Value.get fields key) := by
  rw [Value.get, trimNilFields, lookup_filter fun name => !(Value.get fields name).isNil,
    lookup_trimEntries]
  cases found : fields.lookup key with
  | none => simp [Value.get, found, trimValue]
  | some value =>
    have held : Value.get fields key = value := by rw [Value.get, found]; rfl
    rw [held]
    cases value <;> simp [Value.isNil, trimValue]

theorem trimItems_eq_map (items : List Value) : trimItems items = items.map trimValue := by
  induction items with
  | nil => rfl
  | cons item rest ih => rw [trimItems, ih, map_cons]

/-- One step further a value is trimmed, or it was not looked at. -/
theorem step_trimValue (value : Value) (first : Step) :
    (trimValue value).step first = trimValue (value.step first) ∨
      (trimValue value).step first = value.step first := by
  cases value with
  | map fields =>
    cases first with
    | key name => exact .inl (get_trimNilFields name fields)
    | index position => exact .inr rfl
  | list items =>
    rw [trimValue]
    split
    · cases first with
      | key name => exact .inr rfl
      | index position =>
        left
        change (trimItems items).getD position .null = trimValue (items.getD position .null)
        rw [trimItems_eq_map, getD_eq_getElem?_getD, getD_eq_getElem?_getD, List.getElem?_map]
        cases items[position]? <;> rfl
    · exact .inr rfl
  | _ => exact .inr rfl

/-- Only nil is trimmed. -/
theorem leaf_trimValue (path : Path) (value leaf : Value) :
    Leaf (trimValue value) path leaf ↔ Leaf value path leaf := by
  induction path generalizing value with
  | nil =>
    cases value with
    | map fields =>
      constructor <;> rintro ⟨rfl, scalar⟩ <;> cases scalar
    | list items =>
      rw [trimValue, Leaf, Leaf]
      split
      · constructor <;> rintro ⟨rfl, scalar⟩ <;> cases scalar
      · rfl
    | _ => rfl
  | cons first rest ih =>
    change Leaf ((trimValue value).step first) rest leaf ↔ Leaf (value.step first) rest leaf
    rcases step_trimValue value first with trimmed | same
    · rw [trimmed, ih]
    · rw [same]

theorem leaf_trimNilFields (obj : Fields) (path : Path) (leaf : Value) :
    Leaf (.map (trimNilFields obj)) path leaf ↔ Leaf (.map obj) path leaf := by
  have same : trimValue (.map obj) = .map (trimNilFields obj) := by rw [trimValue, trimNilFields]
  rw [← same, leaf_trimValue]

end Trimming

variable {services : Services} {schema : Schema} {obj : Fields}

section Root

variable (services schema)

/-- The keys that the spec can have. -/
def rootKeys (obj : Fields) : List String :=
  match schema.additionalProperties with
  | some _ => obj.map (·.1)
  | none => allWrittenKeys services true false schema.properties

/-- The names of the properties differ, and so do the keys under which they are written. -/
def distinctAtRoot : Bool :=
  match schema.additionalProperties with
  | some inner => distinctNames services false true inner
  | none =>
    decide (schema.properties.map (·.1)).Nodup &&
    decide (allWrittenKeys services true false schema.properties).Nodup &&
    distinctNamesBelow services false schema.properties

/-- The schema of a field that is in the spec under its own name, converted as it is. -/
def plainSchema (field : String) : Option Schema :=
  match schema.additionalProperties with
  | some inner => some inner
  | none => (schema.properties.lookup field).filter fun s =>
    decide (role false s = .plain) ||
    decide (role false s = .reference) && isPlainContainer services true field

/-- The field is converted as it is. -/
def Plain (field : String) (s : Schema) : Prop :=
  role false s = .plain ∨ role false s = .reference ∧ isPlainContainer services true field = true

variable {services schema}

theorem plain_property (regular : Regular s) (plain : Plain services field s) {result : Value}
    (converted : convertToKRMSpec services (Value.get obj field) [field] false s = .ok result) :
    propertyToKRM services [] false obj (field, s) = .ok (field, result) := by
  cases present : (Value.get obj field).isNil with
  | true =>
    rw [isNil_iff] at present
    rw [present, convertToKRMSpec_null] at converted
    cases converted
    exact fieldToKRM_nil present _
  | false =>
    rw [propertyToKRM, fieldToKRM_eq regular _ present]
    dsimp only [nil_append]
    rw [converted]
    rcases plain with plain | ⟨isRef, container⟩
    · rw [plain]
      rfl
    rw [isPlainContainer, Bool.true_and] at container
    rw [isRef]
    rw [if_pos container]
    rfl

theorem shaped_of_plain {val : Value} {shape : Bool} (plain : Plain services field s)
    (fits : fieldShaped services true false field s val (shaped services val false shape s)) :
    shaped services val false shape s := by
  rw [fieldShaped, Bool.or_eq_true] at fits
  rcases fits with nil | fits
  · rw [(isNil_iff val).mp nil]
    exact shaped_null _ _ s
  rcases plain with plain | ⟨isRef, container⟩
  · rwa [plain] at fits
  rw [isRef] at fits
  rw [if_pos container, Bool.and_eq_true] at fits
  exact fits.2

theorem mem_writtenKeys_of_plain (plain : Plain services field s) :
    field ∈ writtenKeys services true false field s := by
  rcases plain with plain | isContainer
  · simp [writtenKeys, specKeys, plain]
  · rw [writtenKeys, if_pos isContainer]
    exact mem_singleton_self _

/-- What the spec of a DCL object is. -/
structure RootSpec (services : Services) (schema : Schema) (obj spec : Fields) : Prop where
  converted : convertToKRMSpec services (.map obj) [] false schema = .ok (.map spec)
  leaves : ∀ target leaf, Leaf (.map spec) target leaf ↔
    ∃ source, Leaf (.map obj) source leaf ∧ throughReadOnly schema source = false ∧
      specPath services leaf true false schema source = target
  plain : ∀ field s, plainSchema services schema field = some s →
    ∃ coll, convertToKRMSpec services (Value.get obj field) [field] coll s =
      .ok (Value.get spec field)
  absent : ∀ key, key ∉ rootKeys services schema obj → Value.get spec key = .null
  noNil : ∀ key, spec.lookup key ≠ some .null

variable {readOnly : Bool} {extension : Fields} {properties : Properties} {items : Option Schema}

theorem rootSpec_of_map {inner : Schema} (valid : wellFormed inner)
    (distinct : distinctNames services false true inner) (nodup : (obj.map (·.1)).Nodup)
    (shape : ∀ entry ∈ obj, shaped services entry.2 false true inner) :
    ∃ spec, RootSpec services (.mk .object readOnly extension properties (some inner) items) obj
      spec := by
  have each : ∀ entry ∈ obj, Carried services ([] ++ [entry.1]) true inner entry.2 :=
    fun entry member => carried inner _ true _ (by simp) valid distinct (shape entry member)
  obtain ⟨spec, done, converted, noNil, leaves⟩ :=
    map_carried nodup each
  refine ⟨spec, done, leaves, ?_, ?_, noNil⟩
  · intro field s found
    cases found
    exact ⟨true, converted field⟩
  intro key unknown
  have absent : Value.get obj key = .null :=
    (get_cases obj key).resolve_right fun member => unknown (mem_map_of_mem member)
  have nil := converted key
  rw [absent, convertToKRMSpec_null, Except.ok.injEq] at nil
  exact nil.symm

theorem rootSpec_of_properties (valid : ∀ field s, (field, s) ∈ properties → wellFormed s)
    (names : (properties.map (·.1)).Nodup)
    (keys : (allWrittenKeys services true false properties).Nodup)
    (distinct : distinctNamesBelow services false properties)
    (known : (obj.all fun entry => (properties.map (·.1)).contains entry.1) = true)
    (shape : propertiesShaped services obj true false properties) :
    ∃ spec, RootSpec services (.mk .object readOnly extension properties none items) obj spec := by
  rw [propertiesShaped_iff] at shape
  rw [distinctNamesBelow_iff] at distinct
  have inner : ∀ entry ∈ properties,
      shaped services (Value.get obj entry.1) false false entry.2 = true →
        Carried services ([] ++ [entry.1]) false entry.2 (Value.get obj entry.1) := by
    intro entry member
    exact carried entry.2 _ false _ (by simp) (valid _ _ member) (distinct entry member)
  have each : ∀ entry ∈ properties, Yields services [] false obj entry := by
    intro entry member
    exact field_yields (regular_of_wellFormed (valid _ _ member)) (shape entry member)
      (inner entry member)
  obtain ⟨results, done, collected⟩ := properties_collected keys each
  -- what is under a key comes from the property that the key belongs to
  have source : ∀ key, Value.get (collect results) key ≠ .null → ∃ entry ∈ properties,
      propertyToKRM services [] false obj entry = .ok (key, Value.get (collect results) key) ∧
        key ∈ writtenKeys services true false entry.1 entry.2 := by
    intro key present
    obtain ⟨entry, member, written⟩ := (collected key _ present).mp rfl
    obtain ⟨key', val, written', belongs, -⟩ := each entry member
    cases written.symm.trans written'
    exact ⟨entry, member, written, belongs present⟩
  refine ⟨collect results, ?_, ?_, ?_, ?_, lookup_collect_ne_null results⟩
  · rw [convertToKRMSpec, done]
    rfl
  · intro target leaf
    exact object_carried names known each collected target leaf
  · intro field s found
    obtain ⟨lookup, plain⟩ := filter_eq_some_iff.mp found
    replace plain : Plain services field s := by simpa [Plain] using plain
    have member := mem_of_lookup lookup
    obtain ⟨result, converted, -⟩ := inner _ member (shaped_of_plain plain (shape _ member))
    have written := plain_property (regular_of_wellFormed (valid _ _ member)) plain converted
    refine ⟨false, ?_⟩
    have held : Value.get (collect results) field = result := by
      by_cases nil : result = .null
      · rw [nil]
        by_contra present
        obtain ⟨entry, inEntry, other, belongs⟩ := source field present
        obtain rfl := eq_of_key keys member inEntry (mem_writtenKeys_of_plain plain) belongs
        cases written.symm.trans other
        exact present nil
      · exact (collected field result nil).mpr ⟨_, member, written⟩
    rw [held]
    exact converted
  · intro key unknown
    by_contra present
    obtain ⟨entry, member, -, belongs⟩ := source key present
    exact unknown (mem_flatMap.mpr ⟨entry, member, belongs⟩)

end Root

section Sections

/-- The object has these parts, and no others but its version and kind. -/
structure Sections (obj spec metadata status : Fields) : Prop where
  spec : Below obj "spec" spec
  metadata : Below obj "metadata" metadata
  status : Below obj "status" status
  others : ∀ key, key ∉ ["apiVersion", "kind", "spec", "metadata", "status"] → obj.lookup key = none

theorem below_set (obj : Fields) (key : String) (inner : Fields) :
    Below (Dict.set key (.map inner) obj) key inner := by
  right
  rw [lookup_set, if_pos rfl]

theorem below_set_of_ne {inner : Fields} (found : Below obj key inner) {other : String}
    (differ : key ≠ other) (value : Value) :
    Below (Dict.set other value obj) key inner := by
  rw [Below, lookup_set, if_neg differ]
  exact found

namespace Sections

variable {obj spec metadata status : Fields}

section

variable (parts : Sections obj spec metadata status)
include parts

theorem setSpec (fields : Fields) :
    Sections (Dict.set "spec" (.map fields) obj) fields metadata status where
  spec := below_set obj "spec" fields
  metadata := below_set_of_ne parts.metadata (by decide) _
  status := below_set_of_ne parts.status (by decide) _
  others key unknown := by
    rw [lookup_set, if_neg (by rintro rfl; simp at unknown)]
    exact parts.others key unknown

theorem setMetadata (field : String) (values : Fields) :
    Sections (Dcl.setMetadata field values obj) spec (Dict.set field (.map values) metadata)
      status := by
  have written : setNestedField (.map values) [] obj "metadata" [field] =
      .ok (Dict.set "metadata" (.map (Dict.set field (.map values) metadata)) obj) := by
    rw [parts.metadata.setNestedField]
    rfl
  rw [Dcl.setMetadata, written]
  exact
    { spec := below_set_of_ne parts.spec (by decide) _
      metadata := below_set obj "metadata" _
      status := below_set_of_ne parts.status (by decide) _
      others := fun key unknown => by
        rw [lookup_set, if_neg (by rintro rfl; simp at unknown)]
        exact parts.others key unknown }

theorem removeSpec (key : String) :
    Sections (removeNestedField obj "spec" [key]) (remove key spec) metadata status := by
  rw [removeNestedField]
  rcases parts.spec with ⟨absent, rfl⟩ | present
  · rw [absent]
    exact parts
  · rw [present]
    exact parts.setSpec (remove key spec)

theorem nestedString {value : String} (held : Value.get spec key = .string value) :
    Value.nestedString (.map obj) ["spec", key] = .ok (some value) := by
  rw [Value.nestedString, parts.spec.nestedField, lookup_of_get held (by simp)]
  rfl

end

end Sections

end Sections

section Lifting

variable {obj spec metadata status spec' : Fields}

/-- The field that becomes the labels. -/
def labelsField (schema : Schema) : Option String :=
  match getLabelsField schema with
  | .ok field => field
  | .error _ => none

/-- The field that becomes an annotation. -/
def containerField (services : Services) (schema : Schema) : Option String :=
  if services.supportsHierarchicalReferences then none
  else match getContainerFieldName schema with
    | .ok field => field
    | .error _ => none

/-- The name becomes the resource ID. -/
def liftsName (schema : Schema) : Bool := (schema.properties.lookup "name").any fun s => !s.readOnly

/-- A map of strings. -/
def isStrings (fields : Fields) : Bool := fields.all fun entry => entry.2 matches .string _

theorem asStrings_ok {fields : Fields} (strings : isStrings fields) :
    asStrings fields = .ok fields := by
  induction fields with
  | nil => rfl
  | cons entry rest ih =>
    obtain ⟨key, value⟩ := entry
    rw [isStrings, all_cons, Bool.and_eq_true] at strings
    obtain ⟨isString, others⟩ := strings
    cases value with
    | string text =>
      rw [asStrings, mapM_cons]
      have rest_ok := ih others
      rw [asStrings] at rest_ok
      rw [ok_bind, rest_ok]
      rfl
    | _ => cases isString

theorem labels_lifted (parts : Sections obj spec [] status)
    {field : Option String} (named : getLabelsField schema = .ok field)
    (noNil : ∀ key, spec.lookup key ≠ some .null)
    (labels : ∀ l, field = some l →
      Value.get spec l = .null ∨ ∃ m, Value.get spec l = .map m ∧ isStrings m) :
    ∃ lifted spec' metadata', liftDCLLabelsField obj schema = .ok lifted ∧
      Sections lifted spec' metadata' status ∧
      (∀ key, Value.get spec' key = if field = some key then .null else Value.get spec key) ∧
      ∀ key, Value.get metadata' key =
        if key = "labels" then (field.elim .null (Value.get spec)) else .null := by
  rw [liftDCLLabelsField, named, wrapError_ok, ok_bind]
  cases field with
  | none =>
    refine ⟨obj, spec, [], rfl, parts, ?_, ?_⟩
    · intro key
      rw [if_neg (by simp)]
    · intro key
      simp
  | some l =>
    dsimp only
    rw [Value.nestedMap, parts.spec.nestedField]
    rcases labels l rfl with nil | ⟨m, held, strings⟩
    · rw [lookup_eq_none nil (noNil l)]
      refine ⟨obj, spec, [], rfl, parts, ?_, ?_⟩
      · intro key
        split
        · rename_i same
          cases same
          exact nil
        · rfl
      · intro key
        simp [nil]
    · rw [lookup_of_get held (by simp)]
      refine ⟨removeNestedField (setMetadata "labels" m obj) "spec" [l], _, _, ?_,
        (parts.setMetadata "labels" m).removeSpec l, ?_, ?_⟩
      · change (do
          let labels ← asStrings m
          return removeNestedField (setMetadata "labels" labels obj) "spec" [l]) = _
        rw [asStrings_ok strings]
        rfl
      · intro key
        rw [get_remove]
        simp only [Option.some.injEq, eq_comm]
      · intro key
        rw [get_set, elim_some, held]
        rfl

section

variable (parts : Sections obj spec metadata status)
include parts

theorem getAnnotations_nil (absent : Value.get metadata "annotations" = .null) :
    getAnnotations obj = [] := by
  rw [getAnnotations, parts.metadata.nestedField]
  rw [Value.get] at absent
  cases found : metadata.lookup "annotations" with
  | none => rfl
  | some value =>
    rw [found, getD_some] at absent
    rw [absent]

theorem container_lifted
    (named : services.supportsHierarchicalReferences = false →
      getContainerFieldName schema = .ok (containerField services schema))
    (container : ∀ c, containerField services schema = some c → ∃ v, Value.get spec c = .string v)
    (noAnnotations : Value.get metadata "annotations" = .null) :
    ∃ lifted spec' metadata',
      (if services.supportsHierarchicalReferences then .ok obj
        else wrapError "error lifting container field to annotation"
          (liftDCLContainerField obj schema)) = .ok lifted ∧
      Sections lifted spec' metadata' status ∧
      (∀ key, Value.get spec' key =
        if containerField services schema = some key then .null else Value.get spec key) ∧
      ∀ key, Value.get metadata' key =
        if key = "annotations" then (containerField services schema).elim .null
          fun c => .map [(containerKey c, Value.get spec c)]
        else Value.get metadata key := by
  cases field : containerField services schema with
  | none =>
    refine ⟨obj, spec, metadata, ?_, parts, ?_, ?_⟩
    · cases supports : services.supportsHierarchicalReferences with
      | true => rfl
      | false =>
        rw [liftDCLContainerField, named supports, field]
        rfl
    · intro key
      rw [if_neg (by simp)]
    · intro key
      split
      · rename_i same
        rw [same, noAnnotations]
        rfl
      · rfl
  | some c =>
    have supports : services.supportsHierarchicalReferences = false := by
      rw [containerField] at field
      split at field
      · cases field
      · exact Bool.eq_false_iff.mpr ‹_›
    obtain ⟨v, held⟩ := container c field
    rw [supports, if_neg (by simp), liftDCLContainerField, named supports, field, wrapError_ok,
      ok_bind]
    dsimp only
    rw [parts.nestedString held, getAnnotations_nil parts noAnnotations]
    refine ⟨_, _, _, rfl, (parts.setMetadata "annotations" _).removeSpec c, ?_, ?_⟩
    · intro key
      rw [get_remove]
      simp only [Option.some.injEq, eq_comm]
    intro key
    rw [get_set, elim_some, held]
    rfl

theorem name_lifted (name : liftsName schema → ∃ v, Value.get spec "name" = .string v) :
    ∃ lifted spec', convertToKRMResourceIDField obj schema = .ok lifted ∧
      Sections lifted spec' metadata status ∧
      ∀ key, Value.get spec' key =
        if liftsName schema then
          if key = "name" then .null
          else if key = "resourceID" then Value.get spec "name" else Value.get spec key
        else Value.get spec key := by
  rw [convertToKRMResourceIDField]
  cases found : schema.properties.lookup "name" with
  | none =>
    have keeps : liftsName schema = false := by rw [liftsName, found]; rfl
    refine ⟨obj, spec, rfl, parts, ?_⟩
    intro key
    rw [keeps, if_neg (by simp)]
  | some s =>
    have lifts : liftsName schema = !s.readOnly := by rw [liftsName, found]; rfl
    dsimp only
    cases readOnly : s.readOnly with
    | true =>
      refine ⟨obj, spec, rfl, parts, ?_⟩
      intro key
      rw [lifts, readOnly, if_neg (by simp)]
    | false =>
      rw [readOnly, Bool.not_false] at lifts
      obtain ⟨v, held⟩ := name lifts
      have written : setNestedField (.string v) [] obj "spec" ["resourceID"] =
          .ok (Dict.set "spec" (.map (Dict.set "resourceID" (.string v) spec)) obj) := by
        rw [parts.spec.setNestedField]
        rfl
      rw [if_neg (by simp), parts.nestedString held]
      refine ⟨_, _, ?_, (parts.setSpec (Dict.set "resourceID" (.string v) spec)).removeSpec "name",
        ?_⟩
      · change (do
          let obj ← wrapError _ (liftError (setNestedField (.string v) [] obj "spec"
            ["resourceID"]))
          return removeNestedField obj "spec" ["name"]) = _
        rw [written]
        rfl
      · intro key
        rw [get_remove, get_set, lifts, if_pos rfl, held]

end

/-- Where a leaf of the spec ends up: labels, container and name have places of their own. -/
def lifted (services : Services) (schema : Schema) : Path → Path
  | .key field :: rest =>
    if labelsField schema = some field then .key "metadata" :: .key "labels" :: rest
    else if containerField services schema = some field then
      .key "metadata" :: .key "annotations" :: .key (containerKey field) :: rest
    else if field = "name" ∧ liftsName schema = true then .key "spec" :: .key "resourceID" :: rest
    else .key "spec" :: .key field :: rest
  | path => .key "spec" :: path

/-- What the fields that are lifted hold. -/
structure Liftable (services : Services) (schema : Schema) (spec : Fields) : Prop where
  labels : ∀ l, labelsField schema = some l →
    Value.get spec l = .null ∨ ∃ m, Value.get spec l = .map m ∧ isStrings m = true
  container : ∀ c, containerField services schema = some c → ∃ v, Value.get spec c = .string v
  name : liftsName schema = true → ∃ v, Value.get spec "name" = .string v
  notContainer : liftsName schema = true → containerField services schema ≠ some "name"
  free : liftsName schema = true → Value.get spec "resourceID" = .null

/-- What is left of the spec, and what the metadata become. -/
structure LiftedParts (services : Services) (schema : Schema) (spec spec' metadata : Fields) :
    Prop where
  kept : ∀ key, Value.get spec' key =
    if liftsName schema = true ∧ key = "name" then .null
    else if liftsName schema = true ∧ key = "resourceID" then Value.get spec "name"
    else if containerField services schema = some key ∨ labelsField schema = some key then .null
    else Value.get spec key
  labels : Value.get metadata "labels" = (labelsField schema).elim .null (Value.get spec)
  annotations : Value.get metadata "annotations" = (containerField services schema).elim .null
    fun c => .map [(containerKey c, Value.get spec c)]
  others : ∀ key, key ≠ "labels" → key ≠ "annotations" → Value.get metadata key = .null

/-- The labels are no string. -/
theorem Liftable.not_labels (liftable : Liftable services schema spec) {v : String}
    (text : Value.get spec key = .string v) : labelsField schema ≠ some key := by
  intro isLabels
  rcases liftable.labels key isLabels with nil | ⟨m, isMap, -⟩
  · simp [text] at nil
  · simp [text] at isMap

namespace LiftedParts

variable (parts : LiftedParts services schema spec spec' metadata)
  (liftable : Liftable services schema spec) {rest : Path} {leaf : Value}

include parts liftable

theorem leaf_of_spec (held : Leaf (Value.get spec' field) rest leaf) :
    ∃ source, Leaf (.map spec) source leaf ∧
      lifted services schema source = .key "spec" :: .key field :: rest := by
  rw [parts.kept] at held
  split at held
  · exact absurd held not_leaf_null
  split at held
  · rename_i _ resourceID
    obtain ⟨lifts, rfl⟩ := resourceID
    refine ⟨.key "name" :: rest, held, ?_⟩
    obtain ⟨v, text⟩ := liftable.name lifts
    rw [lifted, if_neg (liftable.not_labels text), if_neg (liftable.notContainer lifts),
      if_pos ⟨rfl, lifts⟩]
  · split at held
    · exact absurd held not_leaf_null
    rename_i notName _ notMoved
    rw [not_or] at notMoved
    refine ⟨.key field :: rest, held, ?_⟩
    rw [lifted, if_neg notMoved.2, if_neg notMoved.1, if_neg fun name => notName name.symm]

theorem leaf_of_metadata (held : Leaf (Value.get metadata field) rest leaf) :
    ∃ source, Leaf (.map spec) source leaf ∧
      lifted services schema source = .key "metadata" :: .key field :: rest := by
  by_cases isLabels : field = "labels"
  · subst isLabels
    rw [parts.labels] at held
    cases labels : labelsField schema with
    | none =>
      rw [labels] at held
      exact absurd held not_leaf_null
    | some l =>
      rw [labels] at held
      exact ⟨.key l :: rest, held, by rw [lifted, if_pos labels]⟩
  · by_cases isAnnotations : field = "annotations"
    · subst isAnnotations
      rw [parts.annotations] at held
      cases container : containerField services schema with
      | none =>
        rw [container] at held
        exact absurd held not_leaf_null
      | some c =>
        rw [container, elim_some] at held
        obtain ⟨below, inSpec, rfl⟩ := leaf_singleton.mp held
        obtain ⟨v, text⟩ := liftable.container c container
        refine ⟨.key c :: below, inSpec, ?_⟩
        rw [lifted, if_neg (liftable.not_labels text), if_pos container]
    · rw [parts.others field isLabels isAnnotations] at held
      exact absurd held not_leaf_null

/-- Every leaf of the spec is where it is lifted to. -/
theorem leaf_lifted {source : Path} (held : Leaf (.map spec) source leaf) :
    (∃ below, lifted services schema source = .key "spec" :: below ∧ Leaf (.map spec') below leaf) ∨
    (∃ below, lifted services schema source = .key "metadata" :: below ∧
      Leaf (.map metadata) below leaf) := by
  obtain ⟨field, rest, rfl, stored⟩ := leaf_map.mp held
  rw [lifted]
  split
  · rename_i isLabels
    refine .inr ⟨_, rfl, ?_⟩
    change Leaf (Value.get metadata "labels") rest leaf
    rwa [parts.labels, isLabels]
  · rename_i notLabels
    split
    · rename_i isContainer
      refine .inr ⟨_, rfl, ?_⟩
      change Leaf (Value.get metadata "annotations")
        (.key (containerKey field) :: rest) leaf
      rw [parts.annotations, isContainer, elim_some]
      exact leaf_singleton.mpr ⟨rest, stored, rfl⟩
    · rename_i notContainer
      split
      · rename_i isName
        obtain ⟨rfl, lifts⟩ := isName
        refine .inl ⟨_, rfl, ?_⟩
        change Leaf (Value.get spec' "resourceID") rest leaf
        rwa [parts.kept, if_neg (by simp), if_pos ⟨lifts, rfl⟩]
      · rename_i notName
        refine .inl ⟨_, rfl, ?_⟩
        change Leaf (Value.get spec' field) rest leaf
        have notResourceID : ¬ (liftsName schema = true ∧ field = "resourceID") := by
          rintro ⟨lifts, rfl⟩
          rw [liftable.free lifts] at stored
          exact not_leaf_null stored
        rwa [parts.kept, if_neg fun name => notName name.symm, if_neg notResourceID,
          if_neg (not_or.mpr ⟨notContainer, notLabels⟩)]

end LiftedParts

/-- The lifts succeed one after the other. -/
theorem lifts_ok (parts : Sections obj spec [] status) (liftable : Liftable services schema spec)
    (noNil : ∀ key, spec.lookup key ≠ some .null)
    (labelsNamed : getLabelsField schema = .ok (labelsField schema))
    (containerNamed : services.supportsHierarchicalReferences = false →
      getContainerFieldName schema = .ok (containerField services schema)) :
    ∃ krm spec' metadata, liftFields services schema obj = .ok krm ∧
      Sections krm spec' metadata status ∧ LiftedParts services schema spec spec' metadata := by
  obtain ⟨first, spec₁, metadata₁, done₁, parts₁, kept₁, meta₁⟩ :=
    labels_lifted parts labelsNamed noNil liftable.labels
  have container₁ : ∀ c, containerField services schema = some c →
      Value.get spec₁ c = Value.get spec c := by
    intro c isContainer
    obtain ⟨v, text⟩ := liftable.container c isContainer
    rw [kept₁, if_neg (liftable.not_labels text)]
  obtain ⟨second, spec₂, metadata₂, done₂, parts₂, kept₂, meta₂⟩ := container_lifted parts₁
    containerNamed (fun c isContainer => (liftable.container c isContainer).imp fun v text =>
      (container₁ c isContainer).trans text) (by rw [meta₁, if_neg (by decide)])
  have name₂ : liftsName schema = true → Value.get spec₂ "name" = Value.get spec "name" := by
    intro lifts
    obtain ⟨v, text⟩ := liftable.name lifts
    rw [kept₂, if_neg (liftable.notContainer lifts), kept₁, if_neg (liftable.not_labels text)]
  obtain ⟨krm, spec₃, done₃, parts₃, kept₃⟩ := name_lifted parts₂
    fun lifts => (liftable.name lifts).imp fun v text => (name₂ lifts).trans text
  refine ⟨krm, spec₃, metadata₂, ?_, parts₃, ?_⟩
  · rw [liftFields, done₁, wrapError_ok, ok_bind, done₂, ok_bind, done₃, wrapError_ok]
  constructor
  · intro key
    rw [kept₃]
    cases lifts : liftsName schema with
    | true =>
      by_cases isName : key = "name"
      · simp [isName]
      by_cases isID : key = "resourceID"
      · simp [isID, name₂ lifts]
      simp only [isName, isID, kept₂, kept₁, ↓reduceIte, and_false]
      split
      · simp [*]
      · simp [*]
    | false =>
      simp only [kept₂, kept₁, Bool.false_eq_true, ↓reduceIte, false_and]
      split
      · simp [*]
      · simp [*]
  · rw [meta₂, if_neg (by decide), meta₁, if_pos rfl]
  · rw [meta₂, if_pos rfl]
    cases isContainer : containerField services schema with
    | none => rfl
    | some c => rw [elim_some, elim_some, container₁ c isContainer]
  · intro key notLabels notAnnotations
    rw [meta₂, if_neg notAnnotations, meta₁, if_neg notLabels]

end Lifting

section Fitting

variable (services schema obj)

/-- The object holds a string that is in the spec under the same name. -/
def heldAsString (field : String) : Bool :=
  (plainSchema services schema field).any (fun s => s.type.isPrimitive) &&
  (Value.get obj field matches .string _)

/-- The schema of a map of primitive values. -/
def isPrimitiveMap (s : Schema) : Bool :=
  decide (s.type = .object) && s.additionalProperties.any fun inner => inner.type.isPrimitive

/-- The object holds labels, if any, that are in the spec under the same name. -/
def heldAsLabels (field : String) : Bool :=
  (plainSchema services schema field).any isPrimitiveMap &&
  match Value.get obj field with
  | .null => true
  | .map labels => isStrings labels
  | _ => false

/-- A DCL object that fits the entry schema of its resource. -/
structure Fits : Prop where
  object : schema.type = .object
  writable : schema.readOnly = false
  valid : wellFormed schema = true
  /-- No two properties are written under one key. -/
  distinct : distinctAtRoot services schema = true
  /-- The names of properties have no dots. -/
  plain : plainNames schema = true
  /-- The names that are reserved in the status leave room for the fields renamed. -/
  renamed : (schema.properties.map fun entry => statusFieldName entry.1).Nodup
  shape : shaped services (.map obj) true false schema = true
  labelsNamed : getLabelsField schema = .ok (labelsField schema)
  labels : ∀ l, labelsField schema = some l →
    l ∉ rootKeys services schema obj ∨ heldAsLabels services schema obj l = true
  containerNamed : services.supportsHierarchicalReferences = false →
    getContainerFieldName schema = .ok (containerField services schema)
  container : ∀ c, containerField services schema = some c →
    heldAsString services schema obj c = true
  name : liftsName schema = true → heldAsString services schema obj "name" = true ∧
    containerField services schema ≠ some "name" ∧
    "resourceID" ∉ rootKeys services schema obj

variable {services schema} {obj spec : Fields}

theorem Fits.rootSpec (fits : Fits services schema obj) :
    ∃ spec, RootSpec services schema obj spec := by
  have regular := regular_of_wellFormed fits.valid
  have shape := fits.shape
  have distinct := fits.distinct
  have object := fits.object
  obtain ⟨type, readOnly, extension, properties, additionalProperties, items⟩ := schema
  obtain rfl : type = .object := object
  cases additionalProperties with
  | some inner =>
    simp only [shaped, Bool.and_eq_true, decide_eq_true_eq, List.all_eq_true] at shape
    exact rootSpec_of_map (regular.additionalProperties inner rfl) distinct shape.1 shape.2
  | none =>
    simp only [shaped, Bool.and_eq_true, decide_eq_true_eq] at shape
    simp only [distinctAtRoot, Schema.additionalProperties, Schema.properties,
      Bool.and_eq_true] at distinct
    exact rootSpec_of_properties regular.properties
      (of_decide_eq_true distinct.1.1) (of_decide_eq_true distinct.1.2) distinct.2 shape.1.2
      shape.2

theorem convertToKRMSpec_primitive (primitive : s.type.isPrimitive)
    (val : Value) (path : List String) (coll : Bool) :
    convertToKRMSpec services val path coll s = .ok val := by
  obtain ⟨type, _, _, _, _, _⟩ := s
  cases type with
  | string | boolean | number | integer => rfl
  | object | array | other _ => cases primitive

theorem convertToKRMSpec_map {inner : Schema} (object : s.type = .object)
    (same : s.additionalProperties = some inner) (primitive : inner.type.isPrimitive)
    (obj : Fields) (path : List String) (coll : Bool) :
    convertToKRMSpec services (.map obj) path coll s = .ok (.map (collect obj)) := by
  obtain ⟨type, _, _, _, additionalProperties, _⟩ := s
  obtain rfl : type = .object := object
  obtain rfl : additionalProperties = some inner := same
  have each : ∀ entry : String × Value, (do
      let convertedVal ← convertToKRMSpec services entry.2 (path ++ [entry.1]) true inner
      return (entry.1, convertedVal)) = (.ok entry : Except Failure _) := by
    intro entry
    rw [convertToKRMSpec_primitive primitive]
    rfl
  rw [convertToKRMSpec, Fallible.mapM_eq_map each, List.map_id']
  rfl

theorem RootSpec.string (root : RootSpec services schema obj spec)
    (held : heldAsString services schema obj field) : ∃ v, Value.get spec field = .string v := by
  rw [heldAsString, Bool.and_eq_true, Option.any_eq_true] at held
  obtain ⟨⟨s, found, primitive⟩, isString⟩ := held
  obtain ⟨coll, converted⟩ := root.plain field s found
  rw [convertToKRMSpec_primitive primitive, Except.ok.injEq] at converted
  rw [← converted]
  split at isString
  · rename_i v held
    exact ⟨v, held⟩
  · cases isString

theorem RootSpec.labels (root : RootSpec services schema obj spec)
    (held : heldAsLabels services schema obj field) :
    Value.get spec field = .null ∨ ∃ m, Value.get spec field = .map m ∧ isStrings m := by
  rw [heldAsLabels, Bool.and_eq_true, Option.any_eq_true] at held
  obtain ⟨⟨s, found, isMap⟩, holds⟩ := held
  obtain ⟨coll, converted⟩ := root.plain field s found
  split at holds
  · rename_i nil
    rw [nil, convertToKRMSpec_null, Except.ok.injEq] at converted
    exact .inl converted.symm
  · rename_i labels stored
    rw [isPrimitiveMap, Bool.and_eq_true, decide_eq_true_eq, Option.any_eq_true] at isMap
    obtain ⟨object, inner, same, primitive⟩ := isMap
    rw [stored, convertToKRMSpec_map object same primitive, Except.ok.injEq] at converted
    refine .inr ⟨_, converted.symm, ?_⟩
    rw [isStrings, List.all_eq_true] at holds ⊢
    exact fun entry member => holds entry (mem_of_mem_collect member)
  · cases holds

theorem Fits.liftable (fits : Fits services schema obj) (root : RootSpec services schema obj spec) :
    Liftable services schema spec where
  labels l isLabels := by
    rcases fits.labels l isLabels with unknown | held
    · exact .inl (root.absent l unknown)
    · exact root.labels held
  container c isContainer := root.string (fits.container c isContainer)
  name lifts := root.string (fits.name lifts).1
  notContainer lifts := (fits.name lifts).2.1
  free lifts := root.absent _ (fits.name lifts).2.2

theorem below_storePart {part : String} (absent : obj.lookup part = none) (fields : Fields) :
    Below (storePart part fields obj) part fields := by
  cases fields with
  | nil => exact .inl ⟨absent, rfl⟩
  | cons entry rest => exact below_set obj part _

theorem lookup_storePart {part : String} (differ : key ≠ part) (fields : Fields) :
    (storePart part fields obj).lookup key = obj.lookup key := by
  rw [storePart]
  split
  · rfl
  · rw [lookup_set, if_neg differ]

/-- The object before the lifts. -/
theorem stored_sections (version kind : String) (spec status : Fields) :
    Sections (storePart "status" status (storePart "spec" spec
      [("apiVersion", .string version), ("kind", .string kind)])) spec [] status where
  spec := by
    rw [Below, lookup_storePart (by decide)]
    exact below_storePart rfl spec
  metadata := by
    left
    rw [lookup_storePart (by decide), lookup_storePart (by decide)]
    exact ⟨rfl, rfl⟩
  status := by
    apply below_storePart
    rw [lookup_storePart (by decide)]
    rfl
  others key unknown := by
    simp only [mem_cons, not_mem_nil, or_false, not_or] at unknown
    rw [lookup_storePart unknown.2.2.2.2, lookup_storePart unknown.2.2.1, lookup_cons,
      if_neg unknown.1, lookup_cons, if_neg unknown.2.1]
    rfl

theorem Fits.walkable (fits : Fits services schema obj) : Walkable services (.map obj) schema :=
  fun _ _ => ⟨true, fits.shape⟩

end Fitting

section Split

/-- Where the leaf at a path of the DCL object is in the Kubernetes object. -/
def destination (services : Services) (schema : Schema) (leaf : Value) (source : Path) : Path :=
  if throughReadOnly schema source then .key "status" :: statusPath source
  else lifted services schema (specPath services leaf true false schema source)

/-- A leaf of the object is a leaf of one of its parts. -/
theorem Sections.leaf_iff {krm spec metadata status : Fields}
    (parts : Sections krm spec metadata status) {target : Path} {leaf : Value}
    (unversioned : target.head? ≠ some (.key "apiVersion") ∧ target.head? ≠ some (.key "kind")) :
    Leaf (.map krm) target leaf ↔
      (∃ below, target = .key "spec" :: below ∧ Leaf (.map spec) below leaf) ∨
      (∃ below, target = .key "metadata" :: below ∧ Leaf (.map metadata) below leaf) ∨
      (∃ below, target = .key "status" :: below ∧ Leaf (.map status) below leaf) := by
  constructor
  · intro held
    obtain ⟨key, below, rfl, stored⟩ := leaf_map.mp held
    by_cases known : key ∈ ["apiVersion", "kind", "spec", "metadata", "status"]
    · simp only [mem_cons, not_mem_nil, or_false] at known
      rcases known with rfl | rfl | rfl | rfl | rfl
      · exact absurd rfl unversioned.1
      · exact absurd rfl unversioned.2
      · exact .inl ⟨below, rfl, (parts.spec.leaf_iff below leaf).mp held⟩
      · exact .inr (.inl ⟨below, rfl, (parts.metadata.leaf_iff below leaf).mp held⟩)
      · exact .inr (.inr ⟨below, rfl, (parts.status.leaf_iff below leaf).mp held⟩)
    · rw [Value.get, parts.others key known] at stored
      exact absurd stored not_leaf_null
  · rintro (⟨below, rfl, held⟩ | ⟨below, rfl, held⟩ | ⟨below, rfl, held⟩)
    · exact (parts.spec.leaf_iff below leaf).mpr held
    · exact (parts.metadata.leaf_iff below leaf).mpr held
    · exact (parts.status.leaf_iff below leaf).mpr held

/-- A DCL object without nil fields is converted, and its leaves are where they belong. -/
theorem convertObject_ok (fits : Fits services schema obj)
    (silent : mapsQuiet (.map obj) schema) (version kind : String) :
    ∃ krm, convertObject services schema obj
        [("apiVersion", .string version), ("kind", .string kind)] = .ok krm ∧
      ∀ target leaf,
        target.head? ≠ some (.key "apiVersion") ∧ target.head? ≠ some (.key "kind") →
        (Leaf (.map krm) target leaf ↔
          ∃ source, Leaf (.map obj) source leaf ∧
            destination services schema leaf source = target) := by
  obtain ⟨spec, root⟩ := fits.rootSpec
  obtain ⟨status, statusDone, statusLeaves⟩ := convertToKRMStatus_ok fits.valid fits.walkable
    fits.writable silent fits.plain fits.renamed
  have liftable := fits.liftable root
  obtain ⟨krm, spec', metadata, liftsDone, parts, liftedParts⟩ :=
    lifts_ok (stored_sections version kind spec status) liftable root.noNil fits.labelsNamed
      fits.containerNamed
  refine ⟨krm, ?_, ?_⟩
  · rw [convertObject, root.converted, wrapError_ok, ok_bind]
    dsimp only
    rw [ok_bind, statusDone, wrapError_ok, ok_bind, liftsDone]
  intro target leaf unversioned
  rw [parts.leaf_iff unversioned]
  -- the leaves that are not in the status are those of the spec, lifted
  have ofSpec : ∀ path, Leaf (.map spec) path leaf →
      lifted services schema path = target →
      ∃ source, Leaf (.map obj) source leaf ∧
        destination services schema leaf source = target := by
    intro path held isTarget
    obtain ⟨source, inObj, kept, rfl⟩ := (root.leaves path leaf).mp held
    exact ⟨source, inObj, by rw [destination, kept, if_neg (by simp), isTarget]⟩
  constructor
  · rintro (⟨below, rfl, held⟩ | ⟨below, rfl, held⟩ | ⟨below, rfl, held⟩)
    · obtain ⟨field, rest, rfl, stored⟩ := leaf_map.mp held
      obtain ⟨path, inSpec, isTarget⟩ := liftedParts.leaf_of_spec liftable stored
      exact ofSpec path inSpec isTarget
    · obtain ⟨field, rest, rfl, stored⟩ := leaf_map.mp held
      obtain ⟨path, inSpec, isTarget⟩ := liftedParts.leaf_of_metadata liftable stored
      exact ofSpec path inSpec isTarget
    · obtain ⟨source, inObj, through, rfl⟩ := (statusLeaves below leaf).mp held
      exact ⟨source, inObj, by rw [destination, if_pos through]⟩
  · rintro ⟨source, held, rfl⟩
    cases through : throughReadOnly schema source with
    | true =>
      rw [destination, if_pos through]
      exact .inr (.inr ⟨_, rfl, (statusLeaves _ leaf).mpr ⟨source, held, through, rfl⟩⟩)
    | false =>
      rw [destination, through, if_neg (by simp)]
      have inSpec := (root.leaves _ leaf).mpr ⟨source, held, through, rfl⟩
      rcases liftedParts.leaf_lifted liftable inSpec with ⟨below, same, stored⟩ |
        ⟨below, same, stored⟩
      · exact .inl ⟨below, same, stored⟩
      · exact .inr (.inl ⟨below, same, stored⟩)

theorem lifted_head (services : Services) (schema : Schema) (path : Path) :
    (lifted services schema path).head? ≠ some (.key "status") := by
  unfold lifted
  split
  · split
    · simp
    split
    · simp
    · split <;> simp
  · simp

theorem destination_status (leaf : Value) (source : Path) :
    (destination services schema leaf source).head? = some (.key "status") ↔
      throughReadOnly schema source := by
  rw [destination]
  cases through : throughReadOnly schema source with
  | true => simp
  | false => simp [lifted_head]

end Split

/-- Every leaf of a DCL object that fits its schema is at exactly one place in the Kubernetes
object: in the status if its path goes through a read-only property outside of collections,
and otherwise in the spec, in the labels, in the annotation of the container or in the
resource ID. The object has no other leaves but its version and kind. No map may have keys
that look like status fields of its elements. -/
theorem dcl_object_split (loaders : Loaders) (resource : DclResource)
    (gvk : Managed.GroupVersionKind) (services : Services) (schema : Schema)
    (kind : loaders.toGroupVersionKind resource.stv = .ok gvk)
    (metadata : loaders.getResourceWithGVK gvk = some services)
    (loaded : loaders.getDCLSchema resource.stv = some schema)
    (fits : Fits services schema (trimNilFields resource.object))
    (silent : mapsQuiet (.map (trimNilFields resource.object)) schema = true) :
    ∃ krm, dclObjectToKRMObject loaders resource = .ok krm ∧
      (∀ target leaf,
        target.head? ≠ some (.key "apiVersion") ∧ target.head? ≠ some (.key "kind") →
        (Leaf (.map krm) target leaf ↔
          ∃ source, Leaf (.map resource.object) source leaf ∧
            destination services schema leaf source = target)) ∧
      ∀ leaf source, (destination services schema leaf source).head? = some (.key "status") ↔
        throughReadOnly schema source = true := by
  obtain ⟨krm, done, leaves⟩ := convertObject_ok fits silent (apiVersion gvk) gvk.kind
  refine ⟨krm, ?_, ?_, destination_status⟩
  · rw [dclObjectToKRMObject, kind, wrapError_ok, ok_bind, metadata, loaded]
    dsimp only
    rw [if_neg (by simp [fits.object]), done]
  intro target leaf unversioned
  rw [leaves target leaf unversioned]
  simp only [leaf_trimNilFields]

section Instances

/-- A resource in a project, with labels, disks by name and fields that only the server sets. -/
def instanceSchema : Schema :=
  .mk .object false
    [("x-dcl-labels", .string "labels"), ("x-dcl-parent-container", .string "project")]
    [("name", stringSchema []),
      ("project", stringSchema (references ["Project"])),
      ("labels", .mk .object false [] [] (some (stringSchema [])) none),
      ("networkId", stringSchema (references ["Network"])),
      ("conditions", .mk .string true [] [] none none),
      ("disks", .mk .object false [] [] (some (.mk .object false []
        [("id", .mk .string true [] [] none none), ("size", .mk .integer false [] [] none none)]
        none none)) none),
      ("config", .mk .object false []
        [("zone", stringSchema []), ("uri", .mk .string true [] [] none none)] none none)]
    none none

/-- Services without hierarchical references. -/
def instanceServices : Services where
  getReferenceTypeConfigs _ := .ok []
  supportsHierarchicalReferences := false
  float64 := toString
  float64_exact n _ := printedNumber_toString n

def instanceLoaders : Loaders where
  toGroupVersionKind _ := .ok ⟨"compute.cnrm.cloud.google.com", "v1beta1", "ComputeInstance"⟩
  getResourceWithGVK _ := some instanceServices
  getDCLSchema _ := some instanceSchema

def bootInstance : DclResource where
  stv := ⟨"compute", "Instance", "beta"⟩
  object := [("name", .string "vm"), ("project", .string "p1"),
    ("labels", .map [("env", .string "prod")]), ("networkId", .string "default"),
    ("conditions", .string "running"), ("disks", .map [("boot", .map [("size", .int 10)])]),
    ("config", .map [("zone", .string "a"), ("uri", .string "u"), ("unset", .null)])]

/-- An instance with a disk called `id`. -/
def idInstance : DclResource where
  stv := ⟨"compute", "Instance", "beta"⟩
  object := [("name", .string "vm"), ("project", .string "p1"),
    ("disks", .map [("id", .map [("size", .int 10)])])]

theorem instance_fits : ∀ resource ∈ [bootInstance, idInstance],
    Fits instanceServices instanceSchema (trimNilFields resource.object) := by
  intro resource known
  have labels : labelsField instanceSchema = some "labels" := by decide
  have container : containerField instanceServices instanceSchema = some "project" := by decide
  simp only [mem_cons, not_mem_nil, or_false] at known
  rcases known with rfl | rfl
  all_goals
    refine ⟨rfl, rfl, by decide, by decide, by decide, by decide, by decide, rfl, ?_, fun _ => rfl,
      ?_, fun _ => ⟨by decide, by decide, by decide⟩⟩
    · intro l isLabels
      cases labels.symm.trans isLabels
      exact .inr (by decide)
    intro c isContainer
    cases container.symm.trans isContainer
    decide

theorem dcl_object_split_instance :
    Fits instanceServices instanceSchema (trimNilFields bootInstance.object) ∧
    mapsQuiet (.map (trimNilFields bootInstance.object)) instanceSchema = true ∧
    ∃ krm, dclObjectToKRMObject instanceLoaders bootInstance = .ok krm ∧
      (∀ target leaf,
        target.head? ≠ some (.key "apiVersion") ∧ target.head? ≠ some (.key "kind") →
        (Leaf (.map krm) target leaf ↔
          ∃ source, Leaf (.map bootInstance.object) source leaf ∧
            destination instanceServices instanceSchema leaf source = target)) ∧
      ∀ leaf source,
        (destination instanceServices instanceSchema leaf source).head? = some (.key "status") ↔
          throughReadOnly instanceSchema source = true :=
  ⟨instance_fits bootInstance (by simp), by decide,
    dcl_object_split instanceLoaders bootInstance _ instanceServices instanceSchema rfl rfl rfl
      (instance_fits bootInstance (by simp)) (by decide)⟩

theorem not_leaf_disk {path : Path} {text : String} :
    ¬ Leaf (.map [("id", .map [("size", .int 10)])]) path (.string text) := by
  intro held
  obtain ⟨inDisk, ofDisk, -⟩ := leaf_singleton.mp held
  obtain ⟨inSize, ofSize, -⟩ := leaf_singleton.mp ofDisk
  exact absurd ((leaf_scalar rfl).mp ofSize).2 (by simp)

/-- The disk that a user called `id` is in the spec and in the status, though its path goes
through no read-only property; and the project is in neither of them, but in an annotation. -/
theorem disk_taken_for_property :
    Fits instanceServices instanceSchema (trimNilFields idInstance.object) ∧
    throughReadOnly instanceSchema [.key "disks", .key "id", .key "size"] = false ∧
    ∃ krm, dclObjectToKRMObject instanceLoaders idInstance = .ok krm ∧
      Leaf (.map krm) [.key "spec", .key "disks", .key "id", .key "size"] (.int 10) ∧
      Leaf (.map krm) [.key "status", .key "disks", .key "id", .key "size"] (.int 10) ∧
      Leaf (.map idInstance.object) [.key "project"] (.string "p1") ∧
      (∀ path, ¬ Leaf (Value.get krm "spec") path (.string "p1")) ∧
      (∀ path, ¬ Leaf (Value.get krm "status") path (.string "p1")) ∧
      Leaf (.map krm) [.key "metadata", .key "annotations",
        .key "cnrm.cloud.google.com/project-id"] (.string "p1") := by
  refine ⟨instance_fits idInstance (by simp), by decide, _, rfl, ⟨rfl, rfl⟩, ⟨rfl, rfl⟩, ⟨rfl, rfl⟩,
    ?_, ?_, ⟨rfl, rfl⟩⟩
  · intro path held
    change Leaf (.map [("disks", .map [("id", .map [("size", .int 10)])]),
      ("resourceID", .string "vm")]) path (.string "p1") at held
    obtain ⟨name, below, rfl, stored⟩ := leaf_map.mp held
    rw [get_cons] at stored
    split at stored
    · exact not_leaf_disk stored
    rw [get_cons] at stored
    split at stored
    · exact absurd (leaf_scalar rfl |>.mp stored).2 (by simp)
    · exact not_leaf_null stored
  · intro path held
    obtain ⟨below, stored, -⟩ := leaf_singleton.mp held
    exact not_leaf_disk stored

end Instances

end ConfigConnector.Dcl
