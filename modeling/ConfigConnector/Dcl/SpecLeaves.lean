import ConfigConnector.Dcl.FieldRoundTrip
import ConfigConnector.K8s.Leaves

/- Where the leaves of an object of the DCL are in the spec. -/
namespace ConfigConnector.Dcl

open K8s Value List Fallible Dict Bool

variable {properties : Properties} {s : Schema} {atRoot readOnly : Bool} {obj extension : Fields}
  {val : Value} {items : List Value} {additionalProperties itemSchema : Option Schema}
  (services : Services)

section Paths

mutual

/-- The path goes through a property that is read-only. What is in a map or an array is part
of its value. -/
def throughReadOnly : Schema → Path → Bool
  | .mk .object _ _ properties none _, .key name :: rest => throughReadOnlyIn name rest properties
  | _, _ => false

def throughReadOnlyIn (name : String) (rest : Path) : Properties → Bool
  | [] => false
  | (field, s) :: others =>
    if field = name then s.readOnly || throughReadOnly s rest
    else throughReadOnlyIn name rest others

end

/-- The key of a parent in the spec, by the prefix of its value. -/
def parentKey (s : Schema) : Value → String
  | .string v =>
    match recognizeParent v (parentTypes services s) with
    | .ok (some tc) => tc.key
    | _ => ""
  | _ => ""

/-- A container that stays what it is, since the resource does not support hierarchical
references. -/
def isPlainContainer (atRoot : Bool) (field : String) : Bool :=
  atRoot && isContainerField [field] && !services.supportsHierarchicalReferences

/-- The path in the spec of a leaf of the property `field`, where `rest` is its path in the
value of the property, and `plain` the path in a value that is converted as it is. -/
def fieldPath (leaf : Value) (atRoot coll : Bool)
    (field : String) (s : Schema) (rest plain : Path) : Path :=
  match role coll s with
  | .skipped => []
  | .sensitive => .key field :: .key "value" :: rest
  | .plain => .key field :: plain
  | .reference =>
    if isPlainContainer services atRoot field then .key field :: plain
    else if atRoot && field == "parent" then
      .key (parentKey services s leaf) :: .key "external" :: rest
    else if s.type = .array then
      match rest with
      | position :: rest => .key field :: position :: .key "external" :: rest
      | [] => []
    else .key (referenceKey field s) :: .key "external" :: rest

mutual

/-- The path in the spec of the leaf at a path of the DCL object. -/
def specPath (leaf : Value) (atRoot coll : Bool) : Schema → Path → Path
  | .mk .object _ _ _ (some inner) _, first :: rest =>
    first :: specPath leaf false true inner rest
  | .mk .object _ _ properties none _, .key name :: rest =>
    specPathIn leaf atRoot coll name rest properties
  | .mk .array _ _ _ _ (some inner), first :: rest =>
    first :: specPath leaf atRoot true inner rest
  | _, path => path

def specPathIn (leaf : Value) (atRoot coll : Bool) (name : String) (rest : Path) : Properties → Path
  | [] => []
  | (field, s) :: others =>
    if field = name then
      fieldPath services leaf atRoot coll field s rest
        (specPath leaf false coll s rest)
    else specPathIn leaf atRoot coll name rest others

end

theorem throughReadOnlyIn_eq (name : String) (rest : Path) (properties : Properties) :
    throughReadOnlyIn name rest properties =
      ((properties.lookup name).map fun s => s.readOnly || throughReadOnly s rest).getD false := by
  apply eq_lookup
  · rw [throughReadOnlyIn]
  · intro field s others
    rw [throughReadOnlyIn]

/-- A path through a read-only property begins at a property. -/
theorem throughReadOnly_cases {path : Path} (through : throughReadOnly s path) :
    ∃ name rest inner, path = .key name :: rest ∧ s.type = .object ∧
      s.additionalProperties = none ∧ s.properties.lookup name = some inner ∧
      (inner.readOnly || throughReadOnly inner rest) := by
  unfold throughReadOnly at through
  split at through
  · rename_i properties _ name rest
    rw [throughReadOnlyIn_eq] at through
    cases found : properties.lookup name with
    | none =>
      rw [found] at through
      cases through
    | some inner =>
      rw [found] at through
      exact ⟨name, rest, inner, rfl, rfl, rfl, found, through⟩
  · cases through

theorem specPathIn_eq (leaf : Value) (coll : Bool) (name : String) (rest : Path)
    (properties : Properties) :
    specPathIn services leaf atRoot coll name rest properties =
      ((properties.lookup name).map fun s => fieldPath services leaf atRoot coll name s rest
        (specPath services leaf false coll s rest)).getD [] := by
  apply eq_lookup
  · rw [specPathIn]
  intro field s others
  rw [specPathIn]
  split
  · rename_i here
    rw [here]
  · rfl

theorem throughReadOnly_of_not_object (notObject : s.type ≠ .object) (path : Path) :
    throughReadOnly s path = false := by
  obtain ⟨type, _, _, _, additionalProperties, _⟩ := s
  cases type with
  | object => exact absurd rfl notObject
  | array | string | boolean | number | integer | other _ =>
    rw [throughReadOnly]
    simp

end Paths

section Shapes

/-- The keys under which a property of a DCL object can be written to the spec. -/
def writtenKeys (atRoot coll : Bool) (field : String) (s : Schema) : List String :=
  if role coll s = .reference ∧ isPlainContainer services atRoot field then [field]
  else specKeys services atRoot coll field s

def allWrittenKeys (atRoot coll : Bool) (properties : Properties) : List String :=
  properties.flatMap fun entry => writtenKeys services atRoot coll entry.1 entry.2

/-- What a DCL object holds for a reference: a parent has the prefix of one of its types, and
a list of references is a list. A reference is not an object. -/
def referenceShaped (atRoot : Bool) (field : String) (s : Schema) (val : Value) : Bool :=
  decide (s.type ≠ .object) &&
  if atRoot && field == "parent" then
    (services.getReferenceTypeConfigs s matches .ok _) &&
    match val with
    | .string v => v != "" && (recognizeParent v (parentTypes services s) matches .ok (some _))
    | _ => false
  else s.type ≠ .array || (val matches .list _)

/-- What a DCL object holds for a property, where `plain` says that the value has the shape
that the schema of the property asks for. -/
def fieldShaped (atRoot coll : Bool) (field : String)
    (s : Schema) (val : Value) (plain : Bool) : Bool :=
  val.isNil ||
  match role coll s with
  | .skipped | .sensitive => true
  | .reference =>
    if isPlainContainer services atRoot field then decide (s.type ≠ .object) && plain
    else referenceShaped services atRoot field s val
  | .plain => plain

mutual

/-- The value has objects and arrays where the schema asks for them, and its objects have no
properties that the schema does not know. -/
def shaped (val : Value) (atRoot coll : Bool) : Schema → Bool
  | .mk .object _ _ _ (some inner) _ =>
    match val with
    | .null => true
    | .map obj => decide (obj.map (·.1)).Nodup &&
        obj.all fun entry => shaped entry.2 false true inner
    | _ => false
  | .mk .object _ _ properties none _ =>
    match val with
    | .null => true
    | .map obj => decide (obj.map (·.1)).Nodup &&
        obj.all (fun entry => (properties.map (·.1)).contains entry.1) &&
        propertiesShaped obj atRoot coll properties
    | _ => false
  | .mk .array _ _ _ _ (some inner) =>
    match val with
    | .null => true
    | .list items => items.all fun item => shaped item atRoot true inner
    | _ => false
  | .mk .array _ _ _ _ none => isBlank val
  | .mk .string _ _ _ _ _ | .mk .boolean _ _ _ _ _ | .mk .number _ _ _ _ _
  | .mk .integer _ _ _ _ _ => true
  | .mk (.other _) _ _ _ _ _ => val.isNil

def propertiesShaped (obj : Fields) (atRoot coll : Bool) : Properties → Bool
  | [] => true
  | (field, s) :: rest =>
    fieldShaped services atRoot coll field s (Value.get obj field)
      (shaped (Value.get obj field) false coll s) &&
    propertiesShaped obj atRoot coll rest

end

theorem propertiesShaped_iff (obj : Fields) (atRoot coll : Bool) (properties : Properties) :
    propertiesShaped services obj atRoot coll properties ↔ ∀ entry ∈ properties,
      fieldShaped services atRoot coll entry.1 entry.2 (Value.get obj entry.1)
        (shaped services (Value.get obj entry.1) false coll entry.2) := by
  induction properties with
  | nil => simp [propertiesShaped]
  | cons entry rest ih => rw [propertiesShaped, and_eq_true, ih, forall_mem_cons]

end Shapes

section Properties

variable (services : Services) (path : List String) (coll : Bool)

/-- The property is converted, under a key of its own, and what it writes has the leaves of
its value, except for those that belong to the status. -/
def Yields (obj : Fields) (entry : String × Schema) : Prop :=
  ∃ key val, propertyToKRM services path coll obj entry = .ok (key, val) ∧
    (val ≠ .null → key ∈ writtenKeys services path.isEmpty coll entry.1 entry.2) ∧
    ∀ target leaf, (∃ below, target = .key key :: below ∧ Leaf val below leaf) ↔
      ∃ rest, Leaf (Value.get obj entry.1) rest leaf ∧
        (!coll && (entry.2.readOnly || throughReadOnly entry.2 rest)) = false ∧
        fieldPath services leaf path.isEmpty coll entry.1 entry.2 rest
          (specPath services leaf false coll entry.2 rest) = target

/-- The value is converted, and the result has its leaves, except for those that belong to
the status. -/
def Carried (s : Schema) (val : Value) : Prop :=
  ∃ result, convertToKRMSpec services val path coll s = .ok result ∧
    ∀ target leaf, Leaf result target leaf ↔
      ∃ source, Leaf val source leaf ∧ (!coll && throughReadOnly s source) = false ∧
        specPath services leaf path.isEmpty coll s source = target

variable {services path coll}

theorem carried_null (s : Schema) : Carried services path coll s .null := by
  refine ⟨.null, convertToKRMSpec_null services path coll s, ?_⟩
  intro target leaf
  constructor
  · exact fun held => absurd held not_leaf_null
  · rintro ⟨source, held, -⟩
    exact absurd held not_leaf_null

/-- The properties are converted, and the spec has what each of them writes. -/
theorem properties_collected (keys : (allWrittenKeys services path.isEmpty coll properties).Nodup)
    (each : ∀ entry ∈ properties, Yields services path coll obj entry) :
    ∃ results, convertPropertiesToKRM services obj path coll properties = .ok results ∧
      ∀ key val, val ≠ .null → (Value.get (collect results) key = val ↔
        ∃ entry ∈ properties, propertyToKRM services path coll obj entry = .ok (key, val)) := by
  have converts : ∀ entry ∈ properties, ∃ result,
      propertyToKRM services path coll obj entry = .ok result := by
    intro entry member
    obtain ⟨key, val, done, -⟩ := each entry member
    exact ⟨_, done⟩
  obtain ⟨results, done⟩ := mapM_ok converts
  have belongs : ∀ entry ∈ properties, ∀ key val,
      propertyToKRM services path coll obj entry = .ok (key, val) → val ≠ .null →
        key ∈ writtenKeys services path.isEmpty coll entry.1 entry.2 := by
    intro entry member key val here present
    obtain ⟨key', val', there, belongs, -⟩ := each entry member
    cases here.symm.trans there
    exact belongs present
  refine ⟨results, by rw [convertPropertiesToKRM_eq, done], ?_⟩
  intro key val present
  exact get_collect_iff done keys belongs key present

/-- An object is carried if its properties yield. -/
theorem object_carried {results : Fields} (names : (properties.map (·.1)).Nodup)
    (known : (obj.all fun entry => (properties.map (·.1)).contains entry.1) = true)
    (each : ∀ entry ∈ properties, Yields services path coll obj entry)
    (collected : ∀ key val, val ≠ .null → (Value.get (collect results) key = val ↔
      ∃ entry ∈ properties, propertyToKRM services path coll obj entry = .ok (key, val)))
    (target : Path) (leaf : Value) :
    Leaf (.map (collect results)) target leaf ↔
      ∃ source, Leaf (.map obj) source leaf ∧
        (!coll && throughReadOnly
          (.mk .object readOnly extension properties none itemSchema) source) = false ∧
        specPath services leaf path.isEmpty coll
          (.mk .object readOnly extension properties none itemSchema) source = target := by
  constructor
  · intro held
    obtain ⟨key, below, rfl, stored⟩ := leaf_map.mp held
    have present : Value.get (collect results) key ≠ .null := by
      intro nil
      rw [nil] at stored
      exact not_leaf_null stored
    obtain ⟨⟨field, s⟩, member, here⟩ := (collected key _ present).mp rfl
    obtain ⟨key', val, there, -, leaves⟩ := each _ member
    cases here.symm.trans there
    obtain ⟨rest, inValue, kept, placed⟩ := (leaves _ leaf).mp ⟨below, rfl, stored⟩
    refine ⟨.key field :: rest, inValue, ?_, ?_⟩
    · rw [throughReadOnly, throughReadOnlyIn_eq, lookup_of_mem names member]
      exact kept
    · rw [specPath, specPathIn_eq, lookup_of_mem names member]
      exact placed
  · rintro ⟨source, held, kept, placed⟩
    obtain ⟨field, rest, rfl, inValue⟩ := leaf_map.mp held
    have isKnown : field ∈ properties.map (·.1) := by
      by_contra unknown
      rw [get_unknown known field unknown] at inValue
      exact not_leaf_null inValue
    obtain ⟨⟨name, s⟩, member, rfl⟩ := mem_map.mp isKnown
    rw [throughReadOnly, throughReadOnlyIn_eq, lookup_of_mem names member] at kept
    rw [specPath, specPathIn_eq, lookup_of_mem names member] at placed
    obtain ⟨key, val, here, -, leaves⟩ := each _ member
    obtain ⟨below, rfl, stored⟩ := (leaves target leaf).mpr ⟨rest, inValue, kept, placed⟩
    apply leaf_map.mpr
    refine ⟨key, below, rfl, ?_⟩
    have present : val ≠ .null := by
      rintro rfl
      exact not_leaf_null stored
    rw [(collected key val present).mpr ⟨_, member, here⟩]
    exact stored

end Properties

variable {services : Services} {path : List String} {coll : Bool}

section Fields

variable {obj : Fields} {field : String} {s : Schema}

theorem yields_of_nil (nil : Value.get obj field = .null) :
    Yields services path coll obj (field, s) := by
  refine ⟨field, .null, fieldToKRM_nil nil _, fun present => absurd rfl present, ?_⟩
  intro target leaf
  constructor
  · rintro ⟨below, rfl, held⟩
    exact absurd held not_leaf_null
  · rintro ⟨rest, held, -⟩
    rw [nil] at held
    exact absurd held not_leaf_null

/-- A property that is written as a whole, where `place` is the path below its key. -/
theorem whole_yields (key : String) (place : Path → Path)
    (notReadOnly : s.readOnly = false) (notObject : s.type ≠ .object)
    (done : propertyToKRM services path coll obj (field, s) = .ok (key, val))
    (belongs : key ∈ writtenKeys services path.isEmpty coll field s)
    (placed : ∀ rest leaf plain, Leaf (Value.get obj field) rest leaf →
      fieldPath services leaf path.isEmpty coll field s rest plain = .key key :: place rest)
    (leaves : ∀ below leaf, Leaf val below leaf ↔
      ∃ rest, Leaf (Value.get obj field) rest leaf ∧ place rest = below) :
    Yields services path coll obj (field, s) := by
  refine ⟨key, val, done, fun _ => belongs, ?_⟩
  intro target leaf
  have kept : ∀ rest, (!coll && (s.readOnly || throughReadOnly s rest)) = false := by
    intro rest
    rw [notReadOnly, throughReadOnly_of_not_object notObject]
    simp
  constructor
  · rintro ⟨below, rfl, held⟩
    obtain ⟨rest, inValue, rfl⟩ := (leaves below leaf).mp held
    exact ⟨rest, inValue, kept rest, placed rest leaf _ inValue⟩
  · rintro ⟨rest, inValue, -, rfl⟩
    rw [placed rest leaf _ inValue]
    exact ⟨place rest, rfl, (leaves _ leaf).mpr ⟨rest, inValue, rfl⟩⟩

/-- Only strings are sensitive. -/
theorem Regular.not_object_of_sensitive (regular : Regular s) (flagged : isSensitive s) :
    s.type ≠ .object := by
  intro object
  have found := regular.sensitive
  rw [isSensitiveField] at found
  split at found
  · rename_i absent
    simp [isSensitive, hasFlag, absent] at flagged
  · rw [if_pos (by simp [object])] at found
    cases found

/-- The path below the key of a list of references. -/
def afterPosition : Path → Path
  | position :: rest => position :: .key "external" :: rest
  | [] => []

theorem leaf_externals {below : Path} {leaf : Value} :
    Leaf (.list (items.map fun item => .map [("external", item)])) below leaf ↔
      ∃ rest, Leaf (.list items) rest leaf ∧ afterPosition rest = below := by
  have item_at : ∀ position inItem,
      Leaf ((items.map fun item => Value.map [("external", item)]).getD position .null)
        inItem leaf ↔
        ∃ rest, Leaf (items.getD position .null) rest leaf ∧ .key "external" :: rest = inItem := by
    intro position inItem
    rw [getD_eq_getElem?_getD, getD_eq_getElem?_getD, List.getElem?_map]
    cases items[position]? with
    | some item => exact leaf_singleton
    | none =>
      constructor
      · exact fun held => absurd held not_leaf_null
      · rintro ⟨rest, held, -⟩
        exact absurd held not_leaf_null
  rw [leaf_list]
  constructor
  · rintro ⟨position, inItem, rfl, held⟩
    obtain ⟨rest, inValue, rfl⟩ := (item_at position inItem).mp held
    exact ⟨.index position :: rest, inValue, rfl⟩
  · rintro ⟨rest, held, rfl⟩
    obtain ⟨position, inItem, rfl, inValue⟩ := leaf_list.mp held
    exact ⟨position, _, rfl, (item_at position _).mpr ⟨inItem, inValue, rfl⟩⟩

/-- A property whose value is converted as it is. -/
theorem plain_yields (notSkipped : (s.readOnly && !coll) = false)
    (done : ∀ converted, fieldToKRM services obj path coll field s converted = do
      return (field, ← wrapError ("error resolving the value for DCL field " ++ field) converted))
    (belongs : field ∈ writtenKeys services path.isEmpty coll field s)
    (placed : ∀ leaf rest plain, fieldPath services leaf path.isEmpty coll field s rest plain =
      .key field :: plain)
    (inner : Carried services (path ++ [field]) coll s (Value.get obj field)) :
    Yields services path coll obj (field, s) := by
  obtain ⟨result, converts, leaves⟩ := inner
  refine ⟨field, result, ?_, fun _ => belongs, ?_⟩
  · rw [propertyToKRM, done, converts]
    rfl
  have below : (path ++ [field]).isEmpty = false := by simp
  have kept : ∀ rest, (!coll && (s.readOnly || throughReadOnly s rest)) =
      (!coll && throughReadOnly s rest) := by
    intro rest
    cases coll <;> simp_all
  intro target leaf
  rw [below] at leaves
  constructor
  · rintro ⟨below, rfl, held⟩
    obtain ⟨rest, inValue, keptBelow, rfl⟩ := (leaves below leaf).mp held
    exact ⟨rest, inValue, by rw [kept, keptBelow], placed leaf rest _⟩
  · rintro ⟨rest, inValue, keptHere, rfl⟩
    rw [placed]
    refine ⟨_, rfl, (leaves _ leaf).mpr ⟨rest, inValue, ?_, rfl⟩⟩
    rw [← kept, keptHere]

theorem parent_yields (regular : Regular s) (isRef : role coll s = .reference)
    (atRoot : path.isEmpty) (notObject : s.type ≠ .object)
    (types : services.getReferenceTypeConfigs s = .ok (parentTypes services s)) {v : String}
    {tc : TypeConfig} (held : Value.get obj "parent" = .string v) (nonempty : v ≠ "")
    (recognized : recognizeParent v (parentTypes services s) = .ok (some tc))
    (member : tc ∈ parentTypes services s) : Yields services path coll obj ("parent", s) := by
  have isParent : isMultiTypeParentReferenceField (path ++ ["parent"]) := by
    simp [isMultiTypeParentReferenceField_concat, atRoot]
  have notContainer : isPlainContainer services path.isEmpty "parent" = false := by
    have : isContainerField ["parent"] = false := by decide
    simp [isPlainContainer, this]
  have converted : convertReferenceFieldToKRM services (path ++ ["parent"])
      (Value.get obj "parent") s = .ok (tc.key, .map [("external", .string v)]) := by
    rw [convertReferenceFieldToKRM, if_pos isParent, convertMultiTypeParentReferenceFieldToKRM,
      types, wrapError_ok, ok_bind, held]
    dsimp only
    rw [if_neg nonempty, recognized]
    rfl
  apply whole_yields tc.key (fun rest => .key "external" :: rest) (of_reference isRef).1 notObject
  · rw [propertyToKRM, fieldToKRM_eq regular _ (by rw [held]; rfl), isRef, isContainerField_concat]
    rw [← isPlainContainer, notContainer, converted]
    rfl
  · have inKeys : tc.key ∈ (parentTypes services s).map (·.key) := mem_map_of_mem member
    have keys : writtenKeys services path.isEmpty coll "parent" s =
        (parentTypes services s).map (·.key) := by
      rw [writtenKeys, notContainer, if_neg (by simp), specKeys, isRef, atRoot]
      rfl
    rwa [keys]
  · intro rest leaf plain inValue
    rw [held, leaf_scalar rfl] at inValue
    rw [inValue.2]
    unfold fieldPath
    rw [isRef, notContainer, atRoot]
    simp [parentKey, recognized]
  · intro below leaf
    rw [held]
    exact leaf_singleton

/-- A parent that is recognized is one of the types. -/
theorem mem_of_recognizeParent {v : String} {tcs : List TypeConfig} {tc : TypeConfig}
    (recognized : recognizeParent v tcs = .ok (some tc)) : tc ∈ tcs := by
  induction tcs with
  | nil => cases recognized
  | cons first rest ih =>
    rw [recognizeParent, bind_eq_ok] at recognized
    obtain ⟨start, -, recognized⟩ := recognized
    split at recognized
    · cases recognized
      exact .head _
    · exact .tail _ (ih recognized)

/-- What `referenceShaped` says of a parent. -/
theorem parent_of_shaped (shape : referenceShaped services true "parent" s val) :
    services.getReferenceTypeConfigs s = .ok (parentTypes services s) ∧
      ∃ v tc, val = .string v ∧ v ≠ "" ∧
        recognizeParent v (parentTypes services s) = .ok (some tc) := by
  simp only [referenceShaped, Bool.true_and, beq_self_eq_true, ↓reduceIte, and_eq_true] at shape
  obtain ⟨-, types, held⟩ := shape
  constructor
  · rw [parentTypes]
    cases configs : services.getReferenceTypeConfigs s with
    | ok tcs => rfl
    | error failure => simp [configs] at types
  · split at held
    · rename_i v
      rw [and_eq_true] at held
      obtain ⟨nonempty, recognized⟩ := held
      split at recognized
      · rename_i tc found
        exact ⟨v, tc, rfl, by simpa using nonempty, found⟩
      · cases recognized
    · cases held

section Present

variable (regular : Regular s) (present : (Value.get obj field).isNil = false)
include regular present

theorem skipped_yields (skipped : role coll s = .skipped) :
    Yields services path coll obj (field, s) := by
  refine ⟨field, .null, ?_, fun present => absurd rfl present, ?_⟩
  · rw [propertyToKRM, fieldToKRM_eq regular _ present, skipped]
  intro target leaf
  constructor
  · rintro ⟨below, rfl, held⟩
    exact absurd held not_leaf_null
  · rintro ⟨rest, -, kept, -⟩
    have inStatus := role_spec coll s
    rw [skipped] at inStatus
    simp [inStatus.1, inStatus.2] at kept

theorem sensitive_yields (sensitive : role coll s = .sensitive) :
    Yields services path coll obj (field, s) := by
  have spec := role_spec coll s
  rw [sensitive] at spec
  apply whole_yields field (fun rest => .key "value" :: rest) spec.1
    (regular.not_object_of_sensitive spec.2)
  · rw [propertyToKRM, fieldToKRM_eq regular _ present, sensitive]
  · simp [writtenKeys, specKeys, sensitive]
  · intro rest leaf plain _
    unfold fieldPath
    rw [sensitive]
  · intro below leaf
    exact leaf_singleton

variable (isRef : role coll s = .reference)
  (notContainer : isPlainContainer services path.isEmpty field = false)
include isRef notContainer

theorem regularReference_yields (notParent : (path.isEmpty && field == "parent") = false)
    (notArray : s.type ≠ .array) (notObject : s.type ≠ .object) :
    Yields services path coll obj (field, s) := by
  have single := (isMultiTypeParentReferenceField_concat path field).trans notParent
  apply whole_yields (referenceKey field s) (fun rest => .key "external" :: rest)
    (of_reference isRef).1 notObject
  · rw [propertyToKRM, fieldToKRM_eq regular _ present, isRef, isContainerField_concat]
    rw [← isPlainContainer, notContainer,
      regularReferenceToKRM regular (of_reference isRef).2 single notArray]
    rfl
  · simp [writtenKeys, specKeys, isRef, notContainer, notParent]
  · intro rest leaf plain _
    unfold fieldPath
    rw [isRef, notContainer, notParent]
    simp [notArray]
  · intro below leaf
    exact leaf_singleton

theorem listOfReferences_yields (notParent : (path.isEmpty && field == "parent") = false)
    (array : s.type = .array) (held : Value.get obj field = .list items) :
    Yields services path coll obj (field, s) := by
  have single := (isMultiTypeParentReferenceField_concat path field).trans notParent
  apply whole_yields field afterPosition (of_reference isRef).1 (by simp [array])
  · rw [propertyToKRM, fieldToKRM_eq regular _ present, isRef, isContainerField_concat]
    rw [← isPlainContainer, notContainer, held,
      listOfReferencesToKRM regular (of_reference isRef).2 single array]
    rfl
  · simp [writtenKeys, specKeys, isRef, notContainer, notParent, referenceKey, array]
  · intro rest leaf plain inValue
    rw [held] at inValue
    obtain ⟨position, inItem, rfl, -⟩ := leaf_list.mp inValue
    unfold fieldPath
    rw [isRef, notContainer, notParent]
    simp [array, afterPosition]
  · intro below leaf
    rw [held]
    exact leaf_externals

theorem reference_yields
    (shape : referenceShaped services path.isEmpty field s (Value.get obj field)) :
    Yields services path coll obj (field, s) := by
  have notObject : s.type ≠ .object := by
    simp only [referenceShaped, and_eq_true, decide_eq_true_eq] at shape
    exact shape.1
  by_cases isParent : (path.isEmpty && field == "parent") = true
  · rw [and_eq_true, beq_iff_eq] at isParent
    obtain ⟨atRoot, rfl⟩ := isParent
    rw [atRoot] at shape
    obtain ⟨types, v, tc, held, nonempty, recognized⟩ := parent_of_shaped shape
    exact parent_yields regular isRef atRoot notObject types held nonempty recognized
      (mem_of_recognizeParent recognized)
  · rw [not_eq_true] at isParent
    by_cases array : s.type = .array
    · simp only [referenceShaped, isParent, array, and_eq_true] at shape
      have isList := shape.2
      simp only [false_eq_true, ↓reduceIte, ne_eq, not_true_eq_false, decide_false,
        Bool.false_or] at isList
      split at isList
      · rename_i items held
        exact listOfReferences_yields regular present isRef notContainer isParent array held
      · cases isList
    · exact regularReference_yields regular present isRef notContainer isParent array notObject

end Present

/-- Every property yields if its plain value is carried. -/
theorem field_yields (regular : Regular s) {plain : Bool}
    (shape : fieldShaped services path.isEmpty coll field s (Value.get obj field) plain)
    (inner : plain → Carried services (path ++ [field]) coll s (Value.get obj field)) :
    Yields services path coll obj (field, s) := by
  cases present : (Value.get obj field).isNil with
  | true => exact yields_of_nil ((isNil_iff _).mp present)
  | false =>
    rw [fieldShaped, present, Bool.false_or] at shape
    have spec := role_spec coll s
    cases treated : role coll s with
    | skipped => exact skipped_yields regular present treated
    | sensitive => exact sensitive_yields regular present treated
    | reference =>
      rw [treated] at shape
      cases container : isPlainContainer services path.isEmpty field with
      | false =>
        rw [container] at shape
        exact reference_yields regular present treated container shape
      | true =>
        simp only [container, ↓reduceIte, and_eq_true] at shape
        rw [treated] at spec
        apply plain_yields (by simp [spec.1]) _ _ _ (inner shape.2)
        · intro converted
          rw [fieldToKRM_eq regular _ present, treated, isContainerField_concat]
          rw [← isPlainContainer, container]
          rfl
        · simp [writtenKeys, treated, container]
        · intro leaf rest plain
          unfold fieldPath
          rw [treated, container]
          rfl
    | plain =>
      rw [treated] at shape spec
      apply plain_yields spec _ _ _ (inner shape)
      · intro converted
        rw [fieldToKRM_eq regular _ present, treated]
      · simp [writtenKeys, specKeys, treated]
      · intro leaf rest plain
        unfold fieldPath
        rw [treated]

end Fields

section Values

/-- A map is carried if its entries are. -/
theorem map_carried {inner : Schema} (nodup : (obj.map (·.1)).Nodup)
    (each : ∀ entry ∈ obj, Carried services (path ++ [entry.1]) true inner entry.2) :
    ∃ results, convertToKRMSpec services (.map obj) path coll
        (.mk .object readOnly extension properties (some inner) itemSchema) = .ok (.map results) ∧
      (∀ key, convertToKRMSpec services (Value.get obj key) (path ++ [key]) true inner =
        .ok (Value.get results key)) ∧ (∀ key, results.lookup key ≠ some .null) ∧
      ∀ target leaf, Leaf (.map results) target leaf ↔
        ∃ source, Leaf (.map obj) source leaf ∧ (!coll && throughReadOnly
            (.mk .object readOnly extension properties (some inner) itemSchema) source) = false ∧
          specPath services leaf path.isEmpty coll
            (.mk .object readOnly extension properties (some inner) itemSchema)
              source = target := by
  have carried : ∀ key, Carried services (path ++ [key]) true inner (Value.get obj key) := by
    intro key
    rcases get_cases obj key with nil | member
    · rw [nil]
      exact carried_null inner
    · exact each _ member
  obtain ⟨entries, done, converted⟩ := collect_mapM (f := fun key val =>
      convertToKRMSpec services val (path ++ [key]) true inner) nodup
    (fun key => convertToKRMSpec_null services _ _ _)
    (fun key => (carried key).imp fun _ found => found.1)
  refine ⟨collect entries, by rw [convertToKRMSpec, done]; rfl, converted,
    lookup_collect_ne_null entries, ?_⟩
  -- below a key the path is that of the entry
  have below : ∀ key rest leaf, Leaf (Value.get (collect entries) key) rest leaf ↔
      ∃ source, Leaf (Value.get obj key) source leaf ∧
        specPath services leaf false true inner source = rest := by
    intro key rest leaf
    obtain ⟨result, here, leaves⟩ := carried key
    have inside : (path ++ [key]).isEmpty = false := by simp
    rw [converted key, Except.ok.injEq] at here
    rw [here, leaves, inside]
    simp
  intro target leaf
  rw [leaf_map]
  constructor
  · rintro ⟨key, rest, rfl, held⟩
    obtain ⟨source, inEntry, rfl⟩ := (below key rest leaf).mp held
    exact ⟨.key key :: source, inEntry, by simp [throughReadOnly], rfl⟩
  · rintro ⟨source, held, -, rfl⟩
    obtain ⟨key, rest, rfl, inEntry⟩ := leaf_map.mp held
    exact ⟨key, _, rfl, (below key _ leaf).mpr ⟨rest, inEntry, rfl⟩⟩

/-- Items of lists that are related one by one; a position outside is related if nil is. -/
theorem getD_of_forall₂ {R : Value → Value → Prop} {as bs : List Value}
    (each : List.Forall₂ R as bs) (null : R .null .null) (position : Nat) :
    R (as.getD position .null) (bs.getD position .null) := by
  induction each generalizing position with
  | nil => exact null
  | cons first rest ih =>
    cases position with
    | zero => exact first
    | succ position => exact ih position

/-- A list is carried if its items are. -/
theorem list_carried {inner : Schema}
    (each : ∀ item ∈ items, Carried services path true inner item) :
    Carried services path coll
      (.mk .array readOnly extension properties additionalProperties (some inner))
      (.list items) := by
  have converts : ∀ item ∈ items, ∃ result,
      wrapError "error converting list item" (convertToKRMSpec services item path true inner) =
        .ok result ∧
      ∀ target leaf, Leaf result target leaf ↔ ∃ source, Leaf item source leaf ∧
        specPath services leaf path.isEmpty true inner source = target := by
    intro item member
    obtain ⟨result, done, leaves⟩ := each item member
    exact ⟨result, by rw [done, wrapError_ok], by simpa using leaves⟩
  obtain ⟨results, done, related⟩ := mapM_of_forall converts
  have here : ∃ result, convertToKRMSpec services (.list items) path coll
      (.mk .array readOnly extension properties additionalProperties (some inner)) = .ok result ∧
        ∀ target leaf, Leaf result target leaf ↔ Leaf (.list results) target leaf := by
    cases items with
    | nil =>
      -- an empty list becomes nil
      cases related
      refine ⟨.null, by rw [convertToKRMSpec], ?_⟩
      intro target leaf
      rw [leaf_list]
      simp [not_leaf_null]
    | cons item rest =>
      refine ⟨.list results, ?_, fun _ _ => Iff.rfl⟩
      rw [convertToKRMSpec, done]
      · rfl
      · simp
  obtain ⟨result, converted, same⟩ := here
  refine ⟨result, converted, ?_⟩
  have below := getD_of_forall₂ related (by simp [not_leaf_null])
  intro target leaf
  rw [same, leaf_list]
  constructor
  · rintro ⟨position, rest, rfl, held⟩
    obtain ⟨source, inItem, rfl⟩ := (below position rest leaf).mp held
    exact ⟨.index position :: source, inItem, by simp [throughReadOnly], rfl⟩
  · rintro ⟨source, held, -, rfl⟩
    obtain ⟨position, rest, rfl, inItem⟩ := leaf_list.mp held
    exact ⟨position, _, rfl, (below position _ leaf).mpr ⟨rest, inItem, rfl⟩⟩

/-- A value that is not looked into is carried as it is. -/
theorem scalar_carried (done : convertToKRMSpec services val path coll s = .ok val)
    (same : ∀ leaf source, specPath services leaf path.isEmpty coll s source = source)
    (notObject : s.type ≠ .object) : Carried services path coll s val := by
  refine ⟨val, done, ?_⟩
  intro target leaf
  simp [same, throughReadOnly_of_not_object notObject]

theorem allWrittenKeys_below (properties : Properties) :
    allWrittenKeys services false coll properties = allSpecKeys services false coll properties := by
  simp [allWrittenKeys, allSpecKeys, writtenKeys, isPlainContainer]

theorem shaped_null (atRoot coll : Bool) (s : Schema) : shaped services .null atRoot coll s := by
  obtain ⟨type, _, _, _, additionalProperties, items⟩ := s
  cases type <;> cases additionalProperties <;> cases items <;> rfl

theorem map_of_shaped (object : s.type = .object)
    (shape : shaped services val atRoot coll s) (present : val ≠ .null) :
    ∃ obj, val = .map obj := by
  obtain ⟨type, _, _, _, additionalProperties, _⟩ := s
  obtain rfl : type = .object := object
  cases val with
  | map obj => exact ⟨obj, rfl⟩
  | null => exact absurd rfl present
  | _ => cases additionalProperties <;> cases shape

theorem list_of_shaped (array : s.type = .array)
    (shape : shaped services val atRoot coll s) (present : val ≠ .null) :
    ∃ items, val = .list items := by
  obtain ⟨type, _, _, _, _, inner⟩ := s
  obtain rfl : type = .array := array
  cases val with
  | list items => exact ⟨items, rfl⟩
  | null => exact absurd rfl present
  | _ => cases inner <;> cases shape

/-- Below the entry schema every value of the right shape is carried. -/
theorem carried (s : Schema) : ∀ (path : List String) (coll : Bool)
    (val : Value), path ≠ [] → wellFormed s → distinctNames services false coll s →
    shaped services val false coll s → Carried services path coll s val := by
  induction s using Schema.tree with
  | step s ofProperties ofAdditional ofItems =>
    intro path coll val inside valid distinct shape
    have regular := regular_of_wellFormed valid
    have notRoot : path.isEmpty = false := by simpa using inside
    obtain ⟨type, readOnly, extension, properties, additionalProperties, items⟩ := s
    by_cases nil : val = .null
    · rw [nil]
      exact carried_null _
    cases type with
    | object =>
      obtain ⟨obj, rfl⟩ := map_of_shaped rfl shape nil
      cases additionalProperties with
      | some inner =>
        simp only [shaped, and_eq_true, decide_eq_true_eq, all_eq_true] at shape
        have each : ∀ entry ∈ obj, Carried services (path ++ [entry.1]) true inner entry.2 :=
          fun entry member => ofAdditional inner rfl _ true _ (by simp)
            (regular.additionalProperties inner rfl) (by simpa [distinctNames] using distinct)
            (shape.2 entry member)
        obtain ⟨results, done, -, -, leaves⟩ := map_carried shape.1 each
        exact ⟨.map results, done, leaves⟩
      | none =>
        simp only [shaped, and_eq_true, propertiesShaped_iff] at shape
        simp only [distinctNames, and_eq_true, decide_eq_true_eq] at distinct
        have names := (distinctNamesBelow_iff services coll properties).mp distinct.2
        have each : ∀ entry ∈ properties, Yields services path coll obj entry := by
          intro entry member
          have inner := regular.properties entry.1 entry.2 member
          have fieldShape := shape.2 entry member
          nth_rewrite 1 [← notRoot] at fieldShape
          apply field_yields (regular_of_wellFormed inner) fieldShape
          exact ofProperties entry.1 entry.2 member (path ++ [entry.1]) coll _ (by simp) inner
            (names entry member)
        have keys : (allWrittenKeys services path.isEmpty coll properties).Nodup := by
          rw [notRoot, allWrittenKeys_below]
          exact distinct.1.2
        obtain ⟨results, done, collected⟩ := properties_collected keys each
        refine ⟨.map (collect results), by rw [convertToKRMSpec, done]; rfl, ?_⟩
        exact object_carried distinct.1.1 shape.1.2 each collected
    | array =>
      obtain ⟨inner, rfl⟩ := regular.items rfl
      obtain ⟨held, rfl⟩ := list_of_shaped rfl shape nil
      simp only [shaped, all_eq_true] at shape
      apply list_carried
      intro item member
      exact ofItems inner rfl path true item inside (regular.inner inner rfl)
        (by simpa [distinctNames] using distinct) (shape item member)
    | string | boolean | number | integer =>
      apply scalar_carried rfl _ (by simp [Schema.type])
      intro leaf source
      rw [specPath] <;> simp
    | other name => exact absurd rfl (regular.known name)

end Values

end ConfigConnector.Dcl
