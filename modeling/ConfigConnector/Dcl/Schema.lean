import ConfigConnector.K8s.Values
import ConfigConnector.Lib.Fallible

/- The OpenAPI schemas of the DCL, and how their extensions are read. -/
namespace ConfigConnector.Dcl

open K8s

/-- What ends a computation early. -/
inductive Failure where
  | panic
  | error (err : GoError)

/-- The `Type` of a schema. -/
inductive DataType where
  | object
  | array
  | string
  | boolean
  | number
  | integer
  | other (name : String)
  deriving DecidableEq

namespace DataType

def text : DataType → String
  | object => "object"
  | array => "array"
  | string => "string"
  | boolean => "boolean"
  | number => "number"
  | integer => "integer"
  | other name => name

/-- `typeutil.IsPrimitiveType`. -/
def isPrimitive : DataType → Bool
  | string | boolean | number | integer => true
  | _ => false

end DataType

/-- `openapi.Schema`; the properties are in the order in which a `range` visits them. -/
inductive Schema where
  | mk (type : DataType) (readOnly : Bool) (extension : Fields)
      (properties : List (String × Schema)) (additionalProperties items : Option Schema)

abbrev Properties : Type := List (String × Schema)

namespace Schema

def type : Schema → DataType
  | mk type _ _ _ _ _ => type

def readOnly : Schema → Bool
  | mk _ readOnly _ _ _ _ => readOnly

def extension : Schema → Fields
  | mk _ _ extension _ _ _ => extension

def properties : Schema → Properties
  | mk _ _ _ properties _ _ => properties

def additionalProperties : Schema → Option Schema
  | mk _ _ _ _ additionalProperties _ => additionalProperties

def items : Schema → Option Schema
  | mk _ _ _ _ _ items => items

/-- A property holds of every schema if it holds of a schema whenever it holds of its
properties, of its additional properties and of its items. -/
theorem tree {P : Schema → Prop}
    (step : ∀ s : Schema, (∀ field inner, (field, inner) ∈ s.properties → P inner) →
      (∀ inner, s.additionalProperties = some inner → P inner) →
      (∀ inner, s.items = some inner → P inner) → P s) : ∀ s, P s
  | mk type readOnly extension properties additionalProperties items => by
    apply step
    · intro field inner member
      have smaller : sizeOf inner < sizeOf properties :=
        Nat.lt_trans (by rw [Prod.mk.sizeOf_spec]; omega) (List.sizeOf_lt_of_mem member)
      exact tree step inner
    · intro inner same
      exact tree step inner
    · intro inner same
      exact tree step inner
termination_by s => sizeOf s
decreasing_by
  · simp
    omega
  · obtain rfl : additionalProperties = some inner := same
    simp
    omega
  · obtain rfl : items = some inner := same
    simp
    omega

end Schema

section Extensions

/-- An extension that is a flag: not there means no. -/
def flagExtension (name : String) (s : Schema) : Except Failure Bool :=
  match s.extension.lookup name with
  | none => .ok false
  | some (.bool value) => .ok value
  | some value => .error (.error (.plain ("wrong type for '" ++ name ++ "' extension: " ++
      value.typeName ++ ", expect to have bool")))

/-- The extension is there, and is true. -/
def hasFlag (name : String) (s : Schema) : Bool := s.extension.lookup name matches some (.bool true)

variable (s : Schema)

def isImmutableField : Except Failure Bool := flagExtension "x-kubernetes-immutable" s

def isImmutable : Bool := hasFlag "x-kubernetes-immutable" s

def isSensitiveField : Except Failure Bool :=
  match s.extension.lookup "x-dcl-sensitive" with
  | none => .ok false
  | some _ =>
    if s.type ≠ .string then
      .error (.error (.plain ("only support sensitive fields of `string` type, but got type " ++
        s.type.text)))
    else flagExtension "x-dcl-sensitive" s

def isSensitive : Bool := hasFlag "x-dcl-sensitive" s

/-- `IsReferenceField`: an array without items is a nil pointer. -/
def isReferenceField : Except Failure Bool :=
  if s.type = .array then
    match s.items with
    | some items => .ok (items.extension.lookup "x-dcl-references").isSome
    | none => .error .panic
  else .ok (s.extension.lookup "x-dcl-references").isSome

/-- The schema or, for an array, that of its items has references. -/
def isReference : Bool :=
  if s.type = .array then
    s.items.any fun items => (items.extension.lookup "x-dcl-references").isSome
  else (s.extension.lookup "x-dcl-references").isSome

/-- `pathslice.Base`. -/
def base (path : List String) : String := path.getLastD ""

def trimmableReferenceSuffixes : List String :=
  ["Name", "Id", "IdOrNum", "Email", "Link", "Reference"]

/-- `strings.HasSuffix`, with what is left without the suffix. -/
def trimSuffix (s suffix : String) : Option String :=
  if suffix.toList.isSuffixOf s.toList then
    some (String.ofList (s.toList.take (s.toList.length - suffix.toList.length)))
  else none

/-- `formatReferenceFieldName`: the first suffix in the table that the name ends with is
replaced. -/
def formatReferenceFieldName (fieldName : String) : String :=
  ((trimmableReferenceSuffixes.findSome? (trimSuffix fieldName)).getD fieldName) ++ "Ref"

def getReferenceFieldName (path : List String) (s : Schema) : Except Failure String :=
  if path.length = 1 ∧ base path = "parent" then
    .error (.error (.plain ("cannot get reference field name for 'parent' " ++
      "since 'parent' is typically split into multiple reference fields")))
  else if s.type = .array then .ok (base path)
  else match s.extension.lookup "x-dcl-references" with
    | some (.list _) => .ok (formatReferenceFieldName (base path))
    | raw => .error (.error (.plain ("wrong type for 'x-dcl-references' extension: " ++
        (raw.getD .null).typeName ++ ", expect to have []interface\x7b\x7d")))

/-- The name of a reference field in a spec; a list of references keeps its name. -/
def referenceKey (field : String) (s : Schema) : String :=
  if s.type = .array then field else formatReferenceFieldName field

/-- `dcl.IsMultiTypeParentReferenceField`. -/
def isMultiTypeParentReferenceField (path : List String) : Bool :=
  path.length ≤ 1 && base path == "parent"

mutual

/-- What the DCL guarantees of its schemas: known types, arrays with items, extensions of
the right types. -/
def wellFormed : Schema → Bool
  | .mk type _ extension properties additionalProperties items =>
    (match type with
      | .other _ => false
      | .array => items.isSome
      | _ => true) &&
    (match extension.lookup "x-kubernetes-immutable" with
      | none | some (.bool _) => true
      | _ => false) &&
    (match extension.lookup "x-dcl-sensitive" with
      | none => true
      | some (.bool _) => type = .string
      | _ => false) &&
    (match extension.lookup "x-dcl-references" with
      | none => true
      | some (.list types) => !types.isEmpty
      | _ => false) &&
    propertiesWellFormed properties && innerWellFormed additionalProperties &&
    innerWellFormed items

def propertiesWellFormed : Properties → Bool
  | [] => true
  | (_, s) :: rest => wellFormed s && propertiesWellFormed rest

def innerWellFormed : Option Schema → Bool
  | none => true
  | some s => wellFormed s

end

theorem propertiesWellFormed_iff (properties : Properties) :
    propertiesWellFormed properties ↔
      ∀ field s, (field, s) ∈ properties → wellFormed s := by
  induction properties with
  | nil => simp [propertiesWellFormed]
  | cons entry rest ih => rw [propertiesWellFormed, Bool.and_eq_true, ih, Dict.forall_entry_cons]

/-- What `wellFormed` says of one schema and of those it is made of. -/
structure Regular (s : Schema) : Prop where
  known : ∀ name, s.type ≠ .other name
  items : s.type = .array → ∃ inner, s.items = some inner
  immutable : isImmutableField s = .ok (isImmutable s)
  sensitive : isSensitiveField s = .ok (isSensitive s)
  references : ∀ raw, s.extension.lookup "x-dcl-references" = some raw →
    ∃ first types, raw = .list (first :: types)
  properties : ∀ field inner, (field, inner) ∈ s.properties → wellFormed inner = true
  additionalProperties : ∀ inner, s.additionalProperties = some inner → wellFormed inner = true
  inner : ∀ inner, s.items = some inner → wellFormed inner = true

theorem regular_of_wellFormed {s : Schema} (valid : wellFormed s) : Regular s := by
  obtain ⟨type, readOnly, extension, properties, additionalProperties, items⟩ := s
  simp only [wellFormed, Bool.and_eq_true] at valid
  obtain ⟨⟨⟨⟨⟨⟨known, immutable⟩, sensitive⟩, references⟩, ofProperties⟩, ofAdditional⟩, ofItems⟩
    := valid
  constructor
  case known =>
    rintro name rfl
    simp at known
  case items =>
    rintro rfl
    exact Option.isSome_iff_exists.mp known
  case immutable =>
    simp only [isImmutableField, flagExtension, isImmutable, hasFlag, Schema.extension]
    split at immutable
    · simp [*]
    · rename_i value found
      cases value <;> simp [found]
    · simp at immutable
  case sensitive =>
    simp only [isSensitiveField, flagExtension, isSensitive, hasFlag, Schema.extension, Schema.type]
    split at sensitive
    · simp [*]
    · rename_i value found
      cases value <;> simp_all
    · simp at sensitive
  case references =>
    intro raw found
    simp only [Schema.extension] at found
    rw [found] at references
    cases raw with
    | list types =>
      cases types with
      | nil => simp at references
      | cons first types => exact ⟨first, types, rfl⟩
    | null | bool _ | int _ | float _ | string _ | map _ => simp at references
  case properties => exact (propertiesWellFormed_iff properties).mp ofProperties
  case additionalProperties =>
    rintro inner rfl
    exact ofAdditional
  case inner =>
    rintro inner rfl
    exact ofItems

namespace Regular

variable {s : Schema}

theorem reference (regular : Regular s) : isReferenceField s = .ok (isReference s) := by
  by_cases array : s.type = .array
  · obtain ⟨inner, found⟩ := regular.items array
    simp [isReferenceField, isReference, array, found]
  · simp [isReferenceField, isReference, array]

/-- Every reference but a parent of several types has a name in the spec. -/
theorem referenceFieldName (regular : Regular s) (path : List String) (field : String)
    (refers : isReference s) (single : isMultiTypeParentReferenceField (path ++ [field]) = false) :
    getReferenceFieldName (path ++ [field]) s = .ok (referenceKey field s) := by
  have notParent : ¬ ((path ++ [field]).length = 1 ∧ base (path ++ [field]) = "parent") := by
    rintro ⟨one, parent⟩
    rw [isMultiTypeParentReferenceField, one, parent] at single
    exact absurd single (by decide)
  have last : base (path ++ [field]) = field := by simp [base]
  by_cases array : s.type = .array
  · rw [getReferenceFieldName, if_neg notParent, if_pos array, last, referenceKey, if_pos array]
  simp only [isReference, array, ↓reduceIte] at refers
  obtain ⟨raw, found⟩ := Option.isSome_iff_exists.mp refers
  obtain ⟨first, types, rfl⟩ := regular.references raw found
  rw [getReferenceFieldName, if_neg notParent, if_neg array, found, last, referenceKey,
    if_neg array]

end Regular

example : formatReferenceFieldName "networkIdOrNum" = "networkRef" := by decide

end Extensions

end ConfigConnector.Dcl
