import ConfigConnector.Dcl.Conversion

/- Specs that fit a schema of the DCL, and how the converter treats their fields. -/
namespace ConfigConnector.Dcl

open K8s

section Same

/-- Nil and the empty array, which stand for a field that is not there. -/
def isBlank : Value → Bool
  | .null | .list [] => true
  | _ => false

def numberOf : Value → Option Rat
  | .int n => some n
  | .float printed => printedNumber printed
  | _ => none

/-- The same content: absent, nil and empty arrays are not told apart, and numbers are
compared as numbers. -/
inductive Same : Value → Value → Prop where
  | blank {a b : Value} : isBlank a = true → isBlank b = true → Same a b
  | equal (a : Value) : Same a a
  | numbers {a b : Value} {q : Rat} : numberOf a = some q → numberOf b = some q → Same a b
  | lists {as bs : List Value} : List.Forall₂ Same as bs → Same (.list as) (.list bs)
  | maps {as bs : Fields} : (∀ key, Same (Value.get as key) (Value.get bs key)) →
      Same (.map as) (.map bs)

namespace Same

/-- Strings are the same only if they are equal. -/
theorem string_eq {a b : String} (same : Same (.string a) (.string b)) : a = b := by
  cases same with
  | equal => rfl
  | blank left _ | numbers left _ => cases left

/-- Maps are the same only if they hold the same under every key. -/
theorem get {as bs : Fields} (same : Same (.map as) (.map bs)) (key : String) :
    Same (Value.get as key) (Value.get bs key) := by
  cases same with
  | equal => exact .equal _
  | maps each => exact each key
  | blank left _ | numbers left _ => cases left

end Same

end Same

section Domain

/-- How the converter treats a property of an object. -/
inductive Role where
  | skipped
  | sensitive
  | reference
  | plain
  deriving DecidableEq

/-- Read-only properties are skipped outside of collections. -/
def role (coll : Bool) (s : Schema) : Role :=
  if s.readOnly && !coll then .skipped
  else if !s.readOnly && isSensitive s then .sensitive
  else if !s.readOnly && isReference s then .reference
  else .plain

/-- The keys of a parent that may have several types. -/
def parentTypes (services : Services) (s : Schema) : List TypeConfig :=
  match services.getReferenceTypeConfigs s with
  | .ok tcs => tcs
  | .error _ => []

variable (services : Services)

/-- The keys under which a property can appear in a spec; only the properties of the entry
schema are at the root. -/
def specKeys (atRoot coll : Bool) (field : String) (s : Schema) : List String :=
  match role coll s with
  | .skipped => []
  | .sensitive | .plain => [field]
  | .reference =>
    if atRoot && field == "parent" then (parentTypes services s).map (·.key)
    else [referenceKey field s]

def allSpecKeys (atRoot coll : Bool) (properties : Properties) : List String :=
  properties.flatMap fun entry => specKeys services atRoot coll entry.1 entry.2

mutual

/-- In every object the names of the properties differ, and so do the keys under which they
appear in a spec. -/
def distinctNames (atRoot coll : Bool) : Schema → Bool
  | .mk .object _ _ _ (some inner) _ => distinctNames false true inner
  | .mk .object _ _ properties none _ =>
    decide (properties.map (·.1)).Nodup &&
    decide (allSpecKeys services atRoot coll properties).Nodup &&
    distinctNamesBelow coll properties
  | .mk .array _ _ _ _ (some inner) => distinctNames atRoot true inner
  | _ => true

def distinctNamesBelow (coll : Bool) : Properties → Bool
  | [] => true
  | (_, s) :: rest =>
    distinctNames false coll s &&
    distinctNamesBelow coll rest

end

/-- A map whose only entry is a string. -/
def holdsOnly (key : String) : Value → Bool
  | .map fields => fields.all (fun entry => entry.1 == key) &&
      (Value.get fields key matches .string _)
  | _ => false

/-- An integer, or a `float64` that stands for one in the range of `int64`. -/
def integerFits : Value → Bool
  | .int _ => true
  | .float printed =>
    match printedNumber printed with
    | some q => q.isInt && decide (q.num.natAbs < 2 ^ 63)
    | none => false
  | _ => false

/-- A `float64`, or an integer that `float64` represents. -/
def numberFits : Value → Bool
  | .int n => decide (n.natAbs ≤ 2 ^ 53)
  | .float _ => true
  | _ => false

/-- Exactly one of the parents is set, in the external form. -/
def parentFits (obj : Fields) (s : Schema) : Bool :=
  (services.getReferenceTypeConfigs s matches .ok _) &&
  (parentTypes services s).all (fun tc => parentPrefixForKind tc.kind matches .ok _) &&
  decide ((parentTypes services s).map (·.kind)).Nodup &&
  match (parentTypes services s).filter fun tc => !(Value.get obj tc.key).isNil with
  | [tc] => holdsOnly "external" (Value.get obj tc.key) &&
      !(Value.get (Value.get obj tc.key).entries "external" matches .string "")
  | _ => false

/-- What the spec holds for a reference. The spec has no container as a reference unless the
resource supports hierarchical references. -/
def referenceFits (obj : Fields) (atRoot : Bool) (field : String) (s : Schema) : Bool :=
  if atRoot && field == "parent" then parentFits services obj s
  else
    match Value.get obj (referenceKey field s) with
    | .null => true
    | value =>
      !(atRoot && isContainerField [field] && !services.supportsHierarchicalReferences) &&
      if s.type = .array then
        match value with
        | .list items => items.all (holdsOnly "external")
        | _ => false
      else holdsOnly "external" value

/-- What the spec holds for a property, where `plain` says that the value fits the schema of
the property. -/
def fieldFits (obj : Fields) (atRoot coll : Bool)
    (field : String) (s : Schema) (plain : Bool) : Bool :=
  match role coll s with
  | .skipped => true
  | .sensitive => (Value.get obj field).isNil || holdsOnly "value" (Value.get obj field)
  | .reference => referenceFits services obj atRoot field s
  | .plain => plain

mutual

/-- A value of a spec that fits the schema. -/
def valueFits (val : Value) (atRoot coll : Bool) : Schema → Bool
  | .mk .object _ _ _ (some inner) _ =>
    match val with
    | .null => true
    | .map obj => decide (obj.map (·.1)).Nodup &&
        obj.all fun entry => valueFits entry.2 false true inner
    | _ => false
  | .mk .object _ _ properties none _ =>
    match val with
    | .null => true
    | .map obj =>
      obj.all (fun entry =>
        (allSpecKeys services atRoot coll properties).contains entry.1) &&
      propertiesFit obj atRoot coll properties
    | _ => false
  | .mk .array _ _ _ _ (some inner) =>
    match val with
    | .null => true
    | .list items => items.all fun item => valueFits item atRoot true inner
    | _ => false
  | .mk .array _ _ _ _ none => isBlank val
  | .mk .integer _ _ _ _ _ => val.isNil || integerFits val
  | .mk .number _ _ _ _ _ => val.isNil || numberFits val
  | .mk .string _ _ _ _ _ => val.isNil || (val matches .string _)
  | .mk .boolean _ _ _ _ _ => val.isNil || (val matches .bool _)
  | .mk (.other _) _ _ _ _ _ => val.isNil

def propertiesFit (obj : Fields) (atRoot coll : Bool) : Properties → Bool
  | [] => true
  | (field, s) :: rest =>
    fieldFits services obj atRoot coll field s
      (valueFits (Value.get obj field) false coll s) &&
    propertiesFit obj atRoot coll rest

end

end Domain

section Roles

variable {services : Services} {obj : Fields} {path : List String} {coll : Bool} {field : String}
  {s : Schema}

/-- What the role of a property says about its schema. -/
theorem role_spec (coll : Bool) (s : Schema) : match role coll s with
    | .skipped => s.readOnly ∧ coll = false
    | .sensitive => s.readOnly = false ∧ isSensitive s
    | .reference => s.readOnly = false ∧ isReference s
    | .plain => (s.readOnly && !coll) = false := by
  rw [role]
  cases s.readOnly <;> cases coll <;> cases isSensitive s <;> cases isReference s <;> simp

theorem fieldToDCL_eq (regular : Regular s) (converted : Except Failure Value) :
    fieldToDCL services obj path coll field s converted =
      match role coll s with
      | .skipped => .ok .null
      | .sensitive => wrapError ("error resolving the value for sensitive field " ++ field)
          (convertSensitiveFieldToDCL field obj)
      | .reference => wrapError ("error resolving the value for reference field " ++ field)
          (convertReferenceFieldToDCL services (path ++ [field]) obj s)
      | .plain => wrapError ("error resolving the value for DCL field " ++ field) converted := by
  rw [fieldToDCL, regular.sensitive, isWritableReference, regular.reference, role]
  cases s.readOnly <;> cases coll <;> cases isSensitive s <;> cases isReference s <;> rfl

/-- A container is converted as a plain field if the resource does not support hierarchical
references. -/
theorem fieldToKRM_eq (regular : Regular s) (converted : Except Failure Value)
    (present : (Value.get obj field).isNil = false) :
    fieldToKRM services obj path coll field s converted =
      match role coll s with
      | .skipped => .ok (field, .null)
      | .sensitive => .ok (field, .map [("value", Value.get obj field)])
      | .reference =>
        if isContainerField (path ++ [field]) && !services.supportsHierarchicalReferences then do
          return (field,
            ← wrapError ("error resolving the value for DCL field " ++ field) converted)
        else wrapError ("error converting the value for reference field " ++ field)
          (convertReferenceFieldToKRM services (path ++ [field]) (Value.get obj field) s)
      | .plain => do
        return (field, ← wrapError ("error resolving the value for DCL field " ++ field) converted)
      := by
  rw [fieldToKRM, regular.sensitive, isWritableReference, regular.reference, role, present]
  cases s.readOnly <;> cases coll <;> cases isSensitive s <;> cases isReference s <;>
    cases isContainerField (path ++ [field]) <;>
    cases services.supportsHierarchicalReferences <;> rfl

theorem fieldToKRM_nil (nil : Value.get obj field = .null) (converted : Except Failure Value) :
    fieldToKRM services obj path coll field s converted = .ok (field, .null) := by
  rw [fieldToKRM, nil]
  split <;> rfl

end Roles

end ConfigConnector.Dcl
