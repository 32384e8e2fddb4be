import ConfigConnector.Dcl.SpecFits
import ConfigConnector.K8s.ManagedFields

/- Merging the live state of a resource into its spec. -/
namespace ConfigConnector.Dcl

open K8s

section Sensitive

/-- What is wrong with a value that is decoded into a string. -/
def stringMismatch (field : String) : Value → Option String
  | .null | .string _ => none
  | value => some ("json: cannot unmarshal " ++ value.jsonKind ++ " into Go struct field " ++
      field ++ " of type string")

/-- The first mismatch among the fields of an object that is decoded into a struct, of which
`check` knows the fields. The keys are written in order and compared without regard to case. -/
def structMismatch (what : String) (check : String → Value → Option String) :
    Value → Option String
  | .null => none
  | .map fields =>
    (fields.mergeSort fun a b => a.1 ≤ b.1).findSome? fun entry =>
      check (entry.1.map Char.toLower) entry.2
  | value => some ("json: cannot unmarshal " ++ value.jsonKind ++ " into Go " ++ what)

def secretKeyReferenceMismatch : Value → Option String :=
  structMismatch
    "struct field ValueSource.valueFrom.secretKeyRef of type v1alpha1.SecretKeyReference"
    fun name value =>
      match name with
      | "name" => stringMismatch "SecretKeyReference.valueFrom.secretKeyRef.name" value
      | "key" => stringMismatch "SecretKeyReference.valueFrom.secretKeyRef.key" value
      | _ => none

def valueSourceMismatch : Value → Option String :=
  structMismatch "struct field SensitiveField.valueFrom of type v1alpha1.ValueSource"
    fun name value =>
      match name with
      | "secretkeyref" => secretKeyReferenceMismatch value
      | _ => none

def sensitiveFieldMismatch : Value → Option String :=
  structMismatch "value of type v1alpha1.SensitiveField" fun name value =>
    match name with
    | "value" => stringMismatch "SensitiveField.value" value
    | "valuefrom" => valueSourceMismatch value
    | _ => none

/-- `util.Marshal(stateVal, &sensitiveVal)`, of which only the error counts. -/
def marshalSensitiveField (value : Value) : Except Failure Unit :=
  match sensitiveFieldMismatch value with
  | none => .ok ()
  | some text => .error (.error (.wrap "error unmarshalling into processed object" (.plain text)))

end Sensitive

section References

variable (state spec : Fields) (services : Services)

def mergeMultiTypeParentReferenceField (s : Schema) : Except Failure (String × Value) := do
  let fromSpec ← wrapError
    "error getting hierarchical reference from spec for multi-parent resource"
    (getHierarchicalRefFromConfigForMultiParentResource services spec s)
  match fromSpec with
  | some (specVal, tc) => return (tc.key, specVal)
  | none =>
    let fromState ← wrapError
      "error getting hierarchical reference from state for multi-parent resource"
      (getHierarchicalRefFromConfigForMultiParentResource services state s)
    match fromState with
    | some (stateVal, tc) => return (tc.key, stateVal)
    | none => return ("", .null)

/-- A key of the spec is preserved, whatever its value. -/
def mergeResourceReference (path : List String) (s : Schema) : Except Failure (String × Value) := do
  let refField ← getReferenceFieldName path s
  match spec.lookup refField with
  | some specVal => return (refField, specVal)
  | none =>
    if (Value.get state refField).isNil then return ("", .null)
    else return (refField, Value.get state refField)

def mergeReferenceField (path : List String) (s : Schema) : Except Failure (String × Value) :=
  if isMultiTypeParentReferenceField path then
    mergeMultiTypeParentReferenceField state spec services s
  else mergeResourceReference state spec path s

end References

section Values

/-- The keys of a map. -/
def keysOf (fields : Fields) : List String := (fields.map (·.1)).dedup

def notA {α : Type} (expected whose field : String) (raw : Value) : Except Failure α :=
  fail ("expected the " ++ whose ++ " for field '" ++ field ++ "' to be " ++ expected ++
    " but was actually " ++ raw.typeName)

def mergePrimitiveMap (state spec : Fields) (field : String) (managedFields : Option FieldSet) :
    Except Failure Value :=
  if isK8sManaged field spec managedFields then .ok (Value.get spec field)
  else
    match Value.get state field with
    | .null | .map [] => .ok .null
    | .map valMap => .ok (.map valMap)
    | raw => notA "map[string]interface\x7b\x7d" "value" field raw

/-- A scalar that both the state and the spec have. -/
def mergeScalar (state spec : Fields) (field : String) (managedFields : Option FieldSet)
    (s : Schema) : Except Failure Value :=
  if isK8sManaged field spec managedFields then .ok (Value.get spec field)
  else do
    let isSensitive ← if s.type = .string then isSensitiveField s else .ok false
    if isSensitive then marshalSensitiveField (Value.get state field)
    return Value.get state field

/-- The object of the spec that an item of the state is merged with; behind the items of the
spec there is a nil map. -/
def specItem (field : String) (elem : Value) : List Value → Except Failure Fields
  | [] => .ok []
  | .map specObjMap :: _ => .ok specObjMap
  | _ => notA "map[string]interface\x7b\x7d" "item value from spec" field elem

/-- The loop of `mergeObjectArray` over the items of the state. -/
def mergeItems (field : String) (merge : Fields → Fields → Except Failure Fields) :
    List Value → List Value → Except Failure (List Value)
  | [], _ => .ok []
  | elem :: stateList, specList =>
    match elem with
    | .map stateObjMap => do
      let specObjMap ← specItem field elem specList
      let val ← merge stateObjMap specObjMap
      let others ← mergeItems field merge stateList specList.tail
      return .map val :: others
    | _ => notA "map[string]interface\x7b\x7d" "item value from state" field elem

def mergeObjectArray (field : String) (merge : Fields → Fields → Except Failure Fields)
    (stateVal specVal : Value) : Except Failure (List Value) :=
  match specVal, stateVal with
  | .list specList, .list stateList =>
    if specList.length > stateList.length then
      fail ("there are fewer items for field '" ++ field ++
        "' returned in state than configured in spec; state: " ++ stateVal.format ++ ", spec: " ++
        specVal.format)
    else mergeItems field merge stateList specList
  | .list _, _ => notA "[]interface\x7b\x7d" "state value" field (.list [])
  | _, _ => notA "[]interface\x7b\x7d" "spec value" field specVal

/-- `mergeNestedObject` at the values of a field. -/
def mergeNestedObject (field : String) (merge : Fields → Fields → Except Failure Fields)
    (stateVal specVal : Value) : Except Failure Value :=
  match stateVal, specVal with
  | .map stateConfigMap, .map specConfigMap => do
    return .map (← merge stateConfigMap specConfigMap)
  | .map _, _ => notA "map[string]interface\x7b\x7d" "spec value" field specVal
  | _, _ => notA "map[string]interface\x7b\x7d" "state value" field stateVal

/-- The loop of `mergeObjectMap` over the keys of the state. -/
def mergeEntries (field : String) (merge : String → Fields → Fields → Except Failure Fields)
    (stateObjectMap specObjectMap : Fields) : List String → Except Failure Fields
  | [] => .ok []
  | k :: rest =>
    match specObjectMap.lookup k with
    | none => fail ("key '" ++ k ++ "' is not configured in spec for field '" ++ field ++ "'")
    | some specVal => do
      let mergedVal ← mergeNestedObject k (merge k) (Value.get stateObjectMap k) specVal
      let others ← mergeEntries field merge stateObjectMap specObjectMap rest
      return (k, mergedVal) :: others

def mergeObjectMap (field : String)
    (merge : String → Fields → Fields → Except Failure Fields) (stateVal specVal : Value) :
    Except Failure Value :=
  match specVal, stateVal with
  | .map specObjectMap, .map stateObjectMap =>
    if (keysOf specObjectMap).length ≠ (keysOf stateObjectMap).length then
      fail ("the number of items for field '" ++ field ++
        "' returned in state is not the same as configured in spec; state: " ++
        stateVal.format ++ ", spec: " ++ specVal.format)
    else do
      return .map (← mergeEntries field merge stateObjectMap specObjectMap
        (keysOf stateObjectMap))
  | .map _, _ => notA "map[string]interface\x7b\x7d" "state value" field stateVal
  | _, _ => notA "map[string]interface\x7b\x7d" "spec value" field specVal

end Values

variable (services : Services)

/-- The body of the loop over the properties, where `both` is what the recursion gives for a
field that both the state and the spec have. -/
def mergePropertyWith (state spec : Fields) (path : List String)
    (f : String) (s : Schema) (both : Except Failure Value) : Except Failure (String × Value) := do
  if ← isReferenceField s then mergeReferenceField state spec services (path ++ [f]) s
  else if (Value.get state f).isNil then return (f, Value.get spec f)
  else if (Value.get spec f).isNil then return (f, Value.get state f)
  else return (f, ← both)

mutual

def mergeSpecWithLiteState (state spec : Fields) (path : List String)
    (managedFields : Option FieldSet) : Schema → Except Failure Fields
  | .mk type _ _ properties _ _ => do
    return collect (← mergeProperties state spec path managedFields type properties)

/-- What the loop over the properties of a schema of the type `within` adds; nil is not
added. -/
def mergeProperties (state spec : Fields) (path : List String)
    (managedFields : Option FieldSet) (within : DataType) : Properties → Except Failure Fields
  | [] => .ok []
  | (f, s) :: rest => do
    let merged ← mergePropertyWith services state spec path f s
      (mergeField state spec path managedFields within f s)
    let others ← mergeProperties state spec path managedFields within rest
    return merged :: others

/-- The value of a field that both the state and the spec have. -/
def mergeField (state spec : Fields) (path : List String)
    (managedFields : Option FieldSet) (within : DataType) (f : String) :
    Schema → Except Failure Value
  | .mk .object _ _ _ (some inner) _ =>
    if inner.type.isPrimitive then mergePrimitiveMap state spec f managedFields
    else if inner.type = .object then
      mergeObjectMap f (fun k stateMap specMap =>
        mergeSpecWithLiteState stateMap specMap (path ++ [f] ++ [k])
          (nestedManagedFields k (nestedManagedFields f managedFields)) inner)
        (Value.get state f) (Value.get spec f)
    else fail ("unsupported AdditionalProperties.Type for field '" ++ f ++ "': " ++
      inner.type.text)
  | .mk .object _ _ properties none _ =>
    mergeNestedObject f (fun stateMap specMap => do
      return collect (← mergeProperties stateMap specMap (path ++ [f])
        (nestedManagedFields f managedFields) .object properties))
      (Value.get state f) (Value.get spec f)
  | .mk .array _ _ _ _ none => .error .panic
  | .mk .array _ _ _ _ (some inner) =>
    if inner.type.isPrimitive then
      match Value.get state f with
      | .list [] => .ok .null
      | .list listVal => .ok (.list listVal)
      | raw => notA "[]interface\x7b\x7d" "value" f raw
    else if inner.type = .object then do
      let retObjList ← mergeObjectArray f (fun stateMap specMap =>
        mergeSpecWithLiteState stateMap specMap (path ++ [f]) none inner)
        (Value.get state f) (Value.get spec f)
      if retObjList.isEmpty then return .null else return .list retObjList
    else fail ("unsupported Items.Type for the array field '" ++ f ++ "': " ++ inner.type.text)
  | .mk (.other _) _ _ _ _ _ => fail ("unknown schema type " ++ within.text)
  | .mk type readOnly extension properties additional items =>
    mergeScalar state spec f managedFields
      (.mk type readOnly extension properties additional items)

end

end ConfigConnector.Dcl
