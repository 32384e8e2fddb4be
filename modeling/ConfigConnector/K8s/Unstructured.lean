import ConfigConnector.K8s.Object

/- Objects as the dynamic client yields them: nested maps and lists without types.
The accessors are those of the apimachinery package. -/
namespace ConfigConnector.K8s

/-- A value of an unstructured object. A float is kept as it is printed. -/
inductive Value where
  | null
  | bool (value : Bool)
  | int (value : Int)
  | float (printed : String)
  | string (value : String)
  | list (items : List Value)
  | map (fields : List (String × Value))

namespace Value

/-- What `%T` prints. -/
def typeName : Value → String
  | null => "<nil>"
  | bool _ => "bool"
  | int _ => "int64"
  | float _ => "float64"
  | string _ => "string"
  | list _ => "[]interface \x7b\x7d"
  | map _ => "map[string]interface \x7b\x7d"

mutual

/-- What `%v` prints: a map in the order of its keys. -/
def format : Value → String
  | null => "<nil>"
  | bool value => toString value
  | int value => toString value
  | float printed => printed
  | string value => value
  | list items => "[" ++ " ".intercalate (formatItems items) ++ "]"
  | map fields =>
    let entries := (formatFields fields).mergeSort fun a b => a.1 ≤ b.1
    "map[" ++ " ".intercalate (entries.map fun entry => entry.1 ++ ":" ++ entry.2) ++ "]"

def formatItems : List Value → List String
  | [] => []
  | item :: rest => item.format :: formatItems rest

def formatFields : List (String × Value) → List (String × String)
  | [] => []
  | (key, item) :: rest => (key, item.format) :: formatFields rest

end

/-- `jsonPath`. -/
def jsonPath (fields : List String) : String := "." ++ ".".intercalate fields

def accessorError (path : List String) (value : Value) (expected : String) : GoError :=
  .plain (jsonPath path ++ " accessor error: " ++ value.format ++ " is of the type " ++
    value.typeName ++ ", expected " ++ expected)

/-- `NestedFieldNoCopy`, below the path `above`; `none` is a field that is not there. -/
def nestedFieldFrom (above : List String) : Value → List String → Except GoError (Option Value)
  | value, [] => .ok (some value)
  | null, _ :: _ => .ok none
  | map fields, field :: rest =>
    match fields.lookup field with
    | none => .ok none
    | some value => nestedFieldFrom (above ++ [field]) value rest
  | value, field :: _ =>
    .error (accessorError (above ++ [field]) value "map[string]interface\x7b\x7d")

def nestedField (obj : Value) (path : List String) : Except GoError (Option Value) :=
  nestedFieldFrom [] obj path

def nestedInt64 (obj : Value) (path : List String) : Except GoError (Option Int) := do
  match ← obj.nestedField path with
  | none => return none
  | some (int value) => return some value
  | some value => throw (accessorError path value "int64")

def nestedSlice (obj : Value) (path : List String) : Except GoError (Option (List Value)) := do
  match ← obj.nestedField path with
  | none => return none
  | some (list items) => return some items
  | some value => throw (accessorError path value "[]interface\x7b\x7d")

def nestedString (obj : Value) (path : List String) : Except GoError (Option String) := do
  match ← obj.nestedField path with
  | none => return none
  | some (string value) => return some value
  | some value => throw (accessorError path value "string")

def nestedMap (obj : Value) (path : List String) :
    Except GoError (Option (List (String × Value))) := do
  match ← obj.nestedField path with
  | none => return none
  | some (map fields) => return some fields
  | some value => throw (accessorError path value "map[string]interface\x7b\x7d")

/-- A string field of a map, as a type assertion on it finds it. -/
def stringField (fields : List (String × Value)) (key : String) : Option String :=
  match fields.lookup key with
  | some (string value) => some value
  | _ => none

end Value

def ConditionStatus.text : ConditionStatus → String
  | .true => "True"
  | .false => "False"
  | .unknown => "Unknown"

def Condition.toUnstructured (c : Condition) : Value :=
  .map [("type", .string c.type), ("status", .string c.status.text),
    ("reason", .string c.reason), ("message", .string c.message)]

/-- An object with those of its fields that are read without types. Annotations
are read from the metadata. -/
def Resource.toUnstructured {σ τ : Type} (r : Resource σ τ) : Value :=
  .map [
    ("metadata", .map [("generation", .int r.metadata.generation)]),
    ("status", .map (
      (match r.status.observedGeneration with
        | some generation => [("observedGeneration", .int generation)]
        | none => []) ++
      [("conditions", .list (r.status.conditions.map Condition.toUnstructured))]))]

end ConfigConnector.K8s
