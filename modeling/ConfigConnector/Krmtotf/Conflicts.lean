import ConfigConnector.K8s.Leaves
import ConfigConnector.Krmtotf.TfToKrm

/- `RemoveFieldsFromStateThatConflictWithSpec` of krmtotf/managedfields.go. Where the source
changes the state in place, here the changed state is returned. -/
namespace ConfigConnector.Krmtotf

open K8s

/-- A slice of strings, as `%v` prints it. -/
def formatPath (path : List String) : String := "[" ++ " ".intercalate path ++ "]"

section Removal

/-- `RemoveNestedField` for a path that is not empty. -/
def removeAt (obj : Fields) : List String → Fields
  | [] => obj
  | first :: rest => removeNestedField obj first rest

/-- The paths above a path, the longest first. -/
def ancestors (path : List String) : List (List String) :=
  (List.range (path.length - 1)).reverse.map fun i => path.take (i + 1)

/-- The loop over the ancestors of a removed field. -/
def removeEmptyAncestors (obj : Fields) : List (List String) → Except GoError Fields
  | [] => .ok obj
  | ancestorPath :: rest =>
    match Value.nestedField (.map obj) ancestorPath with
    | .error err =>
      .error (.wrap ("error checking for existence of field ancestor at path: " ++
        formatPath ancestorPath) err)
    | .ok none =>
      .error (.plain ("unexpectedly failed to find field ancestor at path " ++
        formatPath ancestorPath))
    | .ok (some (.map [])) => removeEmptyAncestors (removeAt obj ancestorPath) rest
    | .ok (some (.map (_ :: _))) => .ok obj
    | .ok (some _) =>
      .error (.plain ("field ancestor at path " ++ formatPath ancestorPath ++
        " is unexpectedly not a map[string]interface\x7b\x7d"))

def removeFieldAndAnyEmptyAncestorsFromObject (path : List String) (obj : Fields) :
    Except GoError Fields :=
  removeEmptyAncestors (removeAt obj path) (ancestors path)

end Removal

section Keys

/-- `strings.Split(key, ".0.")`. -/
def splitIndices : List Char → List (List Char)
  | '.' :: '0' :: '.' :: rest => [] :: splitIndices rest
  | c :: rest =>
    match splitIndices rest with
    | [] => [[c]]
    | word :: words => (c :: word) :: words
  | [] => [[]]

/-- The Terraform path that a conflicting key stands for. -/
def conflictingTFPath (key : String) : List String :=
  (splitIndices key.toList).map String.ofList

/-- Where the source looks for a field in an object. -/
def krmPathOf (rc : ResourceConfig) (tfPath : List String) : List String :=
  match isReferenceField (".".intercalate tfPath) rc with
  | some refConfig => getPathToReferenceKey refConfig
  | none => tfPath.map Text.snakeCaseToLowerCamelCase

/-- The keys of both lists without the key of the field itself. -/
def conflictingTFKeys (attributes : Attributes) (tfPath : List String) : List String :=
  (attributes.conflictsWith ++ attributes.exactlyOneOf).filter (· != ".0.".intercalate tfPath)

end Keys

section Loop

variable (rc : ResourceConfig) (spec : Fields)

/-- One round of the loop over the conflicting keys of the field at `krmPath`. -/
def removeIfConflicting (krmPath : List String) (state : Fields) (conflictingTFKey : String) :
    Except GoError Fields :=
  match Value.nestedField (.map spec) (krmPathOf rc (conflictingTFPath conflictingTFKey)) with
  | .error err =>
    .error (.wrap ("error checking for existence of conflicting field with path " ++
      formatPath krmPath ++ " in spec") err)
  | .ok none => .ok state
  | .ok (some _) =>
    match removeFieldAndAnyEmptyAncestorsFromObject krmPath state with
    | .error err =>
      .error (.wrap ("error removing field at path " ++ formatPath krmPath ++ " from state") err)
    | .ok removed => .ok removed

/-- The check at the top of the function. -/
def unlessEmpty (state : Fields) (go : Except GoError Fields) : Except GoError Fields :=
  if state.isEmpty || spec.isEmpty then .ok state else go

def isObjectField (attributes : Attributes) : Bool :=
  attributes.type = .list && attributes.maxItems = 1

mutual

/-- The loop over the fields of one schema. -/
def removeInFields (tfPath : List String) (state : Fields) : SchemaMap → Except GoError Fields
  | [] => .ok state
  | (k, s) :: rest => do
    let state ← removeInField (tfPath ++ [k]) state s
    removeInFields tfPath state rest

/-- One round of the loop. -/
def removeInField (tfPath : List String) (state : Fields) : Schema → Except GoError Fields
  | .mk attributes elem =>
    let krmPath := krmPathOf rc tfPath
    match Value.nestedField (.map state) krmPath with
    | .error err =>
      .error (.wrap ("error checking for existence of field with path " ++
        formatPath krmPath ++ " in state") err)
    | .ok none => .ok state
    | .ok (some _) => do
      let state ← (conflictingTFKeys attributes tfPath).foldlM
        (removeIfConflicting rc spec krmPath) state
      removeInElem tfPath state attributes elem

/-- The rest of a round: a field that is an object may have fields to be removed. -/
def removeInElem (tfPath : List String) (state : Fields) (attributes : Attributes) :
    Elem → Except GoError Fields
  | .resource fields =>
    if isObjectField attributes then
      unlessEmpty spec state (removeInFields tfPath state fields)
    else .ok state
  | .none => .ok state
  | .schema _ => .ok state

end

def removeFieldsFromStateThatConflictWithSpec (state : Fields) (tfPath : List String)
    (schemaMap : SchemaMap) : Except GoError Fields :=
  unlessEmpty spec state (removeInFields rc spec tfPath state schemaMap)

end Loop

end ConfigConnector.Krmtotf
