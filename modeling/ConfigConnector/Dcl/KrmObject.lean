import ConfigConnector.Dcl.Conversion
import ConfigConnector.K8s.Leaves
import ConfigConnector.Managed.Surroundings
import ConfigConnector.Text.Case

/- The Kubernetes object of an object of the DCL: its spec and status, and the fields that
go elsewhere. -/
namespace ConfigConnector.Dcl

open K8s
open Managed (GroupVersionKind)

section Trimming

def isListOfStringInterfaceMaps (items : List Value) : Bool :=
  !items.isEmpty && items.all fun item => item matches .map _

mutual

/-- What `TrimNilFields` leaves of a value. -/
def trimValue : Value → Value
  | .map fields =>
    .map ((trimEntries fields).filter fun entry => !(Value.get fields entry.1).isNil)
  | .list items =>
    if isListOfStringInterfaceMaps items then .list (trimItems items) else .list items
  | value => value

def trimEntries : Fields → Fields
  | [] => []
  | (key, value) :: rest => (key, trimValue value) :: trimEntries rest

def trimItems : List Value → List Value
  | [] => []
  | item :: rest => trimValue item :: trimItems rest

end

def trimNilFields (obj : Fields) : Fields :=
  (trimEntries obj).filter fun entry => !(Value.get obj entry.1).isNil

end Trimming

section Status

/-- The dotted name of a field. -/
def qualifiedName (path k : String) : String := if path = "" then k else path ++ "." ++ k

/-- `strings.Split(path, ".")`. -/
def splitPath (path : String) : List String := (Text.split '.' path.toList).map String.ofList

mutual

/-- The dotted names of the read-only fields that have a value, behind the `paths` found so
far. A map is read with the schema of its elements. -/
def getStatusFieldsWithValuePopulated (path : String) (val : Value) (paths : List String) :
    Schema → Except Failure (List String)
  | .mk _ true _ _ _ _ => if val.isNil then .ok paths else .ok (paths ++ [path])
  | .mk .object false _ _ (some inner) _ =>
    match val with
    | .null | .map [] => .ok paths
    | .map obj => getStatusFieldsWithValuePopulated path (.map obj) paths inner
    | _ => expectedMap "" val
  | .mk .object false _ properties none _ =>
    match val with
    | .null => .ok paths
    | .map obj =>
      obj.foldlM (fun paths entry => statusFieldsOf path entry.1 entry.2 paths properties) paths
    | _ => expectedMap "" val
  | .mk _ false _ _ _ _ => .ok paths

/-- The body of the loop over the entries of an object. -/
def statusFieldsOf (path k : String) (v : Value) (paths : List String) :
    Properties → Except Failure (List String)
  | [] => .ok paths
  | (field, s) :: rest =>
    if field = k then
      wrapError ("error getting status fields with value from " ++ qualifiedName path k)
        (getStatusFieldsWithValuePopulated (qualifiedName path k) v paths s)
    else statusFieldsOf path k v paths rest

end

/-- `k8s.ReservedStatusFieldNames`. -/
def reservedStatusFieldNames : List String := ["observedGeneration", "conditions", "generation"]

def uppercaseInitial (str : String) : String :=
  match str.toList with
  | [] => ""
  | c :: rest => String.ofList (c.toUpper :: rest)

def renameStatusFieldWithReservedName (field : String) : String :=
  "resource" ++ uppercaseInitial field

/-- The name of a field at the top of the status. -/
def statusFieldName (field : String) : String :=
  if reservedStatusFieldNames.contains field then renameStatusFieldWithReservedName field else field

def renameStatusFieldIfCollidesWithReservedName : List String → List String
  | [] => []
  | first :: rest => statusFieldName first :: rest

def liftError {α : Type} : Except GoError α → Except Failure α
  | .ok value => .ok value
  | .error err => .error (.error err)

/-- The body of the loop over the paths. -/
def setStatusField (obj status : Fields) (path : String) : Except Failure Fields := do
  let found ← wrapError ("error copying the value for status field " ++ path)
    (liftError (Value.nestedField (.map obj) (splitPath path)))
  match found, renameStatusFieldIfCollidesWithReservedName (splitPath path) with
  | none, _ => fail ("couldn't find the value for status field " ++ path)
  | some _, [] => throw .panic
  | some val, first :: rest =>
    wrapError ("error setting the value for status field " ++ path)
      (liftError (setNestedField val [] status first rest))

def convertToKRMStatus (obj : Fields) (schema : Schema) : Except Failure Fields := do
  let paths ← wrapError "error getting status fields from DCL object"
    (getStatusFieldsWithValuePopulated "" (.map obj) [] schema)
  paths.foldlM (setStatusField obj) []

end Status

section Lifting

variable (obj : Fields) (schema : Schema)

/-- The schema at a path of properties. -/
def schemaAt : Schema → List String → Option Schema
  | s, [] => some s
  | s, field :: rest => (s.properties.lookup field).bind fun inner => schemaAt inner rest

/-- `GetLabelsFieldSchema`, without the schema that it finds; `none` is a schema without
labels. -/
def getLabelsField : Except Failure (Option String) :=
  match schema.extension.lookup "x-dcl-labels" with
  | none => .ok none
  | some (.string labelsField) =>
    if labelsField = "" then fail "'x-dcl-labels' field exists, but is an empty string"
    else match schemaAt schema (splitPath labelsField) with
      | none => fail ("couldn't find the schema for field " ++ labelsField)
      | some _ => .ok (some labelsField)
  | some raw => fail ("wrong type for 'x-dcl-labels' extension: " ++ raw.typeName ++
      ", expect to have string type")

/-- `v.(string)` for every value. -/
def asStrings (valMap : Fields) : Except Failure Fields :=
  valMap.mapM fun entry =>
    match entry.2 with
    | .string value => .ok (entry.1, .string value)
    | _ => .error .panic

/-- `SetLabels` and `SetAnnotations`, which ignore errors. -/
def setMetadata (field : String) (values obj : Fields) : Fields :=
  match setNestedField (.map values) [] obj "metadata" [field] with
  | .ok written => written
  | .error _ => obj

def liftDCLLabelsField : Except Failure Fields := do
  match ← wrapError "error getting DCL labels field" (getLabelsField schema) with
  | none => return obj
  | some labelsField =>
    match ← wrapError "error getting labels"
        (liftError (Value.nestedMap (.map obj) ["spec", labelsField])) with
    | none => return obj
    | some valMap =>
      let labels ← asStrings valMap
      return removeNestedField (setMetadata "labels" labels obj) "spec" [labelsField]

def getContainerFieldName : Except Failure (Option String) :=
  match schema.extension.lookup "x-dcl-parent-container" with
  | none => .ok none
  | some (.string container) => .ok (some container)
  | some raw => fail ("wrong type for 'x-dcl-parent-container' extension: " ++ raw.typeName ++
      ", expect to have string type")

/-- `GetAnnotations`: nil if they are not strings. -/
def getAnnotations : Fields :=
  match Value.nestedField (.map obj) ["metadata", "annotations"] with
  | .ok (some (.map annotations)) =>
    if annotations.all fun entry => entry.2 matches .string _ then annotations else []
  | _ => []

def containerKey (container : String) : String :=
  "cnrm.cloud.google.com/" ++ container ++ "-id"

def liftDCLContainerField : Except Failure Fields := do
  match ← wrapError "error getting the container field name" (getContainerFieldName schema) with
  | none => return obj
  | some container =>
    match ← wrapError ("couldn't get the value for container field " ++ container)
        (liftError (Value.nestedString (.map obj) ["spec", container])) with
    | none => fail ("couldn't get the value for container field " ++ container ++ ": %!w(<nil>)")
    | some val =>
      let annotations := Dict.set (containerKey container) (.string val)
        (getAnnotations obj)
      return removeNestedField (setMetadata "annotations" annotations obj) "spec" [container]

def convertToKRMResourceIDField : Except Failure Fields :=
  match schema.properties.lookup "name" with
  | none => .ok obj
  | some s =>
    if s.readOnly then .ok obj
    else do
      match ← wrapError "error getting the value of 'name' field"
          (liftError (Value.nestedString (.map obj) ["spec", "name"])) with
      | none => fail "'name' field is not found"
      | some val =>
        let obj ← wrapError "error setting resourceID field"
          (liftError (setNestedField (.string val) [] obj "spec" ["resourceID"]))
        return removeNestedField obj "spec" ["name"]

/-- The special handling of the labels, the container and the name. -/
def liftFields (services : Services) (schema : Schema) (obj : Fields) : Except Failure Fields := do
  let obj ← wrapError "error lifting 'labels' field to metadata.labels"
    (liftDCLLabelsField obj schema)
  let obj ← (if services.supportsHierarchicalReferences then .ok obj
    else wrapError "error lifting container field to annotation" (liftDCLContainerField obj schema))
  wrapError "error converting 'name' field to 'resourceID'" (convertToKRMResourceIDField obj schema)

end Lifting

structure ServiceTypeVersion where
  service : String
  type : String
  version : String
  deriving DecidableEq, Repr

def ServiceTypeVersion.text (stv : ServiceTypeVersion) : String :=
  "\x7b" ++ stv.service ++ " " ++ stv.type ++ " " ++ stv.version ++ "\x7d"

/-- `GroupVersion().String()`. -/
def apiVersion (gvk : GroupVersionKind) : String :=
  if gvk.group = "" then gvk.version else gvk.group ++ "/" ++ gvk.version

/-- What the converter is given: the kinds of the resources, their metadata and their
schemas. -/
structure Loaders where
  toGroupVersionKind : ServiceTypeVersion → Except Failure GroupVersionKind
  getResourceWithGVK : GroupVersionKind → Option Services
  getDCLSchema : ServiceTypeVersion → Option Schema

/-- `dclunstruct.Resource`. -/
structure DclResource where
  stv : ServiceTypeVersion
  object : Fields

/-- A part of the object is stored only if there is something in it. -/
def storePart (part : String) (fields obj : Fields) : Fields :=
  if fields.isEmpty then obj else Dict.set part (.map fields) obj

/-- `DCLObjectToKRMObject` once the metadata and the schema are there. The object has no
namespace and no name yet. -/
def convertObject (services : Services) (schema : Schema) (object obj : Fields) :
    Except Failure Fields := do
  let spec ← wrapError "error extracting the spec from the DCL resource /"
    (convertToKRMSpec services (.map object) [] false schema)
  let obj ← match spec with
    | .null => .ok obj
    | .map specMap => .ok (storePart "spec" specMap obj)
    | _ => fail ("expected the converted spec to be map[string]interface\x7b\x7d but was " ++
        "actually " ++ spec.typeName)
  let status ← wrapError "error extracting the status from the DCL resource /"
    (convertToKRMStatus object schema)
  liftFields services schema (storePart "status" status obj)

def dclObjectToKRMObject (loaders : Loaders) (resource : DclResource) : Except Failure Fields := do
  let gvk ← wrapError ("error resolving GroupVersionKind from the DCL ServiceTypeVersion " ++
    resource.stv.text) (loaders.toGroupVersionKind resource.stv)
  let obj : Fields := [("apiVersion", .string (apiVersion gvk)), ("kind", .string gvk.kind)]
  match loaders.getResourceWithGVK gvk, loaders.getDCLSchema resource.stv with
  | none, _ =>
    fail ("ServiceMetadata for resource with GroupVersionKind " ++ gvk.text ++ " not found")
  | some _, none =>
    fail ("error getting the DCL schema for ServiceTypeVersion " ++ resource.stv.text)
  | some services, some schema =>
    if schema.type ≠ .object then
      fail ("expect the entry level DCL OpenAPI schema to be object type, but got " ++
        schema.type.text)
    else convertObject services schema (trimNilFields resource.object) obj

end ConfigConnector.Dcl
