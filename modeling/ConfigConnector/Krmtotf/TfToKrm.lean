import ConfigConnector.K8s.ManagedFields
import ConfigConnector.Krmtotf.KrmToTf
import ConfigConnector.Lib.GoMap
import ConfigConnector.Text.DottedPath

/- From the state of Terraform to the spec of a Kubernetes object. A failed type assertion
is a panic, which is `none`. -/
namespace ConfigConnector.Krmtotf

open K8s GoMap

section Config

variable (rc : ResourceConfig)

def supportsHierarchicalReferences : Bool := !rc.hierarchicalReferences.isEmpty

def isIgnoredField (field : String) : Bool := rc.ignoredFields.contains field

def isOverriddenField (field : String) (ignoreOutputOnlySpecFields : Bool) : Bool :=
  field == rc.metadataMapping.name || field == rc.metadataMapping.labels ||
    (rc.locationality != "" && (field == "zone" || field == "region")) ||
    isIgnoredField rc field || rc.directives.contains field ||
    (!supportsHierarchicalReferences rc && rc.containers.any fun c => field == c.tfField) ||
    (ignoreOutputOnlySpecFields &&
      (rc.ignoredOutputOnlySpecFields.getD []).contains field)

def isGCPManagedField (kind field : String) : Bool :=
  match kind with
  | "SQLInstance" => field == "settings.disk_size"
  | "ContainerCluster" => field == "node_version"
  | "ContainerNodePool" => field == "version" || field == "node_count" ||
      field == "initial_node_count"
  | "BigQueryConnectionConnection" => field == "cloud_resource.service_account_id"
  | _ => false

def containsReferenceField (qualifiedName : String) : Bool :=
  rc.resourceReferences.any fun refConfig => refConfig.tfField.startsWith qualifiedName

/-- `getPathToReferenceKey`: the camel case of the whole path is split, and a key replaces its
last part. -/
def getPathToReferenceKey (refConfig : ReferenceConfig) : List String :=
  let path := Text.components (Text.snakeCaseToLowerCamelCase refConfig.tfField)
  if refConfig.key != "" then path.dropLast ++ [refConfig.key] else path

end Config

/-- `convertTFReferenceToKCCReference`; nil is a reference that is not there. -/
def convertTFReferenceToKCCReference (tfField specKey : String) (state prevSpec : Fields)
    (refConfig : ReferenceConfig) : Option Value :=
  match prevSpec.lookup specKey with
  | some prevSpecVal => some prevSpecVal
  | none =>
    match Value.get state tfField with
    | .null => some .null
    | .string stateVal =>
      if stateVal = "" then some .null
      else match refConfig.types with
        | defaultType :: _ =>
          if defaultType.jsonSchemaType ≠ "" then
            some (.map [(defaultType.key, .string stateVal)])
          else some (.map [(defaultType.key, externalReference stateVal)])
        | [] => some (externalReference stateVal)
    | .list [] => some .null
    | .list items => do
      let refs ← items.mapM fun elem => match elem with
        | .string external => match refConfig.types with
            | defaultType :: _ => some (.map [(defaultType.key, externalReference external)])
            | [] => some (externalReference external)
        | _ => none
      return .list refs
    | _ => none

/-- The name of a field below the path `above`. -/
def qualify (above field : String) : String := if above != "" then above ++ "." ++ field else field

/-- What the conversion of a resource depends on. The hash of an element of a set is that of
the provider, of `asHashable` of the element. -/
structure Conversion where
  rc : ResourceConfig
  ignoreOutputOnlySpecFields : Bool
  hash : Schema → Value → Option Int

/-- Whether a bool or a number of the state is left out: those that are zero are noise of the
provider unless there is another default. -/
def prunes (a : Attributes) (stateVal : Value) (zero : Bool) : Bool :=
  !a.required && zero &&
    match a.default with
    | none => true
    | some value => value.deepEqual stateVal

/-- The value of a scalar or a map that is not managed, if it is kept. -/
def convertScalar (c : Conversion) (a : Attributes) (stateVal : Value) :
    Option (Option Value) :=
  match a.type, stateVal with
  | .bool, .bool value => some (if prunes a stateVal !value then none else some stateVal)
  | .float, .float printed | .int, .float printed =>
    some (if prunes a stateVal (Value.isZeroFloat printed) then none else some stateVal)
  | .bool, _ | .float, _ | .int, _ => if a.required then some (some stateVal) else none
  | .string, .string value =>
    if value = "" then some none
    else if isSensitiveConfigurableField a then
      if c.rc.name = "google_sql_database_instance" ∨
          c.rc.name = "google_compute_backend_service" ∨
          c.rc.name = "google_compute_region_backend_service" then some none
      else some (some (.map [("value", stateVal)]))
    else some (some stateVal)
  | .map, .map m => some (if m.isEmpty then none else some stateVal)
  | _, _ => none

section Sets

variable (hash : Value → Option Int) (asTF : Value → Option Value)
  (convertElem : Orders → Value → Value → Option Value)

/-- The elements of a state under their hashes. -/
def stateHashMap (list : List Value) : Option (AList fun _ : Int => Value) :=
  list.foldlM (fun m val => do return m.insert (← hash val) val) ∅

/-- The loop over the elements of the previous spec, with what it leaves of the state. -/
def convertPrevious (orders : Orders) : List Value → (AList fun _ : Int => Value) →
    Option (List Value × AList fun _ : Int => Value)
  | [], stateElems => some ([], stateElems)
  | prevElem :: rest, stateElems =>
    if prevElem.isNil then do
      let (converted, left) ← convertPrevious (orders.below 1) rest stateElems
      return (.null :: converted, left)
    else do
      let prevHash ← hash (← asTF prevElem)
      let stateElem := (stateElems.lookup prevHash).getD (.map [])
      let elem ← convertElem (orders.below 0) stateElem prevElem
      let (converted, left) ← convertPrevious (orders.below 1) rest (stateElems.erase prevHash)
      return (elem :: converted, left)

/-- `convertTFSetToKCCSet` from the point where the state is looked at: first the elements of
the previous spec, then what is new, in any order. -/
def convertSetElems (orders : Orders) (list prevList : List Value) : Option (List Value) := do
  let stateElems ← stateHashMap hash list
  let (kept, left) ← convertPrevious hash asTF convertElem (orders.below 0) prevList stateElems
  let new ← (range orders.here left).zipIdx.mapM fun (newElem, idx) =>
    convertElem ((orders.below 1).below idx) newElem.2 .null
  return kept ++ new

end Sets

/-- The map that a loop of assignments leaves. -/
def assign (entries : Fields) : Fields :=
  entries.foldl (fun ret entry => Dict.set entry.1 entry.2 ret) []

/-- The map that `convertTFMapToKCCMap` returns, if it is not nil. -/
def asObject (entries : Fields) : Option Value :=
  if entries.isEmpty then none else some (.map (assign entries))

/-- One round of the loop of `convertTFMapToKCCMap`: what it assigns, where `converted` is the
value of a field that is no reference. -/
def assignment (c : Conversion) (state prevSpec : Fields) (above field : String)
    (converted : Option (Option Value)) : Option (Option (String × Value)) :=
  if isOverriddenField c.rc (qualify above field) c.ignoreOutputOnlySpecFields then some none
  else match isReferenceField (qualify above field) c.rc with
    | some refConfig =>
      (convertTFReferenceToKCCReference field (getKeyForReferenceField refConfig) state prevSpec
        refConfig).map fun val =>
          if val.isNil then none else some (getKeyForReferenceField refConfig, val)
    | none => converted.map fun val => val.map (Text.snakeCaseToLowerCamelCase field, ·)

mutual

/-- The assignments of `convertTFMapToKCCMap`. -/
def convertedEntries (c : Conversion) (orders : Orders) (state prevSpec : Fields)
    (above : String) (managedFields : Option FieldSet) : SchemaMap → Option Fields
  | [] => some []
  | (field, s) :: rest => do
    let entry ← assignment c state prevSpec above field
      (convertField c (orders.below 0) state prevSpec above managedFields field s)
    let others ← convertedEntries c (orders.below 1) state prevSpec above managedFields rest
    return entry.toList ++ others

/-- The value of a field that is no reference, if it is kept. -/
def convertField (c : Conversion) (orders : Orders) (state prevSpec : Fields) (above : String)
    (managedFields : Option FieldSet) (field : String) : Schema → Option (Option Value)
  | .mk attributes elem =>
    let key := Text.snakeCaseToLowerCamelCase field
    let stateVal := Value.get state field
    let prevSpecVal := Value.get prevSpec key
    let isManaged := isK8sManaged key prevSpec managedFields
    if stateVal.isNil then
      some (if !prevSpecVal.isNil && isManaged then some prevSpecVal else none)
    else if isGCPManagedField c.rc.kind (qualify above field) then some (some stateVal)
    else match attributes.type with
      | .list | .set =>
        convertList c orders stateVal prevSpecVal (qualify above field)
          (nestedManagedFields key managedFields) attributes elem
      | .invalid => none
      | _ => if isManaged then some (some prevSpecVal) else convertScalar c attributes stateVal

/-- The value of a list or a set, if it is kept. A list of at most one item is an object. -/
def convertList (c : Conversion) (orders : Orders) (stateVal prevSpecVal : Value) (name : String)
    (nested : Option FieldSet) (attributes : Attributes) : Elem → Option (Option Value)
  | .none =>
    match stateVal with
    | .list [] => some none
    | .list _ =>
      if attributes.maxItems = 1 then none
      else if attributes.type = .set ∧ isConfigurableField attributes then
        if containsReferenceField c.rc name && !prevSpecVal.isNil then some (some prevSpecVal)
        else none
      else some none
    | _ => none
  | .schema element =>
    match stateVal with
    | .list [] => some none
    | .list items =>
      if attributes.maxItems = 1 then none
      else if attributes.type = .set ∧ isConfigurableField attributes then
        if containsReferenceField c.rc name && !prevSpecVal.isNil then some (some prevSpecVal)
        else (convertSetElems (c.hash (.mk attributes (.schema element))) some
          (fun _ tfObj prevElem => some (if prevElem.isNil then tfObj else prevElem)) orders
          items prevSpecVal.items).map fun elems => some (.list elems)
      else some (some stateVal)
    | _ => none
  | .resource fields =>
    match stateVal with
    | .list [] => some none
    | .list (first :: rest) =>
      if attributes.maxItems = 1 then
        match first with
        | .map tfObjMap =>
          (convertedEntries c orders tfObjMap prevSpecVal.entries name nested fields).map asObject
        | _ => none
      else if attributes.type = .set ∧ isConfigurableField attributes then
        if containsReferenceField c.rc name && !prevSpecVal.isNil then some (some prevSpecVal)
        else (convertSetElems (c.hash (.mk attributes (.resource fields)))
          (fun prevElem => match prevElem with
            | .map prevObj => (krmObjectToTFObject false prevObj fields).toOption.map .map
            | _ => none)
          (fun orders tfObj prevElem =>
            (convertedEntries c orders tfObj.entries prevElem.entries name none fields).map
              fun entries => (asObject entries).getD .null) orders
          (first :: rest) prevSpecVal.items).map fun elems => some (.list elems)
      else do
        let elems ← (first :: rest).zipIdx.mapM fun (elem, idx) => match elem with
          | .map tfObjMap => convertedEntries c (orders.below idx) tfObjMap
              (prevSpecVal.items.getD idx .null).entries name none fields
          | _ => none
        let retObjList := elems.filterMap asObject
        return if retObjList.isEmpty then none else some (.list retObjList)
    | _ => none

end

/-- `convertTFMapToKCCMap`; an empty map is returned as nil. -/
def convertTFMapToKCCMap (c : Conversion) (orders : Orders) (state prevSpec : Fields)
    (schemas : SchemaMap) (above : String) (managedFields : Option FieldSet) : Option Fields :=
  (convertedEntries c orders state prevSpec above managedFields schemas).map assign

end ConfigConnector.Krmtotf
