import ConfigConnector.Krmtotf.Schema

/- The webhook that rejects updates of immutable fields, for resources that are managed
through Terraform. A failed type assertion ends the request with a panic, which is `none`. -/
namespace ConfigConnector.Webhook

open K8s Krmtotf

section Annotations

/-- `annotations[key]`: an annotation that is not there reads as the empty string. -/
def annotationValue (annotations : StringMap) (key : String) : String :=
  (annotations.lookup key).getD ""

/-- The loop over the other containers in `validateContainerAnnotations`. -/
def rejectOtherContainers (annotations oldAnnotations : StringMap) (c : Container) (a : String) :
    List Container → Option (Except GoError Unit)
  | [] => some (.ok ())
  | otherC :: rest =>
    if c = otherC then rejectOtherContainers annotations oldAnnotations c a rest
    else do
      let otherA ← getAnnotationForContainerType otherC.type
      if (oldAnnotations.lookup a).isSome && (annotations.lookup otherA).isSome then
        return .error (.plain ("cannot change from container annotation " ++ a ++
          " to container annotation " ++ otherA))
      else rejectOtherContainers annotations oldAnnotations c a rest

def validateContainerAnnotations (kind : String) (annotations oldAnnotations : StringMap)
    (containers : List Container) : List Container → Option (Except GoError Unit)
  | [] => some (.ok ())
  | c :: rest => do
    let a ← getAnnotationForContainerType c.type
    if annotationValue oldAnnotations a = annotationValue annotations a then
      validateContainerAnnotations kind annotations oldAnnotations containers rest
    else if kind ≠ "Project" ∧ kind ≠ "Folder" then
      return .error (.plain ("cannot make changes to container annotation " ++ a))
    else
      match ← rejectOtherContainers annotations oldAnnotations c a containers with
      | .error err => return .error err
      | .ok () => validateContainerAnnotations kind annotations oldAnnotations containers rest

def validateDeprecatedContainerAnnotations (annotations oldAnnotations : StringMap)
    (hierarchicalRefs : List HierarchicalReference) :
    List Container → Option (Except GoError Unit)
  | [] => some (.ok ())
  | c :: rest => do
    let a ← getAnnotationForContainerType c.type
    if annotationValue oldAnnotations a = annotationValue annotations a ∨
        annotationValue annotations a = "" then
      validateDeprecatedContainerAnnotations annotations oldAnnotations hierarchicalRefs rest
    else
      return .error (.plain ("cannot add/change container annotation " ++ a ++
        " as it is no longer supported by the resource; set one of [" ++
        ", ".intercalate (hierarchicalReferencesToFields hierarchicalRefs) ++ "] instead"))

def validateContainerAnnotationsForResource (kind : String)
    (annotations oldAnnotations : StringMap) (containers : List Container)
    (hierarchicalRefs : List HierarchicalReference) : Option (Except GoError Unit) :=
  if hierarchicalRefs.isEmpty then
    validateContainerAnnotations kind annotations oldAnnotations containers containers
  else
    validateDeprecatedContainerAnnotations annotations oldAnnotations hierarchicalRefs containers

end Annotations

section Comparison

def getQualifiedFieldName (above fieldName : String) : String :=
  if above != "" then above ++ "." ++ fieldName else fieldName

/-- `isReferenceValRawModified`: whether the reference was changed, and its key. -/
def isReferenceValRawModified (obj oldObj : Fields) (refConfig : ReferenceConfig) :
    Bool × String :=
  let referenceFieldKey := getKeyForReferenceField refConfig
  (!(Value.get obj referenceFieldKey).deepEqual (Value.get oldObj referenceFieldKey),
    referenceFieldKey)

/-- What a reference field adds to `fields`. -/
def compareReference (attributes : Attributes) (obj oldObj : Fields) (above : String)
    (refConfig : ReferenceConfig) : List String :=
  if !attributes.forceNew then []
  else
    let (modified, refKey) := isReferenceValRawModified obj oldObj refConfig
    if modified then [getQualifiedFieldName above refKey] else []

/-- What a field that is compared as a whole adds to `fields`. -/
def compareWhole (attributes : Attributes) (qualifiedName : String) (v1 v2 : Value) :
    List String :=
  if attributes.forceNew && !v1.deepEqual v2 then [qualifiedName] else []

/-- The keys of the map that `getIgnoredFields` makes. -/
def getIgnoredFields (rc : ResourceConfig) : List String :=
  rc.ignoredFields ++ [rc.metadataMapping.name, rc.metadataMapping.labels]

/-- `v.(map[string]interface{})` where `v` is not nil; nil gives a nil map. -/
def asObject : Value → Option Fields
  | .null => some []
  | .map fields => some fields
  | _ => none

mutual

/-- `compareAndFindChangesOnImmutableFields`: what it adds to `fields`. -/
def compareAndFindChangesOnImmutableFields (rc : ResourceConfig) (obj oldObj : Fields)
    (above : String) : SchemaMap → Option (List String)
  | [] => some []
  | (k, s) :: rest => do
    let changes ← compareField rc obj oldObj above k s
    let others ← compareAndFindChangesOnImmutableFields rc obj oldObj above rest
    return changes ++ others

/-- The body of the loop. -/
def compareField (rc : ResourceConfig) (obj oldObj : Fields) (above k : String) :
    Schema → Option (List String)
  | .mk attributes elem =>
    if (getIgnoredFields rc).contains (getQualifiedFieldName above k) then some []
    else match isReferenceField (getQualifiedFieldName above k) rc with
      | some refConfig => some (compareReference attributes obj oldObj above refConfig)
      | none =>
        let v1 := Value.get obj (Text.snakeCaseToLowerCamelCase k)
        let v2 := Value.get oldObj (Text.snakeCaseToLowerCamelCase k)
        if v1.isNil && v2.isNil then some []
        else if (v1.isNil || v2.isNil) && attributes.forceNew then
          some [getQualifiedFieldName above k]
        else compareValues rc attributes (getQualifiedFieldName above k) v1 v2 elem

/-- The `switch` on the type of a field, with the one on its element outside. -/
def compareValues (rc : ResourceConfig) (attributes : Attributes) (qualifiedName : String)
    (v1 v2 : Value) : Elem → Option (List String)
  | .resource fields =>
    match attributes.type with
    | .bool | .float | .string | .int | .map =>
      some (compareWhole attributes qualifiedName v1 v2)
    | .list | .set =>
      if attributes.maxItems = 1 then do
        let o1 ← asObject v1
        let o2 ← asObject v2
        compareAndFindChangesOnImmutableFields rc o1 o2 qualifiedName fields
      -- a list of objects is compared by the controller, not here
      else some []
    | .invalid => some []
  | .schema _ =>
    match attributes.type with
    | .bool | .float | .string | .int | .map | .list | .set =>
      some (compareWhole attributes qualifiedName v1 v2)
    | .invalid => some []
  | .none =>
    match attributes.type with
    | .bool | .float | .string | .int | .map =>
      some (compareWhole attributes qualifiedName v1 v2)
    | .list | .set | .invalid => some []

end

end Comparison

section Response

/-- Why a request is refused. -/
inductive Rejection where
  | failed (err : GoError)
  | immutableFieldsMutation (fields : List String)

/-- `admission.Response`: `allowedResponse`, or `admission.Errored`. -/
inductive Response where
  | allowed
  | errored (code : Nat) (reason : Rejection)

/-- An object under review, as far as these checks read it. -/
structure Reviewed where
  kind : String
  annotations : StringMap
  spec : Fields

def findChangesOnImmutableResourceIDField (spec oldSpec : Fields) (rc : ResourceConfig) : Bool :=
  if rc.resourceIDTargetField = "" then false
  else !(Value.get spec "resourceID").deepEqual (Value.get oldSpec "resourceID")

def findChangesOnImmutableLocationField (obj oldObj : Fields) (rc : ResourceConfig) : Bool :=
  if rc.locationality = "" then false
  else !(Value.get obj "location").deepEqual (Value.get oldObj "location")

def constructCamelCasePath (path : String) : String :=
  ".".intercalate ((Text.split '.' path.toList).map fun f =>
    Text.snakeCaseToLowerCamelCase (String.ofList f))

/-- `validateImmutableFieldsForTFBasedResource`, with what the service mappings and the
provider have for the object. -/
def validateImmutableFieldsForTFBasedResource
    (getResourceConfig : Reviewed → Except GoError ResourceConfig)
    (tfResourceMap : String → Option SchemaMap) (obj oldObj : Reviewed) : Option Response :=
  match getResourceConfig obj with
  | .error err => some (.errored 400 (.failed
      (.wrap ("couldn't get ResourceConfig for kind " ++ obj.kind) err)))
  | .ok rc => do
    match ← validateContainerAnnotationsForResource obj.kind obj.annotations oldObj.annotations
        rc.containers rc.hierarchicalReferences with
    | .error err => return .errored 400 (.failed
        (.wrap "error validating container annotations" err))
    | .ok () =>
      match tfResourceMap rc.name with
      | none => return .errored 500 (.failed (.plain ("unknown resource " ++ rc.name)))
      | some r =>
        if findChangesOnImmutableResourceIDField obj.spec oldObj.spec rc then
          return .errored 403 (.immutableFieldsMutation ["spec.resourceID"])
        else if findChangesOnImmutableLocationField obj.spec oldObj.spec rc then
          return .errored 403 (.immutableFieldsMutation ["spec.location"])
        else
          let fields ← compareAndFindChangesOnImmutableFields rc obj.spec oldObj.spec "" r
          if fields.length ≠ 0 then
            return .errored 400 (.immutableFieldsMutation (fields.map constructCamelCasePath))
          else return .allowed

end Response

end ConfigConnector.Webhook
