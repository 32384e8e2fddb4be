import ConfigConnector.Krmtotf.Schema
import ConfigConnector.Lib.Fallible

/- From Kubernetes objects to Terraform objects. -/
namespace ConfigConnector.Krmtotf

open K8s

/-- `tfresource.IsConfigurableField`. -/
def isConfigurableField (a : Attributes) : Bool := a.required || a.optional

/-- `tfresource.IsSensitiveConfigurableField`. -/
def isSensitiveConfigurableField (a : Attributes) : Bool := a.sensitive && isConfigurableField a

def toList (obj : Value) (maxItems : Nat) : Except GoError (List Value) :=
  match obj with
  | .null => .ok []
  | .list items => .ok items
  | .map fields =>
    if maxItems = 1 then .ok [.map fields]
    else .error (.plain "cannot interpret map as list without maxItems == 1")
  | other => .error (.plain ("cannot interpret non-list " ++ other.typeName ++ " as list"))

variable (includeConfigurableFieldsOnly : Bool)

mutual

/-- `convertToTF`. -/
def convertToTF (obj : Value) : Schema → Except GoError Value
  | .mk attributes elem =>
    match attributes.type with
    | .bool | .float | .string | .int | .map => .ok obj
    | .list | .set => do
      let items ← toList obj attributes.maxItems
      let retList ← items.mapM fun item => convertItem item elem
      return .list retList
    | .invalid => .error (.plain "schema type is invalid")

/-- One round of the loop over the items of a list. -/
def convertItem (item : Value) : Elem → Except GoError Value
  | .none => .error (.plain "unknown elem type")
  | .schema elem => (convertToTF item elem).mapError
      (.wrap "error converting list item")
  | .resource fields =>
    match item with
    | .map obj => (obj.foldlM (fun ret entry =>
      convertEntry entry.1 entry.2 ret fields) []).map .map
      |>.mapError (.wrap "error converting map list item")
    | _ => .error (.plain "expected list item to be map but was not")

/-- One round of the loop of `krmObjectToTFObject` over the entries of an object: the field of
the schema with the name of the entry, if there is one. -/
def convertEntry (k : String) (v : Value) (ret : Fields) : SchemaMap → Except GoError Fields
  | [] => .ok ret
  | (name, s) :: rest =>
    if Text.asSnakeCase k = name then
      if includeConfigurableFieldsOnly && !isConfigurableField s.attributes then .ok ret
      else (convertToTF v s).map (fun val => Dict.set name val ret)
        |>.mapError (.wrap ("error converting '" ++ k ++ "'"))
    else convertEntry k v ret rest

end

/-- `krmObjectToTFObject` of an object that is not nil. -/
def krmObjectToTFObject (obj : Fields) (fields : SchemaMap) : Except GoError Fields :=
  obj.foldlM (fun ret entry =>
    convertEntry includeConfigurableFieldsOnly entry.1 entry.2 ret fields) []

end ConfigConnector.Krmtotf
