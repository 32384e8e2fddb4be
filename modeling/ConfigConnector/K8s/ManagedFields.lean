import ConfigConnector.K8s.Values

/- The fields of a spec that someone other than the controller manages. -/
namespace ConfigConnector.K8s

/-- `fieldpath.Set`. Lists are atomic in the specs, so a path element is a field name. -/
inductive FieldSet where
  | mk (members : List String) (children : List (String × FieldSet))

namespace FieldSet

def members : FieldSet → List String
  | mk members _ => members

def children : FieldSet → List (String × FieldSet)
  | mk _ children => children

/-- `fieldpath.NewSet()`. -/
def empty : FieldSet := mk [] []

end FieldSet

/-- `IsK8sManaged`; without a set, everything in the spec is managed. -/
def isK8sManaged (key : String) (specObj : Fields) : Option FieldSet → Bool
  | none => (specObj.lookup key).isSome
  | some managedFields =>
    managedFields.members.contains key || (managedFields.children.lookup key).isSome

/-- The managed fields of a nested object. -/
def nestedManagedFields (key : String) (managedFields : Option FieldSet) : Option FieldSet :=
  managedFields.map fun set => (set.children.lookup key).getD .empty

end ConfigConnector.K8s
