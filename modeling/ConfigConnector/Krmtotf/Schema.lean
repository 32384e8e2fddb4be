import ConfigConnector.K8s.HierarchicalReferences
import ConfigConnector.Text.Case

/- Terraform schemas, and what the service mappings say about a resource. -/
namespace ConfigConnector.Krmtotf

open K8s

/-- `schema.ValueType`. -/
inductive ValueType where
  | invalid
  | bool
  | int
  | float
  | string
  | list
  | map
  | set
  deriving DecidableEq, Repr

/-- The fields of a `schema.Schema` other than its element. An `int` default and a
`float64` default are an integer and a float. -/
structure Attributes where
  type : ValueType
  optional : Bool := false
  required : Bool := false
  forceNew : Bool := false
  sensitive : Bool := false
  default : Option Value := none
  maxItems : Nat := 0
  conflictsWith : List String := []
  exactlyOneOf : List String := []

mutual

/-- `schema.Schema`. -/
inductive Schema where
  | mk (attributes : Attributes) (elem : Elem)

/-- What `Elem` holds: nothing, a `*Schema` or the fields of a `*Resource`. -/
inductive Elem where
  | none
  | schema (element : Schema)
  | resource (fields : List (String × Schema))

end

/-- The fields of a `schema.Resource`, in the order in which a `range` visits them. -/
abbrev SchemaMap : Type := List (String × Schema)

namespace Schema

def attributes : Schema → Attributes
  | mk attributes _ => attributes

def elem : Schema → Elem
  | mk _ elem => elem

@[simp] theorem attributes_mk (a : Attributes) (e : Elem) : (mk a e).attributes = a := rfl

@[simp] theorem elem_mk (a : Attributes) (e : Elem) : (mk a e).elem = e := rfl

/-- A list or set of at most one object is how Terraform writes a nested object. -/
def nestedObject : Schema → Option SchemaMap
  | mk attributes (.resource fields) =>
    if (attributes.type = .list ∨ attributes.type = .set) ∧ attributes.maxItems = 1 then
      some fields
    else none
  | _ => none

/-- A property holds of every schema if it holds of a schema whenever it holds of what
the schema's element is made of. -/
theorem tree {P : Schema → Prop}
    (step : ∀ attributes elem, (∀ element, elem = .schema element → P element) →
      (∀ fields, elem = .resource fields → ∀ name s, (name, s) ∈ fields → P s) →
      P (mk attributes elem)) : ∀ s, P s
  | mk attributes elem => by
    apply step
    · intro element same
      exact tree step element
    intro fields same name s member
    have smaller : sizeOf s < sizeOf fields :=
      lt_trans (by rw [Prod.mk.sizeOf_spec]; omega) (List.sizeOf_lt_of_mem member)
    exact tree step s
termination_by s => sizeOf s
decreasing_by
  all_goals
    subst same
    simp
    omega

end Schema

/-- `v1alpha1.TypeConfig`. -/
structure TypeConfig where
  key : String := ""
  jsonSchemaType : String := ""

/-- `v1alpha1.ReferenceConfig`. -/
structure ReferenceConfig extends TypeConfig where
  tfField : String
  types : List TypeConfig := []

structure MetadataMapping where
  name : String := ""
  labels : String := ""

/-- The fields of a `v1alpha1.ResourceConfig` that the converters and webhooks read. -/
structure ResourceConfig where
  name : String
  kind : String
  locationality : String := ""
  metadataMapping : MetadataMapping := {}
  resourceIDTargetField : String := ""
  resourceReferences : List ReferenceConfig := []
  directives : List String := []
  ignoredFields : List String := []
  ignoredOutputOnlySpecFields : Option (List String) := none
  containers : List Container := []
  hierarchicalReferences : List HierarchicalReference := []

def isReferenceField (qualifiedName : String) (rc : ResourceConfig) : Option ReferenceConfig :=
  rc.resourceReferences.find? fun refConfig => qualifiedName == refConfig.tfField

/-- `GetKeyForReferenceField`: without a key, the last part of the Terraform path. -/
def getKeyForReferenceField (refConfig : ReferenceConfig) : String :=
  if refConfig.key != "" then refConfig.key
  else Text.snakeCaseToLowerCamelCase
    (String.ofList ((Text.split '.' refConfig.tfField.toList).getLastD []))

end ConfigConnector.Krmtotf
