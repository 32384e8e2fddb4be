import ConfigConnector.K8s.Object
import ConfigConnector.K8s.Values
import ConfigConnector.Lib.Fallible

/- The reference of a resource to its project, folder or organization, and its default. The
types of containers and of hierarchical references are the same words; an unknown one is a
panic, which is `none`. -/
namespace ConfigConnector.K8s

open List Option

/-- `v1alpha1.Container`. -/
structure Container where
  type : String
  tfField : String
  valueTemplate : String := ""
  deriving DecidableEq

structure HierarchicalReference where
  type : String
  key : String

def getAnnotationForContainerType : String → Option String
  | "project" => some projectIDAnnotation
  | "folder" => some folderIDAnnotation
  | "organization" => some orgIDAnnotation
  | _ => none

def hierarchicalReferencesToFields (hierarchicalRefs : List HierarchicalReference) :
    List String :=
  hierarchicalRefs.map fun h => "spec." ++ h.key

/-- `ResourceReference{External: external}` in JSON. -/
def externalReference (external : String) : Value :=
  .map (if external = "" then [] else [("external", .string external)])

structure V1alpha1.ResourceReference where
  ns : String := ""
  name : String := ""
  external : String := ""
  deriving DecidableEq

namespace V1alpha1.ResourceReference

/-- One field of the object in `util.Marshal(val, ref)`. The decoder goes on behind a field of
another type and reports the first one; names are compared without regard to case. -/
def decodeField (entry : String × Value) (decoded : ResourceReference × Option GoError) :
    ResourceReference × Option GoError :=
  let mismatch (field : String) : Option GoError :=
    decoded.2.or (some (.plain ("json: cannot unmarshal " ++ entry.2.jsonKind ++
      " into Go struct field ResourceReference." ++ field ++ " of type string")))
  match entry.1.map Char.toLower, entry.2 with
  | "namespace", .string text => ({ decoded.1 with ns := text }, decoded.2)
  | "name", .string text => ({ decoded.1 with name := text }, decoded.2)
  | "external", .string text => ({ decoded.1 with external := text }, decoded.2)
  | _, .null => decoded
  | "namespace", _ => (decoded.1, mismatch "namespace")
  | "name", _ => (decoded.1, mismatch "name")
  | "external", _ => (decoded.1, mismatch "external")
  | _, _ => decoded

/-- `util.Marshal(val, ref)`: the keys are written in order. -/
def ofFields (val : Fields) : Except GoError ResourceReference :=
  let sorted := val.mergeSort fun a b => a.1 ≤ b.1
  match sorted.foldl (fun decoded entry => decodeField entry decoded) ({}, none) with
  | (ref, none) => .ok ref
  | (_, some err) => .error (.wrap "error unmarshalling into processed object" err)

theorem ofFields_external (external : String) :
    ∃ ref, ofFields (externalReference external).entries = .ok ref := by
  have lower : "external".map Char.toLower = "external" := by decide +kernel
  rw [externalReference]
  split
  · exact ⟨{}, by simp [ofFields, Value.entries]⟩
  · exact ⟨{ external := external }, by simp [ofFields, Value.entries, decodeField, lower]⟩

end V1alpha1.ResourceReference

open V1alpha1

/-- The spec of a resource; `none` is a nil map. -/
abbrev Spec : Type := Option Fields

section Functions

variable (spec : Spec) (annotations : StringMap)

/-- The loop of `GetHierarchicalReferenceFromSpec`, with what it has found. -/
def findHierarchicalReference (spec : Fields)
    (found : Option (ResourceReference × HierarchicalReference)) :
    List HierarchicalReference → Except GoError (Option (ResourceReference × HierarchicalReference))
  | [] => .ok found
  | h :: rest => do
    match ← (Value.nestedMap (.map spec) [h.key]).mapError
        (.wrap ("error reading spec." ++ h.key)) with
    | none => findHierarchicalReference spec found rest
    | some val =>
      match found with
      | some (_, hierarchicalRef) =>
        throw (.plain ("only one of spec." ++ h.key ++ " and spec." ++ hierarchicalRef.key ++
          " can be specified"))
      | none =>
        let ref ← (ResourceReference.ofFields val).mapError
          (.wrap ("error marshalling spec." ++ h.key ++ " into a resource reference"))
        findHierarchicalReference spec (some (ref, h)) rest

def getHierarchicalReferenceFromSpec (hierarchicalRefs : List HierarchicalReference) :
    Except GoError (Option (ResourceReference × HierarchicalReference)) :=
  findHierarchicalReference (spec.getD []) none hierarchicalRefs

/-- The loop of `GetContainerAnnotation`, with the value and type it has found. -/
def findContainerAnnotation (found : Option (String × String)) :
    List String → Option (Except GoError (String × String))
  | [] => some (.ok (found.getD ("", "")))
  | c :: rest => do
    let annotation ← getAnnotationForContainerType c
    match annotations.lookup annotation with
    | none => findContainerAnnotation found rest
    | some val =>
      match found with
      | some (_, containerType) =>
        return .error (.plain ("ambiguious container annotation: found for " ++ containerType ++
          " and " ++ c))
      | none => findContainerAnnotation (some (val, c)) rest

def getContainerAnnotation (containerTypes : List String) :
    Option (Except GoError (String × String)) :=
  findContainerAnnotation annotations none containerTypes

def hierarchicalReferenceTypeFor : String → Option String
  | "project" => some "project"
  | "folder" => some "folder"
  | "organization" => some "organization"
  | _ => none

def containerTypeFor (h : HierarchicalReference) : Option String :=
  match h.type with
  | "project" => some "project"
  | "folder" => some "folder"
  | "organization" => some "organization"
  | _ => none

def containerTypesFor : List HierarchicalReference → Option (List String)
  | [] => some []
  | h :: rest =>
    if h.type = "billingAccount" then containerTypesFor rest
    else do
      let type ← containerTypeFor h
      let types ← containerTypesFor rest
      return type :: types

def hierarchicalReferenceWithType (hierarchicalRefs : List HierarchicalReference) (hType : String) :
    Option HierarchicalReference :=
  hierarchicalRefs.find? fun h => h.type == hType

/-- `SetHierarchicalReference`. There is one key, so `SetNestedMap` cannot fail. -/
def setHierarchicalReference (h : HierarchicalReference) (externalVal : String) : Spec :=
  some (Dict.set h.key (externalReference externalVal) (spec.getD []))

/-- `errContainerAnnotationNotFound`, or another error. -/
inductive AnnotationError where
  | notFound
  | other (err : GoError)

def setHierarchicalReferenceUsingContainerAnnotation
    (hierarchicalRefs : List HierarchicalReference) (containerTypes : List String) :
    Option (Except AnnotationError Unit × Spec) := do
  match ← getContainerAnnotation annotations containerTypes with
  | .error err =>
    return (.error (.other (.wrap "error getting container annotation from annotations" err)), spec)
  | .ok (containerVal, containerType) =>
    if containerVal = "" then return (.error .notFound, spec)
    let hType ← hierarchicalReferenceTypeFor containerType
    match hierarchicalReferenceWithType hierarchicalRefs hType with
    | none =>
      return (.error (.other (.plain ("no hierarchical reference found for container type " ++
        containerType))), spec)
    | some h => return (.ok (), setHierarchicalReference spec h containerVal)

/-- The name and the annotations of a namespace. -/
structure Namespace where
  name : String
  annotations : StringMap

/-- `SetDefaultHierarchicalReference` from the annotations of the namespace on. -/
def setFromNamespace (ns : Namespace) (hierarchicalRefs : List HierarchicalReference) :
    Option (Except GoError Unit × Spec) := do
  let nsContainerTypes ← containerTypesFor hierarchicalRefs
  match ← setHierarchicalReferenceUsingContainerAnnotation spec ns.annotations hierarchicalRefs
      nsContainerTypes with
  | (.error (.other err), spec) =>
    return (.error (.wrap ("error setting hierarchical reference using namespace-level " ++
      "container annotation") err), spec)
  | (.ok (), spec) => return (.ok (), spec)
  | (.error .notFound, spec) =>
    match hierarchicalReferenceWithType hierarchicalRefs "project" with
    | some h => return (.ok (), setHierarchicalReference spec h ns.name)
    | none =>
      let possibleAnnotations ← nsContainerTypes.mapM getAnnotationForContainerType
      return (.error (.plain ("resource must have one field among [" ++
        ", ".intercalate (hierarchicalReferencesToFields hierarchicalRefs) ++
        "], or namespace must have one annotation among [" ++
        ", ".intercalate possibleAnnotations ++ "]")), spec)

def setDefaultHierarchicalReference (ns : Namespace)
    (hierarchicalRefs : List HierarchicalReference) (containers : List Container) :
    Option (Except GoError Unit × Spec) :=
  if hierarchicalRefs.isEmpty then some (.ok (), spec)
  else match getHierarchicalReferenceFromSpec spec hierarchicalRefs with
    | .error err =>
      some (.error (.wrap "error getting hierarchical reference from object" err), spec)
    | .ok (some _) => some (.ok (), spec)
    | .ok none =>
      if containers.isEmpty then setFromNamespace spec ns hierarchicalRefs
      else do
        match ← setHierarchicalReferenceUsingContainerAnnotation spec annotations hierarchicalRefs
            (containers.map (·.type)) with
        | (.error (.other err), spec) =>
          return (.error (.wrap ("error setting hierarchical reference using resource-level " ++
            "container annotation") err), spec)
        | (.ok (), spec) => return (.ok (), spec)
        | (.error .notFound, spec) => setFromNamespace spec ns hierarchicalRefs

end Functions

variable {refs : List HierarchicalReference} {fields : Fields} {h : HierarchicalReference}

section Lookups

/-- The spec has the key. -/
def Spec.Has (spec : Spec) (key : String) : Prop := (spec.getD []).lookup key ≠ none

variable {key : String}

theorem nestedMap_absent (absent : fields.lookup key = none) :
    Value.nestedMap (.map fields) [key] = .ok none := by
  simp only [Value.nestedMap, Value.nestedField, Value.nestedFieldFrom, absent]
  rfl

theorem nestedMap_held {val : Fields} (held : fields.lookup key = some (.map val)) :
    Value.nestedMap (.map fields) [key] = .ok (some val) := by
  simp only [Value.nestedMap, Value.nestedField, Value.nestedFieldFrom, held]
  rfl

theorem lookup_of_nestedMap {val : Option Fields}
    (done : Value.nestedMap (.map fields) [key] = .ok val) : fields.lookup key = val.map .map := by
  cases held : fields.lookup key with
  | none =>
    rw [nestedMap_absent held] at done
    cases done
    rfl
  | some value =>
    simp only [Value.nestedMap, Value.nestedField, Value.nestedFieldFrom, held] at done
    cases value with
    | map m =>
      cases done
      rfl
    | _ => cases done

variable {found result : Option (ResourceReference × HierarchicalReference)}

/-- One round that succeeds. -/
theorem findHierarchicalReference_cons
    (done : findHierarchicalReference fields found (h :: refs) = .ok result) :
    (fields.lookup h.key = none ∧ findHierarchicalReference fields found refs = .ok result) ∨
      (found = none ∧ fields.lookup h.key ≠ none ∧
        ∃ ref, findHierarchicalReference fields (some (ref, h)) refs = .ok result) := by
  rw [findHierarchicalReference, Fallible.bind_eq_ok] at done
  obtain ⟨val, read, done⟩ := done
  have nested : Value.nestedMap (.map fields) [h.key] = .ok val := by
    cases value : Value.nestedMap (.map fields) [h.key] with
    | error err =>
      rw [value] at read
      cases read
    | ok other =>
      rw [value] at read
      exact congrArg _ (Except.ok.inj read)
  have lookup := lookup_of_nestedMap nested
  cases val with
  | none => exact .inl ⟨lookup, done⟩
  | some m =>
    cases found with
    | some earlier => cases done
    | none =>
      obtain ⟨ref, _, done⟩ := Fallible.bind_eq_ok.mp done
      exact .inr ⟨rfl, by simp [lookup], ref, done⟩

/-- Behind a reference there is no other. -/
theorem others_absent {first : ResourceReference × HierarchicalReference}
    (done : findHierarchicalReference fields (some first) refs = .ok result) :
    result = some first ∧ ∀ h ∈ refs, fields.lookup h.key = none := by
  induction refs with
  | nil =>
    cases done
    simp
  | cons h rest ih =>
    rcases findHierarchicalReference_cons done with ⟨absent, below⟩ | ⟨no, -⟩
    · obtain ⟨same, others⟩ := ih below
      exact ⟨same, forall_mem_cons.mpr ⟨absent, others⟩⟩
    · cases no

/-- What a search that succeeds says about the spec: the reference that it finds is the only one
there is. -/
theorem findHierarchicalReference_spec
    (done : findHierarchicalReference fields none refs = .ok result) : match result with
    | none => ∀ h ∈ refs, fields.lookup h.key = none
    | some (_, h) => h ∈ refs ∧ fields.lookup h.key ≠ none ∧
        ∀ other ∈ refs, fields.lookup other.key ≠ none → other = h := by
  induction refs with
  | nil =>
    cases done
    simp
  | cons h rest ih =>
    rcases findHierarchicalReference_cons done with ⟨absent, below⟩ | ⟨-, present, ref, below⟩
    · have others := ih below
      cases result with
      | none => exact forall_mem_cons.mpr ⟨absent, others⟩
      | some pair =>
        obtain ⟨member, held, only⟩ := others
        refine ⟨.tail _ member, held, ?_⟩
        exact forall_mem_cons.mpr ⟨fun here => absurd absent here, only⟩
    · obtain ⟨rfl, others⟩ := others_absent below
      refine ⟨.head _, present, ?_⟩
      exact forall_mem_cons.mpr ⟨fun _ => rfl, fun other member held =>
        absurd (others other member) held⟩

theorem findHierarchicalReference_absent (absent : ∀ h ∈ refs, fields.lookup h.key = none) :
    findHierarchicalReference fields found refs = .ok found := by
  induction refs with
  | nil => rfl
  | cons h rest ih =>
    obtain ⟨here, others⟩ := forall_mem_cons.mp absent
    rw [findHierarchicalReference, nestedMap_absent here]
    exact ih others

/-- A reference that is the only one is found. -/
theorem findHierarchicalReference_only {external : String} (member : h ∈ refs)
    (held : fields.lookup h.key = some (externalReference external))
    (keys : (refs.map (·.key)).Nodup)
    (only : ∀ other ∈ refs, other.key ≠ h.key → fields.lookup other.key = none) :
    ∃ ref, findHierarchicalReference fields none refs = .ok (some (ref, h)) := by
  induction refs with
  | nil => cases member
  | cons first rest ih =>
    obtain ⟨fresh, restKeys⟩ := nodup_cons.mp keys
    obtain ⟨firstOnly, restOnly⟩ := forall_mem_cons.mp only
    rcases mem_cons.mp member with rfl | inRest
    · obtain ⟨ref, decoded⟩ := ResourceReference.ofFields_external external
      have object : externalReference external = .map (externalReference external).entries := rfl
      have absent : ∀ other ∈ rest, fields.lookup other.key = none := fun other inRest =>
        restOnly other inRest fun same => fresh (mem_map.mpr ⟨other, inRest, same⟩)
      refine ⟨ref, ?_⟩
      rw [findHierarchicalReference, nestedMap_held (object ▸ held)]
      change ((ResourceReference.ofFields _).mapError _ >>= _) = _
      rw [decoded]
      exact findHierarchicalReference_absent absent
    · have differs : first.key ≠ h.key := fun same =>
        fresh (mem_map.mpr ⟨h, inRest, same.symm⟩)
      obtain ⟨ref, below⟩ := ih inRest restKeys restOnly
      refine ⟨ref, ?_⟩
      rw [findHierarchicalReference, nestedMap_absent (firstOnly differs)]
      exact below

end Lookups

variable {annotations : StringMap} {spec spec' : Spec}

section Annotations

/-- The annotation for the container type `type` has the value `val`. -/
def Annotated (annotations : StringMap) (type val : String) : Prop :=
  ∃ annotation, getAnnotationForContainerType type = some annotation ∧
    annotations.lookup annotation = some val

/-- There is one annotation for these types, it is that for `type`, and it has a value. -/
structure OnlyAnnotation (annotations : StringMap) (types : List String) (type val : String) :
    Prop where
  member : type ∈ types
  annotated : Annotated annotations type val
  filled : val ≠ ""
  only : ∀ other ∈ types, ∀ value, Annotated annotations other value → other = type ∧ value = val

/-- There is no annotation for these types, or it has no value. -/
def NoAnnotation (annotations : StringMap) (types : List String) : Prop :=
  ∀ type ∈ types, ∀ val, Annotated annotations type val → val = ""

variable {types : List String} {result : String × String} {type val : String}

/-- One round that succeeds. -/
theorem findContainerAnnotation_cons {found : Option (String × String)}
    (done : findContainerAnnotation annotations found (type :: types) = some (.ok result)) :
    ((∀ val, ¬ Annotated annotations type val) ∧
        findContainerAnnotation annotations found types = some (.ok result)) ∨
      (found = none ∧ ∃ val, Annotated annotations type val ∧
        findContainerAnnotation annotations (some (val, type)) types = some (.ok result)) := by
  obtain ⟨ annotation, known, done⟩ := bind_eq_some_iff.mp done
  cases held : annotations.lookup annotation with
  | none =>
    rw [held] at done
    refine .inl ⟨?_, done⟩
    rintro val ⟨other, same, here⟩
    rw [known, Option.some.injEq] at same
    rw [← same, held] at here
    cases here
  | some val =>
    rw [held] at done
    cases found with
    | some earlier => cases done
    | none => exact .inr ⟨rfl, val, ⟨ annotation, known, held⟩, done⟩

theorem findContainerAnnotation_found {first : String × String}
    (done : findContainerAnnotation annotations (some first) types = some (.ok result)) :
    result = first ∧ ∀ type ∈ types, ∀ val, ¬ Annotated annotations type val := by
  induction types with
  | nil =>
    cases done
    simp
  | cons type rest ih =>
    rcases findContainerAnnotation_cons done with ⟨absent, below⟩ | ⟨no, -⟩
    · obtain ⟨same, others⟩ := ih below
      exact ⟨same, forall_mem_cons.mpr ⟨absent, others⟩⟩
    · cases no

theorem getContainerAnnotation_spec
    (done : getContainerAnnotation annotations types = some (.ok (val, type))) :
    (val = "" → NoAnnotation annotations types) ∧
      (val ≠ "" → OnlyAnnotation annotations types type val) := by
  have both : (∀ other ∈ types, ∀ value, Annotated annotations other value →
      other = type ∧ value = val) ∧ (val ≠ "" → type ∈ types ∧ Annotated annotations type val) := by
    induction types with
    | nil =>
      cases done
      simp
    | cons first rest ih =>
      rcases findContainerAnnotation_cons done with ⟨absent, below⟩ | ⟨-, value, here, below⟩
      · obtain ⟨only, found⟩ := ih below
        refine ⟨forall_mem_cons.mpr ⟨fun value here => absurd here (absent value), only⟩, ?_⟩
        exact fun filled => (found filled).imp_left (.tail _)
      obtain ⟨same, others⟩ := findContainerAnnotation_found below
      cases same
      refine ⟨forall_mem_cons.mpr ⟨fun other held => ?_, fun other member value held =>
        absurd held (others other member value)⟩, fun _ => ⟨.head _, here⟩⟩
      obtain ⟨a, known, found⟩ := here
      obtain ⟨b, knownToo, foundToo⟩ := held
      rw [known, Option.some.injEq] at knownToo
      rw [← knownToo, found, Option.some.injEq] at foundToo
      exact ⟨rfl, foundToo.symm⟩
  refine ⟨?_, fun filled => ⟨(both.2 filled).1, (both.2 filled).2, filled, both.1⟩⟩
  rintro rfl other member value held
  exact (both.1 other member value held).2

theorem type_of_hierarchicalReferenceTypeFor {hType : String}
    (known : hierarchicalReferenceTypeFor type = some hType) : hType = type := by
  unfold hierarchicalReferenceTypeFor at known
  split at known <;> cases known <;> rfl

/-- What comes of the annotations for some container types. -/
theorem setUsingAnnotation_spec {result : Except AnnotationError Unit}
    (done : setHierarchicalReferenceUsingContainerAnnotation spec annotations refs types =
      some (result, spec')) :
    match result with
    | .ok () => ∃ h ∈ refs, ∃ val, OnlyAnnotation annotations types h.type val ∧
        spec' = setHierarchicalReference spec h val
    | .error .notFound => spec' = spec ∧ NoAnnotation annotations types
    | .error (.other _) => spec' = spec := by
  obtain ⟨found, read, done⟩ := bind_eq_some_iff.mp done
  cases found with
  | error err =>
    cases done
    rfl
  | ok pair =>
    obtain ⟨val, type⟩ := pair
    obtain ⟨absent, only⟩ := getContainerAnnotation_spec read
    dsimp only at done
    split at done
    · rename_i empty
      cases done
      exact ⟨rfl, absent empty⟩
    rename_i filled
    obtain ⟨hType, known, done⟩ := bind_eq_some_iff.mp done
    obtain rfl := type_of_hierarchicalReferenceTypeFor known
    cases search : hierarchicalReferenceWithType refs hType with
    | none =>
      rw [search] at done
      cases done
      rfl
    | some h =>
      rw [search] at done
      cases done
      have type : h.type = hType := by simpa using List.find?_some search
      exact ⟨h, mem_of_find?_eq_some search, val, type ▸ only filled, rfl⟩

theorem annotated_known (annotated : Annotated annotations type val) : type ≠ "billingAccount" := by
  rintro rfl
  obtain ⟨ annotation, known, -⟩ := annotated
  cases known

theorem mem_containerTypesFor (known : containerTypesFor refs = some types) (type : String) :
    type ∈ types ↔ type ∈ refs.map (·.type) ∧ type ≠ "billingAccount" := by
  induction refs generalizing types with
  | nil =>
    cases known
    simp
  | cons h rest ih =>
    rw [containerTypesFor] at known
    split at known
    · rename_i billing
      rw [ih known, map_cons, mem_cons, billing]
      constructor
      · exact fun here => ⟨.inr here.1, here.2⟩
      · exact fun here => ⟨here.1.resolve_left here.2, here.2⟩
    · rename_i other
      obtain ⟨first, knownFirst, known⟩ := bind_eq_some_iff.mp known
      obtain ⟨others, knownRest, same⟩ := bind_eq_some_iff.mp known
      cases same
      have same : first = h.type := by
        unfold containerTypeFor at knownFirst
        split at knownFirst <;> simp_all
      rw [mem_cons, ih knownRest, map_cons, mem_cons, same]
      constructor
      · rintro (rfl | here)
        · exact ⟨.inl rfl, other⟩
        · exact ⟨.inr here.1, here.2⟩
      · rintro ⟨here | here, notBilling⟩
        · exact .inl here
        · exact .inr ⟨here, notBilling⟩

theorem noAnnotation_congr {others : List String}
    (same : ∀ type, type ∈ types ↔ type ∈ others ∧ type ≠ "billingAccount") :
    NoAnnotation annotations types ↔ NoAnnotation annotations others := by
  constructor
  · intro none type member val held
    exact none type ((same type).mpr ⟨member, annotated_known held⟩) val held
  · intro none type member val held
    exact none type ((same type).mp member).1 val held

theorem OnlyAnnotation.congr {others : List String}
    (same : ∀ type, type ∈ types ↔ type ∈ others ∧ type ≠ "billingAccount")
    (only : OnlyAnnotation annotations types type val) :
    OnlyAnnotation annotations others type val where
  member := ((same type).mp only.member).1
  annotated := only.annotated
  filled := only.filled
  only other member value held :=
    only.only other ((same other).mpr ⟨member, annotated_known held⟩) value held

end Annotations

section Defaults

/-- The reference that a resource gets by default, and the external value: from the annotations
of the resource for its containers, from those of the namespace, or the name of the namespace as
that of a project, whichever applies first. -/
inductive Default (annotations : StringMap) (ns : Namespace) (refs : List HierarchicalReference)
    (containers : List Container) : HierarchicalReference → String → Prop where
  | fromResource {h : HierarchicalReference} {val : String} :
      OnlyAnnotation annotations (containers.map (·.type)) h.type val →
      Default annotations ns refs containers h val
  | fromNamespace {h : HierarchicalReference} {val : String} :
      NoAnnotation annotations (containers.map (·.type)) →
      OnlyAnnotation ns.annotations (refs.map (·.type)) h.type val →
      Default annotations ns refs containers h val
  | namespaceName {h : HierarchicalReference} :
      NoAnnotation annotations (containers.map (·.type)) →
      NoAnnotation ns.annotations (refs.map (·.type)) → h.type = "project" →
      Default annotations ns refs containers h ns.name

/-- A resource without a hierarchical reference gets the default, or an error leaves it as it
is. -/
def DefaultOutcome (annotations : StringMap) (ns : Namespace) (refs : List HierarchicalReference)
    (containers : List Container) (spec spec' : Spec) : Except GoError Unit → Prop
  | .ok () => ∃ h ∈ refs, ∃ val, Default annotations ns refs containers h val ∧
      spec' = setHierarchicalReference spec h val
  | .error _ => spec' = spec

variable {ns : Namespace} {containers : List Container} {result : Except GoError Unit}

theorem setFromNamespace_spec (absent : NoAnnotation annotations (containers.map (·.type)))
    (done : setFromNamespace spec ns refs = some (result, spec')) :
    DefaultOutcome annotations ns refs containers spec spec' result := by
  obtain ⟨types, known, rest⟩ := bind_eq_some_iff.mp done
  obtain ⟨⟨tried, after⟩, step, last⟩ := bind_eq_some_iff.mp rest
  have same := mem_containerTypesFor known
  have outcome := setUsingAnnotation_spec step
  cases tried with
  | ok _ =>
    cases last
    obtain ⟨h, member, val, only, rfl⟩ := outcome
    exact ⟨h, member, val, .fromNamespace absent (only.congr same), rfl⟩
  | error err =>
    cases err with
    | other err =>
      cases last
      exact outcome
    | notFound =>
      obtain ⟨rfl, noneHere⟩ := outcome
      cases search : hierarchicalReferenceWithType refs "project" with
      | some h =>
        rw [search] at last
        cases last
        have type : h.type = "project" := by simpa using List.find?_some search
        exact ⟨h, mem_of_find?_eq_some search, ns.name,
          .namespaceName absent ((noAnnotation_congr same).mp noneHere) type, rfl⟩
      | none =>
        rw [search] at last
        obtain ⟨possible, _, last⟩ := bind_eq_some_iff.mp last
        cases last
        rfl

/-- What comes of a resource without a hierarchical reference. -/
theorem setDefault_spec (filled : refs ≠ [])
    (absent : getHierarchicalReferenceFromSpec spec refs = .ok none)
    (done : setDefaultHierarchicalReference spec annotations ns refs containers =
      some (result, spec')) :
    DefaultOutcome annotations ns refs containers spec spec' result := by
  rw [setDefaultHierarchicalReference, if_neg (by simpa using filled), absent] at done
  dsimp only at done
  split at done
  · rename_i empty
    refine setFromNamespace_spec ?_ done
    rw [isEmpty_iff.mp empty]
    intro type member
    cases member
  · obtain ⟨⟨tried, after⟩, step, last⟩ := bind_eq_some_iff.mp done
    have outcome := setUsingAnnotation_spec step
    cases tried with
    | ok _ =>
      cases last
      obtain ⟨h, member, val, only, rfl⟩ := outcome
      exact ⟨h, member, val, .fromResource only, rfl⟩
    | error err =>
      cases err with
      | other err =>
        cases last
        exact outcome
      | notFound =>
        obtain ⟨rfl, noneHere⟩ := outcome
        exact setFromNamespace_spec noneHere last

theorem lookup_setHierarchicalReference (h : HierarchicalReference) (val key : String) :
    ((setHierarchicalReference spec h val).getD []).lookup key =
      if key = h.key then some (externalReference val) else (spec.getD []).lookup key := by
  rw [setHierarchicalReference, getD_some, Dict.lookup_set]

/-- The default reference of a resource is found the next time. -/
theorem getHierarchicalReference_set (keys : (refs.map (·.key)).Nodup)
    (absent : ∀ h ∈ refs, ¬ spec.Has h.key) (member : h ∈ refs) (val : String) :
    ∃ ref, getHierarchicalReferenceFromSpec (setHierarchicalReference spec h val) refs =
      .ok (some (ref, h)) := by
  apply findHierarchicalReference_only member
  · rw [lookup_setHierarchicalReference, if_pos rfl]
  · exact keys
  · intro other inRefs differs
    rw [lookup_setHierarchicalReference, if_neg differs]
    exact not_not.mp (absent other inRefs)

/-- Defaulting a hierarchical reference: exactly one is there afterwards, one that was there is
kept, and otherwise the default is added; after an error nothing has changed. -/
theorem default_hierarchical_reference (spec : Spec) (annotations : StringMap) (ns : Namespace)
    (refs : List HierarchicalReference) (containers : List Container) (filled : refs ≠ [])
    (keys : (refs.map (·.key)).Nodup) (result : Except GoError Unit) (spec' : Spec)
    (done : setDefaultHierarchicalReference spec annotations ns refs containers =
      some (result, spec')) :
    (result = .ok () →
      (∃! h, h ∈ refs ∧ spec'.Has h.key) ∧
      ((∃ h ∈ refs, spec.Has h.key) → spec' = spec) ∧
      ((∀ h ∈ refs, ¬ spec.Has h.key) → ∃ h ∈ refs, ∃ external,
        Default annotations ns refs containers h external ∧
        ∀ key, (spec'.getD []).lookup key =
          if key = h.key then some (externalReference external) else (spec.getD []).lookup key) ∧
      setDefaultHierarchicalReference spec' annotations ns refs containers =
        some (.ok (), spec')) ∧
    ∀ err, result = .error err → spec' = spec := by
  have notEmpty : ¬ refs.isEmpty = true := by simpa using filled
  cases search : getHierarchicalReferenceFromSpec spec refs with
  | error err =>
    rw [setDefaultHierarchicalReference, if_neg notEmpty, search] at done
    cases done
    simp
  | ok found =>
    have there := findHierarchicalReference_spec search
    cases found with
    | some pair =>
      obtain ⟨ref, h⟩ := pair
      obtain ⟨member, held, only⟩ := there
      have again := done
      rw [setDefaultHierarchicalReference, if_neg notEmpty, search] at done
      cases done
      refine ⟨fun _ => ⟨⟨h, ⟨member, held⟩, fun other here => only other here.1 here.2⟩,
        fun _ => rfl, fun absent => absurd held (absent h member), again⟩, fun _ _ => rfl⟩
    | none =>
      have absent : ∀ h ∈ refs, ¬ spec.Has h.key := fun h member => not_not.mpr (there h member)
      have outcome := setDefault_spec filled search done
      cases result with
      | error err => exact ⟨fun success => (nomatch success), fun _ _ => outcome⟩
      | ok _ =>
        obtain ⟨h, member, val, default, rfl⟩ := outcome
        obtain ⟨ref, again⟩ := getHierarchicalReference_set keys absent member val
        obtain ⟨-, held, only⟩ := findHierarchicalReference_spec again
        refine ⟨fun _ => ⟨⟨h, ⟨member, held⟩, fun other here => only other here.1 here.2⟩,
          ?_, ?_, ?_⟩, fun _ failed => (nomatch failed)⟩
        · rintro ⟨other, inRefs, here⟩
          exact absurd here (absent other inRefs)
        · exact fun _ => ⟨h, member, val, default, lookup_setHierarchicalReference h val⟩
        · rw [setDefaultHierarchicalReference, if_neg notEmpty, again]

/-- A resource that is in a project or in a folder. -/
def projectOrFolder : List HierarchicalReference :=
  [{ type := "project", key := "projectRef" }, { type := "folder", key := "folderRef" }]

theorem default_reference_of_namespace :
    setDefaultHierarchicalReference none ∅ ⟨"team-a", ∅⟩ projectOrFolder [] =
      some (.ok (), some [("projectRef", externalReference "team-a")]) ∧
    ∃! h, h ∈ projectOrFolder ∧
      Spec.Has (some [("projectRef", externalReference "team-a")]) h.key := by
  have done : setDefaultHierarchicalReference none ∅ ⟨"team-a", ∅⟩ projectOrFolder [] =
      some (.ok (), some [("projectRef", externalReference "team-a")]) := rfl
  exact ⟨done, ((default_hierarchical_reference none ∅ ⟨"team-a", ∅⟩ projectOrFolder []
    (cons_ne_nil _ _) (by decide) _ _ done).1 rfl).1⟩

end Defaults

end ConfigConnector.K8s
