import ConfigConnector.Dcl.FieldRoundTrip

/- A spec that is converted to an object of the DCL and back. -/
namespace ConfigConnector.Dcl

open K8s List Bool Fallible

variable {kind start text : String} {tcs : List TypeConfig} {tc : TypeConfig} {obj : Fields}
  {s : Schema} {entry : String × Schema}

section Parents

/-- The name of a parent with the prefix that tells its kind. -/
def withParentPrefix (kind external : String) : String :=
  match parentPrefixForKind kind with
  | .ok parentPrefix =>
    if startsWith external parentPrefix then external else parentPrefix ++ external
  | .error _ => external

theorem startsWith_append (start rest : String) : startsWith (start ++ rest) start := by
  simp [startsWith]

theorem startsWith_withParentPrefix (known : parentPrefixForKind kind = .ok start)
    (external : String) : startsWith (withParentPrefix kind external) start := by
  rw [withParentPrefix, known]
  dsimp only
  split
  · assumption
  · exact startsWith_append start external

/-- The kinds of parent and their prefixes. -/
def parentPrefixes : List (String × String) :=
  [("Project", "projects/"), ("Folder", "folders/"), ("Organization", "organizations/"),
    ("BillingAccount", "billingAccounts/")]

/-- The prefixes begin with different letters. -/
theorem parentPrefix_letters : ∀ a ∈ parentPrefixes, ∀ b ∈ parentPrefixes,
    a.2.toList ≠ [] ∧ (a.2.toList.head? = b.2.toList.head? → a.1 = b.1) := by
  decide

theorem parentPrefixForKind_cases (known : parentPrefixForKind kind = .ok start) :
    (kind, start) ∈ parentPrefixes := by
  unfold parentPrefixForKind at known
  split at known <;> cases known <;> decide

theorem head_of_startsWith (starts : startsWith text start)
    (nonempty : start.toList ≠ []) : text.toList.head? = start.toList.head? := by
  obtain ⟨rest, same⟩ := isPrefixOf_iff_prefix.mp starts
  rw [← same, List.head?_append_of_ne_nil _ nonempty]

theorem kind_of_startsWith {other otherStart : String}
    (known : parentPrefixForKind kind = .ok start)
    (otherKnown : parentPrefixForKind other = .ok otherStart)
    (starts : startsWith text start) (otherStarts : startsWith text otherStart) : kind = other := by
  have first := parentPrefixForKind_cases known
  have second := parentPrefixForKind_cases otherKnown
  apply (parentPrefix_letters _ first _ second).2
  rw [← head_of_startsWith starts (parentPrefix_letters _ first _ first).1,
    ← head_of_startsWith otherStarts (parentPrefix_letters _ second _ second).1]

/-- A parent is recognized by its prefix. -/
theorem recognizeParent_ok
    (known : ∀ other ∈ tcs, ∃ otherStart, parentPrefixForKind other.kind = .ok otherStart)
    (kinds : (tcs.map (·.kind)).Nodup) (member : tc ∈ tcs)
    (ofKind : parentPrefixForKind tc.kind = .ok start) (starts : startsWith text start) :
    recognizeParent text tcs = .ok (some tc) := by
  induction tcs with
  | nil => cases member
  | cons other rest ih =>
    obtain ⟨otherStart, otherKnown⟩ := known other (.head _)
    rw [recognizeParent, otherKnown, ok_bind]
    obtain ⟨absent, rest_kinds⟩ := nodup_cons.mp kinds
    rcases mem_cons.mp member with rfl | inRest
    · rw [ofKind, Except.ok.injEq] at otherKnown
      rw [← otherKnown, if_pos starts]
      rfl
    have differ : ¬ startsWith text otherStart := by
      intro otherStarts
      have same := kind_of_startsWith ofKind otherKnown starts otherStarts
      exact absent (mem_map.mpr ⟨tc, inRest, same⟩)
    rw [if_neg differ]
    exact ih (fun other member => known other (.tail _ member)) rest_kinds inRest

theorem hierarchicalRefFrom_none {config : Fields}
    (none_set : (tcs.filter fun tc => !(Value.get config tc.key).isNil) = [])
    (found : Option (Value × TypeConfig)) : hierarchicalRefFrom config found tcs = .ok found := by
  induction tcs with
  | nil => rfl
  | cons tc rest ih =>
    cases nil : (Value.get config tc.key).isNil with
    | false => simp [nil] at none_set
    | true =>
      have rest_none := ih (by simpa [nil] using none_set)
      unfold hierarchicalRefFrom
      simpa [nil] using rest_none

/-- The loop finds the only parent that is set. -/
theorem hierarchicalRefFrom_single {config : Fields}
    (single : (tcs.filter fun tc => !(Value.get config tc.key).isNil) = [tc]) :
    hierarchicalRefFrom config none tcs = .ok (some (Value.get config tc.key, tc)) := by
  induction tcs with
  | nil => cases single
  | cons other rest ih =>
    rw [hierarchicalRefFrom]
    cases nil : (Value.get config other.key).isNil with
    | false =>
      simp only [nil, Bool.not_false, List.filter_cons_of_pos, List.cons.injEq] at single
      obtain ⟨rfl, none_set⟩ := single
      exact hierarchicalRefFrom_none none_set _
    | true => simpa using ih (by simpa [nil] using single)

variable {services : Services} {schema : Schema}

/-- The type of parent that a key of the spec stands for. -/
def parentType (services : Services) (schema : Schema) (key : String) : Option TypeConfig :=
  match schema.additionalProperties, schema.properties.lookup "parent" with
  | none, some s =>
    if role false s = .reference then (parentTypes services s).find? fun tc => tc.key == key
    else none
  | _, _ => none

/-- What comes back for a value of the spec: a parent comes back with its prefix. -/
def returned (services : Services) (schema : Schema) (key : String) (val : Value) : Value :=
  match parentType services schema key, val with
  | some tc, .map refObj =>
    match Value.get refObj "external" with
    | .string external => .map [("external", .string (withParentPrefix tc.kind external))]
    | _ => val
  | _, _ => val

theorem returned_of_none {key : String} (notParent : parentType services schema key = none)
    (val : Value) : returned services schema key val = val := by
  unfold returned
  rw [notParent]

theorem returned_null (key : String) : returned services schema key .null = .null := by
  unfold returned
  cases parentType services schema key <;> rfl

/-- What `parentFits` says of the spec and of the types of parent. -/
structure SoleParent (services : Services) (obj : Fields) (s : Schema) (tc : TypeConfig)
    (refObj : Fields) (external : String) : Prop where
  types : services.getReferenceTypeConfigs s = .ok (parentTypes services s)
  known : ∀ other ∈ parentTypes services s, ∃ start, parentPrefixForKind other.kind = .ok start
  kinds : ((parentTypes services s).map (·.kind)).Nodup
  sole : ((parentTypes services s).filter fun tc => !(Value.get obj tc.key).isNil) = [tc]
  held : Value.get obj tc.key = .map refObj
  found : Value.get refObj "external" = .string external
  nonempty : external ≠ ""

theorem soleParent_of_fits (fits : parentFits services obj s) :
    ∃ tc refObj external, SoleParent services obj s tc refObj external := by
  simp only [parentFits, and_eq_true, all_eq_true, decide_eq_true_eq] at fits
  obtain ⟨⟨⟨types, known⟩, kinds⟩, single⟩ := fits
  split at single
  · rename_i tc sole
    rw [and_eq_true] at single
    obtain ⟨refObj, external, held, found, -⟩ := holdsOnly_spec single.1
    refine ⟨tc, refObj, external, ?_, ?_, kinds, sole, held, found, ?_⟩
    · rw [parentTypes]
      cases configs : services.getReferenceTypeConfigs s with
      | ok tcs => rfl
      | error failure => simp [configs] at types
    · intro other member
      have ok := known other member
      cases start : parentPrefixForKind other.kind with
      | ok text => exact ⟨text, rfl⟩
      | error failure => simp [start] at ok
    · rintro rfl
      simp [held, Value.entries, found] at single
  · cases single

namespace SoleParent

variable {s : Schema} {refObj : Fields} {external : String}

section

variable (sole : SoleParent services obj s tc refObj external)
include sole

theorem member : tc ∈ parentTypes services s := by
  have inFilter : tc ∈ (parentTypes services s).filter fun tc => !(Value.get obj tc.key).isNil := by
    simp [sole.sole]
  exact (mem_filter.mp inFilter).1

theorem toDCL :
    convertMultiTypeParentReferenceFieldToDCL services obj s =
      .ok (.string (withParentPrefix tc.kind external)) := by
  obtain ⟨start, ofKind⟩ := sole.known tc sole.member
  have lookup := Value.lookup_of_get sole.found (by simp)
  rw [convertMultiTypeParentReferenceFieldToDCL, getHierarchicalRefFromConfigForMultiParentResource,
    sole.types, wrapError_ok, ok_bind, hierarchicalRefFrom_single sole.sole, wrapError_ok,
    ok_bind, sole.held]
  dsimp only
  rw [lookup]
  dsimp only
  rw [if_neg sole.nonempty, ofKind, ok_bind, withParentPrefix, ofKind]
  dsimp only
  split <;> rfl

theorem toKRM (path : List String) :
    convertMultiTypeParentReferenceFieldToKRM services path
        (.string (withParentPrefix tc.kind external)) s =
      .ok (tc.key, .map [("external", .string (withParentPrefix tc.kind external))]) := by
  obtain ⟨start, ofKind⟩ := sole.known tc sole.member
  have starts := startsWith_withParentPrefix ofKind external
  have nonempty : withParentPrefix tc.kind external ≠ "" := by
    intro empty
    have listed := parentPrefixForKind_cases ofKind
    have startNonempty := (parentPrefix_letters _ listed _ listed).1
    have head := head_of_startsWith starts startNonempty
    rw [empty] at head
    exact startNonempty (List.head?_eq_none_iff.mp head.symm)
  rw [convertMultiTypeParentReferenceFieldToKRM, sole.types, wrapError_ok, ok_bind]
  dsimp only
  rw [if_neg nonempty, recognizeParent_ok sole.known sole.kinds sole.member ofKind starts, ok_bind]
  rfl

/-- The other parents are not there. -/
theorem get_other {other : TypeConfig}
    (inTypes : other ∈ parentTypes services s) (differ : other.key ≠ tc.key) :
    Value.get obj other.key = .null := by
  by_contra present
  have inFilter : other ∈ (parentTypes services s).filter fun tc =>
      !(Value.get obj tc.key).isNil := by
    apply mem_filter.mpr
    refine ⟨inTypes, ?_⟩
    rw [not_eq_true', eq_false_iff]
    exact mt (Value.isNil_iff _).mp present
  rw [sole.sole, mem_singleton] at inFilter
  exact differ (by rw [inFilter])

end

end SoleParent

theorem parentType_of_mem (properties : schema.additionalProperties = none)
    (names : (schema.properties.map (·.1)).Nodup) (member : ("parent", s) ∈ schema.properties)
    (isRef : role false s = .reference) (keys : ((parentTypes services s).map (·.key)).Nodup)
    (inTypes : tc ∈ parentTypes services s) : parentType services schema tc.key = some tc := by
  rw [parentType, properties, Dict.lookup_of_mem names member]
  dsimp only
  rw [if_pos isRef]
  cases found : (parentTypes services s).find? fun other => other.key == tc.key with
  | none => simpa using List.find?_eq_none.mp found tc inTypes
  | some other =>
    have same : other.key = tc.key := by simpa using List.find?_some found
    rw [inj_on_of_nodup_map keys (mem_of_find?_eq_some found) inTypes same]

/-- A parent returns with its prefix. -/
theorem parent_returns (regular : Regular s) (properties : schema.additionalProperties = none)
    (names : (schema.properties.map (·.1)).Nodup) (member : ("parent", s) ∈ schema.properties)
    (isRef : role false s = .reference) (keys : (specKeys services true false "parent" s).Nodup)
    (fits : parentFits services obj s) :
    Returns services [] false obj (fun key => returned services schema key (Value.get obj key))
      ("parent", s) := by
  have keys_eq : specKeys services true false "parent" s =
      (parentTypes services s).map (·.key) := by
    rw [specKeys, isRef]
    rfl
  rw [keys_eq] at keys
  obtain ⟨tc, refObj, external, sole⟩ := soleParent_of_fits fits
  have isParent : isMultiTypeParentReferenceField ([] ++ ["parent"]) = true := by decide
  have toDCL : convertReferenceFieldToDCL services ([] ++ ["parent"]) obj s =
      .ok (.string (withParentPrefix tc.kind external)) := by
    rw [convertReferenceFieldToDCL, if_pos isParent, sole.toDCL]
  have toKRM : convertReferenceFieldToKRM services ([] ++ ["parent"])
      (.string (withParentPrefix tc.kind external)) s =
        .ok (tc.key, .map [("external", .string (withParentPrefix tc.kind external))]) := by
    rw [convertReferenceFieldToKRM, if_pos isParent, sole.toKRM]
  refine ⟨.string (withParentPrefix tc.kind external), ?_, fun dclObj held => ⟨tc.key,
    .map [("external", .string (withParentPrefix tc.kind external))], ?_,
    fun _ => keys_eq ▸ mem_map_of_mem sole.member, ?_⟩⟩
  · rw [propertyToDCL, fieldToDCL_eq regular, isRef]
    rw [toDCL, wrapError_ok]
  · rw [propertyToKRM, fieldToKRM_eq regular _ (by rw [held]; rfl), isRef, held]
    rw [toKRM]
    rfl
  · intro key inKeys
    change key ∈ specKeys services true false "parent" s at inKeys
    rw [keys_eq] at inKeys
    obtain ⟨other, inTypes, rfl⟩ := mem_map.mp inKeys
    dsimp only
    by_cases same : other.key = tc.key
    · rw [if_pos same, same, sole.held]
      unfold returned
      rw [parentType_of_mem properties names member isRef keys sole.member]
      dsimp only
      rw [sole.found]
      exact .equal _
    · rw [if_neg same, sole.get_other inTypes same, returned_null]
      exact .equal _

/-- Only the keys of the parent stand for one. -/
theorem parentType_eq_none {key : String}
    (keys : (allSpecKeys services true false schema.properties).Nodup)
    (member : entry ∈ schema.properties)
    (ofEntry : key ∈ specKeys services true false entry.1 entry.2)
    (notParent : role false entry.2 = .reference → entry.1 ≠ "parent") :
    parentType services schema key = none := by
  unfold parentType
  split
  · rename_i s _ found
    split
    · rename_i isRef
      apply List.find?_eq_none.mpr
      intro tc inTypes same
      have ofParent : key ∈ specKeys services true false "parent" s := by
        rw [specKeys, isRef]
        exact mem_map.mpr ⟨tc, inTypes, by simpa using same⟩
      have inProperties := Dict.mem_of_lookup found
      obtain rfl := eq_of_key keys member inProperties ofEntry ofParent
      exact notParent isRef rfl
    · rfl
  · rfl

theorem Returns.congr {path : List String} {coll : Bool}
    {expected other : String → Value} (returns : Returns services path coll obj expected entry)
    (same : ∀ key ∈ specKeys services path.isEmpty coll entry.1 entry.2, expected key = other key) :
    Returns services path coll obj other entry := by
  obtain ⟨converted, toDCL, back⟩ := returns
  refine ⟨converted, toDCL, ?_⟩
  intro dclObj held
  obtain ⟨key, val, toKRM, belongs, gives⟩ := back dclObj held
  refine ⟨key, val, toKRM, belongs, ?_⟩
  intro k member
  rw [← same k member]
  exact gives k member

/-- At the root every property returns, the parent with its prefix. -/
theorem root_field_returns (valid : wellFormed schema)
    (properties : schema.additionalProperties = none) (names : (schema.properties.map (·.1)).Nodup)
    (keys : (allSpecKeys services true false schema.properties).Nodup)
    (below : distinctNamesBelow services false schema.properties)
    (fits : propertiesFit services obj true false schema.properties)
    (member : entry ∈ schema.properties) :
    Returns services [] false obj (fun key => returned services schema key (Value.get obj key))
      entry := by
  obtain ⟨field, s⟩ := entry
  have inner := (regular_of_wellFormed valid).properties field s member
  have regular := regular_of_wellFormed inner
  have fieldFit := (propertiesFit_iff services obj true false schema.properties).mp fits _ member
  by_cases isParent : role false s = .reference ∧ field = "parent"
  · obtain ⟨isRef, rfl⟩ := isParent
    apply parent_returns regular properties names member isRef
    · exact (nodup_flatMap.mp keys).1 _ member
    · simpa [fieldFits, isRef, referenceFits] using fieldFit
  · have notParent : role false s = .reference → field ≠ "parent" :=
      fun isRef same => isParent ⟨isRef, same⟩
    have distinct := (distinctNamesBelow_iff services false schema.properties).mp below _ member
    have returns : Returns services [] false obj (Value.get obj) (field, s) := by
      apply field_returns regular (by simpa using notParent) fieldFit
      exact roundTrips services s ([] ++ [field]) false _ (by simp) inner distinct
    apply returns.congr
    intro key ofEntry
    rw [returned_of_none (parentType_eq_none keys member ofEntry notParent)]

end Parents

/-- A spec that fits the schema is converted to the DCL and back without loss: references
come back as references, sensitive values as values, lists and maps entry by entry. A parent
that may have several types comes back with the prefix of its kind, whether or not the spec
gave the prefix. -/
theorem spec_returned (services : Services) (schema : Schema) (spec : Fields)
    (entry : schema.type = .object) (valid : wellFormed schema = true)
    (distinct : distinctNames services true false schema = true)
    (fits : valueFits services (.map spec) true false schema = true) :
    ∃ dclObj result, convertToDCL services (.map spec) [] false schema = .ok (.map dclObj) ∧
      convertToKRMSpec services (.map dclObj) [] false schema = .ok (.map result) ∧
      ∀ key, Same (returned services schema key (Value.get spec key)) (Value.get result key) := by
  have regular := regular_of_wellFormed valid
  obtain ⟨type, readOnly, extension, properties, additionalProperties, items⟩ := schema
  obtain rfl : type = .object := entry
  cases additionalProperties with
  | some inner =>
    simp only [valueFits, and_eq_true, decide_eq_true_eq, all_eq_true] at fits
    have each : ∀ entry ∈ spec, RoundTrips services ([] ++ [entry.1]) true inner entry.2 :=
      fun entry member => roundTrips services inner ([] ++ [entry.1]) true _ (by simp)
        (regular.additionalProperties inner rfl) (by simpa [distinctNames] using distinct)
        (fits.2 entry member)
    obtain ⟨dclObj, result, toDCL, toKRM, same⟩ :=
      map_roundTrips fits.1 each
    refine ⟨dclObj, result, toDCL, toKRM, ?_⟩
    intro key
    rw [returned_of_none rfl]
    exact same key
  | none =>
    simp only [valueFits, and_eq_true] at fits
    have separate := distinct
    simp only [distinctNames, and_eq_true, decide_eq_true_eq] at separate
    apply properties_roundTrip
    · exact distinct
    · intro key unknown
      rw [get_unknown fits.1 key unknown, returned_null]
    · intro entry member
      exact root_field_returns valid rfl separate.1.1 separate.1.2 separate.2 fits.2 member

section Folders

def references (kinds : List String) : Fields :=
  [("x-dcl-references", .list (kinds.map fun kind =>
    .map [("field", .string "name"), ("resource", .string kind)]))]

def stringSchema (extension : Fields) : Schema := .mk .string false extension [] none none

/-- A folder, which is in a project or in another folder, with labels, a list of references
and a list of objects. -/
def folderSchema : Schema :=
  .mk .object false []
    [("displayName", stringSchema []),
      ("parent", stringSchema (references ["Project", "Folder"])),
      ("etag", .mk .string true [] [] none none),
      ("quota", .mk .integer false [] [] none none),
      ("labels", .mk .object false [] [] (some (stringSchema [])) none),
      ("networkId", stringSchema (references ["Network"])),
      ("token", stringSchema [("x-dcl-sensitive", .bool true)]),
      ("owners", .mk .array false [] [] none (some (stringSchema (references ["ServiceAccount"])))),
      ("disks", .mk .array false [] [] none (some (.mk .object false []
        [("id", .mk .string true [] [] none none), ("size", .mk .number false [] [] none none)]
        none none)))]
    none none

/-- Services that print every integer in full. -/
def folderServices : Services where
  getReferenceTypeConfigs _ := .ok [⟨"projectRef", "Project"⟩, ⟨"folderRef", "Folder"⟩]
  supportsHierarchicalReferences := true
  float64 := toString
  float64_exact n _ := printedNumber_toString n

def folderSpec : Fields :=
  [("displayName", .string "team"), ("projectRef", .map [("external", .string "my-project")]),
    ("quota", .float "3"), ("labels", .map [("env", .string "prod")]),
    ("networkRef", .map [("external", .string "default")]),
    ("token", .map [("value", .string "secret")]),
    ("owners", .list [.map [("external", .string "a")], .map [("external", .string "b")]]),
    ("disks", .list [.map [("id", .string "d1"), ("size", .int 10)]])]

theorem spec_returned_folder :
    wellFormed folderSchema = true ∧ distinctNames folderServices true false folderSchema = true ∧
    valueFits folderServices (.map folderSpec) true false folderSchema = true ∧
    ∃ dclObj result,
      convertToDCL folderServices (.map folderSpec) [] false folderSchema = .ok (.map dclObj) ∧
      convertToKRMSpec folderServices (.map dclObj) [] false folderSchema = .ok (.map result) ∧
      ∀ key, Same (returned folderServices folderSchema key (Value.get folderSpec key))
        (Value.get result key) :=
  ⟨by decide, by decide, by decide +kernel,
    spec_returned folderServices folderSchema folderSpec rfl (by decide) (by decide)
      (by decide +kernel)⟩

/-- The prefix of a parent is added on the way to the DCL and is not taken off on the way
back. -/
theorem parent_keeps_added_start :
    wellFormed folderSchema = true ∧ distinctNames folderServices true false folderSchema = true ∧
    valueFits folderServices (.map [("projectRef", .map [("external", .string "my-project")])])
      true false folderSchema = true ∧
    ∃ dclObj result,
      convertToDCL folderServices (.map [("projectRef", .map [("external", .string "my-project")])])
        [] false folderSchema = .ok (.map dclObj) ∧
      convertToKRMSpec folderServices (.map dclObj) [] false folderSchema = .ok (.map result) ∧
      Value.get result "projectRef" = .map [("external", .string "projects/my-project")] ∧
      ¬ Same (.map [("projectRef", .map [("external", .string "my-project")])]) (.map result) := by
  refine ⟨by decide, by decide, by decide, _, _, rfl, rfl, rfl, ?_⟩
  intro same
  exact absurd ((same.get "projectRef").get "external").string_eq (by decide)

end Folders

end ConfigConnector.Dcl
