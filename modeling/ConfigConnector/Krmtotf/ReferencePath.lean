import ConfigConnector.Krmtotf.Placement

/- The path to a reference, as it is computed from the Terraform path and as the converter
makes it. -/
namespace ConfigConnector.Krmtotf

open K8s GoMap Text List

section Names

/-- A field name: not empty, and without dots. -/
def isFieldName (field : String) : Bool := field != "" && !field.toList.contains '.'

/-- The parts of a path that may be empty, as it is at the root. -/
def partsOf (above : String) : List String := if above = "" then [] else components above

theorem components_qualify (above : String) {field : String} (name : isFieldName field) :
    components (qualify above field) = partsOf above ++ [field] := by
  simp only [isFieldName, Bool.and_eq_true, bne_iff_ne, ne_eq, Bool.not_eq_true',
    contains_eq_mem, decide_eq_false_iff_not] at name
  have single : components field = [field] := by simp [components, split_of_not_mem name.2]
  by_cases root : above = ""
  · simp [qualify, partsOf, root, single]
  have joined : qualify above field = above ++ "." ++ field := by simp [qualify, root]
  have apart : components (above ++ "." ++ field) = components above ++ components field := by
    simp [components, split_append]
  rw [joined, apart, single, partsOf, if_neg root]

theorem partsOf_qualify (above : String) {field : String} (name : isFieldName field) :
    partsOf (qualify above field) = partsOf above ++ [field] := by
  have present : qualify above field ≠ "" := by
    simp only [isFieldName, Bool.and_eq_true, bne_iff_ne, ne_eq] at name
    rw [qualify]
    split
    · simp
    · exact name.1
  rw [partsOf, if_neg present, components_qualify above name]

theorem Reached.partsOf_above {c : Conversion} {place inner : Place} {path : List String}
    (reached : Reached c place path inner) (names : ∀ field ∈ path, isFieldName field) :
    partsOf inner.above = partsOf place.above ++ path := by
  induction reached with
  | here place => simp
  | @into place inner field path fields obj enters below ih =>
    rw [ih fun name member => names name (.tail _ member), Place.inside,
      partsOf_qualify _ (names field (.head _))]
    simp

end Names

/-- The path at which the converter puts a reference: the names of the objects around it, each
in camel case, and the key of the reference. -/
def placedPath (refConfig : ReferenceConfig) : List String :=
  (components refConfig.tfField).dropLast.map snakeCaseToLowerCamelCase ++
    [getKeyForReferenceField refConfig]

theorem isReferenceField_tfField {qualifiedName : String} {rc : ResourceConfig}
    {refConfig : ReferenceConfig} (found : isReferenceField qualifiedName rc = some refConfig) :
    refConfig.tfField = qualifiedName := by
  have same := List.find?_some found
  exact (eq_of_beq same).symm

section Placed

variable {c : Conversion} {root inner : Place} {path : List String} {field : String} {s : Schema}
  {refConfig : ReferenceConfig} {val : Value}

/-- A reference below nested objects is put at its path. -/
theorem reference_placed (atRoot : root.above = "") (reached : Reached c root path inner)
    (names : ∀ name ∈ path ++ [field], isFieldName name)
    (member : (field, s) ∈ inner.schemas) (distinct : DistinctKeys c.rc inner.above inner.schemas)
    (kept : isOverriddenField c.rc (qualify inner.above field) c.ignoreOutputOnlySpecFields = false)
    (reference : isReferenceField (qualify inner.above field) c.rc = some refConfig)
    (converted : convertTFReferenceToKCCReference field (getKeyForReferenceField refConfig)
      inner.state inner.prevSpec refConfig = some val) (present : val.isNil = false)
    {orders : Orders} {result : Fields}
    (done : convertTFMapToKCCMap c orders root.state root.prevSpec root.schemas root.above
      root.managedFields = some result) :
    Value.nestedField (.map result) (placedPath refConfig) = .ok (some val) := by
  obtain ⟨entries, all, rfl⟩ := Option.map_eq_some_iff.mp done
  obtain ⟨orders', innerEntries, innerDone, found⟩ := reached.nestedField all
  obtain ⟨_, entry, assigned, held⟩ := lookup_converted distinct innerDone member
  have own : krmKey c.rc inner.above field = getKeyForReferenceField refConfig := by
    rw [krmKey, reference]
  have value : entry = some (getKeyForReferenceField refConfig, val) := by
    rw [assignment, kept, reference] at assigned
    simpa [converted, present] using assigned.symm
  have nonEmpty : innerEntries ≠ [] := by
    rintro rfl
    rw [value] at held
    cases held
  have parts : (components refConfig.tfField).dropLast = path := by
    rw [isReferenceField_tfField reference,
      components_qualify _ (names field (by simp)), dropLast_concat,
      reached.partsOf_above fun name inPath => names name (by simp [inPath]), atRoot]
    rfl
  rw [own, value] at held
  rw [placedPath, parts, Value.nestedField, Value.nestedFieldFrom_append (found nonEmpty [])]
  simp [Value.nestedFieldFrom, held]

end Placed

section Agreement

theorem snake_parts {path : String} (snake : ∀ part ∈ components path, isSnakeCase part.toList) :
    ∀ part ∈ split '.' path.toList, isSnakeCase part := by
  intro part member
  have known := snake (String.ofList part) (mem_map_of_mem member)
  rwa [String.toList_ofList] at known

theorem components_camelCase_iff (path : String)
    (snake : ∀ part ∈ components path, isSnakeCase part.toList) :
    components (snakeCaseToLowerCamelCase path) =
        (components path).map snakeCaseToLowerCamelCase ↔ keepsCase (components path) := by
  rw [components_camelCase, components, map_camelCase, map_ofList_inj,
    camelParts_iff _ (snake_parts snake)]

theorem getKeyForReferenceField_eq (refConfig : ReferenceConfig) (noKey : refConfig.key = "") :
    (components refConfig.tfField).map snakeCaseToLowerCamelCase = placedPath refConfig := by
  have parts : components refConfig.tfField ≠ [] := by
    simp [components, split_ne_nil]
  have last : (components refConfig.tfField).getLast parts =
      String.ofList ((split '.' refConfig.tfField.toList).getLastD []) := by
    simp [components, getLast_map, getLastD_eq_getLast?, List.getLast?_eq_getLast_of_ne_nil,
      split_ne_nil]
  have whole := dropLast_append_getLast parts
  rw [placedPath, getKeyForReferenceField, noKey]
  conv_lhs => rw [← whole]
  simp [last]

/-- With a key, the last part of the path does not count. -/
theorem getPathToReferenceKey_iff (refConfig : ReferenceConfig)
    (snake : ∀ part ∈ components refConfig.tfField, isSnakeCase part.toList) :
    getPathToReferenceKey refConfig = placedPath refConfig ↔
      keepsCase (if refConfig.key = "" then components refConfig.tfField
        else (components refConfig.tfField).dropLast) := by
  by_cases noKey : refConfig.key = ""
  · rw [if_pos noKey, ← getKeyForReferenceField_eq refConfig noKey,
      ← components_camelCase_iff _ snake]
    simp [getPathToReferenceKey, noKey]
  have key : getKeyForReferenceField refConfig = refConfig.key := by
    simp [getKeyForReferenceField, noKey]
  have inside : ∀ part ∈ (split '.' refConfig.tfField.toList).dropLast, isSnakeCase part = true :=
    fun part member => snake_parts snake part (mem_of_mem_dropLast member)
  rw [if_neg noKey, placedPath, key]
  simp only [getPathToReferenceKey, noKey, bne_iff_ne, ne_eq, not_false_eq_true, ↓reduceIte,
    append_cancel_right_eq]
  rw [components_camelCase, components, ← map_dropLast, camelParts_dropLast,
    ← map_dropLast, map_camelCase, map_ofList_inj, camelParts_iff _ inside]

/-- The path that is computed for a reference is the one at which the converter puts it if no
part that begins with a letter follows one that has an underscore; so it is for the path of any
field. -/
theorem reference_path_agrees_iff (refConfig : ReferenceConfig) :
    (∀ path : String, (∀ part ∈ components path, isSnakeCase part.toList = true) →
      (components (snakeCaseToLowerCamelCase path) =
          (components path).map snakeCaseToLowerCamelCase ↔ keepsCase (components path))) ∧
    ((∀ part ∈ components refConfig.tfField, isSnakeCase part.toList = true) →
      (getPathToReferenceKey refConfig = placedPath refConfig ↔
        keepsCase (if refConfig.key = "" then components refConfig.tfField
          else (components refConfig.tfField).dropLast))) ∧
    (∀ (c : Conversion) (orders : Orders) (root inner : Place) (path : List String)
      (field : String) (s : Schema) (val : Value) (result : Fields),
      root.above = "" → Reached c root path inner →
      (∀ name ∈ path ++ [field], isFieldName name = true) →
      (field, s) ∈ inner.schemas → DistinctKeys c.rc inner.above inner.schemas →
      isOverriddenField c.rc (qualify inner.above field) c.ignoreOutputOnlySpecFields = false →
      isReferenceField (qualify inner.above field) c.rc = some refConfig →
      convertTFReferenceToKCCReference field (getKeyForReferenceField refConfig) inner.state
        inner.prevSpec refConfig = some val → val.isNil = false →
      convertTFMapToKCCMap c orders root.state root.prevSpec root.schemas root.above
        root.managedFields = some result →
      Value.nestedField (.map result) (placedPath refConfig) = .ok (some val)) :=
  ⟨components_camelCase_iff, getPathToReferenceKey_iff refConfig,
    fun _ _ _ _ _ _ _ _ _ atRoot reached names member distinct kept reference converted present
      done => reference_placed atRoot reached names member distinct kept reference converted present
        done⟩

/-- The service account of a node pool, as its service mapping describes it. -/
def nodeServiceAccount : ReferenceConfig where
  tfField := "node_config.service_account"
  key := "serviceAccountRef"

def nodePoolConversion : Conversion where
  rc := { name := "google_container_node_pool", kind := "ContainerNodePool",
          resourceReferences := [nodeServiceAccount] }
  ignoreOutputOnlySpecFields := true
  hash := fun _ _ => none

/-- A node pool in its state, with a service account. -/
def nodePool : Place where
  above := ""
  schemas := [("node_config", .mk { type := .list, maxItems := 1 }
    (.resource [("service_account", .mk { type := .string } .none)]))]
  state := [("node_config", .list [.map [("service_account", .string "sa")]])]
  prevSpec := []
  managedFields := none

theorem reference_path_agrees_node_pool :
    getPathToReferenceKey nodeServiceAccount = ["nodeConfig", "serviceAccountRef"] ∧
      ∃ result, convertTFMapToKCCMap nodePoolConversion .stored nodePool.state nodePool.prevSpec
          nodePool.schemas nodePool.above nodePool.managedFields = some result ∧
        Value.nestedField (.map result) ["nodeConfig", "serviceAccountRef"] =
          .ok (some (.map [("external", .string "sa")])) := by
  have agrees := (reference_path_agrees_iff nodeServiceAccount).2.1 (by decide)
  have placed : placedPath nodeServiceAccount = ["nodeConfig", "serviceAccountRef"] := by decide
  refine ⟨(agrees.mpr (by decide)).trans placed, _, rfl, ?_⟩
  rw [← placed]
  refine (reference_path_agrees_iff _).2.2 nodePoolConversion .stored nodePool _ ["node_config"]
    "service_account" (.mk { type := .string } .none) _ _ rfl
    (.into ⟨⟨nodup_singleton _, rfl, rfl, rfl⟩, ⟨_, mem_singleton_self _, rfl⟩, [], rfl⟩ (.here _))
    (by decide) (mem_singleton_self _) ?_ rfl rfl rfl rfl rfl
  exact nodup_singleton _

/-- The Terraform path of the sink of a transfer job: the name of the second object is
capitalised. -/
theorem transfer_sink_path_differs :
    components (snakeCaseToLowerCamelCase "transfer_spec.gcs_data_sink.bucket_name") =
        ["transferSpec", "GcsDataSink", "BucketName"] ∧
      (components "transfer_spec.gcs_data_sink.bucket_name").map snakeCaseToLowerCamelCase =
        ["transferSpec", "gcsDataSink", "bucketName"] ∧
      getPathToReferenceKey
        { tfField := "transfer_spec.gcs_data_sink.bucket_name", key := "bucketRef" } =
        ["transferSpec", "GcsDataSink", "bucketRef"] ∧
      placedPath { tfField := "transfer_spec.gcs_data_sink.bucket_name", key := "bucketRef" } =
        ["transferSpec", "gcsDataSink", "bucketRef"] := by
  decide

end Agreement

end ConfigConnector.Krmtotf
