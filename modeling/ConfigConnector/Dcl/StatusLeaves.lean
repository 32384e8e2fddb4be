import ConfigConnector.Dcl.KrmObject
import ConfigConnector.Dcl.SpecLeaves

/- Where the leaves of an object of the DCL are in the status. -/
namespace ConfigConnector.Dcl

open K8s Value Bool Fallible Dict

variable {properties : Properties} {k : String} {v val : Value} {s : Schema} {obj : Fields}
  {names : List String} {services : Services}

section Walk

mutual

/-- The paths of the read-only properties that have a value. -/
def statusPaths (val : Value) : Schema → List (List String)
  | .mk _ true _ _ _ _ => if val.isNil then [] else [[]]
  | .mk .object false _ properties none _ =>
    val.entries.flatMap fun entry => statusPathsOf entry.1 entry.2 properties
  | _ => []

def statusPathsOf (k : String) (v : Value) : Properties → List (List String)
  | [] => []
  | (field, s) :: rest =>
    if field = k then (statusPaths v s).map fun path => k :: path else statusPathsOf k v rest

end

mutual

/-- The walk over the status fields finds nothing in the value, and no fault. -/
def quiet (val : Value) : Schema → Bool
  | .mk _ true _ _ _ _ => val.isNil
  | .mk .object false _ _ (some inner) _ =>
    match val with
    | .null | .map [] => true
    | .map obj => quiet (.map obj) inner
    | _ => false
  | .mk .object false _ properties none _ =>
    match val with
    | .null => true
    | .map obj => obj.all fun entry => quietIn entry.1 entry.2 properties
    | _ => false
  | .mk _ false _ _ _ _ => true

def quietIn (k : String) (v : Value) : Properties → Bool
  | [] => true
  | (field, s) :: rest => if field = k then quiet v s else quietIn k v rest

end

mutual

/-- No map of the value, read with the schema of its elements, has a status field. -/
def mapsQuiet (val : Value) : Schema → Bool
  | .mk .object false _ _ (some inner) _ => val.entries.isEmpty || quiet (.map val.entries) inner
  | .mk .object false _ properties none _ =>
    val.entries.all fun entry => mapsQuietIn entry.1 entry.2 properties
  | _ => true

def mapsQuietIn (k : String) (v : Value) : Properties → Bool
  | [] => true
  | (field, s) :: rest => if field = k then mapsQuiet v s else mapsQuietIn k v rest

end

theorem statusFieldsOf_quiet
    (each : ∀ field s, (field, s) ∈ properties → quiet v s → ∀ path paths,
      getStatusFieldsWithValuePopulated path v paths s = .ok paths)
    (silent : quietIn k v properties) (path : String) (paths : List String) :
    statusFieldsOf path k v paths properties = .ok paths := by
  induction properties with
  | nil => rfl
  | cons entry rest ih =>
    obtain ⟨field, s⟩ := entry
    rw [quietIn] at silent
    rw [statusFieldsOf]
    by_cases here : field = k
    · rw [if_pos here] at silent ⊢
      rw [each field s (.head _) silent, wrapError_ok]
    · rw [if_neg here] at silent ⊢
      exact ih (fun field s member => each field s (.tail _ member)) silent

/-- A quiet value adds no paths. -/
theorem getStatusFields_quiet (s : Schema) : ∀ (val : Value), quiet val s →
    ∀ (path : String) (paths : List String),
      getStatusFieldsWithValuePopulated path val paths s = .ok paths := by
  induction s using Schema.tree with
  | step s ofProperties ofAdditional ofItems =>
    intro val silent path paths
    obtain ⟨type, readOnly, extension, properties, additionalProperties, items⟩ := s
    cases readOnly with
    | true =>
      rw [quiet] at silent
      rw [getStatusFieldsWithValuePopulated, if_pos silent]
    | false =>
      cases type with
      | object =>
        cases additionalProperties with
        | some inner =>
          cases val with
          | null => rfl
          | map obj =>
            cases obj with
            | nil => rfl
            | cons entry rest => exact ofAdditional inner rfl _ silent path paths
          | _ => cases silent
        | none =>
          cases val with
          | null => rfl
          | map obj =>
            rw [quiet, List.all_eq_true] at silent
            apply foldlM_same
            intro entry member
            apply statusFieldsOf_quiet _ (silent entry member)
            intro field s inProperties silent path paths
            exact ofProperties field s inProperties _ silent path paths
          | _ => cases silent
      | array | string | boolean | number | integer | other _ => rfl

/-- Where the walk goes, the value has the shape that the schema asks for. -/
def Walkable (services : Services) (val : Value) (s : Schema) : Prop :=
  s.readOnly = false → s.type = .object → ∃ atRoot, shaped services val atRoot false s = true

theorem walkable_of_field {atRoot : Bool} {field : String} {path} (regular : Regular s)
    (shape : fieldShaped services atRoot false field s val (shaped services val path false s)) :
    Walkable services val s := by
  intro notReadOnly object
  rw [fieldShaped, or_eq_true] at shape
  rcases shape with nil | shape
  · rw [(isNil_iff val).mp nil]
    exact ⟨false, shaped_null _ _ s⟩
  have spec := role_spec false s
  cases treated : role false s with
  | skipped =>
    rw [treated, notReadOnly] at spec
    cases spec.1
  | sensitive =>
    rw [treated] at spec
    exact absurd object (regular.not_object_of_sensitive spec.2)
  | reference =>
    rw [treated] at shape
    dsimp only at shape
    split at shape
    · simp [object] at shape
    · simp [referenceShaped, object] at shape
  | plain =>
    rw [treated] at shape
    exact ⟨path, shape⟩

/-- An object that the walk goes into. -/
structure Entered (services : Services) (obj : Fields) (properties : Properties) : Prop where
  nodup : (obj.map (·.1)).Nodup
  known : (obj.all fun entry => (properties.map (·.1)).contains entry.1) = true
  below : ∀ field s, (field, s) ∈ properties → wellFormed s = true →
    Walkable services (Value.get obj field) s

theorem Walkable.entered {extension : Fields} {items : Option Schema}
    (walkable : Walkable services (.map obj) (.mk .object false extension properties none items)) :
    Entered services obj properties := by
  obtain ⟨atRoot, shape⟩ := walkable rfl rfl
  simp only [shaped, and_eq_true, decide_eq_true_eq, propertiesShaped_iff] at shape
  refine ⟨shape.1.1, shape.1.2, ?_⟩
  intro field s member valid
  exact walkable_of_field (regular_of_wellFormed valid) (shape.2 _ member)

theorem Walkable.map_of_present (walkable : Walkable services val s)
    (notReadOnly : s.readOnly = false) (object : s.type = .object) (present : val ≠ .null) :
    ∃ obj, val = .map obj := by
  obtain ⟨atRoot, shape⟩ := walkable notReadOnly object
  exact map_of_shaped object shape present

theorem Entered.get (entered : Entered services obj properties)
    {entry : String × Value} (member : entry ∈ obj) : Value.get obj entry.1 = entry.2 := by
  rw [Value.get, lookup_of_mem entered.nodup member]
  rfl

/-- The dotted name of a path below `path`. -/
def qualify (path : String) (names : List String) : String := names.foldl qualifiedName path

theorem foldlM_append {α β : Type} {body : List β → α → Except Failure (List β)} {g : α → List β}
    {items : List α}
    (each : ∀ item ∈ items, ∀ found, body found item = .ok (found ++ g item)) (found : List β) :
    items.foldlM body found = .ok (found ++ items.flatMap g) := by
  induction items generalizing found with
  | nil =>
    rw [List.flatMap_nil, List.append_nil]
    rfl
  | cons item rest ih =>
    rw [List.foldlM_cons, each item (.head _), ok_bind,
      ih fun other member => each other (.tail _ member)]
    simp

theorem statusFieldsOf_eq (each : ∀ s, (k, s) ∈ properties → mapsQuiet v s → ∀ path paths,
      getStatusFieldsWithValuePopulated path v paths s =
        .ok (paths ++ (statusPaths v s).map (qualify path)))
    (silent : mapsQuietIn k v properties) (path : String) (paths : List String) :
    statusFieldsOf path k v paths properties =
      .ok (paths ++ (statusPathsOf k v properties).map (qualify path)) := by
  induction properties with
  | nil => simp [statusFieldsOf, statusPathsOf]
  | cons entry rest ih =>
    obtain ⟨field, s⟩ := entry
    rw [mapsQuietIn] at silent
    rw [statusFieldsOf, statusPathsOf]
    by_cases here : field = k
    · subst here
      rw [if_pos rfl] at silent
      rw [if_pos rfl, if_pos rfl, each s (.head _) silent, wrapError_ok, List.map_map]
      rfl
    · rw [if_neg here] at silent
      rw [if_neg here, if_neg here]
      exact ih (fun s member => each s (.tail _ member)) silent

/-- The walk finds the read-only properties that have a value. -/
theorem getStatusFields_eq (s : Schema) : ∀ (val : Value), wellFormed s →
    Walkable services val s → mapsQuiet val s → ∀ (path : String) (paths : List String),
      getStatusFieldsWithValuePopulated path val paths s =
        .ok (paths ++ (statusPaths val s).map (qualify path)) := by
  induction s using Schema.tree with
  | step s ofProperties ofAdditional ofItems =>
    intro val valid walkable silent path paths
    have regular := regular_of_wellFormed valid
    obtain ⟨type, readOnly, extension, properties, additionalProperties, items⟩ := s
    cases readOnly with
    | true =>
      rw [getStatusFieldsWithValuePopulated, statusPaths]
      cases val.isNil <;> simp [qualify]
    | false =>
      cases type with
      | object =>
        by_cases nil : val = .null
        · subst nil
          cases additionalProperties <;>
            simp [getStatusFieldsWithValuePopulated, statusPaths, Value.entries]
        obtain ⟨obj, rfl⟩ := walkable.map_of_present rfl rfl nil
        cases additionalProperties with
        | some inner =>
          have none_found : statusPaths (.map obj)
              (.mk .object false extension properties (some inner) items) = [] := by
            simp [statusPaths]
          rw [none_found, List.map_nil, List.append_nil]
          cases obj with
          | nil => rfl
          | cons entry rest => exact getStatusFields_quiet inner _ silent path paths
        | none =>
          have entered := walkable.entered
          rw [mapsQuiet, List.all_eq_true] at silent
          rw [getStatusFieldsWithValuePopulated, statusPaths, List.map_flatMap]
          apply foldlM_append
          intro entry member found
          apply statusFieldsOf_eq _ (silent entry member)
          intro s inProperties
          have inner := regular.properties entry.1 s inProperties
          have walkableBelow := entered.below entry.1 s inProperties inner
          rw [entered.get member] at walkableBelow
          exact ofProperties entry.1 s inProperties _ inner walkableBelow
      | array | string | boolean | number | integer | other _ =>
        simp [getStatusFieldsWithValuePopulated, statusPaths]

end Walk

section Paths

theorem statusPaths_null (s : Schema) : statusPaths .null s = [] := by
  obtain ⟨type, readOnly, _, _, additionalProperties, _⟩ := s
  cases readOnly <;> cases type <;> cases additionalProperties <;> rfl

theorem mem_statusPathsOf :
    names ∈ statusPathsOf k v properties ↔
      ∃ s rest, names = k :: rest ∧ properties.lookup k = some s ∧ rest ∈ statusPaths v s := by
  induction properties with
  | nil => simp [statusPathsOf]
  | cons entry others ih =>
    obtain ⟨field, s⟩ := entry
    rw [statusPathsOf, lookup_cons]
    by_cases here : field = k
    · rw [if_pos here, if_pos here.symm, List.mem_map]
      constructor
      · rintro ⟨rest, member, rfl⟩
        exact ⟨s, rest, rfl, rfl, member⟩
      · rintro ⟨s, rest, rfl, same, member⟩
        cases same
        exact ⟨rest, member, rfl⟩
    · rw [if_neg here, if_neg (Ne.symm here), ih]

/-- A status path of an object goes through one of its properties. -/
theorem Entered.mem_statusPaths
    (entered : Entered services obj properties) (extension : Fields) (items : Option Schema) :
    names ∈ statusPaths (.map obj) (.mk .object false extension properties none items) ↔
      ∃ k s rest, names = k :: rest ∧ properties.lookup k = some s ∧
        rest ∈ statusPaths (Value.get obj k) s := by
  rw [statusPaths, List.mem_flatMap]
  constructor
  · rintro ⟨entry, member, found⟩
    obtain ⟨s, rest, rfl, lookup, below⟩ := mem_statusPathsOf.mp found
    exact ⟨entry.1, s, rest, rfl, lookup, by rwa [entered.get member]⟩
  · rintro ⟨k, s, rest, rfl, lookup, below⟩
    cases held : obj.lookup k with
    | none =>
      rw [Value.get, held, Option.getD_none, statusPaths_null] at below
      cases below
    | some v =>
      have member := mem_of_lookup held
      rw [entered.get member] at below
      exact ⟨(k, v), member, mem_statusPathsOf.mpr ⟨s, rest, rfl, lookup, below⟩⟩

/-- The path leads through properties that can be written to one that is read-only and has a
value. -/
inductive StatusPath : Value → Schema → List String → Prop where
  | here {val : Value} {s : Schema} : s.readOnly = true → val ≠ .null → StatusPath val s []
  | inside {obj extension : Fields} {properties : Properties} {items : Option Schema} {k : String}
      {s : Schema} {rest : List String} : properties.lookup k = some s →
      StatusPath (Value.get obj k) s rest →
      StatusPath (.map obj) (.mk .object false extension properties none items) (k :: rest)

theorem mem_statusPaths_iff (s : Schema) : ∀ (val : Value), wellFormed s →
    Walkable services val s → ∀ names, names ∈ statusPaths val s ↔ StatusPath val s names := by
  induction s using Schema.tree with
  | step s ofProperties ofAdditional ofItems =>
    intro val valid walkable names
    have regular := regular_of_wellFormed valid
    obtain ⟨type, readOnly, extension, properties, additionalProperties, items⟩ := s
    cases readOnly with
    | true =>
      rw [statusPaths]
      constructor
      · intro member
        split at member
        · cases member
        rename_i present
        rw [List.mem_singleton] at member
        rw [member]
        exact .here rfl (mt (isNil_iff val).mpr present)
      · rintro (⟨_, present⟩ | _)
        rw [if_neg (mt (isNil_iff val).mp present)]
        exact List.mem_singleton_self _
    | false =>
      by_cases reached : type = .object ∧ additionalProperties = none ∧ ∃ obj, val = .map obj
      · obtain ⟨rfl, rfl, obj, rfl⟩ := reached
        have entered := walkable.entered
        rw [entered.mem_statusPaths]
        have inner : ∀ k s rest, properties.lookup k = some s →
            (rest ∈ statusPaths (Value.get obj k) s ↔ StatusPath (Value.get obj k) s rest) := by
          intro k s rest lookup
          have member := mem_of_lookup lookup
          have validBelow := regular.properties k s member
          exact ofProperties k s member _ validBelow (entered.below k s member validBelow) rest
        constructor
        · rintro ⟨k, s, rest, rfl, lookup, below⟩
          exact .inside lookup ((inner k s rest lookup).mp below)
        · rintro (⟨readOnly, _⟩ | ⟨lookup, below⟩)
          · cases readOnly
          · exact ⟨_, _, _, rfl, lookup, (inner _ _ _ lookup).mpr below⟩
      · have none_found : statusPaths val
            (.mk type false extension properties additionalProperties items) = [] := by
          cases type <;> cases additionalProperties <;> cases val <;>
            first | rfl | simp at reached
        rw [none_found]
        constructor
        · intro member
          cases member
        · rintro (⟨readOnly, _⟩ | ⟨lookup, below⟩)
          · cases readOnly
          · simp at reached

namespace StatusPath

section

variable (path : StatusPath val s names)
include path

theorem present : val.follow (keys names) ≠ .null := by
  induction path with
  | here _ present => exact present
  | inside _ _ ih => exact ih

/-- No status path goes on below another one. -/
theorem eq_of_prefix {others : List String} (other : StatusPath val s others)
    (above : names <+: others) :
    names = others := by
  induction path generalizing others with
  | here readOnly _ =>
    cases other with
    | here => rfl
    | inside => cases readOnly
  | inside lookup _ ih =>
    cases other with
    | here readOnly => cases readOnly
    | inside otherLookup otherBelow =>
      rw [List.cons_prefix_cons] at above
      obtain ⟨rfl, above⟩ := above
      cases lookup.symm.trans otherLookup
      rw [ih otherBelow above]

theorem throughReadOnly (rest : Path) :
    (s.readOnly || Dcl.throughReadOnly s (keys names ++ rest)) := by
  induction path with
  | here readOnly _ => simp [readOnly]
  | inside lookup _ ih =>
    change (false || throughReadOnlyIn _ _ _) = true
    rw [throughReadOnlyIn_eq, lookup]
    exact ih

end

theorem of_throughReadOnly {path : Path} {leaf : Value}
    (held : Leaf val path leaf) (through : (s.readOnly || Dcl.throughReadOnly s path)) :
    ∃ names, StatusPath val s names ∧ keys names <+: path := by
  induction path generalizing val s with
  | nil =>
    have readOnly : s.readOnly := by
      rcases Bool.or_eq_true_iff.mp through with readOnly | inside
      · exact readOnly
      · obtain ⟨_, _, _, empty, _⟩ := throughReadOnly_cases inside
        cases empty
    refine ⟨[], .here readOnly ?_, List.nil_prefix⟩
    rintro rfl
    exact not_leaf_null held
  | cons first rest ih =>
    cases readOnly : s.readOnly with
    | true =>
      refine ⟨[], .here readOnly ?_, List.nil_prefix⟩
      rintro rfl
      exact not_leaf_null held
    | false =>
      rw [readOnly, Bool.false_or] at through
      obtain ⟨name, _, inner, samePath, object, noMap, lookup, below⟩ :=
        throughReadOnly_cases through
      cases samePath
      obtain ⟨type, _, extension, properties, additionalProperties, items⟩ := s
      cases readOnly
      cases object
      cases noMap
      cases val with
      | map obj =>
        obtain ⟨names, status, above⟩ := ih held below
        exact ⟨name :: names, .inside lookup status, by
          simpa [keys, List.cons_prefix_cons] using above⟩
      | _ =>
        exact absurd held not_leaf_null

end StatusPath

end Paths

section Names

/-- A name that a dotted path can be taken apart at. -/
def isPlainName (name : String) : Bool := name != "" && !name.toList.contains '.'

mutual

/-- The names of the properties outside of collections are plain. -/
def plainNames : Schema → Bool
  | .mk .object _ _ properties none _ => plainNamesIn properties
  | _ => true

def plainNamesIn : Properties → Bool
  | [] => true
  | (field, s) :: rest =>
    isPlainName field && (s.readOnly || plainNames s) && plainNamesIn rest

end

theorem plainNamesIn_of_lookup (plain : plainNamesIn properties)
    {field : String} (found : properties.lookup field = some s) :
    isPlainName field ∧ (s.readOnly || plainNames s) := by
  induction properties with
  | nil => cases found
  | cons entry rest ih =>
    rw [plainNamesIn, and_eq_true, and_eq_true] at plain
    rw [lookup_cons] at found
    split at found
    · rename_i here
      cases found
      rw [here]
      exact plain.1
    · exact ih plain.2 found

theorem StatusPath.plain (path : StatusPath val s names) (plain : (s.readOnly || plainNames s)) :
    ∀ name ∈ names, isPlainName name := by
  induction path with
  | here => simp
  | inside lookup _ ih =>
    obtain ⟨here, below⟩ := plainNamesIn_of_lookup plain lookup
    exact List.forall_mem_cons.mpr ⟨here, ih below⟩

theorem splitPath_of_plain {name : String} (plain : isPlainName name) :
    splitPath name = [name] := by
  rw [isPlainName, and_eq_true, not_eq_true', List.contains_eq_mem,
    decide_eq_false_iff_not] at plain
  simp [splitPath, Text.split_of_not_mem plain.2]

theorem splitPath_dot (path k : String) :
    splitPath (path ++ "." ++ k) = splitPath path ++ splitPath k := by
  simp [splitPath, Text.split_append]

theorem splitPath_qualify {path : String} (nonempty : path ≠ "")
    (plain : ∀ name ∈ names, isPlainName name) :
    splitPath (qualify path names) = splitPath path ++ names := by
  induction names generalizing path with
  | nil => simp [qualify]
  | cons name names ih =>
    obtain ⟨here, others⟩ := List.forall_mem_cons.mp plain
    have longer : path ++ "." ++ name ≠ "" := by
      intro empty
      have lengths := congrArg String.length empty
      simp at lengths
    have step : qualify path (name :: names) = qualify (path ++ "." ++ name) names := by
      simp [qualify, qualifiedName, nonempty]
    rw [step, ih longer others, splitPath_dot, splitPath_of_plain here]
    simp

/-- A dotted path is taken apart into the names that it was made of. -/
theorem splitPath_qualify_root {first : String} {rest : List String}
    (plain : ∀ name ∈ first :: rest, isPlainName name) :
    splitPath (qualify "" (first :: rest)) = first :: rest := by
  obtain ⟨here, others⟩ := List.forall_mem_cons.mp plain
  have nonempty : first ≠ "" := by
    rw [isPlainName, and_eq_true, bne_iff_ne] at here
    exact here.1
  have step : qualify "" (first :: rest) = qualify first rest := by
    simp [qualify, qualifiedName]
  rw [step, splitPath_qualify nonempty others, splitPath_of_plain here]
  rfl

end Names

section Writes

variable {schema : Schema}

/-- What is written to the status for a path. -/
def statusWrite (obj : Fields) (names : List String) : Write where
  first := statusFieldName (names.headD "")
  rest := names.tail
  value := (Value.map obj).follow (keys names)

/-- The path in the status of a leaf of the DCL object. -/
def statusPath : Path → Path
  | .key first :: rest => .key (statusFieldName first) :: rest
  | path => path

section

variable (path : StatusPath (.map obj) schema names) (notReadOnly : schema.readOnly = false)
include path notReadOnly

theorem StatusPath.cons :
    ∃ first rest s, names = first :: rest ∧ schema.properties.lookup first = some s := by
  cases path with
  | here readOnly => simp [notReadOnly] at readOnly
  | inside lookup below => exact ⟨_, _, _, rfl, lookup⟩

theorem setStatusField_ok (plain : plainNames schema) {status written : Fields}
    (done : setNestedField (statusWrite obj names).value [] status
      (statusWrite obj names).first (statusWrite obj names).rest = .ok written) :
    setStatusField obj status (qualify "" names) = .ok written := by
  obtain ⟨first, rest, s, rfl, -⟩ := path.cons notReadOnly
  have split := splitPath_qualify_root (path.plain (by rw [plain, Bool.or_true]))
  have found : Value.nestedField (.map obj) (first :: rest) =
      .ok (some ((Value.map obj).follow (keys (first :: rest)))) :=
    nestedFieldFrom_of_follow [] path.present
  rw [setStatusField, split, found]
  change (wrapError _ (liftError (setNestedField _ [] status (statusFieldName first) rest))) = _
  have here : setNestedField ((Value.map obj).follow (keys (first :: rest))) [] status
      (statusFieldName first) rest = .ok written := done
  rw [here]
  rfl

end

/-- The status of a DCL object has the leaves of its read-only properties. -/
theorem convertToKRMStatus_ok (valid : wellFormed schema)
    (walkable : Walkable services (.map obj) schema) (notReadOnly : schema.readOnly = false)
    (silent : mapsQuiet (.map obj) schema) (plain : plainNames schema)
    (renamed : (schema.properties.map fun entry => statusFieldName entry.1).Nodup) :
    ∃ status, convertToKRMStatus obj schema = .ok status ∧
      ∀ target leaf, Leaf (.map status) target leaf ↔
        ∃ source, Leaf (.map obj) source leaf ∧ throughReadOnly schema source ∧
          statusPath source = target := by
  have isPath := mem_statusPaths_iff schema _ valid walkable
  have apart : Apart (statusWrite obj) (statusPaths (.map obj) schema) := by
    intro a inA b inB above
    have pathA := (isPath a).mp inA
    have pathB := (isPath b).mp inB
    obtain ⟨firstA, restA, sA, rfl, lookupA⟩ := pathA.cons notReadOnly
    obtain ⟨firstB, restB, sB, rfl, lookupB⟩ := pathB.cons notReadOnly
    rw [Write.path, Write.path, List.cons_prefix_cons] at above
    have same := List.inj_on_of_nodup_map renamed (mem_of_lookup lookupA)
      (mem_of_lookup lookupB) above.1
    cases same
    exact pathA.eq_of_prefix pathB (List.cons_prefix_cons.mpr ⟨rfl, above.2⟩)
  have performs : ∀ names ∈ statusPaths (.map obj) schema, ∀ status written,
      setNestedField (statusWrite obj names).value [] status (statusWrite obj names).first
        (statusWrite obj names).rest = .ok written →
      setStatusField obj status (qualify "" names) = .ok written := by
    intro names member status written done
    exact setStatusField_ok ((isPath names).mp member) notReadOnly plain done
  obtain ⟨status, done, leaves⟩ := writes_ok performs apart fun names _ => free_nil _ _
  refine ⟨status, ?_, ?_⟩
  · rw [convertToKRMStatus, getStatusFields_eq schema _ valid walkable silent, wrapError_ok,
      ok_bind, List.nil_append, List.foldlM_map]
    exact done
  intro target leaf
  rw [leaves]
  constructor
  · rintro (⟨names, member, below, rfl, held⟩ | ⟨-, held⟩)
    · have path := (isPath names).mp member
      have through := path.throughReadOnly below
      rw [notReadOnly, Bool.false_or] at through
      obtain ⟨first, rest, s, rfl, -⟩ := path.cons notReadOnly
      exact ⟨keys (first :: rest) ++ below, leaf_append.mpr held, through, rfl⟩
    · obtain ⟨name, rest, rfl, nil⟩ := leaf_map.mp held
      exact absurd nil not_leaf_null
  · rintro ⟨source, held, through, rfl⟩
    obtain ⟨names, path, below, rfl⟩ :=
      StatusPath.of_throughReadOnly held (by rw [through, Bool.or_true])
    left
    refine ⟨names, (isPath names).mpr path, below, ?_, leaf_append.mp held⟩
    obtain ⟨first, rest, s, rfl, -⟩ := path.cons notReadOnly
    rfl

end Writes

end ConfigConnector.Dcl
