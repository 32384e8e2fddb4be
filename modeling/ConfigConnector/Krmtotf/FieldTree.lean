import ConfigConnector.K8s.Strip
import ConfigConnector.Krmtotf.Conflicts
import ConfigConnector.Krmtotf.ReferencePath

/- The fields of a schema that are nested in objects: their paths in the Kubernetes object,
objects that fit the schema, and the orders in which the fields may be visited. -/
namespace ConfigConnector.Krmtotf

open K8s Text List String Function

variable {before path : List String} {schemas order : SchemaMap} {attributes : Attributes}
  {k : String} {enters : Attributes → Bool} {path : List String}

section Tree

variable (enters : Attributes → Bool)

/-- The object at a path has these fields. -/
inductive Inside : SchemaMap → List String → SchemaMap → Prop where
  | here (schemas : SchemaMap) : Inside schemas [] schemas
  | into {schemas fields inner : SchemaMap} {k : String} {attributes : Attributes}
      {path : List String} (member : (k, .mk attributes (.resource fields)) ∈ schemas)
      (entered : enters attributes = true) (below : Inside fields path inner) :
      Inside schemas (k :: path) inner

/-- A field at a path. -/
inductive FieldAt : SchemaMap → List String → Attributes → Prop where
  | here {schemas : SchemaMap} {k : String} {attributes : Attributes} {elem : Elem}
      (member : (k, .mk attributes elem) ∈ schemas) : FieldAt schemas [k] attributes
  | into {schemas fields : SchemaMap} {k : String} {around attributes : Attributes}
      {path : List String} (member : (k, .mk around (.resource fields)) ∈ schemas)
      (entered : enters around = true) (below : FieldAt fields path attributes) :
      FieldAt schemas (k :: path) attributes

variable {enters} {schemas inner : SchemaMap}

theorem FieldAt.ne_nil (field : FieldAt enters schemas path attributes) : path ≠ [] := by
  cases field <;> simp

theorem FieldAt.inside (field : FieldAt enters schemas path attributes)
    (above : before <+: path.dropLast) : ∃ inner, Inside enters schemas before inner := by
  induction field generalizing before with
  | here member =>
    rw [prefix_nil.mp above]
    exact ⟨_, .here _⟩
  | @into schemas fields k around attributes path member entered below ih =>
    cases before with
    | nil => exact ⟨_, .here _⟩
    | cons first before =>
      rw [dropLast_cons_of_ne_nil below.ne_nil] at above
      obtain ⟨rfl, further⟩ := cons_prefix_cons.mp above
      obtain ⟨inner, inside⟩ := ih further
      exact ⟨inner, .into member entered inside⟩

theorem FieldAt.mono {wider : Attributes → Bool}
    (weaker : ∀ attributes, enters attributes → wider attributes)
    (field : FieldAt enters schemas path attributes) : FieldAt wider schemas path attributes := by
  induction field with
  | here member => exact .here member
  | into member entered _ ih => exact .into member (weaker _ entered) ih

end Tree

/-- A list or set of at most one object is an object of the Kubernetes resource. -/
def isNested (attributes : Attributes) : Bool :=
  (attributes.type = .list || attributes.type = .set) && attributes.maxItems = 1

theorem isNested_of_isObjectField (attributes : Attributes)
    (object : isObjectField attributes) : isNested attributes := by
  simp only [isObjectField, isNested, Bool.and_eq_true, Bool.or_eq_true] at object ⊢
  exact ⟨.inl object.1, object.2⟩

/-- A field of the schema, nested in any kind of object. -/
abbrev Field : SchemaMap → List String → Attributes → Prop := FieldAt isNested

/-- A field that the removal of conflicts visits. -/
abbrev Visited : SchemaMap → List String → Attributes → Prop := FieldAt isObjectField

theorem FieldAt.field (visited : Visited schemas path attributes) : Field schemas path attributes :=
  visited.mono isNested_of_isObjectField

variable {rc : ResourceConfig}

section Paths

/-- The name of a path in the service mappings. -/
def joined (tfPath : List String) : String := ".".intercalate tfPath

/-- The path of a field in the Kubernetes object. -/
def fieldPath (rc : ResourceConfig) (tfPath : List String) : List String :=
  tfPath.dropLast.map snakeCaseToLowerCamelCase ++
    [krmKey rc (joined tfPath.dropLast) (tfPath.getLastD "")]

section

variable (names : ∀ name ∈ path, isFieldName name)
include names

theorem joined_concat (k : String) : joined (path ++ [k]) = qualify (joined path) k := by
  by_cases empty : path = []
  · subst empty
    simp [joined, qualify]
  have present : joined path ≠ "" := by
    obtain ⟨first, rest, rfl⟩ := exists_cons_of_ne_nil empty
    have name := names first (.head _)
    simp only [isFieldName, Bool.and_eq_true, bne_iff_ne, ne_eq] at name
    intro nothing
    have chars := congrArg String.toList nothing
    rw [joined, toList_intercalate] at chars
    cases rest with
    | nil => simp [name.1] at chars
    | cons second rest => simp [List.intercalate] at chars
  rw [joined, intercalate_append_of_ne_nil empty (by simp), ← joined, qualify]
  simp [present]

theorem partsOf_joined : partsOf (joined path) = path := by
  induction path using List.reverseRecOn with
  | nil => rfl
  | append_singleton path k ih =>
    have before : ∀ name ∈ path, isFieldName name = true := fun name member =>
      names name (mem_append_left _ member)
    rw [joined_concat before, partsOf_qualify _ (names k (by simp)), ih before]

theorem components_joined (present : path ≠ []) : components (joined path) = path := by
  have whole := partsOf_joined names
  rw [partsOf] at whole
  split at whole
  · exact absurd whole.symm present
  · exact whole

end

theorem splitIndices_cons {c : Char} (other : c ≠ '.') (rest : List Char) :
    ∃ word words, splitIndices rest = word :: words ∧
      splitIndices (c :: rest) = (c :: word) :: words := by
  have present : splitIndices rest ≠ [] := by
    fun_cases splitIndices rest <;> simp_all
  obtain ⟨word, words, found⟩ := exists_cons_of_ne_nil present
  refine ⟨word, words, found, ?_⟩
  rw [splitIndices, found]
  intro rest same
  exact absurd same other

theorem splitIndices_name {name : List Char} (plain : '.' ∉ name) : splitIndices name = [name] := by
  induction name with
  | nil => rfl
  | cons c name ih =>
    rw [List.mem_cons, not_or] at plain
    obtain ⟨word, words, below, whole⟩ := splitIndices_cons (Ne.symm plain.1) name
    rw [ih plain.2] at below
    cases below
    exact whole

theorem splitIndices_append {name : List Char} (plain : '.' ∉ name) (rest : List Char) :
    splitIndices (name ++ '.' :: '0' :: '.' :: rest) = name :: splitIndices rest := by
  induction name with
  | nil => rfl
  | cons c name ih =>
    rw [List.mem_cons, not_or] at plain
    obtain ⟨word, words, below, whole⟩ :=
      splitIndices_cons (Ne.symm plain.1) (name ++ '.' :: '0' :: '.' :: rest)
    rw [ih plain.2] at below
    cases below
    exact whole

/-- A key is taken apart into the path it was made of. -/
theorem conflictingTFPath_intercalate (names : ∀ name ∈ path, isFieldName name)
    (present : path ≠ []) : conflictingTFPath (".0.".intercalate path) = path := by
  induction path with
  | nil => exact absurd rfl present
  | cons first rest ih =>
    have plain : '.' ∉ first.toList := by
      have name := names first (.head _)
      simp only [isFieldName, Bool.and_eq_true, Bool.not_eq_true', contains_eq_mem,
        decide_eq_false_iff_not] at name
      exact name.2
    cases rest with
    | nil => simp [conflictingTFPath, splitIndices_name plain]
    | cons second rest =>
      have below := ih (fun name member => names name (.tail _ member)) (by simp)
      have chars : (".0.".intercalate (first :: second :: rest)).toList =
          first.toList ++ '.' :: '0' :: '.' :: (".0.".intercalate (second :: rest)).toList := by
        rw [String.intercalate_cons_cons, toList_append, toList_append,
          List.append_assoc]
        rfl
      rw [conflictingTFPath] at below ⊢
      rw [chars, splitIndices_append plain, map_cons, below]
      simp

/-- What is expected of the fields of one object in the schema. -/
structure RegularLevel (rc : ResourceConfig) (above : List String) (fields : SchemaMap) : Prop where
  names : ∀ entry ∈ fields, isFieldName entry.1 = true ∧ isSnakeCase entry.1.toList = true
  lower : ∀ entry ∈ fields, startsUpper (krmKey rc (joined above) entry.1).toList = false
  objects : ∀ k attributes inner, (k, .mk attributes (.resource inner)) ∈ fields →
    isNested attributes = true → isReferenceField (joined (above ++ [k])) rc = none

/-- Below the path `above` the names are in snake case, the keys of the Kubernetes object are in
lower camel case, and what is referred to is no object. -/
def Regular (rc : ResourceConfig) (above : List String) (schemas : SchemaMap) : Prop :=
  ∀ path inner, Inside isNested schemas path inner → RegularLevel rc (above ++ path) inner

variable {above path : List String} {schemas fields : SchemaMap}

section

variable (regular : Regular rc above schemas)
include regular

theorem Regular.level : RegularLevel rc above schemas := by
  have here := regular [] schemas (.here schemas)
  rwa [append_nil] at here

theorem Regular.into (member : (k, .mk attributes (.resource fields)) ∈ schemas)
    (nested : isNested attributes) :
    Regular rc (above ++ [k]) fields := by
  intro path inner inside
  have below := regular (k :: path) inner (.into member nested inside)
  rwa [append_cons] at below

theorem Regular.names (field : Field schemas path attributes) :
    ∀ name ∈ path, isFieldName name ∧ isSnakeCase name.toList := by
  induction field generalizing above with
  | here member =>
    intro name here
    rw [mem_singleton.mp here]
    exact regular.level.names _ member
  | into member entered below ih =>
    intro name here
    rcases List.mem_cons.mp here with rfl | inside
    · exact regular.level.names _ member
    · exact ih (regular.into member entered) name inside

end

/-- The camel case of a joined path, as parts. -/
theorem components_camelCase_joined (names : ∀ name ∈ path, isFieldName name)
    (present : path ≠ []) :
    components (snakeCaseToLowerCamelCase (joined path)) =
      (camelParts false ' ' (path.map String.toList)).map String.ofList := by
  have parts : split '.' (joined path).toList = path.map String.toList := by
    have whole := congrArg (List.map String.toList) (components_joined names present)
    rw [components] at whole
    simpa [comp_def] using whole
  rw [components_camelCase, parts]

theorem camelParts_toList_cases (snake : ∀ name ∈ path, isSnakeCase name.toList) :
    (camelParts false ' ' (path.map String.toList)).map String.ofList =
        path.map snakeCaseToLowerCamelCase ∨
      ∃ before part after name rest, path = before ++ part :: after ∧
        (camelParts false ' ' (path.map String.toList)).map String.ofList =
          before.map snakeCaseToLowerCamelCase ++ name :: rest ∧
        startsUpper name.toList := by
  have camel_map : ∀ names : List String, (names.map String.toList).map camel =
      (names.map snakeCaseToLowerCamelCase).map String.toList := by
    intro names
    simp [snakeCaseToLowerCamelCase_eq, comp_def]
  have back : ∀ names : List String, (names.map String.toList).map String.ofList = names := by
    intro names
    simp [comp_def]
  rcases camelParts_cases (path.map String.toList) (by simpa using snake) with same | ⟨before, part,
    after, name, rest, split, differs, upper⟩
  · exact .inl (by rw [same, camel_map, back])
  obtain ⟨first, second, rfl, rfl, tail⟩ := map_eq_append_iff.mp split
  obtain ⟨here, later, rfl, _, _⟩ := map_eq_cons_iff.mp tail
  refine .inr ⟨first, here, later, String.ofList name, rest.map String.ofList, rfl, ?_, ?_⟩
  · rw [differs, camel_map, map_append, back]
    rfl
  · rwa [toList_ofList]

theorem joined_eq (names : ∀ name ∈ path, isFieldName name) (present : path ≠ []) :
    joined path = qualify (joined path.dropLast) (path.getLastD "") := by
  have last : path.getLastD "" = path.getLast present := by
    rw [getLastD_eq_getLast?, List.getLast?_eq_getLast_of_ne_nil present]
    rfl
  have before : ∀ name ∈ path.dropLast, isFieldName name = true :=
    fun name member => names name (mem_of_mem_dropLast member)
  rw [← joined_concat before, last, dropLast_append_getLast present]

/-- The source looks for a field at its path, or at one with a capital that no path has. -/
theorem krmPathOf_cases (names : ∀ name ∈ path, isFieldName name ∧
      isSnakeCase name.toList) (present : path ≠ []) :
    krmPathOf rc path = fieldPath rc path ∨
      ∃ before name rest, krmPathOf rc path = before.map snakeCaseToLowerCamelCase ++ name :: rest ∧
        before <+: path.dropLast ∧ startsUpper name.toList := by
  have fieldNames : ∀ name ∈ path, isFieldName name = true := fun name member =>
    (names name member).1
  have snake : ∀ name ∈ path, isSnakeCase name.toList = true := fun name member =>
    (names name member).2
  have name := joined_eq fieldNames present
  have last : path.dropLast ++ [path.getLastD ""] = path := by
    rw [getLastD_eq_getLast?, List.getLast?_eq_getLast_of_ne_nil present]
    exact dropLast_append_getLast present
  rw [krmPathOf, ← joined, fieldPath, krmKey, ← name]
  cases reference : isReferenceField (joined path) rc with
  | none =>
    left
    conv_lhs => rw [← last]
    simp
  | some refConfig =>
    have field := isReferenceField_tfField reference
    have parts := components_camelCase_joined fieldNames present
    dsimp only
    rw [getPathToReferenceKey, field, parts]
    by_cases noKey : refConfig.key = ""
    · rw [if_neg (by simp [noKey])]
      rcases camelParts_toList_cases snake with same | ⟨before, part, after, name, rest, split,
        differs, upper⟩
      · left
        have placed := getKeyForReferenceField_eq refConfig noKey
        rw [placedPath, field, components_joined fieldNames present] at placed
        rw [same, placed]
      · right
        refine ⟨before, name, rest, differs, ?_, upper⟩
        rw [split, dropLast_append_of_ne_nil (by simp)]
        exact prefix_append _ _
    · have key : getKeyForReferenceField refConfig = refConfig.key := by
        simp [getKeyForReferenceField, noKey]
      have inner : ∀ name ∈ path.dropLast, isSnakeCase name.toList = true :=
        fun name member => snake name (mem_of_mem_dropLast member)
      rw [if_pos (by simp [noKey]), key, ← map_dropLast, camelParts_dropLast, ← map_dropLast]
      rcases camelParts_toList_cases inner with same | ⟨before, part, after, name, rest, split,
        differs, upper⟩
      · exact .inl (by rw [same])
      right
      refine ⟨before, name, rest ++ [refConfig.key], ?_, ?_, upper⟩
      · rw [differs, List.append_assoc]
        rfl
      · rw [split]
        exact prefix_append _ _

/-- An object is looked for at its path. -/
theorem krmPathOf_object (plain : isReferenceField (joined path) rc = none) :
    krmPathOf rc path = path.map snakeCaseToLowerCamelCase := by
  rw [krmPathOf, ← joined, plain]

/-- The path is right as the source computes it: it is not that of a reference, or no name in it
that begins with a letter follows one with an underscore. With a key of its own, the last name of a
reference does not count. -/
def Legible (rc : ResourceConfig) (path : List String) : Prop :=
  ∀ refConfig, isReferenceField (joined path) rc = some refConfig →
    keepsCase (if refConfig.key = "" then path else path.dropLast)

theorem krmPathOf_legible (names : ∀ name ∈ path, isFieldName name ∧ isSnakeCase name.toList)
    (present : path ≠ []) (legible : Legible rc path) : krmPathOf rc path = fieldPath rc path := by
  have fieldNames : ∀ name ∈ path, isFieldName name = true := fun name member =>
    (names name member).1
  have last : path.dropLast ++ [path.getLastD ""] = path := by
    rw [getLastD_eq_getLast?, List.getLast?_eq_getLast_of_ne_nil present]
    exact dropLast_append_getLast present
  rw [krmPathOf, ← joined, fieldPath, krmKey, ← joined_eq fieldNames present]
  cases reference : isReferenceField (joined path) rc with
  | none =>
    conv_lhs => rw [← last]
    simp
  | some refConfig =>
    have field := isReferenceField_tfField reference
    have parts := components_joined fieldNames present
    have agrees := getPathToReferenceKey_iff refConfig
    rw [placedPath, field, parts] at agrees
    exact (agrees fun name member => (names name member).2).mpr (legible refConfig reference)

end Paths

section Fits

/-- The object has the form of the schema: where the schema has an object it has a map, with
no keys but those of the fields. -/
structure Fits (rc : ResourceConfig) (schemas : SchemaMap) (obj : Fields) : Prop where
  proper : Proper (.map obj)
  objects : ∀ path inner, Inside isNested schemas path inner → ∀ value,
    dig (.map obj) (path.map snakeCaseToLowerCamelCase) = some value →
      ∃ fields, value = .map fields ∧ ∀ key value, fields.lookup key = some value →
        ∃ entry ∈ inner, krmKey rc (joined path) entry.1 = key

/-- Everything above the last part of a path is a map, or is not there. -/
theorem passable_through {value : Value} (name : String)
    (maps : ∀ first, first <+: before → ∀ inner, dig value first = some inner →
      ∃ fields, inner = .map fields) (rest : List String)
    (ends : rest = [] ∨ dig value (before ++ [name]) = none) :
    Passable value (before ++ name :: rest) := by
  induction before generalizing value with
  | nil =>
    obtain ⟨fields, rfl⟩ := maps [] (by simp) value (dig_nil value)
    intro inner here
    rcases ends with rfl | none
    · cases inner <;> trivial
    · simp [here] at none
  | cons first before ih =>
    obtain ⟨fields, rfl⟩ := maps [] (by simp) value (dig_nil value)
    intro inner here
    apply ih
    · intro further inside deeper found
      apply maps (first :: further) (cons_prefix_cons.mpr ⟨rfl, inside⟩) deeper
      rw [dig_map, here]
      exact found
    · refine ends.imp_right fun none => ?_
      rwa [cons_append, dig_map, here] at none

variable {schemas : SchemaMap} {obj : Fields}

theorem Fits.maps (fits : Fits rc schemas obj) (field : Field schemas path attributes)
    (above : before <+: path.dropLast) :
    ∀ first, first <+: before.map snakeCaseToLowerCamelCase → ∀ inner,
      dig (.map obj) first = some inner → ∃ fields, inner = .map fields := by
  intro first inside inner found
  obtain ⟨names, rfl, inBefore⟩ : ∃ names, first = List.map snakeCaseToLowerCamelCase names ∧
      names <+: before := by
    obtain ⟨rest, whole⟩ := inside
    obtain ⟨names, others, rfl, rfl, _⟩ := map_eq_append_iff.mp whole.symm
    exact ⟨names, rfl, prefix_append _ _⟩
  obtain ⟨fields, at_path⟩ := field.inside (inBefore.trans above)
  obtain ⟨entries, same, _⟩ := fits.objects _ _ at_path inner found
  exact ⟨entries, same⟩

/-- A lookup for a field of the schema does not fail, and finds it at its path only. -/
theorem Fits.lookup (fits : Fits rc schemas obj) (regular : Regular rc [] schemas)
    (field : Field schemas path attributes) :
    Passable (.map obj) (krmPathOf rc path) ∧
      (dig (.map obj) (krmPathOf rc path) ≠ none → krmPathOf rc path = fieldPath rc path) := by
  rcases krmPathOf_cases (regular.names field) field.ne_nil with same | ⟨before, name, rest,
    differs, above, upper⟩
  · refine ⟨?_, fun _ => same⟩
    rw [same, fieldPath]
    exact passable_through _ (fits.maps field prefix_rfl) [] (.inl rfl)
  have absent : dig (.map obj) (before.map snakeCaseToLowerCamelCase ++ [name]) = none := by
    rw [dig_append]
    cases held : dig (.map obj) (before.map snakeCaseToLowerCamelCase) with
    | none => rfl
    | some value =>
      obtain ⟨inner, at_path⟩ := field.inside above
      obtain ⟨fields, rfl, keys⟩ := fits.objects before inner at_path value held
      cases found : fields.lookup name with
      | none => simp [found]
      | some value =>
        obtain ⟨entry, member, rfl⟩ := keys name value found
        have lower := (regular before inner at_path).lower entry member
        rw [nil_append, upper] at lower
        cases lower
  refine ⟨?_, fun found => ?_⟩
  · rw [differs]
    exact passable_through name (fits.maps field above) rest (.inr absent)
  refine absurd ?_ found
  rw [differs, append_cons, dig_append, absent]
  rfl

end Fits

section Orders

/-- The fields of a schema, and those of the objects in it, in another order. -/
inductive Reordered : SchemaMap → SchemaMap → Prop where
  | refl (schemas : SchemaMap) : Reordered schemas schemas
  | cons {rest other : SchemaMap} (entry : String × Schema) (below : Reordered rest other) :
      Reordered (entry :: rest) (entry :: other)
  | swap (first second : String × Schema) (rest : SchemaMap) :
      Reordered (first :: second :: rest) (second :: first :: rest)
  | inside (k : String) (attributes : Attributes) {fields other : SchemaMap} (rest : SchemaMap)
      (below : Reordered fields other) :
      Reordered ((k, .mk attributes (.resource fields)) :: rest)
        ((k, .mk attributes (.resource other)) :: rest)
  | trans {first second third : SchemaMap} (left : Reordered first second)
      (right : Reordered second third) : Reordered first third

theorem Reordered.symm (reordered : Reordered schemas order) : Reordered order schemas := by
  induction reordered with
  | refl schemas => exact .refl schemas
  | cons entry _ ih => exact .cons entry ih
  | swap first second rest => exact .swap second first rest
  | inside k attributes rest _ ih => exact .inside k attributes rest ih
  | trans _ _ left right => exact .trans right left

section

variable (reordered : Reordered schemas order)
include reordered

/-- An entry of one order is one of the other, up to the order inside of it. -/
theorem Reordered.entry {elem : Elem} (member : (k, .mk attributes elem) ∈ order) :
    ∃ before, (k, .mk attributes before) ∈ schemas ∧ (before = elem ∨ ∃ fields other,
      before = .resource fields ∧ elem = .resource other ∧ Reordered fields other) := by
  induction reordered generalizing elem with
  | refl schemas => exact ⟨elem, member, .inl rfl⟩
  | cons entry _ ih =>
    rcases List.mem_cons.mp member with rfl | below
    · exact ⟨elem, .head _, .inl rfl⟩
    · obtain ⟨before, inside, same⟩ := ih below
      exact ⟨before, .tail _ inside, same⟩
  | swap first second rest =>
    exact ⟨elem, (List.Perm.swap second first rest).mem_iff.mpr member, .inl rfl⟩
  | @inside k attributes fields other rest below _ =>
    rcases List.mem_cons.mp member with same | later
    · cases same
      exact ⟨.resource fields, .head _, .inr ⟨fields, other, rfl, rfl, below⟩⟩
    · exact ⟨elem, .tail _ later, .inl rfl⟩
  | trans _ _ left right =>
    obtain ⟨middle, inMiddle, second⟩ := right member
    obtain ⟨before, inFirst, first⟩ := left inMiddle
    refine ⟨before, inFirst, ?_⟩
    rcases first with rfl | ⟨fields, other, rfl, rfl, one⟩
    · exact second
    rcases second with rfl | ⟨_, third, same, rfl, two⟩
    · exact .inr ⟨fields, other, rfl, rfl, one⟩
    · cases same
      exact .inr ⟨fields, third, rfl, rfl, one.trans two⟩

theorem Reordered.field_of (field : FieldAt enters order path attributes) :
    FieldAt enters schemas path attributes := by
  induction field generalizing schemas with
  | here member =>
    obtain ⟨elem, found, _⟩ := reordered.entry member
    exact .here found
  | into member entered below ih =>
    obtain ⟨elem, found, same | ⟨fields, other, rfl, same, inner⟩⟩ := reordered.entry member
    · subst same
      exact .into found entered (ih (.refl _))
    · cases same
      exact .into found entered (ih inner)

end

end Orders

end ConfigConnector.Krmtotf
