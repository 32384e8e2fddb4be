import ConfigConnector.Krmtotf.ConflictRuns

/- When the removal of conflicts does what it is for: in whatever order the fields are
visited it has no error, leaves no conflict, and takes out nothing else. -/
namespace ConfigConnector.Krmtotf

open K8s Text List Option

variable {rc : ResourceConfig} {spec state : Fields} {schemas order : SchemaMap} {cut : Cut}
  {value : Value} {above first path : List String} {attributes : Attributes}
  {before after : List Visit} {v : Visit}

theorem dig_above {inner : Value} (before : first <+: path)
    (found : dig value path = some inner) : dig value first ≠ none := by
  intro absent
  rw [absent_below before absent] at found
  cases found

section Fit

/-- The conflicting keys are those of fields. -/
def KeysPoint (schemas : SchemaMap) : Prop :=
  ∀ path attributes, Field schemas path attributes →
    ∀ key ∈ attributes.conflictsWith ++ attributes.exactlyOneOf,
      ∃ target other, Field schemas target other ∧ key = ".0.".intercalate target

theorem Inside.object {inner : SchemaMap} (inside : Inside isNested schemas path inner)
    (regular : Regular rc above schemas) (present : path ≠ []) :
    isReferenceField (joined (above ++ path)) rc = none := by
  induction inside generalizing above with
  | here schemas => exact absurd rfl present
  | @into schemas fields inner k attributes path member entered below ih =>
    rw [append_cons]
    by_cases last : path = []
    · subst last
      rw [append_nil]
      exact regular.level.objects k attributes fields member entered
    · exact ih (regular.into member entered) last

/-- An object is looked for above everything in it. -/
theorem Fits.nested (fits : Fits rc schemas state) (regular : Regular rc [] schemas)
    (field : Field schemas path attributes)
    (found : dig (.map state) (krmPathOf rc path) ≠ none) (some_name : first ≠ [])
    (before : first <+: path) : krmPathOf rc first <+: krmPathOf rc path := by
  by_cases whole : first = path
  · rw [whole]
  have around : first <+: path.dropLast := by
    obtain ⟨rest, rfl⟩ := before
    have more : rest ≠ [] := by
      rintro rfl
      exact whole (append_nil first).symm
    rw [dropLast_append_of_ne_nil more]
    exact prefix_append _ _
  obtain ⟨inner, inside⟩ := field.inside around
  have plain : isReferenceField (joined first) rc = none := inside.object regular some_name
  rw [krmPathOf_object plain, (fits.lookup regular field).2 found, fieldPath]
  exact (around.map _).trans (prefix_append _ _)

theorem Regular.intercalate (regular : Regular rc [] schemas)
    (field : Field schemas path attributes) :
    conflictingTFPath (".0.".intercalate path) = path :=
  conflictingTFPath_intercalate (fun name inside => (regular.names field name inside).1)
    field.ne_nil

theorem KeysPoint.target (points : KeysPoint schemas) (regular : Regular rc [] schemas)
    (field : Field schemas path attributes) {key : String}
    (member : key ∈ conflictingTFKeys attributes path) :
    ∃ other, Field schemas (conflictingTFPath key) other := by
  obtain ⟨target, other, targetField, rfl⟩ :=
    points path attributes field key (mem_of_mem_filter member)
  rw [regular.intercalate targetField]
  exact ⟨other, targetField⟩

theorem krmPathOf_ne_nil (regular : Regular rc [] schemas)
    (field : Field schemas path attributes) : krmPathOf rc path ≠ [] := by
  rcases krmPathOf_cases (regular.names field) field.ne_nil with same | ⟨before, name, rest,
    differs, _, _⟩
  · rw [same, fieldPath]
    simp
  · rw [differs]
    simp

/-- What is visited is a field, in whatever order. -/
theorem Reordered.field (reordered : Reordered schemas order) (member : v ∈ visits [] order) :
    Visited schemas v.1 v.2 := by
  obtain ⟨rest, visited, rfl⟩ := mem_visits.mp member
  exact reordered.field_of visited

theorem takenBy_visits (reordered : Reordered schemas order) :
    takenBy rc spec (visits [] order) = taken rc spec [] schemas := by
  funext path
  apply propext
  constructor
  · rintro ⟨v, member, found⟩
    exact ⟨v.1, v.2, reordered.field member, found⟩
  · rintro ⟨tfPath, attributes, visited, found⟩
    exact ⟨(tfPath, attributes), mem_visits.mpr ⟨tfPath, reordered.symm.field_of visited, rfl⟩,
      found⟩

end Fit

section Cleaning

variable (rc : ResourceConfig) (schemas : SchemaMap) (spec : Fields) (path : List String)

/-- A key is that of another field of the schema, which is in the spec. -/
def KeyInSpec (key : String) : Prop :=
  ∃ target other, Field schemas target other ∧ key = ".0.".intercalate target ∧ target ≠ path ∧
    dig (.map spec) (fieldPath rc target) ≠ none

/-- A field that is listed under ConflictsWith or ExactlyOneOf is in the spec. -/
def Conflicted (attributes : Attributes) : Prop :=
  ∃ key ∈ attributes.conflictsWith ++ attributes.exactlyOneOf,
    KeyInSpec rc schemas spec path key

/-- A path is that of a field with a conflict, or goes on from one. -/
def InConflict : Prop :=
  ∃ tfPath attributes, Field schemas tfPath attributes ∧ fieldPath rc tfPath <+: path ∧
    Conflicted rc schemas spec tfPath attributes

/-- What the removal of conflicts is to make of the state. -/
structure Cleaned (spec state result : Fields) : Prop where
  /-- No field that is left has a conflict. -/
  clean : ∀ path attributes, Field schemas path attributes →
    dig (.map result) (fieldPath rc path) ≠ none → ¬ Conflicted rc schemas spec path attributes
  /-- What has gone is a field with a conflict, is in one, or is an object that became empty:
  all it had was that. -/
  removed : ∀ path value, dig (.map state) path = some value → dig (.map result) path = none →
    InConflict rc schemas spec path ∨
    ∃ inner, value = .map inner ∧ inner ≠ [] ∧ ∀ rest leaf, dig value rest = some leaf →
      (∀ fields, leaf = .map fields → fields = []) → InConflict rc schemas spec (path ++ rest)
  /-- What is not an object is left as it was. -/
  kept : ∀ path value after, dig (.map state) path = some value →
    dig (.map result) path = some after → after = value ∨
      ∃ fields others, value = .map fields ∧ after = .map others
  /-- Nothing is added. -/
  added : ∀ path, dig (.map state) path = none → dig (.map result) path = none

/-- The state can be cleaned: no field of it has two conflicts, and every field of it with a
conflict is in objects of list type only, and has a path that is right as the source computes it,
as has the field that it is in conflict with. -/
structure Cleanable (spec state : Fields) : Prop where
  once : ∀ path attributes, Field schemas path attributes →
    dig (.map state) (fieldPath rc path) ≠ none →
    (attributes.conflictsWith ++ attributes.exactlyOneOf).Pairwise fun key other =>
      ¬ (KeyInSpec rc schemas spec path key ∧ KeyInSpec rc schemas spec path other)
  found : ∀ path attributes, Field schemas path attributes →
    dig (.map state) (fieldPath rc path) ≠ none →
    Conflicted rc schemas spec path attributes →
    FieldAt (fun around => around.type = .list && around.maxItems = 1) schemas path attributes ∧
      Legible rc path ∧ ∀ target, ".0.".intercalate target ∈
        attributes.conflictsWith ++ attributes.exactlyOneOf →
          dig (.map spec) (fieldPath rc target) ≠ none → Legible rc target

variable {rc schemas spec path}

/-- Of what is at a path something goes for one of two reasons. -/
theorem stripped_eq_none (gone : stripped cut value = none) :
    ∃ inner, value = .map inner ∧ inner ≠ [] ∧ strip cut inner = [] := by
  cases value with
  | map inner =>
    rw [stripped] at gone
    split at gone
    · rename_i both
      exact ⟨inner, rfl, both.1, both.2⟩
    · cases gone
  | _ =>
    cases gone

/-- If nothing is left of an object, everything in it was taken out. -/
theorem above_of_strip_nil {inner : Fields} (proper : Proper (.map inner))
    (some_entry : inner ≠ []) (empty : strip cut inner = []) {rest : List String} {leaf : Value}
    (found : dig (.map inner) rest = some leaf)
    (closed : ∀ fields, leaf = .map fields → fields = []) : cut.above rest := by
  have below : rest ≠ [] := by
    rintro rfl
    exact some_entry (closed inner (Option.some.inj found).symm)
  have gone : dig (.map (strip cut inner)) rest = _ := dig_strip proper below found
  rw [empty] at gone
  by_contra outside
  rw [if_neg outside] at gone
  obtain ⟨fields, same, present, _⟩ := stripped_eq_none (gone.symm.trans (by
    obtain ⟨first, others, rfl⟩ := exists_cons_of_ne_nil below
    rfl))
  exact present (closed fields same)

section Fitting

variable (regular : Regular rc [] schemas) (points : KeysPoint schemas)
  (specFits : Fits rc schemas spec)
include regular points specFits

/-- A key that is looked for and found is that of a field in the spec. -/
theorem keyInSpec_of_clash (field : Field schemas path attributes) {key : String}
    (member : key ∈ clashes rc spec (conflictingTFKeys attributes path)) :
    KeyInSpec rc schemas spec path key := by
  obtain ⟨inKeys, found⟩ := mem_filter.mp member
  obtain ⟨listed, differs⟩ := mem_filter.mp inKeys
  obtain ⟨target, other, targetField, rfl⟩ := points path attributes field key listed
  rw [regular.intercalate targetField] at found
  have there : dig (.map spec) (krmPathOf rc target) ≠ none := by
    simpa [isSome_iff_ne_none] using found
  refine ⟨target, other, targetField, rfl, ?_, ?_⟩
  · rintro rfl
    simp at differs
  · rwa [← (specFits.lookup regular targetField).2 there]

theorem conflicted_of_sees
    (field : Field schemas path attributes) (sees : Sees rc spec path attributes) :
    Conflicted rc schemas spec path attributes := by
  obtain ⟨key, member⟩ := exists_mem_of_ne_nil _ sees
  exact ⟨key, mem_of_mem_filter (mem_of_mem_filter member),
    keyInSpec_of_clash regular points specFits field member⟩

omit points specFits in
/-- A conflict is found, if the other field is looked for at its path. -/
theorem sees_of_conflicted (field : Field schemas path attributes)
    (conflict : Conflicted rc schemas spec path attributes)
    (legible : ∀ target, ".0.".intercalate target ∈
      attributes.conflictsWith ++ attributes.exactlyOneOf →
        dig (.map spec) (fieldPath rc target) ≠ none → Legible rc target) :
    Sees rc spec path attributes := by
  obtain ⟨_, listed, target, other, targetField, rfl, differs, found⟩ := conflict
  have key : ".0.".intercalate target ≠ ".0.".intercalate path := by
    intro same
    apply differs
    rw [← regular.intercalate targetField, same, regular.intercalate field]
  refine ne_nil_of_mem (a := ".0.".intercalate target) (mem_filter.mpr ⟨?_, ?_⟩)
  · exact mem_filter.mpr ⟨listed, by simpa using key⟩
  · rw [regular.intercalate targetField, krmPathOf_legible (regular.names targetField)
      targetField.ne_nil (legible target listed found)]
    simpa [isSome_iff_ne_none] using found

/-- At most one key is found for a field of a state that can be cleaned. -/
theorem Cleanable.clashes_le (cleanable : Cleanable rc schemas spec state)
    (field : Field schemas path attributes) (there : dig (.map state) (fieldPath rc path) ≠ none) :
    (clashes rc spec (conflictingTFKeys attributes path)).length ≤ 1 := by
  have within : (clashes rc spec (conflictingTFKeys attributes path)).Sublist
      (attributes.conflictsWith ++ attributes.exactlyOneOf) := filter_sublist.trans filter_sublist
  have apart := (cleanable.once path attributes field there).sublist within
  have known : ∀ key ∈ clashes rc spec (conflictingTFKeys attributes path),
      KeyInSpec rc schemas spec path key :=
    fun key member => keyInSpec_of_clash regular points specFits field member
  cases found : clashes rc spec (conflictingTFKeys attributes path) with
  | nil => simp
  | cons key rest =>
    cases rest with
    | nil => simp
    | cons other rest =>
      rw [found] at apart known
      exact absurd ⟨known key (.head _), known other (.tail _ (.head _))⟩
        ((pairwise_cons.mp apart).1 other (.head _))

variable (stateFits : Fits rc schemas state)
include stateFits

theorem readable_of_fits (cleanable : Cleanable rc schemas spec state)
    (reordered : Reordered schemas order) : Readable rc spec state (visits [] order) where
  proper := stateFits.proper
  present := fun v member => krmPathOf_ne_nil regular (reordered.field member).field
  passable := fun v member => (stateFits.lookup regular (reordered.field member).field).1
  keys := by
    intro v member key inKeys
    obtain ⟨other, target⟩ := points.target regular (reordered.field member).field inKeys
    exact ⟨krmPathOf_ne_nil regular target, (specFits.lookup regular target).1⟩
  nested := fun u first v second before found =>
    stateFits.nested regular (reordered.field second).field found (reordered.field first).ne_nil
      before
  once := by
    intro v member there
    have field := (reordered.field member).field
    refine cleanable.clashes_le regular points specFits field ?_
    rwa [← (stateFits.lookup regular field).2 there]

/-- What is taken out and was there is in a conflict. -/
theorem inConflict_of_taken (member : taken rc spec [] schemas first)
    (there : dig (.map state) first ≠ none)
    (before : first <+: path) : InConflict rc schemas spec path := by
  obtain ⟨tfPath, attributes, visited, rfl, sees⟩ := member
  refine ⟨tfPath, attributes, visited.field, ?_,
    conflicted_of_sees regular points specFits visited.field sees⟩
  rwa [← (stateFits.lookup regular visited.field).2 there]

/-- Taking everything out gives what is wanted if every conflict goes. -/
theorem cleaned_strip (cleanable : Cleanable rc schemas spec state) :
    Cleaned rc schemas spec state (strip (taken rc spec [] schemas) state) where
  clean := by
    intro path attributes field left conflict
    have present : fieldPath rc path ≠ [] := by simp [fieldPath]
    obtain ⟨result, held⟩ := ne_none_iff_exists'.mp left
    obtain ⟨value, before, outside, _⟩ := dig_of_dig_strip stateFits.proper present held
    obtain ⟨visited, legible, targets⟩ :=
      cleanable.found path attributes field (by simp [before]) conflict
    refine outside ⟨_, present, prefix_rfl, path, attributes, visited, ?_,
      sees_of_conflicted regular field conflict targets⟩
    exact krmPathOf_legible (regular.names field) field.ne_nil legible
  removed := by
    intro path value found gone
    have present : path ≠ [] := by
      rintro rfl
      cases gone
    rw [dig_strip stateFits.proper present found] at gone
    split at gone
    · rename_i above
      obtain ⟨first, _, before, member⟩ := above
      exact .inl (inConflict_of_taken regular points specFits stateFits member
        (dig_above before found) before)
    · right
      obtain ⟨inner, rfl, some_entry, empty⟩ := stripped_eq_none gone
      refine ⟨inner, rfl, some_entry, fun rest leaf held closed => ?_⟩
      obtain ⟨first, _, before, member⟩ :=
        above_of_strip_nil (stateFits.proper.below found) some_entry empty held closed
      have whole : dig (.map state) (path ++ rest) = some leaf := by
        rw [dig_append, found]
        exact held
      have longer : path ++ first <+: path ++ rest := (prefix_append_right_inj path).mpr before
      exact inConflict_of_taken regular points specFits stateFits member
        (dig_above longer whole) longer
  kept := by
    intro path value after found held
    by_cases root : path = []
    · subst root
      exact .inr ⟨_, _, (Option.some.inj found).symm, (Option.some.inj held).symm⟩
    obtain ⟨before, same, _, kept⟩ := dig_of_dig_strip stateFits.proper root held
    rw [found] at same
    cases same
    cases value with
    | map inner => exact .inr ⟨inner, _, rfl, stripped_map kept⟩
    | _ =>
      exact .inl (Option.some.inj kept).symm
  added := by
    intro path absent
    by_cases root : path = []
    · subst root
      cases absent
    · exact absent_strip stateFits.proper root absent

end Fitting

end Cleaning

section Trigger

/-- The fields of a build trigger of which one is to be set. -/
def revision : Attributes where
  type := .string
  optional := true
  exactlyOneOf := ["trigger_template.0.branch_name", "trigger_template.0.tag_name",
    "trigger_template.0.commit_sha"]

def templateFields : SchemaMap :=
  [("branch_name", .mk revision .none), ("tag_name", .mk revision .none),
    ("commit_sha", .mk revision .none)]

def template : Attributes where
  type := .list
  optional := true
  maxItems := 1

def triggerSchema : SchemaMap := [("trigger_template", .mk template (.resource templateFields))]

def triggerConfig : ResourceConfig where
  name := "google_cloudbuild_trigger"
  kind := "CloudBuildTrigger"

def templated (fields : List (String × String)) : Fields :=
  [("triggerTemplate", .map (fields.map fun entry => (entry.1, .string entry.2)))]

theorem trigger_inside {inner : SchemaMap} (inside : Inside isNested triggerSchema path inner) :
    path = [] ∧ inner = triggerSchema ∨ path = ["trigger_template"] ∧ inner = templateFields := by
  cases inside with
  | here => exact .inl ⟨rfl, rfl⟩
  | into member _ below =>
    cases mem_singleton.mp member
    cases below with
    | here => exact .inr ⟨rfl, rfl⟩
    | into member _ _ => simp [templateFields] at member

theorem trigger_field {enters : Attributes → Bool}
    (field : FieldAt enters triggerSchema path attributes) :
    path = ["trigger_template"] ∧ attributes = template ∨
      ∃ name ∈ ["branch_name", "tag_name", "commit_sha"],
        path = ["trigger_template", name] ∧ attributes = revision := by
  cases field with
  | here member =>
    cases mem_singleton.mp member
    exact .inl ⟨rfl, rfl⟩
  | into member _ below =>
    cases mem_singleton.mp member
    cases below with
    | @here _ k _ _ member =>
      simp only [templateFields, mem_cons, Prod.mk.injEq, not_mem_nil, or_false]
        at member
      rcases member with ⟨rfl, same⟩ | ⟨rfl, same⟩ | ⟨rfl, same⟩ <;> cases same <;>
        exact .inr ⟨_, by simp, rfl, rfl⟩
    | into member _ _ => simp [templateFields] at member

theorem trigger_regular : Regular triggerConfig [] triggerSchema := by
  intro path inner inside
  rcases trigger_inside inside with ⟨rfl, rfl⟩ | ⟨rfl, rfl⟩
  · exact ⟨by decide, by decide, fun _ _ _ _ _ => rfl⟩
  · exact ⟨by decide, by decide, fun _ _ _ _ _ => rfl⟩

theorem trigger_revision {enters : Attributes → Bool} (entered : enters template = true)
    {name : String} (known : name ∈ ["branch_name", "tag_name", "commit_sha"]) :
    FieldAt enters triggerSchema ["trigger_template", name] revision := by
  have member : (name, Schema.mk revision .none) ∈ templateFields := by
    simpa [templateFields] using known
  exact .into (.head _) entered (.here member)

theorem trigger_points : KeysPoint triggerSchema := by
  intro path attributes field key member
  rcases trigger_field field with ⟨rfl, rfl⟩ | ⟨name, known, rfl, rfl⟩
  · cases member
  have keys : key ∈ ["branch_name", "tag_name", "commit_sha"].map fun name =>
      ".0.".intercalate ["trigger_template", name] := member
  obtain ⟨name, known, rfl⟩ := mem_map.mp keys
  exact ⟨_, _, trigger_revision rfl known, rfl⟩

/-- A template with different fields fits. -/
theorem templated_fits {fields : List (String × String)} (nodup : (fields.map (·.1)).Nodup)
    (known : ∀ entry ∈ fields, entry.1 ∈ ["branchName", "tagName", "commitSha"]) :
    Fits triggerConfig triggerSchema (templated fields) where
  proper := by
    refine proper_map (by simp [templated]) fun entry member => ?_
    cases mem_singleton.mp member
    refine proper_map (by simpa [Function.comp_def] using nodup) fun entry inside => ?_
    obtain ⟨text, _, rfl⟩ := mem_map.mp inside
    exact proper_scalar (by simp)
  objects := by
    intro path inner inside value found
    rcases trigger_inside inside with ⟨rfl, rfl⟩ | ⟨rfl, rfl⟩
    · cases found
      refine ⟨_, rfl, fun key value held => ?_⟩
      cases mem_singleton.mp (Dict.mem_of_lookup held)
      exact ⟨_, .head _, by decide⟩
    · cases found
      refine ⟨_, rfl, fun key value held => ?_⟩
      obtain ⟨entry, member, same⟩ := mem_map.mp (Dict.mem_of_lookup held)
      cases same
      have names : ∀ key ∈ ["branchName", "tagName", "commitSha"], ∃ entry ∈ templateFields,
          krmKey triggerConfig (joined ["trigger_template"]) entry.1 = key := by decide
      exact names entry.1 (known entry member)

end Trigger

end ConfigConnector.Krmtotf
