import ConfigConnector.Dcl.SpecFits

/- Fields and values of a spec that are converted to the DCL and back. -/
namespace ConfigConnector.Dcl

open K8s List Bool Fallible Value

variable {obj : Fields} {atRoot : Bool} {key : String} {val : Value} {properties : Properties}
  {expected : String → Value}

section Objects

variable (services : Services) (path : List String) (coll : Bool)

/-- What a property contributes to the DCL object. -/
def propertyToDCL (obj : Fields) (entry : String × Schema) : Except Failure Value :=
  fieldToDCL services obj path coll entry.1 entry.2
    (convertToDCL services (Value.get obj entry.1) (path ++ [entry.1]) coll entry.2)

/-- What a property contributes to the spec. -/
def propertyToKRM (obj : Fields) (entry : String × Schema) : Except Failure (String × Value) :=
  fieldToKRM services obj path coll entry.1 entry.2
    (convertToKRMSpec services (Value.get obj entry.1) (path ++ [entry.1]) coll entry.2)

theorem convertPropertiesToDCL_eq (obj : Fields) (properties : Properties) :
    convertPropertiesToDCL services obj path coll properties = properties.mapM fun entry => do
      return (entry.1, ← propertyToDCL services path coll obj entry) := by
  induction properties with
  | nil => rfl
  | cons entry rest ih =>
    obtain ⟨field, s⟩ := entry
    rw [convertPropertiesToDCL, mapM_cons, ih, propertyToDCL]
    dsimp only
    generalize fieldToDCL _ _ _ _ _ _ _ = first
    cases first <;> rfl

theorem convertPropertiesToKRM_eq (obj : Fields) (properties : Properties) :
    convertPropertiesToKRM services obj path coll properties =
      properties.mapM (propertyToKRM services path coll obj) := by
  induction properties with
  | nil => rfl
  | cons entry rest ih =>
    rw [convertPropertiesToKRM, mapM_cons, ih]
    rfl

/-- The property is converted, and from every DCL object that has the converted value the
spec gets back what was `expected` under the keys of the property, and nothing else. -/
def Returns (obj : Fields) (expected : String → Value) (entry : String × Schema) : Prop :=
  ∃ converted, propertyToDCL services path coll obj entry = .ok converted ∧
    ∀ dclObj, Value.get dclObj entry.1 = converted →
      ∃ key val, propertyToKRM services path coll dclObj entry = .ok (key, val) ∧
        (val ≠ .null → key ∈ specKeys services path.isEmpty coll entry.1 entry.2) ∧
        ∀ k ∈ specKeys services path.isEmpty coll entry.1 entry.2,
          Same (expected k) (if k = key then val else .null)

variable {services path coll}

/-- The DCL object has for each property what the property was converted to. -/
theorem propertiesToDCL_ok (names : (properties.map (·.1)).Nodup)
    (each : ∀ entry ∈ properties, ∃ converted,
      propertyToDCL services path coll obj entry = .ok converted) :
    ∃ entries, convertPropertiesToDCL services obj path coll properties = .ok entries ∧
      ∀ entry ∈ properties, propertyToDCL services path coll obj entry =
        .ok (Value.get (collect entries) entry.1) := by
  have converts : ∀ entry ∈ properties, ∃ result, (do
      return (entry.1, ← propertyToDCL services path coll obj entry) : Except Failure _) =
        .ok result := by
    intro entry member
    obtain ⟨converted, done⟩ := each entry member
    exact ⟨(entry.1, converted), by rw [done]; rfl⟩
  obtain ⟨entries, done⟩ := mapM_ok converts
  refine ⟨entries, by rw [convertPropertiesToDCL_eq, done], ?_⟩
  intro entry member
  obtain ⟨converted, here⟩ := each entry member
  have collected : Value.get (collect entries) entry.1 = converted := by
    apply get_collect
    · intro other given
      obtain ⟨source, inSource, same⟩ := (mem_of_mapM done _).mp given
      obtain ⟨val, found, pair⟩ := bind_eq_ok.mp same
      obtain ⟨sameName, rfl⟩ := Prod.mk.inj (Except.ok.inj pair)
      obtain rfl : source = entry := inj_on_of_nodup_map names inSource member sameName
      right
      exact Except.ok.inj (found.symm.trans here)
    · intro _
      exact (mem_of_mapM done _).mpr ⟨entry, member, by rw [here]; rfl⟩
  rw [collected, here]

/-- An object comes back if its properties do. -/
theorem object_returns (names : (properties.map (·.1)).Nodup)
    (keys : (allSpecKeys services path.isEmpty coll properties).Nodup)
    (unknown : ∀ key, key ∉ allSpecKeys services path.isEmpty coll properties →
      expected key = .null)
    (each : ∀ entry ∈ properties, Returns services path coll obj expected entry) :
    ∃ entries results, convertPropertiesToDCL services obj path coll properties = .ok entries ∧
      convertPropertiesToKRM services (collect entries) path coll properties = .ok results ∧
      ∀ key, Same (expected key) (Value.get (collect results) key) := by
  have converts : ∀ entry ∈ properties, ∃ converted,
      propertyToDCL services path coll obj entry = .ok converted :=
    fun entry member => (each entry member).imp fun _ returns => returns.1
  obtain ⟨entries, toDCL, converted⟩ := propertiesToDCL_ok names converts
  have back : ∀ entry ∈ properties, ∃ key val,
      propertyToKRM services path coll (collect entries) entry = .ok (key, val) ∧
        (val ≠ .null → key ∈ specKeys services path.isEmpty coll entry.1 entry.2) ∧
        ∀ k ∈ specKeys services path.isEmpty coll entry.1 entry.2,
          Same (expected k) (if k = key then val else .null) := by
    intro entry member
    obtain ⟨val, done, returns⟩ := each entry member
    exact returns _ (Except.ok.inj ((converted entry member).symm.trans done))
  have succeeds : ∀ entry ∈ properties, ∃ result,
      propertyToKRM services path coll (collect entries) entry = .ok result := by
    intro entry member
    obtain ⟨key, val, done, -⟩ := back entry member
    exact ⟨_, done⟩
  obtain ⟨results, toKRM⟩ := mapM_ok succeeds
  refine ⟨entries, results, toDCL, by rw [convertPropertiesToKRM_eq, toKRM], ?_⟩
  have belongs : ∀ entry ∈ properties, ∀ key val,
      propertyToKRM services path coll (collect entries) entry = .ok (key, val) → val ≠ .null →
        key ∈ specKeys services path.isEmpty coll entry.1 entry.2 := by
    intro entry member key val done present
    obtain ⟨key', val', done', belongs, -⟩ := back entry member
    cases done.symm.trans done'
    exact belongs present
  have collected := @get_collect_iff _ _ _ _ _ toKRM keys belongs
  intro key
  by_cases known : key ∈ allSpecKeys services path.isEmpty coll properties
  · obtain ⟨entry, member, ofEntry⟩ := mem_flatMap.mp known
    obtain ⟨key', val, done, -, same⟩ := back entry member
    rw [get_collect_key toKRM keys belongs member done ofEntry]
    exact same key ofEntry
  · have absent : Value.get (collect results) key = .null := by
      by_contra present
      obtain ⟨entry, member, done⟩ := (collected key present).mp rfl
      exact known (mem_flatMap.mpr ⟨entry, member, belongs entry member _ _ done present⟩)
    rw [absent, unknown key known]
    exact .equal _

end Objects

variable {services : Services} {path : List String} {coll : Bool}

section Fields

variable {field : String} {s : Schema} {expected : String → Value}

theorem isMultiTypeParentReferenceField_concat (path : List String) (field : String) :
    isMultiTypeParentReferenceField (path ++ [field]) = (path.isEmpty && field == "parent") := by
  cases path <;> simp [isMultiTypeParentReferenceField, base]

theorem isContainerField_concat (path : List String) (field : String) :
    isContainerField (path ++ [field]) = (path.isEmpty && isContainerField [field]) := by
  cases path <;> simp [isContainerField, base]

/-- A map with one string is the map that the converter writes. -/
theorem holdsOnly_spec (only : holdsOnly key val) :
    ∃ fields text, val = .map fields ∧ Value.get fields key = .string text ∧
      Same val (.map [(key, .string text)]) := by
  cases val with
  | map fields =>
    simp only [holdsOnly, and_eq_true, all_eq_true, beq_iff_eq] at only
    obtain ⟨keys, isString⟩ := only
    split at isString
    · rename_i text found
      refine ⟨fields, text, rfl, found, .maps ?_⟩
      intro other
      by_cases here : other = key
      · subst here
        rw [found, get_cons, if_pos rfl]
        exact .equal _
      have absent : Value.get fields other = .null :=
        (get_cases fields other).resolve_right fun member => here (keys _ member)
      rw [absent, get_cons, if_neg here]
      exact .equal _
    · cases isString
  | _ => cases only

section

variable (regular : Regular s) (refers : (s.extension.lookup "x-dcl-references").isSome)
include regular refers

/-- The reference extension of a regular schema can be read. -/
theorem Regular.getDCLReferenceExtension :
    ∃ first types, Dcl.getDCLReferenceExtension s = .ok (first :: types) := by
  obtain ⟨raw, found⟩ := Option.isSome_iff_exists.mp refers
  obtain ⟨first, types, rfl⟩ := regular.references raw found
  exact ⟨first, types, by rw [Dcl.getDCLReferenceExtension, found]⟩

theorem resolveReferenceValue_ok (refObj : Fields) :
    resolveReferenceValue refObj s = .ok (Value.get refObj "external") := by
  obtain ⟨first, types, found⟩ := regular.getDCLReferenceExtension refers
  rw [resolveReferenceValue, found]
  rfl

theorem convertReferenceValueToKRM_ok (val : Value) :
    convertReferenceValueToKRM val s = .ok (.map [("external", val)]) := by
  obtain ⟨first, types, found⟩ := regular.getDCLReferenceExtension refers
  rw [convertReferenceValueToKRM, found]
  rfl

end

theorem of_reference (isRef : role coll s = .reference) : s.readOnly = false ∧ isReference s := by
  have spec := role_spec coll s
  rwa [isRef] at spec

/-- A property that is not there stays away. -/
theorem returns_of_nil (toDCL : propertyToDCL services path coll obj (field, s) = .ok .null)
    (same : ∀ k ∈ specKeys services path.isEmpty coll field s, expected k = .null) :
    Returns services path coll obj expected (field, s) := by
  refine ⟨.null, toDCL, ?_⟩
  intro dclObj held
  refine ⟨field, .null, fieldToKRM_nil held _, fun present => absurd rfl present, ?_⟩
  intro k member
  rw [same k member, ite_self]
  exact .equal _

/-- A property with one key that is converted both ways returns. -/
theorem returns_of_key (keys : specKeys services path.isEmpty coll field s = [key])
    {converted : Value} (toDCL : propertyToDCL services path coll obj (field, s) = .ok converted)
    (toKRM : ∀ dclObj, Value.get dclObj field = converted →
      propertyToKRM services path coll dclObj (field, s) = .ok (key, val))
    (same : Same (expected key) val) : Returns services path coll obj expected (field, s) := by
  refine ⟨converted, toDCL, fun dclObj held => ⟨key, val, toKRM dclObj held, ?_, ?_⟩⟩
  · simp [keys]
  intro k member
  rw [keys, mem_singleton] at member
  rw [member, if_pos rfl]
  exact same

/-- The references of the field are converted, and written back. -/
def WritesBack (services : Services) (path : List String) (obj : Fields) (field : String)
    (s : Schema) : Prop :=
  ∃ converted val, convertReferenceFieldToDCL services (path ++ [field]) obj s = .ok converted ∧
    converted.isNil = false ∧
    convertReferenceFieldToKRM services (path ++ [field]) converted s =
      .ok (referenceKey field s, val) ∧
    Same (Value.get obj (referenceKey field s)) val

theorem isReference_extension (refers : isReference s) (notArray : s.type ≠ .array) :
    (s.extension.lookup "x-dcl-references").isSome := by
  rwa [isReference, if_neg notArray] at refers

section

variable (regular : Regular s)
include regular

section

variable (refers : isReference s)
include refers

theorem regularReferenceToKRM (single : isMultiTypeParentReferenceField (path ++ [field]) = false)
    (notArray : s.type ≠ .array) (val : Value) :
    convertReferenceFieldToKRM services (path ++ [field]) val s =
      .ok (referenceKey field s, .map [("external", val)]) := by
  rw [convertReferenceFieldToKRM, single, if_neg (by simp), if_neg notArray,
    convertRegularReferenceToKRM, regular.referenceFieldName path field refers single, wrapError_ok,
    ok_bind, convertReferenceValueToKRM_ok regular (isReference_extension refers notArray),
    wrapError_ok, ok_bind]
  rfl

/-- The items of a list of references are references. -/
theorem Regular.referenceItems (array : s.type = .array) :
    ∃ inner, s.items = some inner ∧ Regular inner ∧
      (inner.extension.lookup "x-dcl-references").isSome := by
  obtain ⟨inner, found⟩ := regular.items array
  exact ⟨inner, found, regular_of_wellFormed (regular.inner inner found),
    by simpa [isReference, array, found] using refers⟩

section

variable (single : isMultiTypeParentReferenceField (path ++ [field]) = false)
include single

theorem listOfReferencesToKRM (array : s.type = .array) (items : List Value) :
    convertReferenceFieldToKRM services (path ++ [field]) (.list items) s =
      .ok (field, .list (items.map fun item => .map [("external", item)])) := by
  obtain ⟨inner, found, innerRegular, extended⟩ := regular.referenceItems refers array
  rw [convertReferenceFieldToKRM, single, if_neg (by simp), if_pos array,
    convertListOfReferencesFieldToKRM, regular.referenceFieldName path field refers single,
    wrapError_ok, ok_bind, found]
  dsimp only
  rw [mapM_eq_map (convertReferenceValueToKRM_ok innerRegular extended)]
  simp [base]

theorem convertReferenceFieldToDCL_nil (nil : Value.get obj (referenceKey field s) = .null) :
    convertReferenceFieldToDCL services (path ++ [field]) obj s = .ok .null := by
  have name := regular.referenceFieldName path field refers single
  rw [convertReferenceFieldToDCL, single, if_neg (by simp)]
  split
  · rw [convertListOfReferencesFieldToDCL, name, wrapError_ok, ok_bind, nil]
    rfl
  · rw [convertRegularReferenceFieldToDCL, name, wrapError_ok, ok_bind, nil]
    rfl

/-- A reference in the external form is written back. -/
theorem regularReference_ok (notArray : s.type ≠ .array)
    (external : holdsOnly "external" (Value.get obj (referenceKey field s))) :
    WritesBack services path obj field s := by
  obtain ⟨refObj, text, held, found, same⟩ := holdsOnly_spec external
  refine ⟨.string text, .map [("external", .string text)], ?_, rfl,
    regularReferenceToKRM regular refers single notArray _, same⟩
  rw [convertReferenceFieldToDCL, single, if_neg (by simp), if_neg notArray,
    convertRegularReferenceFieldToDCL, regular.referenceFieldName path field refers single,
    wrapError_ok, ok_bind, held]
  dsimp only
  rw [resolveReferenceValue_ok regular (isReference_extension refers notArray), found]

/-- A list of references in the external form is written back. -/
theorem listOfReferences_ok (array : s.type = .array) {items : List Value}
    (held : Value.get obj (referenceKey field s) = .list items)
    (external : items.all (holdsOnly "external")) : WritesBack services path obj field s := by
  obtain ⟨inner, innerFound, innerRegular, extended⟩ := regular.referenceItems refers array
  have each : ∀ item ∈ items, ∃ converted, resolveReferenceItem inner item = .ok converted ∧
      Same item (.map [("external", converted)]) := by
    intro item member
    obtain ⟨refObj, text, rfl, found, same⟩ :=
      holdsOnly_spec (all_eq_true.mp external item member)
    refine ⟨.string text, ?_, same⟩
    rw [resolveReferenceItem, resolveReferenceValue_ok innerRegular extended, found]
  obtain ⟨converted, toDCL, same⟩ := mapM_of_forall each
  refine ⟨.list converted, .list (converted.map fun item => .map [("external", item)]), ?_, rfl,
    ?_, ?_⟩
  · rw [convertReferenceFieldToDCL, single, if_neg (by simp), if_pos array,
      convertListOfReferencesFieldToDCL, regular.referenceFieldName path field refers single,
      wrapError_ok, ok_bind, held, innerFound]
    dsimp only
    rw [toDCL]
    rfl
  · rw [referenceKey, if_pos array]
    exact listOfReferencesToKRM regular refers single array converted
  · rw [held]
    exact .lists (List.forall₂_map_right_iff.mpr same)

end

end

theorem reference_returns (isRef : role coll s = .reference)
    (notParent : (path.isEmpty && field == "parent") = false)
    (fits : referenceFits services obj path.isEmpty field s) :
    Returns services path coll obj (Value.get obj) (field, s) := by
  have refers := (of_reference isRef).2
  have single := (isMultiTypeParentReferenceField_concat path field).trans notParent
  have keys : specKeys services path.isEmpty coll field s = [referenceKey field s] := by
    rw [specKeys, isRef]
    simp only [notParent]
    rfl
  rw [referenceFits, notParent, if_neg (by simp)] at fits
  split at fits
  · rename_i nil
    apply returns_of_nil
    · rw [propertyToDCL, fieldToDCL_eq regular, isRef]
      dsimp only
      rw [convertReferenceFieldToDCL_nil regular refers single nil, wrapError_ok]
    · simp [keys, nil]
  · rw [and_eq_true, not_eq_true'] at fits
    obtain ⟨noContainer, external⟩ := fits
    rw [← isContainerField_concat] at noContainer
    obtain ⟨converted, val, toDCL, present, toKRM, same⟩ :
        WritesBack services path obj field s := by
      split at external
      · rename_i array
        split at external
        · rename_i items held
          exact listOfReferences_ok regular refers single array held external
        · cases external
      · rename_i notArray
        exact regularReference_ok regular refers single notArray external
    have there : propertyToDCL services path coll obj (field, s) = .ok converted := by
      rw [propertyToDCL, fieldToDCL_eq regular, isRef]
      dsimp only
      rw [toDCL, wrapError_ok]
    refine returns_of_key keys there (fun dclObj held => ?_) same
    rw [propertyToKRM, fieldToKRM_eq regular _ (by rw [held, present]), isRef, noContainer]
    simp [held, toKRM]

theorem skipped_returns (skipped : role coll s = .skipped) :
    Returns services path coll obj expected (field, s) := by
  apply returns_of_nil
  · rw [propertyToDCL, fieldToDCL_eq regular, skipped]
  · intro k member
    simp [specKeys, skipped] at member

theorem sensitive_returns (sensitive : role coll s = .sensitive)
    (fits : ((Value.get obj field).isNil || holdsOnly "value" (Value.get obj field))) :
    Returns services path coll obj (Value.get obj) (field, s) := by
  have keys : specKeys services path.isEmpty coll field s = [field] := by
    rw [specKeys, sensitive]
  rcases or_eq_true_iff.mp fits with nil | only
  · rw [isNil_iff] at nil
    apply returns_of_nil
    · rw [propertyToDCL, fieldToDCL_eq regular, sensitive]
      dsimp only
      rw [convertSensitiveFieldToDCL, nil]
      rfl
    · simp [keys, nil]
  · obtain ⟨secretRef, text, held, found, same⟩ := holdsOnly_spec only
    have there : propertyToDCL services path coll obj (field, s) = .ok (.string text) := by
      rw [propertyToDCL, fieldToDCL_eq regular, sensitive]
      dsimp only
      rw [convertSensitiveFieldToDCL, held]
      dsimp only
      rw [found, wrapError_ok]
    refine returns_of_key keys there (fun dclObj stored => ?_) same
    rw [propertyToKRM, fieldToKRM_eq regular _ (by rw [stored]; rfl), sensitive]
    dsimp only
    rw [stored]

end

/-- A value that is converted both ways, and comes back. -/
def RoundTrips (services : Services) (path : List String) (coll : Bool) (s : Schema)
    (val : Value) : Prop :=
  ∃ converted result, convertToDCL services val path coll s = .ok converted ∧
    convertToKRMSpec services converted path coll s = .ok result ∧ Same val result

section

variable (services : Services) (path : List String) (coll : Bool) (s : Schema)

theorem convertToKRMSpec_null : convertToKRMSpec services .null path coll s = .ok .null := by
  obtain ⟨type, _, _, _, additionalProperties, items⟩ := s
  cases type <;> cases additionalProperties <;> cases items <;> rfl

theorem convertToDCL_null : convertToDCL services .null path coll s = .ok .null := by
  obtain ⟨type, _, _, _, additionalProperties, items⟩ := s
  cases type <;> cases additionalProperties <;> cases items <;> rfl

theorem roundTrips_null : RoundTrips services path coll s .null :=
  ⟨.null, .null, convertToDCL_null services path coll s, convertToKRMSpec_null services path coll s,
    .equal _⟩

end

theorem plain_returns (regular : Regular s) (plain : role coll s = .plain)
    (inner : RoundTrips services (path ++ [field]) coll s (Value.get obj field)) :
    Returns services path coll obj (Value.get obj) (field, s) := by
  obtain ⟨converted, result, toDCL, toKRM, same⟩ := inner
  have keys : specKeys services path.isEmpty coll field s = [field] := by
    rw [specKeys, plain]
  have there : propertyToDCL services path coll obj (field, s) = .ok converted := by
    rw [propertyToDCL, fieldToDCL_eq regular, plain]
    dsimp only
    rw [toDCL, wrapError_ok]
  refine returns_of_key keys there (fun dclObj stored => ?_) same
  rw [propertyToKRM]
  dsimp only
  rw [stored, toKRM]
  cases nil : converted.isNil with
  | true =>
    rw [isNil_iff] at nil
    rw [nil, convertToKRMSpec_null] at toKRM
    cases toKRM
    exact fieldToKRM_nil (stored.trans nil) _
  | false =>
    rw [fieldToKRM_eq regular _ (by rw [stored, nil]), plain]
    rfl

/-- Every property but a parent of several types returns if its plain value does. -/
theorem field_returns (regular : Regular s)
    (notParent : role coll s = .reference → (path.isEmpty && field == "parent") = false)
    {fitsPlain : Bool} (fits : fieldFits services obj path.isEmpty coll field s fitsPlain)
    (inner : fitsPlain → RoundTrips services (path ++ [field]) coll s (Value.get obj field)) :
    Returns services path coll obj (Value.get obj) (field, s) := by
  cases treated : role coll s with
  | skipped => exact skipped_returns regular treated
  | sensitive => exact sensitive_returns regular treated (by simpa [fieldFits, treated] using fits)
  | reference =>
    exact reference_returns regular treated (notParent treated)
      (by simpa [fieldFits, treated] using fits)
  | plain => exact plain_returns regular treated (inner (by simpa [fieldFits, treated] using fits))

end Fields

section Values

theorem distinctNamesBelow_iff (services : Services) (coll : Bool) (properties : Properties) :
    distinctNamesBelow services coll properties ↔
      ∀ entry ∈ properties, distinctNames services false coll entry.2 := by
  induction properties with
  | nil => simp [distinctNamesBelow]
  | cons entry rest ih => rw [distinctNamesBelow, and_eq_true, ih, forall_mem_cons]

theorem propertiesFit_iff (services : Services) (obj : Fields) (atRoot coll : Bool)
    (properties : Properties) :
    propertiesFit services obj atRoot coll properties ↔ ∀ entry ∈ properties,
      fieldFits services obj atRoot coll entry.1 entry.2
        (valueFits services (Value.get obj entry.1) false coll entry.2) := by
  induction properties with
  | nil => simp [propertiesFit]
  | cons entry rest ih => rw [propertiesFit, and_eq_true, ih, forall_mem_cons]

/-- A `float64` that stands for an integer is converted to that integer. -/
theorem int64OfFloat_of_isInt {printed : String} {q : Rat} (found : printedNumber printed = some q)
    (isInt : q.isInt) : ((int64OfFloat printed : Int) : Rat) = q := by
  have whole : q = (q.num : Rat) := by
    rw [Rat.isInt, beq_iff_eq] at isInt
    exact (Rat.den_eq_one_iff q).mp isInt |>.symm
  rw [int64OfFloat, found]
  dsimp only
  rw [whole]
  split
  · rw [← Int.cast_neg, Int.floor_intCast, neg_neg]
  · rw [Int.floor_intCast]

variable {readOnly : Bool} {extension : Fields} {additionalProperties items : Option Schema}

theorem integer_roundTrips (fits : integerFits val) :
    RoundTrips services path coll
      (.mk .integer readOnly extension properties additionalProperties items) val := by
  cases val with
  | int n => exact ⟨.int n, .int n, rfl, rfl, .equal _⟩
  | float printed =>
    simp only [integerFits] at fits
    split at fits
    · rename_i q found
      simp only [and_eq_true] at fits
      refine ⟨.int (int64OfFloat printed), _, rfl, rfl, .numbers found ?_⟩
      rw [numberOf, int64OfFloat_of_isInt found fits.1]
    · cases fits
  | _ => cases fits

theorem number_roundTrips (fits : numberFits val) :
    RoundTrips services path coll
      (.mk .number readOnly extension properties additionalProperties items) val := by
  cases val with
  | int n =>
    have exact' := services.float64_exact n (by simpa [numberFits] using fits)
    exact ⟨.float (services.float64 n), _, rfl, rfl, .numbers rfl exact'⟩
  | float printed => exact ⟨.float printed, .float printed, rfl, rfl, .equal _⟩
  | _ => cases fits

/-- A list comes back if its items do. -/
theorem list_roundTrips {inner : Schema} {items : List Value}
    (each : ∀ item ∈ items, RoundTrips services path true inner item) :
    RoundTrips services path coll
      (.mk .array readOnly extension properties additionalProperties (some inner))
      (.list items) := by
  have converts : ∀ item ∈ items, ∃ converted,
      wrapError "error converting the item" (convertToDCL services item path true inner) =
        .ok converted ∧
      ∃ result, wrapError "error converting list item"
        (convertToKRMSpec services converted path true inner) = .ok result ∧ Same item result := by
    intro item member
    obtain ⟨converted, result, toDCL, toKRM, same⟩ := each item member
    exact ⟨converted, by rw [toDCL, wrapError_ok], result, by rw [toKRM, wrapError_ok], same⟩
  obtain ⟨converted, toDCL, back⟩ := mapM_of_forall converts
  obtain ⟨results, toKRM, same⟩ := mapM_of_forall₂ back
  have here : convertToDCL services (.list items) path coll
      (.mk .array readOnly extension properties additionalProperties (some inner)) =
        .ok (.list converted) := by
    rw [convertToDCL, toDCL]
    rfl
  cases converted with
  | nil =>
    -- an empty list becomes nil
    cases back
    refine ⟨.list [], .null, here, ?_, .blank rfl rfl⟩
    rw [convertToKRMSpec]
  | cons first rest =>
    refine ⟨_, .list results, here, ?_, .lists same⟩
    rw [convertToKRMSpec, toKRM]
    · rfl
    · simp

/-- A map comes back if its entries do. -/
theorem map_roundTrips {inner : Schema} (nodup : (obj.map (·.1)).Nodup)
    (each : ∀ entry ∈ obj, RoundTrips services (path ++ [entry.1]) true inner entry.2) :
    ∃ entries results,
      convertToDCL services (.map obj) path coll
        (.mk .object readOnly extension properties (some inner) items) = .ok (.map entries) ∧
      convertToKRMSpec services (.map entries) path coll
        (.mk .object readOnly extension properties (some inner) items) = .ok (.map results) ∧
      ∀ key, Same (Value.get obj key) (Value.get results key) := by
  have trips : ∀ key, RoundTrips services (path ++ [key]) true inner (Value.get obj key) := by
    intro key
    rcases get_cases obj key with nil | member
    · rw [nil]
      exact roundTrips_null services _ _ _
    · exact each _ member
  obtain ⟨entries, toDCL, converted⟩ := collect_mapM (f := fun key val =>
      wrapError "error converting item with AdditionalProperties schema"
        (convertToDCL services val (path ++ [key]) true inner)) nodup
    (fun key => by rw [convertToDCL_null, wrapError_ok])
    (fun key => by
      obtain ⟨val, _, toDCL, _⟩ := trips key
      exact ⟨val, by rw [toDCL, wrapError_ok]⟩)
  -- what the second loop reads is what the first one wrote
  have back : ∀ key, ∃ result,
      convertToKRMSpec services (Value.get (collect entries) key) (path ++ [key]) true inner =
        .ok result ∧ Same (Value.get obj key) result := by
    intro key
    obtain ⟨val, result, toDCL, toKRM, same⟩ := trips key
    have written := converted key
    rw [toDCL, wrapError_ok, Except.ok.injEq] at written
    exact ⟨result, by rw [← written, toKRM], same⟩
  obtain ⟨results, toKRM, returned⟩ := collect_mapM (f := fun key val =>
      convertToKRMSpec services val (path ++ [key]) true inner) (nodup_collect entries)
    (fun key => convertToKRMSpec_null services _ _ _)
    (fun key => (back key).imp fun _ found => found.1)
  refine ⟨collect entries, collect results, ?_, ?_, ?_⟩
  · rw [convertToDCL, toDCL]
    rfl
  · rw [convertToKRMSpec, toKRM]
    rfl
  · intro key
    obtain ⟨result, toKRM, same⟩ := back key
    rw [returned key, Except.ok.injEq] at toKRM
    rw [toKRM]
    exact same

/-- An object comes back with what is `expected` if its properties do. -/
theorem properties_roundTrip
    (distinct : distinctNames services path.isEmpty coll
      (.mk .object readOnly extension properties none items))
    (unknown : ∀ key, key ∉ allSpecKeys services path.isEmpty coll properties →
      expected key = .null)
    (each : ∀ entry ∈ properties, Returns services path coll obj expected entry) :
    ∃ entries results,
      convertToDCL services (.map obj) path coll
        (.mk .object readOnly extension properties none items) = .ok (.map entries) ∧
      convertToKRMSpec services (.map entries) path coll
        (.mk .object readOnly extension properties none items) = .ok (.map results) ∧
      ∀ key, Same (expected key) (Value.get results key) := by
  simp only [distinctNames, and_eq_true, decide_eq_true_eq] at distinct
  obtain ⟨entries, results, toDCL, toKRM, same⟩ :=
    object_returns distinct.1.1 distinct.1.2 unknown each
  refine ⟨collect entries, collect results, ?_, ?_, same⟩
  · rw [convertToDCL, toDCL]
    rfl
  · rw [convertToKRMSpec, toKRM]
    rfl

/-- The keys of an object that fits are known. -/
theorem get_unknown {keys : List String}
    (known : (obj.all fun entry => keys.contains entry.1) = true) (key : String)
    (unknown : key ∉ keys) : Value.get obj key = .null := by
  refine (get_cases obj key).resolve_right fun member => unknown ?_
  simpa using all_eq_true.mp known _ member

theorem map_of_fits {s : Schema} (object : s.type = .object)
    (fits : valueFits services val atRoot coll s) (present : val ≠ .null) :
    ∃ obj, val = .map obj := by
  obtain ⟨type, _, _, _, additionalProperties, _⟩ := s
  obtain rfl : type = .object := object
  cases val with
  | map obj => exact ⟨obj, rfl⟩
  | null => exact absurd rfl present
  | _ => cases additionalProperties <;> cases fits

theorem list_of_fits {s : Schema} (array : s.type = .array)
    (fits : valueFits services val atRoot coll s) (present : val ≠ .null) :
    ∃ items, val = .list items := by
  obtain ⟨type, _, _, _, _, inner⟩ := s
  obtain rfl : type = .array := array
  cases val with
  | list items => exact ⟨items, rfl⟩
  | null => exact absurd rfl present
  | _ => cases inner <;> cases fits

/-- Below the entry schema every value that fits comes back. -/
theorem roundTrips (services : Services) (s : Schema) : ∀ (path : List String) (coll : Bool)
    (val : Value), path ≠ [] → wellFormed s → distinctNames services false coll s →
    valueFits services val false coll s → RoundTrips services path coll s val := by
  induction s using Schema.tree with
  | step s ofProperties ofAdditional ofItems =>
    intro path coll val below valid distinct fits
    have regular := regular_of_wellFormed valid
    have notRoot : path.isEmpty = false := by simpa using below
    obtain ⟨type, readOnly, extension, properties, additionalProperties, items⟩ := s
    by_cases nil : val = .null
    · rw [nil]
      exact roundTrips_null services _ _ _
    cases type with
    | object =>
      cases additionalProperties with
      | some inner =>
        obtain ⟨obj, rfl⟩ := map_of_fits rfl fits nil
        simp only [valueFits, and_eq_true, decide_eq_true_eq, all_eq_true] at fits
        have each : ∀ entry ∈ obj,
            RoundTrips services (path ++ [entry.1]) true inner entry.2 :=
          fun entry member => ofAdditional inner rfl _ true _ (by simp)
            (regular.additionalProperties inner rfl) (by simpa [distinctNames] using distinct)
            (fits.2 entry member)
        obtain ⟨entries, results, toDCL, toKRM, same⟩ :=
          map_roundTrips fits.1 each
        exact ⟨_, _, toDCL, toKRM, .maps same⟩
      | none =>
        obtain ⟨obj, rfl⟩ := map_of_fits rfl fits nil
        simp only [valueFits, and_eq_true] at fits
        rw [propertiesFit_iff] at fits
        have names := (distinctNamesBelow_iff services coll properties).mp (by
          simp only [distinctNames, and_eq_true] at distinct
          exact distinct.2)
        have each : ∀ entry ∈ properties,
            Returns services path coll obj (Value.get obj) entry := by
          intro entry member
          have inner := regular.properties entry.1 entry.2 member
          have notParent : (path.isEmpty && entry.1 == "parent") = false := by simp [notRoot]
          have fieldFit := fits.2 entry member
          nth_rewrite 1 [← notRoot] at fieldFit
          apply field_returns (regular_of_wellFormed inner) (fun _ => notParent) fieldFit
          exact ofProperties entry.1 entry.2 member (path ++ [entry.1]) coll _ (by simp) inner
            (names entry member)
        obtain ⟨entries, results, toDCL, toKRM, same⟩ :=
          properties_roundTrip (notRoot ▸ distinct)
            (notRoot ▸ get_unknown fits.1) each
        exact ⟨_, _, toDCL, toKRM, .maps same⟩
    | array =>
      obtain ⟨inner, rfl⟩ := regular.items rfl
      obtain ⟨held, rfl⟩ := list_of_fits rfl fits nil
      simp only [valueFits, all_eq_true] at fits
      have each : ∀ item ∈ held, RoundTrips services path true inner item :=
        fun item member => ofItems inner rfl path true item below (regular.inner inner rfl)
          (by simpa [distinctNames] using distinct) (fits item member)
      exact list_roundTrips each
    | integer => exact integer_roundTrips (by simpa [valueFits, nil] using fits)
    | number => exact number_roundTrips (by simpa [valueFits, nil] using fits)
    | string | boolean => exact ⟨val, val, rfl, rfl, .equal _⟩
    | other name => exact absurd rfl (regular.known name)

end Values

end ConfigConnector.Dcl
