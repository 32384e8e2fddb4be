import ConfigConnector.Dcl.Schema
import ConfigConnector.Webhook.ImmutableFields

/- The webhook for immutable fields of resources that are managed through the DCL, and
which changes of a spec it reports. -/
namespace ConfigConnector.Webhook

open K8s Dcl

variable {place : Place} {f : String} {s : Schema}

section Comparison

variable (hierarchicalRefs : List HierarchicalReference)

/-- `pathslice.ToString`. -/
def pathText (path : List String) : String := ".".intercalate path

/-- A type assertion to a map that panics when it fails. -/
def assertObject (value : Value) : Except Failure Fields :=
  match asObject value with
  | some fields => .ok fields
  | none => .error .panic

/-- What an immutable reference adds to the result. -/
def changesOnReference (spec oldSpec : Fields)
    (krmPath dclPath : List String) (f : String) (s : Schema) : Except Failure (List String) :=
  if isMultiTypeParentReferenceField (dclPath ++ [f]) then
    .ok ((hierarchicalRefs.filter fun h =>
        !(Value.get oldSpec h.key).deepEqual (Value.get spec h.key)).map fun h =>
      pathText (krmPath ++ [h.key]))
  else do
    let refField ← getReferenceFieldName (dclPath ++ [f]) s
    if !(Value.get oldSpec refField).deepEqual (Value.get spec refField) then
      return [pathText (krmPath ++ [refField])]
    else return []

/-- Whether a field is immutable, and whether it is a reference. -/
def immutableAndReference (f : String) (s : Schema) : Except Failure (Bool × Bool) := do
  let isImmutable ← (isImmutableField s).mapError fun _ =>
    .error (.plain ("error determining if field " ++ f ++ " is immutable"))
  let isReference ← isReferenceField s
  return (isImmutable, isReference)

mutual

/-- The loop of `getChangesOnImmutableFields` over the properties of an object. -/
def changesOnProperties (spec oldSpec : Fields)
    (krmPath dclPath : List String) : Properties → Except Failure (List String)
  | [] => .ok []
  | (f, s) :: rest => do
    let changes ← changesOnField spec oldSpec krmPath dclPath f s
    let others ← changesOnProperties spec oldSpec krmPath dclPath rest
    return changes ++ others

/-- The body of the loop. -/
def changesOnField (spec oldSpec : Fields)
    (krmPath dclPath : List String) (f : String) : Schema → Except Failure (List String)
  | s@(.mk type readOnly _ properties additionalProperties items) =>
    if readOnly then .ok []
    else
      match immutableAndReference f s with
      | .error err => .error err
      | .ok (isImmutable, isReference) =>
        if isReference then
          if !isImmutable then .ok []
          else changesOnReference hierarchicalRefs spec oldSpec krmPath dclPath f s
        else if (Value.get oldSpec f).isNil && (Value.get spec f).isNil then .ok []
        else if isImmutable && ((Value.get oldSpec f).isNil || (Value.get spec f).isNil) then
          .ok [pathText (krmPath ++ [f])]
        else
          match type with
          | .object => do
            let v1 ← assertObject (Value.get oldSpec f)
            let v2 ← assertObject (Value.get spec f)
            if additionalProperties.isSome then
              return if isImmutable && !(Value.map v1).deepEqual (Value.map v2) then
                [pathText (krmPath ++ [f])] else []
            else
              -- the two specs change places here
              changesOnProperties v1 v2 (krmPath ++ [f]) (dclPath ++ [f])
                properties
          | .array =>
            match items with
            | none => .error .panic
            | some inner =>
              .ok (if inner.type.isPrimitive && isImmutable &&
                  !(Value.get oldSpec f).deepEqual (Value.get spec f) then
                [pathText (krmPath ++ [f])] else [])
          | .string | .boolean | .number | .integer =>
            .ok (if isImmutable && !(Value.get oldSpec f).deepEqual (Value.get spec f) then
              [pathText (krmPath ++ [f])] else [])
          | .other name => .error (.error (.plain ("unknown schema type " ++ name)))

end

def getChangesOnImmutableFields (spec oldSpec : Fields) (krmPath dclPath : List String)
    (schema : Schema) (hierarchicalRefs : List HierarchicalReference) :
    Except Failure (List String) :=
  if schema.type ≠ .object then
    .error (.error (.plain ("expect the schame type to be 'object', but got " ++
      schema.type.text)))
  else changesOnProperties hierarchicalRefs spec oldSpec krmPath dclPath schema.properties

end Comparison

/-- A place of the comparison: the properties of one object, with the object as both
specs have it. -/
structure Place where
  dclPath : List String
  properties : Properties
  spec : Fields
  oldSpec : Fields

/-- An object or map that is no reference. -/
def isObject (s : Schema) : Bool := s.type = .object && !isReference s

/-- An object with properties, which is looked into. -/
def isNested (s : Schema) : Bool := isObject s && s.additionalProperties.isNone

/-- A scalar, a list of primitives or a map. -/
def isWhole (s : Schema) : Bool :=
  match s.type with
  | .object => s.additionalProperties.isSome
  | .array => s.items.any fun inner => inner.type.isPrimitive
  | .string | .boolean | .number | .integer => true
  | .other _ => false

section Fits

mutual

/-- Every object and every map that is compared is a map in the spec, or not there. -/
def objectFits (obj : Fields) : Properties → Bool
  | [] => true
  | (f, s) :: rest => valueFits (Value.get obj f) s && objectFits obj rest

def valueFits (value : Value) : Schema → Bool
  | .mk type readOnly extension properties additionalProperties items =>
    if isObject (.mk type readOnly extension properties additionalProperties items) &&
        !readOnly then
      match value with
      | .null => true
      | .map nested => additionalProperties.isSome || objectFits nested properties
      | _ => false
    else true

end

/-- The empty object fits every schema. -/
theorem objectFits_nil (properties : Properties) : objectFits [] properties := by
  induction properties with
  | nil => rfl
  | cons entry rest ih =>
    obtain ⟨f, type, readOnly, extension, inner, additionalProperties, items⟩ := entry
    simp [objectFits, ih, valueFits]

end Fits

namespace Place

variable (refs : List HierarchicalReference) (place : Place) (f : String) (s : Schema)

def value : Value := Value.get place.spec f
def oldValue : Value := Value.get place.oldSpec f

/-- The object in field `f`; where a spec does not have it, it is empty. -/
def inside : Place where
  dclPath := place.dclPath ++ [f]
  properties := s.properties
  spec := (place.value f).entries
  oldSpec := (place.oldValue f).entries

/-- The same place with the two specs exchanged. -/
def swap : Place := { place with spec := place.oldSpec, oldSpec := place.spec }

def Fits : Prop :=
  objectFits place.spec place.properties = true ∧ objectFits place.oldSpec place.properties = true

def Same (key : String) : Prop :=
  (Value.get place.oldSpec key).deepEqual (Value.get place.spec key) = true

def InOneOnly : Prop := (place.value f).isNil ≠ (place.oldValue f).isNil

/-- What must hold of an immutable field: a reference is the same under its own key, or,
for a parent of several types, under all of theirs; a scalar, list of primitives or map is
the same; any other object or array is not in one spec only. -/
def Kept : Prop :=
  if isReference s then
    if isMultiTypeParentReferenceField (place.dclPath ++ [f]) then ∀ h ∈ refs, place.Same h.key
    else place.Same (referenceKey f s)
  else if isWhole s then place.Same f
  else ¬ place.InOneOnly f

end Place

/-- Places below `place`, through objects in properties that `enters` admits. -/
inductive Within (enters : Schema → Prop) : Place → Place → Prop where
  | here (place : Place) : Within enters place place
  | nested {place inner : Place} {f : String} {s : Schema} :
      (f, s) ∈ place.properties → isNested s = true → enters s →
      Within enters (place.inside f s) inner → Within enters place inner

/-- All immutable fields that `enters` leads to are kept. -/
def Unchanged (refs : List HierarchicalReference) (enters : Schema → Prop) (root : Place) : Prop :=
  ∀ place, Within enters root place → ∀ f s, (f, s) ∈ place.properties →
    s.readOnly = false → isImmutable s = true → place.Kept refs f s

section Search

variable {refs : List HierarchicalReference} {enters : Schema → Prop}

theorem unchanged_iff (place : Place) :
    Unchanged refs enters place ↔ ∀ f s, (f, s) ∈ place.properties →
      (s.readOnly = false → isImmutable s → place.Kept refs f s) ∧
      (isNested s → enters s → Unchanged refs enters (place.inside f s)) := by
  constructor
  · intro unchanged f s member
    constructor
    · exact unchanged place (.here place) f s member
    · intro nested entered inner within
      exact unchanged inner (.nested member nested entered within)
  · intro all inner within
    cases within with
    | here => exact fun f s member => (all f s member).1
    | nested member nested entered within => exact (all _ _ member).2 nested entered inner within

theorem kept_of_absent (f : String) (s : Schema)
    (empty : place.spec = [] ∧ place.oldSpec = []) : place.Kept refs f s := by
  have same : ∀ key, place.Same key := by
    intro key
    simp [Place.Same, empty]
  have both : ¬ place.InOneOnly f := by
    simp [Place.InOneOnly, Place.value, Place.oldValue, empty]
  unfold Place.Kept
  split
  · split
    · exact fun h _ => same h.key
    · exact same _
  split
  · exact same f
  · exact both

/-- An object that neither spec has is unchanged. -/
theorem unchanged_of_empty (empty : place.spec = [] ∧ place.oldSpec = []) :
    Unchanged refs enters place := by
  intro inner within
  induction within with
  | here place => exact fun f s _ _ _ => kept_of_absent f s empty
  | nested member nested entered within ih =>
    apply ih
    simp [Place.inside, Place.value, Place.oldValue, empty, Value.entries]

theorem Within.swap {inner : Place} (within : Within enters place inner) :
    Within enters place.swap inner.swap := by
  induction within with
  | here place => exact .here place.swap
  | nested member nested entered within ih => exact .nested member nested entered ih

theorem Place.Kept.swap (kept : place.Kept refs f s) : place.swap.Kept refs f s := by
  have same : ∀ key, place.swap.Same key ↔ place.Same key := by
    intro key
    simp only [Place.Same, Place.swap, Value.deepEqual_comm]
  have oneOnly : place.swap.InOneOnly f ↔ place.InOneOnly f := ne_comm
  have path : place.swap.dclPath = place.dclPath := rfl
  simpa only [Place.Kept, same, oneOnly, path] using kept

/-- It does not matter which of the specs is the old one. -/
theorem Unchanged.swap (unchanged : Unchanged refs enters place) :
    Unchanged refs enters place.swap := by
  intro inner within f s member writable immutable
  exact (unchanged inner.swap within.swap f s member writable immutable).swap

/-- The comparison ends, and has found nothing if and only if `kept`. -/
def Settles (result : Except Failure (List String)) (kept : Prop) : Prop :=
  ∃ changes, result = .ok changes ∧ (changes = [] ↔ kept)

/-- What is asked of one field and of what is inside it. -/
def FieldKept (refs : List HierarchicalReference) (place : Place) (f : String) (s : Schema) :
    Prop :=
  (s.readOnly = false → isImmutable s = true → place.Kept refs f s) ∧
    (isNested s = true → s.readOnly = false →
      Unchanged refs (fun s => s.readOnly = false) (place.inside f s))

theorem immutableAndReference_regular (regular : Regular s) (f : String) :
    immutableAndReference f s = .ok (isImmutable s, isReference s) := by
  rw [immutableAndReference, regular.immutable, regular.reference]
  rfl

theorem changesOnReference_settles (place : Place) (krmPath : List String) (f : String)
    (regular : Regular s) (refers : isReference s) :
    Settles (changesOnReference refs place.spec place.oldSpec krmPath place.dclPath f s)
      (place.Kept refs f s) := by
  unfold changesOnReference Place.Kept
  split
  next multi =>
    refine ⟨_, rfl, ?_⟩
    simp [Place.Same]
  next single =>
    rw [regular.referenceFieldName place.dclPath f refers (by simpa using single)]
    simp only [Fallible.ok_bind, Place.Same]
    split
    next differs =>
      refine ⟨_, rfl, ?_⟩
      simpa using differs
    next same =>
      refine ⟨_, rfl, ?_⟩
      simpa using same

/-- The value of an object or map is nil or a map. -/
theorem cases_of_fits {value : Value} (fits : valueFits value s)
    (object : isObject s) (writable : s.readOnly = false) :
    value = .null ∨ ∃ fields, value = .map fields ∧
      (isNested s → objectFits fields s.properties) := by
  obtain ⟨type, readOnly, extension, properties, additionalProperties, items⟩ := s
  obtain rfl : readOnly = false := writable
  simp only [valueFits, object, Bool.not_false, Bool.and_self, ↓reduceIte] at fits
  cases value with
  | null => exact .inl rfl
  | map fields =>
    refine .inr ⟨fields, rfl, fun nested => ?_⟩
    simp only [isNested, object, Schema.additionalProperties, Bool.true_and,
      Option.isNone_iff_eq_none] at nested
    simp only [nested, Option.isSome_none, Bool.false_or] at fits
    exact fits
  | _ => simp at fits

theorem assertObject_of_fits {value : Value} (fits : valueFits value s)
    (object : isObject s) (writable : s.readOnly = false) :
    assertObject value = .ok value.entries ∧
      (isNested s → objectFits value.entries s.properties) := by
  obtain rfl | ⟨fields, rfl, nestedFits⟩ := cases_of_fits fits object writable
  · exact ⟨rfl, fun _ => objectFits_nil s.properties⟩
  · exact ⟨rfl, nestedFits⟩

theorem fieldKept_of_flat (flat : isNested s = false) (writable : s.readOnly = false) :
    FieldKept refs place f s ↔ (isImmutable s → place.Kept refs f s) := by
  simp [FieldKept, flat, writable]

/-- The comparison of every place with these properties is right. -/
def Right (refs : List HierarchicalReference) (properties : Properties) : Prop :=
  ∀ place : Place, place.properties = properties → place.Fits → ∀ krmPath,
    Settles (changesOnProperties refs place.spec place.oldSpec krmPath place.dclPath properties)
      (Unchanged refs (fun s => s.readOnly = false) place)

/-- What is left to do for a field that is no reference and not to be reported for being
in one spec only. -/
theorem changesOnNested_settles (place : Place) (krmPath : List String) (f : String)
    (fits : valueFits (place.value f) s) (oldFits : valueFits (place.oldValue f) s)
    (nested : isNested s) (writable : s.readOnly = false)
    (kept : ¬ (isImmutable s ∧ place.InOneOnly f)) (inner : Right refs s.properties) :
    Settles (do
      let v1 ← assertObject (place.oldValue f)
      let v2 ← assertObject (place.value f)
      changesOnProperties refs v1 v2 krmPath (place.dclPath ++ [f]) s.properties)
      (FieldKept refs place f s) := by
  have parts : (s.type = .object ∧ isReference s = false) ∧ s.additionalProperties = none := by
    simpa [isNested, isObject] using nested
  have object : isObject s = true := by simp [isObject, parts]
  have new := assertObject_of_fits fits object writable
  have old := assertObject_of_fits oldFits object writable
  rw [new.1, old.1]
  obtain ⟨changes, found, exact⟩ := inner (place.inside f s).swap rfl
    ⟨old.2 nested, new.2 nested⟩ krmPath
  refine ⟨changes, found, exact.trans ?_⟩
  have own : isImmutable s = true → place.Kept refs f s := by
    intro immutable
    have both : ¬ place.InOneOnly f := fun one => kept ⟨immutable, one⟩
    simpa [Place.Kept, isWhole, parts] using both
  constructor
  · intro unchanged
    exact ⟨fun _ => own, fun _ _ => unchanged.swap⟩
  · intro fieldKept
    exact (fieldKept.2 nested writable).swap

theorem fieldKept_of_absent (plain : isReference s = false) (absent : place.value f = .null)
    (oldAbsent : place.oldValue f = .null) : FieldKept refs place f s := by
  constructor
  · intro _ _
    have same : place.Same f := by
      rw [Place.value] at absent
      rw [Place.oldValue] at oldAbsent
      simp [Place.Same, absent, oldAbsent]
    have both : ¬ place.InOneOnly f := by simp [Place.InOneOnly, absent, oldAbsent]
    simp [Place.Kept, plain, same, both]
  · intro _ _
    apply unchanged_of_empty
    simp [Place.inside, absent, oldAbsent, Value.entries]

theorem not_kept_of_oneOnly (plain : isReference s = false) (one : place.InOneOnly f) :
    ¬ place.Kept refs f s := by
  have differs : ¬ place.Same f := by
    intro same
    apply one
    rw [Place.value, Place.oldValue]
    rw [Place.Same] at same
    cases old : Value.get place.oldSpec f with
    | null => simpa [old, Value.isNil] using same
    | _ =>
      cases new : Value.get place.spec f with
      | null => simp [old, new, Value.isNil] at same
      | _ => rfl
  simp [Place.Kept, plain, differs, one]

variable (refs) in
/-- A flat field that is compared as a whole. -/
theorem whole_settles (place : Place) (f : String) (plain : isReference s = false)
    (flat : isNested s = false) (writable : s.readOnly = false) (whole : isWhole s)
    (path : String) :
    Settles (.ok (if isImmutable s && !(place.oldValue f).deepEqual (place.value f) then [path]
      else [])) (FieldKept refs place f s) := by
  have asked : FieldKept refs place f s ↔
      (isImmutable s = true → (place.oldValue f).deepEqual (place.value f) = true) := by
    rw [fieldKept_of_flat flat writable]
    simp [Place.Kept, plain, whole, Place.Same, Place.value, Place.oldValue]
  refine ⟨_, rfl, ?_⟩
  rw [asked]
  cases isImmutable s <;> cases (place.oldValue f).deepEqual (place.value f) <;> simp

/-- An array of objects is only looked at for being in one spec only. -/
theorem fieldKept_of_objects (plain : isReference s = false) (flat : isNested s = false)
    (writable : s.readOnly = false) (objects : isWhole s = false)
    (kept : ¬ (isImmutable s ∧ place.InOneOnly f)) : FieldKept refs place f s := by
  rw [fieldKept_of_flat flat writable]
  intro immutable
  have both : ¬ place.InOneOnly f := fun one => kept ⟨immutable, one⟩
  simpa [Place.Kept, plain, objects] using both

/-- A map: its entries are compared, which are all there is to it if both specs have it. -/
theorem map_settles (plain : isReference s = false)
    (isMap : s.type = .object ∧ s.additionalProperties.isSome)
    (writable : s.readOnly = false) (fits : valueFits (place.value f) s)
    (oldFits : valueFits (place.oldValue f) s)
    (both : isImmutable s → place.value f ≠ .null ∧ place.oldValue f ≠ .null) (path : String) :
    Settles (do
      let v1 ← assertObject (place.oldValue f)
      let v2 ← assertObject (place.value f)
      return if isImmutable s && !(Value.map v1).deepEqual (Value.map v2) then [path] else [])
      (FieldKept refs place f s) := by
  have object : isObject s = true := by simp [isObject, isMap, plain]
  have flat : isNested s = false := by
    simp only [isNested, object, Bool.true_and, Option.isNone_eq_false_iff]
    exact isMap.2
  have new := cases_of_fits fits object writable
  have old := cases_of_fits oldFits object writable
  rw [(assertObject_of_fits fits object writable).1,
    (assertObject_of_fits oldFits object writable).1]
  cases immutable : isImmutable s with
  | false => exact ⟨[], rfl, by simp [fieldKept_of_flat flat writable, immutable]⟩
  | true =>
    obtain ⟨fields, newMap, -⟩ := new.resolve_left (both immutable).1
    obtain ⟨oldFields, oldMap, -⟩ := old.resolve_left (both immutable).2
    have settled := whole_settles refs place f plain flat writable (by simp [isWhole, isMap]) path
    rw [immutable, newMap, oldMap] at settled
    rw [newMap, oldMap]
    exact settled

theorem changesOnField_settles (place : Place) (krmPath : List String) (f : String)
    (regular : Regular s) (fits : valueFits (place.value f) s)
    (oldFits : valueFits (place.oldValue f) s) (inner : Right refs s.properties) :
    Settles (changesOnField refs place.spec place.oldSpec krmPath place.dclPath f s)
      (FieldKept refs place f s) := by
  obtain ⟨type, readOnly, extension, properties, additionalProperties, items⟩ := s
  cases readOnly with
  | true => exact ⟨[], by simp [changesOnField], by simp [FieldKept, Schema.readOnly]⟩
  | false =>
    simp only [changesOnField, Bool.false_eq_true, ↓reduceIte,
      immutableAndReference_regular regular f]
    rw [← Place.value, ← Place.oldValue]
    split
    next refers =>
      have flat : isNested (.mk type false extension properties additionalProperties items) =
          false := by simp [isNested, isObject, refers]
      rw [fieldKept_of_flat flat rfl]
      split
      next mutable =>
        simp only [Bool.not_eq_true'] at mutable
        exact ⟨[], rfl, by simp [mutable]⟩
      next immutable =>
        simp only [Bool.not_eq_true', Bool.not_eq_false] at immutable
        simpa only [immutable, true_imp_iff] using
          changesOnReference_settles place krmPath f regular refers
    next plain =>
      simp only [Bool.not_eq_true] at plain
      split
      next absent =>
        simp only [Bool.and_eq_true, Value.isNil_iff] at absent
        exact ⟨[], rfl, by simp [fieldKept_of_absent plain absent.2 absent.1]⟩
      next present =>
        have one_iff : place.InOneOnly f ↔
            ((place.oldValue f).isNil || (place.value f).isNil) = true := by
          revert present
          rw [Place.InOneOnly]
          cases (place.oldValue f).isNil <;> cases (place.value f).isNil <;> simp
        split
        next one =>
          rw [Bool.and_eq_true, ← one_iff] at one
          refine ⟨[_], rfl, by simp, fun fieldKept => ?_⟩
          exact absurd (fieldKept.1 rfl one.1) (not_kept_of_oneOnly plain one.2)
        next kept =>
          rw [Bool.and_eq_true, ← one_iff] at kept
          have both : isImmutable
              (.mk type false extension properties additionalProperties items) = true →
              place.value f ≠ .null ∧ place.oldValue f ≠ .null := by
            intro immutable
            have neither := fun one => kept ⟨immutable, one_iff.mpr one⟩
            simpa [and_comm] using neither
          have whole := whole_settles refs place f
            (s := .mk type false extension properties additionalProperties items) plain
          cases type with
          | object =>
            cases additionalProperties with
            | some element => exact map_settles plain ⟨rfl, rfl⟩ rfl fits oldFits both _
            | none =>
              have nested : isNested (.mk .object false extension properties none items) =
                  true := by simp [isNested, isObject, plain, Schema.type,
                    Schema.additionalProperties]
              exact changesOnNested_settles place _ f fits oldFits nested rfl kept inner
          | array =>
            obtain ⟨element, found⟩ := regular.items rfl
            obtain rfl : items = some element := found
            cases primitive : element.type.isPrimitive with
            | true =>
              have isList : isWhole (.mk .array false extension properties
                  additionalProperties (some element)) = true := primitive
              simpa only [primitive, Bool.true_and] using whole rfl rfl isList _
            | false =>
              have isObjects : isWhole (.mk .array false extension properties
                  additionalProperties (some element)) = false := primitive
              exact ⟨[], by simp [primitive],
                by simp [fieldKept_of_objects plain rfl rfl isObjects kept]⟩
          | string | boolean | number | integer => exact whole rfl rfl rfl _
          | other name => exact absurd rfl (regular.known name)

/-- The properties of one object, one after the other. -/
theorem changesOnProperties_settles (place : Place) (krmPath : List String)
    (properties : Properties) (fits : objectFits place.spec properties)
    (oldFits : objectFits place.oldSpec properties)
    (regular : ∀ f s, (f, s) ∈ properties → Regular s)
    (inner : ∀ f s, (f, s) ∈ properties → Right refs s.properties) :
    Settles (changesOnProperties refs place.spec place.oldSpec krmPath place.dclPath properties)
      (∀ f s, (f, s) ∈ properties → FieldKept refs place f s) := by
  induction properties with
  | nil => exact ⟨[], rfl, by simp⟩
  | cons entry rest ih =>
    obtain ⟨f, s⟩ := entry
    simp only [objectFits, Bool.and_eq_true] at fits oldFits
    obtain ⟨changes, found, exact⟩ := changesOnField_settles place krmPath f
      (regular f s (.head _)) fits.1 oldFits.1 (inner f s (.head _))
    obtain ⟨others, foundOthers, exactOthers⟩ := ih fits.2 oldFits.2
      (fun f s member => regular f s (.tail _ member))
      (fun f s member => inner f s (.tail _ member))
    refine ⟨changes ++ others, ?_, ?_⟩
    · simp only [changesOnProperties, found, foundOthers, Fallible.ok_bind]
      rfl
    · rw [List.append_eq_nil_iff, exact, exactOthers]
      simp [or_imp, forall_and]

/-- By induction on the schema. -/
theorem right (valid : wellFormed s) : Right refs s.properties := by
  induction s using Schema.tree with
  | step s ofProperties _ _ =>
    have regular := regular_of_wellFormed valid
    rintro place same fits krmPath
    rw [Place.Fits, same] at fits
    obtain ⟨changes, found, exact⟩ := changesOnProperties_settles place krmPath s.properties
      fits.1 fits.2
      (fun f inner member => regular_of_wellFormed (regular.properties f inner member))
      (fun f inner member => ofProperties f inner member (regular.properties f inner member))
    refine ⟨changes, found, exact.trans ?_⟩
    rw [unchanged_iff, same]
    rfl

theorem Within.mono {other : Schema → Prop} (implies : ∀ s, enters s → other s)
    {inner : Place} (within : Within enters place inner) : Within other place inner := by
  induction within with
  | here place => exact .here place
  | nested member nested entered _ ih => exact .nested member nested (implies _ entered) ih

/-- Neither spec has a value in a read-only property: those are in the status. -/
def HoldsNoReadOnly (root : Place) : Prop :=
  ∀ place, Within (fun _ => True) root place → ∀ f s, (f, s) ∈ place.properties →
    s.readOnly = true → place.value f = .null ∧ place.oldValue f = .null

/-- Then it makes no difference whether read-only objects are looked into. -/
theorem unchanged_through_readOnly {root : Place} (noReadOnly : HoldsNoReadOnly root) :
    Unchanged refs (fun s => s.readOnly = false) root ↔ Unchanged refs (fun _ => True) root := by
  constructor
  · intro unchanged place within
    induction within with
    | here place => exact unchanged place (.here place)
    | @nested place _ f s member nested _ within ih =>
      cases readOnly : s.readOnly with
      | false =>
        apply ih
        · exact fun inner within => noReadOnly inner (.nested member nested trivial within)
        · exact ((unchanged_iff place).mp unchanged f s member).2 nested readOnly
      | true =>
        obtain ⟨absent, oldAbsent⟩ := noReadOnly place (.here place) f s member readOnly
        have empty : Unchanged refs (fun _ => True) (place.inside f s) := by
          apply unchanged_of_empty
          simp [Place.inside, absent, oldAbsent, Value.entries]
        exact empty _ within
  · intro unchanged place within
    exact unchanged place (within.mono fun _ _ => trivial)

end Search

/-- The two specs of an update, as the comparison starts. -/
def specPlace (schema : Schema) (spec oldSpec : Fields) : Place where
  dclPath := []
  properties := schema.properties
  spec := spec
  oldSpec := oldSpec

/-- The comparison of two specs that fit the schema ends without panic and without error,
and finds nothing if and only if every immutable field is kept. Specs have no values in
read-only properties, so it does not matter whether the fields below those count. -/
theorem getChangesOnImmutableFields_empty_iff (schema : Schema)
    (hierarchicalRefs : List HierarchicalReference) (spec oldSpec : Fields)
    (krmPath : List String) (valid : wellFormed schema = true) (object : schema.type = .object)
    (fits : (specPlace schema spec oldSpec).Fits) :
    ∃ changes,
      getChangesOnImmutableFields spec oldSpec krmPath [] schema hierarchicalRefs = .ok changes ∧
      (changes = [] ↔ Unchanged hierarchicalRefs (fun s => s.readOnly = false)
        (specPlace schema spec oldSpec)) ∧
      (HoldsNoReadOnly (specPlace schema spec oldSpec) →
        (changes = [] ↔ Unchanged hierarchicalRefs (fun _ => True)
          (specPlace schema spec oldSpec))) := by
  obtain ⟨changes, found, exact⟩ := right valid (specPlace schema spec oldSpec) rfl fits krmPath
  refine ⟨changes, ?_, exact, fun noReadOnly => ?_⟩
  · simp only [getChangesOnImmutableFields, object, ne_eq, not_true_eq_false, ↓reduceIte]
    exact found
  · exact exact.trans (unchanged_through_readOnly noReadOnly)

section Example

def immutableExtension : Fields := [("x-kubernetes-immutable", .bool true)]

def parentExtension : Fields :=
  [("x-kubernetes-immutable", .bool true),
    ("x-dcl-references", .list [.map [("resource", .string "Cloudresourcemanager/Folder")]])]

/-- A parent of several types, and an object with a list that cannot be changed. -/
def folderSchema : Schema :=
  .mk .object false [] [
    ("parent", .mk .string false parentExtension [] none none),
    ("config", .mk .object false [] [
      ("zones", .mk .array false immutableExtension [] none
        (some (.mk .string false [] [] none none)))] none none)] none none

def folderSpec : Fields :=
  [("folderRef", .map [("external", .string "1")]),
    ("config", .map [("zones", .list [.string "a"])])]

theorem getChangesOnImmutableFields_empty_iff_folder :
    wellFormed folderSchema = true ∧ folderSchema.type = .object ∧
      (specPlace folderSchema folderSpec []).Fits ∧
      ∃ changes, getChangesOnImmutableFields folderSpec [] ["spec"] [] folderSchema
        [⟨"folder", "folderRef"⟩] = .ok changes ∧
        (changes = [] ↔ Unchanged [⟨"folder", "folderRef"⟩] (fun s => s.readOnly = false)
          (specPlace folderSchema folderSpec [])) := by
  have valid : wellFormed folderSchema = true := by decide
  have fits : (specPlace folderSchema folderSpec []).Fits := by constructor <;> decide
  obtain ⟨changes, found, exact, -⟩ := getChangesOnImmutableFields_empty_iff folderSchema
    [⟨"folder", "folderRef"⟩] folderSpec [] ["spec"] valid rfl fits
  exact ⟨valid, rfl, fits, changes, found, exact⟩

end Example

end ConfigConnector.Webhook
