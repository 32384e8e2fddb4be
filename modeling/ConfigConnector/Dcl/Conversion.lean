import Mathlib
import ConfigConnector.Dcl.Schema

/- The converter between specs of Kubernetes objects and objects of the DCL. -/
namespace ConfigConnector.Dcl

open K8s List Option Fallible Dict Nat

/-- `v1alpha1.TypeConfig`: the key of a reference in a spec, and the kind it refers to. -/
structure TypeConfig where
  key : String
  kind : String
  deriving DecidableEq

/-- The exponent of a printed number: `e+21`. -/
def exponent : List Char → Option Int
  | [] => some 0
  | 'e' :: '+' :: ds => some (Nat.ofDigitChars 10 ds 0 : Nat)
  | 'e' :: '-' :: ds => some (-(Nat.ofDigitChars 10 ds 0 : Nat))
  | _ => none

/-- A printed number without its sign. -/
def printedUnsigned (text : List Char) : Option Rat :=
  match text.span Char.isDigit with
  | ([], _) => none
  | (whole, '.' :: rest) =>
    let (fraction, tail) := rest.span Char.isDigit
    (exponent tail).map fun e =>
      (Nat.ofDigitChars 10 (whole ++ fraction) 0 : Rat) * 10 ^ (e - (fraction.length : Int))
  | (whole, tail) => (exponent tail).map fun e => (Nat.ofDigitChars 10 whole 0 : Rat) * 10 ^ e

/-- The number that a printed `float64` stands for; infinities and NaN stand for none. -/
def printedNumber (printed : String) : Option Rat :=
  match printed.toList with
  | '-' :: text => (printedUnsigned text).map fun q => -q
  | text => printedUnsigned text

theorem printedUnsigned_toDigits (n : Nat) :
    printedUnsigned (Nat.toDigits 10 n) = some (n : Rat) := by
  have digital : ∀ c ∈ Nat.toDigits 10 n, c.isDigit = true := fun c member =>
    isDigit_of_mem_toDigits (by decide) (by decide) member
  have split : (Nat.toDigits 10 n).span Char.isDigit = (Nat.toDigits 10 n, []) := by
    rw [span_eq_takeWhile_dropWhile, takeWhile_eq_self_iff.mpr digital,
      dropWhile_eq_nil_iff.mpr digital]
  have value : Nat.ofDigitChars 10 (Nat.toDigits 10 n) 0 = n := ofDigitChars_ten_toDigits
  unfold printedUnsigned
  rw [split]
  cases shape : Nat.toDigits 10 n with
  | nil => exact absurd shape toDigits_ne_nil
  | cons first rest =>
    rw [shape] at value
    simp [exponent, value]

/-- An integer that is printed in decimal stands for itself. -/
theorem printedNumber_toString (n : Int) : printedNumber (toString n) = some (n : Rat) := by
  cases n with
  | ofNat n =>
    have text : (toString (Int.ofNat n)).toList = Nat.toDigits 10 n := by
      change (toString n).toList = _
      simp [toString, Nat.repr]
    unfold printedNumber
    rw [text]
    split
    · rename_i rest shape
      have sign : '-' ∈ Nat.toDigits 10 n := by simp [shape]
      have digit := isDigit_of_mem_toDigits (by decide) (by decide) sign
      exact absurd digit (by decide)
    · rw [printedUnsigned_toDigits]
      rfl
  | negSucc n =>
    have text : (toString (Int.negSucc n)).toList = '-' :: Nat.toDigits 10 (n + 1) := by
      change ("-" ++ Nat.repr (n + 1)).toList = _
      simp [Nat.repr]
    unfold printedNumber
    rw [text]
    simp [printedUnsigned_toDigits]

/-- What the converter gets from elsewhere: the types a reference may have, which the
service metadata determine; whether the resource supports hierarchical references; and
`float64(n)`, as it is printed, which is exact for integers of up to 53 bits. -/
structure Services where
  getReferenceTypeConfigs : Schema → Except Failure (List TypeConfig)
  supportsHierarchicalReferences : Bool
  float64 : Int → String
  float64_exact : ∀ n : Int, n.natAbs ≤ 2 ^ 53 → printedNumber (float64 n) = some (n : Rat)

/-- A panic goes on. -/
def Failure.wrap (text : String) : Failure → Failure
  | .panic => .panic
  | .error err => .error (.wrap text err)

def wrapError {α : Type} (text : String) : Except Failure α → Except Failure α :=
  Except.mapError (Failure.wrap text)

@[simp] theorem wrapError_ok {α : Type} (text : String) (value : α) :
    wrapError text (.ok value) = .ok value := rfl

def fail {α : Type} (text : String) : Except Failure α := .error (.error (.plain text))

variable (services : Services) (path : List String)

section Numbers

/-- `int64(f)`: the fraction is dropped. -/
def int64OfFloat (printed : String) : Int :=
  match printedNumber printed with
  | some q => if q < 0 then -⌊-q⌋ else ⌊q⌋
  | none => 0

def canonicalizeIntegerValue : Value → Except Failure Value
  | .int n => .ok (.int n)
  | .float printed => .ok (.int (int64OfFloat printed))
  | value => fail ("expect to have one of the types (int, int64, float64) for the integer value" ++
      ", but got " ++ value.typeName)

def canonicalizeNumberValue : Value → Except Failure Value
  | .float printed => .ok (.float printed)
  | .int n => .ok (.float (services.float64 n))
  | value => fail ("expect to have one of the types (float64, float32, int64, int) for number " ++
      "value, but got " ++ value.typeName)

end Numbers

section References

/-- `dcl.ParentPrefixForKind`. -/
def parentPrefixForKind : String → Except Failure String
  | "Project" => .ok "projects/"
  | "Folder" => .ok "folders/"
  | "Organization" => .ok "organizations/"
  | "BillingAccount" => .ok "billingAccounts/"
  | _ => .error .panic

/-- `strings.HasPrefix`. -/
def startsWith (s start : String) : Bool := start.toList.isPrefixOf s.toList

/-- The loop of `GetHierarchicalRefFromConfigForMultiParentResource`, with what it has
found so far. -/
def hierarchicalRefFrom (config : Fields) :
    Option (Value × TypeConfig) → List TypeConfig → Except Failure (Option (Value × TypeConfig))
  | found, [] => .ok found
  | found, tc :: rest =>
    let v := Value.get config tc.key
    if v.isNil then hierarchicalRefFrom config found rest
    else match found with
      | some (_, other) => fail ("multiple hierarchical references found in config: " ++
          other.key ++ " and " ++ tc.key)
      | none => hierarchicalRefFrom config (some (v, tc)) rest

def getHierarchicalRefFromConfigForMultiParentResource (config : Fields)
    (schema : Schema) : Except Failure (Option (Value × TypeConfig)) := do
  let tcs ← wrapError "error getting reference type configs"
    (services.getReferenceTypeConfigs schema)
  hierarchicalRefFrom config none tcs

/-- `getDCLReferenceExtension`. -/
def getDCLReferenceExtension (schema : Schema) : Except Failure (List Value) :=
  match schema.extension.lookup "x-dcl-references" with
  | none => fail "'x-dcl-references' extension is not defined"
  | some (.list refConfigs) => .ok refConfigs
  | some raw => fail ("wrong type for 'x-dcl-references' extension: " ++ raw.typeName ++
      ", expect to have []interface\x7b\x7d")

def resolveReferenceValue (obj : Fields) (schema : Schema) : Except Failure Value := do
  let refConfigs ← wrapError "error getting DCL reference extension"
    (getDCLReferenceExtension schema)
  if refConfigs.length ≥ 1 then return Value.get obj "external"
  else fail ("couldn't resolve the reference value from " ++ (Value.map obj).format)

def convertReferenceValueToKRM (val : Value) (schema : Schema) : Except Failure Value := do
  let refConfigs ← wrapError ("error getting DCL reference extension for reference value " ++
    val.format) (getDCLReferenceExtension schema)
  if refConfigs.length ≥ 1 then return .map [("external", val)]
  else fail "getting empty resource types list for reference value"

end References

section ToDCL

/-- `dcl.AddToMap`: nil is not added. -/
def addToMap (key : String) (val : Value) (obj : Fields) : Fields :=
  if val.isNil then obj else Dict.set key val obj

/-- The map that a loop with `AddToMap` leaves. -/
def collect (entries : Fields) : Fields :=
  entries.foldl (fun res entry => addToMap entry.1 entry.2 res) []

theorem get_addToMap (key other : String) (val : Value) (obj : Fields) :
    Value.get (addToMap other val obj) key =
      if key = other ∧ val.isNil = false then val else Value.get obj key := by
  rw [addToMap]
  cases nil : val.isNil
  · simp only [Bool.false_eq_true, ↓reduceIte, Value.get, lookup_set, and_true]
    split <;> rfl
  · simp

theorem collect_concat (entries : Fields) (entry : String × Value) :
    collect (entries ++ [entry]) = addToMap entry.1 entry.2 (collect entries) := by
  simp [collect]

variable {entries : Fields} {key : String} {val : Value}

/-- If a key is only ever given one value, that value is collected. -/
theorem get_collect (only : ∀ other, (key, other) ∈ entries → other = .null ∨ other = val)
    (given : val ≠ .null → (key, val) ∈ entries) : Value.get (collect entries) key = val := by
  induction entries using List.reverseRecOn with
  | nil =>
    by_cases nil : val = .null
    · simp [nil, collect]
    · simpa using given nil
  | append_singleton entries entry ih =>
    obtain ⟨other, last⟩ := entry
    rw [collect_concat, get_addToMap]
    split
    · rename_i here
      obtain ⟨rfl, present⟩ := here
      apply (only last (by simp)).resolve_left
      rintro rfl
      cases present
    · rename_i elsewhere
      apply ih
      · exact fun other member => only other (by simp [member])
      intro present
      rcases mem_append.mp (given present) with member | isLast
      · exact member
      simp only [mem_singleton, Prod.mk.injEq] at isLast
      obtain ⟨rfl, rfl⟩ := isLast
      have notNil := Bool.eq_false_iff.mpr (mt (Value.isNil_iff val).mp present)
      exact absurd ⟨rfl, notNil⟩ elsewhere

theorem mem_of_mem_collect {entry : String × Value}
    (member : entry ∈ collect entries) : entry ∈ entries := by
  induction entries using List.reverseRecOn with
  | nil => exact member
  | append_singleton entries last ih =>
    rw [collect_concat, addToMap] at member
    split at member
    · exact mem_append_left _ (ih member)
    rcases mem_of_mem_set member with same | earlier
    · simp [same]
    · exact mem_append_left _ (ih earlier)

/-- Nil is not collected. -/
theorem lookup_collect_ne_null (entries : Fields) (key : String) :
    (collect entries).lookup key ≠ some .null := by
  induction entries using List.reverseRecOn with
  | nil => simp [collect]
  | append_singleton entries last ih =>
    rw [collect_concat, addToMap]
    split
    · exact ih
    rename_i present
    rw [lookup_set]
    split
    · rw [Ne, Option.some.injEq]
      exact mt (Value.isNil_iff _).mpr present
    · exact ih

theorem nodup_collect (entries : Fields) : ((collect entries).map (·.1)).Nodup := by
  induction entries using List.reverseRecOn with
  | nil => simp [collect]
  | append_singleton entries last ih =>
    rw [collect_concat, addToMap]
    split
    · exact ih
    · exact nodup_set _ _ ih

/-- What is collected was given. -/
theorem mem_of_get_collect (held : Value.get (collect entries) key = val) (present : val ≠ .null) :
    (key, val) ∈ entries := by
  induction entries using List.reverseRecOn with
  | nil => exact absurd held.symm present
  | append_singleton entries entry ih =>
    rw [collect_concat, get_addToMap] at held
    split at held
    · rename_i here
      simp [here.1, ← held]
    · exact mem_append_left _ (ih held)

section Keys

variable {α : Type} {f : α → Except Failure (String × Value)} {items : List α} {results : Fields}
  {keysOf : α → List String}

/-- A key belongs to one item. -/
theorem eq_of_key (keys : (items.flatMap keysOf).Nodup) {a b : α} (inA : a ∈ items)
    (inB : b ∈ items) {key : String} (ofA : key ∈ keysOf a) (ofB : key ∈ keysOf b) : a = b := by
  by_contra differ
  have : Std.Symm (Function.onFun List.Disjoint keysOf) := ⟨fun _ _ apart => apart.symm⟩
  exact (nodup_flatMap.mp keys).2.forall inA inB differ ofA ofB

variable (done : items.mapM f = .ok results) (keys : (items.flatMap keysOf).Nodup)
  (belongs : ∀ item ∈ items, ∀ key val, f item = .ok (key, val) → val ≠ .null → key ∈ keysOf item)

include done keys belongs

/-- A loop in which every item has keys of its own collects what each of them gives. -/
theorem get_collect_iff (key : String) {val : Value} (present : val ≠ .null) :
    Value.get (collect results) key = val ↔ ∃ item ∈ items, f item = .ok (key, val) := by
  constructor
  · intro held
    exact (mem_of_mapM done _).mp (mem_of_get_collect held present)
  · rintro ⟨item, member, here⟩
    apply get_collect
    · intro other given
      by_cases nil : other = .null
      · exact .inl nil
      obtain ⟨source, inSource, there⟩ := (mem_of_mapM done _).mp given
      obtain rfl := eq_of_key keys member inSource (belongs item member key val here present)
        (belongs source inSource key other there nil)
      cases here.symm.trans there
      exact .inr rfl
    · exact fun _ => (mem_of_mapM done _).mpr ⟨item, member, here⟩

/-- What such a loop collects under a key of an item is what that item gives. -/
theorem get_collect_key {item : α} (member : item ∈ items) {k : String} {val : Value}
    (given : f item = .ok (k, val)) {key : String} (ofItem : key ∈ keysOf item) :
    Value.get (collect results) key = if key = k then val else .null := by
  have collected := @get_collect_iff _ _ _ _ _ done keys belongs key
  by_cases nil : (if key = k then val else .null) = .null
  · rw [nil]
    by_contra present
    obtain ⟨source, inSource, found⟩ := (collected present).mp rfl
    obtain rfl := eq_of_key keys member inSource ofItem (belongs source inSource _ _ found present)
    cases given.symm.trans found
    exact present (by simpa using nil)
  · have isKey : key = k := by
      by_contra other
      exact nil (if_neg other)
    subst isKey
    exact (collected nil).mpr ⟨item, member, by simpa using given⟩

end Keys

/-- The loop that converts the entries of a map: it is the conversion of each value, also
where there is none. -/
theorem collect_mapM {f : String → Value → Except Failure Value} {obj : Fields}
    (nodup : (obj.map (·.1)).Nodup) (null : ∀ key, f key .null = .ok .null)
    (each : ∀ key, ∃ val, f key (Value.get obj key) = .ok val) :
    ∃ entries, (obj.mapM fun entry => do return (entry.1, ← f entry.1 entry.2)) =
        .ok entries ∧
      ∀ key, f key (Value.get obj key) = .ok (Value.get (collect entries) key) := by
  have held : ∀ key val, (key, val) ∈ obj → Value.get obj key = val := by
    intro key val member
    rw [Value.get, lookup_of_mem nodup member]
    rfl
  have converts : ∀ entry ∈ obj, ∃ result,
      (do return (entry.1, ← f entry.1 entry.2) : Except Failure _) = .ok result := by
    rintro ⟨key, val⟩ member
    obtain ⟨converted, done⟩ := each key
    rw [held key val member] at done
    exact ⟨(key, converted), by rw [done]; rfl⟩
  obtain ⟨entries, done⟩ := mapM_ok converts
  have given : ∀ key val, (key, val) ∈ entries ↔
      (obj.lookup key).isSome = true ∧ f key (Value.get obj key) = .ok val := by
    intro key val
    rw [mem_of_mapM done]
    constructor
    · rintro ⟨⟨other, source⟩, member, same⟩
      obtain ⟨converted, here, pair⟩ := bind_eq_ok.mp same
      cases pair
      exact ⟨by simp [lookup_of_mem nodup member], by rw [held _ _ member, here]⟩
    · rintro ⟨found, here⟩
      obtain ⟨source, lookup⟩ := isSome_iff_exists.mp found
      have member := mem_of_lookup lookup
      rw [held _ _ member] at here
      exact ⟨(key, source), member, by rw [here]; rfl⟩
  refine ⟨entries, done, ?_⟩
  intro key
  obtain ⟨converted, here⟩ := each key
  have collected : Value.get (collect entries) key = converted := by
    apply get_collect
    · intro other member
      right
      exact Except.ok.inj (((given key other).mp member).2.symm.trans here)
    intro present
    apply (given key converted).mpr
    refine ⟨?_, here⟩
    by_contra absent
    rw [Value.get, not_isSome_iff_eq_none.mp absent, getD_none, null] at here
    exact present (Except.ok.inj here).symm
  rw [collected, here]

def expectedMap {α : Type} (what : String) (raw : Value) : Except Failure α :=
  fail ("expected the value to be map[string]interface\x7b\x7d" ++ what ++ " but was actually " ++
    raw.typeName)

def convertSensitiveFieldToDCL (field : String) (obj : Fields) : Except Failure Value :=
  match Value.get obj field with
  | .null => .ok .null
  | .map secretRef => .ok (Value.get secretRef "value")
  | raw => expectedMap (" for field " ++ field) raw

def convertMultiTypeParentReferenceFieldToDCL (obj : Fields)
    (schema : Schema) : Except Failure Value := do
  let found ← wrapError
    "error getting hierarchical reference from config for multi-parent resource"
    (getHierarchicalRefFromConfigForMultiParentResource services obj schema)
  match found with
  | none => fail "no hierarchical reference found for multi-parent resource"
  | some (.map refObj, tc) =>
    match refObj.lookup "external" with
    | none => fail ("'external' was unexpectedly not set for reference field " ++ tc.key)
    | some (.string externalVal) =>
      if externalVal = "" then return .string externalVal
      else do
        let parentPrefix ← parentPrefixForKind tc.kind
        if startsWith externalVal parentPrefix then return .string externalVal
        else return .string (parentPrefix ++ externalVal)
    | some raw => fail ("expected the value of 'external' to be string for reference field " ++
        tc.key ++ " but was actually " ++ raw.typeName)
  | some (rawVal, tc) => expectedMap (" for reference field " ++ tc.key) rawVal

/-- The body of the loop over a list of references. -/
def resolveReferenceItem (schema : Schema) (item : Value) : Except Failure Value :=
  match item with
  | .map refObj => resolveReferenceValue refObj schema
  | _ => fail ("expected the value for the reference to be " ++
      "map[string]interface\x7b\x7d, but was actually " ++ item.typeName)

def convertListOfReferencesFieldToDCL (obj : Fields) (schema : Schema) : Except Failure Value := do
  let refField ← wrapError "error getting the reference field name"
    (getReferenceFieldName path schema)
  match Value.get obj refField, schema.items with
  | .null, _ => return .null
  | .list items, some inner =>
    let res ← items.mapM (resolveReferenceItem inner)
    return .list res
  | .list [], none => return .list []
  | .list _, none => throw .panic
  | rawVal, _ => fail ("expected the value to be []interface\x7b\x7d for reference field " ++
      refField ++ " but was actually " ++ rawVal.typeName)

def convertRegularReferenceFieldToDCL (obj : Fields) (schema : Schema) : Except Failure Value := do
  let refField ← wrapError "error getting the reference field name"
    (getReferenceFieldName path schema)
  match Value.get obj refField with
  | .null => return .null
  | .map refObj => resolveReferenceValue refObj schema
  | rawVal => expectedMap (" for reference field " ++ refField) rawVal

def convertReferenceFieldToDCL (obj : Fields) (schema : Schema) : Except Failure Value :=
  if isMultiTypeParentReferenceField path then
    convertMultiTypeParentReferenceFieldToDCL services obj schema
  else if schema.type = .array then convertListOfReferencesFieldToDCL path obj schema
  else convertRegularReferenceFieldToDCL path obj schema

/-- A field that is read-only is not treated as a reference. -/
def isWritableReference (s : Schema) : Except Failure Bool :=
  if s.readOnly then .ok false else isReferenceField s

/-- What one property adds to the DCL object, where `converted` is what the recursion
gives for it. -/
def fieldToDCL (obj : Fields) (path : List String)
    (isCollectionItemSchema : Bool) (field : String) (s : Schema)
    (converted : Except Failure Value) : Except Failure Value :=
  if s.readOnly && !isCollectionItemSchema then .ok .null
  else do
    let isSensitive ← isSensitiveField s
    if !s.readOnly && isSensitive then
      wrapError ("error resolving the value for sensitive field " ++ field)
        (convertSensitiveFieldToDCL field obj)
    else if ← isWritableReference s then
      wrapError ("error resolving the value for reference field " ++ field)
        (convertReferenceFieldToDCL services (path ++ [field]) obj s)
    else wrapError ("error resolving the value for DCL field " ++ field) converted

mutual

def convertToDCL (val : Value) (path : List String)
    (isCollectionItemSchema : Bool) : Schema → Except Failure Value
  | .mk .object _ _ _ (some inner) _ =>
    match val with
    | .null => .ok .null
    | .map obj => do
      let entries ← obj.mapM fun entry => do
        let dclVal ← wrapError "error converting item with AdditionalProperties schema"
          (convertToDCL entry.2 (path ++ [entry.1]) true inner)
        return (entry.1, dclVal)
      return .map (collect entries)
    | _ => expectedMap "" val
  | .mk .object _ _ properties none _ =>
    match val with
    | .null => .ok .null
    | .map obj => do
      let entries ← convertPropertiesToDCL obj path isCollectionItemSchema properties
      return .map (collect entries)
    | _ => expectedMap "" val
  | .mk .array _ _ _ _ (some inner) =>
    match val with
    | .null => .ok .null
    | .list items => do
      let res ← items.mapM fun item =>
        wrapError "error converting the item" (convertToDCL item path true inner)
      return .list res
    | _ => fail ("expected the value to be []interface\x7b\x7d but was actually " ++ val.typeName)
  | .mk .array _ _ _ _ none =>
    match val with
    | .null => .ok .null
    | .list [] => .ok (.list [])
    | .list _ => .error .panic
    | _ => fail ("expected the value to be []interface\x7b\x7d but was actually " ++ val.typeName)
  | .mk .integer _ _ _ _ _ => if val.isNil then .ok .null else canonicalizeIntegerValue val
  | .mk .number _ _ _ _ _ => if val.isNil then .ok .null else canonicalizeNumberValue services val
  | .mk .string _ _ _ _ _ | .mk .boolean _ _ _ _ _ => .ok val
  | .mk (.other name) _ _ _ _ _ =>
    if val.isNil then .ok .null else fail ("unknown schema type " ++ name)

/-- The loop over the properties of an object. -/
def convertPropertiesToDCL (obj : Fields) (path : List String)
    (isCollectionItemSchema : Bool) : Properties → Except Failure Fields
  | [] => .ok []
  | (field, s) :: rest => do
    let converted ← fieldToDCL services obj path isCollectionItemSchema field s
      (convertToDCL (Value.get obj field) (path ++ [field]) isCollectionItemSchema s)
    let others ← convertPropertiesToDCL obj path isCollectionItemSchema rest
    return (field, converted) :: others

end

end ToDCL

section ToKRM

/-- `dcl.IsContainerField`. -/
def isContainerField : Bool :=
  path.length ≤ 1 && (base path == "organization" || base path == "project" ||
    base path == "folder")

/-- The first type whose parent prefix `v` has. -/
def recognizeParent (v : String) : List TypeConfig → Except Failure (Option TypeConfig)
  | [] => .ok none
  | tc :: rest => do
    let parentPrefix ← parentPrefixForKind tc.kind
    if startsWith v parentPrefix then return some tc else recognizeParent v rest

def convertMultiTypeParentReferenceFieldToKRM
    (val : Value) (schema : Schema) : Except Failure (String × Value) := do
  let field := base path
  let tcs ← wrapError ("error getting reference type configs for DCL field '" ++ field ++ "'")
    (services.getReferenceTypeConfigs schema)
  match val with
  | .string v =>
    if v = "" then
      fail ("value of DCL field '" ++ field ++ "' is unexpectedly an empty string")
    else
      match ← recognizeParent v tcs with
      | some tc => return (tc.key, .map [("external", .string v)])
      | none => fail ("value for DCL field " ++ field ++
          " could not be recognized as a valid parent: " ++ v)
  | _ => fail ("expected the value to be string for DCL field '" ++ field ++
      "' but was actually " ++ val.typeName)

def convertListOfReferencesFieldToKRM (val : Value) (schema : Schema) :
    Except Failure (String × Value) := do
  let refField ← wrapError "error getting the reference field name"
    (getReferenceFieldName path schema)
  match val, schema.items with
  | .list items, some inner =>
    let res ← items.mapM fun item => convertReferenceValueToKRM item inner
    return (base path, .list res)
  | .list [], none => return (base path, .list [])
  | .list _, none => throw .panic
  | _, _ => fail ("expected the value to be []interface\x7b\x7d for reference field " ++ refField ++
      " but was actually " ++ val.typeName)

def convertRegularReferenceToKRM (val : Value) (schema : Schema) :
    Except Failure (String × Value) := do
  let refField ← wrapError "error getting the reference field name"
    (getReferenceFieldName path schema)
  let convertedVal ← wrapError ("error converting reference value " ++ val.format ++
    " to KRM format for field " ++ base path) (convertReferenceValueToKRM val schema)
  return (refField, convertedVal)

def convertReferenceFieldToKRM (val : Value) (schema : Schema) : Except Failure (String × Value) :=
  if isMultiTypeParentReferenceField path then
    convertMultiTypeParentReferenceFieldToKRM services path val schema
  else if schema.type = .array then convertListOfReferencesFieldToKRM path val schema
  else convertRegularReferenceToKRM path val schema

/-- What one property adds to the spec, where `converted` is what the recursion gives
for it. -/
def fieldToKRM (obj : Fields) (path : List String)
    (isCollectionItemSchema : Bool) (field : String) (s : Schema)
    (converted : Except Failure Value) : Except Failure (String × Value) :=
  if s.readOnly && !isCollectionItemSchema then .ok (field, .null)
  else if (Value.get obj field).isNil then .ok (field, .null)
  else do
    let isSensitive ← isSensitiveField s
    if !s.readOnly && isSensitive then
      return (field, .map [("value", Value.get obj field)])
    else if !s.readOnly && isContainerField (path ++ [field]) &&
        !services.supportsHierarchicalReferences then
      let convertedVal ← wrapError ("error resolving the value for DCL field " ++ field) converted
      return (field, convertedVal)
    else if ← isWritableReference s then
      wrapError ("error converting the value for reference field " ++ field)
        (convertReferenceFieldToKRM services (path ++ [field]) (Value.get obj field) s)
    else
      let convertedVal ← wrapError ("error resolving the value for DCL field " ++ field) converted
      return (field, convertedVal)

mutual

def convertToKRMSpec (val : Value) (path : List String)
    (isCollectionItemSchema : Bool) : Schema → Except Failure Value
  | .mk .object _ _ _ (some inner) _ =>
    match val with
    | .null => .ok .null
    | .map obj => do
      let entries ← obj.mapM fun entry => do
        let convertedVal ← convertToKRMSpec entry.2 (path ++ [entry.1]) true inner
        return (entry.1, convertedVal)
      return .map (collect entries)
    | _ => expectedMap "," val
  | .mk .object _ _ properties none _ =>
    match val with
    | .null => .ok .null
    | .map obj => do
      let entries ← convertPropertiesToKRM obj path isCollectionItemSchema properties
      return .map (collect entries)
    | _ => expectedMap "," val
  | .mk .array _ _ _ _ (some inner) =>
    match val with
    | .null | .list [] => .ok .null
    | .list items => do
      let res ← items.mapM fun item =>
        wrapError "error converting list item" (convertToKRMSpec item path true inner)
      return .list res
    | _ => fail ("expected the value to be array but was actually " ++ val.typeName)
  | .mk .array _ _ _ _ none =>
    match val with
    | .null | .list [] => .ok .null
    | .list _ => .error .panic
    | _ => fail ("expected the value to be array but was actually " ++ val.typeName)
  | .mk .string _ _ _ _ _ | .mk .boolean _ _ _ _ _ | .mk .number _ _ _ _ _
  | .mk .integer _ _ _ _ _ => .ok val
  | .mk (.other name) _ _ _ _ _ =>
    if val.isNil then .ok .null else fail ("unknown schema type " ++ name)

/-- The loop over the properties of an object. -/
def convertPropertiesToKRM (obj : Fields) (path : List String)
    (isCollectionItemSchema : Bool) : Properties → Except Failure Fields
  | [] => .ok []
  | (field, s) :: rest => do
    let converted ← fieldToKRM services obj path isCollectionItemSchema field s
      (convertToKRMSpec (Value.get obj field) (path ++ [field]) isCollectionItemSchema s)
    let others ← convertPropertiesToKRM obj path isCollectionItemSchema rest
    return converted :: others

end

end ToKRM

end ConfigConnector.Dcl
