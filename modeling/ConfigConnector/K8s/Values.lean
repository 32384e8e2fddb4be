import ConfigConnector.K8s.Unstructured
import ConfigConnector.Lib.Dict

/- Reading and comparing untyped values. -/
namespace ConfigConnector.K8s

open List Option

/-- The entries of a `map[string]interface{}`. Of two entries for one key the first
counts. -/
abbrev Fields : Type := List (String × Value)

namespace Value

/-- `v == nil`. -/
def isNil : Value → Bool
  | null => true
  | _ => false

/-- `m[key]`: an entry that is not there reads as nil. -/
def get (fields : Fields) (key : String) : Value := (fields.lookup key).getD null

/-- The entries of a value that is a map, and of nil. -/
def entries : Value → Fields
  | map fields => fields
  | _ => []

/-- The items of a value that is a list, and of nil. -/
def items : Value → List Value
  | list items => items
  | _ => []

/-- What the JSON decoder calls a value. -/
def jsonKind : Value → String
  | null => "null"
  | bool _ => "bool"
  | int _ | float _ => "number"
  | string _ => "string"
  | list _ => "array"
  | map _ => "object"

@[simp] theorem get_nil (key : String) : get [] key = null := rfl

theorem get_cons (key other : String) (value : Value) (fields : Fields) :
    get ((other, value) :: fields) key = if key = other then value else get fields key := by
  rw [get, Dict.lookup_cons]
  split <;> rfl

/-- What is read under a key is nil, or an entry. -/
theorem get_cases (fields : Fields) (key : String) :
    get fields key = null ∨ (key, get fields key) ∈ fields := by
  rw [get]
  cases found : fields.lookup key with
  | none => exact .inl rfl
  | some value => exact .inr (Dict.mem_of_lookup found)

theorem lookup_of_get {fields : Fields} {key : String} {val : Value}
    (held : get fields key = val) (present : val ≠ null) : fields.lookup key = some val := by
  rw [get] at held
  cases found : fields.lookup key with
  | none =>
    rw [found] at held
    exact absurd held.symm present
  | some other =>
    rw [found] at held
    exact congrArg some held

theorem lookup_eq_none {fields : Fields} {key : String} (nil : get fields key = null)
    (noNil : fields.lookup key ≠ some null) : fields.lookup key = none := by
  rw [get] at nil
  cases found : fields.lookup key with
  | none => rfl
  | some other =>
    rw [found] at nil
    exact absurd (found.trans (congrArg some nil)) noNil

variable (value : Value)

@[simp] theorem isNil_iff : value.isNil ↔ value = null := by
  cases value <;> simp [isNil]

theorem isNil_of_ne {value : Value} (present : value ≠ null) : value.isNil = false :=
  Bool.eq_false_iff.mpr (mt (isNil_iff value).mp present)

/-- A property holds of every value if it holds of a value whenever it holds of the items
or entries the value is made of. -/
theorem tree {P : Value → Prop}
    (step : ∀ value, (∀ items, value = list items → ∀ item ∈ items, P item) →
      (∀ fields, value = map fields → ∀ key item, (key, item) ∈ fields → P item) → P value) :
    ∀ value, P value := by
  intro value
  apply step value
  · intro items same item member
    exact tree step item
  intro fields same key item member
  have smaller : sizeOf item < sizeOf fields :=
    Nat.lt_trans (by rw [Prod.mk.sizeOf_spec]; omega) (sizeOf_lt_of_mem member)
  exact tree step item
termination_by value => sizeOf value
decreasing_by
  · have smaller := sizeOf_lt_of_mem member
    subst same
    simp
    omega
  · subst same
    simp
    omega

/-- A path that goes on behind a value is followed from there. -/
theorem nestedFieldFrom_append {above first second : List String} {value inner : Value}
    (found : nestedFieldFrom above value first = .ok (some inner)) :
    nestedFieldFrom above value (first ++ second) =
      nestedFieldFrom (above ++ first) inner second := by
  induction first generalizing above value with
  | nil =>
    rw [nestedFieldFrom] at found
    cases found
    simp
  | cons field rest ih =>
    cases value with
    | map fields =>
      rw [nestedFieldFrom] at found
      cases held : fields.lookup field with
      | none =>
        rw [held] at found
        cases found
      | some next =>
        rw [held] at found
        rw [cons_append, nestedFieldFrom, held]
        have step := ih found
        simpa using step
    | null | bool _ | int _ | float _ | string _ | list _ => cases found

/-- The two zeros of `float64`, as they are printed. -/
def isZeroFloat (printed : String) : Bool := printed == "0" || printed == "-0"

mutual

/-- `reflect.DeepEqual`: the order of the entries of a map does not count. -/
def deepEqual : Value → Value → Bool
  | null, null => true
  | bool a, bool b => a == b
  | int a, int b => a == b
  | float a, float b => a == b || (isZeroFloat a && isZeroFloat b)
  | string a, string b => a == b
  | list a, list b => itemsEqual a b
  | map a, map b => entriesWithin [] a b && b.all fun entry => (a.lookup entry.1).isSome
  | _, _ => false

def itemsEqual : List Value → List Value → Bool
  | [], [] => true
  | a :: as, b :: bs => deepEqual a b && itemsEqual as bs
  | _, _ => false

/-- All entries of `a` for keys that have not been `seen` are in `b`. -/
def entriesWithin (seen : List String) : Fields → Fields → Bool
  | [], _ => true
  | (key, value) :: rest, b =>
    (seen.contains key ||
      match b.lookup key with
      | some other => deepEqual value other
      | none => false) && entriesWithin (key :: seen) rest b

end

@[simp] theorem deepEqual_null_left : deepEqual null value = value.isNil := by
  cases value <;> rfl

@[simp] theorem deepEqual_null_right : deepEqual value null = value.isNil := by
  cases value <;> rfl

theorem entriesWithin_iff (seen : List String) (a b : Fields) :
    entriesWithin seen a b ↔ ∀ key value, key ∉ seen → a.lookup key = some value →
      ∃ other, b.lookup key = some other ∧ deepEqual value other := by
  induction a generalizing seen with
  | nil => simp [entriesWithin]
  | cons entry rest ih =>
    obtain ⟨first, value⟩ := entry
    have head : (seen.contains first || match b.lookup first with
        | some other => deepEqual value other
        | none => false) = true ↔
        (first ∉ seen → ∃ other, b.lookup first = some other ∧ deepEqual value other = true) := by
      cases b.lookup first <;> simp [or_iff_not_imp_left]
    rw [entriesWithin, Bool.and_eq_true, ih, head]
    constructor
    · rintro ⟨atFirst, others⟩ key found unseen lookup
      rw [Dict.lookup_cons] at lookup
      by_cases same : key = first
      · subst same
        simp only [↓reduceIte, Option.some.injEq] at lookup
        exact lookup ▸ atFirst unseen
      · rw [if_neg same] at lookup
        exact others key found (by simp [same, unseen]) lookup
    · intro all
      refine ⟨fun unseen => all first value unseen (by simp), ?_⟩
      intro key found unseen lookup
      simp only [List.mem_cons, not_or] at unseen
      exact all key found unseen.2 (by simpa [Dict.lookup_cons, unseen.1] using lookup)

/-- Maps are equal if they have entries for the same keys, and equal values there. -/
theorem deepEqual_map (a b : Fields) :
    deepEqual (map a) (map b) ↔ ∀ key,
      (∀ value, a.lookup key = some value →
        ∃ other, b.lookup key = some other ∧ deepEqual value other) ∧
      ((b.lookup key).isSome → (a.lookup key).isSome) := by
  simp only [deepEqual, Bool.and_eq_true, entriesWithin_iff, List.all_eq_true, forall_and]
  apply and_congr
  · simp
  constructor
  · intro all key found
    obtain ⟨entry, member, same⟩ := lookup_isSome_iff.mp found
    have := all entry member
    rwa [eq_of_beq same]
  · intro all entry member
    exact all entry.1 (lookup_isSome_iff.mpr ⟨entry, member, by simp⟩)

theorem itemsEqual_comm (as bs : List Value) (each : ∀ a ∈ as, ∀ b, deepEqual a b = deepEqual b a) :
    itemsEqual as bs = itemsEqual bs as := by
  induction as generalizing bs with
  | nil => cases bs <;> rfl
  | cons a as ih =>
    cases bs with
    | nil => rfl
    | cons b bs =>
      rw [itemsEqual, itemsEqual, each a (.head _) b,
        ih bs fun item member => each item (.tail _ member)]

theorem deepEqual_map_symm {as bs : Fields}
    (each : ∀ key a b, as.lookup key = some a → bs.lookup key = some b →
      deepEqual a b → deepEqual b a)
    (equal : deepEqual (map as) (map bs)) : deepEqual (map bs) (map as) := by
  rw [deepEqual_map] at equal ⊢
  intro key
  constructor
  · intro b found
    obtain ⟨a, foundA⟩ := isSome_iff_exists.mp ((equal key).2 (by simp [found]))
    obtain ⟨other, foundOther, same⟩ := (equal key).1 a foundA
    obtain rfl : other = b := Option.some.inj (foundOther.symm.trans found)
    exact ⟨a, foundA, each key a other foundA found same⟩
  · intro found
    obtain ⟨a, foundA⟩ := isSome_iff_exists.mp found
    obtain ⟨b, foundB, -⟩ := (equal key).1 a foundA
    simp [foundB]

theorem deepEqual_comm (a b : Value) : deepEqual a b = deepEqual b a := by
  induction a using tree generalizing b with
  | step a items entries =>
    cases a with
    | list as =>
      cases b with
      | list bs => simpa only [deepEqual] using itemsEqual_comm as bs (items as rfl)
      | null | bool _ | int _ | float _ | string _ | map _ => rfl
    | map as =>
      cases b with
      | map bs =>
        have each : ∀ key a b, as.lookup key = some a → deepEqual a b = deepEqual b a :=
          fun key a b found => entries as rfl key a (Dict.mem_of_lookup found) b
        rw [Bool.eq_iff_iff]
        constructor
        · exact deepEqual_map_symm fun key a b found _ same => each key a b found ▸ same
        · exact deepEqual_map_symm fun key b a _ found same => each key a b found ▸ same
      | null | bool _ | int _ | float _ | string _ | list _ => rfl
    | float a =>
      cases b with
      | float b => simp only [deepEqual, Bool.beq_comm, Bool.and_comm]
      | null | bool _ | int _ | string _ | list _ | map _ => rfl
    | null => cases b <;> rfl
    | bool _ | int _ | string _ => cases b <;> simp [deepEqual, Bool.beq_comm]

theorem itemsEqual_iff {as bs : List Value} :
    itemsEqual as bs = true ↔ List.Forall₂ (fun a b => deepEqual a b = true) as bs := by
  induction as generalizing bs with
  | nil => cases bs <;> simp [itemsEqual]
  | cons a as ih => cases bs <;> simp [itemsEqual, ih]

@[simp] theorem deepEqual_refl (a : Value) : deepEqual a a := by
  induction a using tree with
  | step a items entries =>
    cases a with
    | list as =>
      rw [deepEqual, itemsEqual_iff]
      exact List.forall₂_same.mpr (items as rfl)
    | map as =>
      rw [deepEqual_map]
      exact fun key => ⟨fun value found =>
        ⟨value, found, entries as rfl key value (Dict.mem_of_lookup found)⟩, id⟩
    | null => rfl
    | bool _ | int _ | float _ | string _ => simp [deepEqual]

/-- Equal maps have equal values under every key. -/
theorem deepEqual_get {as bs : Fields} (equal : deepEqual (map as) (map bs)) (key : String) :
    deepEqual (get as key) (get bs key) := by
  rw [deepEqual_map] at equal
  rw [get, get]
  cases found : as.lookup key with
  | some value =>
    obtain ⟨other, foundOther, same⟩ := (equal key).1 value found
    simp [foundOther, same]
  | none =>
    have absent := mt (equal key).2 (by simp [found])
    simp [not_isSome_iff_eq_none.mp absent]

end Value

end ConfigConnector.K8s
