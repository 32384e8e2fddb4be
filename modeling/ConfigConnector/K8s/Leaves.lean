import ConfigConnector.K8s.Values
import ConfigConnector.Lib.Fallible

/- The leaves of untyped values, and writing at a path. -/
namespace ConfigConnector.K8s

/-- One step into a value. -/
inductive Step where
  | key (name : String)
  | index (position : Nat)
  deriving DecidableEq

abbrev Path : Type := List Step

/-- The path through maps only. -/
def keys (names : List String) : Path := names.map .key

namespace Value

/-- The value one step further; nil if the step leads nowhere. -/
def step : Value → Step → Value
  | map fields, .key name => get fields name
  | list items, .index position => items.getD position null
  | _, _ => null

def follow : Value → Path → Value
  | value, [] => value
  | value, first :: rest => follow (value.step first) rest

def isScalar : Value → Bool
  | bool _ | int _ | float _ | string _ => true
  | null | list _ | map _ => false

/-- The value has the scalar `leaf` at the path. -/
def Leaf (value : Value) (path : Path) (leaf : Value) : Prop :=
  value.follow path = leaf ∧ leaf.isScalar = true

theorem follow_append (value : Value) (first rest : Path) :
    value.follow (first ++ rest) = (value.follow first).follow rest := by
  induction first generalizing value with
  | nil => rfl
  | cons _ _ ih => exact ih _

@[simp] theorem follow_null (path : Path) : follow null path = null := by
  induction path with
  | nil => rfl
  | cons _ _ ih => exact ih

variable {path : Path} {leaf : Value}

theorem not_leaf_null : ¬ Leaf null path leaf := by
  rintro ⟨here, scalar⟩
  rw [← here, follow_null] at scalar
  cases scalar

variable {value : Value}

theorem leaf_append {first rest : Path} :
    Leaf value (first ++ rest) leaf ↔ Leaf (value.follow first) rest leaf := by
  rw [Leaf, follow_append, Leaf]

theorem leaf_map {fields : Fields} :
    Leaf (map fields) path leaf ↔
      ∃ name rest, path = .key name :: rest ∧ Leaf (get fields name) rest leaf := by
  constructor
  · intro held
    match path with
    | [] =>
      obtain ⟨rfl, scalar⟩ := held
      cases scalar
    | .key name :: rest => exact ⟨name, rest, rfl, held⟩
    | .index position :: rest => exact absurd held not_leaf_null
  · rintro ⟨name, rest, rfl, held⟩
    exact held

theorem leaf_singleton {key : String} :
    Leaf (map [(key, value)]) path leaf ↔
      ∃ rest, Leaf value rest leaf ∧ Step.key key :: rest = path := by
  rw [leaf_map]
  constructor
  · rintro ⟨name, rest, rfl, held⟩
    rw [get_cons] at held
    split at held
    · rename_i same
      exact ⟨rest, held, by rw [same]⟩
    · exact absurd held not_leaf_null
  · rintro ⟨rest, held, rfl⟩
    exact ⟨key, rest, rfl, by rwa [get_cons, if_pos rfl]⟩

theorem leaf_list {items : List Value} :
    Leaf (list items) path leaf ↔
      ∃ position rest, path = .index position :: rest ∧
        Leaf (items.getD position null) rest leaf := by
  constructor
  · intro held
    match path with
    | [] =>
      obtain ⟨rfl, scalar⟩ := held
      cases scalar
    | .index position :: rest => exact ⟨position, rest, rfl, held⟩
    | .key name :: rest => exact absurd held not_leaf_null
  · rintro ⟨position, rest, rfl, held⟩
    exact held

theorem step_scalar (scalar : value.isScalar) (first : Step) : value.step first = null := by
  cases value with
  | null | list _ | map _ => cases scalar
  | bool _ | int _ | float _ | string _ => rfl

theorem leaf_scalar (scalar : value.isScalar) :
    Leaf value path leaf ↔ path = [] ∧ leaf = value := by
  constructor
  · intro held
    cases path with
    | nil => exact ⟨rfl, held.1.symm⟩
    | cons first rest =>
      rw [Leaf, follow, step_scalar scalar] at held
      exact absurd held not_leaf_null
  · rintro ⟨rfl, rfl⟩
    exact ⟨rfl, scalar⟩

end Value

open Value List Dict

section Writing

/-- `SetNestedField` at the path `first :: rest`, below the path `above`. -/
def setNestedField (value : Value) (above : List String) :
    Fields → String → List String → Except GoError Fields
  | obj, first, [] => .ok (Dict.set first value obj)
  | obj, first, next :: rest => do
    let inner ← match obj.lookup first with
      | none => .ok []
      | some (.map inner) => .ok inner
      | some _ => .error (.plain ("value cannot be set because " ++
          jsonPath (above ++ [first]) ++ " is not a map[string]interface\x7b\x7d"))
    let written ← setNestedField value (above ++ [first]) inner next rest
    return Dict.set first (.map written) obj

/-- Nothing but maps stands in the way of a write. -/
def Free : Fields → String → List String → Prop
  | _, _, [] => True
  | obj, first, next :: rest =>
    match obj.lookup first with
    | none => True
    | some (.map inner) => Free inner next rest
    | some _ => False

/-- `delete(m, key)`. -/
def remove (key : String) (obj : Fields) : Fields := obj.filter fun entry => entry.1 != key

/-- `RemoveNestedField` at the path `first :: rest`. -/
def removeNestedField : Fields → String → List String → Fields
  | obj, first, [] => remove first obj
  | obj, first, next :: rest =>
    match obj.lookup first with
    | some (.map inner) => Dict.set first (.map (removeNestedField inner next rest)) obj
    | _ => obj

theorem get_set (key other : String) (value : Value) (obj : Fields) :
    Value.get (Dict.set other value obj) key =
      if key = other then value else Value.get obj key := by
  rw [Value.get, lookup_set]
  split <;> rfl

theorem get_remove (key other : String) (obj : Fields) :
    Value.get (remove other obj) key = if key = other then .null else Value.get obj key := by
  rw [Value.get, remove, lookup_filter fun name => name != other]
  by_cases here : key = other
  · simp [here]
  · simp [here, Value.get]

theorem free_nil (first : String) (rest : List String) : Free [] first rest := by
  cases rest <;> trivial

/-- `inner` is what a write through the key `first` goes on with. -/
def Below (obj : Fields) (first : String) (inner : Fields) : Prop :=
  obj.lookup first = none ∧ inner = [] ∨ obj.lookup first = some (.map inner)

variable {obj : Fields} {first : String} {rest : List String} {inner : Fields}

theorem Free.below {next : String}
    (free : Free obj first (next :: rest)) : ∃ inner, Below obj first inner := by
  rw [Free] at free
  cases found : obj.lookup first with
  | none => exact ⟨[], .inl ⟨found, rfl⟩⟩
  | some held =>
    rw [found] at free
    cases held with
    | map inner => exact ⟨inner, .inr found⟩
    | _ => cases free

theorem Below.free_iff (found : Below obj first inner) (next : String) (rest : List String) :
    Free obj first (next :: rest) ↔ Free inner next rest := by
  rw [Free]
  rcases found with ⟨absent, rfl⟩ | present
  · rw [absent]
    exact iff_of_true trivial (free_nil next rest)
  · rw [present]

theorem Below.setNestedField (found : Below obj first inner) (value : Value) (above : List String)
    (next : String) (rest : List String) :
    setNestedField value above obj first (next :: rest) = do
      return Dict.set first (.map (← setNestedField value (above ++ [first]) inner next rest))
        obj := by
  rw [K8s.setNestedField]
  rcases found with ⟨absent, rfl⟩ | present
  · rw [absent]
    rfl
  · rw [present]
    rfl

theorem Below.leaf_iff (found : Below obj first inner) (path : Path) (leaf : Value) :
    Leaf (.map obj) (.key first :: path) leaf ↔ Leaf (.map inner) path leaf := by
  have here : Leaf (.map obj) (.key first :: path) leaf ↔
      Leaf (Value.get obj first) path leaf := Iff.rfl
  rw [here, Value.get]
  rcases found with ⟨absent, rfl⟩ | present
  · rw [absent, Option.getD_none]
    constructor
    · exact fun held => absurd held not_leaf_null
    · intro held
      obtain ⟨name, rest, rfl, below⟩ := leaf_map.mp held
      exact absurd below not_leaf_null
  · rw [present, Option.getD_some]

/-- A write puts the value at the path and keeps what is elsewhere. -/
theorem setNestedField_ok (value : Value) (above : List String) (free : Free obj first rest) :
    ∃ written, setNestedField value above obj first rest = .ok written ∧
      ∀ path leaf, Leaf (.map written) path leaf ↔
        (∃ below, path = keys (first :: rest) ++ below ∧ Leaf value below leaf) ∨
        (¬ keys (first :: rest) <+: path ∧ Leaf (.map obj) path leaf) := by
  induction rest generalizing obj first above with
  | nil =>
    refine ⟨Dict.set first value obj, rfl, ?_⟩
    intro path leaf
    rw [leaf_map, leaf_map]
    constructor
    · rintro ⟨name, rest, rfl, held⟩
      rw [get_set] at held
      by_cases here : name = first
      · rw [if_pos here] at held
        exact .inl ⟨rest, by rw [here]; rfl, held⟩
      rw [if_neg here] at held
      refine .inr ⟨?_, name, rest, rfl, held⟩
      simp [keys, cons_prefix_cons, Ne.symm here]
    · rintro (⟨below, rfl, held⟩ | ⟨outside, name, rest, rfl, held⟩)
      · exact ⟨first, below, rfl, by rwa [get_set, if_pos rfl]⟩
      have elsewhere : name ≠ first := by
        rintro rfl
        simp [keys, cons_prefix_cons] at outside
      exact ⟨name, rest, rfl, by rwa [get_set, if_neg elsewhere]⟩
  | cons next rest ih =>
    obtain ⟨inner, found⟩ := free.below
    obtain ⟨written, done, leaves⟩ := ih (above ++ [first]) ((found.free_iff next rest).mp free)
    refine ⟨Dict.set first (.map written) obj, ?_, ?_⟩
    · rw [found.setNestedField, done]
      rfl
    intro path leaf
    constructor
    · intro held
      obtain ⟨name, path, rfl, stored⟩ := leaf_map.mp held
      rw [get_set] at stored
      by_cases here : name = first
      · rw [if_pos here] at stored
        subst here
        rcases (leaves path leaf).mp stored with ⟨below, rfl, inValue⟩ | ⟨outside, before⟩
        · exact .inl ⟨below, rfl, inValue⟩
        · refine .inr ⟨?_, (found.leaf_iff path leaf).mpr before⟩
          simpa [keys, cons_prefix_cons] using outside
      · rw [if_neg here] at stored
        refine .inr ⟨?_, stored⟩
        simp [keys, cons_prefix_cons, Ne.symm here]
    · rintro (⟨below, rfl, inValue⟩ | ⟨outside, before⟩)
      · apply leaf_map.mpr
        refine ⟨first, keys (next :: rest) ++ below, rfl, ?_⟩
        rw [get_set, if_pos rfl]
        exact (leaves _ leaf).mpr (.inl ⟨below, rfl, inValue⟩)
      · obtain ⟨name, path, rfl, held⟩ := leaf_map.mp before
        apply leaf_map.mpr
        refine ⟨name, path, rfl, ?_⟩
        rw [get_set]
        by_cases here : name = first
        · subst here
          rw [if_pos rfl]
          apply (leaves path leaf).mpr
          refine .inr ⟨?_, (found.leaf_iff path leaf).mp before⟩
          simpa [keys, cons_prefix_cons] using outside
        · rwa [if_neg here]

/-- A write does not stand in the way of another one, unless it ends above it. -/
theorem Free.after {value : Value} {above : List String} {written : Fields}
    (done : setNestedField value above obj first rest = .ok written) (free : Free obj first rest)
    {other : String} {others : List String} (otherFree : Free obj other others)
    (apart : first :: rest <+: other :: others → first :: rest = other :: others) :
    Free written other others := by
  induction rest generalizing obj written first above other others with
  | nil =>
    cases done
    cases others with
    | nil => trivial
    | cons next others =>
      have differ : other ≠ first := by
        rintro rfl
        cases apart (by simp [cons_prefix_cons])
      rw [Free, lookup_set, if_neg differ]
      exact otherFree
  | cons next rest ih =>
    obtain ⟨inner, found⟩ := free.below
    rw [found.setNestedField, Fallible.bind_eq_ok] at done
    obtain ⟨innerWritten, innerDone, same⟩ := done
    cases same
    cases others with
    | nil => trivial
    | cons otherNext others =>
      rw [Free, lookup_set]
      by_cases here : other = first
      · subst here
        rw [if_pos rfl]
        apply ih innerDone ((found.free_iff next rest).mp free)
          ((found.free_iff otherNext others).mp otherFree)
        intro above
        exact tail_eq_of_cons_eq (apart (by simpa [cons_prefix_cons] using above))
      · rw [if_neg here]
        exact otherFree

/-- One of several writes into a map. -/
structure Write where
  first : String
  rest : List String
  value : Value

namespace Write

def path (write : Write) : List String := write.first :: write.rest

def free (obj : Fields) (write : Write) : Prop := Free obj write.first write.rest

end Write

section Loop

variable {ι : Type} {write : ι → Write} {items : List ι}

/-- No write ends above another one. -/
def Apart (write : ι → Write) (items : List ι) : Prop :=
  ∀ a ∈ items, ∀ b ∈ items, (write a).path <+: (write b).path → a = b

theorem Apart.eq_of_prefix (apart : Apart write items) {a b : ι} (inA : a ∈ items)
    (inB : b ∈ items) {path : Path} (aboveA : keys (write a).path <+: path)
    (aboveB : keys (write b).path <+: path) : a = b := by
  have injective : Function.Injective Step.key := fun _ _ same => Step.key.inj same
  rcases prefix_or_prefix_of_prefix aboveA aboveB with below | below
  · exact apart a inA b inB ((prefix_map_iff_of_injective injective).mp below)
  · exact (apart b inB a inA ((prefix_map_iff_of_injective injective).mp below)).symm

/-- A loop of writes puts every value at its path and keeps what is elsewhere. -/
theorem writes_ok {ε : Type} {body : Fields → ι → Except ε Fields}
    (performs : ∀ item ∈ items, ∀ obj written,
      setNestedField (write item).value [] obj (write item).first (write item).rest = .ok written →
        body obj item = .ok written)
    (apart : Apart write items) (free : ∀ item ∈ items, (write item).free obj) :
    ∃ written, items.foldlM body obj = .ok written ∧
      ∀ path leaf, Leaf (.map written) path leaf ↔
        (∃ item ∈ items, ∃ below, path = keys (write item).path ++ below ∧
          Leaf (write item).value below leaf) ∨
        ((∀ item ∈ items, ¬ keys (write item).path <+: path) ∧ Leaf (.map obj) path leaf) := by
  induction items generalizing obj with
  | nil => exact ⟨obj, rfl, by simp⟩
  | cons item items ih =>
    obtain ⟨next, done, leaves⟩ :=
      setNestedField_ok (write item).value [] (free item (.head _))
    have stillFree : ∀ other ∈ items, (write other).free next := by
      intro other member
      apply Free.after done (free item (.head _))
        (free other (.tail _ member))
      intro above
      have same := apart item (.head _) other (.tail _ member) above
      rw [same]
    obtain ⟨written, rest_done, rest_leaves⟩ := ih
      (fun other member => performs other (.tail _ member))
      (fun a inA b inB => apart a (.tail _ inA) b (.tail _ inB))
      stillFree
    refine ⟨written, ?_, ?_⟩
    · rw [foldlM_cons, performs item (.head _) obj next done, Fallible.ok_bind, rest_done]
    intro path leaf
    rw [rest_leaves, leaves]
    constructor
    · rintro (⟨other, member, found⟩ | ⟨outside, ⟨below, here, inValue⟩ | ⟨outsideFirst, before⟩⟩)
      · exact .inl ⟨other, .tail _ member, found⟩
      · exact .inl ⟨item, .head _, below, here, inValue⟩
      · exact .inr ⟨forall_mem_cons.mpr ⟨outsideFirst, outside⟩, before⟩
    · rintro (⟨other, member, below, here, inValue⟩ | ⟨outside, before⟩)
      · rcases mem_cons.mp member with rfl | member
        · by_cases again : ∃ other ∈ items, keys (write other).path <+: path
          · obtain ⟨same, inRest, above⟩ := again
            obtain rfl := apart.eq_of_prefix (.head _)
              (.tail _ inRest) (here ▸ prefix_append _ _) above
            exact .inl ⟨_, inRest, below, here, inValue⟩
          · simp only [not_exists, not_and] at again
            exact .inr ⟨again, .inl ⟨below, here, inValue⟩⟩
        · exact .inl ⟨other, member, below, here, inValue⟩
      · obtain ⟨outsideFirst, outside⟩ := forall_mem_cons.mp outside
        exact .inr ⟨outside, .inr ⟨outsideFirst, before⟩⟩

end Loop

end Writing

section Reading

theorem nestedFieldFrom_of_follow (above : List String) {value : Value} {names : List String}
    (present : value.follow (keys names) ≠ .null) :
    value.nestedFieldFrom above names = .ok (some (value.follow (keys names))) := by
  induction names generalizing above value with
  | nil => rw [Value.nestedFieldFrom]; rfl
  | cons name names ih =>
    cases value with
    | map fields =>
      rw [Value.nestedFieldFrom]
      cases found : fields.lookup name with
      | none =>
        refine absurd ?_ present
        have nil : Value.get fields name = .null := by rw [Value.get, found]; rfl
        change (Value.get fields name).follow (keys names) = .null
        rw [nil, follow_null]
      | some inner =>
        have here : (map fields).follow (keys (name :: names)) =
            inner.follow (keys names) := by
          change (Value.get fields name).follow (keys names) = _
          rw [Value.get, found]
          rfl
        rw [here] at present ⊢
        exact ih _ present
    | _ =>
      exact absurd (follow_null (keys names)) present

theorem Below.nestedField {obj inner : Fields} {first : String} (found : Below obj first inner)
    (key : String) : Value.nestedField (.map obj) [first, key] = .ok (inner.lookup key) := by
  rw [Value.nestedField, nestedFieldFrom]
  rcases found with ⟨absent, rfl⟩ | present
  · rw [absent]
    rfl
  rw [present]
  dsimp only
  rw [nestedFieldFrom]
  cases inner.lookup key with
  | none => rfl
  | some value =>
    dsimp only
    rw [nestedFieldFrom]

end Reading

end ConfigConnector.K8s
