import ConfigConnector.Lib.Rose

/- Protocol buffers as their reflection API shows them. Scalars are taken up to `Value.Equal`. -/
namespace Proto

variable {σ : Type}

inductive Tag (σ : Type) where
  | unset
  | scalar (s : σ)
  | message (type : String)
  | list
  | map (keys : List σ)
  deriving DecidableEq

/-- A message has one part for each field of its type, in their order, and a map one for each of its
keys, in the order of the keys. So two values are equal in the sense of `Value.Equal` exactly when
they are the same. -/
abbrev Value (σ : Type) := Rose (Tag σ)

namespace Value

/-- A field that is not populated. -/
@[match_pattern] abbrev unset : Value σ := .node .unset []

@[match_pattern] abbrev scalar (s : σ) : Value σ := .node (.scalar s) []

@[match_pattern] abbrev message (type : String) (fields : List (Value σ)) : Value σ :=
  .node (.message type) fields

@[match_pattern] abbrev list (items : List (Value σ)) : Value σ := .node .list items

@[match_pattern] abbrev map (keys : List σ) (values : List (Value σ)) : Value σ :=
  .node (.map keys) values

end Value

/-- `google.api.field_behavior`, of which only these two are asked for. -/
inductive FieldBehavior where
  | outputOnly
  | immutable
  | other
  deriving DecidableEq

inductive Kind (σ : Type) where
  | scalar (default : σ)
  | message (type : String)

inductive Cardinality where
  | singular
  | list
  | map
  deriving DecidableEq

/-- A field descriptor; of a list or a map the kind is that of the elements. -/
structure Field (σ : Type) where
  name : String
  kind : Kind σ
  cardinality : Cardinality := .singular
  behaviors : List FieldBehavior := []
  oneof : Option String := none

/-- The fields of each message type. -/
abbrev Types (σ : Type) := String → List (Field σ)

namespace Field

variable (types : Types σ) (f : Field σ)

/-- What a field holds that is not populated. -/
def default : Value σ :=
  match f.cardinality, f.kind with
  | .list, _ => .list []
  | .map, _ => .map [] []
  | .singular, .scalar value => .scalar value
  | .singular, .message type => .message type (List.replicate (types type).length .unset)

/-- `Message.Get`. -/
def get : Value σ → Value σ
  | .unset => f.default types
  | value => value

/-- One message has the field populated with what it holds anyway, and the other does not have it
populated. -/
def PresenceOnly (x y : Value σ) : Prop :=
  x = .unset ∧ y = f.default types ∨ y = .unset ∧ x = f.default types

variable {types f} {x y : Value σ}

theorem get_of_ne (set : x ≠ .unset) : f.get types x = x := by
  unfold get
  split
  · exact absurd rfl set
  · rfl

theorem default_ne_unset : f.default types ≠ .unset := by
  unfold default
  split <;> exact nofun

/-- `Get` does not tell presence. -/
theorem get_eq_get_iff :
    f.get types x = f.get types y ↔ x = y ∨ f.PresenceOnly types x y := by
  constructor
  · intro same
    by_cases left : x = .unset
    · subst left
      by_cases right : y = .unset
      · exact .inl right.symm
      · exact .inr (.inl ⟨rfl, ((get_of_ne right).symm.trans same.symm)⟩)
    · rw [get_of_ne left] at same
      by_cases right : y = .unset
      · subst right
        exact .inr (.inr ⟨rfl, same⟩)
      · exact .inl (same.trans (get_of_ne right))
  · rintro (rfl | ⟨rfl, rfl⟩ | ⟨rfl, rfl⟩)
    · rfl
    · exact (get_of_ne default_ne_unset).symm
    · exact get_of_ne default_ne_unset

/-- `IsFieldBehavior`. -/
def is (f : Field σ) (behavior : FieldBehavior) : Bool := f.behaviors.contains behavior

end Field

/-- A message type: no two of its fields have the same name. -/
structure Descriptor (σ : Type) where
  fields : List (Field σ)
  distinct : (fields.map (·.name)).Nodup

namespace Descriptor

variable (d : Descriptor σ)

abbrev Index := Fin d.fields.length

def field (i : d.Index) : Field σ := d.fields.get i

/-- Two members of one oneof. -/
def Excludes (i j : d.Index) : Prop :=
  i ≠ j ∧ (d.field i).oneof ≠ none ∧ (d.field i).oneof = (d.field j).oneof

instance (i j : d.Index) : Decidable (d.Excludes i j) := instDecidableAnd

/-- At most one member of a oneof is populated. -/
structure Message where
  slot : d.Index → Value σ
  oneof : ∀ i j, d.Excludes i j → slot i ≠ .unset → slot j = .unset

variable {d}

theorem index_eq {i j : d.Index} (same : (d.field i).name = (d.field j).name) : i = j := by
  have bound : ∀ k : d.Index, k.val < (d.fields.map (·.name)).length := by simp
  have inj := @List.Nodup.getElem_inj_iff _ _ d.distinct i (bound i) j (bound j)
  exact Fin.ext (inj.mp (by simpa [field] using same))

namespace Message

@[ext] theorem ext {m n : d.Message} (same : ∀ i, m.slot i = n.slot i) : m = n := by
  cases m
  cases n
  simpa using funext same

variable [DecidableEq σ]

/-- `Message.Set`, which clears the other members of a oneof, and `Message.Clear`. -/
def set (m : d.Message) (i : d.Index) (v : Value σ) : d.Message where
  slot := fun j => if j = i then v else if v ≠ .unset ∧ d.Excludes i j then .unset else m.slot j
  oneof := by
    have := m.oneof
    grind [Excludes]

theorem slot_set_self (m : d.Message) (i : d.Index) (v : Value σ) : (m.set i v).slot i = v :=
  if_pos rfl

/-- A field that has the value of a message already keeps it while another is set to that of the
message. -/
theorem slot_set_of {m n : d.Message} {i j : d.Index} (same : m.slot j = n.slot j) :
    (m.set i (n.slot i)).slot j = n.slot j := by
  unfold set
  dsimp only
  split
  · rename_i here
    rw [here]
  split
  · rename_i cleared
    exact (n.oneof i j cleared.2 cleared.1).symm
  · exact same

end Message

end Descriptor

/-- The place of a field in the list of fields, with what two messages hold there. -/
def At (fields : List (Field σ)) (a b : List (Value σ)) (f : Field σ) (x y : Value σ) : Prop :=
  ∃ i, fields[i]? = some f ∧ x = a.getD i .unset ∧ y = b.getD i .unset

section At

variable {fields : List (Field σ)} {a b : List (Value σ)} {f g : Field σ} {x y : Value σ}

@[simp] theorem not_at_nil : ¬ At [] a b f x y := by
  rintro ⟨i, found, -⟩
  cases found

theorem at_cons : At (g :: fields) a b f x y ↔
    (f = g ∧ x = a.headD .unset ∧ y = b.headD .unset) ∨ At fields a.tail b.tail f x y := by
  constructor
  · rintro ⟨i, found, rfl, rfl⟩
    cases i with
    | zero =>
      left
      cases found
      cases a <;> cases b <;> exact ⟨rfl, rfl, rfl⟩
    | succ i =>
      right
      cases a <;> cases b <;> exact ⟨i, found, rfl, rfl⟩
  · rintro (⟨rfl, rfl, rfl⟩ | ⟨i, found, rfl, rfl⟩)
    · refine ⟨0, rfl, ?_, ?_⟩
      · cases a <;> rfl
      · cases b <;> rfl
    refine ⟨i + 1, found, ?_, ?_⟩
    · cases a <;> rfl
    · cases b <;> rfl

variable {P : Field σ → Value σ → Value σ → Prop}

theorem forall_at_cons : (∀ f x y, At (g :: fields) a b f x y → P f x y) ↔
    P g (a.headD .unset) (b.headD .unset) ∧ ∀ f x y, At fields a.tail b.tail f x y → P f x y := by
  constructor
  · intro each
    exact ⟨each g _ _ (at_cons.mpr (.inl ⟨rfl, rfl, rfl⟩)),
      fun f x y place => each f x y (at_cons.mpr (.inr place))⟩
  · rintro ⟨here, later⟩ f x y place
    rcases at_cons.mp place with ⟨rfl, rfl, rfl⟩ | place
    · exact here
    · exact later f x y place

theorem exists_at_cons : (∃ f x y, At (g :: fields) a b f x y ∧ P f x y) ↔
    P g (a.headD .unset) (b.headD .unset) ∨ ∃ f x y, At fields a.tail b.tail f x y ∧ P f x y := by
  simp [at_cons, or_and_right, exists_or]

theorem forall_at_singleton {u v : Value σ} :
    (∀ f x y, At [g] [u] [v] f x y → P f x y) ↔ P g u v := by
  simp [forall_at_cons]

end At

end Proto
