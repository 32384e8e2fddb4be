import ConfigConnector.K8s.Leaves

/- Taking fields out of an object together with the objects around them that become empty:
what is left when a whole set of paths is taken out, in whatever order. -/
namespace ConfigConnector.K8s

open Value List Option Dict

variable {value : Value} {key : String} {path : List String} {fields : Fields}

section Dig

/-- The value at a path of keys, if there is one. -/
def dig : Value → List String → Option Value
  | value, [] => some value
  | .map fields, key :: rest => (fields.lookup key).bind fun value => dig value rest
  | _, _ :: _ => none

/-- Only maps and nil stand on the way along the path. -/
def Passable : Value → List String → Prop
  | _, [] => True
  | .null, _ :: _ => True
  | .map fields, key :: rest => ∀ value, fields.lookup key = some value → Passable value rest
  | _, _ :: _ => False

@[simp] theorem dig_nil (value : Value) : dig value [] = some value := by
  cases value <;> rfl

@[simp] theorem dig_map (fields : Fields) (key : String) (rest : List String) :
    dig (.map fields) (key :: rest) = (fields.lookup key).bind fun value => dig value rest := rfl

variable {inner : Value}

theorem dig_cons_some {rest : List String} (found : dig value (key :: rest) = some inner) :
    ∃ fields next, value = .map fields ∧ fields.lookup key = some next ∧
      dig next rest = some inner := by
  cases value with
  | map fields =>
    obtain ⟨next, here, below⟩ := bind_eq_some_iff.mp found
    exact ⟨fields, next, rfl, here, below⟩
  | _ => cases found

theorem dig_append (value : Value) (first second : List String) :
    dig value (first ++ second) = (dig value first).bind fun inner => dig inner second := by
  induction first generalizing value with
  | nil => simp
  | cons key rest ih =>
    cases value with
    | map fields =>
      cases found : fields.lookup key with
      | none => simp [found]
      | some next => simp [found, ih]
    | _ => rfl

theorem nestedFieldFrom_passable (above : List String) (passable : Passable value path) :
    value.nestedFieldFrom above path = .ok (dig value path) := by
  induction path generalizing above value with
  | nil => rw [nestedFieldFrom, dig_nil]
  | cons key rest ih =>
    cases value with
    | null => rfl
    | map fields =>
      rw [nestedFieldFrom, dig_map]
      cases found : fields.lookup key with
      | none => rfl
      | some next => exact ih _ (passable next found)
    | _ => cases passable

theorem passable_of_dig (found : dig value path = some inner) : Passable value path := by
  induction path generalizing value with
  | nil => cases value <;> trivial
  | cons key rest ih =>
    obtain ⟨fields, next, rfl, here, below⟩ := dig_cons_some found
    intro value same
    rw [here] at same
    cases same
    exact ih below

/-- No map inside has two entries for one key. -/
def Proper (value : Value) : Prop :=
  ∀ path fields, dig value path = some (.map fields) → (fields.map (·.1)).Nodup

theorem Proper.nodup (proper : Proper (.map fields)) :
    (fields.map (·.1)).Nodup := proper [] fields (dig_nil _)

theorem Proper.below (proper : Proper value) (found : dig value path = some inner) :
    Proper inner := by
  intro rest fields held
  apply proper (path ++ rest) fields
  rw [dig_append, found]
  exact held

theorem Proper.lookup (proper : Proper (.map fields)) (found : fields.lookup key = some value) :
    Proper value := by
  intro path inner below
  apply proper (key :: path) inner
  rw [dig_map, found]
  exact below

theorem proper_scalar (other : ∀ fields, value ≠ .map fields) : Proper value := by
  intro path fields found
  cases path with
  | nil =>
    rw [dig_nil] at found
    exact absurd (Option.some.inj found) (other fields)
  | cons key rest =>
    obtain ⟨inner, _, same, _⟩ := dig_cons_some found
    exact absurd same (other inner)

theorem proper_map (nodup : (fields.map (·.1)).Nodup)
    (inside : ∀ entry ∈ fields, Proper entry.2) : Proper (.map fields) := by
  intro path inner found
  cases path with
  | nil =>
    rw [dig_nil] at found
    cases found
    exact nodup
  | cons key rest =>
    obtain ⟨next, held, below⟩ := bind_eq_some_iff.mp found
    exact inside (key, next) (mem_of_lookup held) rest inner below

theorem Proper.mem (proper : Proper (.map fields)) (member : (key, value) ∈ fields) :
    Proper value :=
  proper.lookup (lookup_of_mem proper.nodup member)

end Dig

section Strip

/-- The paths that are taken out. -/
abbrev Cut : Type := List String → Prop

/-- One path is taken out. -/
def Cut.only (path : List String) : Cut := fun other => other = path

/-- What is taken out of the value at a key. -/
def Cut.under (cut : Cut) (key : String) : Cut := fun path => cut (key :: path)

open Classical in
mutual

/-- The entries that are left. -/
noncomputable def strip (cut : Cut) : Fields → Fields
  | [] => []
  | (key, value) :: rest =>
    (if cut [key] then [] else ((stripped (cut.under key) value).map (key, ·)).toList) ++
      strip cut rest

/-- What is left of a value; a map that has become empty goes. -/
noncomputable def stripped (cut : Cut) : Value → Option Value
  | .map fields =>
    if fields ≠ [] ∧ strip cut fields = [] then none else some (.map (strip cut fields))
  | value => some value

end

variable {cut other : Cut}

open Classical in
/-- What is left at a key of a value that stands there. -/
noncomputable def left (cut : Cut) (key : String) (value : Value) : Option Value :=
  if cut [key] then none else stripped (cut.under key) value

theorem strip_cons (cut : Cut) (key : String) (value : Value) (rest : Fields) :
    strip cut ((key, value) :: rest) =
      ((left cut key value).map (key, ·)).toList ++ strip cut rest := by
  rw [strip, left]
  split <;> rfl

theorem strip_eq_filterMap (cut : Cut) (fields : Fields) :
    strip cut fields = fields.filterMap fun entry =>
      (left cut entry.1 entry.2).map (entry.1, ·) := by
  induction fields with
  | nil => rw [strip, filterMap_nil]
  | cons entry rest ih =>
    rw [strip_cons, ih, filterMap_cons]
    cases left cut entry.1 entry.2 <;> rfl

theorem keys_strip (cut : Cut) (fields : Fields) :
    ((strip cut fields).map (·.1)).Sublist (fields.map (·.1)) := by
  induction fields with
  | nil => rw [strip]
  | cons entry rest ih =>
    rw [strip_cons]
    cases left cut entry.1 entry.2 with
    | none => exact .cons _ ih
    | some value => exact .cons_cons _ ih

theorem lookup_strip (cut : Cut) (nodup : (fields.map (·.1)).Nodup) (key : String) :
    (strip cut fields).lookup key = (fields.lookup key).bind (left cut key) := by
  induction fields with
  | nil => rw [strip]; rfl
  | cons entry rest ih =>
    obtain ⟨first, value⟩ := entry
    rw [map_cons, nodup_cons] at nodup
    have below := ih nodup.2
    rw [strip_cons, lookup_cons]
    by_cases here : key = first
    · subst here
      rw [lookup_eq_none_of_notMem nodup.1] at below
      cases kept : left cut key value with
      | none => simpa [kept] using below
      | some result => simp [kept]
    · rw [if_neg here, ← below]
      cases left cut first value with
      | none => rfl
      | some result => simp [lookup_cons, here]

/-- A prefix of the path is taken out. -/
def Cut.above (cut : Cut) (path : List String) : Prop :=
  ∃ first ≠ [], first <+: path ∧ cut first

theorem above_cons {rest : List String} :
    cut.above (key :: rest) ↔ cut [key] ∨ (cut.under key).above rest := by
  constructor
  · rintro ⟨first, present, before, member⟩
    cases first with
    | nil => exact absurd rfl present
    | cons name first =>
      obtain ⟨rfl, inside⟩ := cons_prefix_cons.mp before
      cases first with
      | nil => exact .inl member
      | cons next first => exact .inr ⟨next :: first, by simp, inside, member⟩
  · rintro (member | ⟨first, _, before, member⟩)
    · exact ⟨[key], by simp, by simp, member⟩
    · exact ⟨key :: first, by simp, cons_prefix_cons.mpr ⟨rfl, before⟩, member⟩

/-- What is taken out of the value at a path. -/
def Cut.below (cut : Cut) (path : List String) : Cut := fun rest => cut (path ++ rest)

section

variable (proper : Proper (.map fields)) (present : path ≠ [])
include proper present

open Classical in
/-- Of what was at a path the rest is left, unless it was in something taken out. -/
theorem dig_strip (found : dig (.map fields) path = some value) :
    dig (.map (strip cut fields)) path =
      if cut.above path then none else stripped (cut.below path) value := by
  induction path generalizing fields cut with
  | nil => exact absurd rfl present
  | cons key rest ih =>
    obtain ⟨next, here, below⟩ := bind_eq_some_iff.mp found
    rw [dig_map, lookup_strip cut proper.nodup, here, bind_some, left, above_cons]
    by_cases member : cut [key]
    · simp [member]
    simp only [member, if_false, false_or]
    cases rest with
    | nil =>
      rw [dig_nil] at below
      cases below
      have top : ¬ (cut.under key).above [] := by
        rintro ⟨first, nonempty, before, _⟩
        exact nonempty (prefix_nil.mp before)
      rw [if_neg top]
      change _ = stripped (cut.under key) value
      cases stripped (cut.under key) value <;> simp
    | cons after rest =>
      obtain ⟨inner, _, rfl, _, _⟩ := dig_cons_some below
      have deeper : dig (.map (strip (cut.under key) inner)) (after :: rest) = _ :=
        ih (proper.lookup here) (by simp) below
      change _ = ite _ none (stripped ((cut.under key).below (after :: rest)) value)
      rw [stripped, ← deeper]
      by_cases empty : inner ≠ [] ∧ strip (cut.under key) inner = []
      · rw [if_pos empty, empty.2]
        rfl
      · rw [if_neg empty, bind_some]

theorem dig_of_dig_strip {result : Value}
    (found : dig (.map (strip cut fields)) path = some result) :
    ∃ value, dig (.map fields) path = some value ∧ ¬ cut.above path ∧
      stripped (cut.below path) value = some result := by
  have before : ∃ value, dig (.map fields) path = some value := by
    induction path generalizing fields cut with
    | nil => exact absurd rfl present
    | cons key rest ih =>
      obtain ⟨after, here, below⟩ := bind_eq_some_iff.mp found
      rw [lookup_strip cut proper.nodup] at here
      obtain ⟨next, held, kept⟩ := bind_eq_some_iff.mp here
      cases rest with
      | nil => exact ⟨next, by rw [dig_map, held]; exact dig_nil next⟩
      | cons name rest =>
        obtain ⟨afterFields, _, rfl, _, _⟩ := dig_cons_some below
        rw [left] at kept
        split at kept
        · cases kept
        cases next with
        | map inner =>
          rw [stripped] at kept
          split at kept
          · cases kept
          cases kept
          obtain ⟨value, deeper⟩ := ih (proper.lookup held) (by simp) below
          exact ⟨value, by rw [dig_map, held]; exact deeper⟩
        | _ => cases kept
  obtain ⟨value, held⟩ := before
  rw [dig_strip proper present held] at found
  split at found
  · cases found
  · rename_i outside
    exact ⟨value, held, outside, found⟩

/-- Nothing is at a path if nothing was there before. -/
theorem absent_strip (absent : dig (.map fields) path = none) :
    dig (.map (strip cut fields)) path = none := by
  cases found : dig (.map (strip cut fields)) path with
  | none => rfl
  | some value =>
    obtain ⟨before, held, _⟩ := dig_of_dig_strip proper present found
    rw [absent] at held
    cases held

end

theorem stripped_map {inner : Fields} {result : Value}
    (kept : stripped cut (.map inner) = some result) : result = .map (strip cut inner) := by
  rw [stripped] at kept
  split at kept
  · cases kept
  · exact (Option.some.inj kept).symm

/-- What is not a map stays as it is. -/
theorem stripped_other (other : ∀ inner, value ≠ .map inner) : stripped cut value = some value := by
  cases value with
  | map inner => exact absurd rfl (other inner)
  | _ => rw [stripped]; simp

theorem map_of_stripped {inner : Fields} (kept : stripped cut value = some (.map inner)) :
    ∃ before, value = .map before ∧ inner = strip cut before := by
  cases value with
  | map before =>
    have same := stripped_map kept
    cases same
    exact ⟨before, rfl, rfl⟩
  | _ =>
    rw [stripped_other (by simp)] at kept
    cases kept

theorem Proper.strip (proper : Proper (.map fields)) (cut : Cut) :
    Proper (.map (strip cut fields)) := by
  intro path inner found
  cases path with
  | nil =>
    rw [dig_nil] at found
    cases found
    exact (keys_strip cut fields).nodup proper.nodup
  | cons key rest =>
    obtain ⟨value, held, _, kept⟩ := dig_of_dig_strip proper (by simp) found
    obtain ⟨before, rfl, rfl⟩ := map_of_stripped kept
    exact (keys_strip _ before).nodup (proper _ before held)

theorem Passable.strip (proper : Proper (.map fields))
    (passable : Passable (.map fields) path) (cut : Cut) :
    Passable (.map (strip cut fields)) path := by
  induction path generalizing fields cut with
  | nil => trivial
  | cons key rest ih =>
    intro result here
    rw [lookup_strip cut proper.nodup] at here
    obtain ⟨value, held, kept⟩ := bind_eq_some_iff.mp here
    have through := passable value held
    rw [left] at kept
    split at kept
    · cases kept
    cases value with
    | map inner =>
      rw [stripped_map kept]
      exact ih (proper.lookup held) through _
    | _ =>
      rw [stripped_other (by simp)] at kept
      cases kept
      exact through

/-- Both sets of paths are taken out. -/
def Cut.union (cut other : Cut) : Cut := fun path => cut path ∨ other path

theorem Cut.union_assoc (first second third : Cut) :
    (first.union second).union third = first.union (second.union third) := by
  funext path
  exact propext or_assoc

theorem left_of_cut (member : cut [key]) : left cut key = fun _ => none := by
  funext value
  rw [left, if_pos member]

theorem left_of_not_cut (outside : ¬ cut [key]) : left cut key = stripped (cut.under key) := by
  funext value
  rw [left, if_neg outside]

theorem left_bind (inside : ∀ cut other : Cut, (stripped cut value).bind (stripped other) =
      stripped (cut.union other) value) :
    (left cut key value).bind (left other key) = left (cut.union other) key value := by
  by_cases first : cut [key]
  · rw [left_of_cut first, left_of_cut (show cut.union other [key] from Or.inl first)]
    rfl
  by_cases second : other [key]
  · rw [left_of_cut second, left_of_cut (show cut.union other [key] from Or.inr second)]
    cases left cut key value <;> rfl
  have neither : ¬ cut.union other [key] := fun either => either.elim first second
  rw [left_of_not_cut first, left_of_not_cut second, left_of_not_cut neither]
  exact inside _ _

theorem strip_union_of (inside : ∀ key value, (key, value) ∈ fields → ∀ cut other : Cut,
      (stripped cut value).bind (stripped other) = stripped (cut.union other) value) :
    strip other (strip cut fields) = strip (cut.union other) fields := by
  rw [strip_eq_filterMap other, strip_eq_filterMap cut, strip_eq_filterMap, filterMap_filterMap]
  apply filterMap_congr
  intro entry member
  rw [← left_bind (inside entry.1 entry.2 member)]
  cases left cut entry.1 entry.2 <;> rfl

theorem stripped_bind (value : Value) : ∀ cut other : Cut,
    (stripped cut value).bind (stripped other) = stripped (cut.union other) value := by
  induction value using Value.tree with
  | step value _ entries =>
    intro cut other
    cases value with
    | map inner =>
      have both : strip other (strip cut inner) = strip (cut.union other) inner :=
        strip_union_of fun key value member => entries inner rfl key value member
      rw [stripped, stripped, ← both]
      by_cases gone : inner ≠ [] ∧ strip cut inner = []
      · rw [if_pos gone, gone.2, strip, if_pos ⟨gone.1, rfl⟩]
        rfl
      rw [if_neg gone, bind_some, stripped]
      by_cases empty : inner = []
      · subst empty
        simp [strip]
      · have some_left : strip cut inner ≠ [] := fun none => gone ⟨empty, none⟩
        simp [empty, some_left]
    | _ =>
      rw [stripped_other (by simp), stripped_other (by simp), bind_some, stripped_other (by simp)]

/-- Taking out one set of paths and then another is taking out both. -/
theorem strip_strip (cut other : Cut) (fields : Fields) :
    strip other (strip cut fields) = strip (cut.union other) fields :=
  strip_union_of fun _ value _ => stripped_bind value

theorem stripped_none (value : Value) : ∀ cut : Cut, Proper value →
    (∀ path, path ≠ [] → cut path → dig value path = none) → stripped cut value = some value := by
  induction value using Value.tree with
  | step value _ entries =>
    intro cut proper absent
    cases value with
    | map inner =>
      have same : strip cut inner = inner := by
        rw [strip_eq_filterMap]
        conv_rhs => rw [← filterMap_some (l := inner)]
        apply filterMap_congr
        rintro ⟨key, value⟩ member
        have held := lookup_of_mem proper.nodup member
        have kept : ¬ cut [key] := by
          intro out
          have nothing := absent [key] (by simp) out
          simp [held] at nothing
        rw [left, if_neg kept, entries inner rfl key value member _ (proper.lookup held)]
        · rfl
        intro path _ out
        have nothing := absent (key :: path) (by simp) out
        rwa [dig_map, held] at nothing
      rw [stripped, same]
      simp
    | _ => exact stripped_other (by simp)

/-- Where there is nothing at the paths, nothing changes. -/
theorem strip_of_absent (proper : Proper (.map fields))
    (absent : ∀ path, path ≠ [] → cut path → dig (.map fields) path = none) :
    strip cut fields = fields := by
  have same := stripped_map (stripped_none (.map fields) cut proper absent)
  exact (Value.map.inj same).symm

end Strip

end ConfigConnector.K8s
