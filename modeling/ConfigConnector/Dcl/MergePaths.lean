import ConfigConnector.Dcl.MergeReturns
import ConfigConnector.K8s.Leaves

/- What a merged spec has at each path of the schema. -/
namespace ConfigConnector.Dcl

open K8s List Value Nat

section Paths

/-- What is at the end of a path. -/
inductive Kind where
  | scalar
  | reference
  | list

variable (services : Services)

mutual

/-- The paths that a schema gives an object: through its properties or, where the schema has
additional properties, through the entries of a map. -/
inductive ObjectPath : Bool → Schema → Path → Kind → Prop where
  | property {atRoot : Bool} {s c : Schema} {f : String} {rest : Path} {kind : Kind}
      (member : (f, c) ∈ s.properties) (plain : isReference c = false)
      (inside : FieldPath c rest kind) : ObjectPath atRoot s (.key f :: rest) kind
  | reference {atRoot : Bool} {s c : Schema} {f key : String} (member : (f, c) ∈ s.properties)
      (refers : isReference c = true) (ofField : key ∈ mergeKeys services atRoot f c) :
      ObjectPath atRoot s [.key key] .reference
  | additional {atRoot : Bool} {s inner : Schema} {key : String} {rest : Path} {kind : Kind}
      (isMap : s.additionalProperties = some inner)
      (unnamed : key ∉ allMergeKeys services atRoot s.properties)
      (inside : FieldPath inner rest kind) : ObjectPath atRoot s (.key key :: rest) kind

/-- The paths that a schema gives the value of a field. -/
inductive FieldPath : Schema → Path → Kind → Prop where
  | scalar {c : Schema} (isForm : form c = .scalar) : FieldPath c [] .scalar
  | primitiveList {c : Schema} (isForm : form c = .primitiveList) : FieldPath c [] .list
  | objectList {c inner : Schema} (isForm : form c = .objectList inner) : FieldPath c [] .list
  | nested {c : Schema} {rest : Path} {kind : Kind} (isForm : form c = .nested)
      (inside : ObjectPath false c rest kind) : FieldPath c rest kind
  | entry {c inner : Schema} {k : String} {rest : Path} {kind : Kind}
      (isForm : form c = .objectMap inner) (inside : ObjectPath false inner rest kind) :
      FieldPath c (.key k :: rest) kind
  | item {c inner : Schema} {i : Nat} {rest : Path} {kind : Kind}
      (isForm : form c = .objectList inner) (inside : ObjectPath false inner rest kind) :
      FieldPath c (.index i :: rest) kind

end

mutual

/-- On its way the path comes to an object that is merged, under a key of none of its
properties. -/
inductive ObjectDropped : Bool → Schema → Value → Value → Path → Prop where
  | unnamed {atRoot : Bool} {s : Schema} {x y : Value} {key : String} {rest : Path}
      (other : key ∉ allMergeKeys services atRoot s.properties) :
      ObjectDropped atRoot s x y (.key key :: rest)
  | property {atRoot : Bool} {s c : Schema} {x y : Value} {f : String} {rest : Path}
      (member : (f, c) ∈ s.properties) (plain : isReference c = false)
      (inState : x.step (.key f) ≠ .null) (inSpec : y.step (.key f) ≠ .null)
      (inside : FieldDropped c (x.step (.key f)) (y.step (.key f)) rest) :
      ObjectDropped atRoot s x y (.key f :: rest)

inductive FieldDropped : Schema → Value → Value → Path → Prop where
  | nested {c : Schema} {x y : Value} {rest : Path} (isForm : form c = .nested)
      (inside : ObjectDropped false c x y rest) : FieldDropped c x y rest
  | entry {c inner : Schema} {x y : Value} {k : String} {rest : Path}
      (isForm : form c = .objectMap inner)
      (inside : ObjectDropped false inner (x.step (.key k)) (y.step (.key k)) rest) :
      FieldDropped c x y (.key k :: rest)
  | item {c inner : Schema} {x y : Value} {i : Nat} {rest : Path}
      (isForm : form c = .objectList inner)
      (inside : ObjectDropped false inner (x.step (.index i)) (y.step (.index i)) rest) :
      FieldDropped c x y (.index i :: rest)

end

end Paths

variable {kind : Kind}

section Law

/-- `IsK8sManaged` at a path, with the managed fields of the objects on the way; inside a list
there is no set of managed fields. -/
def pathManaged (managedFields : Option FieldSet) (spec : Value) : Path → Bool
  | [] => false
  | [.key f] => isK8sManaged f spec.entries managedFields
  | .key f :: rest => pathManaged (nestedManagedFields f managedFields) (spec.step (.key f)) rest
  | .index i :: rest => pathManaged none (spec.step (.index i)) rest

/-- What the merged value should be, given those of the state and the spec. -/
def Law (managed : Bool) (stateVal specVal merged : Value) : Kind → Prop
  | .scalar => merged = if !specVal.isNil && (managed || stateVal.isNil) then specVal else stateVal
  | .reference => specVal ≠ .null → merged = specVal
  | .list => ∀ stateList specList, stateVal = .list stateList → specVal = .list specList →
      stateList ≠ [] → ∃ vals, merged = .list vals ∧ vals.length = stateList.length

/-- There is a value that should not be lost. -/
def Asks (stateVal specVal : Value) : Kind → Prop
  | .scalar => stateVal ≠ .null ∨ specVal ≠ .null
  | .reference => specVal ≠ .null
  | .list => ∃ stateList specList, stateVal = .list stateList ∧ specVal = .list specList ∧
      stateList ≠ []

theorem law_null_iff {managed : Bool} {stateVal specVal : Value} :
    Law managed stateVal specVal .null kind ↔ ¬ Asks stateVal specVal kind := by
  cases kind with
  | scalar =>
    rw [Law, Asks, eq_comm]
    by_cases inSpec : specVal = .null
    · simp [inSpec, Value.isNil]
    by_cases inState : stateVal = .null
    · simp [inSpec, inState, Value.isNil]
    · cases managed <;> simp [inSpec, inState, isNil_of_ne inSpec, isNil_of_ne inState]
  | reference =>
    rw [Law, Asks, not_not]
    exact ⟨fun law => by_contra fun present => present (law present).symm,
      fun absent present => absurd absent present⟩
  | list =>
    constructor
    · rintro law ⟨stateList, specList, inState, inSpec, nonempty⟩
      obtain ⟨vals, same, -⟩ := law stateList specList inState inSpec nonempty
      cases same
    · intro nothing stateList specList inState inSpec nonempty
      exact absurd ⟨stateList, specList, inState, inSpec, nonempty⟩ nothing

theorem law_of_state_null (managed : Bool) (specVal : Value) (kind : Kind) :
    Law managed .null specVal specVal kind := by
  cases kind with
  | scalar =>
    rw [Law]
    cases nil : specVal.isNil with
    | true => simp [(isNil_iff specVal).mp nil]
    | false => simp [Value.isNil]
  | reference => exact fun _ => rfl
  | list => exact fun _ _ inState => by cases inState

theorem law_of_spec_null (managed : Bool) (stateVal : Value) (kind : Kind) :
    Law managed stateVal .null stateVal kind := by
  cases kind with
  | scalar => simp [Law, Value.isNil]
  | reference => exact fun present => absurd rfl present
  | list => exact fun _ _ _ inSpec => by cases inSpec

end Law

variable {managedFields : Option FieldSet} {state spec : Fields} {path : List String}
  {within : DataType} {val : Value}

section Steps

variable {services : Services} {f : String} {c inner : Schema}

theorem path_induction {P : Path → Prop}
    (step : ∀ p, (∀ q : Path, q.length < p.length → P q) → P p) (p : Path) : P p :=
  (measure List.length).wf.induction p step

theorem step_key (x : Value) (f : String) : x.step (.key f) = Value.get x.entries f := by
  cases x <;> rfl

/-- A nested object is merged as one. -/
theorem mergeField_object (isForm : form c = .nested)
    (done : mergeField services state spec path managedFields within f c = .ok val) :
    ∃ merged, mergeSpecWithLiteState services (Value.get state f).entries
        (Value.get spec f).entries (path ++ [f]) (nestedManagedFields f managedFields) c =
        .ok merged ∧ val = .map merged := by
  rw [mergeField_iff, isForm, Merges, mergeNestedObject_iff] at done
  obtain ⟨a, b, merged, inState, inSpec, inside, isMap⟩ := done
  rw [inState, inSpec]
  exact ⟨merged, inside, isMap⟩

/-- An entry of an object map is merged as an object, unless no side has it. -/
theorem mergeField_entry (isForm : form c = .objectMap inner)
    (done : mergeField services state spec path managedFields within f c = .ok val) (k : String) :
    (val.step (.key k) = .null ∧ (Value.get state f).step (.key k) = .null ∧
      (Value.get spec f).step (.key k) = .null) ∨
    ((Value.get state f).step (.key k) ≠ .null ∧
      ∃ merged, mergeSpecWithLiteState services ((Value.get state f).step (.key k)).entries
        ((Value.get spec f).step (.key k)).entries (path ++ [f] ++ [k])
        (nestedManagedFields k (nestedManagedFields f managedFields)) inner = .ok merged ∧
        val.step (.key k) = .map merged) := by
  rw [mergeField_iff, isForm] at done
  obtain ⟨stateMap, specMap, entries, inState, inSpec, rfl, count, each⟩ := mergeObjectMap_ok done
  rw [inState, inSpec, Value.step, Value.step, Value.step]
  cases found : stateMap.lookup k with
  | none =>
    have absent := lookup_none_of_count count (fun k held => by
      obtain ⟨-, -, -, b, -, -, atSpec, -⟩ := (each k).1 held
      simp [atSpec]) found
    left
    simp [Value.get, found, absent, (each k).2 found]
  | some stateVal =>
    obtain ⟨entry, there, a, b, merged, atState, atSpec, inside, rfl⟩ :=
      (each k).1 (by simp [found])
    right
    have specVal : Value.get specMap k = .map b := by rw [Value.get, atSpec]; rfl
    rw [atState, specVal]
    exact ⟨by simp, merged, inside, by rw [Value.get, there]; rfl⟩

theorem MergedItems.item {merge : Fields → Fields → Except Failure Fields}
    {stateList specList vals : List Value} (items : MergedItems merge stateList specList vals)
    (shorter : specList.length ≤ stateList.length) (i : Nat) :
    (vals.getD i .null = .null ∧ stateList.getD i .null = .null ∧
      specList.getD i .null = .null) ∨
    (stateList.getD i .null ≠ .null ∧
      ∃ merged, merge (stateList.getD i .null).entries (specList.getD i .null).entries =
        .ok merged ∧ vals.getD i .null = .map merged) := by
  induction items generalizing i with
  | nil specList =>
    obtain rfl := length_eq_zero_iff.mp (le_zero.mp shorter)
    exact .inl ⟨rfl, rfl, rfl⟩
  | behind merged rest ih =>
    cases i with
    | zero => exact .inr ⟨by simp, _, merged, rfl⟩
    | succ i => exact ih (zero_le _) i
  | both merged rest ih =>
    cases i with
    | zero => exact .inr ⟨by simp, _, merged, rfl⟩
    | succ i => exact ih (le_of_succ_le_succ shorter) i

/-- An item of a list is merged as an object, unless the state does not have it. -/
theorem mergeField_item (isForm : form c = .objectList inner)
    (done : mergeField services state spec path managedFields within f c = .ok val) (i : Nat) :
    (val.step (.index i) = .null ∧ (Value.get state f).step (.index i) = .null ∧
      (Value.get spec f).step (.index i) = .null) ∨
    ((Value.get state f).step (.index i) ≠ .null ∧
      ∃ merged, mergeSpecWithLiteState services ((Value.get state f).step (.index i)).entries
        ((Value.get spec f).step (.index i)).entries (path ++ [f]) none inner = .ok merged ∧
        val.step (.index i) = .map merged) := by
  rw [mergeField_iff, isForm] at done
  obtain ⟨stateList, specList, vals, inState, inSpec, shorter, items, result⟩ := done
  have same : val.step (.index i) = vals.getD i .null := by
    rw [result]
    cases vals <;> rfl
  rw [same, inState, inSpec]
  exact items.item shorter i

end Steps

section Walks

variable (services : Services)

/-- What is dropped on the path is not in the merged object. -/
def DropsAt (p : Path) : Prop :=
  ∀ {s : Schema} {x y : Value} {path : List String} {managedFields : Option FieldSet}
    {merged : Fields} {atRoot : Bool}, path.isEmpty = atRoot → Lawful services atRoot s →
    mergeSpecWithLiteState services x.entries y.entries path managedFields s = .ok merged →
    ObjectDropped services atRoot s x y p → (Value.map merged).follow p = .null

variable {p : Path} {f : String} {c : Schema}

theorem field_drops (inner : ∀ q : Path, q.length ≤ p.length → DropsAt services q)
    (lawful : Lawful services false c)
    (done : mergeField services state spec path managedFields within f c = .ok val)
    (dropped : FieldDropped services c (Value.get state f) (Value.get spec f) p) :
    val.follow p = .null := by
  cases dropped with
  | nested isForm inside =>
    obtain ⟨merged, merges, rfl⟩ := mergeField_object isForm done
    exact inner p (le_refl _) (by simp) lawful merges inside
  | @entry _ entrySchema _ _ k rest isForm inside =>
    have lawfulEntry := lawful.additional (additional_of_form isForm).1
    rw [Value.follow]
    rcases mergeField_entry isForm done k with nothing | ⟨-, merged, merges, isMap⟩
    · rw [nothing.1, follow_null]
    · rw [isMap]
      exact inner rest (by simp) (by simp) lawfulEntry merges inside
  | @item _ itemSchema _ _ i rest isForm inside =>
    have lawfulItem := lawful.item (items_of_form isForm).1
    rw [Value.follow]
    rcases mergeField_item isForm done i with nothing | ⟨-, merged, merges, isMap⟩
    · rw [nothing.1, follow_null]
    · rw [isMap]
      exact inner rest (by simp) (by simp) lawfulItem merges inside

theorem object_drops (p : Path) : DropsAt services p := by
  induction p using path_induction with
  | step p inner =>
    intro s x y path managedFields merged atRoot isRoot lawful done dropped
    subst isRoot
    cases dropped with
    | @unnamed _ _ _ _ key rest other =>
      rw [Value.follow, Value.step, merged_unnamed lawful done other, follow_null]
    | @property _ _ c _ _ f rest member plain inState inSpec inside =>
      rw [Value.follow, Value.step]
      rw [step_key] at inState inSpec
      rw [step_key, step_key] at inside
      rcases merged_plain lawful done member plain with ⟨nil, -⟩ | ⟨nil, -⟩ | ⟨-, -, both⟩
      · exact absurd nil inState
      · exact absurd nil inSpec
      · exact field_drops services (fun q shorter => inner q (by simp; omega))
          (lawful.property member) both inside

/-- What the schema's paths that are not dropped lead to is merged by the law. -/
def KeepsAt (p : Path) : Prop :=
  ∀ {s : Schema} {x y : Value} {path : List String} {managedFields : Option FieldSet}
    {merged : Fields} {kind : Kind} {atRoot : Bool}, path.isEmpty = atRoot →
    Lawful services atRoot s →
    mergeSpecWithLiteState services x.entries y.entries path managedFields s = .ok merged →
    ObjectPath services atRoot s p kind → ¬ ObjectDropped services atRoot s x y p →
    Law (pathManaged managedFields y p) (x.follow p) (y.follow p) ((Value.map merged).follow p) kind

theorem ObjectPath.ne_nil {atRoot : Bool} {s : Schema}
    (leads : ObjectPath services atRoot s p kind) : p ≠ [] := by
  cases leads <;> simp

theorem pathManaged_key (managedFields : Option FieldSet) (y : Value) (f : String) {rest : Path}
    (further : rest ≠ []) :
    pathManaged managedFields y (.key f :: rest) =
      pathManaged (nestedManagedFields f managedFields) (y.step (.key f)) rest := by
  cases rest with
  | nil => exact absurd rfl further
  | cons first rest => rw [pathManaged]; simp

theorem field_keeps (inner : ∀ q : Path, q.length ≤ p.length → KeepsAt services q) {x y : Value}
    (lawful : Lawful services false c) (inState : Value.get x.entries f ≠ .null)
    (inSpec : Value.get y.entries f ≠ .null)
    (done : mergeField services x.entries y.entries path managedFields within f c = .ok val)
    (leads : FieldPath services c p kind)
    (kept : ¬ FieldDropped services c (Value.get x.entries f) (Value.get y.entries f) p) :
    Law (pathManaged managedFields y (.key f :: p)) ((Value.get x.entries f).follow p)
      ((Value.get y.entries f).follow p) (val.follow p) kind := by
  cases leads with
  | scalar isForm =>
    rw [mergeField_iff, isForm, Merges, mergeScalar_iff lawful.regular] at done
    simp only [Law, Value.follow, pathManaged, isNil_of_ne inState, isNil_of_ne inSpec,
      Bool.not_false, Bool.true_and, Bool.or_false]
    cases managed : isK8sManaged f y.entries managedFields with
    | true => simpa [managed] using done
    | false => exact (by simpa [managed] using done : _ ∧ _).2
  | primitiveList isForm =>
    rw [mergeField_iff, isForm] at done
    obtain ⟨items, same, result⟩ := done
    intro stateList specList isState isSpec nonempty
    cases same.symm.trans isState
    exact ⟨items, by rw [Value.follow, result, listOrNull]; simp [nonempty], rfl⟩
  | objectList isForm =>
    rw [mergeField_iff, isForm] at done
    obtain ⟨items, others, vals, same, -, -, merged, result⟩ := done
    intro stateList specList isState isSpec nonempty
    cases same.symm.trans isState
    have count := merged.length_eq
    refine ⟨vals, ?_, count⟩
    cases vals with
    | nil => exact absurd (length_eq_zero_iff.mp count.symm) nonempty
    | cons first rest => exact result
  | nested isForm inside =>
    obtain ⟨merged, merges, rfl⟩ := mergeField_object isForm done
    rw [pathManaged_key managedFields y f (inside.ne_nil services), step_key]
    exact inner p (le_refl _) (by simp) lawful merges inside
      fun dropped => kept (.nested isForm dropped)
  | @entry _ entrySchema k rest _ isForm inside =>
    have lawfulEntry := lawful.additional (additional_of_form isForm).1
    rw [pathManaged_key managedFields y f (by simp),
      pathManaged_key _ _ k (inside.ne_nil services), step_key y f]
    simp only [Value.follow]
    rcases mergeField_entry isForm done k with ⟨nil, nilState, nilSpec⟩ | ⟨-, merged, merges, isMap⟩
    · rw [nil, nilState, nilSpec, follow_null]
      exact law_of_state_null _ _ _
    rw [isMap]
    exact inner rest (by simp) (by simp) lawfulEntry merges inside
      fun dropped => kept (.entry isForm dropped)
  | @item _ itemSchema i rest _ isForm inside =>
    have lawfulItem := lawful.item (items_of_form isForm).1
    rw [pathManaged_key managedFields y f (by simp), pathManaged, step_key y f]
    simp only [Value.follow]
    rcases mergeField_item isForm done i with ⟨nil, nilState, nilSpec⟩ | ⟨-, merged, merges, isMap⟩
    · rw [nil, nilState, nilSpec, follow_null]
      exact law_of_state_null _ _ _
    rw [isMap]
    exact inner rest (by simp) (by simp) lawfulItem merges inside
      fun dropped => kept (.item isForm dropped)

theorem object_keeps (p : Path) : KeepsAt services p := by
  induction p using path_induction with
  | step p inner =>
    intro s x y path managedFields merged kind atRoot isRoot lawful done leads kept
    subst isRoot
    cases leads with
    | @property _ _ c f rest _ member plain inside =>
      simp only [Value.follow, step_key]
      rw [Value.entries]
      rcases merged_plain lawful done member plain with
        ⟨nil, same⟩ | ⟨nil, same⟩ | ⟨inState, inSpec, both⟩
      · rw [nil, same, follow_null]
        exact law_of_state_null _ _ _
      · rw [nil, same, follow_null]
        exact law_of_spec_null _ _ _
      · apply field_keeps services (fun q shorter => inner q (by simp; omega))
          (lawful.property member) inState inSpec both inside
        intro dropped
        apply kept
        exact .property member plain (by rwa [step_key]) (by rwa [step_key])
          (by rwa [step_key, step_key])
    | @reference _ _ c f key member refers ofField =>
      simp only [Value.follow, step_key]
      intro present
      rcases merged_reference lawful done member refers ofField with same | ⟨nil, -⟩
      · exact same
      · exact absurd nil present
    | additional isMap unnamed inside => exact absurd (.unnamed unnamed) kept

/-- What the merged object has at a path, the state or the spec has there. -/
def FoundAt (p : Path) : Prop :=
  ∀ {s : Schema} {x y : Value} {path : List String} {managedFields : Option FieldSet}
    {merged : Fields}, Lawful services path.isEmpty s → x ≠ .null →
    mergeSpecWithLiteState services x.entries y.entries path managedFields s = .ok merged →
    (Value.map merged).follow p ≠ .null → x.follow p ≠ .null ∨ y.follow p ≠ .null

theorem Lawful.below {services : Services} (lawful : Lawful services false c)
    (path : List String) (f : String) : Lawful services (path ++ [f]).isEmpty c := by
  rwa [isEmpty_eq_false_iff.mpr (by simp)]

theorem field_found (inner : ∀ q : Path, q.length ≤ p.length → FoundAt services q)
    (lawful : Lawful services false c) (inState : Value.get state f ≠ .null)
    (done : mergeField services state spec path managedFields within f c = .ok val)
    (found : val.follow p ≠ .null) :
    (Value.get state f).follow p ≠ .null ∨ (Value.get spec f).follow p ≠ .null := by
  -- a value that is copied from one side is found there
  have copied : val = Value.get state f ∨ val = Value.get spec f ∨ val = .null →
      (Value.get state f).follow p ≠ .null ∨ (Value.get spec f).follow p ≠ .null := by
    intro cases
    rcases cases with same | same | nil
    · exact .inl (same ▸ found)
    · exact .inr (same ▸ found)
    · rw [nil, follow_null] at found
      exact absurd rfl found
  cases isForm : form c with
  | scalar =>
    rw [mergeField_iff, isForm, Merges, mergeScalar_iff lawful.regular] at done
    split at done
    · exact copied (.inr (.inl done))
    · exact copied (.inl done.2)
  | primitiveMap =>
    rw [mergeField_iff, isForm, Merges, mergePrimitiveMap_iff inState] at done
    split at done
    · exact copied (.inr (.inl done))
    obtain ⟨entries, same, result⟩ := done
    split at result
    · exact copied (.inr (.inr result))
    · exact copied (.inl (result.trans same.symm))
  | primitiveList =>
    rw [mergeField_iff, isForm] at done
    obtain ⟨items, same, result⟩ := done
    rw [listOrNull] at result
    split at result
    · exact copied (.inr (.inr result))
    · exact copied (.inl (result.trans same.symm))
  | nested =>
    obtain ⟨merged, merges, rfl⟩ := mergeField_object isForm done
    exact inner p (le_refl _) (lawful.below path f) inState merges found
  | objectMap entrySchema =>
    have lawfulEntry := lawful.additional (additional_of_form isForm).1
    cases p with
    | nil => exact .inl inState
    | cons first rest =>
      cases first with
      | key k =>
        rw [Value.follow] at found
        rcases mergeField_entry isForm done k with ⟨nil, -, -⟩ | ⟨there, merged, merges, isMap⟩
        · rw [nil, follow_null] at found
          exact absurd rfl found
        · rw [isMap] at found
          exact inner rest (by simp) (lawfulEntry.below (path ++ [f]) k) there merges found
      | index i =>
        rw [mergeField_iff, isForm] at done
        obtain ⟨_, _, entries, -, -, rfl, -, -⟩ := mergeObjectMap_ok done
        exact absurd (follow_null rest) found
  | objectList itemSchema =>
    have lawfulItem := lawful.item (items_of_form isForm).1
    cases p with
    | nil => exact .inl inState
    | cons first rest =>
      cases first with
      | index i =>
        rw [Value.follow] at found
        rcases mergeField_item isForm done i with ⟨nil, -, -⟩ | ⟨there, merged, merges, isMap⟩
        · rw [nil, follow_null] at found
          exact absurd rfl found
        · rw [isMap] at found
          exact inner rest (by simp) (lawfulItem.below path f) there merges found
      | key k =>
        rw [mergeField_iff, isForm] at done
        obtain ⟨_, _, vals, -, -, -, -, result⟩ := done
        rw [result, Value.follow] at found
        cases vals <;> exact absurd (follow_null rest) found
  | unsupported =>
    rw [mergeField_iff, isForm] at done
    exact done.elim

theorem object_found (p : Path) : FoundAt services p := by
  induction p using path_induction with
  | step p inner =>
    intro s x y path managedFields merged lawful present done found
    cases p with
    | nil => exact .inl present
    | cons first rest =>
      cases first with
      | index i => exact absurd (follow_null rest) found
      | key key =>
        rw [Value.follow, Value.step] at found
        simp only [Value.follow, step_key]
        by_cases named : key ∈ allMergeKeys services path.isEmpty s.properties
        · obtain ⟨⟨f, c⟩, member, ofField⟩ := mem_flatMap.mp named
          by_cases refers : isReference c = true
          · rcases merged_reference lawful done member refers ofField with
              same | ⟨-, same | nil⟩
            · exact .inr (same ▸ found)
            · exact .inl (same ▸ found)
            · rw [nil, follow_null] at found
              exact absurd rfl found
          · have plain := Bool.eq_false_iff.mpr refers
            obtain rfl : key = f := by simpa [mergeKeys, plain] using ofField
            rcases merged_plain lawful done member plain with
              ⟨-, same⟩ | ⟨-, same⟩ | ⟨inState, -, both⟩
            · exact .inr (same ▸ found)
            · exact .inl (same ▸ found)
            · exact field_found services (fun q shorter => inner q (by simp; omega))
                (lawful.property member) inState both found
        · rw [merged_unnamed lawful done named, follow_null] at found
          exact absurd rfl found

end Walks

section PathLaw

/-- The law holds at a path of the schema unless the path goes, in an object that is merged,
under a key of none of its properties and there is something there; and what the merged spec
has, the state or the spec has. -/
theorem merge_path_law_iff (services : Services) (schema : Schema)
    (lawful : Lawful services true schema) (managedFields : Option FieldSet)
    (state spec merged : Fields)
    (done : mergeSpecWithLiteState services state spec [] managedFields schema = .ok merged) :
    (∀ path kind, ObjectPath services true schema path kind →
      (Law (pathManaged managedFields (.map spec) path) ((Value.map state).follow path)
        ((Value.map spec).follow path) ((Value.map merged).follow path) kind ↔
      ¬ (ObjectDropped services true schema (.map state) (.map spec) path ∧
        Asks ((Value.map state).follow path) ((Value.map spec).follow path) kind))) ∧
    ∀ path, (Value.map merged).follow path ≠ .null →
      (Value.map state).follow path ≠ .null ∨ (Value.map spec).follow path ≠ .null := by
  have lawfulHere : Lawful services ([] : List String).isEmpty schema := lawful
  have merges : mergeSpecWithLiteState services (Value.map state).entries (Value.map spec).entries
      [] managedFields schema = .ok merged := done
  constructor
  · intro path kind leads
    by_cases dropped : ObjectDropped services true schema (.map state) (.map spec) path
    · rw [object_drops services path rfl lawfulHere merges dropped, law_null_iff,
        and_iff_right dropped]
    · have kept := object_keeps services path rfl lawfulHere merges leads dropped
      exact ⟨fun _ both => dropped both.1, fun _ => kept⟩
  · intro path found
    exact object_found services path lawfulHere (by simp) merges found

theorem merge_path_law_folder :
    ∃ merged,
      mergeSpecWithLiteState folderServices folderSpec [("quota", .int 5)] [] none folderSchema =
        .ok merged ∧
      ObjectPath folderServices true folderSchema [.key "quota"] .scalar ∧
      (Law true (.float "3") (.int 5) ((Value.map merged).follow [.key "quota"]) .scalar ↔
        ¬ (ObjectDropped folderServices true folderSchema (.map folderSpec)
            (.map [("quota", .int 5)]) [.key "quota"] ∧ Asks (.float "3") (.int 5) .scalar)) :=
  have leads : ObjectPath folderServices true folderSchema [.key "quota"] .scalar :=
    .property (c := .mk .integer false [] [] none none) (by simp [folderSchema, Schema.properties])
      rfl (.scalar rfl)
  ⟨_, rfl, leads, (merge_path_law_iff folderServices folderSchema ⟨by decide, by decide⟩ none
    folderSpec [("quota", .int 5)] _ rfl).1 _ _ leads⟩

/-- A resource with disks by zone and by name. -/
def zonedSchema : Schema :=
  .mk .object false [] [("zones", .mk .object false [] [] (some (.mk .object false [] [] (some
    (.mk .object false [] [("size", stringSchema [])] none none)) none)) none)] none none

def zonedDisks : Fields :=
  [("zones", .map [("a", .map [("boot", .map [("size", .string "10")])])])]

/-- Of maps by zone and by name only the zones are left, though the state and the spec have
the same disks. -/
theorem zoned_disk_lost :
    Lawful folderServices true zonedSchema ∧
    convertToKRMSpec folderServices (.map zonedDisks) [] false zonedSchema =
      .ok (.map zonedDisks) ∧
    mergeSpecWithLiteState folderServices zonedDisks zonedDisks [] none zonedSchema =
      .ok [("zones", .map [("a", .map [])])] ∧
    ObjectPath folderServices true zonedSchema
      [.key "zones", .key "a", .key "boot", .key "size"] .scalar ∧
    ¬ Law true (.string "10") (.string "10")
      ((Value.map [("zones", .map [("a", .map [])])]).follow
        [.key "zones", .key "a", .key "boot", .key "size"]) .scalar := by
  refine ⟨⟨by decide, by decide⟩, rfl, rfl, ?_, ?_⟩
  · refine .property (.head _) rfl (.entry rfl (.additional rfl (by decide) (.nested rfl
      (.property (.head _) rfl (.scalar rfl)))))
  · intro law
    cases law

end PathLaw

end ConfigConnector.Dcl
