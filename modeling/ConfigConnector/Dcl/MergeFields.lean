import ConfigConnector.Dcl.Merge
import ConfigConnector.Dcl.RoundTrip

/- One level of a merge: what each property of an object gives, and what the merged object
holds under each key. -/
namespace ConfigConnector.Dcl

open K8s List Bool Fallible Value

variable {inner : Schema} {entry : String × Schema} {key : String} {config : Fields} {val : Value}
variable (services : Services)

/-- The keys under which a property can be in a merged spec. -/
def mergeKeys (atRoot : Bool) (field : String) (s : Schema) : List String :=
  if isReference s then
    if atRoot && field == "parent" then (parentTypes services s).map (·.key)
    else [referenceKey field s]
  else [field]

def allMergeKeys (atRoot : Bool) (properties : Properties) : List String :=
  properties.flatMap fun entry => mergeKeys services atRoot entry.1 entry.2

mutual

/-- In every object the keys of the properties differ. -/
def distinctKeys (atRoot : Bool) : Schema → Bool
  | .mk _ _ _ properties additionalProperties items =>
    decide (allMergeKeys services atRoot properties).Nodup &&
    distinctKeysBelow properties && distinctKeysInside additionalProperties &&
    distinctKeysInside items

def distinctKeysBelow : Properties → Bool
  | [] => true
  | (_, s) :: rest => distinctKeys false s && distinctKeysBelow rest

def distinctKeysInside : Option Schema → Bool
  | none => true
  | some s => distinctKeys false s

end

theorem distinctKeysBelow_iff (properties : Properties) : distinctKeysBelow services properties ↔
      ∀ field s, (field, s) ∈ properties → distinctKeys services false s := by
  induction properties with
  | nil => simp [distinctKeysBelow]
  | cons entry rest ih => rw [distinctKeysBelow, and_eq_true, ih, Dict.forall_entry_cons]

/-- What the DCL guarantees of a schema: it is well formed, and the keys of its properties
differ. -/
structure Lawful (atRoot : Bool) (s : Schema) : Prop where
  wellFormed : wellFormed s = true
  distinct : distinctKeys services atRoot s = true

namespace Lawful

variable {services} {atRoot : Bool} {s : Schema} (lawful : Lawful services atRoot s)

include lawful

theorem regular : Regular s := regular_of_wellFormed lawful.wellFormed

theorem parts : (allMergeKeys services atRoot s.properties).Nodup ∧
    distinctKeysBelow services s.properties ∧ distinctKeysInside services s.additionalProperties ∧
    distinctKeysInside services s.items := by
  obtain ⟨type, readOnly, extension, properties, additionalProperties, items⟩ := s
  have distinct := lawful.distinct
  simp only [distinctKeys, and_eq_true, decide_eq_true_eq] at distinct
  exact ⟨distinct.1.1.1, distinct.1.1.2, distinct.1.2, distinct.2⟩

theorem property {field : String} (member : (field, inner) ∈ s.properties) :
    Lawful services false inner :=
  ⟨lawful.regular.properties field inner member,
    (distinctKeysBelow_iff services _).mp lawful.parts.2.1 field inner member⟩

theorem additional (found : s.additionalProperties = some inner) : Lawful services false inner := by
  have distinct := lawful.parts.2.2.1
  rw [found] at distinct
  exact ⟨lawful.regular.additionalProperties inner found, distinct⟩

theorem item (found : s.items = some inner) : Lawful services false inner := by
  have distinct := lawful.parts.2.2.2
  rw [found] at distinct
  exact ⟨lawful.regular.inner inner found, distinct⟩

theorem nodup_keys (member : entry ∈ s.properties) :
    (mergeKeys services atRoot entry.1 entry.2).Nodup :=
  (nodup_flatMap.mp lawful.parts.1).1 entry member

end Lawful

section Property

variable (state spec : Fields) (path : List String)
  (managedFields : Option FieldSet) (within : DataType)

/-- What one property adds to the merged spec. -/
def mergeProperty (entry : String × Schema) : Except Failure (String × Value) :=
  mergePropertyWith services state spec path entry.1 entry.2
    (mergeField services state spec path managedFields within entry.1 entry.2)

theorem mergeProperties_eq (properties : Properties) :
    mergeProperties services state spec path managedFields within properties =
      properties.mapM (mergeProperty services state spec path managedFields within) := by
  induction properties with
  | nil => rfl
  | cons entry rest ih =>
    rw [mergeProperties, mapM_cons, ih]
    rfl

/-- What a single reference gives: the entry of the spec, or else that of the state. -/
def singleReference (key : String) : String × Value :=
  match spec.lookup key with
  | some specVal => (key, specVal)
  | none => if (Value.get state key).isNil then ("", .null) else (key, Value.get state key)

end Property

section Parent

variable (s : Schema)

/-- The parents that a spec or a state names. -/
def parentsIn (config : Fields) : List TypeConfig :=
  (parentTypes services s).filter fun tc => !(Value.get config tc.key).isNil

/-- The types of the parent are known. -/
def ParentKnown : Prop := ∃ tcs, services.getReferenceTypeConfigs s = .ok tcs

theorem wrapError_eq_ok {α : Type} {text : String} {call : Except Failure α} {value : α} :
    wrapError text call = .ok value ↔ call = .ok value := by
  cases call with
  | ok other => rfl
  | error err => simp [wrapError, Except.mapError]

theorem hierarchicalRefFrom_iff {tcs : List TypeConfig}
    {found result : Option (Value × TypeConfig)} :
    hierarchicalRefFrom config found tcs = .ok result ↔
      (found.toList.length + (tcs.filter fun tc => !(Value.get config tc.key).isNil).length ≤ 1 ∧
        result = found.or ((tcs.filter fun tc => !(Value.get config tc.key).isNil).head?.map
          fun tc => (Value.get config tc.key, tc))) := by
  induction tcs generalizing found with
  | nil =>
    rw [hierarchicalRefFrom, Except.ok.injEq]
    cases found with
    | none | some _ => simp [eq_comm]
  | cons tc rest ih =>
    unfold hierarchicalRefFrom
    cases nil : (Value.get config tc.key).isNil with
    | true => simpa [nil] using ih
    | false =>
      cases found with
      | none =>
        simp only [nil, false_eq_true, ↓reduceIte]
        rw [ih]
        simp [nil]
      | some first => simp [nil, fail]

theorem hierarchicalRef_iff {found : Option (Value × TypeConfig)} :
    getHierarchicalRefFromConfigForMultiParentResource services config s = .ok found ↔
      ParentKnown services s ∧ (parentsIn services s config).length ≤ 1 ∧
        found = (parentsIn services s config).head?.map fun tc =>
          (Value.get config tc.key, tc) := by
  rw [getHierarchicalRefFromConfigForMultiParentResource, ParentKnown, parentsIn, parentTypes]
  cases services.getReferenceTypeConfigs s with
  | error err => simp [wrapError, Except.mapError]
  | ok tcs => simp [hierarchicalRefFrom_iff]

/-- What the parent gives: the one of the spec, or else that of the state. -/
def parentEntry (state spec : Fields) : String × Value :=
  match parentsIn services s spec, parentsIn services s state with
  | tc :: _, _ => (tc.key, Value.get spec tc.key)
  | [], tc :: _ => (tc.key, Value.get state tc.key)
  | [], [] => ("", .null)

theorem mergeParent_iff {state spec : Fields} {entry : String × Value} :
    mergeMultiTypeParentReferenceField state spec services s = .ok entry ↔
      ParentKnown services s ∧ (parentsIn services s spec).length ≤ 1 ∧
        (parentsIn services s spec = [] → (parentsIn services s state).length ≤ 1) ∧
        entry = parentEntry services s state spec := by
  rw [mergeMultiTypeParentReferenceField, parentEntry, bind_eq_ok]
  simp only [wrapError_eq_ok, hierarchicalRef_iff]
  cases inSpec : parentsIn services s spec with
  | cons tc rest =>
    constructor
    · intro ⟨fromSpec, ⟨known, one, same⟩, merged⟩
      cases same
      exact ⟨known, one, (nomatch ·), (Except.ok.inj merged).symm⟩
    · intro ⟨known, one, _, same⟩
      exact ⟨_, ⟨known, one, rfl⟩, by rw [same]; rfl⟩
  | nil =>
    constructor
    · intro ⟨fromSpec, ⟨known, one, same⟩, merged⟩
      cases same
      obtain ⟨fromState, found, merged⟩ := bind_eq_ok.mp merged
      rw [wrapError_eq_ok, hierarchicalRef_iff] at found
      obtain ⟨-, single, same⟩ := found
      refine ⟨known, one, fun _ => single, ?_⟩
      cases inState : parentsIn services s state with
      | nil | cons _ _ =>
        rw [inState] at same
        cases same
        exact (Except.ok.inj merged).symm
    · intro ⟨known, one, single, same⟩
      refine ⟨_, ⟨known, one, rfl⟩, bind_eq_ok.mpr ⟨_, wrapError_eq_ok.mpr
        ((hierarchicalRef_iff services s).mpr ⟨known, single rfl, rfl⟩), ?_⟩⟩
      rw [same]
      cases parentsIn services s state <;> rfl

end Parent

variable {services} {managedFields : Option FieldSet} {state spec merged : Fields}
  {path : List String}

section Level

variable {within : DataType} {f : String} {c s : Schema}

theorem mergeProperty_reference (regular : Regular c) (refers : isReference c) :
    mergeProperty services state spec path managedFields within (f, c) =
      if path.isEmpty && f == "parent" then
        mergeMultiTypeParentReferenceField state spec services c
      else .ok (singleReference state spec (referenceKey f c)) := by
  rw [mergeProperty, mergePropertyWith, regular.reference, refers, ok_bind, if_pos rfl,
    mergeReferenceField, isMultiTypeParentReferenceField_concat]
  split
  · rfl
  rename_i single
  have name := regular.referenceFieldName path f refers
    (by rw [isMultiTypeParentReferenceField_concat]; exact eq_false_iff.mpr single)
  rw [mergeResourceReference, name, ok_bind, singleReference]
  cases spec.lookup (referenceKey f c) with
  | some specVal => rfl
  | none => cases (Value.get state (referenceKey f c)).isNil <;> rfl

theorem mergeProperty_plain (regular : Regular c) (plain : isReference c = false) :
    mergeProperty services state spec path managedFields within (f, c) =
      if (Value.get state f).isNil then .ok (f, Value.get spec f)
      else if (Value.get spec f).isNil then .ok (f, Value.get state f)
      else do return (f, ← mergeField services state spec path managedFields within f c) := by
  rw [mergeProperty, mergePropertyWith, regular.reference, plain, ok_bind,
    if_neg Bool.false_ne_true]
  rfl

theorem singleReference_fst (present : (singleReference state spec key).2 ≠ .null) :
    (singleReference state spec key).1 = key := by
  rw [singleReference] at present ⊢
  split at present
  · rfl
  split at present
  · exact absurd rfl present
  · rename_i nonNil
    simp [nonNil]

theorem mem_parentsIn {tc : TypeConfig} :
    tc ∈ parentsIn services c config ↔
      tc ∈ parentTypes services c ∧ Value.get config tc.key ≠ .null := by
  rw [parentsIn, mem_filter, not_eq_true', eq_false_iff, ne_eq, isNil_iff]

theorem parentEntry_mem
    (same : parentEntry services c state spec = (key, val)) (present : val ≠ .null) :
    key ∈ (parentTypes services c).map (·.key) := by
  have known : ∀ config tc rest, parentsIn services c config = tc :: rest →
      tc.key ∈ (parentTypes services c).map (·.key) := by
    intro config tc rest inConfig
    have member : tc ∈ parentsIn services c config := by
      rw [inConfig]
      exact .head _
    exact mem_map.mpr ⟨tc, (mem_filter.mp member).1, rfl⟩
  rw [parentEntry] at same
  cases inSpec : parentsIn services c spec with
  | cons tc rest =>
    rw [inSpec] at same
    cases same
    exact known spec tc rest inSpec
  | nil =>
    cases inState : parentsIn services c state with
    | cons tc rest =>
      rw [inSpec, inState] at same
      cases same
      exact known state tc rest inState
    | nil =>
      rw [inSpec, inState] at same
      cases same
      exact absurd rfl present

/-- What a property gives is under one of its keys. -/
theorem mergeProperty_key (regular : Regular c)
    (given : mergeProperty services state spec path managedFields within (f, c) = .ok (key, val))
    (present : val ≠ .null) : key ∈ mergeKeys services path.isEmpty f c := by
  rw [mergeKeys]
  cases refers : isReference c with
  | true =>
    rw [mergeProperty_reference regular refers] at given
    rw [if_pos rfl]
    split
    · rename_i parent
      rw [if_pos parent, mergeParent_iff] at given
      exact parentEntry_mem given.2.2.2.symm present
    rename_i single
    rw [if_neg single, Except.ok.injEq] at given
    have name := singleReference_fst (by rw [given]; exact present)
    rw [given] at name
    exact mem_singleton.mpr name
  | false =>
    rw [mergeProperty_plain regular refers] at given
    rw [if_neg Bool.false_ne_true, mem_singleton]
    split at given
    · exact (congrArg Prod.fst (Except.ok.inj given)).symm
    split at given
    · exact (congrArg Prod.fst (Except.ok.inj given)).symm
    · obtain ⟨both, -, same⟩ := bind_eq_ok.mp given
      exact (congrArg Prod.fst (Except.ok.inj same)).symm

theorem mergeSpecWithLiteState_iff :
    mergeSpecWithLiteState services state spec path managedFields s = .ok merged ↔
      ∃ entries, s.properties.mapM
          (mergeProperty services state spec path managedFields s.type) = .ok entries ∧
        merged = collect entries := by
  obtain ⟨type, readOnly, extension, properties, additionalProperties, items⟩ := s
  rw [mergeSpecWithLiteState, mergeProperties_eq, bind_eq_ok]
  constructor
  · intro ⟨entries, done, same⟩
    exact ⟨entries, done, (Except.ok.inj same).symm⟩
  · intro ⟨entries, done, same⟩
    exact ⟨entries, done, by rw [same]; rfl⟩

variable {entries : Fields} (lawful : Lawful services path.isEmpty s)
  (done : s.properties.mapM (mergeProperty services state spec path managedFields s.type) =
    .ok entries)

include lawful done

theorem get_merged_iff (key : String) (present : val ≠ .null) :
    Value.get (collect entries) key = val ↔ ∃ entry ∈ s.properties,
      mergeProperty services state spec path managedFields s.type entry = .ok (key, val) :=
  get_collect_iff done lawful.parts.1
    (fun _ member _ _ given present =>
      mergeProperty_key (lawful.property member).regular given present) key present

theorem get_merged (member : entry ∈ s.properties) {k : String}
    (given : mergeProperty services state spec path managedFields s.type entry = .ok (k, val))
    (ofEntry : key ∈ mergeKeys services path.isEmpty entry.1 entry.2) :
    Value.get (collect entries) key = if key = k then val else .null :=
  get_collect_key done lawful.parts.1
    (fun _ member _ _ given present =>
      mergeProperty_key (lawful.property member).regular given present) member given ofEntry

omit lawful in
theorem given_of_mem (member : entry ∈ s.properties) :
    ∃ k val, mergeProperty services state spec path managedFields s.type entry = .ok (k, val) := by
  obtain ⟨⟨k, val⟩, given⟩ := ok_of_mapM done member
  exact ⟨k, val, given⟩

end Level

section Merged

variable {s c : Schema} {f key : String} (lawful : Lawful services path.isEmpty s)
  (done : mergeSpecWithLiteState services state spec path managedFields s = .ok merged)

include lawful done

theorem merged_unnamed (other : key ∉ allMergeKeys services path.isEmpty s.properties) :
    Value.get merged key = .null := by
  obtain ⟨entries, given, rfl⟩ := mergeSpecWithLiteState_iff.mp done
  by_contra present
  obtain ⟨entry, member, here⟩ := (get_merged_iff lawful given key present).mp rfl
  apply other
  rw [allMergeKeys, mem_flatMap]
  exact ⟨entry, member, mergeProperty_key (lawful.property member).regular here present⟩

/-- A field that one side does not have is taken from the other. -/
theorem merged_plain (member : (f, c) ∈ s.properties) (plain : isReference c = false) :
    Value.get state f = .null ∧ Value.get merged f = Value.get spec f ∨
    Value.get spec f = .null ∧ Value.get merged f = Value.get state f ∨
    Value.get state f ≠ .null ∧ Value.get spec f ≠ .null ∧
      mergeField services state spec path managedFields s.type f c =
        .ok (Value.get merged f) := by
  obtain ⟨entries, given, rfl⟩ := mergeSpecWithLiteState_iff.mp done
  have regular := (lawful.property member).regular
  have ofField : f ∈ mergeKeys services path.isEmpty f c := by simp [mergeKeys, plain]
  obtain ⟨k, val, here⟩ := given_of_mem given member
  have held := get_merged lawful given member here ofField
  rw [mergeProperty_plain regular plain] at here
  by_cases inState : Value.get state f = .null
  · rw [inState, Value.isNil, if_pos rfl] at here
    cases here
    exact .inl ⟨inState, by rw [held, if_pos rfl]⟩
  rw [if_neg (mt (isNil_iff _).mp inState)] at here
  by_cases inSpec : Value.get spec f = .null
  · rw [inSpec, Value.isNil, if_pos rfl] at here
    cases here
    exact .inr (.inl ⟨inSpec, by rw [held, if_pos rfl]⟩)
  rw [if_neg (mt (isNil_iff _).mp inSpec)] at here
  obtain ⟨both, inside, same⟩ := bind_eq_ok.mp here
  cases same
  rw [held, if_pos rfl]
  exact .inr (.inr ⟨inState, inSpec, inside⟩)

/-- A reference that the spec has is kept; otherwise it is the state's, or there is none. -/
theorem merged_reference (member : (f, c) ∈ s.properties) (refers : isReference c)
    (ofField : key ∈ mergeKeys services path.isEmpty f c) :
    Value.get merged key = Value.get spec key ∨ Value.get spec key = .null ∧
      (Value.get merged key = Value.get state key ∨ Value.get merged key = .null) := by
  obtain ⟨entries, given, rfl⟩ := mergeSpecWithLiteState_iff.mp done
  have regular := (lawful.property member).regular
  obtain ⟨k, val, here⟩ := given_of_mem given member
  have held := get_merged lawful given member here ofField
  rw [mergeProperty_reference regular refers] at here
  by_cases parent : (path.isEmpty && f == "parent") = true
  · rw [if_pos parent, mergeParent_iff] at here
    obtain ⟨-, one, -, entry⟩ := here
    rw [mergeKeys, if_pos refers, if_pos parent] at ofField
    obtain ⟨tc, isType, rfl⟩ := mem_map.mp ofField
    rw [parentEntry] at entry
    cases inSpec : parentsIn services c spec with
    | cons first rest =>
      rw [inSpec] at entry one
      cases entry
      by_cases same : tc.key = first.key
      · exact .inl (by rw [held, if_pos same, same])
      refine .inr ⟨?_, .inr (by rw [held, if_neg same])⟩
      by_contra present
      have found := mem_parentsIn.mpr ⟨isType, present⟩
      rw [inSpec, length_eq_zero_iff.mp (Nat.le_zero.mp (Nat.le_of_succ_le_succ one)),
        mem_singleton] at found
      exact same (by rw [found])
    | nil =>
      have absent : Value.get spec tc.key = .null := by
        by_contra present
        have found := mem_parentsIn.mpr ⟨isType, present⟩
        rw [inSpec] at found
        cases found
      refine .inr ⟨absent, ?_⟩
      cases inState : parentsIn services c state with
      | nil =>
        rw [inSpec, inState] at entry
        cases entry
        exact .inr (by rw [held, ite_self])
      | cons first rest =>
        rw [inSpec, inState] at entry
        cases entry
        by_cases same : tc.key = first.key
        · exact .inl (by rw [held, if_pos same, same])
        · exact .inr (by rw [held, if_neg same])
  · rw [if_neg parent, Except.ok.injEq, singleReference] at here
    rw [mergeKeys, if_pos refers, if_neg parent, mem_singleton] at ofField
    subst ofField
    cases inSpec : spec.lookup (referenceKey f c) with
    | some specVal =>
      rw [inSpec] at here
      cases here
      exact .inl (by rw [held, if_pos rfl, Value.get, inSpec]; rfl)
    | none =>
      refine .inr ⟨by rw [Value.get, inSpec]; rfl, ?_⟩
      rw [inSpec] at here
      by_cases nil : (Value.get state (referenceKey f c)).isNil = true
      · simp only [nil, ↓reduceIte] at here
        cases here
        exact .inr (by rw [held, ite_self])
      simp only [nil] at here
      cases here
      exact .inl (by rw [held, if_pos rfl])

end Merged

end ConfigConnector.Dcl
