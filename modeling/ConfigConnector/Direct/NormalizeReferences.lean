import ConfigConnector.Lib.Rose

/- The walk of common/visitfields.go through an object, with which common/refs.go normalizes the
references in it. Interfaces and skipped paths are left out. -/
namespace ConfigConnector.Direct

open List

/-- `reflect.Kind`. -/
inductive Kind where
  | bool | int | int8 | int16 | int32 | int64 | uint | uint8 | uint16 | uint32 | uint64 | uintptr
  | float32 | float64 | complex64 | complex128 | array | chan | func | interface | map | ptr | slice
  | string | struct | unsafePointer
  deriving DecidableEq, Repr

/-- What a value is, apart from its parts: fields, elements, or what it points to. A reference
type is a struct with fields that are strings, and its `Normalize` has a pointer receiver. -/
inductive ObjectTag (ρ : Type) where
  | leaf (kind : Kind)
  | reference (content : ρ)
  | struct
  | nil
  | pointer
  | slice (elem : Kind)
  | map

abbrev GoObject (ρ : Type) := Rose (ObjectTag ρ)

/-- How `visitAny` comes to a value: not at all; by a value that cannot be addressed; by one that
can; by a pointer to it, which is visited before it; or by an element of a slice of pointers,
which is not visited itself. -/
inductive Access where
  | none
  | value
  | addressable
  | pointed
  | element
  deriving DecidableEq, Repr

/-- How often `VisitField` is called with a pointer to the value. -/
def Access.calls : Access → Nat
  | .none | .value | .element => 0
  | .addressable => 1
  | .pointed => 2

/-- How the walk goes on to the parts of a value. An entry of a map cannot be addressed. -/
def ObjectTag.access {ρ : Type} : Access → ObjectTag ρ → Access
  | .none, _ => .none
  | .value, .struct => .value
  | _, .struct => .addressable
  | .element, .pointer => .addressable
  | _, .pointer => .pointed
  | _, .slice .struct => .pointed
  | _, .slice .ptr => .element
  | _, .slice .string => .addressable
  | _, .map => .value
  | _, _ => .none

/-- An error of the walk itself. -/
inductive VisitError where
  /-- "visiting slice of type %v is not supported". -/
  | sliceNotSupported (elem : Kind)
  /-- "visiting type %v is not supported". -/
  | typeNotSupported (kind : Kind)

section Walk

variable {ρ ε : Type}

def ObjectTag.errors : Access → ObjectTag ρ → List VisitError
  | .none, _ => []
  | _, .leaf kind =>
    if kind ∈ [.string, .bool, .int, .int32, .int64, .uint32, .uint64, .float32, .float64] then []
    else [.typeNotSupported kind]
  | _, .slice elem =>
    if elem ∈ [.struct, .ptr, .string, .uint8, .int, .int8, .int16, .int32, .int64, .uint, .uint16,
      .uint32, .uint64, .float32, .float64, .bool] then []
    else [.sliceNotSupported elem]
  | _, _ => []

variable (normalize : ρ → Except ε ρ)

/-- `Normalize` is called some times on a reference. -/
def normalizeTimes : Nat → ρ → ρ × List (VisitError ⊕ ε)
  | 0, content => (content, [])
  | n + 1, content =>
    match normalize content with
    | .ok normalized => normalizeTimes n normalized
    | .error err =>
      let (content, errs) := normalizeTimes n content
      (content, .inr err :: errs)

mutual

/-- `visitAny` with a `refNormalizer`: the object it leaves, and the errors. -/
def visitAny (access : Access) : GoObject ρ → GoObject ρ × List (VisitError ⊕ ε)
  | .node (.reference content) parts =>
    let (content, errs) := normalizeTimes normalize access.calls content
    (.node (.reference content) parts, errs)
  | .node tag parts =>
    let (parts, errs) := visitParts (tag.access access) parts
    (.node tag parts, (tag.errors access).map .inl ++ errs)

def visitParts (access : Access) : List (GoObject ρ) → List (GoObject ρ) × List (VisitError ⊕ ε)
  | [] => ([], [])
  | part :: rest =>
    let (part, errs) := visitAny access part
    let (rest, others) := visitParts access rest
    (part :: rest, errs ++ others)

end

/-- `NormalizeReferences`, given a pointer to the object. -/
def normalizeReferences (obj : GoObject ρ) : GoObject ρ × List (VisitError ⊕ ε) :=
  visitAny normalize .pointed obj

mutual

/-- The references in a value, with the number of calls that each of them gets. -/
def references (access : Access) : GoObject ρ → List (ρ × Nat)
  | .node (.reference content) _ => [(content, access.calls)]
  | .node tag parts => referencesIn (tag.access access) parts

def referencesIn (access : Access) : List (GoObject ρ) → List (ρ × Nat)
  | [] => []
  | part :: rest => references access part ++ referencesIn access rest

end

mutual

/-- The kinds that the walk meets are supported. -/
def Supported (access : Access) : GoObject ρ → Prop
  | .node (.reference _) _ => True
  | .node tag parts =>
    tag.errors access = [] ∧ SupportedIn (tag.access access) parts

def SupportedIn (access : Access) : List (GoObject ρ) → Prop
  | [] => True
  | part :: rest => Supported access part ∧ SupportedIn access rest

end

/-- The references before and after a visit, and the errors. -/
structure Visited (before after : List (ρ × Nat))
    (errs : List (VisitError ⊕ ε)) (supported : Prop) : Prop where
  refs : after = before.map fun r => ((normalizeTimes normalize r.2 r.1).1, r.2)
  errs : errs = [] ↔ supported ∧ ∀ r ∈ before, (normalizeTimes normalize r.2 r.1).2 = []

mutual

theorem visitAny_visited (access : Access) : ∀ v : GoObject ρ,
    Visited normalize (references access v) (references access (visitAny normalize access v).1)
      (visitAny normalize access v).2 (Supported access v)
  | .node tag parts => by
    have inside := visitParts_visited (tag.access access) parts
    cases tag
    case reference content => exact ⟨rfl, by simp [visitAny, references, Supported]⟩
    all_goals
      refine ⟨inside.refs, ?_⟩
      simp only [visitAny, references, Supported, append_eq_nil_iff, map_eq_nil_iff,
        inside.errs, and_assoc]

theorem visitParts_visited (access : Access) :
    ∀ parts : List (GoObject ρ), Visited normalize (referencesIn access parts)
      (referencesIn access (visitParts normalize access parts).1)
      (visitParts normalize access parts).2 (SupportedIn access parts)
  | [] => ⟨rfl, by simp [visitParts, referencesIn, SupportedIn]⟩
  | part :: rest => by
    have here := visitAny_visited access part
    have there := visitParts_visited access rest
    constructor
    · simp only [visitParts, referencesIn, here.refs, there.refs, map_append]
    · simp only [visitParts, referencesIn, SupportedIn, append_eq_nil_iff, here.errs,
        there.errs, forall_mem_append]
      exact and_and_and_comm

end

def Idempotent : Prop :=
  ∀ content normalized, normalize content = .ok normalized → normalize normalized = .ok normalized

variable {normalize} {content : ρ}

section Again

theorem normalizeTimes_fixed (fixed : normalize content = .ok content) (n : Nat) :
    normalizeTimes normalize n content = (content, []) := by
  induction n with
  | zero => rfl
  | succ n ih => simp only [normalizeTimes, fixed, ih]

theorem normalizeTimes_failing {err : ε} (fails : normalize content = .error err) (n : Nat) :
    (normalizeTimes normalize n content).1 = content := by
  induction n with
  | zero => rfl
  | succ n ih => simp only [normalizeTimes, fails, ih]

theorem normalizeTimes_again (idem : Idempotent normalize) (n : Nat) (content : ρ) :
    (normalizeTimes normalize n (normalizeTimes normalize n content).1).1 =
      (normalizeTimes normalize n content).1 := by
  cases n with
  | zero => rfl
  | succ n =>
    cases result : normalize content with
    | error err => rw [normalizeTimes_failing result, normalizeTimes_failing result]
    | ok normalized =>
      have fixed := idem content normalized result
      simp only [normalizeTimes, result, normalizeTimes_fixed fixed, fixed]

mutual

theorem visitAny_again (idem : Idempotent normalize) (access : Access) : ∀ v : GoObject ρ,
    (visitAny normalize access (visitAny normalize access v).1).1 =
      (visitAny normalize access v).1
  | .node tag parts => by
    have inside := visitParts_again idem (tag.access access) parts
    cases tag
    case reference content => simp only [visitAny, normalizeTimes_again idem]
    all_goals simp only [visitAny, inside]

theorem visitParts_again (idem : Idempotent normalize) (access : Access) :
    ∀ parts : List (GoObject ρ),
      (visitParts normalize access (visitParts normalize access parts).1).1 =
        (visitParts normalize access parts).1
  | [] => rfl
  | part :: rest => by
    simp only [visitParts, visitAny_again idem access part, visitParts_again idem access rest]

end

end Again

/-- The references in the object. -/
def contents (obj : GoObject ρ) : List ρ :=
  (references .pointed obj).map (·.1)

/-- What the object's references become. The effect of `Normalize` is kept if a reference holds what
one or more calls make of it. -/
structure Normalizes (normalize : ρ → Except ε ρ) (obj : GoObject ρ) : Prop where
  kept : (normalizeReferences normalize obj).2 = [] →
    List.Forall₂ (Relation.TransGen fun content normalized => normalize content = .ok normalized)
      (contents obj) (contents (normalizeReferences normalize obj).1)
  failure : ∀ content ∈ contents obj, (∃ err, normalize content = .error err) →
    (normalizeReferences normalize obj).2 ≠ []
  again : Idempotent normalize →
    (normalizeReferences normalize (normalizeReferences normalize obj).1).1 =
      (normalizeReferences normalize obj).1

theorem normalizeTimes_reaches {n : Nat} (called : n ≠ 0)
    (clean : (normalizeTimes normalize n content).2 = []) :
    Relation.TransGen (fun content normalized => normalize content = .ok normalized) content
      (normalizeTimes normalize n content).1 := by
  induction n generalizing content with
  | zero => exact absurd rfl called
  | succ n ih =>
    cases result : normalize content with
    | error err => simp [normalizeTimes, result] at clean
    | ok normalized =>
      simp only [normalizeTimes, result] at clean ⊢
      by_cases last : n = 0
      · subst last
        exact .single result
      · exact .head result (ih last clean)

section Shape

def ObjectTag.kind : ObjectTag ρ → Kind
  | .leaf kind => kind
  | .reference _ | .struct => .struct
  | .nil | .pointer => .ptr
  | .slice _ => .slice
  | .map => .map

/-- The parts that a value of a Go type can have. -/
def ObjectTag.Fits : ObjectTag ρ → List (GoObject ρ) → Prop
  | .leaf kind, parts => kind ∉ [.struct, .ptr, .slice, .map] ∧ parts = []
  | .reference _, parts | .nil, parts => parts = []
  | .slice elem, parts => ∀ part ∈ parts, part.tag.kind = elem
  | .struct, _ | .pointer, _ | .map, _ => True

inductive WellTyped : GoObject ρ → Prop where
  | node {tag : ObjectTag ρ} {parts : List (GoObject ρ)} (fits : tag.Fits parts)
      (below : ∀ part ∈ parts, WellTyped part) : WellTyped (.node tag parts)

variable {tag : ObjectTag ρ} {parts : List (GoObject ρ)} {access : Access}

theorem wellTyped_iff :
    WellTyped (.node tag parts) ↔ tag.Fits parts ∧ ∀ part ∈ parts, WellTyped part :=
  ⟨fun ⟨fits, below⟩ => ⟨fits, below⟩, fun typed => .node typed.1 typed.2⟩

/-- A reference is in the value itself, or in fields of fields of it. -/
inductive HoldsRef : GoObject ρ → Prop where
  | reference (content : ρ) (parts : List (GoObject ρ)) :
      HoldsRef (.node (.reference content) parts)
  | field {part : GoObject ρ} {parts : List (GoObject ρ)} (member : part ∈ parts)
      (held : HoldsRef part) : HoldsRef (.node .struct parts)

/-- Somewhere in the object an entry of a map holds a reference, with no pointer and no slice in
between. -/
inductive HeldInMap : GoObject ρ → Prop where
  | entry {part : GoObject ρ} {parts : List (GoObject ρ)} (member : part ∈ parts)
      (held : HoldsRef part) : HeldInMap (.node .map parts)
  | deeper (tag : ObjectTag ρ) {part : GoObject ρ} {parts : List (GoObject ρ)}
      (member : part ∈ parts) (held : HeldInMap part) : HeldInMap (.node tag parts)

theorem heldInMap_iff :
    HeldInMap (.node tag parts) ↔
      (tag = .map ∧ ∃ part ∈ parts, HoldsRef part) ∨ ∃ part ∈ parts, HeldInMap part := by
  constructor
  · rintro (⟨member, held⟩ | ⟨_, member, held⟩)
    · exact .inl ⟨rfl, _, member, held⟩
    · exact .inr ⟨_, member, held⟩
  · rintro (⟨rfl, part, member, held⟩ | ⟨part, member, held⟩)
    · exact .entry member held
    · exact .deeper tag member held

theorem holds_iff :
    HoldsRef (.node tag parts) ↔
      (∃ content, tag = .reference content) ∨ tag = .struct ∧ ∃ part ∈ parts, HoldsRef part := by
  constructor
  · rintro (⟨content, _⟩ | ⟨member, held⟩)
    · exact .inl ⟨content, rfl⟩
    · exact .inr ⟨rfl, _, member, held⟩
  · rintro (⟨content, rfl⟩ | ⟨rfl, part, member, held⟩)
    · exact .reference content parts
    · exact .field member held

theorem mem_referencesIn {r : ρ × Nat} :
    r ∈ referencesIn access parts ↔ ∃ part ∈ parts, r ∈ references access part := by
  induction parts with
  | nil => simp [referencesIn]
  | cons part rest ih => simp [referencesIn, ih]

theorem supportedIn_iff :
    SupportedIn access parts ↔ ∀ part ∈ parts, Supported access part := by
  induction parts with
  | nil => simp [SupportedIn]
  | cons part rest ih => simp [SupportedIn, ih]

/-- The walk misses references in a value, of those that it comes to in this way, just where they
are held in maps, or in the value itself and this cannot be addressed. -/
def MissesMaps (access : Access) (v : GoObject ρ) : Prop :=
  (∃ r ∈ references access v, r.2 = 0) ↔ (access = .value ∧ HoldsRef v) ∨ HeldInMap v

theorem missed_in
    (each : ∀ part ∈ parts, MissesMaps access part) :
    (∃ r ∈ referencesIn access parts, r.2 = 0) ↔
      (access = .value ∧ ∃ part ∈ parts, HoldsRef part) ∨ ∃ part ∈ parts, HeldInMap part := by
  have spread : (∃ r ∈ referencesIn access parts, r.2 = 0) ↔
      ∃ part ∈ parts, ∃ r ∈ references access part, r.2 = 0 := by
    simp only [mem_referencesIn]
    exact ⟨fun ⟨r, ⟨part, member, found⟩, missed⟩ => ⟨part, member, r, found, missed⟩,
      fun ⟨part, member, r, found, missed⟩ => ⟨r, ⟨part, member, found⟩, missed⟩⟩
  rw [spread]
  constructor
  · rintro ⟨part, member, missed⟩
    rcases (each part member).mp missed with ⟨value, held⟩ | held
    · exact .inl ⟨value, part, member, held⟩
    · exact .inr ⟨part, member, held⟩
  · rintro (⟨value, part, member, held⟩ | ⟨part, member, held⟩)
    · exact ⟨part, member, (each part member).mpr (.inl ⟨value, held⟩)⟩
    · exact ⟨part, member, (each part member).mpr (.inr held)⟩

/-- A value of a plain kind has nothing in it. -/
theorem WellTyped.plain {v : GoObject ρ} (typed : WellTyped v)
    (plain : v.tag.kind ∉ [.struct, .ptr, .slice, .map]) (access : Access) :
    MissesMaps access v := by
  cases typed with
  | @node tag parts fits below =>
    cases tag with
    | leaf kind =>
      obtain ⟨-, rfl⟩ := fits
      simp [MissesMaps, references, referencesIn, holds_iff, heldInMap_iff]
    | _ => simp [Rose.tag, ObjectTag.kind] at plain

/-- The parts of a value are missed as it says itself, if only from a map the walk goes on by
value, and from a struct as it came to it. -/
theorem MissesMaps.node {next : Access}
    (walk : references access (.node tag parts) = referencesIn next parts)
    (other : ∀ content, tag ≠ .reference content)
    (value : next = .value ↔ tag = .map ∨ access = .value ∧ tag = .struct)
    (each : ∀ part ∈ parts, MissesMaps next part) : MissesMaps access (.node tag parts) := by
  rw [MissesMaps, walk, missed_in each, heldInMap_iff, holds_iff, value]
  simp only [other, exists_false, false_or]
  grind

theorem slice_access_ne (access : Access) (elem : Kind) :
    (ObjectTag.slice elem : ObjectTag ρ).access access ≠ .value := by
  cases access <;> cases elem <;> simp [ObjectTag.access]

theorem missesMaps {v : GoObject ρ} (typed : WellTyped v) : ∀ {access : Access},
    access ≠ .none → (access = .element → v.tag.kind = .ptr) → Supported access v →
      MissesMaps access v := by
  induction typed with
  | @node tag parts fits below ih =>
    intro access visited element supported
    cases tag with
    | leaf kind => exact WellTyped.plain (.node fits below) fits.1 access
    | reference content =>
      subst fits
      cases access with
      | none => exact absurd rfl visited
      | element => cases element rfl
      | _ => simp [MissesMaps, references, Access.calls, holds_iff, heldInMap_iff]
    | nil =>
      subst fits
      simp [MissesMaps, references, referencesIn, holds_iff, heldInMap_iff]
    | struct | map =>
      have inside := supportedIn_iff.mp supported.2
      cases access with
      | none => exact absurd rfl visited
      | element => cases element rfl
      | _ =>
        exact .node rfl (by simp) (by simp [ObjectTag.access]) fun part member =>
          ih part member (by simp [ObjectTag.access]) (by simp [ObjectTag.access])
            (inside part member)
    | pointer =>
      have inside := supportedIn_iff.mp supported.2
      cases access with
      | none => exact absurd rfl visited
      | _ =>
        exact .node rfl (by simp) (by simp [ObjectTag.access]) fun part member =>
          ih part member (by simp [ObjectTag.access]) (by simp [ObjectTag.access])
            (inside part member)
    | slice elem =>
      have inside := supportedIn_iff.mp supported.2
      refine .node rfl (by simp) (by simp [slice_access_ne]) fun part member => ?_
      by_cases walked : elem ∈ [.struct, .ptr, .slice, .map]
      · simp only [mem_cons, not_mem_nil, or_false] at walked
        rcases walked with rfl | rfl | rfl | rfl
        · exact ih part member (by cases access <;> simp_all [ObjectTag.access])
            (by cases access <;> simp [ObjectTag.access]) (inside part member)
        · exact ih part member (by cases access <;> simp_all [ObjectTag.access])
            (fun _ => fits part member) (inside part member)
        · cases access <;> simp_all [Supported, ObjectTag.errors]
        · cases access <;> simp_all [Supported, ObjectTag.errors]
      · exact (below part member).plain (fits part member ▸ walked) _

end Shape

variable [Nontrivial ρ]

/-- The references are normalized, whatever `Normalize` does, if and only if the walk finds a kind
that it does not support, or no entry of a map holds a reference without a pointer or a slice in
between. -/
theorem normalizes_iff (obj : GoObject ρ) (typed : WellTyped obj) :
    (∀ normalize : ρ → Except ε ρ, Normalizes normalize obj) ↔
      ¬ Supported .pointed obj ∨ ¬ HeldInMap obj := by
  have missed := @missesMaps ρ obj typed .pointed nofun nofun
  constructor
  · intro holds
    by_contra! held
    obtain ⟨supported, held⟩ := held
    obtain ⟨r, found, uncalled⟩ := (missed supported).mpr (.inr held)
    -- every reference becomes another than the missed one
    obtain ⟨other, differs⟩ := exists_ne r.1
    have visited := visitAny_visited (fun _ => .ok other : ρ → Except ε ρ) .pointed obj
    have clean : ∀ n content, (normalizeTimes (fun _ => .ok other : ρ → Except ε ρ) n content).2 =
        [] := by
      intro n
      induction n with
      | zero => exact fun _ => rfl
      | succ n ih => exact fun _ => ih other
    have kept := (holds _).kept (visited.errs.mpr ⟨supported, fun r _ => clean r.2 r.1⟩)
    rw [contents, contents, normalizeReferences, visited.refs, map_map,
      List.forall₂_map_left_iff, List.forall₂_map_right_iff, List.forall₂_same] at kept
    have reached := kept r found
    simp only [Function.comp, uncalled, normalizeTimes] at reached
    cases reached with
    | single last | tail _ last => exact differs (Except.ok.inj last)
  · intro condition normalize
    have called : Supported .pointed obj → ∀ r ∈ references .pointed obj, r.2 ≠ 0 := by
      intro supported r found uncalled
      rcases (missed supported).mp ⟨r, found, uncalled⟩ with ⟨value, -⟩ | held
      · cases value
      · exact condition.elim (· supported) (· held)
    have visited := visitAny_visited normalize .pointed obj
    refine ⟨fun clean => ?_, fun content found fails clean => ?_, fun idem =>
      visitAny_again idem .pointed obj⟩
    · obtain ⟨supported, each⟩ := visited.errs.mp clean
      rw [contents, contents, normalizeReferences, visited.refs, map_map,
        List.forall₂_map_left_iff, List.forall₂_map_right_iff, List.forall₂_same]
      exact fun r found => normalizeTimes_reaches (called supported r found) (each r found)
    · obtain ⟨supported, each⟩ := visited.errs.mp clean
      obtain ⟨⟨_, n⟩, at_n, rfl⟩ := mem_map.mp found
      obtain ⟨n, rfl⟩ := Nat.exists_eq_succ_of_ne_zero (called supported _ at_n)
      obtain ⟨err, fails⟩ := fails
      have none_failed := each _ at_n
      simp [normalizeTimes, fails] at none_failed

end Walk

/-- A struct with a map from names to what the tag says, which holds a reference. -/
def topicsByName (tag : ObjectTag String) : GoObject String :=
  .node .struct [.node .map [.node tag [.node (.reference "topic") []]]]

theorem normalizes_iff_pointers :
    references .pointed (topicsByName .pointer) = [("topic", 2)] ∧
      ∀ normalize : String → Except Unit String, Normalizes normalize (topicsByName .pointer) := by
  have : Nontrivial String := ⟨"", "topic", by decide⟩
  refine ⟨rfl, (normalizes_iff (topicsByName .pointer) ?_).mpr (.inr ?_)⟩
  · simp [topicsByName, wellTyped_iff, ObjectTag.Fits]
  · simp [topicsByName, heldInMap_iff, holds_iff]

theorem map_reference_missed :
    ¬ Normalizes (fun _ => .ok "projects/p/topics/topic" : String → Except Unit String)
      (topicsByName .struct) := by
  intro holds
  cases holds.kept rfl with
  | cons reached _ =>
    cases reached with
    | single last | tail _ last => exact absurd (Except.ok.inj last) (by decide)

end ConfigConnector.Direct
