import ConfigConnector.Lib.Protobuf

/- The comparison of two messages, field by field. -/
namespace ConfigConnector.Direct

open Proto List Option Nat

variable {σ : Type} [DecidableEq σ] (types : Types σ)

/-- The type of the sub-messages that are compared field by field; well-known types are compared as
a whole. -/
def shouldRecurse (f : Proto.Field σ) : Option String :=
  match f.kind, f.cardinality with
  | .message type, .singular =>
    if type = "google.protobuf.Timestamp" ∨ type = "google.protobuf.Duration" then none
    else some type
  | _, _ => none

/-- `BasicDiff`, for two messages of one type that hold these values in the field. -/
def basicDiff (f : Proto.Field σ) (a b : Value σ) : Except String Bool :=
  if f.is .outputOnly then .ok false
  else if (shouldRecurse f).isSome then .error ("field " ++ f.name ++ " not recursed")
  else if f.get types a = f.get types b then .ok false
  else if f.is .immutable then .error ("change to immutable field " ++ f.name)
  else .ok true

/-- What there is for two messages of a type. -/
abbrev OnMessages (σ γ : Type) := String → List (Value σ) → List (Value σ) → γ

/-- A path as the fields it leads through; the code joins their names with dots. -/
abbrev Path (σ : Type) := List (Proto.Field σ)

/-- The result of a comparison, behind the number of its calls; `none` where it has not returned. -/
abbrev Run (α : Type) := Option (Nat × Except String (List α))

/-- What is kept of a field that differs, and how it is taken into the enclosing message. -/
structure Report (σ α : Type) where
  leaf : Proto.Field σ → Value σ → Value σ → α
  below : Proto.Field σ → α → α

variable {α : Type} (report : Report σ α)
variable {a b : List (Value σ)} {n : Nat} {result : Except String (List (Path σ))}
  {type : String}

/-- The round of the loop for one field. -/
def compareField (recurse : OnMessages σ (Run α)) (f : Proto.Field σ)
    (a b : Value σ) : Run α :=
  match shouldRecurse f with
  | some type =>
    (recurse type (f.get types a).parts (f.get types b).parts).map fun (n, result) =>
      (n, result.map fun below => below.map (report.below f))
  | none =>
    some (0, (basicDiff types f a b).map fun diff =>
      if diff then [report.leaf f (f.get types a) (f.get types b)] else [])

def compareFields (recurse : OnMessages σ (Run α)) :
    List (Proto.Field σ) → List (Value σ) → List (Value σ) → Run α
  | [], _, _ => some (0, .ok [])
  | f :: fields, a, b =>
    match compareField types report recurse f (a.headD .unset) (b.headD .unset) with
    | none => none
    | some (n, .error err) => some (n, .error err)
    | some (n, .ok here) =>
      (compareFields recurse fields a.tail b.tail).map fun (m, result) =>
        (n + m, result.map (here ++ ·))

/-- The recursion that both comparisons share, with a bound on its depth. -/
def compareWith : Nat → OnMessages σ (Run α)
  | 0, _, _, _ => none
  | depth + 1, type, a, b =>
    (compareFields types report (compareWith depth) (types type) a b).map fun (n, result) =>
      (n + 1, result)

def paths : Report σ (Path σ) where
  leaf f _ _ := [f]
  below f path := f :: path

def compareProtoMessage := compareWith types (paths (σ := σ))

/-- An entry of `structuredreporting.Diff`. -/
structure DiffField (σ : Type) where
  id : Path σ
  old : Value σ
  new : Value σ

def compareProtoMessageStructuredDiff := compareWith types (α := DiffField σ)
  { leaf := fun f a b => ⟨[f], b, a⟩
    below := fun f d => { d with id := f :: d.id } }

section Loop

variable {recurse : OnMessages σ (Run α)} {fields : List (Proto.Field σ)}
  {f : Proto.Field σ} {n : Nat} {result : Except String (List α)}

theorem compareFields_cons
    (done : compareFields types report recurse (f :: fields) a b = some (n, result)) :
    ∃ m here, compareField types report recurse f (a.headD .unset) (b.headD .unset) =
        some (m, here) ∧
      ((∃ err, here = .error err ∧ result = .error err ∧ n = m) ∨
        ∃ entries k rest, here = .ok entries ∧ result = rest.map (entries ++ ·) ∧ n = m + k ∧
          compareFields types report recurse fields a.tail b.tail = some (k, rest)) := by
  rw [compareFields] at done
  split at done
  · cases done
  · rename_i m err first
    cases done
    exact ⟨_, _, first, .inl ⟨err, rfl, rfl, rfl⟩⟩
  · rename_i m entries first
    obtain ⟨⟨k, rest⟩, others, same⟩ := map_eq_some_iff.mp done
    cases same
    exact ⟨_, _, first, .inr ⟨entries, k, rest, rfl, rfl, rfl, others⟩⟩

end Loop

variable {fields : List (Proto.Field σ)}

section Termination

/-- The comparison of messages of the one type enters messages of the other. -/
def Enters (inner outer : String) : Prop := ∃ f ∈ types outer, shouldRecurse f = some inner

/-- Every chain of fields that are entered comes to an end. -/
inductive Grounded : OnMessages σ Prop where
  | intro {type : String} {a b : List (Value σ)}
      (each : ∀ f x y, At (types type) a b f x y → ∀ inner, shouldRecurse f = some inner →
        Grounded inner (f.get types x).parts (f.get types y).parts) : Grounded type a b

omit [DecidableEq σ] in
theorem grounded_of_acc (acc : Acc (Enters types) type) :
    ∀ a b, Grounded types type a b := by
  induction acc with
  | intro type _ ih =>
    refine fun a b => .intro ?_
    rintro f x y ⟨i, found, -⟩ inner enters
    exact ih inner ⟨f, mem_of_getElem? found, enters⟩ _ _

/-- The run returns, from some depth on. -/
def Settles (run : Nat → Run α) : Prop :=
  ∃ bound, ∀ depth ≥ bound, ∃ n result, run depth = some (n, result)

/-- The loop returns, if the calls that it makes do. -/
theorem compareFields_returns (inside : ∀ f x y, At fields a b f x y → ∀ inner,
    shouldRecurse f = some inner → Settles fun depth =>
      compareWith types report depth inner (f.get types x).parts (f.get types y).parts) :
    Settles fun depth =>
      compareFields types report (compareWith types report depth) fields a b := by
  induction fields generalizing a b with
  | nil => exact ⟨0, fun depth _ => ⟨0, .ok [], rfl⟩⟩
  | cons f fields ih =>
    obtain ⟨enter, later⟩ := forall_at_cons.mp inside
    have here : Settles fun depth => compareField types report (compareWith types report depth) f
        (a.headD .unset) (b.headD .unset) := by
      cases enters : shouldRecurse f with
      | none => exact ⟨0, fun depth _ => ⟨0, _, by dsimp only; rw [compareField, enters]⟩⟩
      | some inner =>
        obtain ⟨bound, returns⟩ := enter inner enters
        refine ⟨bound, fun depth deep => ?_⟩
        obtain ⟨n, result, run⟩ := returns depth deep
        dsimp only at run ⊢
        rw [compareField, enters]
        dsimp only
        rw [run]
        exact ⟨n, _, rfl⟩
    obtain ⟨first, returns⟩ := here
    obtain ⟨rest, others⟩ := ih later
    refine ⟨first + rest, fun depth deep => ?_⟩
    obtain ⟨n, result, run⟩ := returns depth (by omega)
    obtain ⟨m, results, runs⟩ := others depth (by omega)
    dsimp only at run runs ⊢
    rw [compareFields, run]
    cases result with
    | error err => exact ⟨n, _, rfl⟩
    | ok entries =>
      dsimp only
      rw [runs]
      exact ⟨n + m, _, rfl⟩

theorem compareWith_returns (grounded : Grounded types type a b) :
    Settles fun depth => compareWith types report depth type a b := by
  induction grounded with
  | intro _ ih =>
    obtain ⟨bound, returns⟩ := compareFields_returns types report ih
    refine ⟨bound + 1, fun depth deep => ?_⟩
    obtain ⟨depth, rfl⟩ : ∃ d, depth = d + 1 := ⟨depth - 1, by omega⟩
    obtain ⟨n, result, run⟩ := returns depth (by omega)
    dsimp only at run ⊢
    rw [compareWith, run]
    exact ⟨n + 1, result, rfl⟩

end Termination

section Size

mutual

/-- The messages in a value, itself included. -/
def messages : Value σ → Nat
  | .node (.message _) parts => messagesIn parts + 1
  | .node _ parts => messagesIn parts

def messagesIn : List (Value σ) → Nat
  | [] => 0
  | value :: rest => messages value + messagesIn rest

end

/-- Of every field that is entered at least one of the two has a sub-message, at all levels. -/
inductive Populated : OnMessages σ Prop where
  | intro {type : String} {a b : List (Value σ)}
      (there : ∀ f x y, At (types type) a b f x y → ∀ inner, shouldRecurse f = some inner →
        x.tag = .message inner ∨ y.tag = .message inner)
      (below : ∀ f x y, At (types type) a b f x y → ∀ inner, shouldRecurse f = some inner →
        Populated inner (f.get types x).parts (f.get types y).parts) : Populated type a b

omit [DecidableEq σ] in
theorem Populated.grounded (populated : Populated types type a b) : Grounded types type a b := by
  induction populated with
  | intro _ _ ih => exact .intro ih

omit [DecidableEq σ] in
theorem messagesIn_head_tail (values : List (Value σ)) :
    messagesIn values = messages (values.headD .unset) + messagesIn values.tail := by
  cases values <;> rfl

omit [DecidableEq σ] in
theorem messagesIn_unset (n : Nat) : messagesIn (replicate n (.unset : Value σ)) = 0 := by
  induction n with
  | zero => rfl
  | succ n ih => simp [replicate_succ, messagesIn, messages, ih]

omit [DecidableEq σ] in
theorem default_of_enters {f : Proto.Field σ} {inner : String}
    (enters : shouldRecurse f = some inner) : f.kind = .message inner ∧
      f.cardinality = .singular ∧
      f.default types = .message inner (replicate (types inner).length .unset) := by
  unfold shouldRecurse at enters
  split at enters
  · rename_i type kind single
    rw [Option.ite_none_left_eq_some] at enters
    cases enters.2
    exact ⟨kind, single, by rw [Proto.Field.default, kind, single]⟩
  · cases enters

omit [DecidableEq σ] in
/-- What is entered for a field is no more than what is there. -/
theorem messagesIn_get {f : Proto.Field σ} {inner : String} (enters : shouldRecurse f = some inner)
    (x : Value σ) : messagesIn (f.get types x).parts ≤ messages x ∧
      (x.tag = .message inner → messagesIn (f.get types x).parts + 1 = messages x) := by
  by_cases unset : x = .unset
  · subst unset
    have none : messagesIn (f.get types .unset).parts = 0 := by
      rw [show f.get types .unset = f.default types from rfl, (default_of_enters types enters).2.2]
      exact messagesIn_unset _
    rw [none]
    exact ⟨Nat.zero_le _, nofun⟩
  · rw [Field.get_of_ne unset]
    rcases x with ⟨tag, parts⟩
    cases tag <;> simp [Rose.parts, Rose.tag, messages]

theorem compareFields_calls {recurse : OnMessages σ (Run α)}
    {result : Except String (List α)}
    (few : ∀ f x y, At fields a b f x y → ∀ inner, shouldRecurse f = some inner → ∀ n result,
      recurse inner (f.get types x).parts (f.get types y).parts = some (n, result) →
        n ≤ messages x + messages y)
    (done : compareFields types report recurse fields a b = some (n, result)) :
    n ≤ messagesIn a + messagesIn b := by
  induction fields generalizing a b n result with
  | nil =>
    cases done
    exact Nat.zero_le _
  | cons f fields ih =>
    obtain ⟨m, here, first, others⟩ := compareFields_cons types report done
    obtain ⟨fewHere, fewLater⟩ := forall_at_cons.mp few
    have bounded : m ≤ messages (a.headD .unset) + messages (b.headD .unset) := by
      rw [compareField] at first
      cases enters : shouldRecurse f with
      | none =>
        rw [enters] at first
        cases first
        exact Nat.zero_le _
      | some inner =>
        rw [enters] at first
        obtain ⟨⟨m, below⟩, run, same⟩ := map_eq_some_iff.mp first
        cases same
        exact fewHere inner enters m below run
    rw [messagesIn_head_tail a, messagesIn_head_tail b]
    rcases others with ⟨err, -, -, rfl⟩ | ⟨entries, k, rest, -, -, rfl, run⟩
    · omega
    · have later := ih fewLater run
      omega

/-- Each call is for a sub-message that one of the two has. -/
theorem compareWith_calls {depth : Nat} {result : Except String (List α)}
    (populated : Populated types type a b)
    (done : compareWith types report depth type a b = some (n, result)) :
    n ≤ messagesIn a + messagesIn b + 1 := by
  induction depth generalizing type a b n result with
  | zero => cases done
  | succ depth ih =>
    obtain ⟨⟨m, outcome⟩, run, same⟩ := map_eq_some_iff.mp done
    cases same
    cases populated with
    | intro there below =>
      refine Nat.succ_le_succ (compareFields_calls types report ?_ run)
      intro f x y place inner enters n result run
      have few := ih (below f x y place inner enters) run
      have left := messagesIn_get types enters x
      have right := messagesIn_get types enters y
      rcases there f x y place inner enters with here | here
      · have exact := left.2 here
        omega
      · have exact := right.2 here
        omega

/-- The comparison returns, after no more calls than there are sub-messages of the two, and one. -/
def Returns (compare : Nat → OnMessages σ (Run α))
    (type : String) (a b : List (Value σ)) : Prop :=
  ∃ depth n result, compare depth type a b = some (n, result) ∧
    n ≤ messagesIn a + messagesIn b + 1

/-- A disk with parameters. -/
def disks : Types Int
  | "Disk" => [⟨"params", .message "Params", .singular, [], none⟩]
  | "Params" => [⟨"size", .scalar 0, .singular, [], none⟩]
  | _ => []

/-- A list whose elements point to the next one. -/
def linkedList : Types Int := fun _ => [⟨"next", .message "Element", .singular, [], none⟩]

end Size

section Exactness

mutual

/-- A value without its output-only fields, at any level. -/
def configurable : Value σ → Value σ
  | .node (.message type) parts => .message type (configurableFields (types type) parts)
  | .node tag parts => .node tag (configurableItems parts)

def configurableFields : List (Proto.Field σ) → List (Value σ) → List (Value σ)
  | f :: fields, value :: rest =>
    (if f.is .outputOnly then .unset else configurable value) :: configurableFields fields rest
  | _, values => values

def configurableItems : List (Value σ) → List (Value σ)
  | [] => []
  | value :: rest => configurable value :: configurableItems rest

end

/-- A field marked immutable differs, also in whether it is set. -/
inductive ImmutableDiffers : OnMessages σ Prop where
  | here {type a b f x y} (place : At (types type) a b f x y) (marked : f.is .immutable = true)
      (differ : x ≠ y) : ImmutableDiffers type a b
  | deeper {type a b f x y inner} (place : At (types type) a b f x y)
      (message : f.kind = .message inner) (single : f.cardinality = .singular)
      (differ : ImmutableDiffers inner (f.get types x).parts (f.get types y).parts) :
      ImmutableDiffers type a b

/-- What the comparison reports of one field: the path and its last field. -/
def ReportedIn (inside : OnMessages σ (Path σ → Proto.Field σ → Prop))
    (f : Proto.Field σ) (x y : Value σ) (path : Path σ) (last : Proto.Field σ) : Prop :=
  match shouldRecurse f with
  | some type =>
    ∃ below, path = f :: below ∧ inside type (f.get types x).parts (f.get types y).parts below last
  | none => path = [f] ∧ last = f ∧ f.is .outputOnly = false ∧ f.get types x ≠ f.get types y

/-- A field is read differently of the two messages, at the end of a path of entered fields. -/
inductive ReportedAt : OnMessages σ (Path σ → Proto.Field σ → Prop) where
  | leaf {type a b f x y} (place : At (types type) a b f x y) (whole : shouldRecurse f = none)
      (kept : f.is .outputOnly = false) (differ : f.get types x ≠ f.get types y) :
      ReportedAt type a b [f] f
  | deeper {type a b f x y inner path last} (place : At (types type) a b f x y)
      (enters : shouldRecurse f = some inner)
      (reported : ReportedAt inner (f.get types x).parts (f.get types y).parts path last) :
      ReportedAt type a b (f :: path) last

omit [DecidableEq σ] in
theorem reportedAt_iff {path : Path σ}
    {last : Proto.Field σ} : ReportedAt types type a b path last ↔
      ∃ f x y, At (types type) a b f x y ∧ ReportedIn types (ReportedAt types) f x y path last := by
  constructor
  · rintro (⟨place, whole, kept, differ⟩ | ⟨place, enters, reported⟩)
    · exact ⟨_, _, _, place, by rw [ReportedIn, whole]; exact ⟨rfl, rfl, kept, differ⟩⟩
    · exact ⟨_, _, _, place, by rw [ReportedIn, enters]; exact ⟨_, rfl, reported⟩⟩
  · rintro ⟨f, x, y, place, reported⟩
    rw [ReportedIn] at reported
    split at reported
    · obtain ⟨below, rfl, reported⟩ := reported
      exact .deeper place ‹_› reported
    · obtain ⟨rfl, rfl, kept, differ⟩ := reported
      exact .leaf place ‹_› kept differ

/-- The result has these paths, and it is an error if one of them ends at an immutable field. -/
def Gives (reported : Path σ → Proto.Field σ → Prop) :
    Except String (List (Path σ)) → Prop
  | .error _ => ∃ path last, reported path last ∧ last.is .immutable = true
  | .ok paths => (∀ path, path ∈ paths ↔ ∃ last, reported path last) ∧
      ∀ path last, reported path last → last.is .immutable = false

omit [DecidableEq σ] in
theorem Gives.append {first second : Path σ → Proto.Field σ → Prop}
    {here : List (Path σ)} {rest : Except String (List (Path σ))}
    (ofHere : Gives first (.ok here)) (ofRest : Gives second rest) :
    Gives (fun path last => first path last ∨ second path last) (rest.map (here ++ ·)) := by
  cases rest with
  | error err =>
    obtain ⟨path, last, reported, marked⟩ := ofRest
    exact ⟨path, last, .inr reported, marked⟩
  | ok paths =>
    refine ⟨fun path => ?_, fun path last => ?_⟩
    · rw [mem_append, ofHere.1, ofRest.1, exists_or]
    rintro (reported | reported)
    · exact ofHere.2 path last reported
    · exact ofRest.2 path last reported

variable {recurse : OnMessages σ (Run (Path σ))}
  {inside : OnMessages σ (Path σ → Proto.Field σ → Prop)}

section

variable
  (spec : ∀ type a b n result, recurse type a b = some (n, result) → Gives (inside type a b) result)
include spec

theorem compareField_gives {f : Proto.Field σ} {x y : Value σ}
    (done : compareField types paths recurse f x y = some (n, result)) :
    Gives (ReportedIn types inside f x y) result := by
  rw [compareField] at done
  unfold ReportedIn
  cases enters : shouldRecurse f with
  | some type =>
    rw [enters] at done
    obtain ⟨⟨m, below⟩, run, same⟩ := map_eq_some_iff.mp done
    cases same
    have given := spec _ _ _ _ _ run
    cases below with
    | error err =>
      obtain ⟨path, last, reported, marked⟩ := given
      exact ⟨_, last, ⟨path, rfl, reported⟩, marked⟩
    | ok found =>
      refine ⟨fun path => ?_, ?_⟩
      · simp only [List.mem_map, given.1, paths]
        constructor
        · rintro ⟨below, ⟨last, reported⟩, rfl⟩
          exact ⟨last, below, rfl, reported⟩
        · rintro ⟨last, below, rfl, reported⟩
          exact ⟨below, ⟨last, reported⟩, rfl⟩
      · rintro path last ⟨below, -, reported⟩
        exact given.2 below last reported
  | none =>
    rw [enters] at done
    cases done
    simp only [basicDiff, enters]
    by_cases kept : f.is .outputOnly = true
    · simp [kept, Except.map, Gives]
    by_cases same : f.get types x = f.get types y
    · simp [kept, same, Except.map, Gives]
    by_cases marked : f.is .immutable = true
    · simp only [kept, same, marked, if_true, if_false]
      exact ⟨[f], f, ⟨rfl, rfl, by simp, same⟩, marked⟩
    · simp [kept, same, marked, Except.map, Gives, paths]

theorem compareFields_gives
    (done : compareFields types paths recurse fields a b = some (n, result)) :
    Gives (fun path last => ∃ f x y, At fields a b f x y ∧ ReportedIn types inside f x y path last)
      result := by
  induction fields generalizing a b n result with
  | nil =>
    cases done
    simp [Gives]
  | cons f fields ih =>
    obtain ⟨m, here, first, others⟩ := compareFields_cons types paths done
    have given := compareField_gives types spec first
    simp only [exists_at_cons]
    rcases others with ⟨err, rfl, rfl, -⟩ | ⟨entries, k, rest, rfl, rfl, -, run⟩
    · obtain ⟨path, last, reported, marked⟩ := given
      exact ⟨path, last, .inl reported, marked⟩
    · exact given.append (ih run)

end

theorem compareProtoMessage_gives {depth : Nat}
    (done : compareProtoMessage types depth type a b = some (n, result)) :
    Gives (ReportedAt types type a b) result := by
  induction depth generalizing type a b n result with
  | zero => cases done
  | succ depth ih =>
    obtain ⟨⟨m, outcome⟩, run, same⟩ := map_eq_some_iff.mp done
    cases same
    have given := compareFields_gives types (fun _ _ _ _ _ run => ih run) run
    simpa only [← reportedAt_iff] using given

/-- No path leads through an output-only field, there is none exactly if the messages agree in the
other fields, and the change of an immutable field, and nothing else, is an error. -/
def Exact (type : String) (a b : List (Value σ))
    (result : Except String (List (Path σ))) : Prop :=
  (∀ found, result = .ok found →
    (∀ path ∈ found, ∀ f ∈ path, f.is .outputOnly = false) ∧
    (found = [] ↔
      configurableFields types (types type) a = configurableFields types (types type) b)) ∧
  (ImmutableDiffers types type a b ↔ ∃ err, result = .error err)

/-- A field that is compared as a whole: it is not marked both ways, and what differs in it is
neither presence alone nor output-only fields of its elements alone. -/
def SeenWhole (f : Proto.Field σ) (x y : Value σ) : Prop :=
  if f.is .outputOnly then f.is .immutable = false
  else ¬ f.PresenceOnly types x y ∧ configurable types x ≠ configurable types y

/-- A sub-message that is entered: neither mark is on the field, and one that only one of the two
has sets a field that is not output-only. -/
structure SeenInside (f : Proto.Field σ) (inner : String) (x y : Value σ) : Prop where
  kept : f.is .outputOnly = false
  unmarked : f.is .immutable = false
  left : x = .unset ∨ ∃ parts, x = .message inner parts
  right : y = .unset ∨ ∃ parts, y = .message inner parts
  presence : x = .unset ∨ y = .unset →
    configurable types (f.get types x) ≠ configurable types (f.get types y)

/-- Two messages of the type in which every field that differs can be seen to differ. -/
inductive Discernible : OnMessages σ Prop where
  | intro {type : String} {a b : List (Value σ)}
      (left : a.length = (types type).length) (right : b.length = (types type).length)
      (whole : ∀ f x y, At (types type) a b f x y → x ≠ y → shouldRecurse f = none →
        SeenWhole types f x y)
      (entered : ∀ f x y, At (types type) a b f x y → x ≠ y → ∀ inner,
        shouldRecurse f = some inner → SeenInside types f inner x y)
      (below : ∀ f x y, At (types type) a b f x y → x ≠ y → ∀ inner,
        shouldRecurse f = some inner →
          Discernible inner (f.get types x).parts (f.get types y).parts) : Discernible type a b

section Discernible

variable {path : Path σ} {last f : Proto.Field σ} {x y : Value σ} {inner : String}

omit [DecidableEq σ]

theorem at_same (place : At fields a a f x y) : x = y := by
  obtain ⟨i, -, rfl, rfl⟩ := place
  rfl

theorem not_reportedAt_same (reported : ReportedAt types type a b path last) : a ≠ b := by
  induction reported with
  | leaf place _ _ differ =>
    rintro rfl
    exact differ (by rw [at_same place])
  | deeper place _ _ ih =>
    rintro rfl
    exact ih (by rw [at_same place])

theorem not_immutableDiffers_same (differs : ImmutableDiffers types type a b) : a ≠ b := by
  induction differs with
  | here place _ differ =>
    rintro rfl
    exact differ (at_same place)
  | deeper place _ _ _ ih =>
    rintro rfl
    exact ih (by rw [at_same place])

/-- No path leads through an output-only field. -/
theorem ReportedAt.visible (reported : ReportedAt types type a b path last)
    (seen : Discernible types type a b) : ∀ f ∈ path, f.is .outputOnly = false := by
  induction reported with
  | leaf _ _ kept _ => simpa using kept
  | @deeper type a b f x y inner path last place enters reported ih =>
    have differ : x ≠ y := fun same => not_reportedAt_same types reported (by rw [same])
    cases seen with
    | intro _ _ _ entered below =>
      refine forall_mem_cons.mpr ⟨(entered f x y place differ inner enters).kept, ?_⟩
      exact ih (below f x y place differ inner enters)

/-- What is kept of a field where output-only fields do not count. -/
def keptOf (f : Proto.Field σ) (x : Value σ) : Value σ :=
  if f.is .outputOnly then .unset else configurable types x

theorem configurableFields_eq_iff (left : a.length = fields.length)
    (right : b.length = fields.length) :
    configurableFields types fields a = configurableFields types fields b ↔
      ∀ f x y, At fields a b f x y → keptOf types f x = keptOf types f y := by
  induction fields generalizing a b with
  | nil =>
    rw [eq_nil_of_length_eq_zero left, eq_nil_of_length_eq_zero right]
    simp
  | cons f fields ih =>
    obtain ⟨x, as, rfl⟩ := exists_cons_of_length_eq_add_one left
    obtain ⟨y, bs, rfl⟩ := exists_cons_of_length_eq_add_one right
    have same : configurableFields types (f :: fields) (x :: as) =
        configurableFields types (f :: fields) (y :: bs) ↔ keptOf types f x = keptOf types f y ∧
          configurableFields types fields as = configurableFields types fields bs := by
      simp only [configurableFields, keptOf, cons.injEq]
    rw [same, ih (succ.inj left) (succ.inj right), forall_at_cons]
    rfl

theorem get_message (enters : shouldRecurse f = some inner)
    (shape : x = .unset ∨ ∃ parts, x = .message inner parts) :
    ∃ parts, f.get types x = .message inner parts := by
  rcases shape with rfl | ⟨parts, rfl⟩
  · exact ⟨_, (default_of_enters types enters).2.2⟩
  · exact ⟨parts, Field.get_of_ne nofun⟩

theorem SeenInside.differ_iff (seen : SeenInside types f inner x y) (differ : x ≠ y)
    (enters : shouldRecurse f = some inner) :
    keptOf types f x ≠ keptOf types f y ↔
      configurableFields types (types inner) (f.get types x).parts ≠
        configurableFields types (types inner) (f.get types y).parts := by
  obtain ⟨as, left⟩ := get_message types enters seen.left
  obtain ⟨bs, right⟩ := get_message types enters seen.right
  have inside : configurable types (f.get types x) ≠
      configurable types (f.get types y) ↔
      configurableFields types (types inner) (f.get types x).parts ≠
        configurableFields types (types inner) (f.get types y).parts := by
    rw [left, right]
    simp [configurable, Rose.parts]
  have kept : ∀ z, keptOf types f z = configurable types z := fun z => by
    rw [keptOf, seen.kept, if_neg Bool.false_ne_true]
  rw [← inside, kept, kept]
  by_cases absent : x = .unset ∨ y = .unset
  · refine iff_of_true ?_ (seen.presence absent)
    rcases seen.left with rfl | ⟨as, rfl⟩ <;> rcases seen.right with rfl | ⟨bs, rfl⟩
    · exact absurd rfl differ
    · simp [configurable]
    · simp [configurable]
    · simp at absent
  · rw [not_or] at absent
    rw [Field.get_of_ne absent.1, Field.get_of_ne absent.2]

/-- There is a path exactly if the messages do not agree in the fields that are not output-only. -/
theorem Discernible.reported_iff (seen : Discernible types type a b) :
    (∃ path last, ReportedAt types type a b path last) ↔
      configurableFields types (types type) a ≠ configurableFields types (types type) b := by
  induction seen with
  | intro left right whole entered below ih =>
    rw [ne_eq, configurableFields_eq_iff types left right]
    push Not
    constructor
    · rintro ⟨path, last, ⟨place, leaf, kept, differ⟩ | ⟨place, enters, reported⟩⟩
      · refine ⟨_, _, _, place, ?_⟩
        have apart := whole _ _ _ place (fun same => differ (by rw [same])) leaf
        rw [SeenWhole, kept, if_neg Bool.false_ne_true] at apart
        rw [keptOf, keptOf, kept, if_neg Bool.false_ne_true, if_neg Bool.false_ne_true]
        exact apart.2
      · refine ⟨_, _, _, place, ?_⟩
        have differ := fun same => not_reportedAt_same types reported (congrArg _ (congrArg _ same))
        have inside := entered _ _ _ place differ _ enters
        exact (inside.differ_iff types differ enters).mpr
          ((ih _ _ _ place differ _ enters).mp ⟨_, _, reported⟩)
    · rintro ⟨f, x, y, place, apart⟩
      have differ : x ≠ y := fun same => apart (by rw [same])
      cases enters : shouldRecurse f with
      | none =>
        have seen := whole f x y place differ enters
        cases kept : f.is .outputOnly with
        | true => simp [keptOf, kept] at apart
        | false =>
          rw [SeenWhole, kept, if_neg Bool.false_ne_true] at seen
          refine ⟨[f], f, .leaf place enters kept fun same => ?_⟩
          exact (Field.get_eq_get_iff.mp same).elim differ seen.1
      | some inner =>
        have inside := entered f x y place differ inner enters
        obtain ⟨path, last, reported⟩ := (ih f x y place differ inner enters).mpr
          ((inside.differ_iff types differ enters).mp apart)
        exact ⟨f :: path, last, .deeper place enters reported⟩

theorem ReportedAt.immutableDiffers (reported : ReportedAt types type a b path last)
    (marked : last.is .immutable = true) : ImmutableDiffers types type a b := by
  induction reported with
  | leaf place _ _ differ => exact .here place marked fun same => differ (by rw [same])
  | deeper place enters _ ih =>
    obtain ⟨message, single, -⟩ := default_of_enters types enters
    exact .deeper place message single (ih marked)

/-- The fields of the types that are compared as a whole are numbers without a mark. -/
def PlainTimes : Prop :=
  ∀ type ∈ ["google.protobuf.Timestamp", "google.protobuf.Duration"], ∀ f ∈ types type,
    f.is .immutable = false ∧ ∃ value, f.kind = .scalar value

theorem PlainTimes.not_differs (times : PlainTimes types)
    (known : type ∈ ["google.protobuf.Timestamp", "google.protobuf.Duration"]) :
    ¬ ImmutableDiffers types type a b := by
  rintro (⟨⟨i, found, -⟩, marked, -⟩ | ⟨⟨i, found, -⟩, message, -⟩)
  · rw [(times type known _ (mem_of_getElem? found)).1] at marked
    cases marked
  · obtain ⟨value, scalar⟩ := (times type known _ (mem_of_getElem? found)).2
    cases scalar.symm.trans message

theorem ImmutableDiffers.reported (times : PlainTimes types)
    (differs : ImmutableDiffers types type a b) (seen : Discernible types type a b) :
    ∃ path last, ReportedAt types type a b path last ∧ last.is .immutable = true := by
  induction differs with
  | @here type a b f x y place marked differ =>
    cases seen with
    | intro _ _ whole entered _ =>
      cases enters : shouldRecurse f with
      | some inner =>
        rw [(entered f x y place differ inner enters).unmarked] at marked
        cases marked
      | none =>
        have seen := whole f x y place differ enters
        unfold SeenWhole at seen
        split at seen
        · rw [seen] at marked
          cases marked
        · rename_i kept
          refine ⟨[f], f, .leaf place enters (by simpa using kept) fun same => ?_, marked⟩
          exact (Field.get_eq_get_iff.mp same).elim differ seen.1
  | @deeper type a b f x y inner place message single differs ih =>
    have differ : x ≠ y := fun same => not_immutableDiffers_same types differs (by rw [same])
    cases seen with
    | intro _ _ _ _ below =>
      by_cases known : inner = "google.protobuf.Timestamp" ∨ inner = "google.protobuf.Duration"
      · exact absurd differs (times.not_differs types (by simpa using known))
      · have enters : shouldRecurse f = some inner := by
          rw [shouldRecurse, message, single]
          exact if_neg known
        obtain ⟨path, last, reported, marked⟩ := ih (below f x y place differ inner enters)
        exact ⟨f :: path, last, .deeper place enters reported, marked⟩

end Discernible

/-- A disk with an output-only status, of which the code is no output of its own. -/
def reporting : Types Int
  | "Disk" => [⟨"status", .message "Status", .singular, [.outputOnly], none⟩]
  | _ => [⟨"code", .scalar 0, .singular, [], none⟩]

end Exactness

end ConfigConnector.Direct
