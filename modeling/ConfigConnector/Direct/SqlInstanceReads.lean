import ConfigConnector.Direct.SqlInstance
import ConfigConnector.Managed.Release

/- What the controller of an `SQLInstance` has heard from GCP when it creates the instance, and
when it takes its finalizer off. -/
namespace ConfigConnector.Direct.Sql

open Interact K8s Lifecycle List

variable {σ τ : Type} {seen : Trace (S σ τ)} {e : Event}

section Conversation

/-- An answer of GCP about the instance. -/
inductive Event where
  | get (answer : Except ApiError Unit)
  | delete (answer : Except ApiError Operation)
  | poll (answer : Except ApiError Operation)

/-- What GCP has answered in a reconcile, the latest first. -/
def heard : Trace (S σ τ) → List Event
  | [] => []
  | ⟨.ask .getInstance, answer⟩ :: rest => .get answer :: heard rest
  | ⟨.ask .deleteInstance, answer⟩ :: rest => .delete answer :: heard rest
  | ⟨.ask .getOperation, answer⟩ :: rest => .poll answer :: heard rest
  | _ :: rest => heard rest

/-- The operation of the deletion, as GCP has answered it. -/
def Event.operation : Event → Option Operation
  | .delete (.ok op) | .poll (.ok op) => some op
  | _ => none

def Event.Pending (e : Event) : Prop := ∃ op, e.operation = some op ∧ op.done = false

/-- The conversations with GCP that a reconcile can have. -/
inductive Talk : List Event → Prop where
  | silent : Talk []
  | looked (answer : Except ApiError Unit) : Talk [.get answer]
  | deleting (head : Event) (pending : List Event) (asked : ∀ answer, head ≠ .get answer)
      (waited : ∀ e ∈ pending, e.Pending) : Talk (head :: (pending ++ [.get (.ok ())]))

variable (seen)

/-- The `Get` on the instance has answered that it is not there. -/
def GetNotFound : Prop :=
  ∃ err : ApiError, err.isNotFound = true ∧ Event.get (.error err) ∈ heard seen

/-- The `Get` on the instance has failed for another reason. -/
def GetFailed : Prop :=
  ∃ err : ApiError, err.isNotFound = false ∧ Event.get (.error err) ∈ heard seen

/-- GCP has answered that the instance is not there. -/
def NotFound : Prop :=
  GetNotFound seen ∨ ∃ err : ApiError, err.isNotFound = true ∧
    Event.delete (.error err) ∈ heard seen

/-- The operation of the deletion has ended. -/
def Ended (op : Operation) : Prop :=
  op.done = true ∧ ∃ e ∈ heard seen, e.operation = some op

/-- The deletion has ended without errors. -/
def DeleteCompleted : Prop := ∃ op, Ended seen op ∧ op.error = none

/-- The deletion has ended with errors. -/
def DeleteFailed : Prop := ∃ op, Ended seen op ∧ op.error ≠ none

/-- The instance was not found, or not read, or its deletion has ended. -/
def Absent : Prop :=
  (∃ err, Event.get (.error err) ∈ heard seen) ∨
    (∃ err : ApiError, err.isNotFound = true ∧ Event.delete (.error err) ∈ heard seen) ∨
    ∃ op, Ended seen op

variable {seen}

/-- Does the answer say that the instance is gone? Errors that the controller does not look at say
that it is not. -/
def Event.verdict : Event → Option Bool
  | .get (.error err) => some err.isNotFound
  | .delete (.error err) => if err.isNotFound then some true else none
  | .delete (.ok op) | .poll (.ok op) => if op.done then some (decide (op.error = none)) else none
  | _ => none

theorem Event.verdict_eq_some {gone : Bool} :
    e.verdict = some gone ↔
    (∃ err, e = .get (.error err) ∧ err.isNotFound = gone) ∨
    (∃ err, e = .delete (.error err) ∧ err.isNotFound ∧ gone) ∨
    ∃ op, e.operation = some op ∧ op.done ∧ decide (op.error = none) = gone := by
  rcases e with (_ | _) | (_ | _) | (_ | _) <;> grind [Event.verdict, Event.operation]

/-- The answer that decides is the latest. -/
theorem Talk.head {events : List Event} {gone : Bool} (talk : Talk events) (member : e ∈ events)
    (decided : e.verdict = some gone) : events.head? = some e := by
  cases talk with
  | silent => cases member
  | looked answer => rw [mem_singleton.mp member]; rfl
  | deleting head pending asked waited =>
    simp only [mem_cons, mem_append, not_mem_nil, or_false] at member
    rcases member with rfl | old | rfl
    · rfl
    · obtain ⟨op, carries, waits⟩ := waited e old
      grind [Event.verdict_eq_some, Event.operation]
    · cases decided

theorem gone_heard : NotFound seen ∨ DeleteCompleted seen ↔
    ∃ e ∈ heard seen, e.verdict = some true := by
  simp only [Event.verdict_eq_some, NotFound, GetNotFound, DeleteCompleted, Ended]
  grind

theorem failed_heard : GetFailed seen ∨ DeleteFailed seen ↔
    ∃ e ∈ heard seen, e.verdict = some false := by
  simp only [Event.verdict_eq_some, GetFailed, DeleteFailed, Ended]
  grind

theorem Absent.decided (absent : Absent seen) :
    ∃ e ∈ heard seen, ∃ gone, e.verdict = some gone := by
  rcases absent with ⟨err, member⟩ | ⟨err, missing, member⟩ | ⟨op, done, e, member, carries⟩
  · exact ⟨_, member, _, rfl⟩
  · exact ⟨_, member, true, if_pos missing⟩
  · exact ⟨e, member, _, Event.verdict_eq_some.mpr (.inr (.inr ⟨op, carries, done, rfl⟩))⟩

/-- What the controller knows of an instance that it takes for gone. -/
theorem gone_iff (talk : Talk (heard seen)) (absent : Absent seen) :
    NotFound seen ∨ DeleteCompleted seen ↔ ¬ (GetFailed seen ∨ DeleteFailed seen) := by
  rw [gone_heard, failed_heard]
  constructor
  · rintro ⟨e, member, gone⟩ ⟨other, member', failed⟩
    have same := (talk.head member gone).symm.trans (talk.head member' failed)
    rw [Option.some.inj same, failed] at gone
    cases gone
  · intro unfailed
    obtain ⟨e, member, gone, decided⟩ := absent.decided
    cases gone with
    | true => exact ⟨e, member, decided⟩
    | false => exact absurd ⟨e, member, decided⟩ unfailed

end Conversation

section Rules

/-- The order of the calls to GCP, and what comes before a creation. -/
def Asks (seen : Trace (S σ τ)) : Query → Prop
  | .getInstance => heard seen = []
  | .deleteInstance => heard seen = [.get (.ok ())]
  | .getOperation => ∃ e rest, heard seen = e :: rest ∧ e.Pending
  | .other .create => ∃ err, heard seen = [.get (.error err)]
  | _ => True

theorem heard_suffix (entry : Sigma (S σ τ).Ans) (seen : Trace (S σ τ)) :
    heard seen <:+ heard (entry :: seen) := by
  rw [heard.eq_def (entry :: seen)]
  split
  · contradiction
  · rename_i same
    cases same
    exact suffix_cons _ _
  · rename_i same
    cases same
    exact suffix_cons _ _
  · rename_i same
    cases same
    exact suffix_cons _ _
  · rename_i same
    cases same
    exact suffix_rfl

theorem Absent.mono {entry : Sigma (S σ τ).Ans} (absent : Absent seen) :
    Absent (entry :: seen) := by
  have later : ∀ e ∈ heard seen, e ∈ heard (entry :: seen) :=
    fun e member => (heard_suffix entry seen).subset member
  refine absent.imp ?_ (Or.imp ?_ ?_)
  · rintro ⟨err, member⟩
    exact ⟨err, later _ member⟩
  · rintro ⟨err, missing, member⟩
    exact ⟨err, missing, later _ member⟩
  · rintro ⟨op, done, e, member, carries⟩
    exact ⟨op, done, e, later e member, carries⟩

def rules (σ τ : Type) : WriteRules (Query.Answer σ τ) σ τ where
  asks := Asks
  saves := fun _ _ => True
  going := fun _ _ _ => trivial
  reports := fun _ _ _ => True
  notReady := fun _ _ _ _ => trivial
  drops := fun seen v => v.metadata.hasAbandonAnnotation = true ∨ Absent seen
  later := fun _ _ _ drops => drops.imp_right Absent.mono
  same := fun _ _ _ abandon drops => drops.imp_left abandon.trans

/-- Calls that keep to the order keep the conversation a possible one. -/
theorem Talk.step {c : Call σ τ Query} (answer : Call.Answer (Query.Answer σ τ) c)
    (talk : Talk (heard seen)) (guarded : (rules σ τ).guard seen c) :
    Talk (heard (⟨c, answer⟩ :: seen : Trace (S σ τ))) := by
  cases c with
  | get | update r | updateStatus r | patchSSA annotated | postUpdateStatusTransform r => exact talk
  | ask q =>
    cases q with
    | adapterForObject | pauses | other q => exact talk
    | getInstance =>
      have before : heard seen = [] := guarded
      rw [heard, before]
      exact .looked answer
    | deleteInstance =>
      have before : heard seen = [.get (.ok ())] := guarded
      rw [heard, before]
      exact .deleting _ [] (nofun) (nofun)
    | getOperation =>
      obtain ⟨e, rest, before, pending⟩ := guarded
      rw [heard]
      rw [before] at talk ⊢
      cases talk with
      | looked answer =>
        obtain ⟨op, carries, _⟩ := pending
        cases carries
      | deleting head waiting asked waited =>
        refine .deleting (.poll answer) (e :: waiting) (nofun) ?_
        intro other member
        rcases mem_cons.mp member with rfl | old
        · exact pending
        · exact waited other old

end Rules

variable {told : Trace (S σ τ)} {later : Trace (S σ τ)}

section Adapter

/-- What is known after a deletion that began with `told`. -/
structure DeleteKnown (told later : Trace (S σ τ)) (outcome : Option (Except GoError Unit)) :
    Prop where
  latest : latest later = latest told
  asked : later ≠ []
  gone : outcome = some (.ok ()) → Absent later
  failed : ∀ err, outcome = some (.error err) → deletedAlready err = false

namespace DeleteKnown

theorem ask {q : Query} {answer : q.Answer σ τ} {outcome : Option (Except GoError Unit)}
    (known : DeleteKnown (⟨.ask q, answer⟩ :: told) later outcome) :
    DeleteKnown told later outcome :=
  ⟨known.latest, known.asked, known.gone, known.failed⟩

theorem of_absent (asked : told ≠ []) (absent : Absent told) :
    DeleteKnown told told (some (.ok ())) :=
  ⟨rfl, asked, fun _ => absent, nofun⟩

theorem of_done {op : Operation} {rest : List Event} (latest : heard told = e :: rest)
    (carries : e.operation = some op) (asked : told ≠ []) (done : op.done) :
    DeleteKnown told told (some (.ok ())) :=
  of_absent asked (.inr (.inr ⟨op, done, e, latest ▸ .head _, carries⟩))

theorem of_failed {err : GoError} (asked : told ≠ []) (other : deletedAlready err = false) :
    DeleteKnown told told (some (.error err)) := by
  refine ⟨rfl, asked, (nofun), fun failure same => ?_⟩
  cases same
  exact other

theorem of_panic (asked : told ≠ []) : DeleteKnown told told none :=
  ⟨rfl, asked, (nofun), nofun⟩

end DeleteKnown

variable [DecidableEq σ]

/-- Waiting for the operation that the latest answer carries. -/
theorem pollForLROCompletion_obeys (a : Adapter) (verb : String) (pauses : Nat) {op : Operation}
    {rest : List Event} (latest : heard told = e :: rest) (carries : e.operation = some op)
    (asked : told ≠ []) :
    Obeys (rules σ τ).contract (DeleteKnown told) told
      (a.pollForLROCompletion verb pauses op) := by
  induction pauses generalizing told op e rest with
  | zero =>
    unfold Adapter.pollForLROCompletion
    split
    · exact .of_done latest carries asked ‹_›
    · exact .of_failed asked rfl
  | succ pauses ih =>
    unfold Adapter.pollForLROCompletion
    split
    · exact .of_done latest carries asked ‹_›
    rename_i waits
    refine .call ⟨e, rest, latest, op, carries, by simpa using waits⟩ ?_
    intro read _
    cases read with
    | error err => exact (DeleteKnown.of_panic (cons_ne_nil _ _)).ask
    | ok next =>
      exact (ih (e := .poll (.ok next)) rfl rfl (cons_ne_nil _ _)).mono
        fun _ _ known => known.ask

theorem delete_obeys (a : Adapter) (found : heard told = [.get (.ok ())]) :
    Obeys (rules σ τ).contract (DeleteKnown told) told a.delete := by
  refine .call found fun started _ => ?_
  cases started with
  | error err =>
    dsimp only
    split
    · rename_i missing
      have absent : Absent (⟨.ask .deleteInstance, .error err⟩ :: told : Trace (S σ τ)) :=
        Or.inr (Or.inl ⟨err, missing, .head _⟩)
      exact (DeleteKnown.of_absent (cons_ne_nil _ _) absent).ask
    · exact (DeleteKnown.of_failed (cons_ne_nil _ _) rfl).ask
  | ok op =>
    refine .call trivial fun pauses _ => ?_
    exact (pollForLROCompletion_obeys a "delete" pauses (e := .delete (.ok op)) rfl rfl
      (cons_ne_nil _ _)).mono fun _ _ known => known.ask.ask

end Adapter

section Handler

variable {seen : Trace (Direct.S σ τ)} {adapter : Option Adapter} {r : Resource σ τ}

/-- What the adapter hears from GCP, against what it tells the controller. -/
structure Linked (seen : Trace (Direct.S σ τ)) (told : Trace (S σ τ)) : Prop where
  started : told = [] ↔ seen = []
  latest : latest told = latest seen
  fresh : asked seen = [] → heard told = []
  found : asked seen = [.find (.ok true)] → heard told = [.get (.ok ())]
  missing : asked seen = [.find (.ok false)] → ∃ err, heard told = [.get (.error err)]
  absent : .find (.ok false) ∈ asked seen → Absent told
  deleted : ∀ result, .delete result ∈ asked seen →
    (∀ err, result = .error err → deletedAlready err = true) → Absent told

/-- The object in an answer does not depend on what else can be asked. -/
theorem object_eq (reply : Reply σ τ) :
    Call.object (A := Query.Answer σ τ) (.update r) reply =
        Call.object (A := Direct.Query.Answer σ τ) (.update r) reply ∧
      Call.object (A := Query.Answer σ τ) (.updateStatus r) reply =
        Call.object (A := Direct.Query.Answer σ τ) (.updateStatus r) reply := by
  cases reply <;> exact ⟨rfl, rfl⟩

/-- What the handler of a call has to do. -/
def Handles [DecidableEq σ] (seen : Trace (Direct.S σ τ)) (told : Trace (S σ τ))
    (adapter : Option Adapter)
    (c : Call σ τ Direct.Query) : Prop :=
  Obeys (rules σ τ).contract (fun later outcome => ∀ answer memory,
      outcome = some (answer, memory) →
      ((Direct.contract σ τ).both (ordered σ τ)).rely seen c answer ∧
        Linked (⟨c, answer⟩ :: seen) later) told (handler adapter c)

variable (linked : Linked seen told)
include linked

/-- The reasons of the controller to drop its finalizer are reasons of the adapter. -/
theorem Linked.drops {v : Resource σ τ} (drops : Direct.Drops seen v) :
    (rules σ τ).drops told v := by
  refine drops.imp_right fun reason => ?_
  rcases reason with absent | ⟨result, member, ended⟩
  · exact linked.absent (mem_asked (fun _ => rfl) absent)
  · exact linked.deleted result (mem_asked (fun _ => rfl) member) ended

/-- A call that is not about the resource in GCP. -/
theorem Linked.pass {entry : Sigma (Direct.S σ τ).Ans} {event : Sigma (S σ τ).Ans}
    (object : event.1.object event.2 = entry.1.object entry.2)
    (quiet : asked (entry :: seen) = asked seen) (silent : heard (event :: told) = heard told) :
    Linked (entry :: seen) (event :: told) where
  started := by simp
  latest := by
    change (event.1.object event.2).or _ = (entry.1.object entry.2).or _
    rw [object, linked.latest]
  fresh := by rw [quiet, silent]; exact linked.fresh
  found := by rw [quiet, silent]; exact linked.found
  missing := by rw [quiet, silent]; exact linked.missing
  absent := by
    rw [quiet]
    exact fun member => (linked.absent member).mono
  deleted := by
    rw [quiet]
    exact fun result member ended => (linked.deleted result member ended).mono

/-- What `Find` makes of the answer to its `Get`. -/
theorem Linked.find (fresh : asked seen = []) (answer : Except ApiError Unit) {found : Bool}
    (same : found = answer.isOk) :
    Linked (⟨.ask .find, .ok found⟩ :: seen) (⟨.ask .getInstance, answer⟩ :: told) where
  started := by simp
  latest := linked.latest
  fresh := nofun
  found := by
    intro only
    rw [asked_find, fresh] at only
    obtain rfl : found = true := by simpa using only
    cases answer with
    | error err => cases same
    | ok _ => exact congrArg (Event.get (.ok ()) :: ·) (linked.fresh fresh)
  missing := by
    intro only
    rw [asked_find, fresh] at only
    obtain rfl : found = false := by simpa using only
    cases answer with
    | error err => exact ⟨err, congrArg (Event.get (.error err) :: ·) (linked.fresh fresh)⟩
    | ok _ => cases same
  absent := by
    intro member
    rw [asked_find, fresh] at member
    obtain rfl : false = found := by simpa using member
    cases answer with
    | error err => exact Or.inl ⟨err, .head _⟩
    | ok _ => cases same
  deleted := by
    intro result member
    rw [asked_find, fresh] at member
    cases mem_singleton.mp member

/-- What is left of a deletion. -/
theorem Linked.delete (found : asked seen = [.find (.ok true)]) {result : Except GoError Unit}
    (known : DeleteKnown told later (some result)) :
    Linked (⟨.ask .delete, result⟩ :: seen) later where
  started := iff_of_false known.asked (cons_ne_nil _ _)
  latest := known.latest.trans linked.latest
  fresh := nofun
  found := by
    intro only
    cases only
  missing := by
    intro only
    cases only
  absent := by
    intro member
    rw [asked_delete, found] at member
    simp at member
  deleted := by
    intro other member ended
    rw [asked_delete, found] at member
    obtain rfl : other = result := by simpa using member
    cases other with
    | ok _ => exact known.gone rfl
    | error err =>
      have already := ended err rfl
      rw [known.failed err rfl] at already
      cases already

variable [DecidableEq σ]

theorem find_handled (fresh : asked seen = []) : Handles seen told adapter (.ask .find) := by
  have relied : ∀ found : Except GoError Bool, ((Direct.contract σ τ).both (ordered σ τ)).rely seen
      (.ask .find) found := fun _ => ⟨.of_quiet (fun _ => nofun) fun _ => nofun, trivial⟩
  cases adapter with
  | none => exact nofun
  | some a =>
    have read : Obeys (rules σ τ).contract (fun later found =>
        Linked (⟨.ask .find, found⟩ :: seen) later) told a.find := by
      unfold Adapter.find
      rw [if_neg a.named]
      refine .call (linked.fresh fresh) fun answer _ => ?_
      cases answer with
      | error err => exact linked.find fresh (.error err) rfl
      | ok _ => exact linked.find fresh (.ok ()) rfl
    refine read.bind fun later found linked answer memory same => ?_
    cases same
    exact ⟨relied found, linked⟩

theorem delete_handled (found : asked seen = [.find (.ok true)]) :
    Handles seen told adapter (.ask .delete) := by
  cases adapter with
  | none => exact nofun
  | some a =>
    refine (delete_obeys a (linked.found found)).bind fun later outcome known => ?_
    intro result memory same
    obtain ⟨deleted, rfl, same⟩ := Option.map_eq_some_iff.mp same
    cases same
    exact ⟨⟨.of_quiet (fun _ => nofun) fun _ => nofun, trivial⟩, linked.delete found known⟩

theorem other_handled {q : Direct.Query} (asks : Asks told (.other q))
    (quiet : ∀ answer : q.Answer σ τ,
      asked (⟨.ask q, answer⟩ :: seen : Trace (Direct.S σ τ)) = asked seen) :
    Obeys (rules σ τ).contract (fun later outcome => ∀ (answer : q.Answer σ τ) memory,
      outcome = some (answer, memory) →
      ((Direct.contract σ τ).both (ordered σ τ)).rely seen (.ask q) answer ∧
        Linked (⟨.ask q, answer⟩ :: seen) later) told (do
          let answer ← ask (.other q)
          return some (answer, adapter)) := by
  refine .call asks fun answer _ result memory same => ?_
  cases same
  exact ⟨⟨.of_quiet (fun _ => nofun) fun _ => nofun, trivial⟩,
    linked.pass rfl (quiet answer) rfl⟩

theorem update_handled (guarded : (Direct.rules σ τ).guard seen (.update r)) :
    Handles seen told adapter (.update r) := by
  obtain ⟨v, last, version, finalizes, _⟩ := guarded
  have allowed : Finalizes ((rules σ τ).drops told v) v r := by
    cases finalizes with
    | kept same => exact .kept same
    | ensured stays both => exact .ensured stays both
    | dropped goes allowed controller defender =>
      exact .dropped goes (linked.drops allowed) controller defender
  refine .call ⟨v, linked.latest.trans last, version, allowed, trivial⟩ ?_
  intro reply relied answer memory same
  cases same
  refine ⟨⟨⟨?_, fun _ _ _ => nofun⟩, trivial⟩, linked.pass (object_eq reply).1 rfl rfl⟩
  intro written w u isUpdate seenLast carries object
  cases isUpdate
  exact relied.update r w u rfl (linked.latest.trans seenLast) carries
    ((object_eq reply).1.trans object)

theorem updateStatus_handled (guarded : (Direct.rules σ τ).guard seen (.updateStatus r)) :
    Handles seen told adapter (.updateStatus r) := by
  obtain ⟨v, last, version, _⟩ := guarded
  refine .call ⟨v, linked.latest.trans last, version, trivial⟩ ?_
  intro reply relied answer memory same
  cases same
  refine ⟨⟨⟨fun _ _ _ => nofun, ?_⟩, trivial⟩, linked.pass (object_eq reply).2 rfl rfl⟩
  intro written w u isUpdate seenLast carries object
  cases isUpdate
  exact relied.updateStatus r w u rfl (linked.latest.trans seenLast) carries
    ((object_eq reply).2.trans object)

/-- The adapter keeps to its rules while the controller keeps to its own. -/
theorem handler_obeys (c : Call σ τ Direct.Query)
    (guarded : ((Direct.contract σ τ).both (ordered σ τ)).guard seen c) :
    Handles seen told adapter c := by
  obtain ⟨allowed, inOrder⟩ := guarded
  cases c with
  | update r => exact update_handled linked allowed
  | updateStatus r => exact updateStatus_handled linked allowed
  | get =>
    refine .call (linked.started.mpr allowed) fun read _ _ _ same => ?_
    cases same
    refine ⟨⟨.of_quiet (fun _ => nofun) fun _ => nofun, trivial⟩, linked.pass ?_ rfl rfl⟩
    cases read <;> rfl
  | patchSSA annotated =>
    obtain ⟨v, last⟩ := allowed
    refine .call ⟨v, linked.latest.trans last⟩ fun patched _ _ _ same => ?_
    cases same
    refine ⟨⟨.of_quiet (fun _ => nofun) fun _ => nofun, trivial⟩, linked.pass ?_ rfl rfl⟩
    cases patched <;> rfl
  | postUpdateStatusTransform r =>
    refine .call trivial fun _ _ _ _ same => ?_
    cases same
    exact ⟨⟨.of_quiet (fun _ => nofun) fun _ => nofun, trivial⟩, linked.pass rfl rfl rfl⟩
  | ask q =>
    cases q with
    | find => exact find_handled linked inOrder
    | delete => exact delete_handled linked inOrder
    | adapterForObject =>
      refine .call trivial fun built _ => ?_
      cases built
      all_goals
        rintro _ _ ⟨⟩
        exact ⟨⟨.of_quiet (fun _ => nofun) fun _ => nofun, trivial⟩, linked.pass rfl rfl rfl⟩
    | create => exact other_handled linked (linked.missing inOrder) fun _ => rfl
    | fetchLiveKCCState | applyDefaults | update | watch err | jitteredReenqueue | getCRD =>
      exact other_handled linked trivial fun _ => rfl

omit linked in
/-- The reconcile of an `SQLInstance` keeps to the rules. -/
theorem reconcile_obeys (panicked : GoError) :
    Obeys (rules σ τ).contract (fun _ _ => True) []
      (reconcile panicked : Prog (S σ τ) Result) := by
  have linked : Linked ([] : Trace (Direct.S σ τ)) ([] : Trace (S σ τ)) :=
    ⟨iff_of_true rfl rfl, rfl, fun _ => rfl, nofun, nofun, nofun, fun _ => nofun⟩
  have handled : Obeys (rules σ τ).contract (fun _ _ => True) []
      (Prog.handle handler none (Direct.reconcile : Prog (Direct.S σ τ) Result)) :=
    Obeys.handle (R := fun seen told _ => Linked seen told)
      (fun _ _ _ c linked guarded => handler_obeys linked c guarded)
      reconcile_ordered linked
  exact Obeys.bind_any handled fun _ _ => trivial

end Handler

section Runs

open Managed (alone HasController)

variable [DecidableEq σ] [DecidableEq τ] {panicked : GoError}

/-- What every reconcile has seen, in every run. -/
theorem sql_invariant (panicked : GoError) :
    (alone (reconcile panicked : Prog (S σ τ) Result)).Invariant (fun _ => (rules σ τ).contract)
      (fun _ => True) (fun _ _ => True) (fun _ => True)
      (fun _ s seen => Seen s seen ∧ Talk (heard seen)) where
  init := fun _ _ => trivial
  fresh := fun p s _ => ⟨fun v last => (nomatch last), .silent⟩
  drift := by
    intro w after _ own moved _
    exact ⟨trivial, fun p t running => ⟨(own p t running).1.advances moved, (own p t running).2⟩⟩
  act := by
    intro w after p seen c answer _ own guarded answered _
    refine ⟨own.1.rely answered, trivial, ⟨own.1.answered answered, own.2.step answer guarded⟩, ?_⟩
    intro q other different
    exact absurd rfl different

/-- In every run of reconciles, whatever GCP answers and whoever else changes the object: an
instance is created after a `Get` that answered not-found, and the finalizer of an object that is
not abandoned is taken off after such an answer or a completed deletion, exactly where no `Get`
failed for another reason and no deletion ended with errors. -/
theorem instance_forgotten_iff {w : (alone (reconcile panicked : Prog (S σ τ) Result)).World}
    (reached : (alone (reconcile panicked)).Reach (fun _ => True) (fun _ _ => True) w)
    {seen : Trace (S σ τ)} {c : Call σ τ Query}
    {next : Call.Answer (Query.Answer σ τ) c → Prog (S σ τ) Unit}
    (running : w.threads () = some ⟨seen, .call c next⟩) :
    (c = .ask (.other .create) → (GetNotFound seen ↔ ¬ GetFailed seen)) ∧
      ∀ (answer : Call.Answer (Query.Answer σ τ) c) (after : Server σ τ) (o : Resource σ τ),
        w.state.answers c answer after → w.state.stored = some o →
        controllerFinalizerName ∈ o.metadata.finalizers → ¬ HasController after →
        o.metadata.hasAbandonAnnotation = false →
        (NotFound seen ∨ DeleteCompleted seen ↔ ¬ (GetFailed seen ∨ DeleteFailed seen)) := by
  have programs : ∀ p, Obeys (rules σ τ).contract (fun _ _ => True) []
      ((alone (reconcile panicked : Prog (S σ τ) Result)).program p) :=
    fun _ => (reconcile_obeys panicked).map _
  obtain ⟨⟨_, talk⟩, guarded, _⟩ :=
    (Machine.Reach.invariant programs (sql_invariant panicked) reached).2 () _ running
  constructor
  · rintro rfl
    obtain ⟨err, only⟩ := guarded
    simp [GetNotFound, GetFailed, only]
  · intro answer after o answered stored held gone kept
    have drops := Managed.dropsOnly_of_obeys (reconcile_obeys panicked) w reached seen c
      next running
      answer after o answered stored held gone
    rcases drops with abandon | absent
    · rw [kept] at abandon
      cases abandon
    · exact gone_iff talk absent

/-- An instance that is being deleted, with only its controller left to finalize it. -/
def goingInstance (resourceVersion : Nat) (status : Status Unit) : Resource Unit Unit where
  metadata := { ObjectMeta.created "ns" "db" with
    finalizers := [controllerFinalizerName]
    deletionTimestamp := some 7
    generation := 2
    resourceVersion }
  spec := ()
  status

def deletedStatus : Status Unit :=
  ⟨[newCustomReadyCondition .false "Deleted" "Successfully deleted"], some 2, ()⟩

def dbAdapter : Adapter := ⟨getResourceID "" "db", getResourceID_ne (by decide)⟩

def panic : GoError := .plain "panic"

/-- In some run the finalizer is taken off an object that is not abandoned, after a trace of
this kind. -/
def Releases (kind : Trace (S Unit Unit) → Prop) : Prop :=
  ∃ (w : (alone (reconcile panic : Prog (S Unit Unit) Result)).World) (seen : Trace (S Unit Unit))
    (c : Call Unit Unit Query) (next : _) (answer : Call.Answer (Query.Answer Unit Unit) c)
    (after : Server Unit Unit) (o : Resource Unit Unit),
    (alone (reconcile panic)).Reach (fun _ => True) (fun _ _ => True) w ∧
      w.threads () = some ⟨seen, .call c next⟩ ∧ w.state.answers c answer after ∧
      w.state.stored = some o ∧ controllerFinalizerName ∈ o.metadata.finalizers ∧
      ¬ HasController after ∧ o.metadata.hasAbandonAnnotation = false ∧ kind seen

/-- Whatever error the `Get` has, the object loses the finalizer after it. -/
theorem releases_after_error (err : ApiError) :
    Releases fun seen => heard seen = [.get (.error err)] := by
  have init := @Machine.Reach.init _ (alone (reconcile panic)) _ (fun _ => True) (fun _ _ => True)
    (.holding (goingInstance 3 ⟨[], none, ()⟩)) trivial
  have started := init.start ()
  have read := started.reply () rfl (Except.ok (goingInstance 3 ⟨[], none, ()⟩)) _
    ⟨rfl, .found _ rfl⟩
  have state := read.reply () rfl (Except.ok (⟨"cluster", none⟩, ⟨none⟩)) _
  have defaulted := state.reply () rfl (Except.ok none) _
  have built := defaulted.reply () rfl (Except.ok dbAdapter) _
  have failed := built.reply () rfl (Except.error err) _
  have deleted := failed.reply () rfl (Reply.object (goingInstance 4 deletedStatus))
    (.holding (goingInstance 4 deletedStatus)) (.done _ _ rfl)
  have last := deleted.reply () rfl (Except.ok ()) _
  refine ⟨_, _, .update _, _, Reply.error (.plain "timeout"), _, _, last, rfl, .lost _ _ _ rfl, rfl,
    by decide, ?_, by decide, rfl⟩
  rintro ⟨o, stored, _⟩
  cases stored

def missing : ApiError := ⟨404, "instanceDoesNotExist"⟩

def forbidden : ApiError := ⟨403, "notAuthorized"⟩

/-- An instance that is not there is released. -/
theorem instance_forgotten_iff_missing :
    Releases fun seen => NotFound seen ∨ DeleteCompleted seen := by
  obtain ⟨w, seen, c, next, answer, after, o, reached, running, answered, stored, held, gone, kept,
    only⟩ := releases_after_error missing
  refine ⟨w, seen, c, next, answer, after, o, reached, running, answered, stored, held, gone, kept,
    ?_⟩
  apply ((instance_forgotten_iff reached running).2 answer after o answered stored held gone
    kept).mpr
  simp [failed_heard, only, Event.verdict, missing, ApiError.isNotFound]

/-- So is one that the controller may not read. -/
theorem forbidden_instance_released :
    Releases fun seen => ¬ (NotFound seen ∨ DeleteCompleted seen) := by
  obtain ⟨w, seen, c, next, answer, after, o, reached, running, answered, stored, held, gone, kept,
    only⟩ := releases_after_error forbidden
  refine ⟨w, seen, c, next, answer, after, o, reached, running, answered, stored, held, gone, kept,
    ?_⟩
  simp [gone_heard, only, Event.verdict, forbidden, ApiError.isNotFound]

end Runs

end ConfigConnector.Direct.Sql
