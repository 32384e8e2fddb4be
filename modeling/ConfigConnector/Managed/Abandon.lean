import ConfigConnector.Managed.Paused
import ConfigConnector.Managed.Release

/- Objects that are deleted with the abandon annotation: their resource stays, and the
finalizer of the controller has to go. -/
namespace ConfigConnector.Managed

open Interact K8s Actuation
open Lifecycle (Result)

variable {σ τ Q : Type} {A : Q → Type} [DecidableEq σ] [DecidableEq τ]

section World

/-- Reads and writes of the object that can be served are served. -/
def Served (s : Server σ τ) : (c : Call σ τ Q) → Call.Answer A c → Prop
  | .get, answer => s.stored.isSome = true → ∃ r, answer = .ok r
  | .update r, answer => (s.update r).isSome = true → ∃ saved, answer = .object saved
  | .updateStatus r, answer => (s.updateStatus r).isSome = true → ∃ saved, answer = .object saved
  | .patchSSA annotated, answer => (s.patchSSA annotated).isSome = true →
      ∃ saved, answer = .ok saved
  | .postUpdateStatusTransform _, answer => ∃ spec, answer = .ok spec
  | .ask _, _ => True

/-- A world in which the writes of the controller succeed, and everything else is answered as
`permits` allows. -/
def obliging (permits : (q : Q) → A q → Prop) (s : Server σ τ) (c : Call σ τ Q)
    (answer : Call.Answer A c) (after : Server σ τ) : Prop :=
  answersIn permits s c answer after ∧ Served s c answer

omit [DecidableEq σ] [DecidableEq τ] in
/-- A write that is possible is done, any other one is refused. -/
theorem write_answered (s : Server σ τ) (effect : Option (Server σ τ × Resource σ τ)) :
    ∃ reply after, WriteOutcome s effect reply after ∧
      (effect.isSome → ∃ saved, reply = .object saved) := by
  cases effect with
  | none => exact ⟨.error (.plain ""), s, .refused _, nofun⟩
  | some result => exact ⟨.object result.2, result.1, .done _ _ rfl, fun _ => ⟨_, rfl⟩⟩

theorem obliging_total {permits : (q : Q) → A q → Prop} (answered : ∀ q, ∃ a, permits q a)
    (s : Server σ τ) (c : Call σ τ Q) : ∃ answer after, obliging permits s c answer after := by
  cases c with
  | get =>
    cases stored : s.stored with
    | none =>
      refine ⟨.error (.plain ""), s, ⟨rfl, .absent _ stored⟩, ?_⟩
      intro present
      rw [stored] at present
      cases present
    | some r => exact ⟨.ok r, s, ⟨rfl, .found r stored⟩, fun _ => ⟨r, rfl⟩⟩
  | update r => exact write_answered s (s.update r)
  | updateStatus r => exact write_answered s (s.updateStatus r)
  | patchSSA annotated =>
    cases effect : s.patchSSA annotated with
    | none =>
      refine ⟨.error (.plain ""), s, .refused _, ?_⟩
      intro present
      rw [effect] at present
      cases present
    | some result => exact ⟨.ok result.2, result.1, .done _ _ effect, fun _ => ⟨_, rfl⟩⟩
  | postUpdateStatusTransform r => exact ⟨.ok r.spec, s, rfl, r.spec, rfl⟩
  | ask q =>
    obtain ⟨a, permitted⟩ := answered q
    exact ⟨a, s, ⟨permitted, rfl⟩, trivial⟩

end World

variable {s : Server σ τ}

section Writes

variable {r o : Resource σ τ}

/-- Two versions of an object that agree in what a deletion depends on. -/
structure Alike (m n : ObjectMeta) : Prop where
  deleting : m.isDeleting = n.isDeleting
  finalizers : m.finalizers = n.finalizers
  abandon : m.hasAbandonAnnotation = n.hasAbandonAnnotation

/-- The object in memory is that of the stored version, up to changes that a deletion does not
look at. -/
def Current (s : Server σ τ) (r : Resource σ τ) : Prop :=
  ∃ o, s.stored = some o ∧ o.metadata.resourceVersion = r.metadata.resourceVersion ∧
    Alike o.metadata r.metadata

/-- After a write without the finalizer of the controller it is gone. -/
theorem write_releases (new : Resource σ τ) (stored : s.stored = some o)
    (dropped : controllerFinalizerName ∉ new.metadata.finalizers) :
    ¬ HasController (s.write o new).1 := by
  rintro ⟨after, found, member⟩
  obtain ⟨version, rfl⟩ := write_stored stored found
  exact dropped member

/-- A status write of a current object with finalizers is possible, and its answer is what is
stored then. -/
theorem updateStatus_taken (current : Current s r) (finalizers : r.metadata.finalizers ≠ []) :
    (s.updateStatus r).isSome ∧ ∀ saved after,
      WriteOutcome s (s.updateStatus r) (.object saved) after →
        after.stored = some saved ∧ Alike saved.metadata r.metadata := by
  obtain ⟨o, stored, version, alike⟩ := current
  have effect : s.updateStatus r = some (s.write o { o with status := r.status }) := by
    rw [Server.updateStatus, Server.matching_eq_some.mpr ⟨stored, version⟩]
    rfl
  rw [effect]
  refine ⟨rfl, fun saved after answered => ?_⟩
  cases answered with
  | done _ _ applied =>
    have kept := write_kept { o with status := r.status } stored
      fun gone => finalizers (alike.finalizers ▸ gone.2)
    obtain ⟨version, answer⟩ := write_answer s o { o with status := r.status }
    rw [Option.some.inj applied] at kept answer
    change saved = _ at answer
    refine ⟨kept, ?_⟩
    rw [answer]
    exact ⟨alike.deleting, alike.finalizers, alike.abandon⟩

/-- An update of the stored version is possible. -/
theorem update_answer (stored : s.stored = some o)
    (version : o.metadata.resourceVersion = r.metadata.resourceVersion) :
    (s.update r).isSome ∧ ∀ saved after,
      WriteOutcome s (s.update r) (.object saved) after →
        after = (s.write o (o.updatedBy r)).1 ∧
          (∃ latest, saved = (o.updatedBy r).withVersion latest) ∧
          (r.metadata.finalizers ≠ [] → after.stored = some saved) := by
  have effect : s.update r = some (s.write o (o.updatedBy r)) := by
    rw [Server.update, Server.matching_eq_some.mpr ⟨stored, version⟩]
    rfl
  rw [effect]
  refine ⟨rfl, fun saved after answered => ?_⟩
  cases answered with
  | done _ _ applied =>
    have kept := fun finalizers : r.metadata.finalizers ≠ [] =>
      write_kept (o.updatedBy r) stored fun gone => finalizers gone.2
    have answer := write_answer s o (o.updatedBy r)
    rw [Option.some.inj applied] at kept answer ⊢
    exact ⟨rfl, answer, kept⟩

/-- A status write neither takes the finalizer off nor brings it back. -/
theorem updateStatus_hasController {reply : Reply σ τ} {after : Server σ τ}
    (answered : WriteOutcome s (s.updateStatus r) reply after) :
    HasController after ↔ HasController s := by
  obtain ⟨rfl, _⟩ | ⟨o, _, stored, writes, rfl, _⟩ :=
    answers_effect (A := fun _ : Unit => Unit) (c := .updateStatus r) answered
  · rfl
  cases writes
  constructor
  · rintro ⟨later, found, member⟩
    obtain ⟨version, rfl⟩ := write_stored stored found
    exact ⟨o, stored, member⟩
  · rintro ⟨other, found, member⟩
    cases stored.symm.trans found
    by_contra gone
    exact write_lost stored member gone member

end Writes

variable {r : Resource σ τ}

section Handlers

variable {permits : (q : Q) → A q → Prop} {seen : Trace (calls σ τ A)}

/-- A question is answered as permitted, and nothing is written. -/
theorem ends_question {α : Type} {post : Trace (calls σ τ A) → α → Server σ τ → Prop} {q : Q}
    {next : A q → Prog (calls σ τ A) α}
    (rest : ∀ answer, permits q answer →
      Ends (obliging permits) post (⟨.ask q, answer⟩ :: seen) s (next answer)) :
    Ends (obliging permits) post seen s
      (Prog.perform (S := calls σ τ A) (.ask q) >>= next) := by
  refine ends_perform.mpr fun answer after answered => ?_
  obtain ⟨⟨permitted, rfl⟩, _⟩ := answered
  exact rest answer permitted

/-- The status of a current object is saved. -/
theorem updateStatus_saves (current : Current s r) (finalizers : r.metadata.finalizers ≠ []) :
    Ends (obliging permits) (fun _ result after => ∃ saved, result = .ok saved ∧
        Current after saved ∧ Alike saved.metadata r.metadata) seen s
      (Lifecycle.updateStatus (A := A) r) := by
  obtain ⟨possible, taken⟩ := updateStatus_taken current finalizers
  refine ends_perform.mpr fun reply after answered => ?_
  obtain ⟨saved, rfl⟩ := answered.2 possible
  obtain ⟨stored, same⟩ := taken saved after answered.1
  refine ends_perform.mpr fun transformed later answered => ?_
  obtain ⟨unchanged, spec, rfl⟩ := answered
  obtain rfl : later = after := unchanged
  exact ⟨_, rfl, ⟨saved, stored, rfl, rfl, rfl, rfl⟩, same⟩

/-- Saving the status does not bring the finalizer back. -/
theorem updateStatus_stays_released (gone : ¬ HasController s) :
    Ends (obliging permits) (fun _ _ after => ¬ HasController after) seen s
      (Lifecycle.updateStatus (A := A) r) := by
  refine ends_perform.mpr fun reply after answered => ?_
  have still := mt (updateStatus_hasController answered.1).mp gone
  cases reply with
  | error _ | status _ => exact still
  | object u =>
    refine ends_perform.mpr fun transformed later answered => ?_
    obtain rfl : later = after := answered.1
    exact still

theorem saveCondition_saves (current : Current s r) (finalizers : r.metadata.finalizers ≠ [])
    (status : ConditionStatus) (reason message : String) :
    Ends (obliging permits) (fun _ result after => ∃ saved, result = .ok saved ∧
        Current after saved ∧ Alike saved.metadata r.metadata) seen s
      (Lifecycle.saveCondition (A := A) r status reason message) :=
  updateStatus_saves (r := Lifecycle.conditioned r status reason message) current finalizers

/-- Writing back an object that is deleted, without the finalizer of the controller. -/
theorem updateAPIServer_releases {o : Resource σ τ} (stored : s.stored = some o)
    (version : o.metadata.resourceVersion = r.metadata.resourceVersion)
    (deleting : o.metadata.isDeleting) (dropped : controllerFinalizerName ∉ r.metadata.finalizers) :
    Ends (obliging permits) (fun _ result after => (∃ saved, result = .ok saved) ∧
        ¬ HasController after) seen s (Lifecycle.updateAPIServer (A := A) r) := by
  obtain ⟨possible, taken⟩ := update_answer (r := Lifecycle.removeSystemLabels r) stored version
  refine ends_perform.mpr fun reply after answered => ?_
  obtain ⟨saved, rfl⟩ := answered.2 possible
  obtain ⟨written, ⟨latest, answer⟩, kept⟩ := taken saved after answered.1
  have gone : ¬ HasController after := by
    rw [written]
    exact write_releases _ stored dropped
  have going : saved.metadata.isDeleting := by
    rw [answer]
    exact deleting
  change Ends _ _ _ _ (if _ then _ else _)
  split
  · exact ⟨⟨saved, rfl⟩, gone⟩
  rename_i stays
  have finalizers : saved.metadata.finalizers ≠ [] := by
    rw [going] at stays
    simpa using stays
  have present : after.stored = some saved := kept (by rwa [answer] at finalizers)
  have current : Current after
      (setObservedGeneration { saved with status := r.status } r.metadata.generation) :=
    ⟨saved, present, rfl, rfl, rfl, rfl⟩
  refine ((updateStatus_saves current finalizers).and
    (updateStatus_stays_released gone)).mono fun _ result after both => ?_
  exact ⟨both.1.imp fun _ done => done.1, both.2⟩

/-- The end of a deletion: whatever the object in memory has been through, the finalizer is
taken off. -/
theorem handleDeleted_releases (current : Current s r) (deleting : r.metadata.isDeleting)
    (held : controllerFinalizerName ∈ r.metadata.finalizers) :
    Ends (obliging permits) (fun _ result after => (∃ saved, result = .ok saved) ∧
        ¬ HasController after) seen s (Lifecycle.handleDeleted (A := A) r) := by
  refine (saveCondition_saves current (List.ne_nil_of_mem held) _ _ _).bind ?_
  rintro later result after ⟨saved, rfl, ⟨o, stored, version, same⟩, alike⟩
  refine updateAPIServer_releases stored ?_ ?_ ?_
  · rw [version, ObjectMeta.removeFinalizer]
    split <;> rfl
  · rw [same.deleting, alike.deleting, deleting]
  · simp

/-- Reports on the object write nothing but its status. -/
def statusOnly : Contract (calls σ τ A) where
  guard := fun _ c => match c with
    | .updateStatus _ | .postUpdateStatusTransform _ | .ask _ => True
    | .get | .update _ | .patchSSA _ => False
  rely := fun _ _ _ => True

/-- A program that only reports leaves the finalizer where it is. -/
theorem statusOnly_keeps {α : Type} {post : Trace (calls σ τ A) → α → Prop}
    {program : Prog (calls σ τ A) α} (obeys : Obeys statusOnly post seen program)
    (held : HasController s) :
    Ends (obliging permits) (fun _ _ after => HasController after) seen s program := by
  refine Ends.of_obeys obeys ?_ held
  intro seen c s answer after guarded held answered
  refine ⟨trivial, ?_⟩
  cases c with
  | get | update _ | patchSSA _ => exact absurd guarded id
  | updateStatus r => exact (updateStatus_hasController answered.1).mpr held
  | postUpdateStatusTransform r =>
    obtain rfl : after = s := answered.1
    exact held
  | ask q =>
    obtain rfl : after = s := answered.1.2
    exact held

end Handlers

section Direct

open Direct (Unstructured)

variable {seen : Trace (Direct.S σ τ)}

omit [DecidableEq σ] [DecidableEq τ] in
theorem statusOnly_reporting : Direct.Reporting (statusOnly (σ := σ) (τ := τ)) :=
  ⟨fun _ _ => trivial, fun _ _ => trivial, fun _ _ => trivial⟩

/-- What a direct controller is told from elsewhere before it turns to GCP, and by its adapter. -/
structure Told where
  state : Except GoError (ConfigConnectorSpec × ConfigConnectorContextSpec)
  defaults : Except GoError (Option String)
  adapter : Except GoError Unit
  found : Except GoError Bool

/-- The answers that fit it; to the other questions there can be any. -/
def Told.permits (told : Told) : (q : Direct.Query) → q.Answer σ τ → Prop
  | .fetchLiveKCCState, answer => answer = told.state
  | .applyDefaults, answer => answer = told.defaults
  | .adapterForObject, answer => answer = told.adapter
  | .find, answer => answer = told.found
  | .create, _ | .update, _ | .delete, _ | .watch _, _ | .jitteredReenqueue, _ | .getCRD, _ => True

omit [DecidableEq σ] [DecidableEq τ] in
theorem Told.permits_total (told : Told) (q : Direct.Query) :
    ∃ answer : q.Answer σ τ, told.permits q answer := by
  cases q with
  | fetchLiveKCCState | applyDefaults | adapterForObject | find => exact ⟨_, rfl⟩
  | create | update => exact ⟨.done (.ok ()), trivial⟩
  | delete | jitteredReenqueue => exact ⟨.ok (), trivial⟩
  | watch err => exact ⟨.started, trivial⟩
  | getCRD => exact ⟨.ok false, trivial⟩

/-- The controller gets as far as to its adapter. -/
structure Told.Proceeds (told : Told) (r : Resource σ τ) : Prop where
  considered : shouldSkip r.toUnstructured r.metadata.annotations = .ok false
  actuated : ∃ cc ccc, told.state = .ok (cc, ccc) ∧
    shouldSkipActuation r.metadata.annotations r.metadata.isDeleting cc ccc = .ok false
  defaulted : ∃ value, told.defaults = .ok value

/-- An object that is deleted and whose resource is to be left alone. -/
structure Abandoned (m : ObjectMeta) : Prop where
  deleting : m.isDeleting = true
  controller : controllerFinalizerName ∈ m.finalizers
  undefended : deletionDefenderFinalizerName ∉ m.finalizers
  abandon : m.hasAbandonAnnotation = true

theorem Abandoned.hasFinalizer {m : ObjectMeta} (abandoned : Abandoned m) :
    m.hasFinalizer controllerFinalizerName ∧
      m.hasFinalizer deletionDefenderFinalizerName = false := by
  simpa [ObjectMeta.hasFinalizer] using And.intro abandoned.controller abandoned.undefended

theorem Abandoned.alike {m n : ObjectMeta} (abandoned : Abandoned n) (alike : Alike m n) :
    Abandoned m where
  deleting := alike.deleting.trans abandoned.deleting
  controller := alike.finalizers ▸ abandoned.controller
  undefended := alike.finalizers ▸ abandoned.undefended
  abandon := alike.abandon.trans abandoned.abandon

variable {told : Told} {P : Server σ τ → Prop}

/-- With the answers of the adapter the abandoned object loses the finalizer. -/
theorem actuate_releases (stored : s.stored = some r) (abandoned : Abandoned r.metadata)
    {existing : Bool} (adapter : told.adapter = .ok ()) (found : told.found = .ok existing) :
    Ends (obliging told.permits) (fun _ _ after => ¬ HasController after) seen s
      (Direct.actuate (.object r)) := by
  have final : ∀ seen : Trace (Direct.S σ τ),
      Ends (obliging told.permits) (fun _ _ after => ¬ HasController after) seen s
        (Direct.finalizeDeletion (.object r) existing) := by
    intro seen
    have current : Current s r := ⟨r, stored, rfl, rfl, rfl, rfl⟩
    obtain ⟨controller, undefended⟩ := abandoned.hasFinalizer
    unfold Direct.finalizeDeletion
    simp only [Direct.Unstructured.hasFinalizer, Direct.Unstructured.hasAbandonAnnotation,
      controller, undefended, abandoned.abandon]
    exact (handleDeleted_releases current abandoned.deleting abandoned.controller).bind
      fun _ _ _ released => released.2
  refine ends_question fun answer built => ?_
  obtain rfl : answer = .ok () := built.trans adapter
  refine ends_question fun answer looked => ?_
  obtain rfl : answer = .ok existing := looked.trans found
  have deleting : (Direct.Unstructured.object r).isDeleting = true := abandoned.deleting
  dsimp only
  rw [if_pos deleting]
  exact (final _).bind fun _ _ _ released => released

/-- An error of the adapter leaves the finalizer. -/
theorem actuate_keeps (held : HasController s) (deleting : r.metadata.isDeleting)
    (failed : ¬ (told.adapter = .ok () ∧ ∃ existing, told.found = .ok existing)) :
    Ends (obliging told.permits) (fun _ _ after => HasController after) seen s
      (Direct.actuate (.object r)) := by
  have reported : ∀ (seen : Trace (Direct.S σ τ)) (program : Prog (Direct.S σ τ) Result),
      Abides statusOnly seen program →
      Ends (obliging told.permits) (fun _ _ after => HasController after) seen s
        (program >>= fun result => pure (result, Unstructured.object r)) := by
    intro seen program obeys
    exact (statusOnly_keeps obeys held).bind fun _ _ _ still => still
  refine ends_question fun answer built => ?_
  cases answer with
  | error err => exact reported _ _ ((statusOnly_reporting.on _).updateError err err)
  | ok _ =>
    refine ends_question fun answer looked => ?_
    cases answer with
    | ok existing => exact absurd ⟨built.symm, existing, looked.symm⟩ failed
    | error err =>
      have going : (Unstructured.object r).isDeleting = true := deleting
      dsimp only
      rw [going]
      cases causedByUnresolvableDeps err with
      | some unwrapped =>
        exact reported _ _ ((statusOnly_reporting.on _).requeueUnresolvableDeps unwrapped)
      | none => exact reported _ _ ((statusOnly_reporting.on _).handleDeleteFailed err)

/-- Defaulting leaves the object as far as its deletion goes. -/
theorem applyDefaults_ends (stored : s.stored = some r) (abandoned : Abandoned r.metadata)
    {value : Option String} (defaulted : told.defaults = .ok value) :
    Ends (obliging told.permits) (fun _ result after => ∃ saved, result = (none, .object saved) ∧
        after.stored = some saved ∧ Alike saved.metadata r.metadata) seen s
      (Direct.applyDefaults r) := by
  refine ends_question fun answer told => ?_
  obtain rfl : answer = .ok value := told.trans defaulted
  cases value with
  | none => exact ⟨r, rfl, stored, rfl, rfl, rfl⟩
  | some value =>
    obtain ⟨possible, taken⟩ := update_answer
      (r := { r with metadata := r.metadata.setAnnotation stateIntoSpecAnnotation value })
      stored rfl
    refine ends_perform.mpr fun reply later answered => ?_
    obtain ⟨saved, rfl⟩ := answered.2 possible
    obtain ⟨_, ⟨latest, answer⟩, kept⟩ := taken saved later answered.1
    refine ⟨saved, rfl, kept (List.ne_nil_of_mem abandoned.controller), ?_⟩
    rw [answer]
    exact ⟨rfl, rfl, ObjectMeta.hasAbandon_insert _ _ (by decide)⟩

/-- What holds after `doReconcile`, or before it where the object is skipped, holds after the
reconcile. -/
theorem reconcile_ends (stored : s.stored = some r)
    (skipped : shouldSkip r.toUnstructured r.metadata.annotations ≠ .ok false → P s)
    (reconciled : shouldSkip r.toUnstructured r.metadata.annotations = .ok false →
      ∀ seen, Ends (obliging told.permits) (fun _ _ after => P after)
        seen s (Direct.doReconcile r)) :
    Ends (obliging told.permits) (fun _ _ after => P after) [] s Direct.reconcile := by
  refine ends_perform.mpr fun answer after answered => ?_
  obtain ⟨⟨unchanged, read⟩, served⟩ := answered
  obtain rfl : after = s := unchanged
  obtain ⟨o, rfl⟩ := served (by rw [stored]; rfl)
  obtain rfl : r = o := by
    cases read with
    | found _ found => exact Option.some.inj (stored.symm.trans found)
  dsimp only
  split
  · rename_i err skips
    exact skipped (by simp [skips])
  · rename_i skips
    exact skipped (by simp [skips])
  · rename_i considered
    refine (reconciled considered _).bind fun later result last holds => ?_
    obtain ⟨⟨requeue, err⟩, u⟩ := result
    cases err with
    | some err => exact holds
    | none =>
      cases requeue with
      | true => exact holds
      | false =>
        dsimp only
        split
        · exact holds
        refine ends_question fun period _ => ?_
        cases period with
        | error _ | ok _ => exact holds

/-- What holds wherever the adapter is reached holds after the reconcile. -/
theorem reconcile_proceeds (stored : s.stored = some r) (abandoned : Abandoned r.metadata)
    (proceeds : told.Proceeds r)
    (actuated : ∀ seen after saved, after.stored = some saved →
      Alike saved.metadata r.metadata →
      Ends (obliging told.permits) (fun _ _ last => P last)
        seen after (Direct.actuate (.object saved))) :
    Ends (obliging told.permits) (fun _ _ after => P after) [] s Direct.reconcile := by
  obtain ⟨considered, ⟨cc, ccc, state, unpaused⟩, value, defaulted⟩ := proceeds
  refine reconcile_ends stored (fun skipped => absurd considered skipped) fun _ seen => ?_
  refine ends_question fun answer fetched => ?_
  obtain rfl : answer = .ok (cc, ccc) := fetched.trans state
  dsimp only
  rw [unpaused]
  refine (applyDefaults_ends stored abandoned defaulted).bind ?_
  rintro seen result last ⟨saved, rfl, kept, alike⟩
  exact actuated seen last saved kept alike

/-- A reconcile that does not get to its adapter leaves the finalizer. -/
theorem reconcile_stops (stored : s.stored = some r) (abandoned : Abandoned r.metadata)
    (stops : ¬ told.Proceeds r) :
    Ends (obliging told.permits) (fun _ _ after => HasController after) [] s Direct.reconcile := by
  have held : HasController s := ⟨r, stored, abandoned.controller⟩
  refine reconcile_ends stored (fun _ => held) fun considered seen => ?_
  refine ends_question fun answer fetched => ?_
  cases answer with
  | error err => exact held
  | ok specs =>
    dsimp only
    split
    · rename_i err _
      rw [if_pos abandoned.deleting]
      exact (statusOnly_keeps ((statusOnly_reporting.on _).handleDeleteFailed err) held).bind
        fun _ _ _ still => still
    · rw [if_pos abandoned.deleting]
      exact held
    · rename_i unpaused
      refine ends_question fun answer defaults => ?_
      cases answer with
      | error err => exact held
      | ok value =>
        exact absurd ⟨considered, ⟨_, _, fetched.symm, unpaused⟩, value, defaults.symm⟩ stops

/-- When a reconcile by the direct controller takes the finalizer off an abandoned object. -/
theorem direct_abandons_iff (told : Told) (stored : s.stored = some r)
    (abandoned : Abandoned r.metadata) :
    Ends (obliging told.permits) (fun _ _ after => ¬ HasController after) [] s Direct.reconcile ↔
      told.Proceeds r ∧ told.adapter = .ok () ∧ ∃ existing, told.found = .ok existing := by
  constructor
  · intro releases
    -- A run on which the finalizer stays would be one on which it goes.
    have never : ¬ Ends (obliging told.permits) (fun _ _ after => HasController after) [] s
        Direct.reconcile := by
      intro keeps
      obtain ⟨_, _, _, gone, still⟩ :=
        (releases.and keeps).exists_run (obliging_total told.permits_total)
      exact gone still
    by_contra fails
    apply never
    by_cases proceeds : told.Proceeds r
    · have failed : ¬ (told.adapter = .ok () ∧ ∃ existing, told.found = .ok existing) :=
        fun succeeded => fails ⟨proceeds, succeeded⟩
      refine reconcile_proceeds stored abandoned proceeds fun seen after saved kept alike => ?_
      have still := abandoned.alike alike
      exact actuate_keeps ⟨saved, kept, still.controller⟩ still.deleting failed
    · exact reconcile_stops stored abandoned proceeds
  · rintro ⟨proceeds, adapter, existing, found⟩
    refine reconcile_proceeds stored abandoned proceeds fun seen after saved kept alike => ?_
    exact actuate_releases kept (abandoned.alike alike) adapter found

end Direct

section Terraform

variable {seen : Trace (S σ τ)}

/-- The transformation after the actuation succeeds; to the other questions, about references and
live state among them, there can be any answer. -/
def Transforms : (q : Query σ τ) → q.Answer → Prop
  | .postActuationTransform, answer => ∃ left, answer = .ok left
  | _, _ => True

/-- The Terraform controller asks nothing before it lets go of an abandoned object. -/
theorem terraform_abandons (gvk : GroupVersionKind) (config : ResourceConfig)
    (original : Resource σ τ) (current : Current s r) (abandoned : Abandoned r.metadata) :
    Ends (obliging Transforms) (fun _ result after => result = .done ∧ ¬ HasController after) seen s
      (Terraform.sync gvk config original r) := by
  obtain ⟨controller, undefended⟩ := abandoned.hasFinalizer
  rw [Terraform.sync, if_pos abandoned.deleting]
  unfold Terraform.finalizeDeletion
  simp only [controller, undefended]
  refine (saveCondition_saves current (List.ne_nil_of_mem abandoned.controller) _ _ _).bind ?_
  rintro later result after ⟨saved, rfl, kept, alike⟩
  have still := abandoned.alike alike
  dsimp only
  rw [if_pos still.abandon]
  refine ends_question fun answer ⟨left, answered⟩ => ?_
  subst answered
  have transformed : Current after (transformed saved left) := kept
  refine (handleDeleted_releases transformed still.deleting still.controller).bind ?_
  rintro final result end_ ⟨⟨written, rfl⟩, gone⟩
  exact ⟨rfl, gone⟩

end Terraform

/-- A direct controller lets go of an abandoned object exactly when it gets to its adapter, can
build it and can look for the resource in GCP; the Terraform controller does whatever it could
find out. -/
theorem abandoned_object_released (told : Told) {s : Server σ τ} {r : Resource σ τ}
    (stored : s.stored = some r) (abandoned : Abandoned r.metadata) :
    (Ends (obliging told.permits) (fun _ _ after => ¬ HasController after) [] s
        Direct.reconcile ↔
      told.Proceeds r ∧ told.adapter = .ok () ∧ ∃ existing, told.found = .ok existing) ∧
    ∀ (gvk : GroupVersionKind) (config : ResourceConfig) (original read : Resource σ τ)
        (seen : Trace (S σ τ)),
      read.metadata.resourceVersion = r.metadata.resourceVersion →
      Alike r.metadata read.metadata →
      Ends (obliging Transforms) (fun _ result after => result = .done ∧ ¬ HasController after)
        seen s (Terraform.sync gvk config original read) := by
  refine ⟨direct_abandons_iff told stored abandoned, ?_⟩
  intro gvk config original read seen version alike
  have same : Alike read.metadata r.metadata :=
    ⟨alike.deleting.symm, alike.finalizers.symm, alike.abandon.symm⟩
  exact terraform_abandons gvk config original ⟨r, stored, version.symm, alike⟩
    (abandoned.alike same)

/-- An abandoned object that only its controller still holds. -/
def abandonedObject : Resource Unit Unit :=
  let r := plainObject () () [controllerFinalizerName]
  { r with metadata :=
    { r.metadata.setAnnotation deletionPolicyAnnotation deletionPolicyAbandon with
      deletionTimestamp := some 1 } }

theorem abandonedObject_abandoned : Abandoned abandonedObject.metadata :=
  ⟨rfl, by decide, by decide, by decide⟩

/-- Nothing stands between the controller and its adapter, and the resource is looked for. -/
def toldOf (found : Except GoError Bool) : Told where
  state := .ok (⟨"cluster", none⟩, ⟨none⟩)
  defaults := .ok none
  adapter := .ok ()
  found := found

theorem toldOf_proceeds (found : Except GoError Bool) : (toldOf found).Proceeds abandonedObject :=
  ⟨by decide, ⟨_, _, rfl, by decide⟩, none, rfl⟩

/-- Where the resource is looked for without an error, both controllers let go. -/
theorem abandoned_object_released_topic :
    Ends (obliging (toldOf (.ok true)).permits) (fun _ _ after => ¬ HasController after) []
        (.holding abandonedObject) Direct.reconcile ∧
      Ends (obliging Transforms) (fun _ result after => result = .done ∧ ¬ HasController after) []
        (.holding abandonedObject)
        (Terraform.sync topic ⟨false, false, false, false, false, false⟩ abandonedObject
          abandonedObject) := by
  obtain ⟨direct, terraform⟩ := abandoned_object_released (toldOf (.ok true))
    (s := .holding abandonedObject) rfl abandonedObject_abandoned
  refine ⟨direct.mpr ⟨toldOf_proceeds _, rfl, true, rfl⟩, ?_⟩
  exact terraform topic _ abandonedObject abandonedObject [] rfl ⟨rfl, rfl, rfl⟩

/-- What `Find` says of a resource whose reference is gone. -/
def referenceGone : GoError := .leaf .referenceNotFound "reference Project ns/p is not found"

/-- With its reference already deleted, an abandoned object keeps the finalizer on every run. -/
theorem abandoned_object_stuck :
    (toldOf (.error referenceGone)).Proceeds abandonedObject ∧
      Ends (obliging (toldOf (.error referenceGone)).permits)
        (fun _ _ after => HasController after) [] (.holding abandonedObject) Direct.reconcile ∧
      ¬ Ends (obliging (toldOf (.error referenceGone)).permits)
        (fun _ _ after => ¬ HasController after) [] (.holding abandonedObject)
        Direct.reconcile := by
  have proceeds := toldOf_proceeds (.error referenceGone)
  have stored : (Server.holding abandonedObject).stored = some abandonedObject := rfl
  refine ⟨proceeds, ?_, ?_⟩
  · refine reconcile_proceeds stored abandonedObject_abandoned proceeds ?_
    intro seen after saved kept alike
    have still := abandonedObject_abandoned.alike alike
    apply actuate_keeps ⟨saved, kept, still.controller⟩ still.deleting
    rintro ⟨_, existing, found⟩
    cases found
  · intro releases
    obtain ⟨_, _, existing, found⟩ :=
      (direct_abandons_iff _ stored abandonedObject_abandoned).mp releases
    cases found

end ConfigConnector.Managed
