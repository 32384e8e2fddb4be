import ConfigConnector.Dcl.Controller
import ConfigConnector.Direct.Controller
import ConfigConnector.Iam.PartialPolicy
import ConfigConnector.K8s.Session
import ConfigConnector.Terraform.Controller

/- What a reconcile of each controller leaves stored when actuation is paused and
nobody else touches the object meanwhile. -/
namespace ConfigConnector.Managed

open Interact K8s Actuation
open Lifecycle (Result)

variable {σ τ Q : Type} {A : Q → Type}
variable {seen : Trace (calls σ τ A)} {mode : Query σ τ} {s after : Server σ τ}
  {o r u original : Resource σ τ}

def Finalized (s : Server σ τ) : Prop :=
  ∃ o, s.stored = some o ∧ o.metadata.HasKccFinalizers

/-- The reconcile has asked for the actuation mode. -/
def Consulted (mode : Q) (seen : Trace (calls σ τ A)) : Prop :=
  ∃ answer, (⟨.ask mode, answer⟩ : Sigma (calls σ τ A).Ans) ∈ seen

/-- `post` holds after a reconcile that asks for the actuation mode and ends without an error
or a requeue. -/
def Succeeds (mode : Q) (post : Trace (calls σ τ A) → Server σ τ → Prop)
    (seen : Trace (calls σ τ A)) (result : Result) (after : Server σ τ) : Prop :=
  Consulted mode seen → result = .done → post seen after

/-- A reconcile that succeeds leaves an object with both finalizers. -/
abbrev Secures (mode : Q) : Trace (calls σ τ A) → Result → Server σ τ → Prop :=
  Succeeds mode fun _ => Finalized

theorem succeeds_failed {mode : Q} {post : Trace (calls σ τ A) → Server σ τ → Prop}
    (err : GoError) : Succeeds mode post seen (.failed err) after := nofun

/-- A reconcile that only reads the object has not asked for the mode. -/
theorem not_consulted_get (mode : Q) (answer : Except GoError (Resource σ τ)) :
    ¬ Consulted mode ([⟨.get, answer⟩] : Trace (calls σ τ A)) := by
  rintro ⟨state, member⟩
  have made := List.mem_map_of_mem (f := Sigma.fst) member
  simp at made

/-- The stored object stays, and has the finalizers of the one in memory. -/
structure Shows (s : Server σ τ) (u : Resource σ τ) : Prop where
  stored : ∃ o, s.stored = some o ∧ o.metadata.isDeleting = false ∧
    o.metadata.finalizers = u.metadata.finalizers
  stays : u.metadata.isDeleting = false

theorem shows_self (stored : s.stored = some o) (stays : o.metadata.isDeleting = false) :
    Shows s o :=
  ⟨⟨o, stored, stays, rfl⟩, stays⟩

theorem Shows.finalized_iff (shown : Shows s u) :
    Finalized s ↔ u.metadata.HasKccFinalizers := by
  obtain ⟨o, stored, _, same⟩ := shown.stored
  simp [Finalized, stored, ObjectMeta.HasKccFinalizers, same]

theorem Shows.finalized (shown : Shows s u) (both : u.metadata.HasKccFinalizers) : Finalized s :=
  shown.finalized_iff.mpr both

variable [DecidableEq σ] [DecidableEq τ] {permits : (q : Q) → A q → Prop}

/-- The API server answers as it can, and everything else as `permits` allows. -/
def answersIn (permits : (q : Q) → A q → Prop) (s : Server σ τ) :
    (c : Call σ τ Q) → Call.Answer A c → Server σ τ → Prop
  | .ask q, answer, after => permits q answer ∧ after = s
  | c, answer, after => s.answers c answer after

/-- However the calls of the reconcile end, it secures the object. -/
def Protects (permits : (q : Q) → A q → Prop) (mode : Q) (program : Prog (calls σ τ A) Result)
    (s : Server σ τ) : Prop :=
  Ends (answersIn permits) (Secures mode) [] s program

/-- The program ends in `post` where it succeeds. -/
abbrev Yields {α : Type} (permits : (q : Q) → A q → Prop) (post : α → Server σ τ → Prop)
    (seen : Trace (calls σ τ A)) (s : Server σ τ)
    (program : Prog (calls σ τ A) (Except GoError α)) :
    Prop :=
  Ends (answersIn permits) (fun _ result after => ∀ value, result = .ok value → post value after)
    seen s program

theorem Yields.ok {α : Type} {post : α → Server σ τ → Prop} {value : α} (holds : post value s) :
    Yields permits post seen s (.ret (.ok value)) := by
  rintro _ ⟨⟩
  exact holds

/-- A question to anyone else leaves the object as it is. -/
theorem ends_ask {α : Type} {q : Q} {post : Trace (calls σ τ A) → α → Server σ τ → Prop}
    {next : A q → Prog (calls σ τ A) α}
    (rest : ∀ answer, permits q answer →
      Ends (answersIn permits) post (⟨.ask q, answer⟩ :: seen) s (next answer)) :
    Ends (answersIn permits) post seen s (Prog.perform (S := calls σ τ A) (.ask q) >>= next) :=
  ends_perform.mpr fun answer _ answered => answered.2 ▸ rest answer answered.1

/-- An object that stays, or has a finalizer, is stored as the write answers it. -/
theorem write_kept (new : Resource σ τ) (stored : s.stored = some o)
    (kept : ¬ (new.metadata.isDeleting ∧ new.metadata.finalizers = [])) :
    (s.write o new).1.stored = some (s.write o new).2 := by
  unfold Server.write
  split
  · exact stored
  · rfl

/-- A write of new contents that stay is shown by its answer. -/
theorem write_shows {new : Resource σ τ} (stored : s.stored = some o)
    (stays : new.metadata.isDeleting = false) :
    Shows (s.write o new).1 (s.write o new).2 ∧
      (s.write o new).2.metadata.finalizers = new.metadata.finalizers := by
  obtain ⟨version, answer⟩ := write_answer s o new
  have kept := write_kept new stored (by simp [stays])
  refine ⟨shows_self kept ?_, ?_⟩
  · rw [answer]
    exact stays
  · rw [answer]
    rfl

/-- An edit of the stored object that is taken is shown by its answer. -/
theorem edit_shows {edit : Resource σ τ → Resource σ τ} {p : Resource σ τ}
    (found : s.stored = some p) (stays : (edit p).metadata.isDeleting = false)
    (applied : (s.matching r).map (fun q => s.write q (edit q)) = some (after, o)) :
    Shows after o ∧ o.metadata.finalizers = (edit p).metadata.finalizers := by
  obtain ⟨q, matching, same⟩ := Option.map_eq_some_iff.mp applied
  obtain ⟨stored, _⟩ := Server.matching_eq_some.mp matching
  rw [found] at stored
  cases stored
  have written := write_shows found stays
  rw [same] at written
  exact written

/-- An update that is answered with an object has stored it. -/
theorem update_shows (shown : Shows s u)
    (answered : WriteOutcome s (s.update r) (.object o) after) :
    Shows after o ∧ o.metadata.finalizers = r.metadata.finalizers := by
  obtain ⟨p, found, stays, _⟩ := shown.stored
  cases answered with
  | done _ _ applied => exact edit_shows found stays applied

theorem updateStatus_shows (shown : Shows s u)
    (answered : WriteOutcome s (s.updateStatus r) (.object o) after) :
    Shows after o ∧ o.metadata.finalizers = u.metadata.finalizers := by
  obtain ⟨p, found, stays, finalizers⟩ := shown.stored
  cases answered with
  | done _ _ applied =>
    obtain ⟨shows, same⟩ := edit_shows found stays applied
    exact ⟨shows, same.trans finalizers⟩

/-- A patch, whether it is answered or not, leaves the finalizers as they are. -/
theorem patchSSA_shows {annotated : Bool} {answer : Except GoError (Resource σ τ)}
    (shown : Shows s u) (answered : PatchOutcome s (s.patchSSA annotated) answer after) :
    Shows after u ∧ ∀ patched, answer = .ok patched → Shows after patched := by
  obtain ⟨p, found, stays, finalizers⟩ := shown.stored
  obtain ⟨rfl, read⟩ | ⟨q, new, stored, writes, rfl, answer⟩ :=
    answers_effect (A := fun _ : Unit => Unit) (c := .patchSSA annotated) answered
  · exact ⟨shown, fun patched same => nomatch (read patched (by rw [same]; rfl)).1⟩
  cases found.symm.trans stored
  have kept : new.metadata.isDeleting = false ∧
      new.metadata.finalizers = p.metadata.finalizers := by
    cases writes
    exact ⟨stays, rfl⟩
  obtain ⟨shows, finalizersNew⟩ := write_shows found kept.1
  obtain ⟨o, stored, staysStill, same⟩ := shows.stored
  have chain := same.trans (finalizersNew.trans (kept.2.trans finalizers))
  refine ⟨⟨⟨o, stored, staysStill, chain⟩, shown.stays⟩, fun patched success => ?_⟩
  rw [answer patched (by rw [success]; rfl)]
  exact shows

variable {permits : (q : Q) → A q → Prop}

theorem updateStatus_ends (shown : Shows s u) (both : u.metadata.HasKccFinalizers) :
    Yields permits (fun _ => Finalized) seen s (Lifecycle.updateStatus (A := A) r) := by
  refine ends_perform.mpr fun reply after answered => ?_
  cases reply with
  | error _ | status _ => exact nofun
  | object written =>
    obtain ⟨shown, finalizers⟩ := updateStatus_shows shown answered
    refine ends_perform.mpr fun transformed later answered => ?_
    obtain rfl : later = after := answered
    exact fun saved _ => shown.finalized fun f member => finalizers ▸ both f member

theorem updateAPIServer_ends (shown : Shows s u) (both : r.metadata.HasKccFinalizers) :
    Yields permits (fun _ => Finalized) seen s (Lifecycle.updateAPIServer (A := A) r) := by
  refine ends_perform.mpr fun reply after answered => ?_
  cases reply with
  | error _ | status _ => exact nofun
  | object written =>
    obtain ⟨shown, finalizers⟩ := update_shows shown answered
    have held : written.metadata.HasKccFinalizers := fun f member => finalizers ▸ both f member
    change Ends _ _ _ _ (if _ then _ else _)
    split
    · exact fun saved _ => shown.finalized held
    · exact updateStatus_ends shown held

/-- A reconcile of a stored object reads it, or fails. -/
theorem get_ends {mode : Q} {post : Trace (calls σ τ A) → Server σ τ → Prop}
    {next : Except GoError (Resource σ τ) → Prog (calls σ τ A) Result}
    (stored : s.stored = some o)
    (failed : ∀ err, err.isClass .notFound = false → next (.error err) = pure (.failed err))
    (found : Ends (answersIn permits) (Succeeds mode post) [⟨.get, .ok o⟩] s (next (.ok o))) :
    Ends (answersIn permits) (Succeeds mode post) [] s
      (Prog.perform (S := calls σ τ A) .get >>= next) := by
  refine ends_perform.mpr fun read after answered => ?_
  obtain ⟨rfl, outcome⟩ := answered
  cases outcome with
  | absent err gone =>
    rw [gone] at stored
    cases stored
  | failed err other =>
    rw [failed err other]
    exact succeeds_failed err
  | found r same =>
    rw [stored] at same
    cases same
    exact found

/-- A reconcile that begins like those of three controllers is what it does to the object. -/
theorem unlessSkipped_ends {mode : Q} {post : Trace (calls σ τ A) → Server σ τ → Prop}
    {next : Resource σ τ → Prog (calls σ τ A) Result} (stored : s.stored = some o)
    (found : Ends (answersIn permits) (Succeeds mode post) [⟨.get, .ok o⟩] s (next o)) :
    Ends (answersIn permits) (Succeeds mode post) [] s (unlessSkipped next) := by
  refine get_ends stored (fun err other => if_neg (by simp [other])) ?_
  dsimp only
  split
  · exact succeeds_failed _
  · exact fun consulted => absurd consulted (not_consulted_get _ _)
  · exact found

variable {seen : Trace (S σ τ)}

section Prologue

variable {permits : (q : Query σ τ) → q.Answer → Prop}

/-- The object that the patches leave in memory is shown. -/
theorem triggerManagedFieldsMetadata_ends (shown : Shows s u) :
    Yields permits (fun patched after => Shows after patched) seen s
      (triggerManagedFieldsMetadata u) := by
  unfold triggerManagedFieldsMetadata
  split
  · exact Yields.ok shown
  refine ends_perform.mpr fun answer after answered => ?_
  obtain ⟨kept, shows⟩ := patchSSA_shows shown answered
  cases answer with
  | error err =>
    change Ends _ _ _ _ (if _ then _ else _)
    split
    · exact Yields.ok kept
    · exact nofun
  | ok first =>
    refine ends_perform.mpr fun answer after answered => ?_
    obtain ⟨_, shows⟩ := patchSSA_shows (shows first rfl) answered
    cases answer with
    | error err => exact nofun
    | ok second => exact Yields.ok (shows second rfl)

theorem handleDefaults_ends (shown : Shows s u) (controller : String) :
    Yields permits (fun value after => ∀ defaulted, value = some defaulted → Shows after defaulted)
      seen s (handleDefaults controller u) := by
  refine ends_ask (.onOk (fun value _ => ?_) fun _ => nofun)
  cases value with
  | none =>
    refine Yields.ok ?_
    rintro _ ⟨⟩
    exact shown
  | some value =>
    refine ends_perform.mpr fun reply after answered => ?_
    cases reply with
    | error _ | status _ => exact nofun
    | object saved =>
      refine Yields.ok ?_
      rintro _ ⟨⟩
      exact (update_shows shown answered).1

section

variable (shown : Shows s original) (same : r.metadata.finalizers = original.metadata.finalizers)
include shown same

/-- After the finalizers have been ensured without an error, they are stored. -/
theorem ensureFinalizers_ends :
    Yields permits (fun _ => Finalized) seen s
      (Lifecycle.ensureFinalizers original r ObjectMeta.kccFinalizers) := by
  unfold Lifecycle.ensureFinalizers
  dsimp only
  split
  · rename_i found
    have present := (ObjectMeta.ensureFinalizers_found _ _).mp found
    exact fun _ _ => shown.finalized fun f member => same ▸ present f member
  split
  · rename_i found
    exact fun _ _ => shown.finalized ((ObjectMeta.ensureFinalizers_found _ _).mp found)
  have both : (original.metadata.ensureFinalizers ObjectMeta.kccFinalizers).1.HasKccFinalizers := by
    intro f member
    rw [ObjectMeta.mem_ensureFinalizers]
    exact Or.inl member
  exact (updateAPIServer_ends shown both).tried
    (fun _ written _ finalized _ _ => finalized written rfl) fun _ _ _ _ => nofun

/-- The answers of a configuration that pauses actuation. -/
def PausedMode : (q : Query σ τ) → q.Answer → Prop
  | .fetchLiveKCCState, answer =>
    ∀ cc ccc, answer = .ok (cc, ccc) → decideActuationMode cc ccc = .paused
  | _, _ => True

theorem pause_ends (stays : r.metadata.isDeleting = false) :
    Ends (answersIn permits) (Secures mode) seen s (pause original r) := by
  refine ends_ask (.onOk (fun _ _ => ?_) fun _ => nofun)
  rw [if_neg (by simp [stays])]
  exact (ensureFinalizers_ends shown same).tried
    (fun _ saved _ finalized _ _ => finalized saved rfl) fun _ _ _ _ => nofun

theorem actuate_ends (stays : r.metadata.isDeleting = false)
    (sync : Resource σ τ → Resource σ τ → Prog (S σ τ) Result) (periodError : GoError → GoError) :
    Ends (answersIn PausedMode) (Secures mode) seen s
      (actuate original r sync periodError) := by
  refine ends_ask (.onOk (fun ⟨cc, ccc⟩ paused => ?_) fun _ => nofun)
  have mode : decideActuationMode cc ccc = .paused := paused cc ccc rfl
  dsimp only
  rw [mode]
  exact pause_ends shown same stays

end

/-- Whatever is done to an object that is shown once it is defaulted. -/
theorem reconcileObject_ends (shown : Shows s u)
    (controller : String) (statusError : GoError) (next : Resource σ τ → Prog (S σ τ) Result)
    (rest : ∀ later after w, Shows after w →
      Ends (answersIn permits) (Secures mode) later after (next w)) :
    Ends (answersIn permits) (Secures mode) seen s
      (reconcileObject controller statusError next u) := by
  refine (triggerManagedFieldsMetadata_ends shown).tried (fun later v after patched => ?_)
    fun _ _ _ _ => nofun
  refine (handleDefaults_ends (patched v rfl) controller).tried
    (fun later received after defaulted => ?_) fun _ _ _ _ => nofun
  cases received with
  | none => exact nofun
  | some w => exact rest later after w (defaulted _ rfl w rfl)

/-- The change of the spec that is made for old objects leaves the metadata alone. -/
theorem ensureHierarchicalReference_ends :
    Ends (answersIn permits) (fun _ result after => after = s ∧ ∀ changed, result = .ok changed →
        changed.metadata = r.metadata) seen s (ensureHierarchicalReference r) := by
  exact ends_ask (.onOk (fun spec _ => ⟨rfl, by rintro _ ⟨⟩; rfl⟩) fun _ => ⟨rfl, nofun⟩)

end Prologue

section Controllers

theorem terraform_changes_end :
    Ends (answersIn PausedMode) (fun _ result after => after = s ∧ ∀ changed, result = .ok changed →
        changed.metadata.finalizers = u.metadata.finalizers ∧
        changed.metadata.isDeleting = u.metadata.isDeleting) seen s
      (Terraform.applyChangesForBackwardsCompatibility u) := by
  have policy : Ends (answersIn PausedMode) (fun _ result after => after = s ∧
      ∀ changed, result = .ok changed → changed.metadata.finalizers = u.metadata.finalizers ∧
        changed.metadata.isDeleting = u.metadata.isDeleting) seen s
      (Terraform.ensureManagementConflictPolicy u) := by
    refine ends_ask (.onOk (fun value _ => ?_) fun _ => ⟨rfl, nofun⟩)
    cases value <;> exact ⟨rfl, by rintro _ ⟨⟩; exact ⟨rfl, rfl⟩⟩
  refine policy.tried ?_ fun _ _ _ failed => ⟨failed.1, nofun⟩
  rintro later r after ⟨rfl, kept⟩
  refine ensureHierarchicalReference_ends.mono ?_
  rintro later result after ⟨rfl, metadata⟩
  refine ⟨rfl, fun changed success => ?_⟩
  rw [metadata changed success]
  exact kept r rfl

theorem terraform_resource_ends (shown : Shows s u) (gvk : GroupVersionKind) :
    Ends (answersIn PausedMode) (Secures .fetchLiveKCCState) seen s
      (Terraform.reconcileResource gvk u) := by
  refine ends_ask (.onOk (fun config _ => terraform_changes_end.tried ?_ fun _ _ _ _ => nofun)
    fun _ => nofun)
  rintro later r after ⟨rfl, kept⟩
  obtain ⟨finalizers, deleting⟩ := kept r rfl
  exact actuate_ends shown finalizers (deleting.trans shown.stays) _ _

theorem dcl_changes_end {gvk : GroupVersionKind} :
    Ends (answersIn PausedMode) (fun _ result after => after = s ∧ ∀ changed, result = .ok changed →
        changed.metadata = u.metadata) seen s
      (Dcl.applyChangesForBackwardsCompatibility gvk u) := by
  refine ends_ask (.onOk (fun _ _ => ?_) fun _ => ⟨rfl, nofun⟩)
  exact ends_ask (.onOk (fun _ _ => ensureHierarchicalReference_ends) fun _ => ⟨rfl, nofun⟩)

theorem dcl_resource_ends (shown : Shows s u) (gvk : GroupVersionKind)
    (sync : Resource σ τ → Resource σ τ → Prog (S σ τ) Result) :
    Ends (answersIn PausedMode) (Secures .fetchLiveKCCState) seen s
      (Dcl.reconcileResource gvk sync u) := by
  refine ends_ask (.onOk (fun config _ => dcl_changes_end.tried ?_ fun _ _ _ _ => nofun)
    fun _ => nofun)
  rintro later r after ⟨rfl, kept⟩
  have metadata := kept r rfl
  exact actuate_ends shown (by rw [metadata]) (by rw [metadata]; exact shown.stays) _ _

section

variable (stored : s.stored = some o) (stays : o.metadata.isDeleting = false)
  (gvk : GroupVersionKind)
include stored stays

theorem terraform_protects :
    Protects PausedMode .fetchLiveKCCState (Terraform.reconcile gvk) s := by
  refine unlessSkipped_ends stored (ends_ask (.onOk (fun _ _ => ?_) fun _ => nofun))
  exact reconcileObject_ends (shows_self stored stays) _ _ _
    fun later after w shown => terraform_resource_ends shown gvk

theorem dcl_protects (sync : Resource σ τ → Resource σ τ → Prog (S σ τ) Result) :
    Protects PausedMode .fetchLiveKCCState (Dcl.reconcile gvk sync) s := by
  refine unlessSkipped_ends stored ?_
  exact reconcileObject_ends (shows_self stored stays) _ _ _
    fun later after w shown => dcl_resource_ends shown gvk sync

end

end Controllers

section Direct

/-- The answers of a configuration that pauses actuation of an object that stays and
has these annotations. -/
def DirectPaused (annotations : StringMap) : (q : Direct.Query) → q.Answer σ τ → Prop
  | .fetchLiveKCCState, answer => ∀ cc ccc, answer = .ok (cc, ccc) →
      shouldSkipActuation annotations false cc ccc = .ok true
  | _, _ => True

/-- The object with the finalizers that it lacks. -/
def ensured (o : Resource σ τ) : Resource σ τ :=
  { o with metadata := (o.metadata.ensureFinalizers ObjectMeta.kccFinalizers).1 }

/-- The server is what the update that adds the finalizers makes of `s`. -/
def Updated (s : Server σ τ) (o : Resource σ τ) (after : Server σ τ) : Prop :=
  ∃ saved, s.update (ensured o) = some (after, saved)

/-- A missing finalizer is sent to the API server. It is stored in the end just where the
update took effect, whatever its answer was. -/
structure Attempts (s : Server σ τ) (o : Resource σ τ) (seen : Trace (Direct.S σ τ))
    (after : Server σ τ) : Prop where
  finalized : Finalized after ↔ o.metadata.HasKccFinalizers ∨ Updated s o after
  made : o.metadata.HasKccFinalizers ∨
    ∃ answer, (⟨.update (ensured o), answer⟩ : Sigma (Direct.S σ τ).Ans) ∈ seen

section

variable (stored : s.stored = some o) (stays : o.metadata.isDeleting = false)
include stored stays

theorem updated_finalized (updated : Updated s o after) : Finalized after := by
  obtain ⟨saved, applied⟩ := updated
  obtain ⟨shown, finalizers⟩ := edit_shows stored stays applied
  refine shown.finalized fun f member => ?_
  rw [finalizers]
  exact (ObjectMeta.mem_ensureFinalizers ..).mpr (.inl member)

theorem attempts_of_update {seen : Trace (Direct.S σ τ)} {reply : Reply σ τ}
    (lacks : ¬ o.metadata.HasKccFinalizers)
    (answered : WriteOutcome s (s.update (ensured o)) reply after)
    (made : (⟨.update (ensured o), reply⟩ : Sigma (Direct.S σ τ).Ans) ∈ seen) :
    Attempts s o seen after := by
  have before : ¬ Finalized s := (shows_self stored stays).finalized_iff.not.mpr lacks
  refine ⟨?_, .inr ⟨reply, made⟩⟩
  rw [or_iff_right lacks]
  refine ⟨fun finalized => ?_, updated_finalized stored stays⟩
  cases answered with
  | done _ saved applied | lost _ saved _ applied => exact ⟨saved, applied⟩
  | refused | rejected => exact absurd finalized before

/-- A paused object is only given the finalizers that it lacks. -/
theorem direct_doReconcile_ends (seen : Trace (Direct.S σ τ)) :
    Ends (answersIn (DirectPaused o.metadata.annotations)) (fun later result after =>
        result.1.err = none → Attempts s o later after) seen s (Direct.doReconcile o) := by
  refine ends_ask (.onOk (fun ⟨cc, ccc⟩ paused => ?_) fun _ => nofun)
  have skip : shouldSkipActuation o.metadata.annotations false cc ccc = .ok true :=
    paused cc ccc rfl
  dsimp only
  rw [stays, skip]
  refine (ends_bind _ _ _).mpr ?_
  change Ends _ _ _ _
    (if (o.metadata.ensureFinalizers ObjectMeta.kccFinalizers).2 then _ else _)
  split
  · rename_i found
    have held := (ObjectMeta.ensureFinalizers_found _ _).mp found
    exact fun _ => ⟨iff_of_true ⟨o, stored, held⟩ (.inl held), .inl held⟩
  · rename_i missing
    have lacks := (ObjectMeta.ensureFinalizers_found _ _).not.mp missing
    intro reply after answered
    cases reply <;> exact fun _ => attempts_of_update stored stays lacks answered (.head _)

theorem direct_attempts :
    Ends (answersIn (DirectPaused o.metadata.annotations))
      (Succeeds .fetchLiveKCCState (Attempts s o)) [] s Direct.reconcile := by
  refine unlessSkipped_ends stored ((direct_doReconcile_ends stored stays _).bind ?_)
  rintro later ⟨⟨requeue, err⟩, u⟩ after attempts
  cases err with
  | some err => exact succeeds_failed err
  | none =>
    cases requeue with
    | true => exact fun _ _ => attempts rfl
    | false =>
      change Ends _ _ _ _ (if _ then _ else _)
      split
      · exact fun _ _ => attempts rfl
      obtain ⟨finalized, made⟩ := attempts rfl
      refine ends_ask (.onOk (fun _ _ _ _ => ⟨finalized, ?_⟩) fun _ => nofun)
      exact made.imp_right fun ⟨answer, member⟩ => ⟨answer, .tail _ member⟩

end

end Direct

section PartialPolicy

open Iam (IAMPartialPolicy IAMPartialPolicySpec AppliedBindings)

variable {s : Server IAMPartialPolicySpec AppliedBindings} {pp : IAMPartialPolicy}
  {seen : Trace Iam.PartialPolicy.S}

/-- The answers of a configuration that pauses actuation. -/
def PartialPolicyPaused : (q : Iam.PartialPolicy.Query) → q.Answer → Prop
  | .fetchLiveKCCState, answer =>
    ∀ cc ccc, answer = .ok (cc, ccc) → decideActuationMode cc ccc = .paused
  | _, _ => True

/-- The finalizers of a policy stay when its defaults are saved. -/
theorem partialPolicy_handleDefaults_ends (shown : Shows s pp) :
    Yields PartialPolicyPaused (fun _ after => Finalized after ↔ pp.metadata.HasKccFinalizers) seen
      s (Iam.PartialPolicy.handleDefaults pp) := by
  refine ends_ask (.onOk (fun value _ => ?_) fun _ => nofun)
  cases value with
  | none => exact fun _ _ => shown.finalized_iff
  | some value =>
    refine ends_perform.mpr fun reply later answered => ?_
    cases reply with
    | error err => exact nofun
    | status message =>
      cases answered
      exact fun _ _ => shown.finalized_iff
    | object saved =>
      obtain ⟨saves, finalizers⟩ := update_shows shown answered
      refine fun _ _ => saves.finalized_iff.trans ?_
      rw [ObjectMeta.HasKccFinalizers, finalizers]
      rfl

/-- A paused policy is left as it is. -/
theorem partialPolicy_doReconcile_ends :
    Ends (answersIn PartialPolicyPaused) (fun _ result after => after = s ∧
        (result.1.err = none → result = (.done, none))) seen s
      (Iam.PartialPolicy.doReconcile pp) := by
  refine ends_ask (.onOk (fun ⟨cc, ccc⟩ paused => ?_) fun _ => ⟨rfl, nofun⟩)
  have mode : decideActuationMode cc ccc = .paused := paused cc ccc rfl
  dsimp only
  rw [mode]
  exact ⟨rfl, fun _ => rfl⟩

/-- The finalizers that the controller adds in memory are not saved. -/
theorem partialPolicy_leaves (stored : s.stored = some pp)
    (stays : pp.metadata.isDeleting = false) :
    Ends (answersIn PartialPolicyPaused) (Succeeds .fetchLiveKCCState fun _ after =>
        (Finalized after ↔ pp.metadata.HasKccFinalizers)) [] s Iam.PartialPolicy.reconcile := by
  refine get_ends stored (fun err other => if_neg (by simp [other])) ?_
  refine (partialPolicy_handleDefaults_ends (shows_self stored stays)).tried
    (fun later defaulted after kept => ?_) fun _ _ _ _ => nofun
  have finalized := kept defaulted rfl
  refine partialPolicy_doReconcile_ends.bind ?_
  rintro later ⟨⟨requeue, err⟩, etag⟩ after ⟨rfl, done⟩
  cases err with
  | some err => exact succeeds_failed err
  | none =>
    cases done rfl
    exact ends_ask (.onOk (fun _ _ _ _ => finalized) fun _ => nofun)

end PartialPolicy

section Law

open Iam (IAMPartialPolicy IAMPartialPolicySpec AppliedBindings)

/-- An object with these finalizers and nothing else that matters here. -/
def plainObject (spec : σ) (fields : τ) (finalizers : List String) : Resource σ τ where
  metadata := { ObjectMeta.created "ns" "name" with finalizers }
  spec := spec
  status := ⟨[], none, fields⟩

def emptyPolicy (finalizers : List String) : IAMPartialPolicy :=
  plainObject ⟨⟨"Project", "", "", "", "p"⟩, []⟩ ⟨[], []⟩ finalizers

def topic : GroupVersionKind := ⟨"pubsub.cnrm.cloud.google.com", "v1beta1", "PubSubTopic"⟩

end Law

end ConfigConnector.Managed
