import ConfigConnector.Direct.Order
import ConfigConnector.Lifecycle.Finalizers

/- Which calls the direct controller makes after what it has seen: when it goes to
GCP to create, update or delete, and when it drops its finalizer. -/
namespace ConfigConnector.Direct

open Interact K8s Actuation Lifecycle

variable {σ τ : Type} (seen : Trace (S σ τ))

/-- `adapter.Find` has found nothing. -/
def FoundAbsent : Prop :=
  (⟨.ask .find, (Except.ok false : Except GoError Bool)⟩ : Sigma (S σ τ).Ans) ∈ seen

/-- The errors of `adapter.Delete` that the controller takes for a success. -/
def deletedAlready (err : GoError) : Bool :=
  err.isClass .iamNotFound || err.isClass .referenceNotFound

/-- `adapter.Delete` has deleted the resource or found it gone. -/
def Deleted : Prop :=
  ∃ result : Except GoError Unit, (⟨.ask .delete, result⟩ : Sigma (S σ τ).Ans) ∈ seen ∧
    ∀ err, result = .error err → deletedAlready err = true

/-- The latest write was answered with an object of kind `Status`. -/
def Rejected : Prop :=
  ∃ r message rest, seen = ⟨.update r, .status message⟩ :: rest

/-- When the controller may drop its finalizer. -/
def Drops (v : Resource σ τ) : Prop :=
  v.metadata.hasAbandonAnnotation = true ∨ FoundAbsent seen ∨ Deleted seen

/-- An object whose resource in GCP may be deleted. -/
structure Deletable (v : Resource σ τ) : Prop where
  deleting : v.metadata.isDeleting = true
  controller : controllerFinalizerName ∈ v.metadata.finalizers
  defender : deletionDefenderFinalizerName ∉ v.metadata.finalizers
  abandon : v.metadata.hasAbandonAnnotation = false

/-- An object whose resource in GCP may be created or updated. -/
structure Protected (v : Resource σ τ) : Prop where
  stays : v.metadata.isDeleting = false
  both : v.metadata.HasKccFinalizers

def Asks : Query → Prop
  | .delete => ∃ v, latest seen = some v ∧ Deletable v
  | .create | .update => Rejected seen ∨ ∃ v, latest seen = some v ∧ Protected v
  | .getCRD => False
  | _ => True

def rules (σ τ : Type) : WriteRules (Query.Answer σ τ) σ τ where
  asks := Asks
  saves := fun _ _ => True
  going := fun _ _ _ => trivial
  reports := fun _ _ _ => True
  notReady := fun _ _ _ _ => trivial
  drops := Drops
  later := by
    intro seen entry v drops
    refine drops.imp_right (Or.imp (.tail _) ?_)
    rintro ⟨result, member, ended⟩
    exact ⟨result, .tail _ member, ended⟩
  same := by
    intro seen v w abandon drops
    exact drops.imp_left abandon.trans

def contract (σ τ : Type) [DecidableEq σ] : Contract (S σ τ) := (rules σ τ).contract

/-- The rules together with the order of the calls to the adapter. -/
def orderedRules (σ τ : Type) : WriteRules (Query.Answer σ τ) σ τ :=
  { rules σ τ with asks := fun seen q => Asks seen q ∧ (ordered σ τ).guard seen (.ask q) }

abbrev orderedContract (σ τ : Type) [DecidableEq σ] : Contract (S σ τ) :=
  (orderedRules σ τ).contract

/-- The object in memory is the one seen last, or is no object any more. -/
def Keeps : Unstructured σ τ → Prop
  | .object r => Holds seen r
  | .failure _ => True

variable {seen} {u : Unstructured σ τ}

section Writes

section

variable (keeps : Keeps seen u)
include keeps

theorem Keeps.answered (q : Query) (answer : q.Answer σ τ) :
    Keeps (⟨.ask q, answer⟩ :: seen : Trace (S σ τ)) u := by
  cases u with
  | object r => exact keeps
  | failure message => trivial

theorem Keeps.withStatus (fields : τ) (conditions : Option (List Condition))
    (readyCondition : Option Condition) :
    Keeps seen (withStatus fields conditions readyCondition u) := by
  cases u with
  | failure message => trivial
  | object r =>
    obtain ⟨v, last, mirrors⟩ := keeps
    exact ⟨v, last, mirrors.withStatus _⟩

theorem Keeps.withSpec (spec : σ) : Keeps seen (withSpec spec u) := by
  cases u with
  | failure message => trivial
  | object r =>
    obtain ⟨v, last, mirrors⟩ := keeps
    exact ⟨v, last, mirrors.withSpec spec⟩

theorem Keeps.withCookie (cookie : String) : Keeps seen (withCookie cookie u) := by
  cases u with
  | failure message => trivial
  | object r =>
    obtain ⟨v, last, mirrors⟩ := keeps
    exact ⟨v, last, mirrors.setAnnotation cookie (by decide)⟩

variable [DecidableEq σ]

/-- What a write leaves in memory and has been answered so far. -/
abbrev Left (seen later : Trace (S σ τ)) (left : Unstructured σ τ) : Prop :=
  Keeps later left ∧ asked later = asked seen

theorem Keeps.clientUpdate :
    Obeys (orderedContract σ τ) (fun later result => Left seen later result.2) seen
      (clientUpdate u) := by
  cases u with
  | failure message => exact ⟨trivial, rfl⟩
  | object r =>
    obtain ⟨v, last, mirrors⟩ := keeps
    refine .call ⟨v, last, mirrors.version, mirrors.kept _, trivial⟩ fun reply _ => ⟨?_, rfl⟩
    cases reply with
    | error err => exact ⟨v, last, mirrors⟩
    | status message => trivial
    | object saved => exact ⟨saved, rfl, mirrors_spec saved saved.spec⟩

theorem Keeps.clientStatusUpdate :
    Obeys (orderedContract σ τ) (fun later result => Keeps later result.2) seen
      (clientStatusUpdate u) := by
  cases u with
  | failure message => trivial
  | object r =>
    obtain ⟨v, last, mirrors⟩ := keeps
    refine .call ⟨v, last, mirrors.version, trivial⟩ fun reply _ => ?_
    cases reply with
    | error err => exact ⟨v, last, mirrors⟩
    | status message => trivial
    | object saved => exact ⟨saved, rfl, mirrors_spec saved saved.spec⟩

end

/-- Whatever an adapter does, the object it leaves is the one seen last. -/
theorem Keeps.run [DecidableEq σ] (script : Script σ τ) (op : Operation σ τ)
    (keeps : Keeps seen op.object) :
    Obeys (orderedContract σ τ) (fun later result => Keeps later result.1.object) seen
      (script.run op) := by
  induction script generalizing seen op with
  | done result => exact keeps
  | requestRequeue next ih => exact ih _ keeps
  | updateStatus fields conditions readyCondition next ih =>
    exact (keeps.withStatus fields conditions readyCondition).clientStatusUpdate.bind
      fun _ _ kept => ih _ _ kept
  | setSpecResourceID spec next ih =>
    exact (keeps.withSpec spec).clientUpdate.bind fun _ _ kept => ih _ _ kept.1
  | setLastModifiedCookie cookie next ih =>
    unfold Script.run
    split
    · exact ih _ _ keeps
    · exact (keeps.withCookie cookie).clientUpdate.bind fun _ _ kept => ih _ _ kept.1

end Writes

section Handlers

variable [DecidableEq σ]

theorem Keeps.reports (keeps : Keeps seen u) : ReportsOn (orderedContract σ τ) seen u := by
  refine ⟨(orderedRules σ τ).hooks, ?_, ?_⟩
  · rintro r rfl
    exact Holds.reports keeps
  · rintro r err rfl
    exact ⟨⟨trivial, trivial⟩, fun answer => Holds.reports (keeps.answered (.watch err) answer)⟩

theorem Keeps.handleUpToDate (keeps : Keeps seen u) :
    Abides (orderedContract σ τ) seen (handleUpToDate u) := by
  cases u with
  | failure message => trivial
  | object r =>
    obtain ⟨v, last, mirrors⟩ := keeps
    have saves := handleUpToDate_saves (R := orderedRules σ τ) last mirrors (fun _ _ _ => trivial)
      fun _ _ _ _ _ => trivial
    exact saves.bind fun _ _ _ => trivial

/-- Dropping the finalizer needs one of the reasons for it. -/
theorem handleDeleted_obeys {v r : Resource σ τ} (last : latest seen = some v)
    (mirrors : Mirrors v r) (goes : v.metadata.isDeleting) (drops : Drops seen v) :
    Abides (orderedContract σ τ) seen (handleDeleted (.object r)) :=
  (handleDeleted_drops (R := orderedRules σ τ) last mirrors goes drops).map _

end Handlers

section Reconcile

variable [DecidableEq σ]

section

variable (keeps : Keeps seen u)
include keeps

/-- After the finalizers are ensured without an error, they are in the object seen
last, unless the write was rejected in a way that the controller overlooks. -/
theorem ensureFinalizers_obeys (stays : u.isDeleting = false) :
    Obeys (orderedContract σ τ) (fun later result => result.1 = none → Left seen later result.2 ∧
        (Rejected later ∨ ∃ v, latest later = some v ∧ Protected v)) seen
      (ensureFinalizers u) := by
  cases u with
  | failure message => exact nofun
  | object r =>
    obtain ⟨v, last, mirrors⟩ := keeps
    have notMarked : v.metadata.isDeleting = false := mirrors.isDeleting ▸ stays
    have both : (r.metadata.ensureFinalizers ObjectMeta.kccFinalizers).1.HasKccFinalizers := by
      intro f member
      rw [ObjectMeta.mem_ensureFinalizers]
      exact Or.inl member
    refine .ite (fun found => ?_) fun _ => ?_
    · have present := (ObjectMeta.ensureFinalizers_found _ _).mp found
      have same := ObjectMeta.ensureFinalizers_of_found r.metadata _ present
      intro _
      refine ⟨⟨?_, rfl⟩, Or.inr ⟨v, last, notMarked, fun f member => ?_⟩⟩
      · rw [same]
        exact ⟨v, last, mirrors⟩
      · exact (mirrors.finalizers f member).mp (present f member)
    · obtain ⟨finalizers, frame⟩ := r.metadata.ensureFinalizers_frame ObjectMeta.kccFinalizers
      have version : (r.metadata.ensureFinalizers ObjectMeta.kccFinalizers).1.resourceVersion =
          v.metadata.resourceVersion := by
        rw [frame]
        exact mirrors.version
      refine (obeys_bind _ _ _).mpr (.call ⟨v, last, version, .ensured notMarked both, trivial⟩
        fun reply relied => ?_)
      cases reply with
      | error err => exact nofun
      | status message => exact fun _ => ⟨⟨trivial, rfl⟩, Or.inl ⟨_, _, _, rfl⟩⟩
      | object saved =>
        obtain ⟨number, rfl⟩ := relied.update _ v saved rfl last version rfl
        exact fun _ => ⟨⟨⟨_, rfl, mirrors_spec _ _⟩, rfl⟩, Or.inr ⟨_, rfl, notMarked, both⟩⟩

theorem Keeps.finalizeDeletion (deleting : u.isDeleting) {existsAlready : Bool}
    (absent : existsAlready = false → FoundAbsent seen)
    (found : asked seen = [.find (.ok existsAlready)]) :
    Abides (orderedContract σ τ) seen (finalizeDeletion u existsAlready) := by
  cases u with
  | failure message => cases deleting
  | object r =>
    obtain ⟨v, last, mirrors⟩ := keeps
    have marked : v.metadata.isDeleting = true := mirrors.isDeleting ▸ deleting
    unfold Direct.finalizeDeletion
    split
    · trivial
    rename_i controller
    split
    · trivial
    rename_i defender
    split
    · rename_i abandon
      exact handleDeleted_obeys last mirrors marked (Or.inl (mirrors.abandon ▸ abandon))
    rename_i kept
    split
    · rename_i missing
      have gone := absent (by simpa using missing)
      exact handleDeleted_obeys last mirrors marked (Or.inr (Or.inl gone))
    rename_i present
    obtain rfl : existsAlready = true := by simpa using present
    have deletable : Deletable v := by
      refine ⟨marked, mirrors.controller.mp ?_, fun held => defender ?_, ?_⟩
      · simpa [Unstructured.hasFinalizer] using controller
      · simpa [Unstructured.hasFinalizer] using mirrors.defender.mpr held
      · rw [← mirrors.abandon]
        exact eq_false_of_ne_true kept
    refine .call ⟨⟨v, last, deletable⟩, found⟩ fun result _ => ?_
    have still : Keeps (⟨.ask .delete, result⟩ :: seen : Trace (S σ τ)) (.object r) :=
      ⟨v, last, mirrors⟩
    cases result with
    | ok _ =>
      have deleted : Deleted (⟨.ask .delete, .ok ()⟩ :: seen : Trace (S σ τ)) :=
        ⟨.ok (), .head _, nofun⟩
      exact handleDeleted_obeys last mirrors marked (Or.inr (Or.inr deleted))
    | error err =>
      refine .ite (fun already => ?_) fun _ => ?_
      · have deleted : Deleted (⟨.ask .delete, .error err⟩ :: seen : Trace (S σ τ)) := by
          refine ⟨.error err, .head _, fun failed same => ?_⟩
          cases same
          exact already
        exact handleDeleted_obeys last mirrors marked (Or.inr (Or.inr deleted))
      · split
        · exact still.reports.requeueUnresolvableDeps _
        · exact still.reports.handleDeleteFailed err

theorem Keeps.applyObject (stays : u.isDeleting = false) {existsAlready : Bool}
    (found : asked seen = [.find (.ok existsAlready)]) :
    Abides (orderedContract σ τ) seen (applyObject u existsAlready) := by
  refine (ensureFinalizers_obeys keeps stays).bind fun later result ensured => ?_
  obtain ⟨err, ensuredObject⟩ := result
  cases err with
  | some err => trivial
  | none =>
    obtain ⟨⟨kept, same⟩, ready⟩ := ensured rfl
    have asks : Obeys (orderedContract σ τ) (fun later _ => Keeps later ensuredObject) later
        (callAdapter existsAlready) := by
      cases existsAlready with
      | true => exact ⟨⟨ready, same.trans found⟩, fun script _ => kept.answered .update script⟩
      | false => exact ⟨⟨ready, same.trans found⟩, fun script _ => kept.answered .create script⟩
    refine asks.bind fun later script kept => ?_
    refine (Keeps.run script ⟨ensuredObject, false, false⟩ kept).bind fun later result kept => ?_
    obtain ⟨op, result⟩ := result
    cases result with
    | error err => exact (kept.reports.updateError _ _).map _
    | ok _ =>
      exact .ite (fun _ => trivial) fun _ => kept.handleUpToDate.map _

theorem Keeps.actuate (fresh : asked seen = []) :
    Abides (orderedContract σ τ) seen (actuate u) := by
  refine .call ⟨trivial, trivial⟩ fun adapter _ => ?_
  have kept := keeps.answered .adapterForObject adapter
  cases adapter with
  | error err => exact (kept.reports.updateError err err).map _
  | ok _ =>
    refine .call ⟨trivial, fresh⟩ fun found _ => ?_
    have kept := kept.answered .find found
    cases found with
    | error err =>
      dsimp only
      split
      · exact (kept.reports.requeueUnresolvableDeps _).map _
      · exact (kept.reports.handleUnresolvableDeps _).map _
      · exact (kept.reports.handleDeleteFailed err).map _
      · exact (kept.reports.handleUpdateFailed err).map _
    | ok existsAlready =>
      have found : asked (⟨.ask .find, .ok existsAlready⟩ :: ⟨.ask .adapterForObject, .ok ()⟩ ::
          seen : Trace (S σ τ)) = [.find (.ok existsAlready)] :=
        congrArg (Asked.find (.ok existsAlready) :: ·) fresh
      refine .ite (fun deleting => ?_)
        fun stays => kept.applyObject (by simpa using stays) found
      refine (kept.finalizeDeletion deleting ?_ found).map _
      rintro rfl
      exact .head _

end

theorem applyDefaults_obeys {r : Resource σ τ} (holds : Holds seen r) :
    Obeys (orderedContract σ τ) (fun later result => Left seen later result.2) seen
      (applyDefaults r) := by
  refine .call ⟨trivial, trivial⟩ (.onOk (fun value _ => ?_) fun _ => ⟨holds, rfl⟩)
  cases value with
  | none => exact ⟨holds, rfl⟩
  | some value =>
    obtain ⟨v, last, mirrors⟩ := holds
    have annotated : Keeps (⟨.ask .applyDefaults, .ok (some value)⟩ :: seen : Trace (S σ τ))
        (.object { r with
          metadata := r.metadata.setAnnotation stateIntoSpecAnnotation value }) :=
      ⟨v, last, mirrors.setAnnotation value (by decide)⟩
    exact annotated.clientUpdate.bind fun _ _ kept => kept

theorem doReconcile_obeys {r : Resource σ τ} (holds : Holds seen r) (fresh : asked seen = []) :
    Abides (orderedContract σ τ) seen (doReconcile r) := by
  refine .call ⟨trivial, trivial⟩ (.onOk (fun state _ => ?_) fun _ => trivial)
  have kept := Keeps.answered (u := .object r) holds .fetchLiveKCCState (.ok state)
  obtain ⟨cc, ccc⟩ := state
  dsimp only
  split
  · exact .ite (fun _ => (kept.reports.handleDeleteFailed _).map _)
      fun _ => (kept.reports.handleUpdateFailed _).map _
  · refine .ite (fun _ => trivial) fun stays => ?_
    exact (ensureFinalizers_obeys kept (by simpa [Unstructured.isDeleting] using stays)).bind
      fun _ _ _ => trivial
  · refine (applyDefaults_obeys kept).bind fun later result left => ?_
    obtain ⟨err, u⟩ := result
    cases err with
    | some err => trivial
    | none => exact left.1.actuate (left.2.trans fresh)

theorem reconcile_keeps : Abides (orderedContract σ τ) [] (reconcile : Prog (S σ τ) Result) := by
  refine unlessSkipped_abides rfl fun r => ?_
  refine Obeys.bind_any (doReconcile_obeys ⟨r, rfl, mirrors_spec r r.spec⟩ rfl) ?_
  rintro later ⟨⟨requeue, err⟩, u⟩
  cases err with
  | some err => trivial
  | none =>
    cases requeue with
    | true => trivial
    | false =>
      refine .ite (fun _ => trivial) fun _ => .call ⟨trivial, trivial⟩ ?_
      exact .onOk (fun _ _ => trivial) fun _ => trivial

/-- The direct controller keeps to its rules, and calls its adapter in order, in every
reconcile. -/
theorem reconcile_ordered :
    Abides ((contract σ τ).both (ordered σ τ)) [] (reconcile : Prog (S σ τ) Result) := by
  refine reconcile_keeps.under (fun seen c guarded => ?_) fun _ _ _ relied => relied.1
  cases c with
  | ask q => exact guarded
  | get | update _ | updateStatus _ | patchSSA _ | postUpdateStatusTransform _ =>
    exact ⟨guarded, trivial⟩

theorem reconcile_obeys : Abides (contract σ τ) [] (reconcile : Prog (S σ τ) Result) :=
  reconcile_ordered.under (fun _ _ guarded => guarded.1) fun _ _ _ relied => ⟨relied, trivial⟩

end Reconcile

end ConfigConnector.Direct
