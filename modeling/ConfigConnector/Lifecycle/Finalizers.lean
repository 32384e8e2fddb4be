import ConfigConnector.Lib.Machine
import ConfigConnector.Lifecycle.Rules

/- What the writes of a reconcile may do to an object. The two finalizers are kept,
both added to an object that stays, or the controller's is taken away from one that
goes; a controller says when it may do the last, and what it may report. -/
namespace ConfigConnector.Lifecycle

open Interact K8s

variable {σ τ Q : Type} {A : Q → Type}

/-- What one controller may do. -/
structure WriteRules (A : Q → Type) (σ τ : Type) where
  asks : Trace (calls σ τ A) → Q → Prop
  /-- An object may be saved over the one seen last. -/
  saves : Resource σ τ → Resource σ τ → Prop
  going : ∀ v r, v.metadata.isDeleting = true → saves v r
  /-- The status of an object may be saved over that of the one seen last. -/
  reports : Trace (calls σ τ A) → Resource σ τ → Resource σ τ → Prop
  notReady : ∀ seen v r, isResourceReady r = false → reports seen v r
  /-- The controller finalizer of the object seen last may be dropped. -/
  drops : Trace (calls σ τ A) → Resource σ τ → Prop
  later : ∀ seen entry v, drops seen v → drops (entry :: seen) v
  same : ∀ seen (v w : Resource σ τ),
    w.metadata.hasAbandonAnnotation = v.metadata.hasAbandonAnnotation → drops seen v → drops seen w

/-- How the finalizers of an object `r` that is to be saved relate to those of the
object `v` that it is saved over. -/
inductive Finalizes (dropped : Prop) (v r : Resource σ τ) : Prop where
  | kept (same : ∀ f ∈ ObjectMeta.kccFinalizers, f ∈ r.metadata.finalizers ↔
      f ∈ v.metadata.finalizers)
  | ensured (stays : v.metadata.isDeleting = false) (both : r.metadata.HasKccFinalizers)
  | dropped (goes : v.metadata.isDeleting = true) (allowed : dropped)
      (controller : controllerFinalizerName ∉ r.metadata.finalizers)
      (defender : deletionDefenderFinalizerName ∈ r.metadata.finalizers ↔
        deletionDefenderFinalizerName ∈ v.metadata.finalizers)

namespace WriteRules

variable (R : WriteRules A σ τ)

def guard (seen : Trace (calls σ τ A)) : Call σ τ Q → Prop
  | .get => seen = []
  | .update r => ∃ v, latest seen = some v ∧
      r.metadata.resourceVersion = v.metadata.resourceVersion ∧
      Finalizes (R.drops seen v) v r ∧ R.saves v r
  | .updateStatus r => ∃ v, latest seen = some v ∧
      r.metadata.resourceVersion = v.metadata.resourceVersion ∧ R.reports seen v r
  | .patchSSA _ => ∃ v, latest seen = some v
  | .postUpdateStatusTransform _ => True
  | .ask q => R.asks seen q

def contract [DecidableEq σ] : Contract (calls σ τ A) where
  guard := R.guard
  rely := fun seen c answer => SessionRely seen c answer

/-- What a call makes of the stored object `o`. -/
structure Saved (seen : Trace (calls σ τ A)) (o new : Resource σ τ) : Prop where
  deletion : new.metadata.deletionTimestamp = o.metadata.deletionTimestamp
  finalizes : Finalizes (latest seen = some o ∧ R.drops seen o) o new

end WriteRules

variable {seen : Trace (calls σ τ A)} {R : WriteRules A σ τ}

section Effect

variable [DecidableEq σ] [DecidableEq τ] {server after : Server σ τ} {c : Call σ τ Q}
  {answer : Call.Answer A c}

/-- All that a call can do to the stored object. -/
theorem guarded_write (known : Seen server seen) (guarded : R.guard seen c)
    (answered : server.answers c answer after) :
    (after = server ∧ ∀ u, c.object answer = some u → server.stored = some u) ∨
      ∃ o new, server.stored = some o ∧ R.Saved seen o new ∧ after = (server.write o new).1 ∧
        ∀ u, c.object answer = some u → u = (server.write o new).2 := by
  rcases answers_effect answered with ⟨rfl, read⟩ | ⟨o, new, stored, writes, rfl, object⟩
  · exact Or.inl ⟨rfl, fun u found => (read u found).2⟩
  refine Or.inr ⟨o, new, stored, ?_, rfl, object⟩
  cases writes with
  | update r _ version =>
    obtain ⟨v, last, carries, finalizes, _⟩ := guarded
    obtain rfl := known.writes stored last carries version
    refine ⟨rfl, ?_⟩
    cases finalizes with
    | kept same => exact .kept same
    | ensured stays both => exact .ensured stays both
    | dropped goes allowed controller defender =>
      exact .dropped goes ⟨last, allowed⟩ controller defender
  | updateStatus r _ version => exact ⟨rfl, .kept fun _ _ => Iff.rfl⟩
  | patchSSA annotated _ annotations managedFields others =>
    exact ⟨rfl, .kept fun _ _ => Iff.rfl⟩

end Effect

/-- The object in memory is the one seen last, in all that finalizing depends on. -/
structure Mirrors (v r : Resource σ τ) : Prop where
  version : r.metadata.resourceVersion = v.metadata.resourceVersion
  generation : r.metadata.generation = v.metadata.generation
  deletion : r.metadata.deletionTimestamp = v.metadata.deletionTimestamp
  finalizers : ∀ f ∈ ObjectMeta.kccFinalizers,
    f ∈ r.metadata.finalizers ↔ f ∈ v.metadata.finalizers
  abandon : r.metadata.hasAbandonAnnotation = v.metadata.hasAbandonAnnotation

def Holds (seen : Trace (calls σ τ A)) (r : Resource σ τ) : Prop :=
  ∃ v, latest seen = some v ∧ Mirrors v r

/-- The same, where the metadata of the object seen last is known but for its version. -/
def HoldsAt (base : ObjectMeta) (seen : Trace (calls σ τ A)) (r : Resource σ τ) : Prop :=
  ∃ v, latest seen = some v ∧ Mirrors v r ∧
    ∃ version, v.metadata = { base with resourceVersion := version }

variable {v r : Resource σ τ}

section Mirrors

/-- The spec may be taken for another one. -/
theorem mirrors_spec (v : Resource σ τ) (spec : σ) : Mirrors v { v with spec } :=
  ⟨rfl, rfl, rfl, fun _ _ => Iff.rfl, rfl⟩

section

variable (mirrors : Mirrors v r)
include mirrors

/-- So may all of the status. -/
theorem Mirrors.withStatus (status : Status τ) : Mirrors v { r with status } :=
  ⟨mirrors.version, mirrors.generation, mirrors.deletion, mirrors.finalizers, mirrors.abandon⟩

theorem Mirrors.withSpec (spec : σ) : Mirrors v { r with spec } :=
  ⟨mirrors.version, mirrors.generation, mirrors.deletion, mirrors.finalizers, mirrors.abandon⟩

/-- An annotation may be set that has nothing to do with deletion. -/
theorem Mirrors.setAnnotation {key : String} (value : String)
    (other : key ≠ deletionPolicyAnnotation) :
    Mirrors v { r with metadata := r.metadata.setAnnotation key value } := by
  refine ⟨mirrors.version, mirrors.generation, mirrors.deletion, mirrors.finalizers, ?_⟩
  exact (ObjectMeta.hasAbandon_insert _ _ other).trans mirrors.abandon

theorem Mirrors.isDeleting : r.metadata.isDeleting = v.metadata.isDeleting :=
  ObjectMeta.isDeleting_congr mirrors.deletion

theorem Mirrors.controller :
    controllerFinalizerName ∈ r.metadata.finalizers ↔
      controllerFinalizerName ∈ v.metadata.finalizers :=
  mirrors.finalizers _ (by decide)

theorem Mirrors.defender :
    deletionDefenderFinalizerName ∈ r.metadata.finalizers ↔
      deletionDefenderFinalizerName ∈ v.metadata.finalizers :=
  mirrors.finalizers _ (by decide)

theorem Mirrors.kept (dropped : Prop) : Finalizes dropped v r :=
  .kept mirrors.finalizers

end

end Mirrors

section Handlers

variable [DecidableEq σ] {base : ObjectMeta}

theorem WriteRules.hooks (R : WriteRules A σ τ) : Hooks R.contract := fun _ _ => trivial

theorem Holds.reports (holds : Holds seen r) : Reports R.contract seen r := by
  obtain ⟨v, last, mirrors⟩ := holds
  intro reason message
  exact ⟨v, last, mirrors.version, R.notReady _ _ _ (by simp [conditioned])⟩

/-- Saving the status leaves the object in memory as the one seen last, and changes
nothing of the metadata but the version. -/
theorem HoldsAt.updateStatus (holds : HoldsAt base seen r) (reports : ∀ v, R.reports seen v r) :
    Succeeds R.contract (HoldsAt base) seen (updateStatus r) := by
  obtain ⟨v, last, mirrors, number, same⟩ := holds
  refine updateStatus_obeys R.hooks ⟨v, last, mirrors.version, reports v⟩
    (nofun) ?_
  intro u spec relied _ saved success
  cases success
  obtain ⟨version, rfl⟩ := relied.updateStatus _ v u rfl last mirrors.version rfl
  refine ⟨_, rfl, mirrors_spec _ spec, version, ?_⟩
  change { v.metadata with resourceVersion := version } = _
  rw [same]

theorem HoldsAt.saveCondition (holds : HoldsAt base seen r) {status : ConditionStatus}
    (notTrue : status ≠ .true) (reason message : String) :
    Succeeds R.contract (HoldsAt base) seen (saveCondition r status reason message) := by
  obtain ⟨v, last, mirrors, same⟩ := holds
  have conditioned : HoldsAt base seen (conditioned r status reason message) :=
    ⟨v, last, mirrors.withStatus _, same⟩
  refine conditioned.updateStatus fun v => R.notReady _ _ _ ?_
  simpa [Lifecycle.conditioned] using notTrue

theorem updateAPIServer_saves (last : latest seen = some v)
    (version : r.metadata.resourceVersion = v.metadata.resourceVersion)
    (finalizes : Finalizes (R.drops seen v) v r) (saves : R.saves v (removeSystemLabels r))
    (reports : ∀ entry u w, u.metadata.finalizers = r.metadata.finalizers → w.status =
      { r.status with observedGeneration := some r.metadata.generation } →
      R.reports (entry :: seen) u w) :
    Succeeds R.contract Holds seen (updateAPIServer r) := by
  have guarded : R.guard seen (.update (removeSystemLabels r)) := by
    refine ⟨v, last, version, ?_, saves⟩
    cases finalizes with
    | kept same => exact .kept same
    | ensured stays both => exact .ensured stays both
    | dropped goes allowed controller defender => exact .dropped goes allowed controller defender
  refine updateAPIServer_obeys R.hooks guarded ?_ (nofun) ?_ ?_
  · intro u relied
    obtain ⟨number, rfl⟩ := relied.update _ v u rfl last version rfl
    exact ⟨_, rfl, rfl, reports _ _ _ rfl rfl⟩
  · intro u _ _ _ saved success
    cases success
    exact ⟨u, rfl, mirrors_spec u u.spec⟩
  · intro u u' spec _ _ _ saved success
    cases success
    exact ⟨u', rfl, mirrors_spec u' spec⟩

/-- The object is saved as ready for the generation it has in memory. -/
theorem handleUpToDate_saves (last : latest seen = some v) (mirrors : Mirrors v r)
    (saves : ∀ w, w.spec = r.spec → w.metadata.finalizers = r.metadata.finalizers → R.saves v w)
    (reports : ∀ entry u w, u.metadata.finalizers = r.metadata.finalizers →
      w.status.observedGeneration = some r.metadata.generation → R.reports (entry :: seen) u w) :
    Succeeds R.contract Holds seen (handleUpToDate r) := by
  have ready : Mirrors v (setCondition r .true upToDate upToDateMessage) := mirrors.withStatus _
  refine updateAPIServer_saves last ready.version (ready.kept _) (saves _ rfl rfl) ?_
  intro entry u w finalizers status
  exact reports entry u w finalizers (by rw [status]; rfl)

/-- The finalizer is dropped in the second write, from the object as the first one
left it. -/
theorem handleDeleted_drops (last : latest seen = some v) (mirrors : Mirrors v r)
    (goes : v.metadata.isDeleting) (allowed : R.drops seen v) :
    Abides R.contract seen (handleDeleted r) := by
  have saves : Succeeds R.contract (fun later saved =>
      ∃ w, latest later = some w ∧ Mirrors w saved ∧ w.metadata.isDeleting = true ∧
        R.drops later w ∧ isResourceReady saved = false) seen
      (saveCondition r .false "Deleted" "Successfully deleted") := by
    have notReady : isResourceReady (conditioned r .false "Deleted" "Successfully deleted") =
        false := by simp [conditioned]
    refine updateStatus_obeys R.hooks ⟨v, last, mirrors.version, R.notReady _ _ _ notReady⟩
      (nofun) ?_
    intro u spec relied _ saved success
    cases success
    obtain ⟨version, rfl⟩ := relied.updateStatus _ v u rfl last mirrors.version rfl
    refine ⟨_, rfl, mirrors_spec _ spec, goes, ?_, notReady⟩
    exact R.later _ _ _ (R.later _ _ _ (R.same _ v _ rfl allowed))
  refine saves.tried ?_ fun _ _ => trivial
  rintro later saved - ⟨w, lastIs, mirrored, marked, allowedStill, notReady⟩
  obtain ⟨finalizers, frame⟩ := saved.metadata.removeFinalizer_frame controllerFinalizerName
  refine Obeys.mono (updateAPIServer_saves lastIs ?_ (.dropped marked allowedStill ?_ ?_)
    (R.going _ _ marked) ?_) fun _ _ _ => trivial
  · rw [frame]
    exact mirrored.version
  · rw [ObjectMeta.mem_removeFinalizer]
    exact fun present => present.2 rfl
  · rw [ObjectMeta.mem_removeFinalizer]
    have other : deletionDefenderFinalizerName ≠ controllerFinalizerName := by decide
    exact (and_iff_left other).trans mirrored.defender
  · intro entry u reported _ status
    refine R.notReady _ _ _ ?_
    rw [isResourceReady_congr (r := saved) (by rw [status]), notReady]

/-- The metadata of an object after its finalizers have been ensured. -/
structure Ensured (original base : ObjectMeta) : Prop where
  stays : base.isDeleting = false
  both : base.HasKccFinalizers
  generation : base.generation = original.generation

/-- The status that the object was read with is saved again, under the generation
that was read, if a finalizer was missing. -/
theorem ensureFinalizers_saves {original : Resource σ τ} (last : latest seen = some original)
    (mirrors : Mirrors original r) (stays : original.metadata.isDeleting = false)
    (saves : ∀ w, w.metadata.HasKccFinalizers → R.saves original w)
    (reports : ¬ original.metadata.HasKccFinalizers → ∀ entry u w,
      u.metadata.HasKccFinalizers → w.status =
        { original.status with observedGeneration := some original.metadata.generation } →
      R.reports (entry :: seen) u w) :
    Succeeds R.contract (fun later saved =>
        ∃ base, HoldsAt base later saved ∧ Ensured original.metadata base) seen
      (ensureFinalizers original r ObjectMeta.kccFinalizers) := by
  unfold ensureFinalizers
  dsimp only
  split
  · rename_i found
    have present := (ObjectMeta.ensureFinalizers_found _ _).mp found
    have same := ObjectMeta.ensureFinalizers_of_found r.metadata _ present
    intro saved success
    cases success
    rw [same]
    refine ⟨original.metadata, ⟨original, last, mirrors, _, rfl⟩, stays, ?_, rfl⟩
    exact fun f member => (mirrors.finalizers f member).mp (present f member)
  rename_i missing
  have lacks : ¬ original.metadata.HasKccFinalizers := by
    intro both
    refine missing ((ObjectMeta.ensureFinalizers_found _ _).mpr fun f member => ?_)
    exact (mirrors.finalizers f member).mpr (both f member)
  split
  · rename_i found
    exact absurd ((ObjectMeta.ensureFinalizers_found _ _).mp found) lacks
  have both : (original.metadata.ensureFinalizers ObjectMeta.kccFinalizers).1.HasKccFinalizers := by
    intro f member
    rw [ObjectMeta.mem_ensureFinalizers]
    exact Or.inl member
  obtain ⟨finalizers, frame⟩ := original.metadata.ensureFinalizers_frame ObjectMeta.kccFinalizers
  rw [frame] at both ⊢
  have saved : Succeeds R.contract (fun later saved =>
      ∃ u, latest later = some u ∧ saved.metadata = u.metadata ∧
        Ensured original.metadata u.metadata ∧
        u.metadata.hasAbandonAnnotation = original.metadata.hasAbandonAnnotation) seen
      (updateAPIServer { original with metadata := { original.metadata with finalizers } }) := by
    refine updateAPIServer_obeys R.hooks
      ⟨original, last, rfl, .ensured stays both, saves _ both⟩ ?_
      (nofun) ?_ ?_
    · intro u relied
      obtain ⟨version, rfl⟩ := relied.update _ original u rfl last rfl rfl
      exact ⟨_, rfl, rfl, reports lacks _ _ _ both rfl⟩
    · intro u relied goes _ saved success
      obtain ⟨version, rfl⟩ := relied.update _ original u rfl last rfl rfl
      have goesOriginal : original.metadata.isDeleting = true := goes
      exact absurd goesOriginal (by rw [stays]; exact Bool.false_ne_true)
    · intro u u' spec relied written _ saved success
      cases success
      obtain ⟨version, rfl⟩ := relied.update _ original u rfl last rfl rfl
      obtain ⟨again, rfl⟩ := written.updateStatus _ _ u' rfl rfl rfl rfl
      refine ⟨_, rfl, rfl, ⟨stays, both, ?_⟩, rfl⟩
      simp [Resource.withVersion, Resource.updatedBy, removeSystemLabels]
  refine saved.tried ?_ fun _ _ => nofun
  rintro later saved - ⟨u, lastIs, metadata, ensured, abandon⟩
  obtain ⟨_, frameMemory⟩ := r.metadata.ensureFinalizers_frame ObjectMeta.kccFinalizers
  refine Succeeds.ok ⟨u.metadata, ⟨u, lastIs, ?_, _, rfl⟩, ensured⟩
  rw [metadata, frameMemory]
  refine ⟨rfl, rfl, rfl, fun _ _ => Iff.rfl, ?_⟩
  -- The annotations are those in memory, where the deletion policy is as it was read.
  exact mirrors.abandon.trans abandon.symm

end Handlers

end ConfigConnector.Lifecycle
