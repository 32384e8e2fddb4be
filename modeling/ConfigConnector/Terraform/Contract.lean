import ConfigConnector.Lifecycle.Finalizers
import ConfigConnector.Terraform.Controller

/- Which calls the Terraform controller makes after what it has seen: when it drops
its finalizer, and when it reports an object as ready. -/
namespace ConfigConnector.Terraform

open Interact K8s Actuation Lifecycle Managed

variable {σ τ : Type} {seen : Trace (S σ τ)}

section Rules

variable (seen)

/-- Something that was asked was answered in this way. -/
def Answered (q : Query σ τ) (answer : q.Answer) : Prop :=
  (⟨.ask q, answer⟩ : Sigma (S σ τ).Ans) ∈ seen

/-- The provider has read the resource and found nothing. -/
def FoundAbsent : Prop :=
  ∃ state live : InstanceState, Answered seen (.refresh state) (.ok live) ∧ live.isEmpty = true

/-- The id of the resource is one that the server has not generated yet. -/
def NeverCreated : Prop :=
  ∃ err : GoError, Answered seen .getImportID (.error err) ∧
    err.isClass .serverGeneratedIDNotFound = true

/-- A parent object was looked for and is not there. -/
def Orphaned : Prop :=
  ∃ (key : String) (err : GoError), Answered seen (.getReferencedResource key) (.error err) ∧
    err.isClass .referenceNotFound = true

def Destroyed : Prop := Answered seen .destroy (.ok ())

/-- When the controller may drop its finalizer. -/
def Drops (v : Resource σ τ) : Prop :=
  v.metadata.hasAbandonAnnotation = true ∨ FoundAbsent seen ∨ NeverCreated seen ∨
    Orphaned seen ∨ Destroyed seen

/-- The object came with an answer of the API server. -/
def Read (o : Resource σ τ) : Prop :=
  ∃ entry ∈ seen, Call.object entry.1 entry.2 = some o

/-- An object of this generation was read, and the resource in GCP was found to match
it or made to. -/
def Actuated (generation : Int) : Prop :=
  ∃ original r : Resource σ τ, original.metadata.generation = generation ∧
    ((∃ diff : InstanceDiff, Answered seen (.diff original r) (.ok diff) ∧ diff.isEmpty = true) ∨
      ∃ state : InstanceState, Answered seen (.apply original r) (.ok state))

/-- An object of this generation was read as ready and without the finalizers. Adding
them saves its status again, whatever generation that was about. -/
def Resaved (generation : Int) : Prop :=
  ∃ o, Read seen o ∧ o.metadata.generation = generation ∧ o.metadata.isDeleting = false ∧
    isResourceReady o = true ∧ ¬ o.metadata.HasKccFinalizers

/-- What a status that says ready may say, and over which object. -/
def ReportsOf (v r : Resource σ τ) : Prop :=
  isResourceReady r = true → v.metadata.HasKccFinalizers ∧
    ∃ generation, r.status.observedGeneration = some generation ∧
      (Actuated seen generation ∨ Resaved seen generation)

def Asks : Query σ τ → Prop
  | .diff original _ | .apply original _ => Read seen original
  | _ => True

section Growth

variable {seen} {later : Trace (S σ τ)}

theorem Answered.mono {q : Query σ τ} {answer : q.Answer} (answered : Answered seen q answer)
    (grows : seen <:+ later) : Answered later q answer :=
  grows.subset answered

theorem Read.mono {o : Resource σ τ} (read : Read seen o) (grows : seen <:+ later) :
    Read later o := by
  obtain ⟨entry, member, object⟩ := read
  exact ⟨entry, grows.subset member, object⟩

theorem Actuated.mono {generation : Int} (actuated : Actuated seen generation)
    (grows : seen <:+ later) : Actuated later generation := by
  obtain ⟨original, r, same, found | applied⟩ := actuated
  · obtain ⟨diff, answered, matched⟩ := found
    exact ⟨original, r, same, Or.inl ⟨diff, answered.mono grows, matched⟩⟩
  · obtain ⟨state, answered⟩ := applied
    exact ⟨original, r, same, Or.inr ⟨state, answered.mono grows⟩⟩

theorem Drops.mono {v : Resource σ τ} (drops : Drops seen v) (grows : seen <:+ later) :
    Drops later v := by
  rcases drops with abandon | ⟨state, live, read, gone⟩ | ⟨err, asked, cls⟩ |
    ⟨key, err, asked, cls⟩ | destroyed
  · exact Or.inl abandon
  · exact Or.inr (Or.inl ⟨state, live, read.mono grows, gone⟩)
  · exact Or.inr (Or.inr (Or.inl ⟨err, asked.mono grows, cls⟩))
  · exact Or.inr (Or.inr (Or.inr (Or.inl ⟨key, err, asked.mono grows, cls⟩)))
  · exact Or.inr (Or.inr (Or.inr (Or.inr (Answered.mono destroyed grows))))

/-- The object seen last was read. -/
theorem read_of_latest {v : Resource σ τ} (last : latest seen = some v) : Read seen v := by
  induction seen with
  | nil => cases last
  | cons entry rest ih =>
    rw [latest_cons] at last
    cases object : Call.object entry.1 entry.2 with
    | some u =>
      rw [object] at last
      exact ⟨entry, .head _, object.trans last⟩
    | none =>
      rw [object] at last
      exact (ih last).mono (List.suffix_cons _ _)

end Growth

def rules (σ τ : Type) : WriteRules (Query.Answer (σ := σ) (τ := τ)) σ τ where
  asks := Asks
  -- An object that stays is not changed in its spec before it has the finalizers.
  saves := fun v r => v.metadata.isDeleting = true ∨ r.metadata.HasKccFinalizers ∨ r.spec = v.spec
  going := fun _ _ goes => Or.inl goes
  reports := ReportsOf
  notReady := by
    intro seen v r notReady ready
    rw [notReady] at ready
    cases ready
  drops := Drops
  later := by
    intro seen entry v drops
    exact drops.mono (List.suffix_cons _ _)
  same := by
    intro seen v w abandon drops
    exact drops.imp_left abandon.trans

def contract (σ τ : Type) [DecidableEq σ] : Contract (S σ τ) := (rules σ τ).contract

end Rules

/-- Every call of the program keeps to the rules. -/
abbrev Obedient [DecidableEq σ] {α : Type} (seen : Trace (S σ τ)) (program : Prog (S σ τ) α) :
    Prop :=
  Abides (contract σ τ) seen program

section Lookups

variable [DecidableEq σ] (config : ResourceConfig)

theorem importOrSkip_obeys (id : String) :
    Obeys (contract σ τ) (fun later _ => latest later = latest seen) seen
      (importOrSkip config id) := by
  unfold importOrSkip
  split
  · rfl
  refine .call trivial (.onOk (fun states _ => ?_) fun _ => rfl)
  match states with
  | [] | [_] | _ :: _ :: _ => rfl

/-- What a lookup of the resource says when it says that there is none. -/
def Absent (later : Trace (S σ τ)) (result : Except GoError InstanceState) : Prop :=
  ∀ state, result = .ok state → state.isEmpty = true → FoundAbsent later ∨ NeverCreated later

theorem fetchLiveStateFromID_obeys (id : String) :
    Obeys (contract σ τ) (fun later result => latest later = latest seen ∧ Absent later result)
      seen (fetchLiveStateFromID config id) := by
  refine (importOrSkip_obeys config id).bind fun later imported same => ?_
  cases imported with
  | error err => exact ⟨same, nofun⟩
  | ok state =>
    refine .call trivial (.onOk (fun state _ => ?_) fun _ => ⟨same, nofun⟩)
    refine .call trivial (.onOk (fun live _ => ?_) fun _ => ⟨same, nofun⟩)
    refine ⟨same, fun found success gone => Or.inl ?_⟩
    cases success
    exact ⟨state, live, .head _, gone⟩

theorem fetchLiveState_obeys :
    Obeys (contract σ τ) (fun later result => latest later = latest seen ∧ Absent later result)
      seen (fetchLiveState config) := by
  refine .call trivial fun id _ => ?_
  cases id with
  | error err =>
    exact .ite (fun cls => ⟨rfl, fun state _ _ => Or.inr ⟨err, .head _, cls⟩⟩)
      fun _ => ⟨rfl, nofun⟩
  | ok id =>
    exact @fetchLiveStateFromID_obeys σ τ (⟨.ask .getImportID, .ok id⟩ :: seen) _ config id

theorem fetchLiveStateForDelete_obeys (gvk : GroupVersionKind) (config : ResourceConfig)
    (selfLink : Except GoError String) :
    Obeys (contract σ τ) (fun later result => latest later = latest seen ∧ Absent later result)
      seen (fetchLiveStateForDelete gvk config selfLink) := by
  unfold fetchLiveStateForDelete
  split
  · exact ⟨rfl, nofun⟩
  · split
    · exact fetchLiveStateFromID_obeys config _
    · exact fetchLiveState_obeys config
  · exact fetchLiveState_obeys config

theorem fetchLiveStateForCreateAndUpdate_obeys :
    Obeys (contract σ τ) (fun later _ => latest later = latest seen) seen
      (fetchLiveStateForCreateAndUpdate config) := by
  unfold fetchLiveStateForCreateAndUpdate
  split
  · rfl
  have looked : Obeys (contract σ τ)
      (fun later result => latest later = latest seen ∧ Absent later result) seen
      (fetchLiveState config) := fetchLiveState_obeys config
  exact looked.mono fun _ _ looked => looked.1

theorem hasServerGeneratedID_obeys :
    Obeys (contract σ τ) (fun later _ => latest later = latest seen) seen
      (hasServerGeneratedIDAndHadBeenCreatedOnceAlready config) := by
  unfold hasServerGeneratedIDAndHadBeenCreatedOnceAlready
  split
  · exact .call trivial (.onOk (fun _ _ => rfl) fun _ => .ite (fun _ => rfl) fun _ => rfl)
  · rfl

/-- What the search for a parent says when it says that the resource is an orphan. -/
def MissesParent (later : Trace (S σ τ)) (result : Except GoError (Bool × Option Parent)) : Prop :=
  ∀ parent, result = .ok (true, parent) → Orphaned later

theorem isOrphaned_obeys (keys : List String) : Obeys (contract σ τ)
      (fun later result => latest later = latest seen ∧ MissesParent later result) seen
      (isOrphaned keys) := by
  induction keys generalizing seen with
  | nil => exact ⟨rfl, nofun⟩
  | cons key rest ih =>
    refine .call trivial fun reference _ => ?_
    cases reference with
    | absent =>
      have next := @ih (⟨.ask (.parentReference key), .absent⟩ :: seen)
      exact next
    | unrecognized => exact ⟨rfl, nofun⟩
    | resource isExternal =>
      cases isExternal with
      | true => exact ⟨rfl, nofun⟩
      | false =>
        refine .call trivial fun found _ => ?_
        cases found with
        | ok parent => exact ⟨rfl, nofun⟩
        | error err =>
          exact .ite (fun cls => ⟨rfl, fun parent _ => ⟨key, err, .head _, cls⟩⟩)
            fun _ => ⟨rfl, nofun⟩

theorem findParent_obeys : Obeys (contract σ τ)
      (fun later result => latest later = latest seen ∧ MissesParent later result) seen
      findParent := by
  refine .call trivial (.onOk (fun keys _ => ?_) fun _ => ⟨rfl, nofun⟩)
  cases keys with
  | nil => exact ⟨rfl, nofun⟩
  | cons key rest => exact isOrphaned_obeys (key :: rest)

end Lookups

variable {v r : Resource σ τ}

section Memory

/-- The object is the one seen last, but for what the API server does not look at. -/
abbrev Current (v : Resource σ τ) (later : Trace (S σ τ)) (left : Resource σ τ) : Prop :=
  latest later = some v ∧ Mirrors v left

theorem annotate_mirrors (mirrors : Mirrors v r) {key : String}
    (other : key ≠ deletionPolicyAnnotation) (value : Option String) :
    Mirrors v (annotate r key value) := by
  cases value with
  | some value => exact mirrors.setAnnotation value other
  | none =>
    refine ⟨mirrors.version, mirrors.generation, mirrors.deletion, mirrors.finalizers, ?_⟩
    rw [← mirrors.abandon]
    unfold annotate ObjectMeta.hasAbandonAnnotation ObjectMeta.getAnnotation
    rw [Finmap.lookup_erase_ne (Ne.symm other)]

theorem Current.transformed (now : Current v seen r) (left : σ × τ) :
    Current v seen (transformed r left) :=
  ⟨now.1, (now.2.withSpec left.1).withStatus _⟩

/-- A lease changes nothing but labels. -/
theorem labelled_mirrors (mirrors : Mirrors v r) (labels : StringMap) :
    Mirrors v { r with metadata := { r.metadata with labels } } :=
  ⟨mirrors.version, mirrors.generation, mirrors.deletion, mirrors.finalizers, mirrors.abandon⟩

end Memory

section Handlers

/-- A question does not change the object that was seen last. -/
theorem Current.asked {q : Query σ τ} {answer : q.Answer}
    (now : Current v seen r) : Current v (⟨.ask q, answer⟩ :: seen) r :=
  now

variable [DecidableEq σ]

section

variable (holds : Holds seen r)
include holds

variable (err : GoError)

theorem handleUpdateFailed_obeys : Obedient seen (Managed.handleUpdateFailed r err) :=
  (reportFailed_abides (rules σ τ).hooks holds.reports _ _).map _

theorem handleDeleteFailed_obeys : Obedient seen (Managed.handleDeleteFailed r err) :=
  (reportFailed_abides (rules σ τ).hooks holds.reports _ _).map _

theorem handlePostActuationTransformFailed_obeys :
    Obedient seen (Managed.handlePostActuationTransformFailed r err) :=
  (reportNewsAndReturn_abides (rules σ τ).hooks holds.reports _ _).map _

/-- The unresolved dependency is reported on the object. -/
theorem reportUnresolvableDeps_obeys (requeue : Bool) (err : GoError) :
    Obedient seen (do return Result.ofExcept requeue (← Lifecycle.handleUnresolvableDeps r err)) :=
  (handleUnresolvableDeps_abides (rules σ τ).hooks holds.reports err).map _

theorem updateError_obeys (message : String) (err : GoError) :
    Obedient seen (updateError r message err) := by
  unfold updateError
  split
  · rename_i unwrapped cause
    unfold Managed.handleUnresolvableDeps
    split
    · refine .call trivial fun watch _ => ?_
      have still : Holds (⟨.ask (.watch unwrapped), watch⟩ :: seen : Trace (S σ τ)) r := holds
      cases watch with
      | failed reason => exact handleUpdateFailed_obeys still _
      | notStarted => exact reportUnresolvableDeps_obeys still true unwrapped
      | started => exact reportUnresolvableDeps_obeys still false unwrapped
    · exact reportUnresolvableDeps_obeys holds true unwrapped
  · exact handleUpdateFailed_obeys holds _

end

/-- Dropping the finalizer needs one of the reasons for it. -/
theorem handleDeleted_obeys (now : Current v seen r)
    (goes : v.metadata.isDeleting) (drops : Drops seen v) :
    Obedient seen (Managed.handleDeleted r) := by
  refine .call trivial fun left _ => ?_
  have still : Holds (⟨.ask .postActuationTransform, left⟩ :: seen : Trace (S σ τ)) r :=
    ⟨v, now⟩
  cases left with
  | error err => exact handlePostActuationTransformFailed_obeys still err
  | ok left =>
    have allowed : Drops (⟨.ask .postActuationTransform, .ok left⟩ :: seen : Trace (S σ τ)) v :=
      drops.mono (List.suffix_cons _ _)
    exact Obeys.bind_any (handleDeleted_drops (R := rules σ τ) now.1 (now.transformed left).2 goes
      allowed) fun _ _ => trivial

/-- A lease that is obtained leaves the object seen last as it was. -/
theorem obtainResourceLease_obeys (now : Current v seen r) (gvk : GroupVersionKind) :
    Succeeds (contract σ τ) (Current v) seen
      (obtainResourceLeaseIfNecessary gvk r) := by
  unfold obtainResourceLeaseIfNecessary
  split
  · exact Succeeds.error _
  split
  · exact Succeeds.ok now
  refine .call trivial (.onOk (fun supported _ => ?_) fun _ => nofun)
  cases supported with
  | false => exact Succeeds.error _
  | true =>
    refine .call trivial fun obtained _ => ?_
    have still : Holds (⟨.ask .softObtain, obtained⟩ :: ⟨.ask .isLeasable, .ok true⟩ :: seen :
        Trace (S σ τ)) r := ⟨v, now⟩
    cases obtained with
    | error err =>
      exact Obeys.bind_any (reportNewsAndReturn_abides (rules σ τ).hooks still.reports _ _) nofun
    | ok labels =>
      exact Succeeds.ok ⟨now.1, labelled_mirrors now.2 labels⟩

end Handlers

section UpToDate

variable [DecidableEq σ]

section

variable (now : Current v seen r)
include now

omit [DecidableEq σ] in
theorem annotated_mirrors {key : String}
    (other : key ≠ deletionPolicyAnnotation) (value : Option String) :
    ∀ left, (.ok (annotate r key value) : Except GoError (Resource σ τ)) = .ok left →
      Current v seen left := by
  intro left success
  cases success
  exact ⟨now.1, annotate_mirrors now.2 other value⟩

theorem updateUnreadableFields_obeys (config : ResourceConfig) :
    Succeeds (contract σ τ) (Current v) seen
      (updateMutableButUnreadableFieldsAnnotationFor config r) := by
  unfold updateMutableButUnreadableFieldsAnnotationFor
  split
  · exact .call trivial (.onOk (fun value _ => annotated_mirrors now (by decide) _) fun _ => nofun)
  · exact annotated_mirrors now (by decide) _

theorem updateSecretVersions_obeys (config : ResourceConfig) :
    Succeeds (contract σ τ) (Current v) seen
      (updateObservedSecretVersionsAnnotationFor config r) := by
  unfold updateObservedSecretVersionsAnnotationFor
  split
  · exact .call trivial (.onOk (fun value _ => annotated_mirrors now (by decide) _) fun _ => nofun)
  · exact annotated_mirrors now (by decide) _

section

variable (both : v.metadata.HasKccFinalizers) (actuated : Actuated seen v.metadata.generation)
include both actuated

/-- An object that has its finalizers is saved as ready for the generation that was
actuated. -/
theorem saveReady_obeys :
    Obedient seen (do return Result.ofExcept false (← Lifecycle.handleUpToDate r)) := by
  have held : r.metadata.HasKccFinalizers := fun f member =>
    (now.2.finalizers f member).mpr (both f member)
  refine ((handleUpToDate_saves (R := rules σ τ) now.1 now.2 ?_ ?_).mono
    fun _ _ _ => trivial).map _
  · intro w _ finalizers
    exact Or.inr (Or.inl fun f member => finalizers ▸ held f member)
  intro entry u w finalizers observed _
  refine ⟨fun f member => finalizers ▸ held f member, r.metadata.generation, observed, Or.inl ?_⟩
  rw [now.2.generation]
  exact actuated.mono (List.suffix_cons _ _)

variable [DecidableEq τ]

theorem saveUpToDate_obeys (config : ResourceConfig) (original : Resource σ τ) :
    Obedient seen (saveUpToDate config original r) := by
  refine (updateUnreadableFields_obeys now config).tried ?_ fun _ _ => trivial
  intro later left grows now
  have actuated := actuated.mono grows
  refine (updateSecretVersions_obeys now config).tried ?_ fun _ _ => trivial
  intro later left grows now
  have actuated := actuated.mono grows
  refine .call trivial fun answer _ => ?_
  have still : Holds (⟨.ask .postActuationTransform, answer⟩ :: later : Trace (S σ τ)) left :=
    ⟨v, now⟩
  cases answer with
  | error err => exact handlePostActuationTransformFailed_obeys still err
  | ok resolved =>
    exact .ite (fun _ => trivial) fun _ => saveReady_obeys (now.asked.transformed resolved) both
      (actuated.mono (List.suffix_cons _ _))

theorem handleUpToDate_obeys (config : ResourceConfig) (original : Resource σ τ)
    (liveState : InstanceState) : Obedient seen (handleUpToDate config original r liveState) := by
  refine .call trivial fun resolved _ => ?_
  exact saveUpToDate_obeys (now.asked.transformed resolved) both
    (actuated.mono (List.suffix_cons _ _)) config original

end

end

end UpToDate

section Delete

variable [DecidableEq σ]

section

variable (now : Current v seen r) (goes : v.metadata.isDeleting) (gvk : GroupVersionKind)
  (config : ResourceConfig)
include now goes gvk config

theorem deleteUnderlying_obeys (selfLink : Except GoError String) :
    Obedient seen (deleteUnderlying gvk config selfLink r) := by
  refine (fetchLiveStateForDelete_obeys gvk config selfLink).bind ?_
  rintro later result ⟨same, absent⟩
  have now : Current v later r := ⟨same.trans now.1, now.2⟩
  cases result with
  | error err => exact handleDeleteFailed_obeys ⟨v, now⟩ _
  | ok liveState =>
    refine .ite (fun gone => ?_) fun _ => ?_
    · refine handleDeleted_obeys now goes (Or.inr ?_)
      rcases absent liveState rfl gone with found | never
      · exact Or.inl found
      · exact Or.inr (Or.inl never)
    · refine (obtainResourceLease_obeys now gvk).tried ?_ fun _ _ => trivial
      intro later r _ now
      refine .call trivial fun destroyed _ => ?_
      cases destroyed with
      | error err => exact handleDeleteFailed_obeys ⟨v, now.asked⟩ _
      | ok _ =>
        have done : Destroyed (⟨.ask .destroy, .ok ()⟩ :: later : Trace (S σ τ)) :=
          (.head _)
        exact handleDeleted_obeys now.asked goes
          (Or.inr (Or.inr (Or.inr (Or.inr done))))

theorem resolveParent_obeys (selfLink : Except GoError String) :
    Obedient seen (resolveParent gvk config selfLink r) := by
  refine findParent_obeys.bind ?_
  rintro later result ⟨same, misses⟩
  have now : Current v later r := ⟨same.trans now.1, now.2⟩
  cases result with
  | error err => trivial
  | ok found =>
    obtain ⟨orphaned, parent⟩ := found
    cases orphaned with
    | true =>
      exact handleDeleted_obeys now goes
        (Or.inr (Or.inr (Or.inr (Or.inl (misses parent rfl)))))
    | false =>
      cases parent with
      | none => exact deleteUnderlying_obeys now goes gvk config selfLink
      | some parent =>
        exact .ite (fun _ => reportUnresolvableDeps_obeys ⟨v, now⟩ true _)
          fun _ => deleteUnderlying_obeys now goes gvk config selfLink

theorem finalizeDeletion_obeys : Obedient seen (finalizeDeletion gvk config r) := by
  unfold finalizeDeletion
  split
  · trivial
  split
  · trivial
  have holds : HoldsAt v.metadata seen r := ⟨v, now.1, now.2, _, rfl⟩
  refine (holds.saveCondition (R := rules σ τ) (by decide) "Deleting" "Deletion in progress").tried
    ?_ fun _ _ => trivial
  rintro later saved - ⟨w, last, mirrors, version, same⟩
  have now : Current w later saved := ⟨last, mirrors⟩
  have goes : w.metadata.isDeleting := by
    rw [same]
    exact goes
  refine .ite (fun abandon => ?_) fun _ => ?_
  · exact handleDeleted_obeys now goes (Or.inl (mirrors.abandon ▸ abandon))
  refine .call trivial fun selfLink _ => ?_
  split
  · exact resolveParent_obeys now.asked goes gvk config selfLink
  · exact deleteUnderlying_obeys now.asked goes gvk config selfLink

end

end Delete

section Apply

variable [DecidableEq σ] {r original : Resource σ τ}

omit [DecidableEq σ] in
/-- The status that is saved again with the finalizers says of the generation that was
read what the object said of the one before. -/
theorem resaved_reports (last : latest seen = some original)
    (stays : original.metadata.isDeleting = false)
    (lacks : ¬ original.metadata.HasKccFinalizers) (entry : Sigma (S σ τ).Ans)
    (u w : Resource σ τ) (both : u.metadata.HasKccFinalizers)
    (status : w.status = { original.status with
      observedGeneration := some original.metadata.generation }) :
    ReportsOf (entry :: seen) u w := by
  intro ready
  refine ⟨both, original.metadata.generation, by rw [status],
    Or.inr ⟨original, ?_, rfl, stays, ?_, lacks⟩⟩
  · exact (read_of_latest last).mono (List.suffix_cons _ _)
  · rw [← ready]
    exact (isResourceReady_congr (by rw [status])).symm

section

variable (now : Current original seen r)
include now

theorem ensureFinalizers_obeys (stays : original.metadata.isDeleting = false) :
    Succeeds (contract σ τ)
      (fun later saved => ∃ base, HoldsAt base later saved ∧ Ensured original.metadata base) seen
      (Lifecycle.ensureFinalizers original r ObjectMeta.kccFinalizers) :=
  ensureFinalizers_saves (R := rules σ τ) now.1 now.2 stays
    (fun _ both => Or.inr (Or.inl both)) (resaved_reports now.1 stays)

theorem pause_obeys : Obedient seen (pause original r) := by
  refine .call trivial (.onOk (fun _ _ => .ite (fun _ => trivial) fun stays => ?_) fun _ => trivial)
  have stays : original.metadata.isDeleting = false := by
    rw [← now.2.isDeleting]
    simpa using stays
  refine Obeys.bind_any ((ensureFinalizers_obeys now.asked stays).mono
    fun _ _ _ => trivial) fun later result => ?_
  cases result <;> trivial

variable [DecidableEq τ]

section

variable (stays : original.metadata.isDeleting = false)
include stays

theorem applyDiff_obeys (config : ResourceConfig) (liveState : InstanceState)
    (diff : InstanceDiff) (found : diff.isEmpty → Actuated seen original.metadata.generation) :
    Obedient seen (applyDiff config original r liveState diff) := by
  refine (ensureFinalizers_obeys now stays).tried ?_ fun _ _ => trivial
  rintro later saved grows ⟨base, holds, ensured⟩
  have read : Read later original := (read_of_latest now.1).mono grows
  refine .ite (fun matched => ?_) fun _ => ?_
  · obtain ⟨v, last, mirrors, version, same⟩ := holds
    refine handleUpToDate_obeys ⟨last, mirrors⟩ ?_ ?_ config original liveState
    · rw [same]
      exact ensured.both
    have actuated := (found matched).mono grows
    rw [same]
    exact ensured.generation.symm ▸ actuated
  · refine (holds.saveCondition (R := rules σ τ) (by decide) "Updating" "Update in progress").tried
      ?_ fun _ _ => trivial
    rintro later r grows ⟨v, last, mirrors, version, same⟩
    have now : Current v later r := ⟨last, mirrors⟩
    refine .call (read.mono grows) fun applied _ => ?_
    cases applied with
    | error err => exact handleUpdateFailed_obeys ⟨v, now.asked⟩ _
    | ok newState =>
      refine handleUpToDate_obeys now.asked ?_ ?_ config original newState
      · rw [same]
        exact ensured.both
      · rw [same]
        exact ⟨original, r, ensured.generation.symm, Or.inr ⟨newState, .head _⟩⟩

theorem compareState_obeys (gvk : GroupVersionKind) (config : ResourceConfig)
    (liveState : InstanceState) :
    Obedient seen (compareState gvk config original r liveState) := by
  refine .call trivial fun expanded _ => ?_
  cases expanded with
  | error err => exact updateError_obeys ⟨original, now.asked⟩ _ err
  | ok _ =>
    refine .call trivial fun preApplied _ => ?_
    cases preApplied with
    | error err => exact handleUpdateFailed_obeys ⟨original, now.asked.asked⟩ _
    | ok _ =>
      refine .call (read_of_latest now.1) fun compared _ => ?_
      cases compared with
      | error err => exact handleUpdateFailed_obeys ⟨original, now.asked.asked.asked⟩ _
      | ok diff =>
        refine .ite (fun _ => handleUpdateFailed_obeys ⟨original, now.asked.asked.asked⟩ _)
          fun _ => ?_
        exact applyDiff_obeys now.asked.asked.asked stays config liveState diff
          fun matched => ⟨original, r, rfl, Or.inl ⟨diff, .head _, matched⟩⟩

theorem applyResource_obeys (gvk : GroupVersionKind) (config : ResourceConfig) :
    Obedient seen (applyResource gvk config original r) := by
  refine (fetchLiveStateForCreateAndUpdate_obeys config).bind fun later result same => ?_
  have now : Current original later r := ⟨same.trans now.1, now.2⟩
  cases result with
  | error err => exact updateError_obeys ⟨original, now⟩ _ err
  | ok liveState =>
    refine (obtainResourceLease_obeys now gvk).tried ?_ fun _ _ => trivial
    intro later r _ now
    refine (hasServerGeneratedID_obeys config).bind fun later result same => ?_
    have now : Current original later r := ⟨same.trans now.1, now.2⟩
    cases result with
    | error err => exact handleUpdateFailed_obeys ⟨original, now⟩ err
    | ok created =>
      exact .ite (fun _ => handleUpdateFailed_obeys ⟨original, now⟩ _)
        fun _ => compareState_obeys now stays gvk config liveState

end

theorem sync_obeys (gvk : GroupVersionKind) (config : ResourceConfig) :
    Obedient seen (sync gvk config original r) := by
  unfold sync
  split
  · rename_i goes
    exact finalizeDeletion_obeys now (now.2.isDeleting ▸ goes) gvk config
  rename_i stays
  have stays : original.metadata.isDeleting = false := by
    rw [← now.2.isDeleting]
    simpa using stays
  exact applyResource_obeys now stays gvk config

end

end Apply

section Reconcile

variable [DecidableEq σ] {u r original : Resource σ τ}

/-- The object that goes on is the one the API server answered last. -/
theorem triggerManagedFieldsMetadata_obeys (last : latest seen = some u) :
    Succeeds (contract σ τ) (fun later patched => latest later = some patched) seen
      (triggerManagedFieldsMetadata u) := by
  unfold triggerManagedFieldsMetadata
  split
  · exact Succeeds.ok last
  refine .call ⟨u, last⟩ fun answer _ => ?_
  cases answer with
  | error err => exact .ite (fun _ => Succeeds.ok last) fun _ => Succeeds.error _
  | ok first => exact .call ⟨first, rfl⟩ (.onOk (fun second _ => Succeeds.ok rfl) fun _ => nofun)

theorem handleDefaults_obeys (last : latest seen = some u) (controller : String) :
    Succeeds (contract σ τ) (fun later received => ∀ w, received = some w → latest later = some w)
      seen (handleDefaults controller u) := by
  refine .call trivial (.onOk (fun value _ => ?_) fun _ => nofun)
  cases value with
  | none => exact Succeeds.ok fun w same => same ▸ last
  | some value =>
    have mirrors : Mirrors u { u with
        metadata := u.metadata.setAnnotation stateIntoSpecAnnotation value } :=
      Mirrors.setAnnotation (mirrors_spec u u.spec) value (by decide)
    refine .call ⟨u, last, rfl, mirrors.kept _, Or.inr (Or.inr rfl)⟩ fun reply _ => ?_
    cases reply with
    | error err => exact Succeeds.error _
    | status message => exact Succeeds.ok nofun
    | object saved => exact Succeeds.ok fun w same => same

theorem applyChanges_obeys (now : Current original seen r) :
    Succeeds (contract σ τ) (Current original) seen
      (applyChangesForBackwardsCompatibility r) := by
  have policy : Succeeds (contract σ τ) (Current original) seen
      (ensureManagementConflictPolicy r) := by
    refine .call trivial (.onOk (fun value _ => ?_) fun _ => nofun)
    cases value with
    | none => exact Succeeds.ok now
    | some value => exact Succeeds.ok ⟨now.1, annotate_mirrors now.2 (by decide) _⟩
  refine policy.tried ?_ fun _ _ => nofun
  intro later r _ now
  exact .call trivial (.onOk (fun spec _ => Succeeds.ok ⟨now.1, now.2.withSpec spec⟩)
    fun _ => nofun)

variable [DecidableEq τ]

theorem actuate_obeys (now : Current original seen r)
    (gvk : GroupVersionKind) (config : ResourceConfig) (periodError : GoError → GoError) :
    Obedient seen (actuate original r (sync gvk config) periodError) := by
  refine .call trivial (.onOk (fun state _ => ?_) fun _ => trivial)
  obtain ⟨cc, ccc⟩ := state
  dsimp only
  split
  · exact pause_obeys now.asked
  · trivial
  · refine .call trivial fun left _ => ?_
    cases left with
    | error err =>
      have holds : Holds (⟨.ask .preActuationTransform, .error err⟩ ::
          ⟨.ask .fetchLiveKCCState, .ok (cc, ccc)⟩ :: seen : Trace (S σ τ)) r :=
        ⟨original, now⟩
      exact (reportNewsAndReturn_abides (rules σ τ).hooks holds.reports _ _).map _
    | ok left =>
      refine Obeys.bind_any
        (sync_obeys (now.asked.asked.transformed left) gvk config) ?_
      rintro later ⟨requeue, err⟩
      cases err with
      | some err => trivial
      | none =>
        cases requeue with
        | true => trivial
        | false => exact .call trivial (.onOk (fun _ _ => trivial) fun _ => trivial)

theorem reconcileResource_obeys (last : latest seen = some u) (gvk : GroupVersionKind) :
    Obedient seen (reconcileResource gvk u) := by
  refine .call trivial (.onOk (fun config _ => ?_) fun _ => trivial)
  have now : Current u seen u := ⟨last, mirrors_spec u u.spec⟩
  refine (applyChanges_obeys now.asked).tried ?_ fun _ _ => trivial
  intro later r _ now
  exact actuate_obeys now gvk config id

theorem reconcileObject_obeys (last : latest seen = some u) (gvk : GroupVersionKind) :
    Obedient seen (reconcileObject gvk u) := by
  refine (triggerManagedFieldsMetadata_obeys last).tried (fun later v _ patched => ?_)
    fun _ _ => trivial
  refine (handleDefaults_obeys patched "tf").tried (fun later received _ defaulted => ?_)
    fun _ _ => trivial
  cases received with
  | none => trivial
  | some w => exact reconcileResource_obeys (defaulted w rfl) gvk

/-- The Terraform controller keeps to its rules in every reconcile. -/
theorem reconcile_obeys (gvk : GroupVersionKind) :
    Abides (contract σ τ) [] (reconcile gvk : Prog (S σ τ) Result) := by
  refine unlessSkipped_abides rfl fun u => ?_
  exact .call trivial (.onOk (fun _ _ => reconcileObject_obeys rfl gvk) fun _ => trivial)

end Reconcile

end ConfigConnector.Terraform
