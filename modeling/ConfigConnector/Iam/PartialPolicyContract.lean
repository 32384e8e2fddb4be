import ConfigConnector.Iam.Merge
import ConfigConnector.Iam.PartialPolicy
import ConfigConnector.Lifecycle.Rules

/- What one reconcile of a partial policy does, call by call: the policy it sets
follows from the object and the policy it read, its updates leave the spec alone,
and it records bindings as applied only after it has set them. -/
namespace ConfigConnector.Iam.PartialPolicy

open Interact K8s Lifecycle

/-- The policy that was read last. -/
def readPolicy : Trace S → Option IAMPolicy
  | [] => none
  | ⟨.ask (.getPolicy _), .ok policy⟩ :: _ => some policy
  | _ :: rest => readPolicy rest

/-- A policy was set, and the call said so. -/
def Applied : Trace S → Prop
  | [] => False
  | ⟨.ask (.setPolicy _), .ok _⟩ :: _ => True
  | _ :: rest => Applied rest

variable (identity : Member → Option MemberSource → String → Member) (pp : IAMPartialPolicy)

/-- The grants an object asks for, when its members have these identities. -/
def specGrants : Set Grant :=
  resolvedGrants (fun member source ns => .ok (identity member source ns)) pp.metadata.ns
    pp.spec.bindings

def appliedGrants : Set Grant :=
  grants pp.status.fields.lastAppliedBindings

/-- What a policy with the grants `live` is to grant after the reconcile of `pp`. -/
def target (live : Set Grant) : Set Grant :=
  fun g => (pp.metadata.isDeleting = false ∧ g ∈ specGrants identity pp) ∨
    (g ∈ live ∧ g ∉ appliedGrants pp)

theorem mem_target {pp : IAMPartialPolicy} {live : Set Grant} {g : Grant} :
    g ∈ target identity pp live ↔
      (pp.metadata.isDeleting = false ∧ g ∈ specGrants identity pp) ∨
        (g ∈ live ∧ g ∉ appliedGrants pp) := Iff.rfl

/-- The bindings that are recorded for `pp` once its policy is set. -/
def Records (lastApplied : List IAMPolicyBinding) : Prop :=
  grants lastApplied = if pp.metadata.isDeleting then ∅ else specGrants identity pp

/-- Everything of an object that the computation depends on. -/
structure SameBase (v pp : IAMPartialPolicy) : Prop where
  version : pp.metadata.resourceVersion = v.metadata.resourceVersion
  ns : pp.metadata.ns = v.metadata.ns
  deletion : pp.metadata.deletionTimestamp = v.metadata.deletionTimestamp
  spec : pp.spec = v.spec
  fields : pp.status.fields = v.status.fields

def guard (seen : Trace S) : S.Op → Prop
  | .get => seen = []
  | .update r => ∃ v, latest seen = some v ∧
      r.metadata.resourceVersion = v.metadata.resourceVersion ∧ r.spec = v.spec
  | .updateStatus r => ∃ v, latest seen = some v ∧
      r.metadata.resourceVersion = v.metadata.resourceVersion ∧
      (r.status.fields.lastAppliedBindings = v.status.fields.lastAppliedBindings ∨
        Applied seen ∧ Records identity v r.status.fields.lastAppliedBindings)
  | .ask (.setPolicy policy) => ∃ v live, latest seen = some v ∧ readPolicy seen = some live ∧
      policy.spec.etag = live.spec.etag ∧ policy.spec.auditConfigs = live.spec.auditConfigs ∧
      grants policy.spec.bindings = target identity v (grants live.spec.bindings)
  | .patchSSA _ => False
  | _ => True

/-- No override is registered for this kind, and a member has one identity. -/
def rely (seen : Trace S) (c : S.Op)
    (answer : Call.Answer Query.Answer c) : Prop :=
  SessionRely seen c answer ∧
    match c, answer with
    | .postUpdateStatusTransform r, answer => ∀ spec, answer = .ok spec → spec = r.spec
    | .ask .resolver, resolver => ∀ member source ns found,
        resolver member source ns = .ok found → found = identity member source ns
    | _, _ => True

def contract : Contract S where
  guard := guard identity
  rely := rely identity

/-- What a write of the reconcile may make of the object it saw last. -/
structure SavedFrom (seen : Trace S) (v new : IAMPartialPolicy) : Prop where
  ns : new.metadata.ns = v.metadata.ns
  deletion : new.metadata.deletionTimestamp = v.metadata.deletionTimestamp
  spec : new.spec = v.spec
  records : new.status.fields.lastAppliedBindings = v.status.fields.lastAppliedBindings ∨
    Applied seen ∧ Records identity v new.status.fields.lastAppliedBindings

variable {seen : Trace S}

section Base

variable {identity} {v pp : IAMPartialPolicy}

theorem SameBase.refl (pp : IAMPartialPolicy) : SameBase pp pp := ⟨rfl, rfl, rfl, rfl, rfl⟩

theorem SameBase.isDeleting (same : SameBase v pp) :
    pp.metadata.isDeleting = v.metadata.isDeleting :=
  ObjectMeta.isDeleting_congr same.deletion

theorem SameBase.specGrants (same : SameBase v pp) :
    specGrants identity pp = specGrants identity v := by
  rw [PartialPolicy.specGrants, same.ns, same.spec, ← PartialPolicy.specGrants]

theorem SameBase.appliedGrants (same : SameBase v pp) : appliedGrants pp = appliedGrants v := by
  rw [PartialPolicy.appliedGrants, same.fields, ← PartialPolicy.appliedGrants]

theorem sameBase_ensured (pp : IAMPartialPolicy) : SameBase pp (ensured pp) := by
  obtain ⟨finalizers, frame⟩ := pp.metadata.ensureFinalizers_frame ObjectMeta.kccFinalizers
  rw [ensured, frame]
  exact ⟨rfl, rfl, rfl, rfl, rfl⟩

theorem SameBase.trans {w : IAMPartialPolicy} (first : SameBase v pp) (second : SameBase pp w) :
    SameBase v w :=
  ⟨second.version.trans first.version, second.ns.trans first.ns,
    second.deletion.trans first.deletion, second.spec.trans first.spec,
    second.fields.trans first.fields⟩

variable {new : IAMPartialPolicy}

theorem SavedFrom.isDeleting (saved : SavedFrom identity seen v new) :
    new.metadata.isDeleting = v.metadata.isDeleting :=
  ObjectMeta.isDeleting_congr saved.deletion

theorem SavedFrom.specGrants (saved : SavedFrom identity seen v new) :
    specGrants identity new = specGrants identity v := by
  rw [PartialPolicy.specGrants, saved.ns, saved.spec, ← PartialPolicy.specGrants]

end Base

section Effect

variable {identity} {server after : Server IAMPartialPolicySpec AppliedBindings}
  {c : S.Op} {answer : Call.Answer Query.Answer c}

/-- All that a call other than the first read can do to the stored object. -/
theorem guarded_write (known : Seen server seen) (guarded : guard identity seen c)
    (notGet : c ≠ .get) (answered : server.answers c answer after) :
    (after = server ∧ c.object answer = none) ∨
      ∃ v new, latest seen = some v ∧ server.stored = some v ∧ SavedFrom identity seen v new ∧
        after = (server.write v new).1 ∧
        ∀ u, c.object answer = some u → u = (server.write v new).2 := by
  rcases answers_effect answered with ⟨rfl, read⟩ | ⟨o, new, stored, writes, rfl, object⟩
  · refine Or.inl ⟨rfl, ?_⟩
    cases found : c.object answer with
    | none => rfl
    | some u => exact absurd (read u found).1 notGet
  · refine Or.inr ?_
    cases writes with
    | update r _ version =>
      obtain ⟨v, last, carries, spec⟩ := guarded
      obtain rfl := known.writes stored last carries version
      exact ⟨o, o.updatedBy r, last, stored, ⟨rfl, rfl, spec, Or.inl rfl⟩, rfl, object⟩
    | updateStatus r _ version =>
      obtain ⟨v, last, carries, records⟩ := guarded
      obtain rfl := known.writes stored last carries version
      exact ⟨o, { o with status := r.status }, last, stored, ⟨rfl, rfl, rfl, records⟩, rfl,
        object⟩
    | patchSSA annotated _ annotations managedFields others => exact absurd guarded id

/-- After such a write the object seen last is the old one or the written one. -/
theorem latest_written {v new : IAMPartialPolicy} (last : latest seen = some v)
    (object : ∀ u, c.object answer = some u → u = (server.write v new).2)
    (w : IAMPartialPolicy) (found : latest (⟨c, answer⟩ :: seen : Trace S) = some w) :
    w = v ∨ ∃ version, w = new.withVersion version := by
  rw [latest_cons] at found
  cases answerObject : c.object answer with
  | none =>
    rw [answerObject, Option.none_or, last] at found
    cases found
    exact Or.inl rfl
  | some u =>
    rw [answerObject, Option.some_or, Option.some.injEq] at found
    obtain ⟨version, same⟩ := write_answer server v new
    exact Or.inr ⟨version, by rw [← found, object u answerObject, same]⟩

end Effect

/-- The object in memory is the one seen last, but for finalizers, labels,
annotations and conditions. -/
def Holds (seen : Trace S) (pp : IAMPartialPolicy) : Prop :=
  ∃ v, latest seen = some v ∧ SameBase v pp

/-- The object may be saved: it is the one seen last, and the bindings it records
are those that were recorded or those that were set. -/
structure Savable (seen : Trace S) (v r : IAMPartialPolicy) : Prop where
  last : latest seen = some v
  version : r.metadata.resourceVersion = v.metadata.resourceVersion
  spec : r.spec = v.spec
  records : r.status.fields.lastAppliedBindings = v.status.fields.lastAppliedBindings ∨
    Applied seen ∧ Records identity v r.status.fields.lastAppliedBindings

section Handlers

variable {identity} {v pp r : IAMPartialPolicy}

theorem contract_hooks : Hooks (contract identity) := fun _ _ => trivial

theorem SameBase.savable (same : SameBase v pp) (last : latest seen = some v) :
    Savable identity seen v pp :=
  ⟨last, same.version, same.spec, Or.inl (by rw [same.fields])⟩

theorem Savable.guard_status (savable : Savable identity seen v r) (status : ConditionStatus)
    (reason message : String) :
    (contract identity).guard seen (.updateStatus (conditioned r status reason message)) :=
  ⟨v, savable.last, savable.version, savable.records⟩

theorem Holds.reports (holds : Holds seen pp) : Reports (contract identity) seen pp := by
  obtain ⟨v, last, same⟩ := holds
  intro reason message
  exact (same.savable last).guard_status .false reason message

section

variable (savable : Savable identity seen v r)
include savable

/-- Saving an object keeps to the contract, whatever the server answers. -/
theorem Savable.updateAPIServer :
    Abides (contract identity) seen (Lifecycle.updateAPIServer r) := by
  refine updateAPIServer_obeys contract_hooks ⟨v, savable.last, savable.version, savable.spec⟩ ?_
    (fun _ _ => trivial) (fun _ _ _ _ => trivial) fun _ _ _ _ _ _ => trivial
  intro u relied
  obtain ⟨version, rfl⟩ :=
    relied.1.update (removeSystemLabels r) v u rfl savable.last savable.version rfl
  refine ⟨_, rfl, rfl, ?_⟩
  rcases savable.records with kept | ⟨applied, recorded⟩
  · exact Or.inl kept
  refine Or.inr ⟨applied, ?_⟩
  -- The update leaves the spec and the deletion mark as they were.
  have spec : (removeSystemLabels r).spec = v.spec := savable.spec
  simp only [Records, specGrants, Resource.updatedBy, Resource.withVersion,
    ObjectMeta.isDeleting, spec] at recorded ⊢
  exact recorded

theorem Savable.handleUpToDate : Abides (contract identity) seen (Lifecycle.handleUpToDate r) :=
  Savable.updateAPIServer (v := v) ⟨savable.last, savable.version, savable.spec, savable.records⟩

theorem Savable.handleDeleted :
    Abides (contract identity) seen (PartialPolicy.handleDeleted r) := by
  refine Obeys.bind_any ?_ fun _ _ => trivial
  have saves : Succeeds (contract identity) Holds seen
      (saveCondition r .false "Deleted" "Successfully deleted") := by
    refine updateStatus_obeys contract_hooks (savable.guard_status _ _ _)
      (nofun) ?_
    intro u spec relied transformed saved success
    cases success
    cases transformed.2 spec rfl
    exact ⟨u, rfl, SameBase.refl u⟩
  refine saves.tried (fun later saved _ ⟨w, last, same⟩ => ?_) fun _ _ => trivial
  obtain ⟨finalizers, frame⟩ := saved.metadata.removeFinalizer_frame controllerFinalizerName
  refine Savable.updateAPIServer (v := w) ⟨last, ?_, same.spec, Or.inl (by rw [same.fields])⟩
  rw [frame]
  exact same.version

end

section

variable (holds : Holds seen pp)
include holds

theorem Holds.handleDeleted : Abides (contract identity) seen (PartialPolicy.handleDeleted pp) := by
  obtain ⟨v, last, same⟩ := holds
  exact (same.savable last).handleDeleted

variable (err : GoError)

theorem Holds.handleUpdateFailed :
    Abides (contract identity) seen (PartialPolicy.handleUpdateFailed pp err) :=
  (reportFailed_abides contract_hooks holds.reports _ _).map _

theorem Holds.handleDeleteFailed :
    Abides (contract identity) seen (PartialPolicy.handleDeleteFailed pp err) :=
  (reportFailed_abides contract_hooks holds.reports _ _).map _

theorem Holds.unresolvableDeps (requeue : Bool) (err : GoError) :
    Abides (contract identity) seen
      (do return Result.ofExcept requeue (← Lifecycle.handleUnresolvableDeps pp err)) :=
  (handleUnresolvableDeps_abides contract_hooks holds.reports err).map _

/-- An answer without an object leaves what is held as it was. -/
theorem Holds.asked (q : Query) (answer : q.Answer) : Holds (⟨.ask q, answer⟩ :: seen) pp := holds

theorem Holds.handleUnresolvableDeps :
    Abides (contract identity) seen
      (PartialPolicy.handleUnresolvableDeps pp err) := by
  unfold PartialPolicy.handleUnresolvableDeps
  split
  · refine .call trivial fun watch _ => ?_
    have still := holds.asked (.watch err) watch
    cases watch with
    | failed reason => exact still.handleUpdateFailed _
    | notStarted => exact still.unresolvableDeps true err
    | started => exact still.unresolvableDeps false err
  · exact holds.unresolvableDeps true err

theorem Holds.updateError (err reported : GoError) :
    Abides (contract identity) seen
      (PartialPolicy.updateError pp err reported) := by
  unfold PartialPolicy.updateError
  split
  · exact holds.handleUnresolvableDeps _
  · exact holds.handleUpdateFailed reported

end

end Handlers

section Reconcile

variable {identity} {pp : IAMPartialPolicy}

/-- The remaining bindings are the target of an object that is being deleted. -/
theorem remaining_target {v : IAMPartialPolicy} (same : SameBase v pp)
    (deleting : pp.metadata.isDeleting) (orders : GoMap.Orders) (live : IAMPolicy) :
    grants (toDesiredPolicy (computePartialPolicyWithRemainingBindings orders pp live)
      live).spec.bindings = target identity v (grants live.spec.bindings) := by
  have marked : v.metadata.isDeleting = true := same.isDeleting ▸ deleting
  rw [toDesiredPolicy, computePartialPolicyWithRemainingBindings_grants]
  ext g
  rw [← appliedGrants, same.appliedGrants]
  simp [mem_target, marked]

theorem Holds.finalizeDeletion (holds : Holds seen pp) (deleting : pp.metadata.isDeleting) :
    Abides (contract identity) seen (PartialPolicy.finalizeDeletion pp) := by
  obtain ⟨v, last, same⟩ := holds
  unfold PartialPolicy.finalizeDeletion
  split
  · trivial
  split
  · trivial
  split
  · exact Holds.handleDeleted ⟨v, last, same⟩
  refine .call trivial fun read _ => ?_
  have held : Holds (⟨.ask (.getPolicy pp.spec.resourceReference), read⟩ :: seen) pp :=
    ⟨v, last, same⟩
  cases read with
  | error err =>
    refine .ite (fun _ => held.handleDeleted) fun _ => ?_
    split
    · exact held.unresolvableDeps true _
    · exact held.handleDeleteFailed err
  | ok live =>
    refine .call trivial fun orders _ => ?_
    refine .call ⟨v, live, last, rfl, rfl, rfl, remaining_target same deleting orders live⟩
      fun set _ => ?_
    cases set with
    | error err =>
      have held := (held.asked .orders orders).asked (.setPolicy (toDesiredPolicy
        (computePartialPolicyWithRemainingBindings orders pp live) live)) (.error err)
      dsimp only
      split
      · exact held.handleUnresolvableDeps _
      · exact held.handleDeleteFailed _
    | ok _ =>
      have marked : v.metadata.isDeleting = true := same.isDeleting ▸ deleting
      refine Savable.handleDeleted (v := v)
        ⟨last, same.version, same.spec, Or.inr ⟨trivial, ?_⟩⟩
      simp [Records, marked, computePartialPolicyWithRemainingBindings, withBindings]

variable {resolver : MemberIdentityResolver}

theorem resolvedGrants_identity {ns : String}
    {bindings : List IAMPartialPolicyBinding} (resolves : Resolves resolver ns bindings)
    (known : ∀ member source ns found,
      resolver member source ns = .ok found → found = identity member source ns) :
    resolvedGrants resolver ns bindings =
      resolvedGrants (fun member source ns => .ok (identity member source ns)) ns bindings := by
  ext g
  simp only [mem_resolvedGrants]
  refine exists_congr fun b => and_congr_right fun member => and_congr_right fun _ =>
    exists_congr fun m => and_congr_right fun written => ?_
  obtain ⟨found, success⟩ := resolves b member m written
  rw [success, ← known _ _ _ found success]

/-- The merged bindings are the target of an object that is not being deleted. -/
theorem merged_target {v desired : IAMPartialPolicy} (same : SameBase v pp)
    (live : pp.metadata.isDeleting = false) {orders : GoMap.Orders} {policy : IAMPolicy}
    (known : ∀ member source ns found,
      resolver member source ns = .ok found → found = identity member source ns)
    (computed : computePartialPolicyWithMergedBindings orders pp policy resolver = .ok desired) :
    grants (toDesiredPolicy desired policy).spec.bindings =
        target identity v (grants policy.spec.bindings) ∧
      Records identity v desired.status.fields.lastAppliedBindings ∧
      desired.metadata = pp.metadata ∧ desired.spec = pp.spec := by
  have notMarked : v.metadata.isDeleting = false := same.isDeleting ▸ live
  have resolves : Resolves resolver pp.metadata.ns pp.spec.bindings := by
    by_contra unresolved
    obtain ⟨err, failed⟩ :=
      computePartialPolicyWithMergedBindings_error orders pp policy resolver unresolved
    rw [failed] at computed
    cases computed
  obtain ⟨lastApplied, all, success, applied, merged, _, _⟩ :=
    computePartialPolicyWithMergedBindings_ok orders pp policy resolver resolves
  rw [success] at computed
  cases computed
  rw [resolvedGrants_identity resolves known, ← specGrants, same.specGrants] at applied merged
  refine ⟨?_, ?_, rfl, rfl⟩
  · change grants all = _
    rw [merged, ← appliedGrants, same.appliedGrants]
    ext g
    simp [mem_target, notMarked]
  · simp only [Records, notMarked, Bool.false_eq_true, ↓reduceIte]
    exact applied

theorem Holds.applyPolicy (holds : Holds seen pp) (live : pp.metadata.isDeleting = false) :
    Abides (contract identity) seen (PartialPolicy.applyPolicy pp) := by
  refine .call trivial fun got _ => ?_
  have held := holds.asked (.getPolicy pp.spec.resourceReference) got
  cases got with
  | error err => exact (held.updateError err err).map _
  | ok policy =>
    obtain ⟨v, last, read⟩ := held
    have same : SameBase v (ensured pp) := read.trans (sameBase_ensured pp)
    have notMarked : (ensured pp).metadata.isDeleting = false :=
      (sameBase_ensured pp).isDeleting.trans live
    refine .call trivial fun resolver known => ?_
    refine .call trivial fun orders _ => ?_
    have ready := (Holds.asked ⟨v, last, same⟩ .resolver resolver).asked .orders orders
    split
    · exact (ready.updateError _ _).map _
    rename_i desired computed
    obtain ⟨granted, recorded, metadata, spec⟩ :=
      merged_target same notMarked known.2 computed
    refine (obeys_bind _ _ _).mpr
      ⟨⟨v, policy, last, rfl, rfl, rfl, granted⟩, fun set _ => ?_⟩
    cases set with
    | error err =>
      have still := ready.asked (.setPolicy (toDesiredPolicy desired policy)) (.error err)
      exact (still.updateError _ _).map _
    | ok _ =>
      split
      · have version : desired.metadata.resourceVersion = v.metadata.resourceVersion := by
          rw [metadata]
          exact same.version
        exact Obeys.bind_any (Savable.handleUpToDate (v := v)
          ⟨last, version, spec.trans same.spec, Or.inr ⟨trivial, recorded⟩⟩) fun _ _ => trivial
      · trivial

theorem Holds.doReconcile (holds : Holds seen pp) :
    Abides (contract identity) seen (PartialPolicy.doReconcile pp) := by
  refine .call trivial fun state _ => ?_
  have held := holds.asked .fetchLiveKCCState state
  cases state with
  | error err => trivial
  | ok fetched =>
    dsimp only
    split
    · trivial
    · trivial
    · split
      · rename_i deleting
        exact (held.finalizeDeletion deleting).map _
      · rename_i live
        exact held.applyPolicy (by simpa using live)

theorem Holds.handleDefaults (holds : latest seen = some pp) :
    Succeeds (contract identity) Holds seen (PartialPolicy.handleDefaults pp) := by
  refine .call trivial (.onOk (fun default _ => ?_) fun _ => nofun)
  cases default with
  | none => exact Succeeds.ok ⟨pp, holds, SameBase.refl pp⟩
  | some value =>
    refine .call ⟨pp, holds, rfl, rfl⟩ fun reply _ => ?_
    cases reply with
    | error err => exact nofun
    | status message => exact Succeeds.ok ⟨pp, holds, ⟨rfl, rfl, rfl, rfl, rfl⟩⟩
    | object u => exact Succeeds.ok ⟨u, rfl, SameBase.refl u⟩

theorem reenqueue_obeys (etag : Option String) :
    Abides (contract identity) seen (PartialPolicy.reenqueue etag) := by
  cases etag with
  | none => exact .call trivial (.onOk (fun _ _ => trivial) fun _ => trivial)
  | some value =>
    refine .call trivial fun watched _ => ?_
    cases watched with
    | true => trivial
    | false => exact .call trivial (.onOk (fun _ _ => trivial) fun _ => trivial)

/-- Every call of a reconcile keeps to the contract. -/
theorem reconcile_obeys : Abides (contract identity) [] PartialPolicy.reconcile := by
  refine .call rfl (.onOk (fun policy _ => ?_) fun _ => .ite (fun _ => trivial)
    fun _ => trivial)
  refine (Holds.handleDefaults rfl).tried (fun later pp _ holds => ?_) fun _ _ => trivial
  refine Obeys.bind_any holds.doReconcile fun later outcome => ?_
  obtain ⟨⟨requeue, err⟩, etag⟩ := outcome
  cases err with
  | some err => trivial
  | none =>
    cases requeue with
    | true => trivial
    | false => exact reenqueue_obeys etag

end Reconcile

end ConfigConnector.Iam.PartialPolicy
