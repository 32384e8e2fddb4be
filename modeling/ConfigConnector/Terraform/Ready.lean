import ConfigConnector.Terraform.Contract

/- One object, the Terraform controller and the users, read by read and write by
write. An object is ready for a generation only if that generation was actuated, as
long as no edit leaves a ready object without the finalizers for another generation
than it reports. -/
namespace ConfigConnector.Terraform

open Interact K8s Lifecycle Managed

variable {σ τ : Type}

/-- The API server, and two records that nothing reads: the objects it has answered
with, and those of them, as they were read, that the resource in GCP was then found to
match or made to. -/
structure Cluster (σ τ : Type) where
  server : Server σ τ
  served : List (Resource σ τ)
  actuated : List (Resource σ τ)

/-- The object that an answer shows to be actuated. -/
def actuatedBy : (c : Call σ τ (Query σ τ)) →
    Call.Answer (Query.Answer (σ := σ) (τ := τ)) c → List (Resource σ τ)
  | .ask (.diff original _), .ok diff => if diff.isEmpty then [original] else []
  | .ask (.apply original _), .ok _ => [original]
  | _, _ => []

/-- A ready object that is to stay lacks a finalizer and reports another generation
than it has. -/
structure Exposed (o : Resource σ τ) : Prop where
  stays : o.metadata.isDeleting = false
  ready : isResourceReady o = true
  lacks : ¬ o.metadata.HasKccFinalizers
  stale : o.status.observedGeneration ≠ some o.metadata.generation

namespace Cluster

variable (s : Cluster σ τ)

/-- An object of this generation was read and actuated. -/
def Reached (generation : Int) : Prop :=
  ∃ original ∈ s.actuated, original ∈ s.served ∧ original.metadata.generation = generation

/-- Ready is not reported for a generation that was not actuated. -/
def Honest : Prop :=
  ∀ o generation, s.server.stored = some o → isResourceReady o = true →
    o.status.observedGeneration = some generation → s.Reached generation

variable [DecidableEq σ] [DecidableEq τ] (s : Cluster σ τ)

def answers (c : Call σ τ (Query σ τ))
    (answer : Call.Answer (Query.Answer (σ := σ) (τ := τ)) c) (after : Cluster σ τ) : Prop :=
  ∃ server, s.server.answers c answer server ∧
    after = ⟨server, (c.object answer).toList ++ s.served, actuatedBy c answer ++ s.actuated⟩

/-- What users do: save the object with other contents, as far as `allowed` says, and
delete it. -/
inductive Moves (allowed : Resource σ τ → Resource σ τ → Prop) (s : Cluster σ τ) :
    Cluster σ τ → Prop where
  | edit (r : Resource σ τ) (may : ∀ o, s.server.stored = some o → allowed o r) :
      Moves allowed s { s with server := s.server.userUpdate r }
  | delete (time : Nat) : Moves allowed s { s with server := s.server.userDelete time }

/-- An object that is not ready yet, and nothing actuated. -/
structure Starts : Prop where
  stored : ∀ o, s.server.stored = some o → isResourceReady o = false
  served : s.served = []
  actuated : s.actuated = []

def machine (gvk : GroupVersionKind) (allowed : Resource σ τ → Resource σ τ → Prop) :
    Machine (S σ τ) where
  State := Cluster σ τ
  Party := Unit
  program := fun _ => do
    let _ ← reconcile gvk
    return ()
  answers := fun _ s => s.answers
  drift := Moves allowed

instance (gvk : GroupVersionKind) (allowed : Resource σ τ → Resource σ τ → Prop) :
    DecidableEq (machine gvk allowed).Party :=
  inferInstanceAs (DecidableEq Unit)

end Cluster

variable {s after : Cluster σ τ}

section Invariant

variable {seen : Trace (S σ τ)} {o : Resource σ τ}

/-- What holds of every object that is or was stored. -/
structure Sound (s : Cluster σ τ) (o : Resource σ τ) : Prop where
  honest : isResourceReady o = true → ∀ generation,
    o.status.observedGeneration = some generation → s.Reached generation
  settled : ¬ Exposed o

/-- What a reconcile knows. -/
structure Own (s : Cluster σ τ) (seen : Trace (S σ τ)) : Prop where
  known : Seen s.server seen
  read : ∀ o, Read seen o → o ∈ s.served ∧ Sound s o
  actuated : ∀ generation, Actuated seen generation → s.Reached generation

/-- The records only grow. -/
structure Grows (s after : Cluster σ τ) : Prop where
  served : s.served ⊆ after.served
  actuated : s.actuated ⊆ after.actuated

theorem Grows.reached (grows : Grows s after) {generation : Int}
    (reached : s.Reached generation) : after.Reached generation := by
  obtain ⟨original, actuated, served, same⟩ := reached
  exact ⟨original, grows.actuated actuated, grows.served served, same⟩

theorem Sound.grows (sound : Sound s o) (grows : Grows s after) : Sound after o :=
  ⟨fun ready generation observed => grows.reached (sound.honest ready generation observed),
    sound.settled⟩

/-- Soundness does not depend on the version. -/
theorem Sound.withVersion (sound : Sound s o) (version : Nat) : Sound s (o.withVersion version) :=
  ⟨sound.honest, fun exposed =>
    sound.settled ⟨exposed.stays, exposed.ready, exposed.lacks, exposed.stale⟩⟩

variable [DecidableEq σ] [DecidableEq τ] {new : Resource σ τ} {c : Call σ τ (Query σ τ)}
  {answer : Call.Answer (Query.Answer (σ := σ) (τ := τ)) c}

theorem answers_grows (answered : s.answers c answer after) : Grows s after := by
  obtain ⟨server, _, rfl⟩ := answered
  exact ⟨List.subset_append_right _ _, List.subset_append_right _ _⟩

omit [DecidableEq τ] in
/-- What the controller makes of a sound object is sound. -/
theorem writes_sound (writes : Writes c o new) (own : Own s seen)
    (guarded : (rules σ τ).guard seen c) (stored : s.server.stored = some o)
    (sound : Sound s o) : Sound s new := by
  cases writes with
  | update r _ version =>
    obtain ⟨v, last, carries, finalizes, saves⟩ := guarded
    obtain rfl := own.known.writes stored last carries version
    refine ⟨sound.honest, fun exposed => sound.settled ?_⟩
    have stays : o.metadata.isDeleting = false := exposed.stays
    have sameSpec : r.spec = o.spec := by
      rcases saves with goes | both | same
      · rw [stays] at goes
        cases goes
      · exact absurd both exposed.lacks
      · exact same
    refine ⟨stays, exposed.ready, fun both => ?_, ?_⟩
    · cases finalizes with
      | kept same => exact exposed.lacks fun f member => (same f member).mpr (both f member)
      | ensured _ ensured => exact exposed.lacks ensured
      | dropped goes _ _ _ =>
        rw [stays] at goes
        cases goes
    · have stale := exposed.stale
      simpa [Resource.updatedBy, sameSpec] using stale
  | updateStatus r _ version =>
    obtain ⟨v, last, carries, reports⟩ := guarded
    obtain rfl := own.known.writes stored last carries version
    refine ⟨fun ready generation observed => ?_, fun exposed =>
      exposed.lacks (reports exposed.ready).1⟩
    obtain ⟨_, reported, same, cause⟩ := reports ready
    have same : reported = generation := Option.some.inj (same.symm.trans observed)
    subst same
    rcases cause with actuated | ⟨original, read, same, stays, wasReady, lacks⟩
    · exact own.actuated reported actuated
    -- The object was read as ready for its own generation, or it was exposed.
    have sound := (own.read original read).2
    have settled : original.status.observedGeneration = some original.metadata.generation := by
      by_contra stale
      exact sound.settled ⟨stays, wasReady, lacks, stale⟩
    exact sound.honest wasReady reported (same ▸ settled)
  | patchSSA annotated _ annotations managedFields others =>
    exact ⟨sound.honest, fun exposed =>
      sound.settled ⟨exposed.stays, exposed.ready, exposed.lacks, exposed.stale⟩⟩

/-- A call of the controller leaves a sound object, and answers with one. -/
theorem Own.served (own : Own s seen) (shared : ∀ o, s.server.stored = some o → Sound s o)
    (guarded : (rules σ τ).guard seen c) (answered : s.answers c answer after) :
    (∀ o, after.server.stored = some o → Sound after o) ∧
      ∀ u, c.object answer = some u → u ∈ after.served ∧ Sound after u := by
  have grows := answers_grows answered
  obtain ⟨server, served, rfl⟩ := answered
  have recorded : ∀ u, c.object answer = some u →
      u ∈ (c.object answer).toList ++ s.served := by
    intro u object
    simp [object]
  rcases answers_effect served with ⟨rfl, read⟩ | ⟨o, new, stored, writes, rfl, written⟩
  · refine ⟨fun o stored => (shared o stored).grows grows, fun u object => ⟨recorded u object, ?_⟩⟩
    exact (shared u (read u object).2).grows grows
  have sound := (writes_sound writes own guarded stored (shared o stored)).grows grows
  constructor
  · intro o' found
    obtain ⟨version, rfl⟩ := write_stored stored found
    exact sound.withVersion version
  · intro u object
    obtain ⟨version, same⟩ := write_answer s.server o new
    rw [written u object, same]
    refine ⟨?_, sound.withVersion version⟩
    rw [← same, ← written u object]
    exact recorded u object

/-- What an answer adds to what the reconcile knows was actuated. -/
theorem Own.actuates (own : Own s seen) (guarded : (rules σ τ).guard seen c)
    (answered : s.answers c answer after) {generation : Int}
    (actuated : Actuated (⟨c, answer⟩ :: seen : Trace (S σ τ)) generation) :
    after.Reached generation := by
  have grows := answers_grows answered
  obtain ⟨server, _, rfl⟩ := answered
  obtain ⟨original, r, rfl, ⟨diff, asked, matched⟩ | ⟨state, asked⟩⟩ := actuated
  · rcases List.mem_cons.mp asked with now | before
    · cases now
      refine ⟨original, ?_, grows.served (own.read original guarded).1, rfl⟩
      simp [actuatedBy, matched]
    · exact grows.reached (own.actuated _ ⟨original, r, rfl, Or.inl ⟨diff, before, matched⟩⟩)
  · rcases List.mem_cons.mp asked with now | before
    · cases now
      refine ⟨original, ?_, grows.served (own.read original guarded).1, rfl⟩
      simp [actuatedBy]
    · exact grows.reached (own.actuated _ ⟨original, r, rfl, Or.inr ⟨state, before⟩⟩)

theorem Own.answered (own : Own s seen) (shared : ∀ o, s.server.stored = some o → Sound s o)
    (guarded : (rules σ τ).guard seen c) (answered : s.answers c answer after) :
    Own after (⟨c, answer⟩ :: seen : Trace (S σ τ)) where
  known := by
    obtain ⟨server, served, rfl⟩ := answered
    exact own.known.answered served
  read := by
    rintro o ⟨entry, member, object⟩
    rcases List.mem_cons.mp member with rfl | before
    · exact (own.served shared guarded answered).2 o object
    obtain ⟨served, sound⟩ := own.read o ⟨entry, before, object⟩
    have grows := answers_grows answered
    exact ⟨grows.served served, sound.grows grows⟩
  actuated := fun _ actuated => own.actuates guarded answered actuated

end Invariant

section Runs

variable [DecidableEq σ] [DecidableEq τ] {allowed : Resource σ τ → Resource σ τ → Prop}

/-- Users leave a sound object sound, as long as their edits expose none. -/
theorem moves_sound (careful : ∀ o r, allowed o r → ¬ Exposed (o.updatedBy r))
    (shared : ∀ o, s.server.stored = some o → Sound s o) (moved : Cluster.Moves allowed s after) :
    Advances s.server after.server ∧ Grows s after ∧
      ∀ o, after.server.stored = some o → Sound s o := by
  cases moved with
  | edit r may =>
    refine ⟨userUpdate_advances _ _, ⟨fun _ => id, fun _ => id⟩, fun o found => ?_⟩
    obtain ⟨before, version, stored, rfl⟩ := userUpdate_stored found
    have edited : Sound s (before.updatedBy r) :=
      ⟨(shared before stored).honest, careful before r (may before stored)⟩
    exact edited.withVersion version
  | delete time =>
    refine ⟨userDelete_advances _ _, ⟨fun _ => id, fun _ => id⟩, fun o found => ?_⟩
    rcases userDelete_stored found with same | ⟨before, version, stored, -, rfl⟩
    · exact shared o same
    have marked : Sound s (before.markedAt time) := by
      refine ⟨(shared before stored).honest, fun exposed => ?_⟩
      cases exposed.stays
    exact marked.withVersion version

theorem Cluster.invariant (gvk : GroupVersionKind)
    (careful : ∀ o r, allowed o r → ¬ Exposed (o.updatedBy r)) :
    (Cluster.machine gvk allowed).Invariant (fun _ => contract σ τ) Cluster.Starts
      (fun _ _ => True) (fun s => ∀ o, s.server.stored = some o → Sound s o)
      (fun _ => Own) where
  init := by
    intro s starts o stored
    have notReady := starts.stored o stored
    refine ⟨fun ready => ?_, fun exposed => ?_⟩
    · rw [notReady] at ready
      cases ready
    have ready := exposed.ready
    rw [notReady] at ready
    cases ready
  fresh := by
    intro p s _
    refine ⟨?_, ?_, ?_⟩
    · intro v last
      cases last
    · rintro o ⟨entry, member, _⟩
      cases member
    · rintro generation ⟨original, r, _, ⟨diff, asked, _⟩ | ⟨state, asked⟩⟩
      · cases asked
      · cases asked
  drift := by
    intro w after shared own moved _
    obtain ⟨advances, grows, sound⟩ := moves_sound careful shared moved
    refine ⟨fun o stored => (sound o stored).grows grows, fun p t running => ?_⟩
    have mine := own p t running
    refine ⟨mine.known.advances advances, fun o read => ?_, fun generation actuated => ?_⟩
    · obtain ⟨served, sound⟩ := mine.read o read
      exact ⟨grows.served served, sound.grows grows⟩
    · exact grows.reached (mine.actuated generation actuated)
  act := by
    intro w after p seen c answer shared own guarded answered _
    have relied : SessionRely seen c answer := by
      obtain ⟨server, served, _⟩ := answered
      exact own.known.rely served
    refine ⟨relied, (own.served shared guarded answered).1,
      own.answered shared guarded answered, ?_⟩
    intro q other different
    exact absurd rfl different

/-- As long as no edit leaves a ready object that is to stay without a finalizer and
with a generation that it does not report: in every state that is reached, whatever
fails or crashes, an object is ready for a generation only if an object of that
generation was read and then found to match the resource in GCP, or applied to it. -/
theorem ready_generation_actuated (gvk : GroupVersionKind)
    (allowed : Resource σ τ → Resource σ τ → Prop)
    (careful : ∀ o r, allowed o r → ¬ Exposed (o.updatedBy r))
    (w : (Cluster.machine gvk allowed).World)
    (reached : (Cluster.machine gvk allowed).Reach Cluster.Starts (fun _ _ => True) w) :
    w.state.Honest := by
  have programs : ∀ p, Abides (contract σ τ) []
      ((Cluster.machine gvk allowed).program p) :=
    fun _ => (reconcile_obeys gvk).map _
  have shared := (Machine.Reach.invariant programs (Cluster.invariant gvk careful) reached).1
  intro o generation stored ready observed
  exact (shared o stored).honest ready generation observed

end Runs

section Replay

def topicKind : GroupVersionKind := ⟨"pubsub.cnrm.cloud.google.com", "v1beta1", "PubSubTopic"⟩

def topicConfig : ResourceConfig := ⟨false, false, false, false, false, false⟩

/-- A topic whose spec has one flag. -/
def topic (flag : Bool) (finalizers : List String) (generation : Int) (resourceVersion : Nat)
    (status : Status Unit) : Resource Bool Unit where
  metadata := { ObjectMeta.created "ns" "topic" with
    finalizers, generation, resourceVersion, managedFields := ["kubectl"] }
  spec := flag
  status

def topicServer (flag : Bool) (finalizers : List String) (generation : Int)
    (resourceVersion : Nat) (status : Status Unit) : Server Bool Unit :=
  .holding (topic flag finalizers generation resourceVersion status)

def kcc : List String := ObjectMeta.kccFinalizers

def unset : Status Unit := ⟨[], none, ()⟩

def readyFor (generation : Int) : Status Unit :=
  ⟨[newCustomReadyCondition .true upToDate upToDateMessage], some generation, ()⟩

theorem created_starts :
    Cluster.Starts (⟨topicServer false [] 1 1 unset, [], []⟩ : Cluster Bool Unit) where
  stored := by
    intro o stored
    cases stored
    rfl
  served := rfl
  actuated := rfl

/-- A first reconcile finds the topic in GCP as it should be, and reports it as ready. -/
theorem reaches_ready (allowed : Resource Bool Unit → Resource Bool Unit → Prop) :
    ∃ served threads, (Cluster.machine topicKind allowed).Reach Cluster.Starts (fun _ _ => True)
      ⟨⟨topicServer false kcc 1 4 (readyFor 1), served, [topic false [] 1 1 unset]⟩, threads⟩ := by
  have init := @Machine.Reach.init _ (Cluster.machine topicKind allowed) _ Cluster.Starts
    (fun _ _ => True) _ created_starts
  have started := init.start ()
  have read := started.reply () rfl (Except.ok (topic false [] 1 1 unset)) _
    ⟨_, ⟨rfl, .found _ rfl⟩, rfl⟩
  have mapped := read.reply () rfl (Except.ok ()) _
  have defaulted := mapped.reply () rfl (Except.ok none) _
  have parsed := defaulted.reply () rfl (Except.ok topicConfig) _
  have policy := parsed.reply () rfl (Except.ok none) _
  have hierarchical := policy.reply () rfl (Except.ok false) _
  have state := hierarchical.reply () rfl (Except.ok (⟨"cluster", none⟩, ⟨none⟩)) _
  have transformed := state.reply () rfl (Except.ok (false, ())) _
  have identified := transformed.reply () rfl (Except.ok "topics/topic") _
  have imported := identified.reply () rfl (Except.ok [⟨"topics/topic"⟩]) _
  have preset := imported.reply () rfl (Except.ok ⟨"topics/topic"⟩) _
  have refreshed := preset.reply () rfl (Except.ok ⟨"topics/topic"⟩) _
  have expanded := refreshed.reply () rfl (Except.ok ()) _
  have prepared := expanded.reply () rfl (Except.ok ()) _
  have compared := prepared.reply () rfl (Except.ok ⟨true, false, []⟩) _
  have ensured := compared.reply () rfl (Reply.object (topic false kcc 1 2 unset))
    ⟨topicServer false kcc 1 2 unset, _, _⟩ ⟨_, .done _ _ rfl, rfl⟩
  have saved := ensured.reply () rfl (Reply.object (topic false kcc 1 3 ⟨[], some 1, ()⟩))
    ⟨topicServer false kcc 1 3 ⟨[], some 1, ()⟩, _, _⟩ ⟨_, .done _ _ rfl, rfl⟩
  have hooked := saved.reply () rfl (Except.ok false) _
  have resolved := hooked.reply () rfl (false, ()) _
  have actuated := resolved.reply () rfl (Except.ok (false, ())) _
  have updated := actuated.reply () rfl (Reply.object (topic false kcc 1 3 ⟨[], some 1, ()⟩))
    ⟨topicServer false kcc 1 3 ⟨[], some 1, ()⟩, _, _⟩ ⟨_, .done _ _ rfl, rfl⟩
  have ready := updated.reply () rfl (Reply.object (topic false kcc 1 4 (readyFor 1)))
    ⟨topicServer false kcc 1 4 (readyFor 1), _, _⟩ ⟨_, .done _ _ rfl, rfl⟩
  exact ⟨_, _, ready⟩

def carefulEdit (o r : Resource Bool Unit) : Prop := ¬ Exposed (o.updatedBy r)

def anyEdit (_ _ : Resource Bool Unit) : Prop := True

/-- A careful user sees the topic as ready for the generation that was read. -/
theorem ready_generation_actuated_first :
    ∃ w, (Cluster.machine topicKind carefulEdit).Reach Cluster.Starts (fun _ _ => True) w ∧
      (∃ o, w.state.server.stored = some o ∧ isResourceReady o = true ∧
        o.status.observedGeneration = some 1) ∧ w.state.Honest := by
  obtain ⟨served, threads, reached⟩ := reaches_ready carefulEdit
  exact ⟨_, reached, ⟨_, rfl, rfl, rfl⟩,
    ready_generation_actuated topicKind carefulEdit (fun _ _ careful => careful) _ reached⟩

/-- The user changes the flag of the ready topic and takes the finalizers off. A
reconcile that is paused puts them back, and saves the old status for the new
generation. -/
theorem paused_reports_new_generation :
    ∃ w, (Cluster.machine topicKind anyEdit).Reach Cluster.Starts (fun _ _ => True) w ∧
      ¬ w.state.Honest := by
  obtain ⟨served, threads, ready⟩ := reaches_ready anyEdit
  have edited := ready.step _ _ (.drift _ _
    (.edit (topic true [] 1 4 unset) fun _ _ => trivial)) trivial
  have stopped := edited.step _ _ (.stop _ ()) trivial
  have started := stopped.start ()
  have read := started.reply () rfl (Except.ok (topic true [] 2 5 (readyFor 1)))
    ⟨topicServer true [] 2 5 (readyFor 1), _, _⟩ ⟨_, ⟨rfl, .found _ rfl⟩, rfl⟩
  have mapped := read.reply () rfl (Except.ok ()) _
  have defaulted := mapped.reply () rfl (Except.ok none) _
  have parsed := defaulted.reply () rfl (Except.ok topicConfig) _
  have policy := parsed.reply () rfl (Except.ok none) _
  have hierarchical := policy.reply () rfl (Except.ok true) _
  have paused := hierarchical.reply () rfl (Except.ok (⟨"cluster", some .paused⟩, ⟨none⟩)) _
  have jittered := paused.reply () rfl (Except.ok ()) _
  have ensured := jittered.reply () rfl (Reply.object (topic true kcc 2 6 (readyFor 1)))
    ⟨topicServer true kcc 2 6 (readyFor 1), _, _⟩ ⟨_, .done _ _ rfl, rfl⟩
  have saved := ensured.reply () rfl (Reply.object (topic true kcc 2 7 (readyFor 2)))
    ⟨topicServer true kcc 2 7 (readyFor 2), _, _⟩ ⟨_, .done _ _ rfl, rfl⟩
  refine ⟨_, saved, fun honest => ?_⟩
  obtain ⟨original, actuated, _, generation⟩ := honest _ 2 rfl rfl rfl
  have first : original ∈ [topic false [] 1 1 unset] := actuated
  rw [List.mem_singleton.mp first] at generation
  exact absurd generation (by decide)

end Replay

end ConfigConnector.Terraform
