import ConfigConnector.K8s.Object
import ConfigConnector.Lib.Prog

/- One object in the API server, the calls controllers make about it, and what
each call can do. Writes carry the version of the object they started from and
are refused when the stored object has another one. -/
namespace ConfigConnector.K8s

open Interact

variable {σ τ : Type}

/-- The answer to a write. A validating webhook can answer with an object of
kind `Status` instead of an error. -/
inductive Reply (σ τ : Type) where
  | object (r : Resource σ τ)
  | status (message : String)
  | error (err : GoError)

/-- The calls of a reconcile. `ask` is everything outside the API server's
object: GCP, other objects, the configuration of the controller. -/
inductive Call (σ τ Q : Type) where
  | get
  | update (r : Resource σ τ)
  | updateStatus (r : Resource σ τ)
  | patchSSA (annotated : Bool)
  | postUpdateStatusTransform (r : Resource σ τ)
  | ask (q : Q)

def Call.Answer {Q : Type} (A : Q → Type) : Call σ τ Q → Type
  | .get => Except GoError (Resource σ τ)
  | .update _ => Reply σ τ
  | .updateStatus _ => Reply σ τ
  | .patchSSA _ => Except GoError (Resource σ τ)
  | .postUpdateStatusTransform _ => Except GoError σ
  | .ask q => A q

abbrev calls (σ τ : Type) {Q : Type} (A : Q → Type) : Signature where
  Op := Call σ τ Q
  Ans := Call.Answer A

/-- The stored object, if it is there, and the latest version handed out. -/
structure Server (σ τ : Type) where
  stored : Option (Resource σ τ)
  revision : Nat
  current : ∀ r, stored = some r → r.metadata.resourceVersion ≤ revision

namespace Resource

/-- The object under another version. -/
def withVersion (r : Resource σ τ) (version : Nat) : Resource σ τ :=
  { r with metadata := { r.metadata with resourceVersion := version } }

/-- What an update makes of the stored object: the status and the deletion mark
are kept, and the generation counts the changes of the spec. -/
def updatedBy [DecidableEq σ] (o r : Resource σ τ) : Resource σ τ where
  metadata :=
    { r.metadata with
      name := o.metadata.name
      ns := o.metadata.ns
      resourceVersion := o.metadata.resourceVersion
      deletionTimestamp := o.metadata.deletionTimestamp
      generation :=
        if r.spec = o.spec then o.metadata.generation else o.metadata.generation + 1 }
  spec := r.spec
  status := o.status

/-- Marking for deletion counts as a generation. -/
def markedAt (o : Resource σ τ) (time : Nat) : Resource σ τ :=
  { o with metadata := { o.metadata with
      deletionTimestamp := some time, generation := o.metadata.generation + 1 } }

end Resource

variable (s : Server σ τ)

namespace Server

/-- The stored object, if it is the version that the writer started from. -/
def matching (r : Resource σ τ) : Option (Resource σ τ) :=
  s.stored.filter fun o => o.metadata.resourceVersion = r.metadata.resourceVersion

variable {s} in
theorem matching_eq_some {r o : Resource σ τ} : s.matching r = some o ↔
      s.stored = some o ∧ o.metadata.resourceVersion = r.metadata.resourceVersion := by
  simp [matching, Option.filter_eq_some_iff]

/-- The server with this object, as its latest version. -/
def holding (r : Resource σ τ) : Server σ τ where
  stored := some r
  revision := r.metadata.resourceVersion
  current := by
    intro o stored
    cases stored
    exact le_refl _

/-- The object is stored under the next version. -/
def store (new : Resource σ τ) : Server σ τ where
  stored := some (new.withVersion (s.revision + 1))
  revision := s.revision + 1
  current := by
    intro r stored
    cases stored
    exact le_refl (s.revision + 1)

def remove : Server σ τ where
  stored := none
  revision := s.revision + 1
  current := by
    intro r stored
    cases stored

variable [DecidableEq σ] [DecidableEq τ] (s : Server σ τ)

/-- Replace the stored object. A write that changes nothing gets no new version,
and an object marked for deletion goes away with its last finalizer. -/
def write (o new : Resource σ τ) : Server σ τ × Resource σ τ :=
  if new = o then (s, o)
  else if new.metadata.isDeleting ∧ new.metadata.finalizers = [] then
    (s.remove, new.withVersion (s.revision + 1))
  else (s.store new, new.withVersion (s.revision + 1))

def update (r : Resource σ τ) : Option (Server σ τ × Resource σ τ) :=
  (s.matching r).map fun o => s.write o (o.updatedBy r)

def updateStatus (r : Resource σ τ) : Option (Server σ τ × Resource σ τ) :=
  (s.matching r).map fun o => s.write o { o with status := r.status }

/-- A server-side apply that owns the annotation or gives it up. -/
def patchSSA (annotated : Bool) : Option (Server σ τ × Resource σ τ) :=
  s.stored.map fun o =>
    let annotations :=
      if annotated then o.metadata.annotations.insert supportsSSAAnnotation "true"
      else o.metadata.annotations.erase supportsSSAAnnotation
    s.write o { o with metadata := { o.metadata with
      annotations, managedFields := o.metadata.managedFields ++ [supportsSSAManager] } }

/-- A user saves the object with other contents. -/
def userUpdate (r : Resource σ τ) : Server σ τ :=
  match s.stored with
  | none => s
  | some o => (s.write o (o.updatedBy r)).1

/-- A user deletes the object. -/
def userDelete (time : Nat) : Server σ τ :=
  match s.stored with
  | none => s
  | some o => if o.metadata.isDeleting then s else (s.write o (o.markedAt time)).1

end Server

/-- What a call that would have the effect `effect` can end in: it is done, it is
done and the answer is lost, or it is refused. -/
inductive WriteOutcome (effect : Option (Server σ τ × Resource σ τ)) :
    Reply σ τ → Server σ τ → Prop where
  | done (after : Server σ τ) (r : Resource σ τ) (applied : effect = some (after, r)) :
      WriteOutcome effect (.object r) after
  | lost (after : Server σ τ) (r : Resource σ τ) (err : GoError)
      (applied : effect = some (after, r)) : WriteOutcome effect (.error err) after
  | refused (err : GoError) : WriteOutcome effect (.error err) s
  | rejected (message : String) : WriteOutcome effect (.status message) s

/-- A patch is answered with an object or an error. -/
inductive PatchOutcome (effect : Option (Server σ τ × Resource σ τ)) :
    Except GoError (Resource σ τ) → Server σ τ → Prop where
  | done (after : Server σ τ) (r : Resource σ τ) (applied : effect = some (after, r)) :
      PatchOutcome effect (.ok r) after
  | lost (after : Server σ τ) (r : Resource σ τ) (err : GoError)
      (applied : effect = some (after, r)) : PatchOutcome effect (.error err) after
  | refused (err : GoError) : PatchOutcome effect (.error err) s

/-- A read finds the object, or fails; it is told that there is none only when
there is none. -/
inductive ReadOutcome : Except GoError (Resource σ τ) → Prop where
  | found (r : Resource σ τ) (stored : s.stored = some r) : ReadOutcome (.ok r)
  | absent (err : GoError) (stored : s.stored = none) : ReadOutcome (.error err)
  | failed (err : GoError) (other : err.isClass .notFound = false) : ReadOutcome (.error err)

variable {s}

/-- The answers the API server can give to each call, and what it stores then. -/
def Server.answers [DecidableEq σ] [DecidableEq τ] {Q : Type} {A : Q → Type} (s : Server σ τ) :
    (c : Call σ τ Q) → Call.Answer A c → Server σ τ → Prop
  | .get, answer, after => after = s ∧ ReadOutcome s answer
  | .update r, answer, after => WriteOutcome s (s.update r) answer after
  | .updateStatus r, answer, after => WriteOutcome s (s.updateStatus r) answer after
  | .patchSSA annotated, answer, after => PatchOutcome s (s.patchSSA annotated) answer after
  | .postUpdateStatusTransform _, _, after => after = s
  | .ask _, _, after => after = s

section Versions

/-- Every change of the stored object gets a version above all earlier ones. -/
def Advances (s after : Server σ τ) : Prop :=
  s.revision ≤ after.revision ∧ ∀ o, after.stored = some o →
    s.stored = some o ∨ s.revision < o.metadata.resourceVersion

/-- An object seen earlier is the stored one whenever the versions agree. -/
structure Knows (s : Server σ τ) (v : Resource σ τ) : Prop where
  old : v.metadata.resourceVersion ≤ s.revision
  same : ∀ o, s.stored = some o →
    o.metadata.resourceVersion = v.metadata.resourceVersion → o = v

theorem Advances.refl (s : Server σ τ) : Advances s s := ⟨le_refl _, fun _ stored => Or.inl stored⟩

theorem Knows.advances {after : Server σ τ} {v : Resource σ τ} (knows : Knows s v)
    (advances : Advances s after) : Knows after v := by
  refine ⟨knows.old.trans advances.1, fun o stored version => ?_⟩
  rcases advances.2 o stored with before | newer
  · exact knows.same o before version
  · have old := knows.old
    omega

theorem knows_stored {r : Resource σ τ} (stored : s.stored = some r) : Knows s r := by
  refine ⟨s.current r stored, fun o again _ => ?_⟩
  rw [stored] at again
  cases again
  rfl

variable [DecidableEq σ] [DecidableEq τ]

theorem write_advances (s : Server σ τ) (o new : Resource σ τ) : Advances s (s.write o new).1 := by
  unfold Server.write
  split
  · exact Advances.refl s
  split
  · exact ⟨Nat.le_succ _, nofun⟩
  refine ⟨Nat.le_succ _, fun r stored => Or.inr ?_⟩
  cases stored
  exact Nat.lt_succ_self _

/-- The writer of an object knows it. -/
theorem write_knows {o : Resource σ τ} (stored : s.stored = some o) (new : Resource σ τ) :
    Knows (s.write o new).1 (s.write o new).2 := by
  unfold Server.write
  split
  · exact knows_stored stored
  split
  · exact ⟨le_refl _, nofun⟩
  · exact knows_stored rfl

end Versions

section Effects

variable {Q : Type} {A : Q → Type}

/-- The object that comes with an answer. -/
def Call.object : (c : Call σ τ Q) → Call.Answer A c → Option (Resource σ τ)
  | .get, .ok r => some r
  | .update _, .object r => some r
  | .updateStatus _, .object r => some r
  | .patchSSA _, .ok r => some r
  | _, _ => none

/-- The new contents that a call has for the stored object. -/
inductive Writes [DecidableEq σ] : Call σ τ Q → Resource σ τ → Resource σ τ → Prop where
  | update (r o : Resource σ τ)
      (version : o.metadata.resourceVersion = r.metadata.resourceVersion) :
      Writes (.update r) o (o.updatedBy r)
  | updateStatus (r o : Resource σ τ)
      (version : o.metadata.resourceVersion = r.metadata.resourceVersion) :
      Writes (.updateStatus r) o { o with status := r.status }
  | patchSSA (annotated : Bool) (o : Resource σ τ) (annotations : StringMap)
      (managedFields : List String)
      (others : ∀ key, key ≠ supportsSSAAnnotation →
        annotations.lookup key = o.metadata.annotations.lookup key) :
      Writes (.patchSSA annotated) o
        { o with metadata := { o.metadata with annotations, managedFields } }

variable [DecidableEq σ] [DecidableEq τ]

/-- The effect of a call, where it has one, with the object it answers. -/
def Server.effect (s : Server σ τ) : Call σ τ Q → Option (Server σ τ × Resource σ τ)
  | .update r => s.update r
  | .updateStatus r => s.updateStatus r
  | .patchSSA annotated => s.patchSSA annotated
  | _ => none

variable {s : Server σ τ} {c : Call σ τ Q}

theorem effect_writes {after : Server σ τ × Resource σ τ} (applied : s.effect c = some after) :
    ∃ o new, s.stored = some o ∧ Writes c o new ∧ after = s.write o new := by
  cases c with
  | get | postUpdateStatusTransform _ | ask _ => cases applied
  | update r =>
    obtain ⟨o, found, rfl⟩ := Option.map_eq_some_iff.mp applied
    obtain ⟨stored, version⟩ := Server.matching_eq_some.mp found
    exact ⟨o, _, stored, .update r o version, rfl⟩
  | updateStatus r =>
    obtain ⟨o, found, rfl⟩ := Option.map_eq_some_iff.mp applied
    obtain ⟨stored, version⟩ := Server.matching_eq_some.mp found
    exact ⟨o, _, stored, .updateStatus r o version, rfl⟩
  | patchSSA annotated =>
    obtain ⟨o, stored, rfl⟩ := Option.map_eq_some_iff.mp applied
    refine ⟨o, _, stored, .patchSSA annotated o _ _ fun key other => ?_, rfl⟩
    cases annotated with
    | true => simp [Finmap.lookup_insert_of_ne _ other]
    | false => simp [Finmap.lookup_erase_ne other]

variable {after : Server σ τ} {answer : Call.Answer A c}

variable (answered : s.answers c answer after)
include answered

/-- All a call can do to the server: nothing, or one write of what it carries. -/
theorem answers_effect :
    (after = s ∧ ∀ r, c.object answer = some r → c = .get ∧ s.stored = some r) ∨
      ∃ o new, s.stored = some o ∧ Writes c o new ∧ after = (s.write o new).1 ∧
        ∀ r, c.object answer = some r → r = (s.write o new).2 := by
  have applied : ∀ written, s.effect c = some (after, written) →
      (∀ r, c.object answer = some r → r = written) →
      ∃ o new, s.stored = some o ∧ Writes c o new ∧ after = (s.write o new).1 ∧
        ∀ r, c.object answer = some r → r = (s.write o new).2 := by
    intro written effect same
    obtain ⟨o, new, stored, writes, pair⟩ := effect_writes effect
    refine ⟨o, new, stored, writes, congrArg Prod.fst pair, fun r seen => ?_⟩
    exact (same r seen).trans (congrArg Prod.snd pair)
  cases c with
  | get =>
    obtain ⟨rfl, read⟩ := answered
    refine Or.inl ⟨rfl, fun r seen => ?_⟩
    cases read with
    | found r' stored =>
      cases seen
      exact ⟨rfl, stored⟩
    | absent _ _ | failed _ _ => cases seen
  | postUpdateStatusTransform _ | ask _ => exact Or.inl ⟨answered, nofun⟩
  | update r | updateStatus r =>
    cases answered with
    | done _ r' effect => exact Or.inr (applied r' effect fun r seen => by cases seen; rfl)
    | lost _ r' err effect => exact Or.inr (applied r' effect nofun)
    | refused _ | rejected _ => exact Or.inl ⟨rfl, nofun⟩
  | patchSSA annotated =>
    cases answered with
    | done _ r' effect => exact Or.inr (applied r' effect fun r seen => by cases seen; rfl)
    | lost _ r' err effect => exact Or.inr (applied r' effect nofun)
    | refused err => exact Or.inl ⟨rfl, nofun⟩

theorem answers_advances : Advances s after := by
  rcases answers_effect answered with ⟨rfl, _⟩ | ⟨o, new, _, _, rfl, _⟩
  · exact Advances.refl _
  · exact write_advances s o new

/-- The object in an answer is known from then on. -/
theorem answers_knows (r : Resource σ τ) (seen : c.object answer = some r) : Knows after r := by
  rcases answers_effect answered with ⟨rfl, read⟩ | ⟨o, new, stored, _, rfl, written⟩
  · exact knows_stored (read r seen).2
  · rw [written r seen]
    exact write_knows stored new

/-- Right after an answer with an object, nothing else is stored. -/
theorem answers_current {r o : Resource σ τ} (seen : c.object answer = some r)
    (stored : after.stored = some o) : o = r := by
  rcases answers_effect answered with ⟨rfl, read⟩ | ⟨before, new, found, _, rfl, written⟩
  · rw [(read r seen).2] at stored
    cases stored
    rfl
  rw [written r seen]
  unfold Server.write at stored ⊢
  split at stored
  · rename_i same
    rw [found] at stored
    cases stored
    simp [same]
  · rename_i different
    split at stored
    · cases stored
    rename_i remains
    cases stored
    simp [different, remains]

end Effects

end ConfigConnector.K8s
