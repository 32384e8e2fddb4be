import ConfigConnector.K8s.ApiServer

/- What a reconcile can rely on between two of its own calls. Its writes carry the
version of the object it saw last, so a write that is taken was made to exactly
that object, whatever others have done meanwhile. -/
namespace ConfigConnector.K8s

open Interact

variable {σ τ Q : Type} {A : Q → Type}
variable {seen : Trace (calls σ τ A)} {c : Call σ τ Q} {s after : Server σ τ}

/-- The object that came with the latest answer that had one. -/
def latest : Trace (calls σ τ A) → Option (Resource σ τ)
  | [] => none
  | ⟨c, answer⟩ :: rest => (Call.object c answer).or (latest rest)

@[simp] theorem latest_cons (c : Call σ τ Q) (answer : Call.Answer A c)
    (rest : Trace (calls σ τ A)) :
    latest (⟨c, answer⟩ :: rest : Trace (calls σ τ A)) = (c.object answer).or (latest rest) := rfl

/-- Every object seen is known: the stored object is it, or has moved on. -/
def Seen (s : Server σ τ) (seen : Trace (calls σ τ A)) : Prop :=
  ∀ v, latest seen = some v → Knows s v

/-- A write that is taken was made to the object seen last. -/
theorem Seen.writes (known : Seen s seen)
    {o v r : Resource σ τ} (stored : s.stored = some o) (last : latest seen = some v)
    (carries : r.metadata.resourceVersion = v.metadata.resourceVersion)
    (version : o.metadata.resourceVersion = r.metadata.resourceVersion) : o = v :=
  (known v last).same o stored (version.trans carries)

theorem Seen.advances (known : Seen s seen) (advances : Advances s after) : Seen after seen :=
  fun v last => (known v last).advances advances

variable [DecidableEq σ]

/-- What a write answers, in terms of the object seen last. -/
structure SessionRely (seen : Trace (calls σ τ A)) (c : Call σ τ Q) (answer : Call.Answer A c) :
    Prop where
  update : ∀ r v u, c = .update r → latest seen = some v →
    r.metadata.resourceVersion = v.metadata.resourceVersion → c.object answer = some u →
    ∃ version, u = (v.updatedBy r).withVersion version
  updateStatus : ∀ r v u, c = .updateStatus r → latest seen = some v →
    r.metadata.resourceVersion = v.metadata.resourceVersion → c.object answer = some u →
    ∃ version, u = Resource.withVersion { v with status := r.status } version

variable {answer : Call.Answer A c}

/-- There is nothing to rely on where nothing is written. -/
theorem SessionRely.of_quiet (update : ∀ r, c ≠ .update r)
    (updateStatus : ∀ r, c ≠ .updateStatus r) : SessionRely seen c answer :=
  ⟨fun r _ _ same => absurd same (update r), fun r _ _ same => absurd same (updateStatus r)⟩

variable [DecidableEq τ]

/-- The answer to a write is the object as it was written, under some version. -/
theorem write_answer (s : Server σ τ) (o new : Resource σ τ) :
    ∃ version, (s.write o new).2 = new.withVersion version := by
  unfold Server.write
  split
  · rename_i same
    exact ⟨o.metadata.resourceVersion, by rw [same]; rfl⟩
  split
  · exact ⟨_, rfl⟩
  · exact ⟨_, rfl⟩

/-- What is stored after a write is the object as it was written. -/
theorem write_stored {o new after : Resource σ τ} (before : s.stored = some o)
    (stored : (s.write o new).1.stored = some after) :
    ∃ version, after = new.withVersion version := by
  unfold Server.write at stored
  split at stored
  · rename_i same
    rw [before] at stored
    cases stored
    exact ⟨o.metadata.resourceVersion, by rw [same]; rfl⟩
  · split at stored
    · cases stored
    · cases stored
      exact ⟨_, rfl⟩

theorem Seen.rely (known : Seen s seen) (answered : s.answers c answer after) :
    SessionRely seen c answer := by
  rcases answers_effect answered with ⟨rfl, read⟩ | ⟨o, new, stored, writes, rfl, written⟩
  · have isGet : ∀ u, c.object answer = some u → c = .get := fun u object => (read u object).1
    constructor <;>
      (rintro r v u rfl _ _ object; cases isGet u object)
  · obtain ⟨version, answerIs⟩ := write_answer s o new
    constructor
    · rintro r v u rfl last carries object
      cases writes with
      | update _ _ taken =>
        obtain rfl := known.writes stored last carries taken
        exact ⟨version, (written u object).trans answerIs⟩
    · rintro r v u rfl last carries object
      cases writes with
      | updateStatus _ _ taken =>
        obtain rfl := known.writes stored last carries taken
        exact ⟨version, (written u object).trans answerIs⟩

theorem Seen.answered (known : Seen s seen) (answered : s.answers c answer after) :
    Seen after (⟨c, answer⟩ :: seen : Trace (calls σ τ A)) := by
  intro v last
  rw [latest_cons] at last
  cases object : c.object answer with
  | none =>
    rw [object] at last
    exact (known v last).advances (answers_advances answered)
  | some u =>
    rw [object, Option.some_or, Option.some.injEq] at last
    exact last ▸ answers_knows answered u object

theorem userUpdate_stored {r o : Resource σ τ} (found : (s.userUpdate r).stored = some o) :
    ∃ before version, s.stored = some before ∧ o = (before.updatedBy r).withVersion version := by
  unfold Server.userUpdate at found
  split at found
  · rename_i absent
    cases absent.symm.trans found
  · rename_i before stored
    obtain ⟨version, same⟩ := write_stored stored found
    exact ⟨before, version, stored, same⟩

theorem userDelete_stored {time : Nat} {o : Resource σ τ}
    (found : (s.userDelete time).stored = some o) :
    s.stored = some o ∨
      ∃ before version, s.stored = some before ∧ before.metadata.isDeleting = false ∧
        o = (before.markedAt time).withVersion version := by
  unfold Server.userDelete at found
  split at found
  · exact .inl found
  split at found
  · exact .inl found
  · rename_i before stored stays
    obtain ⟨version, same⟩ := write_stored stored found
    exact .inr ⟨before, version, stored, by simpa using stays, same⟩

theorem userUpdate_advances (s : Server σ τ) (r : Resource σ τ) : Advances s (s.userUpdate r) := by
  unfold Server.userUpdate
  split
  · exact Advances.refl s
  · exact write_advances s _ _

theorem userDelete_advances (s : Server σ τ) (time : Nat) : Advances s (s.userDelete time) := by
  unfold Server.userDelete
  split
  · exact Advances.refl s
  split
  · exact Advances.refl s
  · exact write_advances s _ _

end ConfigConnector.K8s
