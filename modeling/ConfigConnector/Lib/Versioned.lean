import Mathlib

/- A value that writers replace only if they know its latest version. All the versions there
have been are kept, so that readers can be given old ones. -/
namespace Versioned

variable {α : Type}

structure Entry (α : Type) where
  value : α
  version : Nat

/-- All versions, the latest one first. -/
structure Store (α : Type) where
  history : List (Entry α)
  falling : history.Pairwise fun newer older => older.version < newer.version

namespace Store

def current (s : Store α) : Option (Entry α) := s.history.head?

/-- The number of the next version. -/
def next (s : Store α) : Nat := (s.current.map (·.version + 1)).getD 0

variable {s : Store α} {e : Entry α}

theorem lt_next (member : e ∈ s.history) : e.version < s.next := by
  obtain ⟨history, falling⟩ := s
  cases history with
  | nil => cases member
  | cons newest rest =>
    show e.version < newest.version + 1
    rcases List.mem_cons.mp member with rfl | old
    · omega
    · have older := (List.pairwise_cons.mp falling).1 e old
      omega

def commit (s : Store α) (value : α) : Store α where
  history := ⟨value, s.next⟩ :: s.history
  falling := List.pairwise_cons.mpr ⟨fun _ member => lt_next member, s.falling⟩

/-- A version that has the number of the latest one is the latest one. -/
theorem eq_current {newest : Entry α} (member : e ∈ s.history)
    (current : s.current = some newest) (same : e.version = newest.version) : e = newest := by
  obtain ⟨history, falling⟩ := s
  cases history with
  | nil => cases member
  | cons head rest =>
    obtain rfl : head = newest := Option.some.inj current
    rcases List.mem_cons.mp member with rfl | old
    · rfl
    · have older := (List.pairwise_cons.mp falling).1 e old
      omega

/-- The first version. -/
def create (s : Store α) (value : α) : Option (Store α × Entry α) :=
  match s.current with
  | none => some (s.commit value, ⟨value, s.next⟩)
  | some _ => none

/-- Replace the latest version, if it is `version`. Nothing is written where nothing changes. -/
def update [DecidableEq α] (s : Store α) (version : Nat) (value : α) :
    Option (Store α × Entry α) :=
  match s.current with
  | none => none
  | some newest =>
    if newest.version ≠ version then none
    else if value = newest.value then some (s, newest)
    else some (s.commit value, ⟨value, s.next⟩)

/-- What a write leaves: the old versions, and the one that it answers with, which is the latest. -/
structure Wrote (s after : Store α) (value : α) (saved : Entry α) : Prop where
  value_eq : saved.value = value
  current : after.current = some saved
  old : ∀ e ∈ s.history, e ∈ after.history
  new : ∀ e ∈ after.history, e ∈ s.history ∨ e = saved

theorem wrote_commit (s : Store α) (value : α) :
    Wrote s (s.commit value) value ⟨value, s.next⟩ where
  value_eq := rfl
  current := rfl
  old := fun _ member => .tail _ member
  new := fun _ member => (List.mem_cons.mp member).symm

variable {after : Store α} {value : α} {saved : Entry α}

theorem create_wrote (created : s.create value = some (after, saved)) :
    s.current = none ∧ Wrote s after value saved := by
  unfold create at created
  split at created
  · rename_i absent
    cases created
    exact ⟨absent, wrote_commit s value⟩
  · cases created

theorem update_wrote [DecidableEq α] {version : Nat}
    (updated : s.update version value = some (after, saved)) :
    (∃ newest, s.current = some newest ∧ newest.version = version) ∧
      Wrote s after value saved := by
  unfold update at updated
  split at updated
  · cases updated
  rename_i newest current
  split at updated
  · cases updated
  rename_i same
  refine ⟨⟨newest, current, not_not.mp same⟩, ?_⟩
  split at updated
  · rename_i unchanged
    cases updated
    exact ⟨unchanged.symm, current, fun _ member => member, fun _ member => Or.inl member⟩
  · cases updated
    exact wrote_commit s value

theorem Wrote.saved_mem (wrote : Wrote s after value saved) : saved ∈ after.history :=
  List.mem_of_mem_head? wrote.current

end Store

end Versioned
