import Mathlib

/- Slices sorted by a key, and loops over a slice that keep the place of the last element that
passes a test. -/
namespace GoSlice

variable {α : Type}

theorem sorted_by {τ : Type} [LinearOrder τ] (key : α → τ) (xs : List α) :
    (xs.mergeSort fun a b => key a ≤ key b).Pairwise fun a b => key a ≤ key b := by
  refine (List.pairwise_mergeSort ?_ ?_ xs).imp of_decide_eq_true
  · intro a b c first second
    exact decide_eq_true (le_trans (of_decide_eq_true first) (of_decide_eq_true second))
  · intro a b
    simpa using le_total (key a) (key b)

/-- `for i, x := range xs { if test(x) { found = i } }`. -/
def lastIndex (test : α → Bool) (xs : List α) : Option Nat :=
  xs.zipIdx.foldl (fun found entry => if test entry.1 then some entry.2 else found) none

variable (test : α → Bool) (xs : List α)

theorem lastIndex_append_singleton (x : α) :
    lastIndex test (xs ++ [x]) = if test x then some xs.length else lastIndex test xs := by
  simp [lastIndex, List.zipIdx_append]

/-- Without an index no element passes. -/
theorem lastIndex_eq_none (none_found : lastIndex test xs = none) : ∀ x ∈ xs, test x = false := by
  induction xs using List.reverseRecOn with
  | nil => simp
  | append_singleton xs x ih =>
    rw [lastIndex_append_singleton] at none_found
    by_cases passes : test x = true
    · simp [passes] at none_found
    simp only [passes, Bool.false_eq_true, ↓reduceIte] at none_found
    have others := ih none_found
    simpa [or_imp, forall_and, passes] using others

/-- The index is that of an element that passes, and none behind it does. -/
theorem lastIndex_eq_some {i : Nat} (found : lastIndex test xs = some i) :
    ∃ before x after, xs = before ++ x :: after ∧ before.length = i ∧ test x ∧
      ∀ y ∈ after, test y = false := by
  induction xs using List.reverseRecOn with
  | nil => simp [lastIndex] at found
  | append_singleton xs x ih =>
    rw [lastIndex_append_singleton] at found
    by_cases passes : test x = true
    · simp only [passes, ↓reduceIte, Option.some.injEq] at found
      exact ⟨xs, x, [], rfl, found, passes, by simp⟩
    simp only [passes, Bool.false_eq_true, ↓reduceIte] at found
    obtain ⟨before, y, after, rfl, place, good, rest⟩ := ih found
    refine ⟨before, y, after ++ [x], by simp, place, good, ?_⟩
    simpa [or_imp, forall_and, passes] using rest

variable {test xs} in
/-- The element that the loop ends with, as the last of those that pass. -/
theorem last_of_filter {before after : List α} {x : α} (passes : test x)
    (rest : ∀ y ∈ after, test y = false) :
    ((before ++ x :: after).filter test).getLast? = some x := by
  have none_left : after.filter test = [] := by simpa using rest
  simp [List.filter_append, passes, none_left]

/-- A change of the element at a place, where the slice is split there. -/
theorem modify_middle (before after : List α) (x : α) (f : α → α) :
    (before ++ x :: after).modify before.length f = before ++ f x :: after := by
  induction before with
  | nil => rfl
  | cons y before ih => simp [ih]

end GoSlice
