import Mathlib

/- Trees with any number of parts, and trees that differ in the order of parts only. -/

inductive Rose (τ : Type) where
  | node (tag : τ) (parts : List (Rose τ))

namespace Rose

variable {τ : Type}

def tag : Rose τ → τ
  | .node tag _ => tag

def parts : Rose τ → List (Rose τ)
  | .node _ parts => parts

/-- A property holds of every tree if it holds of a tree whenever it holds of its parts. -/
theorem tree {P : Rose τ → Prop}
    (step : ∀ tag parts, (∀ part ∈ parts, P part) → P (.node tag parts)) : ∀ a, P a
  | .node tag parts => step tag parts fun part _ => tree step part

section Equality

variable [DecidableEq τ]

mutual

def decEq : (a b : Rose τ) → Decidable (a = b)
  | .node s as, .node t bs =>
    have := decEqs as bs
    decidable_of_iff (s = t ∧ as = bs) (by simp)

def decEqs : (as bs : List (Rose τ)) → Decidable (as = bs)
  | [], [] => isTrue rfl
  | [], _ :: _ => isFalse nofun
  | _ :: _, [] => isFalse nofun
  | a :: as, b :: bs =>
    have := decEq a b
    have := decEqs as bs
    decidable_of_iff (a = b ∧ as = bs) (by simp)

end

instance : DecidableEq (Rose τ) := decEq

end Equality

/-- The trees differ in the order of parts, at any places where the tag leaves it open. -/
inductive Reordered (free : τ → Prop) : Rose τ → Rose τ → Prop where
  | refl (a : Rose τ) : Reordered free a a
  | perm {tag : τ} {parts others : List (Rose τ)} (here : free tag) (perm : parts.Perm others) :
      Reordered free (.node tag parts) (.node tag others)
  | part {tag : τ} {a b : Rose τ} (before after : List (Rose τ)) (below : Reordered free a b) :
      Reordered free (.node tag (before ++ a :: after)) (.node tag (before ++ b :: after))
  | trans {a b c : Rose τ} (first : Reordered free a b) (second : Reordered free b c) :
      Reordered free a c

theorem Reordered.tag_eq {free : τ → Prop} {a b : Rose τ} (same : Reordered free a b) :
    a.tag = b.tag := by
  induction same with
  | refl _ | perm _ _ | part _ _ _ _ => rfl
  | trans _ _ first second => exact first.trans second

theorem Reordered.parts {free : τ → Prop} {tag : τ} {parts others : List (Rose τ)}
    (each : List.Forall₂ (Reordered free) parts others) :
    Reordered free (.node tag parts) (.node tag others) := by
  have behind : ∀ before, Reordered free (.node tag (before ++ parts))
      (.node tag (before ++ others)) := by
    induction each with
    | nil => exact fun before => .refl _
    | @cons a b parts others here _ ih =>
      intro before
      have later := ih (before ++ [b])
      rw [List.append_assoc, List.append_assoc] at later
      exact (Reordered.part before parts here).trans later
  exact behind []

end Rose
