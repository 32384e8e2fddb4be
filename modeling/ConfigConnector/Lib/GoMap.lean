import Mathlib

/- Maps whose iteration order is not defined, and sorting by a `less` function.
A `range` over a map may visit its entries in any order, and in another one the
next time, so the order is an argument of everything that ranges. -/
namespace GoMap

open List

/-- The order in which one `range` visits the entries it is given: which of `n`
entries comes at each place. -/
def RangeOrder : Type := (n : Nat) → Equiv.Perm (Fin n)

variable (order : RangeOrder)

namespace RangeOrder

def pick {α : Type} (order : RangeOrder) (entries : List α) : List α :=
  List.ofFn (entries.get ∘ order entries.length)

theorem perm {α : Type} (entries : List α) : (order.pick entries).Perm entries := by
  have same := (order entries.length).ofFn_comp_perm entries.get
  rwa [ofFn_get] at same

/-- The order in which the entries were stored. -/
def stored : RangeOrder := fun n => Equiv.refl (Fin n)

end RangeOrder

/-- An order for every `range` of an execution. A `range` is addressed by the
call sites and loop rounds that lead to it. -/
def Orders : Type := List Nat → RangeOrder

namespace Orders

def here (orders : Orders) : RangeOrder := orders []

/-- The orders of what is called from one site, or in one round of a loop. -/
def below (orders : Orders) (site : Nat) : Orders := fun path => orders (site :: path)

def stored : Orders := fun _ => .stored

end Orders

section Range

variable {K V : Type}

/-- The entries of a map in the order in which a `range` visits them. -/
def range (order : RangeOrder) (m : AList (fun _ : K => V)) : List (K × V) :=
  (order.pick m.entries).map fun entry => (entry.1, entry.2)

@[simp] theorem mem_range [DecidableEq K] (m : AList (fun _ : K => V)) (key : K) (value : V) :
    (key, value) ∈ range order m ↔ m.lookup key = some value := by
  have found : value ∈ m.lookup key ↔ Sigma.mk key value ∈ m.entries := AList.mem_lookup_iff
  rw [Option.mem_def] at found
  rw [found, range, mem_map]
  constructor
  · rintro ⟨entry, member, same⟩
    cases same
    exact (order.perm m.entries).mem_iff.mp member
  · intro member
    exact ⟨⟨key, value⟩, (order.perm m.entries).mem_iff.mpr member, rfl⟩

theorem range_keys_nodup (m : AList (fun _ : K => V)) : ((range order m).map Prod.fst).Nodup := by
  have keys : ((order.pick m.entries).map Sigma.fst).Perm m.keys := (order.perm m.entries).map _
  rw [range, map_map]
  exact keys.nodup_iff.mpr m.keys_nodup

end Range

section Sorting

variable {α : Type}

/-- Sorting by `less`. Which of two elements that are not ordered comes first is
not defined by the language; here it is the one that came first. -/
def sortSlice (less : α → α → Bool) (items : List α) : List α :=
  items.insertionSort fun a b => less b a = false

variable (less : α → α → Bool)

theorem sortSlice_perm (items : List α) :
    (sortSlice less items).Perm items := perm_insertionSort _ items

@[simp] theorem mem_sortSlice (items : List α) (a : α) :
    a ∈ sortSlice less items ↔ a ∈ items := (sortSlice_perm less items).mem_iff

/-- Sorting by a key of a linear order, where no two elements have the same key. -/
theorem sortSlice_strict {β : Type} [LinearOrder β] (key : α → β) (items : List α)
    (compares : ∀ a b, less a b = true ↔ key a < key b) (distinct : (items.map key).Nodup) :
    (sortSlice less items).Pairwise fun a b => key a < key b := by
  have ordered : ∀ a b, less b a = false ↔ key a ≤ key b := by
    intro a b
    rw [← Bool.not_eq_true, compares, not_lt]
  have total : Std.Total fun a b => less b a = false :=
    ⟨fun a b => by simpa only [ordered] using le_total (key a) (key b)⟩
  have transitive : IsTrans α fun a b => less b a = false :=
    ⟨fun a b c => by simpa only [ordered] using le_trans⟩
  have weak := pairwise_insertionSort (fun a b => less b a = false) items
  have apart : (sortSlice less items).Pairwise fun a b => key a ≠ key b :=
    pairwise_map.mp (((sortSlice_perm less items).map key).nodup_iff.mpr distinct)
  exact weak.imp₂ (fun a b le ne => lt_of_le_of_ne ((ordered a b).mp le) ne) apart

/-- Lists in the strict order of a key are equal if they have the same elements. -/
theorem eq_of_strict {β : Type} [LinearOrder β] (key : α → β) {first second : List α}
    (firstSorted : first.Pairwise fun a b => key a < key b)
    (secondSorted : second.Pairwise fun a b => key a < key b)
    (same : ∀ a, a ∈ first ↔ a ∈ second) : first = second := by
  have distinct : ∀ {items : List α}, (items.Pairwise fun a b => key a < key b) → items.Nodup := by
    intro items sorted
    exact sorted.imp fun {a b} below equal => absurd (equal ▸ below) (lt_irrefl _)
  have perm : first.Perm second :=
    (perm_ext_iff_of_nodup (distinct firstSorted) (distinct secondSorted)).mpr same
  exact perm.eq_of_pairwise (fun a b _ _ below above => absurd above (lt_asymm below)) firstSorted
    secondSorted

end Sorting

end GoMap
