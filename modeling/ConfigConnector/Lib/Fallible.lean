import Mathlib.Data.List.Forall2

/- Computations that may fail, taken apart step by step. -/
namespace Fallible

open List Option

variable {ε α β : Type}
variable {R : α → β → Prop} {f : α → Except ε β} {items : List α} {results : List β}

@[simp] theorem ok_bind (value : α) (next : α → Except ε β) :
    (Except.ok value >>= next) = next value := rfl

@[simp] theorem error_bind (err : ε) (next : α → Except ε β) :
    ((Except.error err : Except ε α) >>= next) = .error err := rfl

theorem ok_eq_ok {value result : α} :
    (Except.ok value : Except ε α) = .ok result ↔ result = value := by
  rw [Except.ok.injEq, eq_comm]

theorem bind_eq_ok {first : Except ε α} {next : α → Except ε β} {result : β} :
    (first >>= next) = .ok result ↔ ∃ value, first = .ok value ∧ next value = .ok result := by
  cases first with
  | error err =>
    constructor
    · intro success
      cases success
    · rintro ⟨value, success, _⟩
      cases success
  | ok value =>
    constructor
    · exact fun success => ⟨value, rfl, success⟩
    · rintro ⟨other, same, success⟩
      cases same
      exact success

/-- A function that succeeds on every item succeeds on the list; `R` relates the results to
what the items were made from. -/
theorem mapM_of_forall₂ {γ : Type} {R : α → γ → Prop} {f : β → Except ε γ} {sources : List α}
    {items : List β}
    (each : List.Forall₂ (fun source item => ∃ result, f item = .ok result ∧ R source result)
      sources items) :
    ∃ results, items.mapM f = .ok results ∧ List.Forall₂ R sources results := by
  induction each with
  | nil => exact ⟨[], rfl, .nil⟩
  | cons first rest ih =>
    obtain ⟨result, done, related⟩ := first
    obtain ⟨results, rest_done, rest_related⟩ := ih
    refine ⟨result :: results, ?_, .cons related rest_related⟩
    rw [mapM_cons, done, ok_bind, rest_done, ok_bind]
    rfl

theorem mapM_of_forall (each : ∀ item ∈ items, ∃ result, f item = .ok result ∧ R item result) :
    ∃ results, items.mapM f = .ok results ∧ List.Forall₂ R items results := by
  apply mapM_of_forall₂
  exact List.forall₂_same.mpr each

theorem mapM_ok (each : ∀ item ∈ items, ∃ result, f item = .ok result) :
    ∃ results, items.mapM f = .ok results := by
  have related : ∀ item ∈ items, ∃ result, f item = .ok result ∧ f item = .ok result :=
    fun item member => (each item member).imp fun _ done => ⟨done, done⟩
  obtain ⟨results, done, -⟩ := mapM_of_forall related
  exact ⟨results, done⟩

theorem foldlM_same {body : β → α → Except ε β} {start : β}
    (same : ∀ item ∈ items, body start item = .ok start) : items.foldlM body start = .ok start := by
  induction items with
  | nil => rfl
  | cons item rest ih =>
    rw [foldlM_cons, same item (.head _), ok_bind]
    exact ih fun other member => same other (.tail _ member)

/-- A function that never fails is mapped. -/
theorem mapM_eq_map {g : α → β} (each : ∀ item, f item = .ok (g item))
    (items : List α) : items.mapM f = .ok (items.map g) := by
  induction items with
  | nil => rfl
  | cons item rest ih =>
    rw [mapM_cons, each, ok_bind, ih]
    rfl

/-- A list of items succeeds if each of them does, and gives their results in order. -/
theorem mapM_eq_ok :
    items.mapM f = .ok results ↔
      List.Forall₂ (fun item result => f item = .ok result) items results := by
  induction items generalizing results with
  | nil =>
    rw [List.forall₂_nil_left_iff, mapM_nil]
    exact ⟨fun same => (Except.ok.inj same).symm, fun same => by rw [same]; rfl⟩
  | cons item rest ih =>
    rw [mapM_cons, bind_eq_ok, List.forall₂_cons_left_iff]
    constructor
    · intro ⟨first, first_done, rest_done⟩
      obtain ⟨others, others_done, same⟩ := bind_eq_ok.mp rest_done
      exact ⟨first, others, first_done, ih.mp others_done, (Except.ok.inj same).symm⟩
    · intro ⟨first, others, first_done, others_done, same⟩
      exact ⟨first, first_done, bind_eq_ok.mpr ⟨others, ih.mpr others_done, by rw [same]; rfl⟩⟩

section

variable (done : items.mapM f = .ok results)
include done

theorem map_of_mapM : items.map f = results.map .ok := by
  rw [← List.forall₂_eq_eq_eq, List.forall₂_map_left_iff, List.forall₂_map_right_iff]
  exact mapM_eq_ok.mp done

theorem ok_of_mapM {item : α} (member : item ∈ items) : ∃ result, f item = .ok result := by
  have held : f item ∈ results.map .ok := map_of_mapM done ▸ mem_map_of_mem member
  obtain ⟨result, -, same⟩ := mem_map.mp held
  exact ⟨result, same.symm⟩

/-- The results are those of the items. -/
theorem mem_of_mapM (result : β) : result ∈ results ↔ ∃ item ∈ items, f item = .ok result := by
  rw [← List.mem_map, map_of_mapM done, List.mem_map_of_injective fun _ _ => Except.ok.inj]

end

theorem forall₂_imp_of_mem {S : α → β → Prop} (related : List.Forall₂ R items results)
    (each : ∀ item ∈ items, ∀ result, R item result → S item result) :
    List.Forall₂ S items results := by
  induction related with
  | nil => exact .nil
  | @cons item result _ _ here _ ih =>
    exact .cons (each item (.head _) result here)
      (ih fun other member => each other (.tail _ member))

theorem map_eq_of_forall₂ {f : α → β} (related : List.Forall₂ R items results)
    (each : ∀ item ∈ items, ∀ result, R item result → f item = result) : items.map f = results := by
  have equal := forall₂_imp_of_mem related each
  rwa [← List.forall₂_map_left_iff (R := Eq), List.forall₂_eq_eq_eq] at equal

section Partial

variable {f : α → Option β}

theorem mapM_eq_some :
    items.mapM f = some results ↔ List.Forall₂ (fun item result => f item = some result) items
      results := by
  induction items generalizing results with
  | nil =>
    rw [List.forall₂_nil_left_iff, mapM_nil]
    exact ⟨fun same => (Option.some.inj same).symm, fun same => by rw [same]; rfl⟩
  | cons item rest ih =>
    rw [mapM_cons, bind_eq_bind, bind_eq_some_iff, List.forall₂_cons_left_iff]
    constructor
    · rintro ⟨first, first_done, rest_done⟩
      obtain ⟨others, others_done, same⟩ := bind_eq_some_iff.mp rest_done
      exact ⟨first, others, first_done, ih.mp others_done, (Option.some.inj same).symm⟩
    · rintro ⟨first, others, first_done, others_done, rfl⟩
      exact ⟨first, first_done, bind_eq_some_iff.mpr ⟨others, ih.mpr others_done, rfl⟩⟩

theorem mapM_isSome (each : ∀ item ∈ items, ∃ result, f item = some result) :
    ∃ results, items.mapM f = some results := by
  induction items with
  | nil => exact ⟨[], rfl⟩
  | cons item rest ih =>
    obtain ⟨first, first_done⟩ := each item (.head _)
    obtain ⟨others, others_done⟩ := ih fun other member => each other (.tail _ member)
    exact ⟨first :: others, mapM_eq_some.mpr (.cons first_done (mapM_eq_some.mp others_done))⟩

end Partial

end Fallible
