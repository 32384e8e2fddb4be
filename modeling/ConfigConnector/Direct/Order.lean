import ConfigConnector.Direct.Controller
import ConfigConnector.Lifecycle.Rules

/- In which order the direct controller turns to its adapter: in one reconcile it looks for the
resource once, and deletes, creates or updates it at most once after that. -/
namespace ConfigConnector.Direct

open Interact K8s Actuation
open Lifecycle (Hooks Reports)

variable {σ τ : Type} {seen : Trace (S σ τ)}

section Reports

/-- A contract under which the controller can report on the object. -/
structure Reporting (C : Contract (S σ τ)) : Prop where
  hooks : Hooks C
  status : ∀ seen r, C.guard seen (.updateStatus r)
  watch : ∀ seen err, C.guard seen (.ask (.watch err))

/-- The controller can report on this object, also after it has started to watch another. -/
structure ReportsOn (C : Contract (S σ τ)) (seen : Trace (S σ τ)) (u : Unstructured σ τ) :
    Prop where
  hooks : Hooks C
  now : ∀ r, u = .object r → Reports C seen r
  watch : ∀ r err, u = .object r → C.guard seen (.ask (.watch err)) ∧
    ∀ answer, Reports C (⟨.ask (.watch err), answer⟩ :: seen) r

variable {C : Contract (S σ τ)} {u : Unstructured σ τ}

theorem Reporting.on (reporting : Reporting C) (u : Unstructured σ τ) : ReportsOn C seen u :=
  ⟨reporting.hooks, fun _ _ _ _ => reporting.status _ _,
    fun _ _ _ => ⟨reporting.watch _ _, fun _ _ _ => reporting.status _ _⟩⟩

namespace ReportsOn

section

variable (on : ReportsOn C seen u)
include on

variable (err : GoError)

theorem handleUpdateFailed : Abides C seen (handleUpdateFailed u err) := by
  cases u with
  | failure message => trivial
  | object r => exact (Lifecycle.reportFailed_abides on.hooks (on.now r rfl) _ _).map _

theorem handleDeleteFailed : Abides C seen (handleDeleteFailed u err) := by
  cases u with
  | failure message => trivial
  | object r => exact (Lifecycle.reportFailed_abides on.hooks (on.now r rfl) _ _).map _

theorem requeueUnresolvableDeps : Abides C seen (requeueUnresolvableDeps u err) := by
  cases u with
  | failure message => trivial
  | object r => exact (Lifecycle.handleUnresolvableDeps_abides on.hooks (on.now r rfl) err).map _

theorem handleUnresolvableDeps : Abides C seen (handleUnresolvableDeps u err) := by
  cases u with
  | failure message => trivial
  | object r =>
    obtain ⟨guarded, reports⟩ := on.watch r err rfl
    refine .ite (fun _ => .call guarded fun watch _ => ?_)
      fun _ => (Lifecycle.handleUnresolvableDeps_abides on.hooks (on.now r rfl) err).map _
    cases watch with
    | failed failure => exact (Lifecycle.reportFailed_abides on.hooks (reports _) _ _).map _
    | notStarted | started =>
      exact (Lifecycle.handleUnresolvableDeps_abides on.hooks (reports _) err).map _

theorem updateError (err reported : GoError) : Abides C seen (updateError u err reported) := by
  unfold Direct.updateError
  split
  · exact on.handleUnresolvableDeps _
  · exact on.handleUpdateFailed reported

end

end ReportsOn

end Reports

section Asked

/-- What the adapter was asked about the resource. -/
inductive Asked where
  | find (found : Except GoError Bool)
  | delete (result : Except GoError Unit)

def asked : Trace (S σ τ) → List Asked
  | [] => []
  | ⟨.ask .find, found⟩ :: rest => .find found :: asked rest
  | ⟨.ask .delete, result⟩ :: rest => .delete result :: asked rest
  | _ :: rest => asked rest

theorem asked_find (found : Except GoError Bool) (rest : Trace (S σ τ)) :
    asked (⟨.ask .find, found⟩ :: rest : Trace (S σ τ)) = .find found :: asked rest := rfl

theorem asked_delete (result : Except GoError Unit) (rest : Trace (S σ τ)) :
    asked (⟨.ask .delete, result⟩ :: rest : Trace (S σ τ)) = .delete result :: asked rest := rfl

theorem asked_suffix (entry : Sigma (S σ τ).Ans) (seen : Trace (S σ τ)) :
    asked seen <:+ asked (entry :: seen) := by
  rw [asked.eq_def (entry :: seen)]
  split
  · contradiction
  · rename_i same
    cases same
    exact List.suffix_cons _ _
  · rename_i same
    cases same
    exact List.suffix_cons _ _
  · rename_i same
    cases same
    exact List.suffix_rfl

theorem mem_asked {entry : Sigma (S σ τ).Ans} {e : Asked}
    (asks : ∀ rest, asked (entry :: rest) = e :: asked rest) (member : entry ∈ seen) :
    e ∈ asked seen := by
  induction seen with
  | nil => cases member
  | cons first rest ih =>
    rcases List.mem_cons.mp member with rfl | old
    · exact asks rest ▸ .head _
    · exact (asked_suffix first rest).subset (ih old)

/-- The order of the calls to the adapter. -/
def ordered (σ τ : Type) : Contract (S σ τ) where
  guard := fun seen c => match c with
    | .ask .find => asked seen = []
    | .ask .delete | .ask .update => asked seen = [.find (.ok true)]
    | .ask .create => asked seen = [.find (.ok false)]
    | _ => True
  rely := fun _ _ _ => True

end Asked

end ConfigConnector.Direct
