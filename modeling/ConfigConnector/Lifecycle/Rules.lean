import ConfigConnector.K8s.Session
import ConfigConnector.Lifecycle.Handler

/- One rule for each function of the handler: which calls it makes, and so what a
contract has to allow for the function to keep to it. -/
namespace ConfigConnector.Lifecycle

open Interact K8s

variable {σ τ Q : Type} {A : Q → Type} {C : Contract (calls σ τ A)}
  {seen : Trace (calls σ τ A)} {r : Resource σ τ}

/-- The object with a ready condition and the generation that it is about. -/
def conditioned (r : Resource σ τ) (status : ConditionStatus) (reason message : String) :
    Resource σ τ :=
  setObservedGeneration (setCondition r status reason message) r.metadata.generation

/-- The contract lets the overrides of a kind look at the object. -/
def Hooks (C : Contract (calls σ τ A)) : Prop :=
  ∀ later u, C.guard later (.postUpdateStatusTransform u)

/-- The contract lets any problem be reported on the object. -/
def Reports (C : Contract (calls σ τ A)) (seen : Trace (calls σ τ A)) (r : Resource σ τ) : Prop :=
  ∀ reason message, C.guard seen (.updateStatus (conditioned r .false reason message))

section Writes

variable {post : Trace (calls σ τ A) → Except GoError (Resource σ τ) → Prop}

theorem updateStatus_obeys (hooks : Hooks C) (guarded : C.guard seen (.updateStatus r))
    (failed : ∀ later err, post later (.error err))
    (saved : ∀ u spec, C.rely seen (.updateStatus r) (.object u) →
      C.rely (⟨.updateStatus r, .object u⟩ :: seen) (.postUpdateStatusTransform u) (.ok spec) →
      post (⟨.postUpdateStatusTransform u, .ok spec⟩ :: ⟨.updateStatus r, .object u⟩ :: seen)
        (.ok { u with spec })) :
    Obeys C post seen (updateStatus r) := by
  refine .call guarded fun reply relied => ?_
  cases reply with
  | error _ | status _ => exact failed _ _
  | object u =>
    refine .call (hooks _ u) fun answer transformed => ?_
    cases answer with
    | error err => exact failed _ _
    | ok spec => exact saved u spec relied transformed

/-- The calls of `updateAPIServer`: the object, and then its status. -/
theorem updateAPIServer_obeys (hooks : Hooks C)
    (guarded : C.guard seen (.update (removeSystemLabels r)))
    (status : ∀ u, C.rely seen (.update (removeSystemLabels r)) (.object u) →
      C.guard (⟨.update (removeSystemLabels r), .object u⟩ :: seen) (.updateStatus
        (setObservedGeneration { u with status := r.status } r.metadata.generation)))
    (failed : ∀ later err, post later (.error err))
    (gone : ∀ u, C.rely seen (.update (removeSystemLabels r)) (.object u) →
      u.metadata.isDeleting = true → u.metadata.finalizers = [] →
      post (⟨.update (removeSystemLabels r), .object u⟩ :: seen) (.ok u))
    (saved : ∀ u u' spec, C.rely seen (.update (removeSystemLabels r)) (.object u) →
      C.rely (⟨.update (removeSystemLabels r), .object u⟩ :: seen) (.updateStatus
        (setObservedGeneration { u with status := r.status } r.metadata.generation))
        (.object u') →
      C.rely (⟨.updateStatus
          (setObservedGeneration { u with status := r.status } r.metadata.generation),
          .object u'⟩ :: ⟨.update (removeSystemLabels r), .object u⟩ :: seen)
        (.postUpdateStatusTransform u') (.ok spec) →
      post (⟨.postUpdateStatusTransform u', .ok spec⟩ :: ⟨.updateStatus
          (setObservedGeneration { u with status := r.status } r.metadata.generation),
          .object u'⟩ :: ⟨.update (removeSystemLabels r), .object u⟩ :: seen)
        (.ok { u' with spec })) :
    Obeys C post seen (updateAPIServer r) := by
  refine .call guarded fun reply relied => ?_
  cases reply with
  | error _ | status _ => exact failed _ _
  | object u =>
    change Obeys C post _ (if _ then _ else _)
    split
    · rename_i garbage
      simp only [Bool.and_eq_true, beq_iff_eq, List.length_eq_zero_iff] at garbage
      exact gone u relied garbage.1 garbage.2
    · exact updateStatus_obeys hooks (status u relied) failed
        fun u' spec written transformed => saved u u' spec relied written transformed

end Writes

section Reporting

section

variable (hooks : Hooks C) (reports : Reports C seen r)
include hooks reports

/-- Whatever is reported, nothing but the status of the object is written. -/
theorem updateStatus_abides (reason message : String) :
    Abides C seen (updateStatus (conditioned r .false reason message)) :=
  updateStatus_obeys hooks (reports reason message) (fun _ _ => trivial) fun _ _ _ _ => trivial

variable (reason : String)

theorem reportFailed_abides (reported : GoError) :
    Abides C seen (reportFailed r reason reported) := by
  refine Obeys.bind_any (updateStatus_abides hooks reports reason reported.error) ?_
  intro later result
  cases result <;> trivial

theorem reportNews_abides (err : GoError) : Abides C seen (reportNews r reason err) := by
  unfold reportNews
  split
  · trivial
  refine Obeys.bind_any (updateStatus_abides hooks reports reason err.error) ?_
  intro later result
  cases result <;> trivial

theorem handleUnresolvableDeps_abides (originErr : GoError) :
    Abides C seen (handleUnresolvableDeps r originErr) := by
  unfold handleUnresolvableDeps
  split
  · exact (reportFailed_abides hooks reports _ _).map _
  · exact reportNews_abides hooks reports _ _

theorem reportNewsAndReturn_abides (err : GoError) :
    Abides C seen (reportNewsAndReturn r reason err) := by
  refine Obeys.bind_any (reportNews_abides hooks reports reason err) ?_
  intro later result
  cases result <;> trivial

end

end Reporting

end ConfigConnector.Lifecycle
