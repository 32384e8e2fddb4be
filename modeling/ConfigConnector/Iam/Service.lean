import ConfigConnector.Iam.Grants

/- The IAM policy of one GCP resource as the service keeps it, and what reading and
writing it through the Terraform client and through the DCL client can do. -/
namespace ConfigConnector.Iam

open K8s

/-- `past` are the etags the policy had before: an etag names one version of it. -/
structure LivePolicy where
  bindings : List IAMPolicyBinding
  auditConfigs : List IAMPolicyAuditConfig
  etag : String
  past : List String

namespace LivePolicy

variable {dcl : Bool} {live after : LivePolicy} {policy : IAMPolicy} {answer : Except GoError Unit}

/-- What `GetPolicy` returns. The DCL client does not read the audit configs. -/
def read (live : LivePolicy) (dcl : Bool) (resource : ResourceReference) : IAMPolicy where
  spec :=
    { resourceReference := resource
      bindings := live.bindings
      auditConfigs := if dcl then [] else live.auditConfigs
      etag := live.etag }

/-- One version of the policy follows another. -/
structure Follows (live after : LivePolicy) : Prop where
  fresh : after.etag ∉ live.etag :: live.past
  past : after.past = live.etag :: live.past

/-- A write that the service takes: only under the current etag. The DCL client
refuses audit configs and leaves those of the policy alone. -/
structure Written (dcl : Bool) (live : LivePolicy) (policy : IAMPolicy) (after : LivePolicy) :
    Prop extends Follows live after where
  etag : policy.spec.etag = live.etag
  supported : dcl = true → policy.spec.auditConfigs = []
  bindings : after.bindings = policy.spec.bindings
  auditConfigs : after.auditConfigs = if dcl then live.auditConfigs else policy.spec.auditConfigs

/-- `SetPolicy` also succeeds, without a write, when there is nothing to change. -/
inductive SetOutcome (dcl : Bool) (live : LivePolicy) (policy : IAMPolicy) :
    Except GoError Unit → LivePolicy → Prop where
  | written (after : LivePolicy) (write : Written dcl live policy after) :
      SetOutcome dcl live policy (.ok ()) after
  | upToDate (same : grants policy.spec.bindings = grants live.bindings) :
      SetOutcome dcl live policy (.ok ()) live
  | lost (after : LivePolicy) (err : GoError) (write : Written dcl live policy after) :
      SetOutcome dcl live policy (.error err) after
  | failed (err : GoError) : SetOutcome dcl live policy (.error err) live

/-- A policy read earlier is the live one for as long as the etag is the same. -/
structure Knows (dcl : Bool) (live : LivePolicy) (policy : IAMPolicy) : Prop where
  old : policy.spec.etag ∈ live.etag :: live.past
  same : policy.spec.etag = live.etag → policy.spec.bindings = live.bindings ∧
    policy.spec.auditConfigs = if dcl then [] else live.auditConfigs

theorem knows_read (live : LivePolicy) (dcl : Bool) (resource : ResourceReference) :
    Knows dcl live (live.read dcl resource) := ⟨by simp [read], fun _ => ⟨rfl, rfl⟩⟩

theorem Knows.follows
    (knows : Knows dcl live policy) (follows : Follows live after) : Knows dcl after policy := by
  refine ⟨?_, fun same => ?_⟩
  · rw [follows.past]
    exact .tail _ knows.old
  have old := knows.old
  rw [same] at old
  exact absurd old follows.fresh

/-- All that setting a policy can do: nothing, or one write of it. -/
theorem SetOutcome.cases (outcome : SetOutcome dcl live policy answer after) :
    Written dcl live policy after ∨
      after = live ∧ (answer = .ok () → grants policy.spec.bindings = grants live.bindings) := by
  cases outcome with
  | written _ write | lost _ _ write => exact Or.inl write
  | upToDate same => exact Or.inr ⟨rfl, fun _ => same⟩
  | failed err => exact Or.inr ⟨rfl, nofun⟩

theorem Knows.set {other : IAMPolicy} (knows : Knows dcl live other)
    (outcome : SetOutcome dcl live policy answer after) : Knows dcl after other := by
  rcases outcome.cases with write | ⟨rfl, _⟩
  · exact knows.follows write.toFollows
  · exact knows

/-- After a success the policy grants what was asked for. -/
theorem SetOutcome.grants_ok (outcome : SetOutcome dcl live policy answer after)
    (success : answer = .ok ()) : grants after.bindings = grants policy.spec.bindings := by
  rcases outcome.cases with write | ⟨rfl, same⟩
  · rw [write.bindings]
  · exact (same success).symm

end LivePolicy

end ConfigConnector.Iam
