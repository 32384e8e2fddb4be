import ConfigConnector.Direct.PartialPolicy
import ConfigConnector.Iam.PartialPolicyContract
import ConfigConnector.Lib.Machine

/- Any number of objects whose reconciles work on the policy of one resource, and what
one `SetPolicy` among them changes. The policy is sent without an etag, so the service
takes it whatever happened since it was read. -/
namespace ConfigConnector.Direct.PartialPolicy

open Interact K8s GoMap
open ConfigConnector.Iam (IAMPartialPolicy IAMPolicy IAMPolicyAuditConfig IAMPolicyBinding Member
  MemberSource MemberIdentityResolver ResourceReference AppliedBindings Grant grants asWritten
  policyAsking projectRef)
open ConfigConnector.Iam.PartialPolicy (specGrants appliedGrants)

section Service

/-- The policy of the resource. -/
structure Live where
  bindings : List IAMPolicyBinding
  auditConfigs : List IAMPolicyAuditConfig
  etag : String

def Live.read (live : Live) (resource : ResourceReference) : IAMPolicy :=
  ⟨⟨resource, live.bindings, live.auditConfigs, live.etag⟩⟩

/-- A write that the service takes: under the current etag, or under none. -/
structure Written (live : Live) (policy : IAMPolicy) (after : Live) : Prop where
  accepted : policy.spec.etag ≠ "" → policy.spec.etag = live.etag
  changed : after.etag ≠ live.etag
  bindings : after.bindings = policy.spec.bindings
  auditConfigs : after.auditConfigs = policy.spec.auditConfigs

structure State (ι : Type) where
  objects : ι → IAMPartialPolicy
  live : Live

variable {ι : Type} [DecidableEq ι] (identity : Member → Option MemberSource → String → Member)
  (upper : Char → Char)

/-- The object with the status that the controller saves. -/
def saved (pp : IAMPartialPolicy) (observedGeneration : Int) (fields : AppliedBindings) :
    IAMPartialPolicy :=
  { pp with status :=
    { pp.status with observedGeneration := some observedGeneration, fields := fields } }

/-- A write may be made and its answer be lost. -/
def answers (p : ι) (s : State ι) : (op : Op) → op.Answer → State ι → Prop
  | .get, desired, after => after = s ∧ desired = s.objects p
  | .getPolicy resource, answer, after =>
    after = s ∧ ∀ policy, answer = .ok policy → policy = s.live.read resource
  | .resolver, resolver, after => after = s ∧ ∀ member source ns found,
      resolver member source ns = .ok found → found = identity member source ns
  | .orders, _, after => after = s
  | .setPolicy policy, answer, after =>
    after = s ∧ answer ≠ .ok () ∨ ∃ live, Written s.live policy live ∧ after = { s with live }
  | .updateStatus generation fields, answer, after =>
    after = s ∧ answer ≠ .ok () ∨
      after = { s with objects :=
        Function.update s.objects p (saved (s.objects p) generation fields) }

/-- `drift` is what users do to the objects and others to the policy. -/
def machine (drift : State ι → State ι → Prop) : Machine S where
  State := State ι
  Party := ι
  program := fun _ => reconcile upper
  answers := answers identity
  drift := drift

instance (drift : State ι → State ι → Prop) :
    DecidableEq (machine identity upper drift).Party := inferInstanceAs (DecidableEq ι)

end Service

section Seen

/-- The object that the reconcile is for. -/
def objectOf : Trace S → Option IAMPartialPolicy
  | [] => none
  | ⟨.get, desired⟩ :: _ => some desired
  | _ :: rest => objectOf rest

def emptyPolicy : IAMPolicy := ⟨⟨⟨"", "", "", "", ""⟩, [], [], ""⟩⟩

/-- The policy as `Find` saw it: empty where it was not found. -/
def foundPolicy : Trace S → Option IAMPolicy
  | [] => none
  | ⟨.getPolicy _, .ok policy⟩ :: _ => some policy
  | ⟨.getPolicy _, .error _⟩ :: _ => some emptyPolicy
  | _ :: rest => foundPolicy rest

end Seen

section Contract

variable (identity : Member → Option MemberSource → String → Member) (upper : Char → Char)

/-- What is sent for an object, by the policy that was found. -/
structure Sent (desired : IAMPartialPolicy) (found policy : IAMPolicy) : Prop where
  etag : policy.spec.etag = ""
  auditConfigs : policy.spec.auditConfigs = found.spec.auditConfigs.map (throughProto upper)
  unmanaged : ∀ g, g ∉ specGrants identity desired → g ∉ appliedGrants desired →
    (g ∈ grants policy.spec.bindings ↔ g ∈ grants found.spec.bindings)

def guard (seen : Trace S) : Op → Prop
  | .setPolicy policy => ∃ desired found, objectOf seen = some desired ∧
      foundPolicy seen = some found ∧ Sent identity upper desired found policy
  | _ => True

def rely : (op : Op) → op.Answer → Prop
  | .resolver, resolver => ∀ member source ns found,
      resolver member source ns = .ok found → found = identity member source ns
  | _, _ => True

def contract : Contract S where
  guard := guard identity upper
  rely := fun _ => rely identity

variable {identity upper} {desired : IAMPartialPolicy} {found : IAMPolicy} {seen : Trace S}

/-- The policy that the merge starts from: without an etag, and with the audit configs
as the message has them. -/
structure Base (upper : Char → Char) (found base : IAMPolicy) : Prop where
  etag : base.spec.etag = ""
  bindings : base.spec.bindings = found.spec.bindings
  auditConfigs : base.spec.auditConfigs = found.spec.auditConfigs.map (throughProto upper)

theorem base_fromProto (policy : IAMPolicy) :
    Base upper policy ⟨iamPolicySpecFromProto (iamPolicySpecToProto upper policy.spec)⟩ := by
  rw [fromProto_toProto]
  exact ⟨rfl, rfl, rfl⟩

theorem base_empty : Base upper emptyPolicy emptyPolicy := ⟨rfl, rfl, rfl⟩

variable {base : IAMPolicy} {orders : Orders} {resolver : MemberIdentityResolver}

theorem Base.merged (from_found : Base upper found base)
    (active : desired.metadata.isDeleting = false)
    (known : ∀ member source ns found,
      resolver member source ns = .ok found → found = identity member source ns)
    {computed : IAMPartialPolicy}
    (success : Iam.computePartialPolicyWithMergedBindings orders desired base resolver =
      .ok computed) :
    Sent identity upper desired found (toDesiredPolicy computed base) := by
  have granted : grants computed.status.fields.allBindings = _ :=
    (Iam.PartialPolicy.merged_target (.refl desired) active known success).1
  refine ⟨from_found.etag, from_found.auditConfigs, fun g notAsked notApplied => ?_⟩
  change g ∈ grants computed.status.fields.allBindings ↔ _
  rw [granted, Iam.PartialPolicy.mem_target, from_found.bindings]
  simp [notAsked, notApplied]

theorem Base.remaining (from_found : Base upper found base) :
    Sent identity upper desired found (toDesiredPolicy
      (Iam.computePartialPolicyWithRemainingBindings orders desired base) base) := by
  refine ⟨from_found.etag, from_found.auditConfigs, fun g _ notApplied => ?_⟩
  change g ∈ grants (Iam.computePartialPolicyWithRemainingBindings orders desired
    base).status.fields.allBindings ↔ _
  rw [Iam.computePartialPolicyWithRemainingBindings_grants, from_found.bindings]
  exact ⟨fun left => left.1, fun granted => ⟨granted, notApplied⟩⟩

theorem updateStatus_obeys (a : IAMPartialPolicyAdapter) (computed : IAMPartialPolicy) :
    Abides (contract identity upper) seen (a.updateStatus computed) :=
  .call trivial (.onOk (fun _ _ => trivial) fun _ => trivial)

section Operations

variable (object : objectOf seen = some desired) (read : foundPolicy seen = some found)

include object read

theorem create_obeys (active : desired.metadata.isDeleting = false) (empty : found = emptyPolicy) :
    Abides (contract identity upper) seen
      (IAMPartialPolicyAdapter.create ⟨desired, none⟩) := by
  subst empty
  refine .call trivial fun resolver known => ?_
  refine .call trivial fun orders _ => ?_
  split
  · exact trivial
  rename_i computed success
  exact .call ⟨desired, emptyPolicy, object, read,
    base_empty.merged active known success⟩ (.onOk (fun _ _ => updateStatus_obeys _ _)
      fun _ => trivial)

theorem update_obeys (active : desired.metadata.isDeleting = false) :
    Abides (contract identity upper) seen
      (IAMPartialPolicyAdapter.update
        ⟨desired, some (iamPolicySpecToProto upper found.spec)⟩) := by
  refine .call trivial fun resolver known => ?_
  refine .call trivial fun orders _ => ?_
  split
  · exact trivial
  rename_i computed success
  refine .ite (fun _ => ?_) fun _ => updateStatus_obeys _ _
  exact .call ⟨desired, found, object, read,
    (base_fromProto found).merged active known success⟩
      (.onOk (fun _ _ => updateStatus_obeys _ _) fun _ => trivial)

theorem delete_obeys :
    Abides (contract identity upper) seen
      (IAMPartialPolicyAdapter.delete
        ⟨desired, some (iamPolicySpecToProto upper found.spec)⟩) := by
  refine .call trivial fun orders _ => ?_
  exact .call ⟨desired, found, object, read, (base_fromProto found).remaining⟩
    (.onOk (fun _ _ => trivial) fun _ => .ite (fun _ => trivial) fun _ => trivial)

end Operations

theorem reconcile_obeys : Abides (contract identity upper) [] (reconcile upper) := by
  refine .call trivial fun desired _ => ?_
  refine (obeys_bind _ _ _).mpr (.call trivial fun read _ => ?_)
  cases read with
  | error err =>
    change Obeys _ _ _ (if isNotFound err then _ else _)
    by_cases missing : isNotFound err = true
    · split
      · exact trivial
      · rename_i active
        exact (create_obeys rfl rfl (by simpa using active) rfl).map _
    · rw [if_neg missing]
      exact trivial
  | ok policy =>
    exact .ite (fun _ => (delete_obeys rfl rfl).map _)
      fun active => (update_obeys rfl rfl (by simpa using active)).map _

end Contract

section Runs

variable {ι : Type} [DecidableEq ι]

theorem invariant (identity : Member → Option MemberSource → String → Member)
    (upper : Char → Char) (drift : State ι → State ι → Prop) (init : State ι → Prop) :
    (machine identity upper drift).Invariant (fun _ => contract identity upper) init
      (fun _ _ => True) (fun _ => True) (fun _ _ _ => True) where
  init := fun _ _ => trivial
  fresh := fun _ _ _ => trivial
  drift := fun _ _ _ _ _ _ => ⟨trivial, fun _ _ _ => trivial⟩
  act := by
    intro w after p seen op answer _ _ _ answered _
    refine ⟨?_, trivial, trivial, fun _ _ _ _ => trivial⟩
    cases op with
    | resolver => exact answered.2
    | _ => exact trivial

/-- A `SetPolicy` leaves every grant that its object neither asks for nor has applied exactly
when the policy that `Find` read still agrees with the live one there. It leaves the audit
configs if they are those that were read and each log type has a known spelling, and neither
can be missing alone. The etag that was read is not sent, unless there was none. -/
theorem setPolicy_frame_iff (identity : Member → Option MemberSource → String → Member)
    (upper : Char → Char) (drift : State ι → State ι → Prop) (init : State ι → Prop)
    (w : (machine identity upper drift).World)
    (reached : (machine identity upper drift).Reach init (fun _ _ => True) w)
    (p : ι) (seen : Trace S) (policy : IAMPolicy) (next : Except GoError Unit → Prog S Unit)
    (running : w.threads p = some ⟨seen, .call (.setPolicy policy) next⟩) :
    ∃ desired found, objectOf seen = some desired ∧ foundPolicy seen = some found ∧
      (policy.spec.etag = found.spec.etag ↔ found.spec.etag = "") ∧
      ∀ after, Written w.state.live policy after →
        ((∀ g, g ∉ specGrants identity desired → g ∉ appliedGrants desired →
            (g ∈ grants after.bindings ↔ g ∈ grants w.state.live.bindings)) ↔
          ∀ g, g ∉ specGrants identity desired → g ∉ appliedGrants desired →
            (g ∈ grants found.spec.bindings ↔ g ∈ grants w.state.live.bindings)) ∧
        (found.spec.auditConfigs = w.state.live.auditConfigs ∨ Spelled found.spec.auditConfigs →
          (after.auditConfigs = w.state.live.auditConfigs ↔
            found.spec.auditConfigs = w.state.live.auditConfigs ∧
              Spelled w.state.live.auditConfigs)) := by
  have obeys := ((Machine.Reach.invariant (fun _ => reconcile_obeys)
    (invariant identity upper drift init) reached).2 p _ running).2
  obtain ⟨desired, found, object, read, sent⟩ := obeys.1
  refine ⟨desired, found, object, read, ?_, fun after write => ?_⟩
  · rw [sent.etag]
    exact eq_comm
  rw [write.bindings, write.auditConfigs, sent.auditConfigs]
  constructor
  · apply forall_congr'
    intro g
    apply imp_congr_right
    intro notAsked
    apply imp_congr_right
    intro notApplied
    rw [sent.unmanaged g notAsked notApplied]
  · rintro (unchanged | spelled)
    · rw [unchanged, throughProto_kept_iff]
      exact (and_iff_right rfl).symm
    · rw [(throughProto_kept_iff upper _).mpr spelled]
      exact ⟨fun same => ⟨same, same ▸ spelled⟩, And.left⟩

end Runs

section Replay

/-- What others do: the policy gets another version with the same grants of the objects. -/
inductive External {ι : Type} (identity : Member → Option MemberSource → String → Member)
    (s : State ι) : State ι → Prop where
  | edit (live : Live) (changed : live.etag ≠ s.live.etag)
      (apart : ∀ p g, g ∈ specGrants identity (s.objects p) ∪ appliedGrants (s.objects p) →
        (g ∈ grants live.bindings ↔ g ∈ grants s.live.bindings)) :
      External identity s { s with live }

def viewerPolicy : IAMPartialPolicy := policyAsking ["user:a"] ⟨[], none, ⟨[], []⟩⟩

def editors : IAMPolicyBinding := ⟨["user:b"], "roles/editor", none⟩

def viewers : IAMPolicyBinding := ⟨["user:a"], "roles/viewer", none⟩

def owners : IAMPolicyBinding := ⟨["user:c"], "roles/owner", none⟩

def audits : List IAMPolicyAuditConfig := [⟨"allServices", [⟨"ADMIN_READ", ["user:b"]⟩]⟩]

def start : State Unit := ⟨fun _ => viewerPolicy, ⟨[editors], audits, "e1"⟩⟩

def bothSent : IAMPolicy := ⟨⟨projectRef, [editors, viewers], audits, ""⟩⟩

def ownerAdded : State Unit := ⟨fun _ => viewerPolicy, ⟨[editors, owners], audits, "e2"⟩⟩

theorem viewerPolicy_role {g : Grant} (asked : g ∈ specGrants asWritten viewerPolicy) :
    g.key.role = "roles/viewer" := by
  obtain ⟨b, member, key, _⟩ := asked
  cases List.mem_singleton.mp member
  rw [key]

theorem start_ownerAdded : External asWritten start ownerAdded := by
  refine .edit ⟨[editors, owners], audits, "e2"⟩ (by decide) ?_
  rintro p g (asked | ⟨b, member, _⟩)
  · have role := viewerPolicy_role asked
    have apart : ∀ bindings : List IAMPolicyBinding,
        (∀ b ∈ bindings, b.role ≠ "roles/viewer") → g ∉ grants bindings := by
      intro bindings different granted
      obtain ⟨b, member, key, _⟩ := Iam.mem_grants.mp granted
      apply different b member
      rw [← role, ← key]
      rfl
    exact iff_of_false (apart _ (by decide)) (apart _ (by decide))
  · cases member

abbrev alone := machine (ι := Unit) asWritten id (External asWritten)

/-- Between the read and the write somebody makes `user:c` an owner. The write has no
etag, is taken, and the owner is gone. -/
theorem concurrent_grant_lost :
    ∃ (w : alone.World) (seen : Trace S) (next : Except GoError Unit → Prog S Unit) (after : Live)
      (g : Grant), alone.Reach (· = start) (fun _ _ => True) w ∧
      w.threads () = some ⟨seen, .call (.setPolicy bothSent) next⟩ ∧
      objectOf seen = some viewerPolicy ∧ Written w.state.live bothSent after ∧
      g ∉ specGrants asWritten viewerPolicy ∧ g ∉ appliedGrants viewerPolicy ∧
      g ∈ grants w.state.live.bindings ∧ g ∉ grants after.bindings := by
  have init := @Machine.Reach.init _ alone _ (· = start) (fun _ _ => True) start rfl
  have started := init.start ()
  have object := started.reply () rfl viewerPolicy start
  have read := object.reply () rfl (Except.ok (start.live.read projectRef)) start
    ⟨rfl, by rintro found ⟨⟩; rfl⟩
  have edited := read.step _ _ (.drift _ ownerAdded (by exact start_ownerAdded)) trivial
  have resolver := edited.reply () rfl (fun member _ _ => Except.ok member) ownerAdded
    ⟨rfl, by rintro member source ns found ⟨⟩; rfl⟩
  have ordered := resolver.reply () rfl GoMap.Orders.stored ownerAdded
  refine ⟨_, _, _, ⟨[editors, viewers], audits, "e3"⟩, ⟨⟨"roles/owner", .zero⟩, "user:c"⟩, ordered,
    rfl, rfl, ⟨by simp [bothSent], by decide, rfl, rfl⟩, fun asked => ?_, ?_, ?_, ?_⟩
  · exact absurd (viewerPolicy_role asked) (by decide)
  · simp [appliedGrants, viewerPolicy, policyAsking]
  · simp [ownerAdded, Iam.mem_grants, owners, Iam.getIamBindingKey]
  · simp [Iam.mem_grants, editors, viewers, Iam.getIamBindingKey]

/-- Nobody else is at work, and the write leaves the editor. -/
theorem setPolicy_frame_iff_alone :
    start.live.etag ≠ bothSent.spec.etag ∧
      ∀ after, Written start.live bothSent after →
        (∀ g, g ∉ specGrants asWritten viewerPolicy → g ∉ appliedGrants viewerPolicy →
          (g ∈ grants after.bindings ↔ g ∈ grants start.live.bindings)) ∧
        after.auditConfigs = start.live.auditConfigs := by
  have init := @Machine.Reach.init _ alone _ (· = start) (fun _ _ => True) start rfl
  have started := init.start ()
  have object := started.reply () rfl viewerPolicy start
  have read := object.reply () rfl (Except.ok (start.live.read projectRef)) start
    ⟨rfl, by rintro found ⟨⟩; rfl⟩
  have resolver := read.reply () rfl (fun member _ _ => Except.ok member) start
    ⟨rfl, by rintro member source ns found ⟨⟩; rfl⟩
  have ordered := resolver.reply () rfl GoMap.Orders.stored start
  obtain ⟨desired, found, desiredIs, foundIs, etag, frame⟩ := setPolicy_frame_iff asWritten id
    (External asWritten) (· = start) _ ordered () _ bothSent _ rfl
  cases desiredIs
  cases foundIs
  refine ⟨fun same => absurd (etag.mp same.symm) (by decide), fun after write => ?_⟩
  obtain ⟨granted, audited⟩ := frame after write
  have spelled : Spelled audits := by simp [Spelled, audits, logTypes]
  exact ⟨granted.mpr fun g _ _ => Iff.rfl, (audited (.inl rfl)).mpr ⟨rfl, spelled⟩⟩

end Replay

end ConfigConnector.Direct.PartialPolicy
