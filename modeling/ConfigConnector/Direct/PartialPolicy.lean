import ConfigConnector.Direct.Iam
import ConfigConnector.Iam.PartialPolicy

/- The adapter of direct/iam/iampartialpolicy_controller.go. The policy that `Find` reads
is kept as a proto message and taken back out of it before the bindings are merged. -/
namespace ConfigConnector.Direct.PartialPolicy

open Interact K8s GoMap
open ConfigConnector.Iam (IAMCondition IAMPartialPolicy IAMPolicy IAMPolicyAuditConfig
  IAMPolicyBinding IAMPolicySpec AuditLogConfig AppliedBindings Member MemberIdentityResolver
  ResourceReference)

section Messages

/-- `iampb.AuditLogConfig_LogType`, which is open: a message may hold any number. -/
inductive LogType where
  | logTypeUnspecified
  | adminRead
  | dataWrite
  | dataRead
  | unrecognized (value : Int)
  deriving DecidableEq, Repr

structure PbAuditLogConfig where
  logType : LogType
  exemptedMembers : List Member
  deriving DecidableEq, Repr

structure PbAuditConfig where
  service : String
  auditLogConfigs : List PbAuditLogConfig
  deriving DecidableEq, Repr

structure PbPolicy where
  version : Int
  bindings : List Iampb.Binding
  auditConfigs : List PbAuditConfig
  etag : String
  deriving DecidableEq, Repr

end Messages

variable (upper : Char → Char)

section Mappings

/-- `strings.ToUpper`. `upper` is the upper case in the tables of Unicode of a character that
is not ASCII. -/
def toUpper (s : String) : String :=
  String.ofList (s.toList.map fun c => if c.toNat < 128 then c.toUpper else upper c)

def mapV1Beta1LogTypeToProto (logTypeString : String) : LogType :=
  let name := toUpper upper logTypeString
  if name = "LOG_TYPE_UNSPECIFIED" then .logTypeUnspecified
  else if name = "ADMIN_READ" then .adminRead
  else if name = "DATA_WRITE" then .dataWrite
  else if name = "DATA_READ" then .dataRead
  else .logTypeUnspecified

def mapProtoLogTypeToKRM : LogType → String
  | .logTypeUnspecified => "LOG_TYPE_UNSPECIFIED"
  | .adminRead => "ADMIN_READ"
  | .dataWrite => "DATA_WRITE"
  | .dataRead => "DATA_READ"
  | .unrecognized _ => "LOG_TYPE_UNSPECIFIED"

/-- Of the message only the fields named here are set. -/
def iamPolicySpecToProto (input : IAMPolicySpec) : PbPolicy where
  version := 3
  bindings := input.bindings.map fun b =>
    { role := b.role
      members := b.members
      condition := b.condition.map fun c => ⟨c.expression, c.title, c.description, ""⟩ }
  auditConfigs := input.auditConfigs.map fun ac =>
    { service := ac.service
      auditLogConfigs := ac.auditLogConfigs.map fun alc =>
        ⟨mapV1Beta1LogTypeToProto upper alc.logType, alc.exemptedMembers⟩ }
  etag := ""

/-- Of the spec, too: the reference and the etag are left empty. -/
def iamPolicySpecFromProto (input : PbPolicy) : IAMPolicySpec where
  resourceReference := ⟨"", "", "", "", ""⟩
  bindings := input.bindings.map fun b =>
    { role := b.role
      members := b.members
      condition := b.condition.map fun c => ⟨c.title, c.description, c.expression⟩ }
  auditConfigs := input.auditConfigs.map fun ac =>
    { service := ac.service
      auditLogConfigs := ac.auditLogConfigs.map fun alc =>
        ⟨mapProtoLogTypeToKRM alc.logType, alc.exemptedMembers⟩ }
  etag := ""

/-- An audit config after the way to the message and back. -/
def throughProto (ac : IAMPolicyAuditConfig) : IAMPolicyAuditConfig where
  service := ac.service
  auditLogConfigs := ac.auditLogConfigs.map fun alc =>
    { alc with logType := mapProtoLogTypeToKRM (mapV1Beta1LogTypeToProto upper alc.logType) }

/-- Both ways together keep the bindings and lose the etag. -/
theorem fromProto_toProto (spec : IAMPolicySpec) :
    iamPolicySpecFromProto (iamPolicySpecToProto upper spec) =
      ⟨⟨"", "", "", "", ""⟩, spec.bindings, spec.auditConfigs.map (throughProto upper), ""⟩ := by
  have condition : ∀ c : Option IAMCondition,
      Option.map (fun c : Iampb.Expr => (⟨c.title, c.description, c.expression⟩ : IAMCondition))
        (c.map fun c => ⟨c.expression, c.title, c.description, ""⟩) = c := by
    intro c
    cases c <;> rfl
  simp [iamPolicySpecFromProto, iamPolicySpecToProto, Function.comp_def, throughProto, condition]

/-- The known log types, in the one spelling that they are read back in. -/
def logTypes : List String := ["LOG_TYPE_UNSPECIFIED", "ADMIN_READ", "DATA_WRITE", "DATA_READ"]

def Spelled (auditConfigs : List IAMPolicyAuditConfig) : Prop :=
  ∀ ac ∈ auditConfigs, ∀ alc ∈ ac.auditLogConfigs, alc.logType ∈ logTypes

theorem toUpper_logType {name : String} (known : name ∈ logTypes) : toUpper upper name = name := by
  simp only [logTypes, List.mem_cons, List.not_mem_nil, or_false] at known
  rcases known with rfl | rfl | rfl | rfl <;> rfl

theorem logType_kept_iff (logType : String) :
    mapProtoLogTypeToKRM (mapV1Beta1LogTypeToProto upper logType) = logType ↔
      logType ∈ logTypes := by
  constructor
  · have read : ∀ value, mapProtoLogTypeToKRM value ∈ logTypes := by
      intro value
      cases value <;> simp [mapProtoLogTypeToKRM, logTypes]
    intro kept
    exact kept ▸ read _
  · intro known
    rw [mapV1Beta1LogTypeToProto, toUpper_logType upper known]
    revert logType
    decide

theorem map_eq_self_iff {α : Type} (f : α → α) (xs : List α) :
    xs.map f = xs ↔ ∀ x ∈ xs, f x = x := by
  induction xs with
  | nil => simp
  | cons x xs ih => simp [ih]

/-- The way through the message changes no audit config whose log types are spelled so. -/
theorem throughProto_kept_iff (auditConfigs : List IAMPolicyAuditConfig) :
    auditConfigs.map (throughProto upper) = auditConfigs ↔ Spelled auditConfigs := by
  rw [map_eq_self_iff]
  refine forall₂_congr fun ac _ => ?_
  have config : throughProto upper ac = ac ↔ (throughProto upper ac).auditLogConfigs =
      ac.auditLogConfigs := ⟨congrArg _, fun same => by cases ac; simp_all [throughProto]⟩
  rw [config, throughProto, map_eq_self_iff]
  refine forall₂_congr fun alc _ => ?_
  rw [← logType_kept_iff upper]
  exact ⟨congrArg AuditLogConfig.logType, fun same => by rw [same]⟩

end Mappings

section Adapter

/-- What the adapter asks for, after its object was read. -/
inductive Op where
  | get
  | getPolicy (resource : ResourceReference)
  | resolver
  /-- The orders of the `range` statements of the computation that follows. -/
  | orders
  | setPolicy (policy : IAMPolicy)
  | updateStatus (observedGeneration : Int) (fields : AppliedBindings)

def Op.Answer : Op → Type
  | .get => IAMPartialPolicy
  | .getPolicy _ => Except GoError IAMPolicy
  | .resolver => MemberIdentityResolver
  | .orders => Orders
  | .setPolicy _ => Except GoError Unit
  | .updateStatus _ _ => Except GoError Unit

abbrev S : Signature := ⟨Op, Op.Answer⟩

def ask (op : Op) : Prog S op.Answer := Prog.perform (S := S) op

structure IAMPartialPolicyAdapter where
  desired : IAMPartialPolicy
  actualReferencedResourcePolicy : Option PbPolicy

def namespacedName (desired : IAMPartialPolicy) : String :=
  desired.metadata.ns ++ "/" ++ desired.metadata.name

def toIAMPolicySkeleton (p : IAMPartialPolicy) : IAMPolicy where
  spec := ⟨p.spec.resourceReference, [], [], ""⟩

/-- The bindings of the status are copied, the audit configs and the etag are those of
the policy that the merge began with. -/
def toDesiredPolicy (desiredPartialPolicy : IAMPartialPolicy) (livePolicy : IAMPolicy) :
    IAMPolicy where
  spec :=
    { (toIAMPolicySkeleton desiredPartialPolicy).spec with
      bindings := desiredPartialPolicy.status.fields.allBindings
      etag := livePolicy.spec.etag
      auditConfigs := livePolicy.spec.auditConfigs }

def isNotFound (err : GoError) : Bool :=
  err.isClass .notFound || err.isClass .referenceNotFound

variable (a : IAMPartialPolicyAdapter)

/-- `Find`, with the adapter it leaves. -/
def IAMPartialPolicyAdapter.find : Prog S (Except GoError Bool × IAMPartialPolicyAdapter) := do
  let read : Except GoError IAMPolicy ← ask (.getPolicy a.desired.spec.resourceReference)
  match read with
  | .error err =>
    if isNotFound err then return (.ok false, a)
    else
      return (.error (.wrap ("getting IAM policy for " ++ namespacedName a.desired) err), a)
  | .ok oldKRMPolicy =>
    return (.ok true, { a with
      actualReferencedResourcePolicy := some (iamPolicySpecToProto upper oldKRMPolicy.spec) })

/-- How `Create` and `Update` end. -/
def IAMPartialPolicyAdapter.updateStatus
    (desiredPartialPolicyWithStatus : IAMPartialPolicy) : Prog S (Except GoError Unit) := do
  let saved : Except GoError Unit ←
    ask (.updateStatus a.desired.metadata.generation desiredPartialPolicyWithStatus.status.fields)
  match saved with
  | .error err => return .error (.wrap ("updating status for " ++ namespacedName a.desired) err)
  | .ok _ => return .ok ()

def IAMPartialPolicyAdapter.create : Prog S (Except GoError Unit) := do
  let livePolicyForMerge : IAMPolicy := match a.actualReferencedResourcePolicy with
    | none => ⟨⟨⟨"", "", "", "", ""⟩, [], [], ""⟩⟩
    | some _ => toIAMPolicySkeleton a.desired
  let resolver : MemberIdentityResolver ← ask .resolver
  let orders : Orders ← ask .orders
  match Iam.computePartialPolicyWithMergedBindings orders a.desired livePolicyForMerge resolver with
  | .error err =>
    return .error (.wrap ("computing partial policy for create for " ++
      namespacedName a.desired) err)
  | .ok desiredPartialPolicyWithStatus =>
    let set : Except GoError Unit ←
      ask (.setPolicy (toDesiredPolicy desiredPartialPolicyWithStatus livePolicyForMerge))
    match set with
    | .error err =>
      return .error (.wrap ("setting IAM policy for " ++ namespacedName a.desired) err)
    | .ok _ => a.updateStatus desiredPartialPolicyWithStatus

def IAMPartialPolicyAdapter.update : Prog S (Except GoError Unit) := do
  match a.actualReferencedResourcePolicy with
  | none =>
    return .error (.plain ("no IAM policy found for referenced resource " ++
      a.desired.spec.resourceReference.ns ++ "/" ++ a.desired.spec.resourceReference.name ++
      " during update for IAMPartialPolicy " ++ namespacedName a.desired ++
      "; requeueing for Find"))
  | some actual =>
    let livePolicyForMerge : IAMPolicy := ⟨iamPolicySpecFromProto actual⟩
    let resolver : MemberIdentityResolver ← ask .resolver
    let orders : Orders ← ask .orders
    match Iam.computePartialPolicyWithMergedBindings orders a.desired livePolicyForMerge
      resolver with
    | .error err =>
      return .error (.wrap ("computing partial policy for update for " ++
        namespacedName a.desired) err)
    | .ok desiredPartialPolicyWithStatus =>
      let finalPolicyToSet :=
        toDesiredPolicy desiredPartialPolicyWithStatus livePolicyForMerge
      -- Both sides are nil exactly when they are empty.
      let gcpUpdateNeeded :=
        livePolicyForMerge.spec.bindings ≠ finalPolicyToSet.spec.bindings ||
          livePolicyForMerge.spec.auditConfigs ≠ finalPolicyToSet.spec.auditConfigs
      if gcpUpdateNeeded then
        let set : Except GoError Unit ← ask (.setPolicy finalPolicyToSet)
        match set with
        | .error err =>
          return .error (.wrap ("setting IAM policy for " ++ namespacedName a.desired) err)
        | .ok _ => a.updateStatus desiredPartialPolicyWithStatus
      else a.updateStatus desiredPartialPolicyWithStatus

def IAMPartialPolicyAdapter.delete : Prog S (Except GoError Bool) := do
  match a.actualReferencedResourcePolicy with
  | none => return .ok true
  | some actual =>
    let livePolicyForPruning : IAMPolicy := ⟨iamPolicySpecFromProto actual⟩
    let orders : Orders ← ask .orders
    let set : Except GoError Unit ← ask (.setPolicy (toDesiredPolicy
      (Iam.computePartialPolicyWithRemainingBindings orders a.desired livePolicyForPruning)
      livePolicyForPruning))
    match set with
    | .error err =>
      if isNotFound err then return .ok true
      else
        return .error (.wrap ("setting IAM policy for deletion of " ++
          namespacedName a.desired) err)
    | .ok _ => return .ok true

/-- The calls of the adapter in one reconcile: a new adapter for the object, `Find`, and
then the one operation that fits what was found. -/
def reconcile : Prog S Unit := do
  let desired : IAMPartialPolicy ← ask .get
  let (found, adapter) ← IAMPartialPolicyAdapter.find upper ⟨desired, none⟩
  match found with
  | .error _ => return ()
  | .ok existsAlready =>
    if desired.metadata.isDeleting then
      if existsAlready then
        let _ ← adapter.delete
        return ()
      else return ()
    else if existsAlready then
      let _ ← adapter.update
      return ()
    else
      let _ ← adapter.create
      return ()

end Adapter

end ConfigConnector.Direct.PartialPolicy
