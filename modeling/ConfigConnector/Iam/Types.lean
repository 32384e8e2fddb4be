import ConfigConnector.K8s.Object

/- The IAM resources: what users write, and the policy of a GCP resource. -/
namespace ConfigConnector.Iam

open K8s

abbrev Member : Type := String

structure ResourceReference where
  kind : String
  ns : String
  name : String
  apiVersion : String
  external : String
  deriving DecidableEq, Repr

structure IAMCondition where
  title : String
  description : String
  expression : String
  deriving DecidableEq, Repr

/-- The zero value of the Go struct. -/
def IAMCondition.zero : IAMCondition := ⟨"", "", ""⟩

structure MemberReference where
  ns : String
  name : String
  deriving DecidableEq, Repr

structure BigQueryConnectionServiceAccountRef where
  ns : String
  name : String
  type : String
  deriving DecidableEq, Repr

structure MemberSource where
  serviceAccountRef : Option MemberReference
  logSinkRef : Option MemberReference
  sqlInstanceRef : Option MemberReference
  serviceIdentityRef : Option MemberReference
  bigQueryConnectionConnectionRef : Option BigQueryConnectionServiceAccountRef
  deriving DecidableEq, Repr

structure IAMPartialPolicyMember where
  member : Member
  memberFrom : Option MemberSource
  deriving DecidableEq, Repr

structure IAMPartialPolicyBinding where
  members : List IAMPartialPolicyMember
  role : String
  condition : Option IAMCondition
  deriving DecidableEq, Repr

structure IAMPolicyBinding where
  members : List Member
  role : String
  condition : Option IAMCondition
  deriving DecidableEq, Repr

structure AuditLogConfig where
  logType : String
  exemptedMembers : List Member
  deriving DecidableEq, Repr

structure IAMPolicyAuditConfig where
  service : String
  auditLogConfigs : List AuditLogConfig
  deriving DecidableEq, Repr

structure IAMPolicySpec where
  resourceReference : ResourceReference
  bindings : List IAMPolicyBinding
  auditConfigs : List IAMPolicyAuditConfig
  etag : String
  deriving DecidableEq, Repr

/-- An `IAMPolicy` that a controller reads from GCP or sends to it. It is not
stored in the API server, so of its parts only the spec carries anything. -/
structure IAMPolicy where
  spec : IAMPolicySpec
  deriving DecidableEq, Repr

structure IAMPartialPolicySpec where
  resourceReference : ResourceReference
  bindings : List IAMPartialPolicyBinding
  deriving DecidableEq, Repr

/-- The status fields that only `IAMPartialPolicy` has. -/
structure AppliedBindings where
  lastAppliedBindings : List IAMPolicyBinding
  allBindings : List IAMPolicyBinding
  deriving DecidableEq, Repr

abbrev IAMPartialPolicy : Type := Resource IAMPartialPolicySpec AppliedBindings

end ConfigConnector.Iam
