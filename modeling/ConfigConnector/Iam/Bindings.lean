import ConfigConnector.Iam.Types
import ConfigConnector.Lib.GoMap

/- The computation of partialpolicy/bindings.go. Every `range` over a map takes
its order from `orders`. -/
namespace ConfigConnector.Iam

open K8s GoMap

structure IamBindingKey where
  role : String
  condition : IAMCondition
  deriving DecidableEq, Repr

/-- `MemberIdentityResolver.Resolve`: member, member source and default namespace. -/
abbrev MemberIdentityResolver : Type :=
  Member → Option MemberSource → String → Except GoError Member

/-- A binding without a condition and one with the zero condition share a key. -/
def getIamBindingKey (binding : IAMPolicyBinding) : IamBindingKey :=
  { role := binding.role, condition := binding.condition.getD .zero }

/-- `map[iamBindingKey]IAMPolicyBinding`, where every binding is under its own key. -/
structure BindingMap where
  entries : AList fun _ : IamBindingKey => IAMPolicyBinding
  keyed : ∀ k b, entries.lookup k = some b → getIamBindingKey b = k

namespace BindingMap

def empty : BindingMap := ⟨∅, fun k b found => by simp at found⟩

def lookup (m : BindingMap) (k : IamBindingKey) : Option IAMPolicyBinding := m.entries.lookup k

def set (m : BindingMap) (k : IamBindingKey) (b : IAMPolicyBinding)
    (same : getIamBindingKey b = k) : BindingMap where
  entries := m.entries.insert k b
  keyed := by
    intro other c found
    by_cases equal : other = k
    · subst equal
      rw [AList.lookup_insert, Option.some.injEq] at found
      exact found ▸ same
    · rw [AList.lookup_insert_ne equal] at found
      exact m.keyed other c found

/-- `b.Members = members; bindingMap[k] = b` for the binding `b` found under `k`. -/
def setMembers (m : BindingMap) (k : IamBindingKey) (b : IAMPolicyBinding)
    (found : m.lookup k = some b) (members : List Member) : BindingMap :=
  m.set k { b with members } (m.keyed k b found : getIamBindingKey { b with members } = k)

/-- The bindings in the order of one `range` that keeps those with members. -/
def nonEmpty (m : BindingMap) (order : RangeOrder) : List IAMPolicyBinding :=
  ((range order m.entries).map Prod.snd).filter fun b => b.members.length > 0

end BindingMap

/-- `map[Member]bool` with the given members as keys. -/
def memberMap (members : List Member) (initial : AList fun _ : Member => Bool) :
    AList fun _ : Member => Bool :=
  members.foldl (fun m member => m.insert member true) initial

def mergeMembers (order : RangeOrder) (memberSlice1 memberSlice2 : List Member) : List Member :=
  let members := memberMap memberSlice2 (memberMap memberSlice1 ∅)
  sortSlice (fun a b => a < b) ((range order members).map Prod.fst)

def computeDeletedMembers (members lastAppliedMembers : List Member) : List Member :=
  lastAppliedMembers.filter fun m => ((memberMap members ∅).lookup m).isNone

def removeDeletedMembers (members deletedMembers : List Member) : List Member :=
  members.filter fun m => ((memberMap deletedMembers ∅).lookup m).isNone

/-- The loop of `mergeBindings`: the first binding of a key is stored as it is,
the members of later ones are merged into it. -/
def mergeInto (orders : Orders) (bindingMap : BindingMap) : List IAMPolicyBinding → BindingMap
  | [] => bindingMap
  | a :: rest =>
    match found : bindingMap.lookup (getIamBindingKey a) with
    | none => mergeInto (orders.below 1) (bindingMap.set (getIamBindingKey a) a rfl) rest
    | some b =>
      mergeInto (orders.below 1) (bindingMap.setMembers (getIamBindingKey a) b found
        (mergeMembers (orders.below 0).here b.members a.members)) rest

variable (orders : Orders)

def mergeBindings (bindings : List IAMPolicyBinding) : BindingMap :=
  mergeInto orders .empty bindings

def mergeBindingsWithSameRoleAndCondition (bindings : List IAMPolicyBinding) :
    List IAMPolicyBinding :=
  (mergeBindings (orders.below 0) bindings).nonEmpty orders.here

def mergeBindingSlices (bindingSlice1 bindingSlice2 : List IAMPolicyBinding) :
    List IAMPolicyBinding :=
  mergeBindingsWithSameRoleAndCondition orders (bindingSlice1 ++ bindingSlice2)

/-- One round of the loop of `computeDeletedMembersPerBinding`: what it appends. -/
def deletedBinding (bindingMap : BindingMap) (k : IamBindingKey) (a : IAMPolicyBinding) :
    Option IAMPolicyBinding :=
  match bindingMap.lookup k with
  | none => some a
  | some b =>
    let removedMembers := computeDeletedMembers b.members a.members
    if removedMembers.length > 0 then some { b with members := removedMembers } else none

def computeDeletedMembersPerBinding
    (bindings lastAppliedBindings : List IAMPolicyBinding) : List IAMPolicyBinding :=
  let bindingMap := mergeBindings (orders.below 0) bindings
  let lastAppliedBindingMap := mergeBindings (orders.below 1) lastAppliedBindings
  (range orders.here lastAppliedBindingMap.entries).filterMap fun entry =>
    deletedBinding bindingMap entry.1 entry.2

/-- The loop of `removeMembersPerBinding` over the bindings to remove. -/
def removeFrom (bindingMap : BindingMap) : List IAMPolicyBinding → BindingMap
  | [] => bindingMap
  | a :: rest =>
    match found : bindingMap.lookup (getIamBindingKey a) with
    | none => removeFrom bindingMap rest
    | some b =>
      removeFrom (bindingMap.setMembers (getIamBindingKey a) b found
        (removeDeletedMembers b.members a.members)) rest

def removeMembersPerBinding
    (bindings deletedBindings : List IAMPolicyBinding) : List IAMPolicyBinding :=
  (removeFrom (mergeBindings (orders.below 0) bindings) deletedBindings).nonEmpty orders.here

/-- The order of `sortBindingSlice`. -/
def keyLess (k1 k2 : IamBindingKey) : Bool :=
  if k1.role ≠ k2.role then k1.role < k2.role
  else if k1.condition.title ≠ k2.condition.title then
    k1.condition.title < k2.condition.title
  else if k1.condition.description ≠ k2.condition.description then
    k1.condition.description < k2.condition.description
  else if k1.condition.expression ≠ k2.condition.expression then
    k1.condition.expression < k2.condition.expression
  else false

def sortBindingSlice (bindings : List IAMPolicyBinding) : List IAMPolicyBinding :=
  sortSlice (fun a b => keyLess (getIamBindingKey a) (getIamBindingKey b)) bindings

section Resolve

variable (resolver : MemberIdentityResolver) (defaultNamespace : String)

def resolveMembers : List IAMPartialPolicyMember → Except GoError (List Member)
  | [] => .ok []
  | m :: rest =>
    match resolver m.member m.memberFrom defaultNamespace with
    | .error err =>
      .error (.wrap "error resolving member identity of IAMPartialPolicy binding" err)
    | .ok resolved => (resolveMembers rest).map (resolved :: ·)

def toIAMPolicyBinding (b : IAMPartialPolicyBinding) : Except GoError IAMPolicyBinding :=
  (resolveMembers resolver defaultNamespace b.members).map fun members =>
    { members, role := b.role, condition := b.condition }

def convertBindings : List IAMPartialPolicyBinding → Except GoError (List IAMPolicyBinding)
  | [] => .ok []
  | b :: rest =>
    match toIAMPolicyBinding resolver defaultNamespace b with
    | .error err =>
      .error (.wrap "error converting IAMPartialPolicy binding to IAMPolicy binding" err)
    | .ok converted => (convertBindings rest).map (converted :: ·)

end Resolve

variable (partialPolicy : IAMPartialPolicy)

def convertIAMPartialBindingsToIAMPolicyBindings (resolver : MemberIdentityResolver) :
    Except GoError (List IAMPolicyBinding) :=
  (convertBindings resolver partialPolicy.metadata.ns partialPolicy.spec.bindings).map
    (mergeBindingsWithSameRoleAndCondition orders)

/-- The object with other bindings in its status. -/
def withBindings (lastAppliedBindings allBindings : List IAMPolicyBinding) : IAMPartialPolicy :=
  { partialPolicy with status :=
    { partialPolicy.status with fields := { lastAppliedBindings, allBindings } } }

def computePartialPolicyWithMergedBindings
    (livePolicy : IAMPolicy) (resolver : MemberIdentityResolver) :
    Except GoError IAMPartialPolicy :=
  match convertIAMPartialBindingsToIAMPolicyBindings (orders.below 0) partialPolicy resolver with
  | .error err =>
    .error (.wrap "error converting IAMPartialPolicy bindings to IAMPolicy bindings" err)
  | .ok specifiedBindings =>
    let merged := mergeBindingSlices (orders.below 1) specifiedBindings livePolicy.spec.bindings
    let toRemove := computeDeletedMembersPerBinding (orders.below 2) specifiedBindings
      partialPolicy.status.fields.lastAppliedBindings
    let desiredAllBindings := removeMembersPerBinding (orders.below 3) merged toRemove
    .ok (withBindings partialPolicy (sortBindingSlice specifiedBindings)
      (sortBindingSlice desiredAllBindings))

def computePartialPolicyWithRemainingBindings (livePolicy : IAMPolicy) : IAMPartialPolicy :=
  let remainingBindings := removeMembersPerBinding orders livePolicy.spec.bindings
    partialPolicy.status.fields.lastAppliedBindings
  withBindings partialPolicy [] (sortBindingSlice remainingBindings)

end ConfigConnector.Iam
