import ConfigConnector.Operator.Workloads

/- What each reconciler has read and checked before it applies the StatefulSet of a controller
manager. -/
namespace ConfigConnector.Operator

open Interact K8s List String

variable {obj edited : Object} {items : List Object} {manifests : Manifests} {isolation : Isolation}

section Seen

/-- The ConfigConnector object was read in this mode. -/
def Read (mode : Mode) (seen : Trace S) : Prop :=
  ∃ cc : ConfigConnectorObject,
    (⟨.getConfigConnector, (.ok cc : Except GoError ConfigConnectorObject)⟩ : Sigma S.Ans) ∈ seen ∧
      cc.getMode = mode

/-- The list of controller pods showed none for a namespace. -/
def NoneListed (isolation : Isolation) (seen : Trace S) : Prop :=
  ∃ pods : List Pod,
    (⟨.listControllerPods (podNamespace isolation) 100, (.ok pods : Except GoError (List Pod))⟩ :
      Sigma S.Ans) ∈ seen ∧ onlyClusterModePod pods = true

/-- The StatefulSet for cluster mode was not found. -/
def SetGone (seen : Trace S) : Prop :=
  ∃ err : GoError,
    (⟨.getStatefulSet clusterModeStatefulSet, (.error err : Except GoError Object)⟩ :
      Sigma S.Ans) ∈ seen ∧ isNotFound err = true

/-- The pod for cluster mode was not found. -/
def PodGone (seen : Trace S) : Prop :=
  ∃ err : GoError,
    (⟨.getPod clusterModePod, (.error err : Except GoError Pod)⟩ : Sigma S.Ans) ∈ seen ∧
      isNotFound err = true

/-- Where and under which names the controller managers for namespaces are deployed. -/
structure Placed (isolation : Isolation) (obj : Object) : Prop where
  name : ∃ suffix, obj.name = serviceAccountNamePrefix ++ suffix
  ns : isolation = .shared → obj.ns = cnrmSystemNamespace

variable {seen later : Trace S}

theorem Read.mono {mode : Mode} (read : Read mode seen) (grown : seen <:+ later) :
    Read mode later :=
  read.imp fun _ found => ⟨grown.subset found.1, found.2⟩

theorem NoneListed.mono (listed : NoneListed isolation seen) (grown : seen <:+ later) :
    NoneListed isolation later :=
  listed.imp fun _ found => ⟨grown.subset found.1, found.2⟩

theorem PodGone.mono (gone : PodGone seen) (grown : seen <:+ later) : PodGone later :=
  gone.imp fun _ found => ⟨grown.subset found.1, found.2⟩

/-- A controller manager for a namespace does not have the name of the one for cluster mode. -/
theorem Placed.not_clusterMode (placed : Placed isolation obj) : ¬ obj.isClusterMode := by
  intro cluster
  obtain ⟨suffix, name⟩ := placed.name
  have same : obj.name = kccControllerManagerComponent := congrArg NamespacedName.name cluster
  have lengths := congrArg String.length (name.symm.trans same)
  have left : serviceAccountNamePrefix.length = 24 := rfl
  have right : kccControllerManagerComponent.length = 23 := rfl
  rw [String.length_append, left, right] at lengths
  omega

/-- May the object be applied after this trace? -/
structure Checked (isolation : Isolation) (seen : Trace S) (obj : Object) : Prop where
  cluster : obj.kind = "StatefulSet" → obj.isClusterMode → NoneListed isolation seen
  perNamespace : obj.kind = "StatefulSet" → obj.isPerNamespace →
    Placed isolation obj ∧ PodGone seen

theorem Checked.mono (checked : Checked isolation seen obj)
    (grown : seen <:+ later) : Checked isolation later obj where
  cluster := fun kind mode => (checked.cluster kind mode).mono grown
  perNamespace := fun kind mode =>
    ⟨(checked.perNamespace kind mode).1, (checked.perNamespace kind mode).2.mono grown⟩

end Seen

variable {seen : Trace S}

section Contract

/-- Each check is made in the mode it is for, and the pod is looked for after the StatefulSet. -/
def guard (isolation : Isolation) (seen : Trace S) : Op → Prop
  | .getStatefulSet _ => Read .namespaced seen
  | .getPod _ => SetGone seen ∧ Read .namespaced seen
  | .listControllerPods ns limit =>
    limit ≠ 0 → ns = podNamespace isolation ∧ limit = 100 ∧ Read .cluster seen
  | .updateConfigConnector cc => Read cc.getMode seen
  | .apply obj => Checked isolation seen obj
  | _ => True

def contract (isolation : Isolation) : Contract S where
  guard := guard isolation
  rely := fun _ op answer =>
    match op, answer with
    | .editContents items, answer => ∀ edited, answer = .ok edited →
        ∀ obj ∈ edited, ∃ item ∈ items, SameIdentity obj item
    | _, _ => True

/-- The program keeps to the contract, whatever it returns. -/
abbrev Safe (isolation : Isolation) (seen : Trace S) {α : Type}
    (program : Prog S (Except GoError α)) : Prop :=
  Succeeds (contract isolation) (fun _ _ => True) seen program

variable {α : Type}

theorem wrapError_succeeds {post : Trace S → α → Prop} {text : String}
    {program : Prog S (Except GoError α)}
    (succeeds : Succeeds (contract isolation) post seen program) :
    Succeeds (contract isolation) post seen (wrapError text program) :=
  succeeds.mapError

theorem safe_ret (result : Except GoError α) : Safe isolation seen (.ret result) :=
  fun _ _ => trivial

theorem safe_perform {op : Op} {next : op.Answer → Except GoError α}
    (guarded : guard isolation seen op) :
    Safe isolation seen (.call op fun answer => .ret (next answer)) :=
  .perform guarded fun _ _ _ _ => trivial

theorem safe_ite {c : Prop} [Decidable c] {yes no : Except GoError α} :
    Safe isolation seen (if c then .ret yes else .ret no) := by
  split <;> exact safe_ret _

theorem deleteObject_succeeds (typed : Bool) (obj : Object) :
    Safe isolation seen (deleteObject typed obj) := by
  refine .call trivial (.onOk (fun _ _ => ?_) fun _ => safe_ite)
  change Obeys _ _ _ (removeOperatorFinalizerIfPresent typed obj)
  unfold removeOperatorFinalizerIfPresent
  split
  · exact safe_ret _
  · exact wrapError_succeeds (safe_perform trivial)

theorem deleteObjects_succeeds (typed : Bool) (objects : List Object) :
    Safe isolation seen (deleteObjects typed objects) := by
  induction objects generalizing seen with
  | nil => exact Succeeds.ok trivial
  | cons obj rest ih => exact (deleteObject_succeeds typed obj).onOk fun _ _ _ _ => ih

theorem exponentialBackoff_succeeds {condition : Prog S (Except GoError Bool)}
    (each : ∀ seen, Safe isolation seen condition) (steps : Nat) :
    Safe isolation seen (exponentialBackoff condition steps) := by
  induction steps generalizing seen with
  | zero => exact Succeeds.error _
  | succ steps ih =>
    refine (each seen).onOk fun later done _ _ => ?_
    cases done with
    | true => exact Succeeds.ok trivial
    | false => exact ih

theorem editContents_succeeds (items : List Object) : Succeeds (contract isolation)
      (fun _ edited => ∀ obj ∈ edited, ∃ item ∈ items, SameIdentity obj item) seen
      (editContents items) :=
  .perform trivial fun _ edited relied same => relied edited same

/-- All that is applied has been checked. -/
theorem applyAll_obeys (checked : ∀ obj ∈ items, Checked isolation seen obj) :
    Safe isolation seen (applyAll items) := by
  have whole : Abides (contract isolation) seen (applyAll items) := by
    induction items generalizing seen with
    | nil => trivial
    | cons obj rest ih =>
      refine .call (checked obj (.head _)) fun answer _ => ?_
      refine (ih fun other member => ?_).map _
      exact (checked other (.tail _ member)).mono (suffix_cons _ _)
  exact whole.mono fun _ _ _ _ _ => trivial

end Contract

section Manifests

/-- What the files of every version have: the controller manager for cluster mode in the
manifest for that mode only, and no StatefulSet for a namespace but the controller manager. -/
structure Manifests.Fit (manifests : Manifests) : Prop where
  system : ∀ cc objects, manifests.system cc = .ok objects → ∀ obj ∈ objects,
    obj.kind = "StatefulSet" →
      ¬ obj.isPerNamespace ∧ (obj.isClusterMode → cc.getMode = .cluster)
  perNamespace : ∀ version templates, manifests.perNamespace version = .ok templates →
    ∀ obj ∈ templates, obj.kind = "StatefulSet" →
      obj.ns = cnrmSystemNamespace ∧ obj.name = serviceAccountNamePrefix ++ namespacePattern

theorem SameIdentity.trans {first second third : Object} (one : SameIdentity first second)
    (two : SameIdentity second third) : SameIdentity first third :=
  ⟨one.1.trans two.1, one.2.1.trans two.2.1, one.2.2.trans two.2.2⟩

theorem SameIdentity.clusterMode (same : SameIdentity edited obj) :
    edited.isClusterMode ↔ obj.isClusterMode := by
  unfold Object.isClusterMode
  rw [same.2.1]

theorem SameIdentity.perNamespace (same : SameIdentity edited obj) :
    edited.isPerNamespace ↔ obj.isPerNamespace := by
  unfold Object.isPerNamespace
  rw [same.2.1, same.2.2]

end Manifests

section System

theorem listControllerPods_succeeds :
    Safe isolation seen (listControllerPods (podNamespace isolation) 0) :=
  .perform (fun positive => absurd rfl positive) fun _ _ _ _ => trivial

theorem finalizeSystemComponentsDeletion_succeeds :
    Safe isolation seen (finalizeSystemComponentsDeletion isolation) := by
  refine (deleteObject_succeeds _ _).onOk fun _ _ _ _ => ?_
  refine (wrapError_succeeds (exponentialBackoff_succeeds (fun _ => ?_) _)).onOk fun _ _ _ _ => ?_
  · refine Obeys.bind (wrapError_succeeds listControllerPods_succeeds) fun _ _ _ => ?_
    exact fun _ _ => trivial
  refine (wrapError_succeeds (exponentialBackoff_succeeds (fun _ => ?_) _)).onOk fun _ _ _ _ => ?_
  · exact safe_perform trivial
  exact deleteObjects_succeeds _ _

variable {cc : ConfigConnectorObject}

theorem updateConfigConnector_succeeds (read : Read cc.getMode seen) :
    Safe isolation seen (updateConfigConnector cc) :=
  .perform read fun _ _ _ _ => trivial

theorem createCNRMSystemNamespace_succeeds (items : List Object) :
    Safe isolation seen (createCNRMSystemNamespace items) := by
  unfold createCNRMSystemNamespace
  split
  · exact Succeeds.ok trivial
  refine .call trivial fun outcome _ => ?_
  cases outcome with
  | created | alreadyExists | failed err => exact safe_ret _

theorem verifyPerNamespace_succeeds (read : Read .cluster seen) :
    Succeeds (contract isolation) (fun later _ => NoneListed isolation later) seen
      (verifyPerNamespaceControllerManagerPodsAreDeleted isolation) := by
  refine .call (fun _ => ⟨rfl, rfl, read⟩) (.onOk (fun pods _ => ?_) fun _ => nofun)
  exact .ite (fun passed => Succeeds.ok ⟨pods, .head _, passed⟩) fun _ => Succeeds.error _

/-- What is left to apply was there before, and in cluster mode the pods have been listed. -/
theorem handleConfigConnectorLifecycle_succeeds (read : Read cc.getMode seen)
    (items : List Object) :
    Succeeds (contract isolation)
      (fun later left => ∀ obj ∈ left, obj ∈ items ∧
        (cc.getMode = .cluster → NoneListed isolation later)) seen
      (handleConfigConnectorLifecycle isolation cc items) := by
  unfold handleConfigConnectorLifecycle
  split
  · refine (wrapError_succeeds finalizeSystemComponentsDeletion_succeeds).onOk
      fun later _ grown _ => ?_
    split
    · exact Succeeds.ok (by simp)
    refine (wrapError_succeeds (updateConfigConnector_succeeds ?_)).onOk fun _ _ _ _ => ?_
    · exact read.mono grown
    exact Succeeds.ok (by simp)
  · refine Succeeds.onOk (?ensured : Safe isolation seen _) fun later _ grown _ => ?_
    case ensured =>
      split
      · exact safe_ret _
      refine (wrapError_succeeds (updateConfigConnector_succeeds ?_)).onOk fun _ _ _ _ => ?_
      · exact read
      · exact wrapError_succeeds (createCNRMSystemNamespace_succeeds items)
    split
    · rename_i cluster
      refine (deleteObjects_succeeds _ _).onOk fun later' _ grown' _ => ?_
      have still : Read .cluster later' := by
        rw [← cluster]
        exact (read.mono grown).mono grown'
      refine (wrapError_succeeds (verifyPerNamespace_succeeds still)).onOk
        fun _ _ _ listed => ?_
      exact Succeeds.ok fun obj member => ⟨member, fun _ => listed⟩
    · rename_i namespaced
      refine (deleteObjects_succeeds _ _).onOk fun _ _ _ _ => ?_
      refine Succeeds.ok fun obj member => ⟨member, fun cluster => ?_⟩
      rw [namespaced] at cluster
      cases cluster

theorem preflight_succeeds (nn : NamespacedName) : Safe isolation seen (preflight nn) :=
  .perform trivial fun _ _ _ _ => trivial

theorem reconcileSystem_succeeds (fit : manifests.Fit) :
    Safe isolation seen (reconcileSystem isolation manifests) := by
  refine .call trivial (.onOk (fun cc _ => ?_) fun _ => safe_ite)
  have read : Read cc.getMode
      (⟨.getConfigConnector, (.ok cc : Except GoError ConfigConnectorObject)⟩ :: seen) :=
    ⟨cc, .head _, rfl⟩
  refine (preflight_succeeds _).onOk fun later _ grown _ => ?_
  split
  · exact Succeeds.error _
  rename_i objects loaded
  refine (editContents_succeeds objects).onOk fun edited items grownEdit kept => ?_
  have stillRead := (read.mono grown).mono grownEdit
  refine (handleConfigConnectorLifecycle_succeeds stillRead items).onOk
    fun handled left _ checked => ?_
  refine (editContents_succeeds left).onOk fun final ready grownFinal keptAgain => ?_
  apply applyAll_obeys
  intro obj member
  -- The object is one of the manifest, and the manifest says which mode it is for.
  obtain ⟨item, inLeft, sameItem⟩ := keptAgain obj member
  obtain ⟨inItems, listed⟩ := checked item inLeft
  obtain ⟨loadedObj, inManifest, sameLoaded⟩ := kept item inItems
  have same := sameItem.trans sameLoaded
  have known := fit.system cc objects loaded loadedObj inManifest
  constructor
  · intro kind cluster
    exact (listed ((known (same.1 ▸ kind)).2 (same.clusterMode.mp cluster))).mono grownFinal
  · intro kind perNamespace
    exact absurd (same.perNamespace.mp perNamespace) (known (same.1 ▸ kind)).1

theorem reportSystem_succeeds (healthy : Bool) (errors : List String) :
    Safe isolation seen (reportSystem healthy errors) := by
  exact .call trivial (.onOk (fun _ _ => Succeeds.mapError (safe_perform trivial))
    fun _ => safe_ite)

theorem reconcileConfigConnector_succeeds (fit : manifests.Fit) :
    Safe isolation seen (reconcileConfigConnector isolation manifests) := by
  refine .call trivial fun answer _ => ?_
  split
  · exact Succeeds.ok trivial
  refine Obeys.bind (reconcileSystem_succeeds fit) fun later result _ => ?_
  cases result with
  | error err => exact (reportSystem_succeeds _ _).onOk fun _ _ _ _ => Succeeds.error _
  | ok done =>
    refine .call trivial fun _ _ => ?_
    exact reportSystem_succeeds _ _

end System

variable (ccc : ConfigConnectorContext)

section Templates

/-- What comes before the first character of the pattern stays. -/
theorem replaceFrom_append {first : Char} {old new before rest : List Char}
    (absent : first ∉ before) :
    replaceFrom (first :: old) new 0 (before ++ rest) =
      before ++ replaceFrom (first :: old) new 0 rest := by
  induction before with
  | nil => rfl
  | cons c before ih =>
    have differ : first ≠ c := fun same => absent (same ▸ (.head _))
    have absentRest : first ∉ before := fun member => absent (.tail _ member)
    have apart : (first :: old).isPrefixOf (c :: (before ++ rest)) = false := by
      simp [List.isPrefixOf, differ]
    rw [cons_append, replaceFrom, if_neg (by simp [apart]), ih absentRest]
    rfl

theorem replaceAll_append {before : String} (absent : '$' ∉ before.toList) (rest new : String) :
    replaceAll (before ++ rest) namespacePattern new =
      before ++ replaceAll rest namespacePattern new := by
  unfold replaceAll
  rw [toList_append, show namespacePattern.toList = '$' :: "\x7bNAMESPACE?\x7d".toList from rfl,
    replaceFrom_append absent, ofList_append, ofList_toList]

theorem replaceAll_of_absent {text : String} (absent : '$' ∉ text.toList) (new : String) :
    replaceAll text namespacePattern new = text := by
  have whole := replaceAll_append absent "" new
  rwa [append_empty, show replaceAll "" namespacePattern new = "" from rfl, append_empty] at whole

/-- The name of a controller manager for a namespace, with anything put in for the pattern. -/
theorem manager_name_replaced (suffix new : String) :
    replaceAll (serviceAccountNamePrefix ++ suffix) namespacePattern new =
      serviceAccountNamePrefix ++ replaceAll suffix namespacePattern new :=
  replaceAll_append (by decide) suffix new

/-- The templates of StatefulSets, with the names filled in or not. -/
def Named (obj : Object) : Prop :=
  obj.kind = "StatefulSet" →
    obj.ns = cnrmSystemNamespace ∧ ∃ suffix, obj.name = serviceAccountNamePrefix ++ suffix

theorem Named.replaced (named : Named obj) (new : String) :
    Named { obj with name := replaceAll obj.name namespacePattern new } := by
  intro kind
  obtain ⟨ns, suffix, name⟩ := named kind
  refine ⟨ns, replaceAll suffix namespacePattern new, ?_⟩
  rw [name, manager_name_replaced]

theorem Named.substituted (named : Named obj) (ns : String) :
    Named (replaceNamespacePattern obj ns) := by
  intro kind
  obtain ⟨inSystem, suffix, name⟩ := named kind
  refine ⟨?_, replaceAll suffix namespacePattern ns, ?_⟩
  · change replaceAll obj.ns namespacePattern ns = _
    rw [inSystem, replaceAll_of_absent (by decide)]
  · change replaceAll obj.name namespacePattern ns = _
    rw [name, manager_name_replaced]

theorem removeStaleControllerManagerService_succeeds (watched validName : String)
    (enableManagerNamespace : Bool) :
    Safe isolation seen
      (removeStaleControllerManagerService watched validName enableManagerNamespace) := by
  exact .call trivial (.onOk (fun _ _ => deleteObjects_succeeds _ _) fun _ => nofun)

theorem removeStaleControllerManagerStatefulSet_succeeds (watched validSts : String)
    (enableManagerNamespace : Bool) :
    Safe isolation seen
      (removeStaleControllerManagerStatefulSet watched validSts enableManagerNamespace) := by
  refine .call trivial (.onOk (fun sets _ => (deleteObjects_succeeds _ _).onOk fun _ _ _ _ => ?_)
    fun _ => nofun)
  refine .ite (fun _ => safe_ret _) fun _ => ?_
  exact wrapError_succeeds (exponentialBackoff_succeeds (fun _ => safe_perform (by trivial)) _)

theorem getNamespaceID_succeeds (ns : String) : Safe isolation seen (getNamespaceID ns) :=
  .perform trivial fun _ _ _ _ => trivial

/-- What a handler of a template returns is a template of this kind. -/
abbrev Keeps (isolation : Isolation) (seen : Trace S) (program : Prog S (Except GoError Object)) :
    Prop :=
  Succeeds (contract isolation) (fun _ processed => Named processed) seen program

section

variable (ccc : ConfigConnectorContext)

theorem handleControllerManagerService_succeeds (named : Named obj) :
    Keeps isolation seen (handleControllerManagerService ccc obj) := by
  refine (wrapError_succeeds (getNamespaceID_succeeds _)).onOk fun _ nsID _ _ => ?_
  refine (wrapError_succeeds (removeStaleControllerManagerService_succeeds _ _ _)).onOk
    fun _ _ _ _ => ?_
  exact Succeeds.ok (named.replaced nsID)

theorem handleControllerManagerStatefulSet_succeeds (named : Named obj) :
    Keeps isolation seen (handleControllerManagerStatefulSet ccc obj) := by
  refine (wrapError_succeeds (getNamespaceID_succeeds _)).onOk fun _ nsID _ _ => ?_
  refine (wrapError_succeeds (removeStaleControllerManagerStatefulSet_succeeds _ _ _)).onOk
    fun _ _ _ _ => ?_
  exact Succeeds.ok (named.replaced nsID)

theorem transformNamespacedComponentTemplates_succeeds {templates : List Object}
    (named : ∀ obj ∈ templates, Named obj) :
    Succeeds (contract isolation) (fun _ items => ∀ obj ∈ items, Named obj) seen
      (transformNamespacedComponentTemplates ccc templates) := by
  induction templates generalizing seen with
  | nil => exact Succeeds.ok (by simp)
  | cons obj rest ih =>
    obtain ⟨namedObj, namedRest⟩ := forall_mem_cons.mp named
    refine Succeeds.onOk (?service : Keeps isolation seen _)
      fun later processed _ namedService => ?_
    case service =>
      split
      · exact handleControllerManagerService_succeeds ccc namedObj
      · exact Succeeds.ok namedObj
    refine Succeeds.onOk (?set : Keeps isolation later _) fun _ processed _ namedSet => ?_
    case set =>
      split
      · exact handleControllerManagerStatefulSet_succeeds ccc namedService
      · exact Succeeds.ok namedService
    refine (ih namedRest).onOk
      fun _ others _ namedOthers => ?_
    exact Succeeds.ok (forall_mem_cons.mpr ⟨namedSet.substituted ccc.nn.ns, namedOthers⟩)

end

/-- The components of one object, in the places that the isolation asks for. -/
def AllPlaced (isolation : Isolation) (items : List Object) : Prop :=
  ∀ obj ∈ items, obj.kind = "StatefulSet" → Placed isolation obj

/-- Editing does not move an object. -/
theorem Placed.same (placed : obj.kind = "StatefulSet" → Placed isolation obj)
    (same : SameIdentity edited obj) (kind : edited.kind = "StatefulSet") :
    Placed isolation edited := by
  have original := placed (same.1 ▸ kind)
  have name : edited.name = obj.name := congrArg NamespacedName.name same.2.1
  have ns : edited.ns = obj.ns := congrArg NamespacedName.ns same.2.1
  exact ⟨name ▸ original.name, fun shared => ns ▸ original.ns shared⟩

theorem Named.placed (named : Named obj) (kind : obj.kind = "StatefulSet") : Placed isolation obj :=
  ⟨(named kind).2, fun _ => (named kind).1⟩

theorem removeStalePerNamespace_succeeds (obj : Object) :
    Safe isolation seen (removeStalePerNamespace ccc obj) := by
  unfold removeStalePerNamespace
  split
  · exact wrapError_succeeds (removeStaleControllerManagerService_succeeds _ _ _)
  split
  · exact wrapError_succeeds (removeStaleControllerManagerStatefulSet_succeeds _ _ _)
  · exact Succeeds.ok trivial

theorem transformPerNamespaceComponentTemplates_succeeds (named : ∀ obj ∈ items, Named obj) :
    Succeeds (contract isolation) (fun _ moved => AllPlaced .dedicated moved) seen
      (transformPerNamespaceComponentTemplates ccc items) := by
  induction items generalizing seen with
  | nil => exact Succeeds.ok (by simp [AllPlaced])
  | cons obj rest ih =>
    refine (removeStalePerNamespace_succeeds ccc obj).onOk fun _ _ _ _ => ?_
    obtain ⟨mine, namedRest⟩ := forall_mem_cons.mp named
    refine (ih namedRest).onOk fun _ others _ placed => ?_
    refine Succeeds.ok (forall_mem_cons.mpr ⟨?_, placed⟩)
    split
    · exact fun kind => ⟨(mine kind).2, nofun⟩
    · exact mine.placed

end Templates

section Context

theorem onDedicated_succeeds {program : Attempt} (succeeds : Safe isolation seen program) :
    Safe isolation seen (onDedicated isolation program) := by
  cases isolation with
  | dedicated => exact succeeds
  | shared => exact Succeeds.ok trivial

theorem transformPerNamespaceComponents_succeeds (named : ∀ obj ∈ items, Named obj) :
    Succeeds (contract isolation) (fun _ moved => AllPlaced isolation moved) seen
      (transformPerNamespaceComponents isolation ccc items) := by
  cases isolation with
  | dedicated =>
    exact wrapError_succeeds (transformPerNamespaceComponentTemplates_succeeds ccc named)
  | shared => exact Succeeds.ok fun obj member => (named obj member).placed

/-- The StatefulSet is looked for first, then the pod. -/
theorem verifyControllerManagerPod_succeeds (read : Read .namespaced seen) :
    Succeeds (contract isolation) (fun later _ => PodGone later) seen
      verifyControllerManagerPodForClusterModeIsDeleted := by
  refine .call read fun answer _ => ?_
  cases answer with
  | ok sts => exact Succeeds.error _
  | error err =>
    refine .ite (fun _ => Succeeds.error _) fun missingSet => ?_
    have setGone : SetGone (⟨.getStatefulSet clusterModeStatefulSet,
        (.error err : Except GoError Object)⟩ :: seen) :=
      ⟨err, .head _, by simpa using missingSet⟩
    refine .call ⟨setGone, read.mono (suffix_cons _ _)⟩ fun answer _ => ?_
    cases answer with
    | ok pod => exact Succeeds.error _
    | error err =>
      exact .ite (fun _ => Succeeds.error _)
        fun missingPod => Succeeds.ok ⟨err, .head _, by simpa using missingPod⟩

theorem verifyCNRMSystemNamespaceIsActive_succeeds :
    Safe isolation seen verifyCNRMSystemNamespaceIsActive :=
  .call trivial (.onOk (fun _ _ => safe_ite) fun _ => safe_ite)

variable (managerNamespace : String)

theorem verifyManagerNamespaceIsActive_succeeds :
    Safe isolation seen (verifyManagerNamespaceIsActive managerNamespace) := by
  refine .call trivial (.onOk (fun _ _ => safe_ite) fun _ => .ite (fun _ => ?_) fun _ => safe_ret _)
  refine .call trivial fun outcome _ => ?_
  cases outcome with
  | created | alreadyExists | failed err => exact safe_ret _

theorem deleteManagerNamespace_succeeds :
    Safe isolation seen (deleteManagerNamespace managerNamespace) := by
  refine .call trivial (.onOk (fun _ _ => .ite (fun _ => safe_ret _) fun _ => ?_) fun _ => safe_ite)
  exact .ite (fun _ => wrapError_succeeds (safe_perform trivial)) fun _ => safe_ret _

theorem finalizeNamespacedComponentsDeletion_succeeds (items : List Object) :
    Safe isolation seen (finalizeNamespacedComponentsDeletion ccc items) := by
  refine (wrapError_succeeds (deleteObjects_succeeds _ _)).onOk fun _ _ _ _ => ?_
  split
  · exact safe_ret _
  · exact wrapError_succeeds (safe_perform trivial)

/-- Either nothing is left to apply, or the pod for cluster mode was not there. -/
def Cleared (items : List Object) (later : Trace S) (left : List Object) : Prop :=
  ∀ obj ∈ left, obj ∈ items ∧ PodGone later

theorem Cleared.nothing (items : List Object) (later : Trace S) : Cleared items later [] := by
  intro obj member
  cases member

theorem finalizeCCContextDeletion_succeeds (items : List Object) :
    Succeeds (contract isolation) (Cleared items) seen
      (finalizeCCContextDeletion isolation ccc items) := by
  refine .call trivial (.onOk (fun _ _ => .ite (fun _ => Succeeds.error _) fun _ => ?_)
    fun _ => nofun)
  refine (finalizeNamespacedComponentsDeletion_succeeds ccc items).onOk fun later _ _ _ => ?_
  refine Succeeds.onOk (safe_perform (by trivial) : Safe isolation later _) fun later _ _ _ => ?_
  refine (onDedicated_succeeds (deleteManagerNamespace_succeeds _)).onOk fun later _ _ _ => ?_
  exact Succeeds.ok (.nothing items later)

theorem handleCCContextLifecycleForNamespacedMode_succeeds (read : Read .namespaced seen)
    (ccc : ConfigConnectorContext) (items : List Object) :
    Succeeds (contract isolation) (Cleared items) seen
      (handleCCContextLifecycleForNamespacedMode isolation ccc items) := by
  unfold handleCCContextLifecycleForNamespacedMode
  split
  · exact finalizeCCContextDeletion_succeeds ccc items
  refine (verifyControllerManagerPod_succeeds read).onOk fun _ _ _ gone => ?_
  refine verifyCNRMSystemNamespaceIsActive_succeeds.onOk fun _ _ grownSystem _ => ?_
  refine (onDedicated_succeeds (verifyManagerNamespaceIsActive_succeeds _)).onOk
    fun later _ grownManager _ => ?_
  refine Succeeds.onOk (?ensured : Safe isolation later _) fun _ _ grownFinalizer _ => ?_
  case ensured =>
    split
    · exact safe_ret _
    · exact wrapError_succeeds (safe_perform trivial)
  exact Succeeds.ok fun obj member =>
    ⟨member, ((gone.mono grownSystem).mono grownManager).mono grownFinalizer⟩

section

variable (ccc : ConfigConnectorContext) (items : List Object)

theorem finalizeOnUninstallation_succeeds :
    Succeeds (contract isolation) (Cleared items) seen (finalizeOnUninstallation ccc items) := by
  refine (finalizeNamespacedComponentsDeletion_succeeds ccc items).onOk fun later _ _ _ => ?_
  exact .ite (fun _ => Succeeds.error _) fun _ => Succeeds.ok (.nothing items later)

theorem handleByMode_succeeds {found : Option ConfigConnectorObject}
    (read : ∀ cc, found = some cc → Read cc.getMode seen) :
    Succeeds (contract isolation)
    (Cleared items) seen (handleByMode isolation ccc items found) := by
  cases found with
  | none => exact finalizeOnUninstallation_succeeds ccc items
  | some cc =>
    rw [handleByMode]
    split
    · exact finalizeOnUninstallation_succeeds ccc items
    split
    · exact (finalizeNamespacedComponentsDeletion_succeeds ccc items).onOk
        fun _ _ _ _ => Succeeds.error _
    rename_i namespaced
    exact handleCCContextLifecycleForNamespacedMode_succeeds
      (namespaced ▸ read cc rfl) ccc items

theorem handleCCContextLifecycle_succeeds : Succeeds (contract isolation) (Cleared items) seen
      (handleCCContextLifecycle isolation ccc items) := by
  refine .call trivial fun answer _ => ?_
  cases answer with
  | error err =>
    dsimp only
    split
    · exact Succeeds.error _
    split
    · exact Succeeds.error _
    · exact handleByMode_succeeds ccc items (by simp)
  | ok cc =>
    dsimp only
    split
    · exact Succeeds.error _
    refine handleByMode_succeeds ccc items fun other same => ?_
    cases same
    exact ⟨cc, .head _, rfl⟩

end

theorem reconcileComponents_succeeds (fit : manifests.Fit) (nn : NamespacedName) :
    Safe isolation seen (reconcileComponents isolation manifests nn) := by
  refine .call trivial (.onOk (fun ccc _ => ?_) fun _ => safe_ite)
  refine (preflight_succeeds _).onOk fun _ _ _ _ => ?_
  split
  · exact Succeeds.error _
  rename_i templates loaded
  have named : ∀ obj ∈ templates, Named obj := fun obj member kind =>
    (fit.perNamespace ccc.version templates loaded obj member kind).imp_right
      fun name => ⟨namespacePattern, name⟩
  refine (wrapError_succeeds (transformNamespacedComponentTemplates_succeeds ccc named)).onOk
    fun _ items _ namedItems => ?_
  refine (transformPerNamespaceComponents_succeeds ccc namedItems).onOk
    fun _ moved _ placed => ?_
  refine (editContents_succeeds moved).onOk fun _ edited _ kept => ?_
  refine (handleCCContextLifecycle_succeeds ccc edited).onOk fun _ left _ cleared => ?_
  refine (editContents_succeeds left).onOk fun _ ready grownFinal keptAgain => ?_
  apply applyAll_obeys
  intro obj member
  obtain ⟨item, inLeft, sameItem⟩ := keptAgain obj member
  obtain ⟨inEdited, gone⟩ := cleared item inLeft
  obtain ⟨movedObj, inMoved, sameMoved⟩ := kept item inEdited
  have place := Placed.same (placed movedObj inMoved) (sameItem.trans sameMoved)
  constructor
  · intro kind cluster
    exact absurd cluster (place kind).not_clusterMode
  · intro kind _
    exact ⟨place kind, gone.mono grownFinal⟩

theorem reportContext_succeeds (nn : NamespacedName) (healthy : Bool) (errors : List String) :
    Safe isolation seen (reportContext nn healthy errors) := by
  exact .call trivial (.onOk (fun _ _ => wrapError_succeeds (safe_perform trivial))
    fun _ => safe_ite)

theorem reconcileContext_succeeds (fit : manifests.Fit) (nn : NamespacedName) :
    Safe isolation seen (reconcileContext isolation manifests nn) := by
  refine .call trivial fun answer _ => ?_
  split
  · exact Succeeds.ok trivial
  refine Obeys.bind (reconcileComponents_succeeds fit nn) fun _ result _ => ?_
  cases result with
  | error err =>
    refine Obeys.bind (reportContext_succeeds nn _ _) fun _ reported _ => ?_
    cases reported with
    | error _ | ok _ => exact Succeeds.error _
  | ok done =>
    refine .call trivial fun _ _ => ?_
    exact reportContext_succeeds nn _ _

theorem program_obeys (fit : manifests.Fit) (p : Party) : Abides (contract isolation) []
      ((machine isolation manifests).program p) := by
  cases p with
  | configConnector =>
    exact Obeys.bind (reconcileConfigConnector_succeeds fit) fun _ _ _ => trivial
  | context nn => exact Obeys.bind (reconcileContext_succeeds fit nn) fun _ _ _ => trivial

end Context

end ConfigConnector.Operator
