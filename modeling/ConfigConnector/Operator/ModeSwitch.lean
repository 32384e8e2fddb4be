import ConfigConnector.Operator.Quiet

/- When the controller managers of the two modes are kept apart. The reconcilers look for the
workloads of the other mode and apply their own later, so it depends on what happens between. -/
namespace ConfigConnector.Operator

open Interact K8s

section Exclusion

/-- Where the mode is switched between reconciles only, and the controller pods are listed while
none for a namespace is missing, the pods of the two modes are never there at the same time. -/
theorem pods_exclusive_of_quiet (isolation : Isolation) (manifests : Manifests)
    (fit : manifests.Fit) (w : (machine isolation manifests).World)
    (reached : (machine isolation manifests).Reach Starts Quiet w) : w.state.Exclusive :=
  exclusive_of_timely (fun _ _ reached taken _ => quiet_timely fit reached taken) reached

end Exclusion

section Overtaking

def managerLabel : String × String := (kccSystemComponentLabel, kccControllerManagerComponent)

def clusterManager : Object :=
  ⟨"StatefulSet", cnrmSystemNamespace, kccControllerManagerComponent, [managerLabel], []⟩

def managerTemplate : Object :=
  ⟨"StatefulSet", cnrmSystemNamespace, "cnrm-controller-manager-$\x7bNAMESPACE?\x7d",
    [managerLabel, (namespacedComponentLabel, namespacePattern)], []⟩

/-- The controller managers alone. -/
def managers : Manifests where
  system := fun cc =>
    match cc.getMode with
    | .cluster => .ok [clusterManager]
    | .namespaced => .ok []
  perNamespace := fun _ => .ok [managerTemplate]

def connector (mode : Mode) (resourceVersion : Nat) : ConfigConnectorObject where
  name := configConnectorName.name
  resourceVersion := resourceVersion
  generation := 1
  deletionTimestamp := none
  finalizers := [operatorFinalizer]
  mode := some mode

def team : NamespacedName := ⟨"team", "configconnectorcontext.core.cnrm.cloud.google.com"⟩

def teamContext : ConfigConnectorContext where
  nn := team
  resourceVersion := 1
  generation := 1
  deletionTimestamp := none
  finalizers := [operatorFinalizer]
  version := ""
  managerNamespace := ""

def teamManager : Object :=
  ⟨"StatefulSet", cnrmSystemNamespace, "cnrm-controller-manager-a1b2c3",
    [managerLabel, (namespacedComponentLabel, "team")], []⟩

/-- The cluster with the workloads as they are listed. -/
def clusterWith (mode : Mode) (resourceVersion : Nat) (statefulSets : List Object)
    (pods : List Pod) : State where
  configConnector := some (connector mode resourceVersion)
  contexts := fun nn => if nn = team then some teamContext else none
  statefulSets := statefulSets
  pods := pods

theorem empty_starts : Starts (clusterWith .cluster 1 [] []) := by
  simp [Starts, State.hasClusterMode, State.hasClusterModeSet, State.hasPerNamespace,
    State.hasPerNamespaceSet, clusterWith]

theorem edited_same (s : State) (items : List Object) :
    answers s (.editContents items) (.ok items) s := by
  refine ⟨rfl, ?_⟩
  rintro _ ⟨⟩ obj member
  exact ⟨obj, member, rfl, rfl, rfl⟩

def missing : GoError := .leaf .notFound "not found"

open Party in
/-- The ConfigConnector is reconciled in cluster mode and finds no pods for namespaces. Before
it applies its manifest the mode is switched, and the context of a namespace is reconciled: it
finds nothing of cluster mode. Both StatefulSets are applied, and both pods come up. -/
theorem both_managers_run :
    ∃ w, (machine .shared managers).Reach Starts (fun _ _ => True) w ∧ ¬ w.state.Exclusive := by
  let empty := clusterWith .cluster 1 [] []
  let switched := clusterWith .namespaced 2 [] []
  have init := @Machine.Reach.init _ (machine .shared managers) _ Starts (fun _ _ => True) empty
    empty_starts
  have started := init.start configConnector
  have read := started.reply configConnector rfl (Except.ok (connector .cluster 1)) empty
  have found := read.reply configConnector rfl (Except.ok (connector .cluster 1)) empty
  have checked := found.reply configConnector rfl (Except.ok ()) empty
  have edited := checked.reply configConnector rfl (Except.ok [clusterManager]) empty
    (edited_same _ _)
  have detectorGone := edited.reply configConnector rfl (Except.error missing) empty
    (.inl ⟨rfl, nofun⟩)
  have accountGone := detectorGone.reply configConnector rfl (Except.error missing) empty
    (.inl ⟨rfl, nofun⟩)
  have noPods := accountGone.reply configConnector rfl (Except.ok []) empty
    ⟨rfl, by rintro _ ⟨⟩; exact ⟨[], .refl _, rfl⟩⟩
  have switch := noPods.step _ _ (.drift _ switched (by exact Drift.user (s := empty) _ _)) trivial
  have contextStarted := switch.start (context team)
  have contextRead := contextStarted.reply (context team) rfl (Except.ok teamContext) switched
  have contextFound := contextRead.reply (context team) rfl (Except.ok teamContext) switched
  have contextChecked := contextFound.reply (context team) rfl (Except.ok ()) switched
  have named := contextChecked.reply (context team) rfl (Except.ok "a1b2c3") switched
  have noneStale := named.reply (context team) rfl (Except.ok []) switched
    ⟨rfl, by rintro _ ⟨⟩; exact .refl _⟩
  have contextEdited := noneStale.reply (context team) rfl (Except.ok [teamManager])
    switched (edited_same _ _)
  have modeRead := contextEdited.reply (context team) rfl (Except.ok (connector .namespaced 2))
    switched
  have noSet := modeRead.reply (context team) rfl (Except.error missing) switched
    ⟨rfl, fun _ => rfl⟩
  have noPod := noSet.reply (context team) rfl (Except.error missing) switched
    ⟨rfl, fun _ => rfl⟩
  have active := noPod.reply (context team) rfl (Except.ok ⟨none, []⟩) switched
  have contextReady := active.reply (context team) rfl (Except.ok [teamManager])
    switched (edited_same _ _)
  have teamApplied := contextReady.reply (context team) rfl (Except.ok ())
    (clusterWith .namespaced 2 [teamManager] []) (.inr rfl)
  have ready := teamApplied.reply configConnector rfl (Except.ok [clusterManager])
    (clusterWith .namespaced 2 [teamManager] [])
    (edited_same _ _)
  have clusterApplied := ready.reply configConnector rfl (Except.ok ())
    (clusterWith .namespaced 2 [clusterManager, teamManager] []) (.inr rfl)
  let sets := clusterWith .namespaced 2 [clusterManager, teamManager] []
  have first : Drift sets (sets.podCreated clusterManager) := .podCreated _ (.head _)
  have second : Drift (sets.podCreated clusterManager)
      ((sets.podCreated clusterManager).podCreated teamManager) :=
    .podCreated _ (.tail _ (.head _))
  have firstPod := clusterApplied.step _ _ (.drift _ _ (by exact first)) trivial
  have secondPod := firstPod.step _ _ (.drift _ _ (by exact second)) trivial
  refine ⟨_, secondPod, fun exclusive => exclusive ⟨⟨podOf clusterManager, ?_, rfl⟩,
    podOf teamManager, (.head _), by decide, by decide⟩⟩
  exact mem_podCreated (.head _) (by decide)

theorem managers_fit : managers.Fit where
  system := by
    intro cc objects loaded obj member _
    change (match cc.getMode with | .cluster => _ | .namespaced => _) = _ at loaded
    split at loaded
    · rename_i cluster
      cases loaded
      cases List.mem_singleton.mp member
      exact ⟨fun perNamespace => perNamespace.2 rfl, fun _ => cluster⟩
    · cases loaded
      cases member
  perNamespace := by
    intro version templates loaded obj member _
    cases loaded
    cases List.mem_singleton.mp member
    exact ⟨rfl, rfl⟩

/-- While the mode stays and nothing for a namespace is there, every step is quiet. -/
theorem quiet_of_cluster {w after : (machine .shared managers).World}
    (sets : ∀ sts ∈ w.state.statefulSets, sts = clusterManager)
    (same : after.state.configConnector = w.state.configConnector) : Quiet w after where
  calm := fun now stored => .inl (by rw [← same, stored]; rfl)
  populated := by
    intros
    intro sts member perNamespace
    rw [sets sts member] at perNamespace
    exact absurd rfl perNamespace.2

/-- A reconcile in cluster mode that nothing overtakes brings the pod of its controller manager. -/
theorem pods_exclusive_of_quiet_cluster :
    managers.Fit ∧ ∃ w, (machine .shared managers).Reach Starts Quiet w ∧
      (∃ pod ∈ w.state.pods, pod.isClusterMode) ∧ w.state.Exclusive := by
  let empty := clusterWith .cluster 1 [] []
  let applied := clusterWith .cluster 1 [clusterManager] []
  have quiet : ∀ w after : (machine .shared managers).World, w.state = empty →
      after.state.configConnector = empty.configConnector → Quiet w after := by
    intro w after before same
    exact quiet_of_cluster (by rw [before]; exact nofun) (by rw [before, same])
  have init := @Machine.Reach.init _ (machine .shared managers) _ Starts Quiet empty empty_starts
  have started := init.start .configConnector rfl (quiet _ _ rfl rfl)
  have read := started.reply .configConnector rfl (Except.ok (connector .cluster 1)) empty
    ⟨rfl, rfl⟩ (quiet _ _ rfl rfl)
  have found := read.reply .configConnector rfl (Except.ok (connector .cluster 1)) empty
    ⟨rfl, rfl⟩ (quiet _ _ rfl rfl)
  have checked := found.reply .configConnector rfl (Except.ok ()) empty rfl (quiet _ _ rfl rfl)
  have edited := checked.reply .configConnector rfl (Except.ok [clusterManager]) empty
    (edited_same _ _) (quiet _ _ rfl rfl)
  have detectorGone := edited.reply .configConnector rfl (Except.error missing) empty
    (.inl ⟨rfl, nofun⟩) (quiet _ _ rfl rfl)
  have accountGone := detectorGone.reply .configConnector rfl (Except.error missing) empty
    (.inl ⟨rfl, nofun⟩) (quiet _ _ rfl rfl)
  have noPods := accountGone.reply .configConnector rfl (Except.ok []) empty
    ⟨rfl, by rintro _ ⟨⟩; exact ⟨[], .refl _, rfl⟩⟩ (quiet _ _ rfl rfl)
  have ready := noPods.reply .configConnector rfl (Except.ok [clusterManager]) empty
    (edited_same _ _) (quiet _ _ rfl rfl)
  have brought := ready.reply .configConnector rfl (Except.ok ()) applied (.inr rfl)
    (quiet _ _ rfl rfl)
  have pod : Drift applied (applied.podCreated clusterManager) := .podCreated _ (.head _)
  have running := brought.step _ _ (.drift _ (applied.podCreated clusterManager) (by exact pod))
    (quiet_of_cluster (fun _ member => List.mem_singleton.mp member) rfl)
  exact ⟨managers_fit, _, running, ⟨podOf clusterManager, .head _, rfl⟩,
    pods_exclusive_of_quiet .shared managers managers_fit _ running⟩

end Overtaking

end ConfigConnector.Operator
