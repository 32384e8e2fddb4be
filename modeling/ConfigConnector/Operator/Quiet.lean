import ConfigConnector.Operator.Checks
import ConfigConnector.Operator.Separation

/- Runs in which the mode is switched between reconciles only, and no pod is missing when pods
are counted. In these the checks of the reconcilers do what they are for. -/
namespace ConfigConnector.Operator

open Interact K8s List

variable {op : Op} {seen : Trace S} {isolation : Isolation} {manifests : Manifests}

section Runs

/-- Every StatefulSet for a namespace has its pod. -/
def State.Populated (s : State) : Prop :=
  ∀ sts ∈ s.statefulSets, sts.isPerNamespace → podOf sts ∈ s.pods

/-- A step that leaves the reconciles what they have checked. -/
structure Quiet (w after : (machine isolation manifests).World) : Prop where
  /-- The mode changes while no reconcile is under way. -/
  calm : ∀ now, after.state.configConnector = some now →
    w.state.configConnector.map (·.getMode) = some now.getMode ∨ ∀ p, w.threads p = none
  /-- The controller pods are listed while every StatefulSet for a namespace has its pod. -/
  populated : ∀ p seen ns limit answer rest rest',
    w.threads p = some ⟨seen, rest⟩ →
    after.threads p = some ⟨⟨.listControllerPods ns limit, answer⟩ :: seen, rest'⟩ →
    w.state.Populated

end Runs

variable {s after : State}

section Knowledge

structure PlacedPod (isolation : Isolation) (pod : Pod) : Prop where
  name : pod.name ≠ controllerManagerPodForClusterMode
  ns : isolation = .shared → pod.ns = cnrmSystemNamespace

theorem Placed.pod {sts : Object} (placed : Placed isolation sts) :
    PlacedPod isolation (podOf sts) where
  name := by
    intro same
    obtain ⟨suffix, name⟩ := placed.name
    have lengths := congrArg String.length (show sts.name ++ "-0" = _ from same)
    have left : serviceAccountNamePrefix.length = 24 := rfl
    have ordinal : "-0".length = 2 := rfl
    have right : controllerManagerPodForClusterMode.length = 25 := rfl
    rw [name, String.length_append, String.length_append, left, ordinal, right] at lengths
    omega
  ns := placed.ns

/-- The workloads for namespaces are where they are looked for. -/
structure State.InPlace (isolation : Isolation) (s : State) : Prop where
  sets : ∀ sts ∈ s.statefulSets, sts.isPerNamespace → Placed isolation sts
  pods : ∀ pod ∈ s.pods, pod.isPerNamespace → PlacedPod isolation pod

/-- What a reconcile has checked is still so. -/
structure Knows (isolation : Isolation) (s : State) (seen : Trace S) : Prop where
  listed : NoneListed isolation seen → ¬ s.hasPerNamespace ∧ Read .cluster seen
  setGone : SetGone seen → ¬ s.hasClusterModeSet ∧ Read .namespaced seen
  podGone : PodGone seen → ¬ s.hasClusterMode ∧ Read .namespaced seen

/-- A check holds on as long as nothing is brought of what it is about. -/
theorem Knows.kept (knows : Knows isolation s seen) (moved : Moved s after)
    (perNamespace : Read .cluster seen → after.hasPerNamespaceSet → s.hasPerNamespaceSet)
    (cluster : Read .namespaced seen → after.hasClusterModeSet → s.hasClusterModeSet) :
    Knows isolation after seen where
  listed := by
    intro listed
    obtain ⟨none, read⟩ := knows.listed listed
    exact ⟨fun there => none (moved.perNamespace (perNamespace read) there), read⟩
  setGone := by
    intro gone
    obtain ⟨none, read⟩ := knows.setGone gone
    exact ⟨fun there => none (cluster read there), read⟩
  podGone := by
    intro gone
    obtain ⟨none, read⟩ := knows.podGone gone
    exact ⟨fun there => none (moved.clusterMode (cluster read) there), read⟩

/-- Only the application of a StatefulSet brings it. -/
theorem Effect.sets (effect : Effect s op after) {sts : Object}
    (member : sts ∈ after.statefulSets) :
    sts ∈ s.statefulSets ∨ op = .apply sts ∧ sts.kind = "StatefulSet" := by
  cases effect with
  | nothing | configConnector | contexts => exact .inl member
  | deleted obj =>
    unfold State.deleted at member
    split at member
    · exact .inl (mem_filter.mp member).1
    · exact .inl member
  | applied obj =>
    unfold State.applied at member
    split at member
    · rename_i kind
      rcases mem_of_mem_applied member with rfl | old
      · exact .inr ⟨rfl, kind⟩
      · exact .inl old
    · exact .inl member

/-- What is brought of a mode was checked before. -/
theorem Effect.clusterModeSet (effect : Effect s op after)
    (guarded : guard isolation seen op) (there : after.hasClusterModeSet) :
    s.hasClusterModeSet ∨ NoneListed isolation seen := by
  obtain ⟨sts, member, cluster⟩ := there
  rcases effect.sets member with old | ⟨rfl, kind⟩
  · exact .inl ⟨sts, old, cluster⟩
  · exact .inr (guarded.cluster kind cluster)

theorem Effect.perNamespaceSet (effect : Effect s op after)
    (guarded : guard isolation seen op) (there : after.hasPerNamespaceSet) :
    s.hasPerNamespaceSet ∨ PodGone seen := by
  obtain ⟨sts, member, perNamespace⟩ := there
  rcases effect.sets member with old | ⟨rfl, kind⟩
  · exact .inl ⟨sts, old, perNamespace⟩
  · exact .inr (guarded.perNamespace kind perNamespace).2

theorem drift_sets (moved : Drift s after) : after.statefulSets ⊆ s.statefulSets := by
  cases moved with
  | user | podCreated | podDeleted => exact List.Subset.refl _
  | collected keep => exact filter_subset_self _

theorem Effect.pods (effect : Effect s op after) : after.pods = s.pods := by
  cases effect with
  | nothing | configConnector | contexts => rfl
  | deleted obj =>
    unfold State.deleted
    split <;> rfl
  | applied obj =>
    unfold State.applied
    split <;> rfl

/-- An update of the ConfigConnector object writes the mode that was read. -/
theorem Effect.mode (effect : Effect s op after) (guarded : guard isolation seen op)
    {now : ConfigConnectorObject} (stored : after.configConnector = some now) :
    s.configConnector = some now ∨ Read now.getMode seen := by
  cases effect with
  | nothing | contexts => exact .inl stored
  | configConnector cc resourceVersion =>
    right
    unfold savedConfigConnector at stored
    split at stored
    · cases stored
    · cases stored
      exact guarded
  | deleted obj =>
    left
    unfold State.deleted at stored
    split at stored <;> exact stored
  | applied obj =>
    left
    unfold State.applied at stored
    split at stored <;> exact stored

theorem Effect.inPlace (effect : Effect s op after) (guarded : guard isolation seen op)
    (inPlace : s.InPlace isolation) : after.InPlace isolation where
  sets := by
    intro sts member perNamespace
    rcases effect.sets member with old | ⟨rfl, kind⟩
    · exact inPlace.sets sts old perNamespace
    · exact (guarded.perNamespace kind perNamespace).1
  pods := by
    rw [effect.pods]
    exact inPlace.pods

/-- Where every pod is in its place, the list that passes the check shows that there is no
workload for a namespace. -/
theorem none_of_listed (inPlace : s.InPlace isolation) (populated : s.Populated)
    {pods all : List Pod} (order : all.Perm (s.controllerPods (podNamespace isolation)))
    (listed : pods = all.take 100) (passed : onlyClusterModePod pods = true) :
    ¬ s.hasPerNamespace := by
  have shown : ∀ pod ∈ s.pods, pod.isPerNamespace → pod ∈ all := by
    intro pod member perNamespace
    apply order.mem_iff.mpr
    refine mem_filter.mpr ⟨member, ?_⟩
    have placed := inPlace.pods pod member perNamespace
    cases isolation with
    | shared => simp [perNamespace.1, podNamespace, placed.ns rfl]
    | dedicated => simp [perNamespace.1, podNamespace]
  have none : ∀ pod ∈ all, pod.name = controllerManagerPodForClusterMode := by
    match all, listed with
    | [], _ => simp
    | [only], listed =>
      subst listed
      simpa [onlyClusterModePod] using passed
    | first :: second :: rest, listed =>
      subst listed
      cases passed
  have noPods : ∀ pod ∈ s.pods, ¬ pod.isPerNamespace := fun pod member perNamespace =>
    (inPlace.pods pod member perNamespace).name (none pod (shown pod member perNamespace))
  rintro (⟨sts, member, perNamespace⟩ | ⟨pod, member, perNamespace⟩)
  · exact noPods _ (populated sts member perNamespace) ((podOf_perNamespace sts).mpr perNamespace)
  · exact noPods pod member perNamespace

end Knowledge

section Invariant

/-- The state together with what the reconciles under way have seen. -/
structure Good (isolation : Isolation) (s : State) (running : Trace S → Prop) : Prop where
  inPlace : s.InPlace isolation
  /-- The mode is still the one that was read. -/
  now : ∀ seen mode cc, running seen → Read mode seen → s.configConnector = some cc →
    cc.getMode = mode
  agree : ∀ seen other mode mode', running seen → running other → Read mode seen →
    Read mode' other → mode = mode'
  knows : ∀ seen, running seen → Knows isolation s seen

variable {running : Trace S → Prop}

section

variable (good : Good isolation s running)
include good

theorem Good.mono {fewer : Trace S → Prop}
    (subset : ∀ seen, fewer seen → running seen) : Good isolation s fewer where
  inPlace := good.inPlace
  now := fun seen mode cc run => good.now seen mode cc (subset seen run)
  agree := fun seen other mode mode' run run' =>
    good.agree seen other mode mode' (subset seen run) (subset other run')
  knows := fun seen run => good.knows seen (subset seen run)

/-- One more reconcile is under way, which has read no mode but one that another has read, or that
of the object now. -/
theorem Good.more (knows : Knows isolation s seen)
    (reads : ∀ mode, Read mode seen → (∃ known, running known ∧ Read mode known) ∨
      ∃ cc, s.configConnector = some cc ∧ cc.getMode = mode) :
    Good isolation s fun other => running other ∨ other = seen := by
  have modes : ∀ other mode, running other ∨ other = seen → Read mode other →
      (∃ known, running known ∧ Read mode known) ∨
        ∃ cc, s.configConnector = some cc ∧ cc.getMode = mode := by
    rintro other mode (runOther | rfl) read
    · exact .inl ⟨other, runOther, read⟩
    · exact reads mode read
  refine ⟨good.inPlace, ?_, ?_, ?_⟩
  · intro other mode cc runOther read stored
    rcases modes other mode runOther read with ⟨known, runKnown, readKnown⟩ | ⟨found, here, rfl⟩
    · exact good.now known mode cc runKnown readKnown stored
    · cases here.symm.trans stored
      rfl
  · intro first second mode mode' runFirst runSecond readFirst readSecond
    rcases modes first mode runFirst readFirst with ⟨known, runKnown, readKnown⟩ | ⟨cc, here, rfl⟩
    · rcases modes second mode' runSecond readSecond with ⟨known', runKnown', readKnown'⟩ |
        ⟨cc, here, rfl⟩
      · exact good.agree known known' mode mode' runKnown runKnown' readKnown readKnown'
      · exact (good.now known mode cc runKnown readKnown here).symm
    · rcases modes second mode' runSecond readSecond with ⟨known', runKnown', readKnown'⟩ |
        ⟨cc', here', rfl⟩
      · exact good.now known' mode' cc runKnown' readKnown' here
      · cases here.symm.trans here'
        rfl
  · rintro other (runOther | rfl)
    · exact good.knows other runOther
    · exact knows

/-- A reconcile that starts has seen nothing. -/
theorem Good.start : Good isolation s fun seen => running seen ∨ seen = [] := by
  refine good.more ⟨?_, ?_, ?_⟩ fun mode => ?_
  all_goals
    rintro ⟨_, member, _⟩
    cases member

/-- Users and Kubernetes bring no StatefulSet, and the mode stays while a reconcile runs. -/
theorem Good.drift (moved : Drift s after)
    (calm : ∀ now, after.configConnector = some now →
      s.configConnector.map (·.getMode) = some now.getMode ∨ ∀ seen, ¬ running seen) :
    Good isolation after running where
  inPlace := by
    cases moved with
    | user => exact ⟨good.inPlace.sets, good.inPlace.pods⟩
    | collected keep =>
      exact ⟨fun sts member => good.inPlace.sets sts (mem_filter.mp member).1,
        good.inPlace.pods⟩
    | podCreated sts there =>
      refine ⟨good.inPlace.sets, fun pod member perNamespace => ?_⟩
      rcases mem_of_mem_podCreated member with rfl | old
      · have kind := (podOf_perNamespace sts).mp perNamespace
        exact (good.inPlace.sets sts there kind).pod
      · exact good.inPlace.pods pod old perNamespace
    | podDeleted keep =>
      exact ⟨good.inPlace.sets,
        fun pod member => good.inPlace.pods pod (mem_filter.mp member).1⟩
  now := by
    intro seen mode cc run read stored
    rcases calm cc stored with same | idle
    · obtain ⟨before, was, modes⟩ := Option.map_eq_some_iff.mp same
      exact modes ▸ good.now seen mode before run read was
    · exact absurd run (idle seen)
  agree := good.agree
  knows := by
    intro seen run
    have sets := drift_sets moved
    exact (good.knows seen run).kept (drift_moved moved)
      (fun _ ⟨sts, member, kind⟩ => ⟨sts, sets member, kind⟩)
      (fun _ ⟨sts, member, kind⟩ => ⟨sts, sets member, kind⟩)

/-- A call keeps what the others know: it brings nothing that they found missing, since they
have read the same mode. -/
theorem Good.effect (run : running seen)
    (guarded : guard isolation seen op) (effect : Effect s op after) :
    Good isolation after running where
  inPlace := effect.inPlace guarded good.inPlace
  now := by
    intro other mode cc runOther read stored
    rcases effect.mode guarded stored with was | mine
    · exact good.now other mode cc runOther read was
    · exact good.agree seen other _ _ run runOther mine read
  agree := good.agree
  knows := by
    intro other runOther
    refine (good.knows other runOther).kept (effect_moved effect) ?_ ?_
    · intro read there
      rcases effect.perNamespaceSet guarded there with old | gone
      · exact old
      · obtain ⟨_, mine⟩ := (good.knows seen run).podGone gone
        cases good.agree seen other _ _ run runOther mine read
    · intro read there
      rcases effect.clusterModeSet guarded there with old | listed
      · exact old
      · obtain ⟨_, mine⟩ := (good.knows seen run).listed listed
        cases good.agree seen other _ _ run runOther mine read

end

variable {answer : op.Answer}

/-- A check that is made now holds now. -/
theorem Knows.answered (knows : Knows isolation after seen) (guarded : guard isolation seen op)
    (answered : answers s op answer after) (inPlace : after.InPlace isolation)
    (populated : ∀ ns limit, op = .listControllerPods ns limit → s.Populated) :
    Knows isolation after (⟨op, answer⟩ :: seen) where
  listed := by
    rintro ⟨pods, member, passed⟩
    rcases mem_cons.mp member with same | old
    · cases same
      obtain ⟨rfl, listed⟩ := answered
      obtain ⟨all, order, shown⟩ := listed pods rfl
      obtain ⟨_, _, read⟩ := guarded (by decide)
      exact ⟨none_of_listed inPlace (populated _ _ rfl) order shown passed,
        read.mono (suffix_cons _ _)⟩
    · exact (knows.listed ⟨pods, old, passed⟩).imp_right (·.mono (suffix_cons _ _))
  setGone := by
    rintro ⟨err, member, missing⟩
    rcases mem_cons.mp member with same | old
    · cases same
      obtain ⟨rfl, found⟩ := answered
      refine ⟨?_, Read.mono guarded (suffix_cons _ _)⟩
      rintro ⟨sts, there, cluster⟩
      have absent := List.find?_eq_none.mp (found missing) sts there
      exact absent (decide_eq_true cluster)
    · exact (knows.setGone ⟨err, old, missing⟩).imp_right (·.mono (suffix_cons _ _))
  podGone := by
    rintro ⟨err, member, missing⟩
    rcases mem_cons.mp member with same | old
    · cases same
      obtain ⟨rfl, found⟩ := answered
      refine ⟨?_, guarded.2.mono (suffix_cons _ _)⟩
      rintro (sets | ⟨pod, there, cluster⟩)
      · exact (knows.setGone guarded.1).1 sets
      · have absent := List.find?_eq_none.mp (found missing) pod there
        exact absent (decide_eq_true cluster)
    · exact (knows.podGone ⟨err, old, missing⟩).imp_right (·.mono (suffix_cons _ _))

/-- A mode that is in the longer trace was read before, or is that of the object now. -/
theorem read_answered {mode : Mode}
    (answered : answers s op answer after) (read : Read mode (⟨op, answer⟩ :: seen)) :
    Read mode seen ∨ ∃ cc, after.configConnector = some cc ∧ cc.getMode = mode := by
  obtain ⟨cc, member, same⟩ := read
  rcases mem_cons.mp member with head | old
  · cases head
    obtain ⟨rfl, found⟩ := answered
    exact .inr ⟨cc, found, same⟩
  · exact .inl ⟨cc, old, same⟩

theorem Good.answered (good : Good isolation after running) (run : running seen)
    (guarded : guard isolation seen op) (answered : answers s op answer after)
    (populated : ∀ ns limit, op = .listControllerPods ns limit → s.Populated) :
    Good isolation after fun other => running other ∨ other = ⟨op, answer⟩ :: seen := by
  refine good.more ((good.knows seen run).answered guarded answered good.inPlace populated) ?_
  intro mode read
  exact (read_answered answered read).imp_left fun old => ⟨seen, run, old⟩

end Invariant

section Worlds

/-- What the reconciles under way have seen. -/
def underWay (w : (machine isolation manifests).World) (seen : Trace S) : Prop :=
  ∃ p t, w.threads p = some t ∧ t.seen = seen

theorem underWay_update {w : (machine isolation manifests).World} {p : Party}
    {slot : Option (Thread S)}
    (run : underWay (⟨after, Function.update w.threads p slot⟩ :
      (machine isolation manifests).World) seen) :
    underWay w seen ∨ ∃ t, slot = some t ∧ t.seen = seen := by
  obtain ⟨q, t, running, same⟩ := run
  exact Machine.forall_update (P := fun _ t => t.seen = seen → _)
    (fun q t _ old same => .inl ⟨q, t, old, same⟩) (fun t set same => .inr ⟨t, set, same⟩) q t
    running same

theorem rely_of_answers {answer : op.Answer} (answered : answers s op answer after) :
    (contract isolation).rely seen op answer := by
  cases op with
  | editContents items => exact answered.2
  | _ => trivial

theorem quiet_keeps : (machine isolation manifests).Keeps (fun _ => contract isolation) Starts
    Quiet (fun w => Good isolation w.state (underWay w)) where
  init := by
    intro s starts
    have none : ∀ seen, ¬ underWay (⟨s, fun _ => none⟩ : (machine isolation manifests).World)
      seen := by
      rintro seen ⟨p, t, running, _⟩
      cases running
    refine ⟨⟨?_, ?_⟩, ?_, ?_, ?_⟩
    · exact fun sts member kind => absurd (.inl ⟨sts, member, kind⟩) starts.2
    · exact fun pod member kind => absurd (.inr ⟨pod, member, kind⟩) starts.2
    · exact fun seen _ _ run => absurd run (none seen)
    · exact fun seen _ _ _ run => absurd run (none seen)
    · exact fun seen run => absurd run (none seen)
  drift := by
    intro w after good moved met
    refine Good.drift good moved fun now stored => ?_
    refine (met.calm now stored).imp_right fun idle seen run => ?_
    obtain ⟨p, t, running, _⟩ := run
    rw [idle p] at running
    cases running
  start := by
    intro w p good
    refine (Good.start good).mono fun seen run => ?_
    rcases underWay_update run with old | ⟨t, set, same⟩
    · exact .inl old
    · cases set
      exact .inr same.symm
  act := by
    intro w p seen op next answer after good running guarded answered met
    have run : underWay w seen := ⟨p, _, running, rfl⟩
    have populated : ∀ ns limit, op = .listControllerPods ns limit → w.state.Populated := by
      rintro ns limit rfl
      exact met.populated p seen ns limit answer _ _ running (Function.update_self _ _ _)
    refine ⟨rely_of_answers answered, ?_⟩
    have changed := good.effect run guarded (effect_of_answers answered)
    refine (changed.answered run guarded answered populated).mono fun other runOther => ?_
    rcases underWay_update runOther with old | ⟨t, set, same⟩
    · exact .inl old
    · cases set
      exact .inr same.symm
  stop := by
    intro w p good
    refine Good.mono good fun seen run => ?_
    rcases underWay_update run with old | ⟨t, set, _⟩
    · exact old
    · cases set

/-- The checks suffice for runs like these. -/
theorem quiet_timely (fit : manifests.Fit) {w after : (machine isolation manifests).World}
    (reached : (machine isolation manifests).Reach Starts Quiet w)
    (taken : (machine isolation manifests).Step w after) : w.state.Timely after.state := by
  obtain ⟨good, obeys⟩ := reached.kept (program_obeys fit) quiet_keeps
  cases taken with
  | start _ _ | stop _ => exact .of_sets (List.Subset.refl _)
  | drift after moved => exact .of_sets (drift_sets moved)
  | act p seen op next answer after running answered =>
    have effect := effect_of_answers answered
    have guarded := (obeys p _ running).1
    have knows := good.knows seen ⟨p, _, running, rfl⟩
    constructor
    · intro there new
      rcases effect.clusterModeSet guarded there with old | listed
      · exact absurd old new
      · exact (knows.listed listed).1
    · intro there new
      rcases effect.perNamespaceSet guarded there with old | gone
      · exact absurd old new
      · exact (knows.podGone gone).1

end Worlds

end ConfigConnector.Operator
