import ConfigConnector.Iam.Types
import ConfigConnector.Lib.Machine

/- The tracker that polls GCP resources for drift and wakes the objects that
depend on them. The tracker keeps one etag for each resource; reconciles add
dependencies, each with the etag it has read, while the tracker polls. -/
namespace ConfigConnector.GcpWatch

open Interact K8s Iam List Function

structure GcpResourceKey where
  kind : String
  external : String
  deriving DecidableEq, Repr

/-- An object to wake. A controller is named by the key it is registered with,
which no other controller has. -/
structure Dependency where
  controller : String
  ns : String
  name : String
  deriving DecidableEq, Repr

structure DependenciesByResource where
  etag : String
  dependencies : List Dependency
  deriving DecidableEq, Repr

structure ResourceInfo where
  etag : String
  deriving DecidableEq, Repr

/-- `IAMFetcher.IsSupported`. -/
def IAMFetcher.isSupported (kind external : String) : Bool :=
  kind = "Project" && match external.toList.splitOn '/' with
    | [first, _] => first = "projects".toList
    | _ => false

/-- What happens in the tracker. `polled` is a comparison with an etag that a
poll has fetched, `sent` an event for a dependency in the queue of its controller. -/
inductive Event where
  | added (key : GcpResourceKey) (dep : Dependency) (etag : String)
  | polled (key : GcpResourceKey) (etag : String)
  | sent (key : GcpResourceKey) (dep : Dependency)
  deriving DecidableEq, Repr

/-- The tracker, the etags that the resources have in GCP, and what has happened
so far, the latest event first. -/
structure Tracker where
  gcpResources : GcpResourceKey → Option DependenciesByResource
  live : GcpResourceKey → String
  log : List Event

namespace DependenciesByResource

/-- `maybeNotifyDependenciesUnderLock`: the resource afterwards, and who is woken. -/
def maybeNotify (target : DependenciesByResource) (latest : ResourceInfo) :
    DependenciesByResource × List Dependency :=
  if latest.etag ≠ target.etag then ({ target with etag := latest.etag }, target.dependencies)
  else (target, [])

/-- `addUnderLock`, once it has the lock. The etag counts only for a resource
that has none. -/
def add (target : DependenciesByResource) (dep : Dependency) (etag : String) :
    DependenciesByResource where
  etag := if target.etag = "" then etag else target.etag
  dependencies :=
    if dep ∈ target.dependencies then target.dependencies else target.dependencies ++ [dep]

end DependenciesByResource

namespace Tracker

variable (s : Tracker) (key : GcpResourceKey)

/-- `getTarget`. -/
def getTarget : DependenciesByResource :=
  (s.gcpResources key).getD ⟨"", []⟩

def store (target : DependenciesByResource) (events : List Event) : Tracker where
  gcpResources := Function.update s.gcpResources key (some target)
  live := s.live
  log := events ++ s.log

def add (dep : Dependency) (etag : String) : Tracker :=
  s.store key ((s.getTarget key).add dep etag) [.added key dep etag]

def notify (latest : ResourceInfo) : Tracker :=
  s.store key ((s.getTarget key).maybeNotify latest).1
    (((s.getTarget key).maybeNotify latest).2.reverse.map (.sent key) ++
      [.polled key latest.etag])

end Tracker

/-- The calls of the poll loop and of `Add`: what they do under a lock is one call. -/
inductive Request where
  | copyKeysUnderLock
  | getGCPResourcesUnderLock (key : GcpResourceKey)
  | fetch (key : GcpResourceKey)
  | maybeNotifyDependenciesUnderLock (key : GcpResourceKey) (latest : ResourceInfo)
  /-- A reconcile reads its object and the etag of the policy. -/
  | getPolicy
  | getTarget (key : GcpResourceKey)
  | addUnderLock (key : GcpResourceKey) (dep : Dependency) (etag : String)

def Request.Answer : Request → Type
  | .copyKeysUnderLock => List GcpResourceKey
  | .getGCPResourcesUnderLock _ => Option DependenciesByResource
  | .fetch _ => Except GoError ResourceInfo
  | .getPolicy => IAMPartialPolicy × String
  | .maybeNotifyDependenciesUnderLock _ _ | .getTarget _ | .addUnderLock _ _ _ => Unit

abbrev S : Signature := ⟨Request, Request.Answer⟩

def request (r : Request) : Prog S r.Answer := Prog.perform (S := S) r

/-- The loop of `pollOnce` over the keys it has copied. -/
def pollKeys : List GcpResourceKey → Prog S Unit
  | [] => return ()
  | key :: rest => do
    let gcpResource : Option DependenciesByResource ← request (.getGCPResourcesUnderLock key)
    match gcpResource with
    | none => pollKeys rest
    | some _ =>
      let latest : Except GoError ResourceInfo ← request (.fetch key)
      match latest with
      | .error _ => pollKeys rest
      | .ok latest =>
        let _ ← request (.maybeNotifyDependenciesUnderLock key latest)
        pollKeys rest

def pollOnce : Prog S Unit := do
  let keys : List GcpResourceKey ← request .copyKeysUnderLock
  pollKeys keys

/-- `ControllerRegistration.Add`, for a controller that may not be registered. -/
def add (supported : String → String → Bool) (r : Option String) (policy : IAMPartialPolicy)
    (etag : String) : Prog S Bool :=
  match r with
  | none => return false
  | some controllerKey =>
    if etag = "" then return false
    else if policy.spec.resourceReference.kind = "" then return false
    else if policy.spec.resourceReference.external = "" then return false
    else if supported policy.spec.resourceReference.kind policy.spec.resourceReference.external
    then do
      let key : GcpResourceKey :=
        ⟨policy.spec.resourceReference.kind, policy.spec.resourceReference.external⟩
      let _ ← request (.getTarget key)
      let _ ← request
        (.addUnderLock key ⟨controllerKey, policy.metadata.ns, policy.metadata.name⟩ etag)
      return true
    else return false

/-- The poll loop, and the reconciles of each object of each controller. -/
inductive Party where
  | poll
  | reconcile (controller : Option String) (ns name : String)
  deriving DecidableEq

/-- The keys of a map in some order, as ranging over it yields them. -/
def Ranges (gcpResources : GcpResourceKey → Option DependenciesByResource)
    (keys : List GcpResourceKey) : Prop :=
  keys.Nodup ∧ ∀ key, key ∈ keys ↔ (gcpResources key).isSome

def answers : Party → Tracker → (r : Request) → r.Answer → Tracker → Prop
  | _, s, .copyKeysUnderLock, copied, after => after = s ∧ Ranges s.gcpResources copied
  | _, s, .getGCPResourcesUnderLock key, found, after => after = s ∧ found = s.gcpResources key
  | _, s, .fetch key, latest, after =>
    after = s ∧ ∀ info, latest = Except.ok info → info.etag = s.live key
  | _, s, .maybeNotifyDependenciesUnderLock key latest, _, after => after = s.notify key latest
  | .poll, _, .getPolicy, _, _ => False
  | .reconcile _ ns name, s, .getPolicy, (policy, etag), after =>
    after = s ∧ policy.metadata.ns = ns ∧ policy.metadata.name = name ∧
      etag = s.live
        ⟨policy.spec.resourceReference.kind, policy.spec.resourceReference.external⟩
  | _, s, .getTarget key, _, after => after = s.store key (s.getTarget key) []
  | _, s, .addUnderLock key dep etag, _, after => after = s.add key dep etag

/-- Somebody changes a resource. -/
inductive Changes (s : Tracker) : Tracker → Prop where
  | change (key : GcpResourceKey) (etag : String) :
      Changes s { s with live := Function.update s.live key etag }

def machine (supported : String → String → Bool) : Machine S where
  State := Tracker
  Party := Party
  program
    | .poll => pollOnce
    | .reconcile controller _ _ => do
      let read : IAMPartialPolicy × String ← request .getPolicy
      let _ ← add supported controller read.1 read.2
      return ()
  answers := answers
  drift := Changes

instance (supported : String → String → Bool) : DecidableEq (machine supported).Party :=
  inferInstanceAs (DecidableEq Party)

/-- A tracker that has just been made. -/
def Fresh (s : Tracker) : Prop := (∀ key, s.gcpResources key = none) ∧ s.log = []

section Log

variable (key : GcpResourceKey) (dep : Dependency)

/-- The etag of the latest `Add` of a dependency, and what has happened since. -/
def since : List Event → Option (String × List Event)
  | [] => none
  | .added k d etag :: before =>
    if k = key ∧ d = dep then some (etag, [])
    else (since before).map fun (e, later) => (e, .added k d etag :: later)
  | event :: before => (since before).map fun (e, later) => (e, event :: later)

/-- A poll that has fetched another etag than the one a dependency was added with
has woken the dependency, or a poll since then had. -/
def NoLostDrift (log : List Event) : Prop :=
  ∀ key dep etag later, since key dep log = some (etag, later) →
    ∀ fetched, .polled key fetched ∈ later → fetched ≠ etag → .sent key dep ∈ later

end Log

/-- Each `Add` in the run carries the etag that the tracker has, if it has one. -/
def AddsStoredEtag (w after : Tracker) : Prop :=
  ∀ key dep etag, after.log = .added key dep etag :: w.log →
    (w.getTarget key).etag = "" ∨ (w.getTarget key).etag = etag

/-- What the tracker has to know of a dependency that was added with `etag`. -/
structure Watched (s : Tracker) (key : GcpResourceKey) (dep : Dependency) (etag : String)
    (later : List Event) : Prop where
  nonempty : etag ≠ ""
  registered : dep ∈ (s.getTarget key).dependencies
  current : (s.getTarget key).etag = etag ∨ .sent key dep ∈ later
  woken : ∀ fetched, .polled key fetched ∈ later → fetched ≠ etag → .sent key dep ∈ later

def Tracks (s : Tracker) : Prop :=
  ∀ key dep etag later, since key dep s.log = some (etag, later) → Watched s key dep etag later

variable (target : DependenciesByResource)

section Steps

variable {s : Tracker} {key k : GcpResourceKey} {dep d : Dependency} {etag : String}

theorem Tracker.getTarget_store (events : List Event) :
    (s.store k target events).getTarget key = if key = k then target else s.getTarget key := by
  unfold Tracker.getTarget Tracker.store
  by_cases same : key = k
  · subst same
    simp
  · simp [same]

/-- Events that add nothing only get in front of what has happened since. -/
theorem since_append {events log : List Event} (other : ∀ e, .added key dep e ∉ events) :
    since key dep (events ++ log) =
      (since key dep log).map fun (e, later) => (e, events ++ later) := by
  induction events with
  | nil => simp
  | cons event events ih =>
    have rest := ih fun e member => other e (.tail _ member)
    cases event with
    | added k d e =>
      have different : ¬ (k = key ∧ d = dep) := by
        rintro ⟨rfl, rfl⟩
        exact other e (.head _)
      simp [since, different, rest, comp_def]
    | polled _ _ | sent _ _ => simp [since, rest, comp_def]

/-- A resource that stays as it is, and events that are about other things. -/
theorem Watched.later {later events : List Event} {after : Tracker}
    (watched : Watched s key dep etag later) (same : after.getTarget key = s.getTarget key)
    (notPolled : ∀ fetched, .polled key fetched ∉ events) :
    Watched after key dep etag (events ++ later) where
  nonempty := watched.nonempty
  registered := same ▸ watched.registered
  current := by
    rw [same]
    exact watched.current.imp_right (mem_append_right events)
  woken := by
    intro fetched polled different
    apply mem_append_right
    rcases mem_append.mp polled with new | old
    · exact absurd new (notPolled fetched)
    · exact watched.woken fetched old different

theorem Tracks.unchanged {after : Tracker} (tracks : Tracks s) (log : after.log = s.log)
    (same : ∀ key, after.getTarget key = s.getTarget key) : Tracks after := by
  intro key dep etag later found
  have watched := tracks key dep etag later (log ▸ found)
  have moved : Watched after key dep etag ([] ++ later) := watched.later (same key) (by simp)
  exact moved

/-- A poll of the resource. It wakes everybody, unless it has fetched the etag
that the tracker has; whoever was added with another one has been woken then. -/
theorem Watched.notify {later : List Event} (watched : Watched s key dep etag later)
    (latest : ResourceInfo) :
    Watched (s.notify key latest) key dep etag
      (((s.getTarget key).maybeNotify latest).2.reverse.map (.sent key) ++
        [.polled key latest.etag] ++ later) := by
  have target : (s.notify key latest).getTarget key = ((s.getTarget key).maybeNotify latest).1 := by
    simp [Tracker.notify, Tracker.getTarget_store]
  by_cases changed : latest.etag ≠ (s.getTarget key).etag
  · have woken : ∀ rest, .sent key dep ∈
        ((s.getTarget key).maybeNotify latest).2.reverse.map (Event.sent key) ++
          [.polled key latest.etag] ++ rest := by
      intro rest
      simp [DependenciesByResource.maybeNotify, changed, watched.registered]
    refine ⟨watched.nonempty, ?_, Or.inr (woken later), fun _ _ _ => woken later⟩
    rw [target]
    simp [DependenciesByResource.maybeNotify, changed, watched.registered]
  · have quiet : (s.getTarget key).maybeNotify latest = (s.getTarget key, []) := by
      simp [DependenciesByResource.maybeNotify, changed]
    have fetchedSame : latest.etag = (s.getTarget key).etag := not_not.mp changed
    rw [quiet] at target ⊢
    refine ⟨watched.nonempty, target ▸ watched.registered, ?_, ?_⟩
    · rw [target]
      exact watched.current.imp_right (.tail _)
    intro fetched polled different
    apply mem_cons_of_mem
    rcases mem_cons.mp polled with new | old
    · cases new
      exact watched.current.resolve_left fun stored => different (fetchedSame.trans stored)
    · exact watched.woken fetched old different

theorem Tracks.notify (tracks : Tracks s) (latest : ResourceInfo) : Tracks (s.notify k latest) := by
  intro key dep etag later found
  have quiet : ∀ e, Event.added key dep e ∉
      ((s.getTarget k).maybeNotify latest).2.reverse.map (Event.sent k) ++
        [.polled k latest.etag] := by simp
  change since key dep (_ ++ s.log) = _ at found
  rw [since_append quiet, Option.map_eq_some_iff] at found
  obtain ⟨⟨e, before⟩, old, equal⟩ := found
  cases equal
  have watched := tracks key dep etag before old
  by_cases same : key = k
  · subst same
    exact watched.notify latest
  · refine watched.later ?_ (by simp [same])
    simp [Tracker.notify, Tracker.getTarget_store, same]

theorem mem_add_dependencies :
    dep ∈ (target.add d etag).dependencies ↔ dep ∈ target.dependencies ∨ dep = d := by
  unfold DependenciesByResource.add
  by_cases known : d ∈ target.dependencies
  · simp only [known, if_true, iff_self_or]
    rintro rfl
    exact known
  · simp [known]

theorem Tracks.add (tracks : Tracks s) (nonempty : etag ≠ "")
    (stored : (s.getTarget k).etag = "" ∨ (s.getTarget k).etag = etag) :
    Tracks (s.add k d etag) := by
  have target : (s.add k d etag).getTarget k = (s.getTarget k).add d etag := by
    simp [Tracker.add, Tracker.getTarget_store]
  intro key dep e later found
  by_cases this : k = key ∧ d = dep
  · -- The dependency that is added: nothing has happened since.
    obtain ⟨rfl, rfl⟩ := this
    have now : since k d (s.add k d etag).log = some (etag, []) := by
      simp [Tracker.add, Tracker.store, since]
    rw [now] at found
    cases found
    refine ⟨nonempty, ?_, Or.inl ?_, by simp⟩
    · rw [target, mem_add_dependencies]
      exact Or.inr rfl
    rw [target]
    rcases stored with empty | same
    · simp [DependenciesByResource.add, empty]
    · simp [DependenciesByResource.add, same]
  · have other : ∀ e, Event.added key dep e ∉ [Event.added k d etag] := by
      intro e member
      cases mem_singleton.mp member
      exact this ⟨rfl, rfl⟩
    change since key dep ([.added k d etag] ++ s.log) = _ at found
    rw [since_append other, Option.map_eq_some_iff] at found
    obtain ⟨⟨e, before⟩, old, equal⟩ := found
    cases equal
    have watched := tracks key dep e before old
    by_cases same : key = k
    · subst same
      refine ⟨watched.nonempty, ?_, ?_, ?_⟩
      · rw [target, mem_add_dependencies]
        exact Or.inl watched.registered
      · -- An etag is taken over only where there was none, which is nobody's etag.
        rw [target]
        rcases watched.current with current | sent
        · have present : (s.getTarget key).etag ≠ "" := current ▸ watched.nonempty
          exact Or.inl (by simpa [DependenciesByResource.add, present] using current)
        · exact Or.inr (.tail _ sent)
      · intro fetched polled different
        have before := mem_of_ne_of_mem (by simp) polled
        exact .tail _ (watched.woken fetched before different)
    · refine watched.later ?_ (by simp)
      simp [Tracker.add, Tracker.getTarget_store, same]

end Steps

section Runs

variable {supported : String → String → Bool}

/-- An empty etag is never added. -/
def contract : Contract S where
  guard _ r := ∀ key dep etag, r = .addUnderLock key dep etag → etag ≠ ""
  rely _ _ _ := True

theorem pollKeys_obeys (keys : List GcpResourceKey) (seen : Trace S) :
    Abides contract seen (pollKeys keys) := by
  induction keys generalizing seen with
  | nil => trivial
  | cons key rest ih =>
    refine ⟨nofun, fun found _ => ?_⟩
    cases found with
    | none => exact ih _
    | some target =>
      refine ⟨nofun, fun latest _ => ?_⟩
      cases latest with
      | error err => exact ih _
      | ok latest => exact ⟨nofun, fun _ _ => ih _⟩

theorem add_obeys (r : Option String) (policy : IAMPartialPolicy) (etag : String)
    (seen : Trace S) : Abides contract seen (add supported r policy etag) := by
  unfold add
  split
  · trivial
  split
  · trivial
  rename_i nonempty
  split
  · trivial
  split
  · trivial
  split
  · refine ⟨nofun, fun _ _ => ⟨?_, fun _ _ => trivial⟩⟩
    rintro _ _ _ ⟨⟩
    exact nonempty
  · trivial

theorem program_obeys (p : Party) : Abides contract [] ((machine supported).program p) := by
  cases p with
  | poll => exact ⟨nofun, fun keys _ => pollKeys_obeys keys _⟩
  | reconcile controller ns name =>
    refine Obeys.bind_any ⟨nofun, fun _ _ => trivial⟩ fun seen read => ?_
    exact (add_obeys controller read.1 read.2 seen).map _

theorem Tracks.answered {p : Party} {s after : Tracker} {r : Request} {answer : r.Answer}
    (tracks : Tracks s) (guarded : contract.guard [] r) (answered : answers p s r answer after)
    (met : AddsStoredEtag s after) : Tracks after := by
  cases r with
  | copyKeysUnderLock | getGCPResourcesUnderLock | fetch =>
    rw [answered.1]
    exact tracks
  | getPolicy =>
    cases p with
    | poll => exact absurd answered id
    | reconcile controller ns name =>
      rw [answered.1]
      exact tracks
  | maybeNotifyDependenciesUnderLock key latest =>
    cases answered
    exact tracks.notify latest
  | getTarget key =>
    cases answered
    refine tracks.unchanged rfl fun k => ?_
    rw [Tracker.getTarget_store]
    split
    · rename_i same
      rw [same]
    · rfl
  | addUnderLock key dep etag =>
    cases answered
    exact tracks.add (guarded key dep etag rfl) (met key dep etag rfl)

theorem invariant : (machine supported).Invariant (fun _ => contract) Fresh
    (fun w after => AddsStoredEtag w.state after.state) Tracks (fun _ _ _ => True) where
  init := by
    intro s fresh key dep etag later found
    rw [fresh.2] at found
    cases found
  fresh := fun _ _ _ => trivial
  drift := by
    intro w after tracks _ moved _
    cases moved with
    | change key etag => exact ⟨tracks.unchanged rfl fun _ => rfl, fun _ _ _ => trivial⟩
  act := by
    intro w after p seen r answer tracks _ guarded answered met
    exact ⟨trivial, tracks.answered guarded answered met, trivial, fun _ _ _ _ => trivial⟩

/-- A poll wakes the dependency that was just added whenever it fetches another
etag than the dependency's, exactly if the tracker has that etag or none. -/
theorem add_then_poll (s : Tracker) (key : GcpResourceKey) (dep : Dependency) (etag : String) :
    (∀ fetched, fetched ≠ etag →
      dep ∈ (((s.add key dep etag).getTarget key).maybeNotify ⟨fetched⟩).2) ↔
      (s.getTarget key).etag = "" ∨ (s.getTarget key).etag = etag := by
  have target : (s.add key dep etag).getTarget key = (s.getTarget key).add dep etag := by
    simp [Tracker.add, Tracker.getTarget_store]
  have registered : dep ∈ ((s.getTarget key).add dep etag).dependencies :=
    (mem_add_dependencies _).mpr (Or.inr rfl)
  rw [target]
  constructor
  · intro woken
    by_contra neither
    obtain ⟨present, different⟩ := not_or.mp neither
    -- The etag that was dropped is never missed: this poll stays silent.
    have silent := woken (s.getTarget key).etag different
    simp [DependenciesByResource.maybeNotify, DependenciesByResource.add, present] at silent
  · intro stored fetched different
    have now : ((s.getTarget key).add dep etag).etag = etag := by
      rcases stored with empty | same
      · simp [DependenciesByResource.add, empty]
      · simp [DependenciesByResource.add, same]
    simpa [DependenciesByResource.maybeNotify, now, different] using registered

/-- No drift is lost while every `Add` carries the etag that the tracker has, if
it has one. An `Add` with another etag can be missed by the next poll. -/
theorem no_lost_drift_iff_stored_etag (supported : String → String → Bool) :
    (∀ w, (machine supported).Reach Fresh (fun w after => AddsStoredEtag w.state after.state) w →
      NoLostDrift w.state.log) ∧
    ∀ (s : Tracker) (key : GcpResourceKey) (dep : Dependency) (etag : String),
      (∀ fetched, fetched ≠ etag →
        dep ∈ (((s.add key dep etag).getTarget key).maybeNotify ⟨fetched⟩).2) ↔
        (s.getTarget key).etag = "" ∨ (s.getTarget key).etag = etag := by
  refine ⟨fun w reached => ?_, add_then_poll⟩
  have tracks := (Machine.Reach.invariant program_obeys invariant reached).1
  intro key dep etag later found
  exact (tracks key dep etag later found).woken

end Runs

section Replay

def project : GcpResourceKey := ⟨"Project", "projects/p"⟩

def policyOf (name : String) : IAMPartialPolicy where
  metadata := .created "ns" name
  spec := ⟨⟨"Project", "", "", "", "projects/p"⟩, []⟩
  status := ⟨[], none, ⟨[], []⟩⟩

def fresh : Tracker := ⟨fun _ => none, fun _ => "e1", []⟩

theorem Ranges.update {gcpResources : GcpResourceKey → Option DependenciesByResource}
    {keys : List GcpResourceKey} (ranges : Ranges gcpResources keys) {key : GcpResourceKey}
    (known : key ∈ keys) (target : DependenciesByResource) :
    Ranges (Function.update gcpResources key (some target)) keys := by
  refine ⟨ranges.1, fun k => ?_⟩
  by_cases this : k = key
  · subst this
    simp [known]
  · simpa [this] using ranges.2 k

theorem ranges_project :
    Ranges (Function.update (fun _ => none) project (some target)) [project] := by
  refine ⟨by simp, fun k => ?_⟩
  by_cases this : k = project
  · subst this
    simp
  · simp [this]

def reconcileOf (name : String) : Party := .reconcile (some "controller") "ns" name

/-- Two objects depend on a project. Both read its etag, but the second is added
only after the project has changed and a poll has seen that. Its etag is dropped,
and the next poll finds nothing new. -/
theorem late_add_loses_drift :
    ∃ w, (machine IAMFetcher.isSupported).Reach Fresh (fun _ _ => True) w ∧
      ¬ NoLostDrift w.state.log := by
  have init := @Machine.Reach.init _ (machine IAMFetcher.isSupported) _ Fresh (fun _ _ => True)
    fresh ⟨fun _ => rfl, rfl⟩
  have startedA := init.start (reconcileOf "a")
  have readA := startedA.reply (reconcileOf "a") rfl (policyOf "a", "e1") _
    ⟨rfl, rfl, rfl, rfl⟩
  have targetA := readA.reply (reconcileOf "a") rfl () _
  have addedA := targetA.reply (reconcileOf "a") rfl () _
  have startedB := addedA.start (reconcileOf "b")
  have readB := startedB.reply (reconcileOf "b") rfl (policyOf "b", "e1") _
    ⟨rfl, rfl, rfl, rfl⟩
  have changed := readB.step _ _ (.drift _ _ (.change project "e2")) trivial
  have polling := changed.start Party.poll
  have keys := polling.reply Party.poll rfl [project] _
    ⟨rfl, (ranges_project _).update (.head _) _⟩
  have found := keys.reply Party.poll rfl _ _
  have fetched := found.reply Party.poll rfl (Except.ok ⟨"e2"⟩) _
    ⟨rfl, by rintro info ⟨⟩; rfl⟩
  have notified := fetched.reply Party.poll rfl () _
  have targetB := notified.reply (reconcileOf "b") rfl () _
  have addedB := targetB.reply (reconcileOf "b") rfl () _
  -- The second poll of the loop.
  have returned := addedB.step _ _ (.stop _ Party.poll) trivial
  have again := returned.start Party.poll
  have keysAgain := again.reply Party.poll rfl [project] _
    ⟨rfl, ((((ranges_project _).update (.head _) _).update (.head _) _).update
      (.head _) _).update (.head _) _⟩
  have foundAgain := keysAgain.reply Party.poll rfl _ _
  have fetchedAgain := foundAgain.reply Party.poll rfl (Except.ok ⟨"e2"⟩) _
    ⟨rfl, by rintro info ⟨⟩; rfl⟩
  have silent := fetchedAgain.reply Party.poll rfl () _
  refine ⟨_, silent, fun kept => ?_⟩
  have sent := kept project ⟨"controller", "ns", "b"⟩ "e1" [.polled project "e2"] rfl "e2"
    (.head _) (by decide)
  exact absurd sent (by decide)

theorem AddsStoredEtag.of_log {w after : Tracker} (same : after.log = w.log) :
    AddsStoredEtag w after := by
  intro key dep etag added
  have lengths := congrArg List.length (same.symm.trans added)
  simp at lengths

/-- The same two objects, both added before the project changes. -/
theorem no_lost_drift_iff_stored_etag_early :
    ∃ w, (machine IAMFetcher.isSupported).Reach Fresh
        (fun w after => AddsStoredEtag w.state after.state) w ∧
      Event.polled project "e2" ∈ w.state.log ∧
      Event.sent project ⟨"controller", "ns", "b"⟩ ∈ w.state.log ∧ NoLostDrift w.state.log := by
  have init := @Machine.Reach.init _ (machine IAMFetcher.isSupported) _ Fresh
    (fun w after => AddsStoredEtag w.state after.state) fresh ⟨fun _ => rfl, rfl⟩
  have startedA := init.start (reconcileOf "a") rfl (.of_log rfl)
  have readA := startedA.reply (reconcileOf "a") rfl (policyOf "a", "e1") _
    ⟨rfl, rfl, rfl, rfl⟩ (.of_log rfl)
  have targetA := readA.reply (reconcileOf "a") rfl () _ rfl (.of_log rfl)
  have addedA := targetA.reply (reconcileOf "a") rfl () _ rfl
    (by rintro _ _ _ ⟨⟩; exact Or.inl rfl)
  have startedB := addedA.start (reconcileOf "b") rfl (.of_log rfl)
  have readB := startedB.reply (reconcileOf "b") rfl (policyOf "b", "e1") _
    ⟨rfl, rfl, rfl, rfl⟩ (.of_log rfl)
  have targetB := readB.reply (reconcileOf "b") rfl () _ rfl (.of_log rfl)
  have addedB := targetB.reply (reconcileOf "b") rfl () _ rfl
    (by rintro _ _ _ ⟨⟩; exact Or.inr rfl)
  have changed := addedB.step _ _ (.drift _ _ (.change project "e2")) (.of_log rfl)
  have polling := changed.start Party.poll rfl (.of_log rfl)
  have keys := polling.reply Party.poll rfl [project] _
    ⟨rfl, (((ranges_project _).update (.head _) _).update (.head _) _).update
      (.head _) _⟩ (.of_log rfl)
  have found := keys.reply Party.poll rfl _ _ ⟨rfl, rfl⟩ (.of_log rfl)
  have fetched := found.reply Party.poll rfl (Except.ok ⟨"e2"⟩) _
    ⟨rfl, by rintro info ⟨⟩; rfl⟩ (.of_log rfl)
  have notified := fetched.reply Party.poll rfl () _ rfl nofun
  refine ⟨_, notified, ?_, ?_,
    (no_lost_drift_iff_stored_etag IAMFetcher.isSupported).1 _ notified⟩
  · exact .tail _ (.tail _ (.head _))
  · exact .head _

end Replay

end ConfigConnector.GcpWatch
