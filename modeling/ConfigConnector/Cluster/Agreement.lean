import ConfigConnector.Cluster.NamespaceId

/- Processes that get, set and delete the ids of namespaces at the same time: a write is taken
only if nobody has written since the read it is based on, so every change of the config map is
one that a job makes to the latest version. -/
namespace ConfigConnector.Cluster

open Interact K8s List Option
open Versioned.Store (Wrote)

variable {ns : String} {op : Op} {seen : Trace S} {configMap : ConfigMap}

section Contract

/-- The config map that comes with an answer. -/
def answered : Sigma S.Ans → Option ConfigMap
  | ⟨.create, .ok configMap⟩ | ⟨.get, .ok configMap⟩ | ⟨.update _, .ok configMap⟩ => some configMap
  | _ => none

/-- The process has been given this config map. -/
def Given (seen : Trace S) (configMap : ConfigMap) : Prop :=
  ∃ entry ∈ seen, answered entry = some configMap

theorem Given.mono (entry : Sigma S.Ans) (given : Given seen configMap) :
    Given (entry :: seen) configMap := by
  obtain ⟨old, member, same⟩ := given
  exact ⟨old, .tail _ member, same⟩

/-- What a job makes of the entries. -/
def Edits : Job → StringMap → StringMap → Prop
  | .get ns, before, after => before.lookup ns = none ∧ ∃ id, after = before.insert ns id
  | .set ns uniqueID, before, after => after = before.insert ns uniqueID
  | .delete ns, before, after => after = before.erase ns

/-- A job writes back what it was given with its own edit, and returns what it was given. -/
def guard (job : Job) (seen : Trace S) : Op → Prop
  | .update configMap => ∃ base, Given seen base ∧
      configMap.resourceVersion = base.resourceVersion ∧ Edits job base.entries configMap.entries
  | .returned ns id => ∃ configMap, Given seen configMap ∧ configMap.entries.lookup ns = some id
  | _ => True

/-- An update is answered with what it has written. -/
def rely : (op : Op) → op.Answer → Prop
  | .update configMap, .ok saved => saved.entries = configMap.entries
  | _, _ => True

def contract (job : Job) : Contract S where
  guard := guard job
  rely := fun _ => rely

variable {job : Job} {nn : String}

theorem createOrGet_obeys :
    Succeeds (contract job) Given seen (createOrGetNamespaceIDConfigMap nn) :=
  .call trivial (.onOk (fun _ _ => Succeeds.ok ⟨_, .head _, rfl⟩) fun _ => .ite (fun _ => nofun)
    fun _ => .call trivial (.onOk (fun _ _ => Succeeds.ok ⟨_, .head _, rfl⟩) fun _ => nofun))

/-- A write that is based on a version that was given. -/
theorem writeBack_obeys {doing : String} {base : ConfigMap} {data : StringMap}
    (given : Given seen base) (edits : Edits job base.entries data) :
    Obeys (contract job) (fun later outcome => ∀ saved, outcome = .done saved →
      Given later saved ∧ saved.entries = data) seen
      (writeBack nn doing { base with data := some data }) := by
  refine .call ⟨base, given, rfl, edits⟩ fun updated relied => ?_
  cases updated with
  | ok saved =>
    intro other same
    cases same
    exact ⟨⟨_, .head _, rfl⟩, relied⟩
  | error err => exact .ite (fun _ => nofun) fun _ => nofun

/-- The config map holds an id for the namespace, and the process was given it. -/
def Holds (ns : String) (seen : Trace S) (configMap : ConfigMap) : Prop :=
  Given seen configMap ∧ ∃ id, configMap.entries.lookup ns = some id

theorem newID_obeys (idToSet : Option String) {base : ConfigMap} (given : Given seen base) :
    Obeys (contract job) (fun later id => Given later base ∧ ∀ set, idToSet = some set → id = set)
      seen (newID idToSet) := by
  cases idToSet with
  | none => exact ⟨trivial, fun id _ => ⟨given.mono _, nofun⟩⟩
  | some set => exact ⟨given, fun other same => Option.some.inj same⟩

section

variable {idToSet : Option String} (edits : ∀ (base : StringMap) (id : String),
  (idToSet = none → base.lookup ns = none) → (∀ set, idToSet = some set → id = set) →
    Edits job base (base.insert ns id))
include edits

theorem getOrUpdateConfigMap_obeys :
    Obeys (contract job) (fun later outcome => ∀ configMap, outcome = .done configMap →
      Holds ns later configMap) seen (getOrUpdateConfigMap nn ns idToSet) := by
  refine createOrGet_obeys.tried (fun later configMap _ known => ?_) fun _ _ => nofun
  refine .ite (fun present => ?_) fun absent => ?_
  · intro other same
    cases same
    rw [Bool.and_eq_true, ConfigMap.lookup_eq] at present
    exact ⟨known, isSome_iff_exists.mp present.1⟩
  · refine (newID_obeys idToSet known).bind fun later id ⟨still, isSet⟩ => ?_
    have unset : idToSet = none → configMap.entries.lookup ns = none := by
      rintro rfl
      simpa [ConfigMap.lookup_eq] using absent
    refine (writeBack_obeys still (edits _ id unset isSet)).mono ?_
    intro last outcome written saved same
    obtain ⟨given, wrote⟩ := written saved same
    refine ⟨given, id, ?_⟩
    rw [wrote]
    exact Finmap.lookup_insert _

theorem getOrSetNamespaceID_obeys :
    Succeeds (contract job) (fun later id => ∃ configMap, Given later configMap ∧
      configMap.entries.lookup ns = some id) seen (getOrSetNamespaceID nn ns idToSet) := by
  refine .call trivial fun retries _ => ?_
  have tried : ∀ seen : Trace S, True → Obeys (contract job) (fun later outcome => True ∧
      ∀ configMap, outcome.result = .ok configMap → Holds ns later configMap) seen
      (getOrUpdateConfigMap nn ns idToSet) := by
    intro seen _
    refine (getOrUpdateConfigMap_obeys edits).mono fun later outcome ended => ⟨trivial, ?_⟩
    intro configMap same
    cases outcome with
    | done value => exact ended configMap (congrArg _ (Except.ok.inj same))
    | again _ | permanent _ => cases same
  have retried : Succeeds (contract job) (Holds ns) (⟨.retries, retries⟩ :: seen)
      ((getOrUpdateConfigMap nn ns idToSet).retry retries) :=
    Obeys.retry (I := fun _ => True) tried retries trivial
  refine retried.tried (fun later configMap _ ⟨given, stored, found⟩ id same => ?_) fun _ _ => nofun
  refine ⟨configMap, given, ?_⟩
  obtain rfl : stored = id := by
    have value : (configMap.lookup ns).getD "" = id := Except.ok.inj same
    rwa [ConfigMap.lookup_eq, found] at value
  exact found

end

theorem deleteFromConfigMap_obeys :
    Abides (contract (.delete ns)) seen (deleteFromConfigMap nn ns) := by
  refine createOrGet_obeys.tried (fun later configMap _ given => ?_) fun _ _ => trivial
  dsimp only
  split
  · trivial
  rename_i data same
  have entries : configMap.entries = data := by
    unfold ConfigMap.entries
    rw [same]
    rfl
  have edits : Edits (.delete ns) configMap.entries (data.erase ns) := by
    rw [entries]
    rfl
  refine (writeBack_obeys given edits).bind fun later outcome _ => ?_
  cases outcome <;> trivial

/-- Every job keeps to its contract. -/
theorem run_obeys (job : Job) : Abides (contract job) [] (job.run nn) := by
  cases job with
  | get ns =>
    refine Succeeds.tried (getOrSetNamespaceID_obeys ?_)
      (fun later id _ given => ⟨given, fun _ _ => trivial⟩) fun _ _ => trivial
    exact fun base id absent _ => ⟨absent rfl, id, rfl⟩
  | set ns uniqueID =>
    have set : Abides (contract (.set ns uniqueID)) []
        (getOrSetNamespaceID nn ns (some uniqueID)) :=
      (getOrSetNamespaceID_obeys fun base id _ isSet => by
        rw [isSet uniqueID rfl]
        rfl).mono fun _ _ _ => trivial
    exact (set.map _).map _
  | delete ns =>
    refine Obeys.bind_any (.call trivial fun retries _ => ?_) fun _ _ => trivial
    refine Obeys.retry (I := fun _ => True) (fun seen _ => ?_) retries trivial
    exact deleteFromConfigMap_obeys.mono fun _ _ _ => ⟨trivial, trivial⟩

end Contract

variable {s after : State}

section Changes

variable {job : Job}

/-- Every config map that a process was given is a version there has been. -/
def Old (s : Versioned.Store StringMap) (seen : Trace S) : Prop :=
  ∀ configMap, Given seen configMap → ∃ e ∈ s.history, configMap = .ofEntry e

/-- What one call of a job can do to the versions. -/
inductive Changes (job : Job) (s after : Versioned.Store StringMap) : Prop where
  | kept (same : after = s)
  | created (saved : Versioned.Entry StringMap) (absent : s.current = none)
      (wrote : Wrote s after ∅ saved)
  | edited (newest saved : Versioned.Entry StringMap) (value : StringMap)
      (current : s.current = some newest) (edits : Edits job newest.value value)
      (wrote : Wrote s after value saved)

/-- A write that is taken edits the latest version. -/
theorem update_changes {store : Versioned.Store StringMap} {saved : Versioned.Entry StringMap}
    (old : Old s.store seen) (guarded : guard job seen (.update configMap))
    (applied : s.store.update configMap.resourceVersion configMap.entries = some (store, saved)) :
    Changes job s.store store := by
  obtain ⟨base, given, version, edits⟩ := guarded
  obtain ⟨⟨newest, current, latest⟩, wrote⟩ := Versioned.Store.update_wrote applied
  obtain ⟨e, member, rfl⟩ := old base given
  have number : e.version = newest.version := version.symm.trans latest.symm
  obtain rfl := Versioned.Store.eq_current member current number
  rw [ConfigMap.entries_ofEntry] at edits
  exact .edited e saved configMap.entries current edits wrote

variable {answer : op.Answer}

theorem answers_changes (old : Old s.store seen)
    (guarded : guard job seen op) (given : answers s op answer after) :
    Changes job s.store after.store := by
  cases op with
  | create =>
    cases given with
    | done _ saved applied | lost _ saved _ applied =>
      obtain ⟨absent, wrote⟩ := Versioned.Store.create_wrote applied
      exact .created saved absent wrote
    | refused err => exact .kept rfl
  | update configMap =>
    cases given with
    | done _ _ applied | lost _ _ _ applied => exact update_changes old guarded applied
    | refused err => exact .kept rfl
  | get =>
    obtain ⟨rfl, _⟩ := given
    exact .kept rfl
  | generateID | retries =>
    obtain rfl : after = s := given
    exact .kept rfl
  | returned ns id =>
    obtain rfl : after = _ := given
    exact .kept rfl

theorem Changes.grows {s after : Versioned.Store StringMap} (changes : Changes job s after)
    {e : Versioned.Entry StringMap} (member : e ∈ s.history) : e ∈ after.history := by
  cases changes with
  | kept same => exact same ▸ member
  | created _ _ wrote | edited _ _ _ _ _ wrote => exact wrote.old e member

/-- The edit of a job leaves every other namespace alone. -/
theorem Edits.other {before after : StringMap} (edits : Edits job before after)
    (other : ns ≠ job.ns) : after.lookup ns = before.lookup ns := by
  cases job with
  | get mine =>
    obtain ⟨_, id, rfl⟩ := edits
    exact Finmap.lookup_insert_of_ne _ other
  | set mine uniqueID =>
    obtain rfl : after = _ := edits
    exact Finmap.lookup_insert_of_ne _ other
  | delete mine =>
    obtain rfl : after = _ := edits
    exact Finmap.lookup_erase_ne other

theorem Changes.other {s after : Versioned.Store StringMap} (changes : Changes job s after)
    (other : ns ≠ job.ns) :
    after.current.bind (·.value.lookup ns) = s.current.bind (·.value.lookup ns) := by
  cases changes with
  | kept same => rw [same]
  | created saved absent wrote =>
    rw [wrote.current, absent, bind_some, wrote.value_eq]
    exact Finmap.lookup_empty ns
  | edited newest saved value current edits wrote =>
    rw [wrote.current, current, bind_some, bind_some, wrote.value_eq]
    exact edits.other other

/-- What the answer adds to the config maps that a process was given is a version. -/
theorem Old.answered (old : Old s.store seen)
    (changes : Changes job s.store after.store) (given : answers s op answer after) :
    Old after.store (⟨op, answer⟩ :: seen) := by
  rintro configMap ⟨entry, member, same⟩
  rcases mem_cons.mp member with rfl | before
  · cases op with
    | create =>
      cases given with
      | done store saved applied =>
        cases same
        exact ⟨saved, (Versioned.Store.create_wrote applied).2.saved_mem, rfl⟩
      | lost | refused => cases same
    | update written =>
      cases given with
      | done store saved applied =>
        cases same
        exact ⟨saved, (Versioned.Store.update_wrote applied).2.saved_mem, rfl⟩
      | lost | refused => cases same
    | get =>
      obtain ⟨rfl, read⟩ := given
      cases read with
      | found e stored =>
        cases same
        exact ⟨e, stored, rfl⟩
      | failed => cases same
    | generateID | retries | returned ns id => cases same
  · obtain ⟨e, stored, rfl⟩ := old configMap ⟨entry, before, same⟩
    exact ⟨e, changes.grows stored, rfl⟩

/-- What a call leaves of the two logs. -/
theorem answers_logs (given : answers s op answer after) :
    after.ran = s.ran ∧ (after.returned = s.returned ∨
      ∃ ns id, op = .returned ns id ∧ after = { s with returned := (ns, id) :: s.returned }) := by
  cases op with
  | create | update _ =>
    cases given with
    | done | lost | refused => exact ⟨rfl, Or.inl rfl⟩
  | get =>
    obtain ⟨rfl, _⟩ := given
    exact ⟨rfl, Or.inl rfl⟩
  | generateID | retries =>
    obtain rfl : after = s := given
    exact ⟨rfl, Or.inl rfl⟩
  | returned ns id =>
    obtain rfl : after = _ := given
    exact ⟨rfl, Or.inr ⟨ns, id, rfl, rfl⟩⟩

/-- An update is answered with what it has written. -/
theorem answers_rely (given : answers s op answer after) : rely op answer := by
  cases op with
  | update configMap =>
    cases given with
    | done store saved applied =>
      change (ConfigMap.ofEntry saved).entries = configMap.entries
      rw [ConfigMap.entries_ofEntry, (Versioned.Store.update_wrote applied).2.value_eq]
    | lost | refused => trivial
  | create | get | generateID | retries | returned ns id => trivial

end Changes

section Runs

/-- Every id that was returned was stored for its namespace. -/
def Stored (s : State) : Prop :=
  ∀ ns id, (ns, id) ∈ s.returned → ∃ e ∈ s.store.history, e.value.lookup ns = some id

/-- Of the jobs for a namespace only `GetNamespaceID` has made calls. -/
def OnlyGets (ns : String) (s : State) : Prop := ∀ job ∈ s.ran, job.ns = ns → job = .get ns

/-- The latest version has every id that a namespace ever had. -/
def Settled (ns : String) (s : Versioned.Store StringMap) : Prop :=
  ∀ e ∈ s.history, ∀ id, e.value.lookup ns = some id →
    s.current.bind (·.value.lookup ns) = some id

theorem Stored.step {job : Job} (stored : Stored s) (old : Old s.store seen)
    (changes : Changes job s.store after.store) (guarded : guard job seen op)
    (returned : after.returned = s.returned ∨
      ∃ ns id, op = .returned ns id ∧ after = { s with returned := (ns, id) :: s.returned }) :
    Stored after := by
  intro ns id member
  rcases returned with same | ⟨mine, value, rfl, rfl⟩
  · rw [same] at member
    obtain ⟨e, was, found⟩ := stored ns id member
    exact ⟨e, changes.grows was, found⟩
  rcases mem_cons.mp member with new | before
  · obtain ⟨rfl, rfl⟩ := Prod.mk.inj new
    obtain ⟨configMap, given, found⟩ := guarded
    obtain ⟨e, was, rfl⟩ := old configMap given
    rw [ConfigMap.entries_ofEntry] at found
    exact ⟨e, was, found⟩
  · exact stored ns id before

/-- A change by a job that does not set or delete the id of a namespace keeps it settled. -/
theorem Settled.changes {job : Job} {s after : Versioned.Store StringMap}
    (settled : Settled ns s) (changes : Changes job s after) (only : job.ns = ns → job = .get ns) :
    Settled ns after := by
  cases changes with
  | kept same => exact same ▸ settled
  | created saved absent wrote =>
    intro e member id found
    rcases wrote.new e member with old | rfl
    · have kept := settled e old id found
      rw [absent] at kept
      cases kept
    · rw [wrote.current]
      exact found
  | edited newest saved value current edits wrote =>
    intro e member id found
    rw [wrote.current, bind_some]
    rcases wrote.new e member with old | rfl
    · have kept := settled e old id found
      rw [current, bind_some] at kept
      rw [wrote.value_eq]
      by_cases mine : job.ns = ns
      · -- The job found no id for the namespace, so there has never been one.
        rw [only mine] at edits
        rw [edits.1] at kept
        cases kept
      · rw [edits.other (Ne.symm mine), kept]
    · exact found

variable {P : Type} [DecidableEq P] {nn : String} {job : P → Job}

/-- There is at most one version of the config map at first, and nothing has happened. -/
structure Starts (s : State) : Prop where
  history : s.store.history.length ≤ 1
  returned : s.returned = []
  ran : s.ran = []

instance : DecidableEq (machine nn job).Party := inferInstanceAs (DecidableEq P)

theorem settled_of_short {s : Versioned.Store StringMap}
    (short : s.history.length ≤ 1) : Settled ns s := by
  intro e member id found
  have newest : s.current = some e := by
    unfold Versioned.Store.current
    cases whole : s.history with
    | nil =>
      rw [whole] at member
      cases member
    | cons head rest =>
      rw [whole, length_cons] at short
      have none : rest = [] := length_eq_zero_iff.mp (by omega)
      rw [whole, none] at member
      rw [mem_singleton.mp member]
      rfl
  rw [newest]
  exact found

omit [DecidableEq P] in
theorem agreement_invariant (nn : String) (job : P → Job) :
    (machine nn job).Invariant (fun p => contract (job p)) Starts (fun _ _ => True)
      (fun s => Stored s ∧ ∀ ns, OnlyGets ns s → Settled ns s.store)
      (fun _ s seen => Old s.store seen) where
  init := by
    intro s starts
    refine ⟨fun ns id member => ?_, fun ns _ => settled_of_short starts.history⟩
    rw [starts.returned] at member
    cases member
  fresh := by
    rintro p s _ configMap ⟨entry, member, _⟩
    cases member
  drift := by
    rintro w after shared own rfl _
    exact ⟨shared, own⟩
  act := by
    rintro w ⟨_, threads⟩ p seen op answer ⟨stored, settled⟩ old guarded ⟨left, given, rfl⟩ _
    have changes := answers_changes old guarded given
    obtain ⟨ran, returned⟩ := answers_logs given
    have known : Old left.store (⟨op, answer⟩ :: seen) := old.answered changes given
    have still : Stored left := stored.step old changes guarded returned
    refine ⟨answers_rely given, ⟨still, ?_⟩, known, ?_⟩
    · intro ns only
      have before : OnlyGets ns w.state := by
        intro other member
        exact only other (.tail _ (ran ▸ member))
      exact (settled ns before).changes changes (only (job p) (.head _))
    · intro q other _ known configMap was
      obtain ⟨e, member, rfl⟩ := known configMap was
      exact ⟨e, changes.grows member, rfl⟩

/-- For every interleaving of the calls of any number of processes: where only `GetNamespaceID`
has run for a namespace, all its results for it are the same; each result of it was stored for
its namespace; and a call leaves the entries of the other namespaces as they are. -/
theorem namespace_ids_agree (nn : String) (job : P → Job) {w : (machine nn job).World}
    (reached : (machine nn job).Reach Starts (fun _ _ => True) w) :
    (∀ ns, OnlyGets ns w.state → ∀ id other, (ns, id) ∈ w.state.returned →
      (ns, other) ∈ w.state.returned → id = other) ∧
    (∀ ns id, (ns, id) ∈ w.state.returned →
      ∃ e ∈ w.state.store.history, e.value.lookup ns = some id) ∧
    ∀ p seen op next answer after, w.threads p = some ⟨seen, .call op next⟩ →
      (machine nn job).answers p w.state op answer after →
      ∀ ns, ns ≠ (job p).ns → after.stored ns = w.state.stored ns := by
  obtain ⟨⟨stored, settled⟩, known⟩ :=
    Machine.Reach.invariant (fun p => run_obeys (job p)) (agreement_invariant nn job) reached
  refine ⟨?_, stored, ?_⟩
  · intro ns only id other first second
    obtain ⟨e, member, found⟩ := stored ns id first
    obtain ⟨e', member', found'⟩ := stored ns other second
    have latest := settled ns only e member id found
    rw [settled ns only e' member' other found'] at latest
    exact (Option.some.inj latest).symm
  · rintro p seen op next answer _ running ⟨left, given, rfl⟩ ns other
    obtain ⟨old, guarded, _⟩ := known p _ running
    exact (answers_changes old guarded given).other other

def noConfigMap : State := ⟨⟨[], List.Pairwise.nil⟩, [], []⟩

/-- Two processes that ask for the id of one namespace. -/
def twoGets : Bool → Job := fun _ => .get "team"

/-- The second process reads what the first has stored, and both return it. -/
theorem reaches_two_results : ∃ w : (machine "cnrm-system/namespace-id" twoGets).World,
    (machine "cnrm-system/namespace-id" twoGets).Reach Starts (fun _ _ => True) w ∧
      w.state.returned = [("team", "x"), ("team", "x")] ∧
      w.state.ran = List.replicate 9 (.get "team") := by
  have init := @Machine.Reach.init _ (machine "cnrm-system/namespace-id" twoGets) _ Starts
    (fun _ _ => True) noConfigMap ⟨by decide, rfl, rfl⟩
  have started := init.start false
  have patient := started.reply false rfl (0 : Nat) _
  have created := patient.reply false rfl (Except.ok (ConfigMap.ofEntry ⟨∅, 0⟩)) _
    ⟨_, .done _ _ rfl, rfl⟩
  have generated := created.reply false rfl "x" _
  have updated := generated.reply false rfl
    (Except.ok (ConfigMap.ofEntry ⟨(∅ : StringMap).insert "team" "x", 1⟩)) _
    ⟨_, .done _ _ rfl, rfl⟩
  have first := updated.reply false rfl () _
  have second := first.start true
  have ready := second.reply true rfl (0 : Nat) _
  have present := ready.reply true rfl (Except.error (ApiError.alreadyExists "exists")) _
    ⟨_, .refused _, rfl⟩
  have read := present.reply true rfl
    (Except.ok (ConfigMap.ofEntry ⟨(∅ : StringMap).insert "team" "x", 1⟩)) _
    ⟨_, ⟨rfl, .found _ (by exact (.head _))⟩, rfl⟩
  have last := read.reply true rfl () _
  exact ⟨_, last, rfl, rfl⟩

theorem namespace_ids_agree_team : ∃ w : (machine "cnrm-system/namespace-id" twoGets).World,
    ("team", "x") ∈ w.state.returned ∧
      (∀ other, ("team", other) ∈ w.state.returned → "x" = other) ∧
      ∃ e ∈ w.state.store.history, e.value.lookup "team" = some "x" := by
  obtain ⟨w, reached, returned, ran⟩ := reaches_two_results
  have member : ("team", "x") ∈ w.state.returned := returned ▸ (.head _)
  have only : OnlyGets "team" w.state := by
    intro job made _
    rw [ran] at made
    exact eq_of_mem_replicate made
  obtain ⟨agree, stored, _⟩ := namespace_ids_agree _ twoGets reached
  exact ⟨w, member, fun other => agree "team" only "x" other member, stored "team" "x" member⟩

/-- For every interleaving: where only `GetNamespaceID` has run for a namespace, no id that was
ever stored for it is lost or replaced, and its latest entry is what every call has returned. -/
theorem namespace_id_kept (nn : String) (job : P → Job) {w : (machine nn job).World}
    (reached : (machine nn job).Reach Starts (fun _ _ => True) w) {ns : String}
    (only : OnlyGets ns w.state) :
    (∀ e ∈ w.state.store.history, ∀ id, e.value.lookup ns = some id →
      w.state.stored ns = some id) ∧
    ∀ id, (ns, id) ∈ w.state.returned → w.state.stored ns = some id := by
  obtain ⟨⟨stored, settled⟩, _⟩ :=
    Machine.Reach.invariant (fun p => run_obeys (job p)) (agreement_invariant nn job) reached
  refine ⟨settled ns only, fun id returned => ?_⟩
  obtain ⟨e, member, found⟩ := stored ns id returned
  exact settled ns only e member id found

theorem namespace_id_kept_team : ∃ w : (machine "cnrm-system/namespace-id" twoGets).World,
    (machine "cnrm-system/namespace-id" twoGets).Reach Starts (fun _ _ => True) w ∧
      OnlyGets "team" w.state ∧
      (∀ e ∈ w.state.store.history, ∀ id, e.value.lookup "team" = some id →
        w.state.stored "team" = some id) ∧
      ("team", "x") ∈ w.state.returned ∧ w.state.stored "team" = some "x" := by
  obtain ⟨w, reached, returned, ran⟩ := reaches_two_results
  have only : OnlyGets "team" w.state := fun job made _ => eq_of_mem_replicate (ran ▸ made)
  have member : ("team", "x") ∈ w.state.returned := by simp [returned]
  obtain ⟨stored, latest⟩ := namespace_id_kept _ _ reached only
  exact ⟨w, reached, only, stored, member, latest "x" member⟩

end Runs

end ConfigConnector.Cluster
