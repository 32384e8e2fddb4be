import ConfigConnector.Lease.SoftObtain

/- Owners that obtain and release leases on one resource, one call after the other, under
a clock that does not go back. -/
namespace ConfigConnector.Lease

open K8s List Fallible

section Histories

abbrev Owner : Type := { id : String // id ≠ "" }

/-- The two durations of a call of `Obtain`. -/
structure Terms where
  duration : Int
  renewalMin : Int
  atLeastSecond : second ≤ duration
  fits : duration ≤ maxDuration
  nonneg : 0 ≤ renewalMin
  withinDuration : renewalMin ≤ duration

inductive Op where
  | obtain (owner : Owner) (terms : Terms)
  | release (owner : Owner)

structure Event where
  op : Op
  now : Reading
  calls : Calls

namespace Event

def result (e : Event) (labels : StringMap) : Except Failure StringMap :=
  match e.op with
  | .obtain owner terms =>
    Lease.obtain e.calls labels owner.val terms.duration terms.renewalMin e.now
  | .release owner => Lease.release e.calls labels owner.val e.now

def Succeeds (e : Event) (labels : StringMap) : Prop := ∃ left, e.result labels = .ok left

/-- The labels that are left; a call that fails changes nothing. -/
def apply (labels : StringMap) (e : Event) : StringMap :=
  match e.result labels with
  | .ok left => left
  | .error _ => labels

end Event

def run (labels : StringMap) (events : List Event) : StringMap := events.foldl Event.apply labels

/-- The clock does not go back. -/
def Ordered (events : List Event) : Prop := events.Pairwise fun e later => e.now ≤ later.now

/-- The owner's `Release` succeeds somewhere in the events. -/
def Releases (owner : Owner) (labels : StringMap) (events : List Event) : Prop :=
  ∃ before e after, events = before ++ e :: after ∧ e.op = .release owner ∧
    e.Succeeds (run labels before)

end Histories

variable {labels left : StringMap} {calls : Calls} {now : Reading}

section Calls

variable {ownerID holder : String} {duration renewalMin expiration : Int}

/-- All that an `Obtain` which succeeds can have done. -/
theorem obtain_cases (success : obtain calls labels ownerID duration renewalMin now = .ok left) :
    canObtainLease ownerID (getLeaseHolderAndExpirationTime (some labels)).1
        (getLeaseHolderAndExpirationTime (some labels)).2 now = true ∧
      ((left = labels ∧
          renewalMin ≤ sub (getLeaseHolderAndExpirationTime (some labels)).2 now.time) ∨
        (sub (getLeaseHolderAndExpirationTime (some labels)).2 now.time < renewalMin ∧
          left = newGCPLabelsFromK8sLabels (leased labels ownerID duration now))) := by
  obtain ⟨_, _, success⟩ := bind_eq_ok.mp success
  split at success
  · cases success
  obtain ⟨_, _, success⟩ := bind_eq_ok.mp success
  obtain ⟨⟨renewed, changed⟩, decided, success⟩ := bind_eq_ok.mp success
  obtain ⟨obtainable, outcome⟩ := softObtain_cases decided
  refine ⟨obtainable, ?_⟩
  rcases outcome with ⟨rfl, rfl, fresh⟩ | ⟨rfl, due, entries, same, rfl⟩
  · cases success
    exact Or.inl ⟨rfl, fresh⟩
  cases same
  obtain ⟨_, _, success⟩ := bind_eq_ok.mp success
  cases success
  exact Or.inr ⟨due, rfl⟩

theorem release_cases (success : release calls labels ownerID now = .ok left) :
    (getLeaseHolderAndExpirationTime (some labels)).1 = ownerID ∧
      left = newGCPLabelsFromK8sLabels (labels.erase leaseHolderKey) := by
  obtain ⟨_, _, success⟩ := bind_eq_ok.mp success
  obtain ⟨_, _, success⟩ := bind_eq_ok.mp success
  dsimp only at success
  split at success
  · cases success
  split at success
  · cases success
  split at success
  · cases success
  rename_i own _
  obtain ⟨_, _, success⟩ := bind_eq_ok.mp success
  cases success
  exact ⟨by simpa using own, rfl⟩

end Calls

section Held

variable {owner other : Owner} {terms : Terms} {bound : Int} {e : Event}

/-- The owner holds the lease until the bound at least. -/
structure Held (owner : Owner) (bound : Int) (labels : StringMap) : Prop where
  holder : (getLeaseHolderAndExpirationTime (some labels)).1 = owner.val
  until_bound : bound ≤ (getLeaseHolderAndExpirationTime (some labels)).2

/-- Whoever is named as the holder is named by a text that is not empty. -/
def NamesHolder (labels : StringMap) : Prop := labels.lookup leaseHolderKey ≠ some ""

/-- Without a holder there is no expiration either. -/
theorem NamesHolder.expiration (named : NamesHolder labels)
    (free : (getLeaseHolderAndExpirationTime (some labels)).1 = "") :
    (getLeaseHolderAndExpirationTime (some labels)).2 = 0 := by
  have holder : GoLabels.get (some labels) leaseHolderKey = labels.lookup leaseHolderKey := rfl
  unfold getLeaseHolderAndExpirationTime at free ⊢
  rw [holder] at free ⊢
  cases found : labels.lookup leaseHolderKey with
  | none => rfl
  | some text =>
    rw [found] at free
    have empty : text = "" := by
      dsimp only at free
      split at free
      · exact free
      split at free
      · exact free
      · exact free
    rw [empty] at found
    exact absurd found named

theorem namesHolder_written : NamesHolder (newGCPLabelsFromK8sLabels labels) ↔
    NamesHolder labels := by
  rw [NamesHolder, newGCPLabels_lease labels (by decide), NamesHolder]

theorem namesHolder_leased (labels : StringMap) (duration : Int) (now : Reading) :
    NamesHolder (leased labels owner.val duration now) := by
  unfold NamesHolder leased
  rw [Finmap.lookup_insert_of_ne _ (by decide), Finmap.lookup_insert]
  exact fun same => owner.property (Option.some.inj same)

theorem namesHolder_erase (labels : StringMap) : NamesHolder (labels.erase leaseHolderKey) := by
  unfold NamesHolder
  rw [Finmap.lookup_erase]
  exact nofun

theorem namesHolder_apply (named : NamesHolder labels) (e : Event) :
    NamesHolder (e.apply labels) := by
  unfold Event.apply
  cases outcome : e.result labels with
  | error err => exact named
  | ok left =>
    unfold Event.result at outcome
    split at outcome
    · rcases (obtain_cases outcome).2 with ⟨rfl, _⟩ | ⟨_, rfl⟩
      · exact named
      · exact namesHolder_written.mpr (namesHolder_leased labels _ _)
    · obtain ⟨_, rfl⟩ := release_cases outcome
      exact namesHolder_written.mpr (namesHolder_erase labels)

theorem namesHolder_run (named : NamesHolder labels) (events : List Event) :
    NamesHolder (run labels events) := by
  induction events generalizing labels with
  | nil => exact named
  | cons e rest ih => exact ih (namesHolder_apply named e)

/-- What is left of a duration that is not used up is not negative. -/
theorem le_of_le_sub {renewalMin expiration now : Int} (nonneg : 0 ≤ renewalMin)
    (fresh : renewalMin ≤ sub expiration now) : now + renewalMin ≤ expiration := by
  simp only [sub, minDuration] at fresh
  omega

theorem lt_of_sub_lt {renewalMin expiration now : Int} (fits : renewalMin ≤ maxDuration)
    (due : sub expiration now < renewalMin) : expiration < now + renewalMin := by
  simp only [sub] at due
  omega

/-- The end of a lease that is taken now, cut to whole seconds. -/
theorem held_leased (labels : StringMap) (now : Reading)
    (soon : bound ≤ (now.time + terms.duration) / second * second) :
    Held owner bound
      (newGCPLabelsFromK8sLabels (leased labels owner.val terms.duration now)) := by
  have positive := terms.atLeastSecond
  have lasts : 0 ≤ terms.duration := by
    simp only [second] at positive
    omega
  have read := @getLease_leased labels owner.val terms.duration now lasts terms.fits
  constructor
  · rw [getLease_written, read]
  · rw [getLease_written, read]
    exact soon

/-- An `Obtain` that succeeds leaves the lease with its owner for long enough, unless it
asked for no time at all. -/
theorem held_of_obtain (named : NamesHolder labels)
    (success : obtain calls labels owner.val terms.duration terms.renewalMin now = .ok left) :
    min terms.renewalMin (terms.duration - second) ≤ 0 ∨
      Held owner (now.time + min terms.renewalMin (terms.duration - second)) left := by
  have nonneg := terms.nonneg
  have reading : 0 ≤ now.time := Int.natCast_nonneg _
  obtain ⟨obtainable, outcome⟩ := obtain_cases success
  rcases outcome with ⟨rfl, fresh⟩ | ⟨_, rfl⟩
  · -- The lease is left as it is, so it was the owner's and runs for `renewalMin` still.
    have runs := le_of_le_sub nonneg fresh
    by_cases free : (getLeaseHolderAndExpirationTime (some left)).1 = ""
    · rw [named.expiration free] at runs
      left
      omega
    right
    constructor
    · by_contra foreign
      simp only [canObtainLease, free, foreign, decide_false, Bool.or_self, Bool.false_eq_true,
        ↓reduceIte, decide_eq_true_eq] at obtainable
      omega
    · omega
  · right
    apply held_leased
    simp only [second]
    omega

section

variable (held : Held owner bound labels)
include held

/-- Nobody else can take a lease that is held. -/
theorem Held.excludes (foreign : other ≠ owner) (early : now.time < bound)
    (success : obtain calls labels other.val terms.duration terms.renewalMin now = .ok left) :
    False := by
  have obtainable := (obtain_cases success).1
  have runs := held.until_bound
  have different : owner.val ≠ other.val := fun same => foreign (Subtype.ext same.symm)
  simp only [canObtainLease, held.holder, owner.property, different, decide_false, Bool.or_self,
    Bool.false_eq_true, ↓reduceIte, decide_eq_true_eq] at obtainable
  omega

/-- A lease that its owner renews does not end earlier than before. -/
theorem Held.renewed
    (success : obtain calls labels owner.val terms.duration terms.renewalMin now = .ok left) :
    Held owner bound left := by
  rcases (obtain_cases success).2 with ⟨rfl, _⟩ | ⟨due, rfl⟩
  · exact held
  have runs := held.until_bound
  have short := lt_of_sub_lt (terms.withinDuration.trans terms.fits) due
  have within := terms.withinDuration
  obtain ⟨seconds, whole⟩ := second_dvd_expiration (some labels)
  apply held_leased
  simp only [second] at whole ⊢
  omega

/-- What one event leaves of a lease, before the bound. -/
theorem Held.apply (early : e.now.time < bound)
    (unreleased : e.op = .release owner → ¬ e.Succeeds labels) :
    Held owner bound (e.apply labels) := by
  unfold Event.apply
  cases outcome : e.result labels with
  | error err => exact held
  | ok left =>
    have succeeds : e.Succeeds labels := ⟨left, outcome⟩
    unfold Event.result at outcome
    split at outcome
    · rename_i caller terms _
      by_cases own : caller = owner
      · rw [own] at outcome
        exact held.renewed outcome
      · exact absurd outcome fun success => held.excludes own early success
    · rename_i caller isRelease
      have own : caller = owner :=
        Subtype.ext ((release_cases outcome).1.symm.trans held.holder)
      rw [own] at isRelease
      exact absurd succeeds (unreleased isRelease)

/-- The lease is held through every run of events before the bound. -/
theorem Held.run {events : List Event} (early : ∀ e ∈ events, e.now.time < bound)
    (unreleased : ¬ Releases owner labels events) :
    Held owner bound (run labels events) := by
  induction events generalizing labels with
  | nil => exact held
  | cons e rest ih =>
    have first : Held owner bound (e.apply labels) := by
      refine held.apply (early e (by simp)) fun isRelease succeeds => unreleased ?_
      exact ⟨[], e, rest, rfl, isRelease, succeeds⟩
    refine ih first (fun f member => early f (by simp [member])) ?_
    rintro ⟨before, f, after, rfl, isRelease, succeeds⟩
    exact unreleased ⟨e :: before, f, after, rfl, isRelease, succeeds⟩

end

end Held

section Law

/-- Between an `Obtain` that succeeds and one by another owner there is a release, or the
time that the first one asked for. -/
def Exclusive (initial : StringMap) : Prop :=
  ∀ (before between : List Event) (a b : Event) (owner other : Owner) (terms others : Terms),
    a.op = .obtain owner terms → b.op = .obtain other others → other ≠ owner →
    Ordered (before ++ a :: (between ++ [b])) →
    a.Succeeds (run initial before) →
    ¬ Releases owner (run initial (before ++ [a])) between →
    b.Succeeds (run initial (before ++ a :: between)) →
    a.now.time + min terms.renewalMin (terms.duration - second) ≤ b.now.time

/-- A release, by itself, leaves the lease of anyone else. -/
def ReleasesOwnOnly (initial : StringMap) : Prop :=
  ∀ (events : List Event) (e : Event) (owner : Owner) (holder : String),
    e.op = .release owner → (run initial events).lookup leaseHolderKey = some holder →
    holder ≠ owner.val → e.apply (run initial events) = run initial events

theorem run_append (labels : StringMap) (first second : List Event) :
    run labels (first ++ second) = run (run labels first) second :=
  foldl_append

/-- In an ordered history everything comes before its last event. -/
theorem Ordered.before_last {before between : List Event} {a b : Event}
    (ordered : Ordered (before ++ a :: (between ++ [b]))) :
    a.now ≤ b.now ∧ ∀ e ∈ between, e.now ≤ b.now := by
  have tail := (pairwise_append.mp ordered).2.1
  obtain ⟨first, rest⟩ := pairwise_cons.mp tail
  refine ⟨first b (by simp), fun e member => ?_⟩
  exact (pairwise_append.mp rest).2.2 e member b (by simp)

theorem exclusive_of_namesHolder {initial : StringMap} (named : NamesHolder initial) :
    Exclusive initial := by
  intro before between a b owner other terms others isObtain isOther foreign ordered first
    unreleased second
  obtain ⟨a_first, between_first⟩ := ordered.before_last
  obtain ⟨left, taken⟩ := first
  obtain ⟨last, retaken⟩ := second
  have applied : run initial (before ++ [a]) = left := by
    rw [run_append]
    change a.apply (run initial before) = left
    rw [Event.apply, taken]
  rw [append_cons, run_append, applied] at retaken
  rw [applied] at unreleased
  rw [Event.result, isObtain] at taken
  rw [Event.result, isOther] at retaken
  by_contra early
  rcases held_of_obtain (namesHolder_run named before) taken with nothing | held
  · have later : a.now.time ≤ b.now.time := Int.ofNat_le.mpr a_first
    omega
  have throughout : ∀ e ∈ between,
      e.now.time < a.now.time + min terms.renewalMin (terms.duration - Lease.second) := by
    intro e member
    have before_b : e.now.time ≤ b.now.time := Int.ofNat_le.mpr (between_first e member)
    omega
  exact (held.run throughout unreleased).excludes foreign (by omega) retaken

theorem releasesOwnOnly (initial : StringMap) : ReleasesOwnOnly initial := by
  intro events e owner holder isRelease held foreign
  unfold Event.apply
  cases outcome : e.result (run initial events) with
  | error err => rfl
  | ok left =>
    rw [Event.result, isRelease] at outcome
    have own := (release_cases outcome).1
    have named : (getLeaseHolderAndExpirationTime (some (run initial events))).1 = holder := by
      have found : GoLabels.get (some (run initial events)) leaseHolderKey = some holder := held
      unfold getLeaseHolderAndExpirationTime
      rw [found]
      dsimp only
      split
      · rfl
      split
      · rfl
      · rfl
    exact absurd (named.symm.trans own) foreign

/-- From every map of labels in which a holder, if there is one, has a name: leases
exclude each other for the time they were asked for, whatever happens in between, and
nobody releases a lease of another. -/
theorem lease_exclusion (initial : StringMap) (named : initial.lookup leaseHolderKey ≠ some "") :
    Exclusive initial ∧ ReleasesOwnOnly initial :=
  ⟨exclusive_of_namesHolder named, releasesOwnOnly initial⟩

/-- Labels with a holder whose expiration is not a number. -/
theorem lease_exclusion_malformed :
    Exclusive (((∅ : StringMap).insert leaseHolderKey "a").insert leaseExpirationKey "soon") ∧
      ReleasesOwnOnly
        (((∅ : StringMap).insert leaseHolderKey "a").insert leaseExpirationKey "soon") :=
  lease_exclusion _ (by decide)

/-- What writing the labels does to one that is not of a lease. -/
def Kept (key : String) (before after : StringMap) : Prop :=
  after.lookup key = before.lookup key ∨
    key = cnrmManagedKey ∧ after.lookup key = some "true" ∨
    hasKRMPrefix key ∧ after.lookup key = none

theorem kept_written {key : String} {changed : StringMap}
    (same : changed.lookup key = labels.lookup key) :
    Kept key labels (newGCPLabelsFromK8sLabels changed) := by
  have written := newGCPLabels_lookup changed key
  split at written
  · rename_i managed
    exact .inr (.inl ⟨managed, written⟩)
  split at written
  · rename_i krm
    exact .inr (.inr ⟨krm, written⟩)
  · exact .inl (written.trans same)

theorem apply_keeps (e : Event) {key : String} (other : key ∉ leaseKeys) :
    Kept key labels (e.apply labels) := by
  unfold Event.apply
  cases outcome : e.result labels with
  | error err => exact .inl rfl
  | ok left =>
    unfold Event.result at outcome
    split at outcome
    · rcases (obtain_cases outcome).2 with ⟨rfl, _⟩ | ⟨_, rfl⟩
      · exact .inl rfl
      · exact kept_written (leased_get_other labels _ other)
    · obtain ⟨_, rfl⟩ := release_cases outcome
      exact kept_written (Finmap.lookup_erase_ne fun same => other (by simp [leaseKeys, same]))

/-- Whatever owners obtain and release, and whichever calls fail, the other labels of a resource
stay as they are, but for the mark of the controller, which is set, and keys with one slash,
which are dropped. -/
theorem run_keeps_label (initial : StringMap) (events : List Event) {key : String}
    (other : key ∉ leaseKeys) : Kept key initial (run initial events) := by
  induction events generalizing initial with
  | nil => exact .inl rfl
  | cons e rest ih =>
    rcases ih (e.apply initial) with same | changed
    · have first : Kept key initial (e.apply initial) := apply_keeps e other
      rwa [Kept, ← same] at first
    · exact .inr changed

theorem run_keeps_label_env :
    (run ((∅ : StringMap).insert "env" "prod") [⟨.obtain ⟨"a", by decide⟩
      ⟨second, second, by decide, by decide, by decide, by decide⟩, 0,
        ⟨.ok (), .ok (), .ok ()⟩⟩]).lookup "env" = some "prod" := by
  rcases @run_keeps_label ((∅ : StringMap).insert "env" "prod") _ "env" (by decide) with
    same | ⟨managed, _⟩ | ⟨krm, _⟩
  · exact same.trans rfl
  · exact absurd managed (by decide)
  · exact absurd krm (by decide)

end Law

end ConfigConnector.Lease
