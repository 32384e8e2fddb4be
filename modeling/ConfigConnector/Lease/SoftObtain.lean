import ConfigConnector.Lease.Leaser

/- What `SoftObtain` does to the labels of the resource in memory, with maps that may be
nil on either side. -/
namespace ConfigConnector.Lease

open K8s

variable {resource live left : GoLabels} {ownerID : String} {duration renewalMin : Int}
  {clock : Fin 3 → Reading}

section Cases

/-- Another owner holds the lease still. -/
def Refused (live : GoLabels) (ownerID : String) (now : Reading) : Prop :=
  (getLeaseHolderAndExpirationTime live).1 ≠ "" ∧
    (getLeaseHolderAndExpirationTime live).1 ≠ ownerID ∧
    now.time ≤ (getLeaseHolderAndExpirationTime live).2

theorem canObtainLease_eq_false {now : Reading} :
    canObtainLease ownerID (getLeaseHolderAndExpirationTime live).1
      (getLeaseHolderAndExpirationTime live).2 now = false ↔ Refused live ownerID now := by
  simp only [canObtainLease, Refused]
  by_cases own : (getLeaseHolderAndExpirationTime live).1 = "" ∨
      (getLeaseHolderAndExpirationTime live).1 = ownerID
  · simp only [Bool.or_eq_true, decide_eq_true_eq, own, ↓reduceIte, Bool.true_eq_false, false_iff]
    tauto
  simp only [Bool.or_eq_true, decide_eq_true_eq, own, ↓reduceIte, decide_eq_false_iff_not, not_lt]
  tauto

theorem softObtain_refused (refused : Refused live ownerID (clock 0)) :
    ∃ err, softObtain live ownerID duration renewalMin clock = .error (.error err) := by
  have unobtainable := canObtainLease_eq_false.mpr refused
  unfold softObtain
  dsimp only
  rw [unobtainable]
  exact ⟨_, rfl⟩

/-- A lease that need not be renewed leaves even a nil map alone. -/
theorem softObtain_fresh (obtainable : ¬ Refused live ownerID (clock 0))
    (fresh : renewalMin ≤ sub (getLeaseHolderAndExpirationTime live).2 (clock 1).time) :
    softObtain live ownerID duration renewalMin clock = .ok (false, live) := by
  rw [← canObtainLease_eq_false, Bool.not_eq_false] at obtainable
  have notDue : shouldRenewOrObtainLease renewalMin (getLeaseHolderAndExpirationTime live).2
      (clock 1) = false := by simpa [shouldRenewOrObtainLease] using fresh
  unfold softObtain
  dsimp only
  rw [obtainable, notDue]
  rfl

theorem softObtain_due (obtainable : ¬ Refused live ownerID (clock 0))
    (due : sub (getLeaseHolderAndExpirationTime live).2 (clock 1).time < renewalMin) :
    softObtain live ownerID duration renewalMin clock =
      match live with
      | none => .error (.panic "assignment to entry in nil map")
      | some entries => .ok (true, some (leased entries ownerID duration (clock 2))) := by
  rw [← canObtainLease_eq_false, Bool.not_eq_false] at obtainable
  have isDue : shouldRenewOrObtainLease renewalMin (getLeaseHolderAndExpirationTime live).2
      (clock 1) = true := by simpa [shouldRenewOrObtainLease] using due
  unfold softObtain
  dsimp only
  rw [obtainable, isDue]
  cases live with
  | none | some _ => rfl

end Cases

section Frame

/-- The own labels, with the lease keys as the live labels have them. -/
def Overlaid (resource live labels : GoLabels) : Prop :=
  ∀ key, labels.get key =
    if key ∈ leaseKeys then (live.get key).or (resource.get key) else resource.get key

/-- `SoftObtain` does not panic, and changes no label but those of the lease. -/
def TouchesLeaseOnly (resource live : GoLabels) (ownerID : String) (duration renewalMin : Int)
    (clock : Fin 3 → Reading) : Prop :=
  match softObtainResource resource live ownerID duration renewalMin clock with
  | .error (.panic _) => False
  | .error (.error _) => True
  | .ok (labels, liveAfter) => Overlaid resource liveAfter labels

theorem copyLabel_lookup (live : GoLabels) (key : String) (labels : StringMap) (other : String) :
    (copyLabel live key labels).lookup other =
      if other = key then (live.get key).or (labels.lookup other) else labels.lookup other := by
  unfold copyLabel
  by_cases same : other = key
  · rw [same]
    cases live.get key <;> simp
  · cases live.get key <;> simp [same, Finmap.lookup_insert_of_ne]

theorem overlaid_copy (live : GoLabels) (labels : StringMap) :
    Overlaid (some labels) live (some (copyLabel live leaseExpirationKey
      (copyLabel live leaseHolderKey labels))) := by
  intro key
  change (copyLabel live leaseExpirationKey _).lookup key = _
  rw [copyLabel_lookup, copyLabel_lookup]
  have apart : leaseExpirationKey ≠ leaseHolderKey := by decide
  have own : GoLabels.get (some labels) key = labels.lookup key := rfl
  rw [own]
  by_cases expiration : key = leaseExpirationKey
  · simp [expiration, leaseKeys, apart]
  by_cases holder : key = leaseHolderKey
  · simp [holder, leaseKeys, apart.symm]
  · simp [expiration, holder, leaseKeys]

/-- The live map itself will do for a resource without labels if it has nothing else. -/
theorem overlaid_live : Overlaid none live live ↔ ∀ key, key ∉ leaseKeys → live.get key = none := by
  have nothing : ∀ key, GoLabels.get none key = none := fun _ => rfl
  constructor
  · intro overlaid key other
    rw [overlaid key, if_neg other]
    rfl
  · intro only key
    rw [nothing, Option.or_none]
    split
    · rfl
    · rename_i other
      exact only key other

theorem leased_get_other (entries : StringMap) (now : Reading) {key : String}
    (other : key ∉ leaseKeys) :
    GoLabels.get (some (leased entries ownerID duration now)) key = entries.lookup key := by
  have notHolder : key ≠ leaseHolderKey := fun same => other (by simp [leaseKeys, same])
  have notExpiration : key ≠ leaseExpirationKey := fun same => other (by simp [leaseKeys, same])
  change (leased entries ownerID duration now).lookup key = _
  rw [leased, Finmap.lookup_insert_of_ne _ notExpiration, Finmap.lookup_insert_of_ne _ notHolder]

theorem touches_of_decision {renewed : Bool}
    (decided : softObtain live ownerID duration renewalMin clock = .ok (renewed, left)) :
    TouchesLeaseOnly resource live ownerID duration renewalMin clock ↔
      (resource = none → ∀ key, key ∉ leaseKeys → left.get key = none) := by
  unfold TouchesLeaseOnly softObtainResource
  rw [decided]
  cases resource with
  | none =>
    change Overlaid none left left ↔ _
    rw [overlaid_live]
    exact ⟨fun only _ => only, fun only => only rfl⟩
  | some labels => exact iff_of_true (overlaid_copy left labels) nofun

/-- The live labels have to be a map if the lease is written to them, and a resource
without a map of its own takes over whatever else is in it. -/
theorem softObtain_touches_lease_only_iff (resource live : GoLabels) (ownerID : String)
    (duration renewalMin : Int) (clock : Fin 3 → Reading) :
    TouchesLeaseOnly resource live ownerID duration renewalMin clock ↔
      (live = none → renewalMin ≤ sub 0 (clock 1).time) ∧
        (resource = none → ¬ Refused live ownerID (clock 0) →
          ∀ key, key ∉ leaseKeys → live.get key = none) := by
  by_cases refused : Refused live ownerID (clock 0)
  · obtain ⟨err, failed⟩ :=
      @softObtain_refused live ownerID duration renewalMin clock refused
    have unchanged : TouchesLeaseOnly resource live ownerID duration renewalMin clock := by
      unfold TouchesLeaseOnly softObtainResource
      rw [failed]
      trivial
    refine iff_of_true unchanged ⟨fun isNone => ?_, fun _ obtainable => absurd refused obtainable⟩
    rw [isNone] at refused
    exact absurd rfl refused.1
  by_cases due : sub (getLeaseHolderAndExpirationTime live).2 (clock 1).time < renewalMin
  · have decided := @softObtain_due live ownerID duration renewalMin clock refused due
    cases live with
    | none =>
      have panics : ¬ TouchesLeaseOnly resource none ownerID duration renewalMin clock := by
        unfold TouchesLeaseOnly softObtainResource
        rw [decided]
        exact fun holds => holds
      refine iff_of_false panics fun conditions => ?_
      exact absurd (conditions.1 rfl) (not_le.mpr due)
    | some entries =>
      rw [touches_of_decision decided]
      constructor
      · intro only
        refine ⟨fun isNone => (by cases isNone), fun isNone _ key other => ?_⟩
        have absent := only isNone key other
        rwa [leased_get_other entries _ other] at absent
      · intro conditions isNone key other
        rw [leased_get_other entries _ other]
        exact conditions.2 isNone refused key other
  · have fresh := not_lt.mp due
    rw [touches_of_decision
      (@softObtain_fresh live ownerID duration renewalMin clock refused fresh)]
    constructor
    · intro only
      refine ⟨fun isNone => ?_, fun isNone _ => only isNone⟩
      rw [isNone] at fresh
      exact fresh
    · exact fun conditions isNone => conditions.2 isNone refused

/-- Live labels that are nil, and a label of someone else on the live resource. -/
theorem softObtain_panics_and_copies :
    ¬ TouchesLeaseOnly (some ∅) none "a" (40 * second) (20 * second) (fun _ => 1) ∧
      ¬ TouchesLeaseOnly none (some ((∅ : StringMap).insert "env" "prod")) "a" (40 * second)
        (20 * second) (fun _ => 1) := by
  constructor
  · intro touches
    exact touches
  · intro touches
    have copied := touches "env"
    revert copied
    decide

end Frame

end ConfigConnector.Lease
