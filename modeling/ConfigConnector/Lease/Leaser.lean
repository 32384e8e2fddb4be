import ConfigConnector.Actuation.Skip
import ConfigConnector.Lib.Fallible

/- Leases on GCP resources, which are kept in two labels of the resource: who holds the
lease, and until when. -/
namespace ConfigConnector.Lease

open K8s

def leaseHolderKey : String := "cnrm-lease-holder-id"
def leaseExpirationKey : String := "cnrm-lease-expiration"
def leaseKeys : List String := [leaseHolderKey, leaseExpirationKey]

/-- A `map[string]string`, which may be nil. -/
abbrev GoLabels : Type := Option StringMap

def GoLabels.get (labels : GoLabels) (key : String) : Option String :=
  labels.bind fun entries => entries.lookup key

section Time

/-- A `time.Duration`, and all other times, in nanoseconds. -/
def second : Int := 1000000000

/-- What the wall clock of a system reads, in nanoseconds since 1970. It cannot be set
to a time before that, and the nanoseconds fit into 63 bits. -/
abbrev Reading : Type := Fin (2 ^ 63)

def Reading.time (now : Reading) : Int := now.val

/-- Seconds between the year 1 and 1970. -/
def unixToInternal : Int := 62135596800

/-- `time.Unix(sec, 0)`: the seconds since the year 1 are an `int64`. -/
def unix (sec : Int) : Int := (Int.bmod (sec + unixToInternal) (2 ^ 64) - unixToInternal) * second

def maxDuration : Int := 2 ^ 63 - 1
def minDuration : Int := -2 ^ 63

/-- `t.Sub(u)`, which does not overflow. -/
def sub (t u : Int) : Int := max minDuration (min maxDuration (t - u))

def parseInt64 : String → Option Int := Actuation.parseInt 64

end Time

/-- The errors of the leaser, with what their texts are made of. -/
inductive LeaseError where
  | renewalMinTooLarge (renewalMin duration : Int)
  | underLease (leaseHolder : String) (remaining : Int)
  | notUnderManagement (ownerID : String)
  | expired (ago : Int)
  | other (err : GoError)

/-- How a function that may also panic can fail. -/
inductive Failure where
  | panic (message : String)
  | error (err : LeaseError)

section Decision

def getLeaseHolderAndExpirationTime (labels : GoLabels) : String × Int :=
  match labels.get leaseHolderKey with
  | none => ("", 0)
  | some leaseHolder =>
    match labels.get leaseExpirationKey with
    | none => (leaseHolder, 0)
    | some leaseExpirationString =>
      match parseInt64 leaseExpirationString with
      | none => (leaseHolder, 0)
      | some unixTime => (leaseHolder, unix unixTime)

def canObtainLease (ownerID curLeaseHolder : String) (expirationTime : Int)
    (now : Reading) : Bool :=
  if curLeaseHolder = "" || curLeaseHolder = ownerID then true
  else decide (expirationTime < now.time)

def shouldRenewOrObtainLease (minDuration expirationTime : Int) (now : Reading) : Bool :=
  decide (sub expirationTime now.time < minDuration)

/-- The two assignments; the first one panics when the map is nil. -/
def setLeaseHolder (labels : GoLabels) (ownerID : String) (duration : Int) (now : Reading) :
    Except Failure GoLabels :=
  match labels with
  | none => .error (.panic "assignment to entry in nil map")
  | some entries =>
    .ok (some ((entries.insert leaseHolderKey ownerID).insert leaseExpirationKey
      (toString ((now.time + duration) / second))))

/-- `softObtain` on the live labels. The clock is read three times. -/
def softObtain (labels : GoLabels) (ownerID : String) (duration renewalMin : Int)
    (clock : Fin 3 → Reading) : Except Failure (Bool × GoLabels) := do
  let (leaseHolder, expirationTime) := getLeaseHolderAndExpirationTime labels
  if !canObtainLease ownerID leaseHolder expirationTime (clock 0) then
    throw (.error (.underLease leaseHolder (sub expirationTime (clock 1).time)))
  else if !shouldRenewOrObtainLease renewalMin expirationTime (clock 1) then
    return (false, labels)
  else
    let labels ← setLeaseHolder labels ownerID duration (clock 2)
    return (true, labels)

end Decision

section Resources

/-- `resource.Labels[key] = val`, if the live labels have the key. -/
def copyLabel (liveLabels : GoLabels) (key : String) (labels : StringMap) : StringMap :=
  match liveLabels.get key with
  | some val => labels.insert key val
  | none => labels

/-- `SoftObtain`: the labels of the resource, and the live labels, which are changed in
place. A resource without a map of labels gets the live one itself. -/
def softObtainResource (resourceLabels liveLabels : GoLabels) (ownerID : String)
    (duration renewalMin : Int) (clock : Fin 3 → Reading) :
    Except Failure (GoLabels × GoLabels) := do
  let (_, liveLabels) ← softObtain liveLabels ownerID duration renewalMin clock
  match resourceLabels with
  | none => return (liveLabels, liveLabels)
  | some labels =>
    return (some (copyLabel liveLabels leaseExpirationKey
      (copyLabel liveLabels leaseHolderKey labels)), liveLabels)

def cnrmManagedKey : String := "managed-by-cnrm"

/-- A key of the style of Kubernetes, with one slash. -/
def hasKRMPrefix (key : String) : Bool := (key.toList.splitOn '/').length = 2

def removeLabelsWithKRMPrefix (labels : StringMap) : StringMap :=
  Finmap.keysLookupEquiv.symm ⟨(labels.keys.filter fun key => !hasKRMPrefix key,
    fun key => if hasKRMPrefix key then none else labels.lookup key), by
      intro key
      cases krm : hasKRMPrefix key <;> simp [krm, Finmap.lookup_isSome, Finmap.mem_keys]⟩

/-- The labels that are written to GCP. -/
def newGCPLabelsFromK8sLabels (labels : StringMap) : StringMap :=
  (removeLabelsWithKRMPrefix labels).insert cnrmManagedKey "true"

/-- What can go wrong around the labels: the kind has no leases, the resource cannot be
read, and it cannot be written. -/
structure Calls where
  supportsLocking : Except GoError Unit
  getResourceAndLiveState : Except GoError Unit
  apply : Except GoError Unit

def Calls.guard (outcome : Except GoError Unit) : Except Failure Unit :=
  match outcome with
  | .ok _ => .ok ()
  | .error err => .error (.error (.other err))

/-- `Obtain`, as one step: the labels that the resource has afterwards. -/
def obtain (calls : Calls) (labels : StringMap) (ownerID : String) (duration renewalMin : Int)
    (now : Reading) : Except Failure StringMap := do
  Calls.guard calls.supportsLocking
  if renewalMin > duration then throw (.error (.renewalMinTooLarge renewalMin duration))
  else
    Calls.guard calls.getResourceAndLiveState
    let (ok, changed) ← softObtain (some labels) ownerID duration renewalMin fun _ => now
    if !ok then return labels
    else
      Calls.guard calls.apply
      return newGCPLabelsFromK8sLabels (changed.getD labels)

/-- `Release`, as one step. The expiration stays behind. -/
def release (calls : Calls) (labels : StringMap) (ownerID : String) (now : Reading) :
    Except Failure StringMap := do
  Calls.guard calls.supportsLocking
  Calls.guard calls.getResourceAndLiveState
  let (leaseHolder, expirationTime) := getLeaseHolderAndExpirationTime (some labels)
  if leaseHolder = "" then throw (.error (.notUnderManagement ownerID))
  else if leaseHolder ≠ ownerID then
    throw (.error (.underLease leaseHolder (sub expirationTime now.time)))
  else if expirationTime < now.time then
    throw (.error (.expired (sub now.time expirationTime)))
  else
    Calls.guard calls.apply
    return newGCPLabelsFromK8sLabels (labels.erase leaseHolderKey)

end Resources

section Labels

theorem parseDigits_of_isDigit {digits : List Char} (digital : ∀ c ∈ digits, c.isDigit)
    (value : Nat) : Actuation.parseDigits value digits =
      some (Nat.ofDigitChars 10 digits value) := by
  induction digits generalizing value with
  | nil => rfl
  | cons c rest ih =>
    have first : c.isDigit = true := digital c (by simp)
    rw [Actuation.parseDigits, if_pos first, ih (fun c member => digital c (by simp [member]))]
    rfl

/-- What `FormatInt` writes, `ParseInt` reads back. -/
theorem parseInt64_toString {n : Nat} (small : n < 2 ^ 63) :
    parseInt64 (toString (n : Int)) = some (n : Int) := by
  have text : (toString (n : Int)).toList = Nat.toDigits 10 n := by
    change (toString n).toList = _
    simp [toString, Nat.repr]
  have digital : ∀ c ∈ Nat.toDigits 10 n, c.isDigit = true := fun c member =>
    Nat.isDigit_of_mem_toDigits (by decide) (by decide) member
  have value := parseDigits_of_isDigit digital 0
  rw [Nat.ofDigitChars_ten_toDigits] at value
  unfold parseInt64 Actuation.parseInt
  rw [text]
  cases shape : Nat.toDigits 10 n with
  | nil => exact absurd shape Nat.toDigits_ne_nil
  | cons c rest =>
    rw [shape] at digital value
    have first : c.isDigit = true := digital c (by simp)
    split
    · rename_i same
      cases same
      exact absurd first (by decide)
    · rename_i same
      cases same
      exact absurd first (by decide)
    · have parsed : Actuation.parseNat (c :: rest) = some n := value
      rw [parsed]
      simpa using small

variable {labels : StringMap} {ownerID : String} {duration : Int} {now : Reading}

theorem newGCPLabels_lookup (labels : StringMap) (key : String) :
    (newGCPLabelsFromK8sLabels labels).lookup key =
      if key = cnrmManagedKey then some "true"
      else if hasKRMPrefix key then none else labels.lookup key := by
  unfold newGCPLabelsFromK8sLabels
  split
  · rename_i managed
    rw [managed, Finmap.lookup_insert]
  · rename_i other
    rw [Finmap.lookup_insert_of_ne _ other, removeLabelsWithKRMPrefix,
      Finmap.keysLookupEquiv_symm_apply_lookup]

/-- The labels of a lease are written as they are. -/
theorem newGCPLabels_lease (labels : StringMap) {key : String} (lease : key ∈ leaseKeys) :
    (newGCPLabelsFromK8sLabels labels).lookup key = labels.lookup key := by
  have plain : ∀ key ∈ leaseKeys, key ≠ cnrmManagedKey ∧ hasKRMPrefix key = false := by decide
  obtain ⟨unmanaged, unprefixed⟩ := plain key lease
  rw [newGCPLabels_lookup, if_neg unmanaged, unprefixed]
  rfl

theorem getLease_written (labels : StringMap) :
    getLeaseHolderAndExpirationTime (some (newGCPLabelsFromK8sLabels labels)) =
      getLeaseHolderAndExpirationTime (some labels) := by
  have same : ∀ key ∈ leaseKeys, GoLabels.get (some (newGCPLabelsFromK8sLabels labels)) key =
      GoLabels.get (some labels) key := fun key lease => newGCPLabels_lease labels lease
  unfold getLeaseHolderAndExpirationTime
  rw [same leaseHolderKey (by decide), same leaseExpirationKey (by decide)]

/-- The labels after `setLeaseHolder`. -/
def leased (labels : StringMap) (ownerID : String) (duration : Int) (now : Reading) : StringMap :=
  (labels.insert leaseHolderKey ownerID).insert leaseExpirationKey
    (toString ((now.time + duration) / second))

theorem unix_of_small {sec : Int} (low : 0 ≤ sec)
    (high : sec < 2 ^ 62) : unix sec = sec * second := by
  have same : Int.bmod (sec + unixToInternal) (2 ^ 64) = sec + unixToInternal := by
    apply Int.bmod_eq_of_le
    · simp only [unixToInternal]
      omega
    · simp only [unixToInternal]
      omega
  rw [unix, same, Int.add_sub_cancel]

/-- All that a lease decision which succeeds can have done. -/
theorem softObtain_cases {labels left : GoLabels} {renewalMin : Int} {clock : Fin 3 → Reading}
    {renewed : Bool}
    (success : softObtain labels ownerID duration renewalMin clock = .ok (renewed, left)) :
    canObtainLease ownerID (getLeaseHolderAndExpirationTime labels).1
        (getLeaseHolderAndExpirationTime labels).2 (clock 0) ∧
      ((renewed = false ∧ left = labels ∧
          renewalMin ≤ sub (getLeaseHolderAndExpirationTime labels).2 (clock 1).time) ∨
        (renewed ∧ sub (getLeaseHolderAndExpirationTime labels).2 (clock 1).time < renewalMin ∧
          ∃ entries, labels = some entries ∧
            left = some (leased entries ownerID duration (clock 2)))) := by
  unfold softObtain at success
  dsimp only at success
  split at success
  · cases success
  rename_i obtainable
  refine ⟨by simpa using obtainable, ?_⟩
  split at success
  · rename_i fresh
    cases success
    exact Or.inl ⟨rfl, rfl, by simpa [shouldRenewOrObtainLease] using fresh⟩
  rename_i due
  obtain ⟨set, assigned, same⟩ := Fallible.bind_eq_ok.mp success
  cases same
  cases labels with
  | none => cases assigned
  | some entries =>
    cases assigned
    exact Or.inr ⟨rfl, by simpa [shouldRenewOrObtainLease] using due, entries, rfl, rfl⟩

/-- A lease that has just been taken is read back with its end cut to whole seconds. -/
theorem getLease_leased (low : 0 ≤ duration) (high : duration ≤ maxDuration) :
    getLeaseHolderAndExpirationTime (some (leased labels ownerID duration now)) =
      (ownerID, (now.time + duration) / second * second) := by
  have bounds := now.isLt
  have nonneg : 0 ≤ (now.time + duration) / second := by
    simp only [Reading.time, second]
    omega
  have small : (now.time + duration) / second < 2 ^ 62 := by
    simp only [Reading.time, second, maxDuration] at *
    omega
  obtain ⟨n, same⟩ := Int.eq_ofNat_of_zero_le nonneg
  have holder : GoLabels.get (some (leased labels ownerID duration now)) leaseHolderKey =
      some ownerID := by
    change Finmap.lookup leaseHolderKey _ = _
    rw [leased, Finmap.lookup_insert_of_ne _ (by decide), Finmap.lookup_insert]
  have expiration : GoLabels.get (some (leased labels ownerID duration now)) leaseExpirationKey =
      some (toString ((now.time + duration) / second)) := by
    change Finmap.lookup leaseExpirationKey _ = _
    rw [leased, Finmap.lookup_insert]
  have parsed : parseInt64 (toString ((now.time + duration) / second)) =
      some ((now.time + duration) / second) := by
    rw [same]
    exact parseInt64_toString (by omega)
  unfold getLeaseHolderAndExpirationTime
  rw [holder]
  rw [expiration]
  dsimp only
  rw [parsed]
  dsimp only
  rw [unix_of_small nonneg small]

/-- An expiration is always at a whole second. -/
theorem second_dvd_expiration (labels : GoLabels) :
    second ∣ (getLeaseHolderAndExpirationTime labels).2 := by
  unfold getLeaseHolderAndExpirationTime
  split
  · exact Int.dvd_zero _
  split
  · exact Int.dvd_zero _
  split
  · exact Int.dvd_zero _
  · exact Dvd.intro_left _ rfl

end Labels

end ConfigConnector.Lease
