import ConfigConnector.K8s.Object
import ConfigConnector.Lib.Machine
import ConfigConnector.Lib.Retry
import ConfigConnector.Lib.Versioned

/- The ids of namespaces, as cluster/installation_identifier.go keeps them: in one config map
for all namespaces, which is read and written back as a whole. -/
namespace ConfigConnector.Cluster

open Interact K8s

/-- The errors of the API server that are told apart, and such an error under a text. -/
inductive ApiError where
  | alreadyExists (message : String)
  | conflict (message : String)
  | other (message : String)
  | wrap (text : String) (cause : ApiError)
  deriving DecidableEq, Repr

namespace ApiError

def isAlreadyExists : ApiError → Bool
  | alreadyExists _ => true
  | conflict _ | other _ => false
  | wrap _ cause => cause.isAlreadyExists

def isConflict : ApiError → Bool
  | conflict _ => true
  | alreadyExists _ | other _ => false
  | wrap _ cause => cause.isConflict

end ApiError

/-- A `corev1.ConfigMap` in memory. The data may be a nil map. -/
structure ConfigMap where
  resourceVersion : Nat
  data : Option StringMap

namespace ConfigMap

/-- What the map has for a key; a nil map has nothing. -/
def lookup (configMap : ConfigMap) (key : String) : Option String :=
  configMap.data.bind (·.lookup key)

/-- The entries that are sent to the API server. -/
def entries (configMap : ConfigMap) : StringMap := configMap.data.getD ∅

/-- A version of the config map as the client decodes it: no entries are a nil map. -/
def ofEntry (e : Versioned.Entry StringMap) : ConfigMap where
  resourceVersion := e.version
  data := if e.value = ∅ then none else some e.value

theorem lookup_eq (configMap : ConfigMap) (key : String) :
    configMap.lookup key = configMap.entries.lookup key := by
  obtain ⟨version, data⟩ := configMap
  cases data with
  | none | some _ => rfl

@[simp] theorem entries_ofEntry (e : Versioned.Entry StringMap) :
    (ofEntry e).entries = e.value := by
  unfold ofEntry entries
  split
  · rename_i empty
    exact empty.symm
  · rfl

end ConfigMap

inductive Op where
  | create
  | get
  | update (configMap : ConfigMap)
  | generateID
  /-- How often `backoff.Retry` tries again before it gives up. -/
  | retries
  /-- `GetNamespaceID` has returned an id without an error. -/
  | returned (ns id : String)

def Op.Answer : Op → Type
  | .create => Except ApiError ConfigMap
  | .get => Except ApiError ConfigMap
  | .update _ => Except ApiError ConfigMap
  | .generateID => String
  | .retries => Nat
  | .returned _ _ => Unit

abbrev S : Signature where
  Op := Op
  Ans := Op.Answer

section Functions

-- The namespaced name of the config map, as the errors print it.
variable (nn : String)

def createOrGetNamespaceIDConfigMap : Prog S (Except ApiError ConfigMap) := do
  let created : Except ApiError ConfigMap ← Prog.perform (S := S) .create
  match created with
  | .ok configMap => return .ok configMap
  | .error err =>
    if !err.isAlreadyExists then
      return .error (.wrap ("error creating configmap '" ++ nn ++ "'") err)
    else
      let read : Except ApiError ConfigMap ← Prog.perform (S := S) .get
      match read with
      | .error err => return .error (.wrap ("error getting configmap '" ++ nn ++ "'") err)
      | .ok configMap => return .ok configMap

/-- A conflict is tried again, any other error of the update is permanent. -/
def writeBack (doing : String) (configMap : ConfigMap) : Prog S (Try ApiError ConfigMap) := do
  let updated : Except ApiError ConfigMap ← Prog.perform (S := S) (.update configMap)
  match updated with
  | .ok saved => return .done saved
  | .error err =>
    if err.isConflict then return .again err
    else return .permanent (.wrap ("error " ++ doing ++ " config map '" ++ nn ++ "'") err)

def newID : Option String → Prog S String
  | none => Prog.perform (S := S) .generateID
  | some idToSet => return idToSet

/-- One try of `getOrSetNamespaceID`. -/
def getOrUpdateConfigMap (ns : String) (idToSet : Option String) :
    Prog S (Try ApiError ConfigMap) := do
  match ← createOrGetNamespaceIDConfigMap nn with
  | .error err => return .permanent err
  | .ok configMap =>
    if (configMap.lookup ns).isSome && idToSet.isNone then return .done configMap
    else
      let id ← newID idToSet
      writeBack nn "updating" { configMap with data := some (configMap.entries.insert ns id) }

def getOrSetNamespaceID (ns : String) (idToSet : Option String) :
    Prog S (Except ApiError String) := do
  let retries : Nat ← Prog.perform (S := S) .retries
  let configMap ← (getOrUpdateConfigMap nn ns idToSet).retry retries
  return configMap.map fun configMap => (configMap.lookup ns).getD ""

def getNamespaceID (ns : String) : Prog S (Except ApiError String) :=
  getOrSetNamespaceID nn ns none

def setNamespaceID (ns uniqueID : String) : Prog S (Except ApiError Unit) := do
  let id ← getOrSetNamespaceID nn ns (some uniqueID)
  return id.map fun _ => ()

/-- One try of `DeleteNamespaceID`. -/
def deleteFromConfigMap (ns : String) : Prog S (Try ApiError Unit) := do
  match ← createOrGetNamespaceIDConfigMap nn with
  | .error err => return .permanent err
  | .ok configMap =>
    match configMap.data with
    | none => return .done ()
    | some data =>
      match ← writeBack nn "deleting namespace id from"
        { configMap with data := some (data.erase ns) } with
      | .done _ => return .done ()
      | .again err => return .again err
      | .permanent err => return .permanent err

def deleteNamespaceID (ns : String) : Prog S (Except ApiError Unit) := do
  let retries : Nat ← Prog.perform (S := S) .retries
  (deleteFromConfigMap nn ns).retry retries

end Functions

section Processes

/-- One call of a process. -/
inductive Job where
  | get (ns : String)
  | set (ns uniqueID : String)
  | delete (ns : String)
  deriving DecidableEq

def Job.ns : Job → String
  | get ns | set ns _ | delete ns => ns

def Job.run (nn : String) : Job → Prog S Unit
  | get ns => do
    match ← getNamespaceID nn ns with
    | .error _ => return ()
    | .ok id => Prog.perform (S := S) (.returned ns id)
  | set ns uniqueID => do
    let _ ← setNamespaceID nn ns uniqueID
    return ()
  | delete ns => do
    let _ ← deleteNamespaceID nn ns
    return ()

/-- The config map with all its versions, what has been returned by `GetNamespaceID` so far, as
namespaces and ids, and the jobs that have made a call. -/
structure State where
  store : Versioned.Store StringMap
  returned : List (String × String)
  ran : List Job

/-- What a namespace has in the latest version. -/
def State.stored (s : State) (ns : String) : Option String :=
  s.store.current.bind (·.value.lookup ns)

/-- How a write can end: done, done with the answer lost, or not done. -/
inductive WriteOutcome (s : State) (effect : Option (Versioned.Store StringMap ×
    Versioned.Entry StringMap)) : Except ApiError ConfigMap → State → Prop where
  | done (store : Versioned.Store StringMap) (saved : Versioned.Entry StringMap)
      (applied : effect = some (store, saved)) :
      WriteOutcome s effect (.ok (.ofEntry saved)) { s with store }
  | lost (store : Versioned.Store StringMap) (saved : Versioned.Entry StringMap) (err : ApiError)
      (applied : effect = some (store, saved)) : WriteOutcome s effect (.error err) { s with store }
  | refused (err : ApiError) : WriteOutcome s effect (.error err) s

/-- A read is given any version there has been, or fails. -/
inductive ReadOutcome (s : State) : Except ApiError ConfigMap → Prop where
  | found (e : Versioned.Entry StringMap) (member : e ∈ s.store.history) :
      ReadOutcome s (.ok (.ofEntry e))
  | failed (err : ApiError) : ReadOutcome s (.error err)

/-- What a call can be answered with, and what it leaves. -/
def answers (s : State) : (op : Op) → op.Answer → State → Prop
  | .create, answer, after => WriteOutcome s (s.store.create ∅) answer after
  | .get, answer, after => after = s ∧ ReadOutcome s answer
  | .update configMap, answer, after =>
    WriteOutcome s (s.store.update configMap.resourceVersion configMap.entries) answer after
  | .generateID, _, after => after = s
  | .retries, _, after => after = s
  | .returned ns id, _, after => after = { s with returned := (ns, id) :: s.returned }

/-- Any number of processes, each with its job, which it may do again and again. -/
def machine {P : Type} (nn : String) (job : P → Job) : Machine S where
  State := State
  Party := P
  program := fun p => (job p).run nn
  answers := fun p s op answer after =>
    ∃ left, answers s op answer left ∧ after = { left with ran := job p :: left.ran }
  drift := Eq

end Processes

end ConfigConnector.Cluster
