import ConfigConnector.Krmtotf.Schema

/- The clusters of a BigtableInstance: krmtotf/overrides.go completes the desired clusters from the
live ones. A panic is `none`. -/
namespace ConfigConnector.Krmtotf

open K8s List

/-- `a == b` of two interfaces, which panics for two lists and for two maps. -/
def interfaceEqual : Value → Value → Option Bool
  | .list _, .list _ => none
  | .map _, .map _ => none
  | a, b => some (a.deepEqual b)

def clusterItemError (item : Value) : GoError :=
  .plain ("expected the item value of `cluster` field to be map[string]interface\x7b\x7d, " ++
    "but was actually " ++ item.typeName)

def getClusterByID (id : Value) : List Value → ExceptT GoError Option (Option Fields)
  | [] => pure none
  | .map c :: rest => do
    let same ← (interfaceEqual id (Value.get c "cluster_id") : Option Bool)
    if same then return some c
    getClusterByID id rest
  | item :: _ => throw (clusterItemError item)

/-- One step of `mergeClusterConfigWithLiveState`. -/
def mergeClusterField (state config : Fields) (f : String) : Fields :=
  if f = "cluster_id" then config
  else
    match config.lookup f, state.lookup f with
    | none, some v => Dict.set f v config
    | _, _ => config

def mergeClusterConfigWithLiveState (config state : Fields) (clusterSchema : SchemaMap) : Fields :=
  (clusterSchema.map (·.1)).foldl (mergeClusterField state) config

/-- `r.Schema["cluster"].Elem.(*tfschema.Resource)`. -/
def clusterSchema (r : SchemaMap) : Option SchemaMap :=
  match r.lookup "cluster" with
  | some (.mk _ (.resource fields)) => some fields
  | _ => none

/-- The body of the loop over the desired clusters. -/
def mergeCluster (clusters : List Value) (r : SchemaMap) (item : Value) :
    ExceptT GoError Option Value :=
  match item with
  | .map newCluster => do
    match ← getClusterByID (Value.get newCluster "cluster_id") clusters with
    | none => return item
    | some c =>
      let schema ← (clusterSchema r : Option SchemaMap)
      return .map (mergeClusterConfigWithLiveState newCluster c schema)
  | _ => throw (clusterItemError item)

def clustersError (owner : String) (raw : Value) : GoError :=
  .plain ("expected the value of `cluster` field in " ++ owner ++
    " to be []interface\x7b\x7d, but was actually " ++ raw.typeName)

/-- `MergeClusterConfigsFromLiveStateForBigtableInstance`. The second error prints the type of
the variable that the failed assertion has left. -/
def mergeClusterConfigsFromLiveState (config liveState : Fields) (r : SchemaMap) :
    ExceptT GoError Option Fields := do
  if liveState = [] ∨ config = [] then return config
  match liveState.lookup "cluster" with
  | none | some .null => return config
  | some (.list clusters) =>
    match config.lookup "cluster" with
    | none | some .null => return config
    | some (.list newClusters) =>
      let merged ← newClusters.mapM (mergeCluster clusters r)
      return Dict.set "cluster" (.list merged) config
    | some _ => throw (clustersError "state" (.list []))
  | some clustersRaw => throw (clustersError "config" clustersRaw)

theorem lookup_mergeClusterField (state config : Fields) (f key : String) :
    (mergeClusterField state config f).lookup key =
      (config.lookup key).or (if key = f ∧ f ≠ "cluster_id" then state.lookup key else none) := by
  unfold mergeClusterField
  by_cases isID : f = "cluster_id"
  · simp [isID]
  rw [if_neg isID]
  by_cases here : key = f
  · subst here
    cases held : config.lookup key <;> cases found : state.lookup key <;> simp [held, isID]
  · split <;> simp [here]

/-- The merge, field by field: what is set stays, what is missing comes from the state. -/
theorem lookup_merged (state : Fields) (clusterSchema : SchemaMap) (config : Fields)
    (key : String) :
    (mergeClusterConfigWithLiveState config state clusterSchema).lookup key =
      (config.lookup key).or (if key ∈ clusterSchema.map (·.1) ∧ key ≠ "cluster_id" then
        state.lookup key else none) := by
  unfold mergeClusterConfigWithLiveState
  induction clusterSchema.map (·.1) generalizing config with
  | nil => simp
  | cons f rest ih =>
    rw [foldl_cons, ih, lookup_mergeClusterField]
    by_cases here : key = f
    · subst here
      by_cases key = "cluster_id" <;> cases config.lookup key <;> cases state.lookup key <;>
        simp_all
    · simp [here]

/-- `cluster["cluster_id"]`. -/
def clusterID (cluster : Fields) : Value := Value.get cluster "cluster_id"

/-- An id that is compared by its value: no list, map or float. -/
def IsID : Value → Prop
  | .list _ | .map _ | .float _ => False
  | _ => True

theorem interfaceEqual_id {id : Value} (isID : IsID id) (other : Value) :
    ∃ same, interfaceEqual id other = some same ∧ (same = true ↔ id = other) := by
  refine ⟨id.deepEqual other, ?_, ?_⟩
  · cases id <;> first | exact isID.elim | rfl
  · cases id <;> first | exact isID.elim | cases other <;> simp [Value.deepEqual]

/-- The first live cluster with the id is found. -/
theorem getClusterByID_eq (live : List Fields) {id : Value} (isID : IsID id) :
    ∃ found, getClusterByID id (live.map .map) = pure found ∧
      (∀ c, found = some c → c ∈ live ∧ clusterID c = id) ∧
      (found = none → ∀ c ∈ live, clusterID c ≠ id) := by
  induction live with
  | nil => exact ⟨none, rfl, nofun, nofun⟩
  | cons c rest ih =>
    obtain ⟨same, compared, isSame⟩ := interfaceEqual_id isID (clusterID c)
    obtain ⟨found, done, held, missing⟩ := ih
    have step : getClusterByID id ((c :: rest).map .map) =
        (interfaceEqual id (clusterID c) : ExceptT GoError Option Bool) >>= fun same =>
          if same then pure (some c) else getClusterByID id (rest.map .map) := rfl
    rw [step, compared, done]
    cases same with
    | true =>
      refine ⟨some c, rfl, ?_, nofun⟩
      rintro _ ⟨⟩
      exact ⟨.head _, (isSame.mp rfl).symm⟩
    | false =>
      have differs : clusterID c ≠ id := fun equal => nomatch isSame.mpr equal.symm
      exact ⟨found, rfl, fun c isFound => (held c isFound).imp_left (.tail _),
        fun none => forall_mem_cons.mpr ⟨differs, missing none⟩⟩

/-- How a desired cluster comes out: with its id and all its fields, and with the fields of the
schema that it lacks taken from the live cluster with the same id. -/
structure Completes (schema : SchemaMap) (live : List Fields) (cluster out : Fields) : Prop where
  id : clusterID out = clusterID cluster
  kept : ∀ f v, cluster.lookup f = some v → out.lookup f = some v
  filled : ∀ f v, cluster.lookup f = none → (out.lookup f = some v ↔
    (f ∈ schema.map (·.1) ∧ f ≠ "cluster_id") ∧
      ∃ c ∈ live, clusterID c = clusterID cluster ∧ c.lookup f = some v)

section Clusters

variable {live : List Fields} {cluster : Fields} {r schema : SchemaMap}

section

variable (schemaOf : clusterSchema r = some schema) (distinct : (live.map clusterID).Nodup)
include schemaOf distinct

theorem mergeCluster_completes (isID : IsID (clusterID cluster)) :
    ∃ out, mergeCluster (live.map .map) r (.map cluster) = pure (.map out) ∧
      Completes schema live cluster out := by
  obtain ⟨found, done, held, missing⟩ := getClusterByID_eq live isID
  have step : mergeCluster (live.map .map) r (.map cluster) =
      getClusterByID (clusterID cluster) (live.map .map) >>= fun found =>
        match found with
        | none => pure (.map cluster)
        | some c => (clusterSchema r : ExceptT GoError Option SchemaMap) >>= fun schema =>
          pure (.map (mergeClusterConfigWithLiveState cluster c schema)) := rfl
  rw [step, done, schemaOf]
  cases found with
  | none =>
    refine ⟨cluster, rfl, rfl, fun _ _ held => held, fun f v absent => ?_⟩
    rw [absent]
    exact ⟨nofun, fun ⟨_, c, member, same, _⟩ => absurd same (missing rfl c member)⟩
  | some c =>
    obtain ⟨member, same⟩ := held c rfl
    refine ⟨mergeClusterConfigWithLiveState cluster c schema, rfl, ?_, ?_, ?_⟩
    · simp [clusterID, Value.get, lookup_merged]
    · intro f v held
      rw [lookup_merged, held, Option.some_or]
    · intro f v absent
      rw [lookup_merged, absent, Option.none_or]
      have unique : ∀ other ∈ live, clusterID other = clusterID cluster → other = c :=
        fun other inLive equal =>
          inj_on_of_nodup_map distinct inLive member (equal.trans same.symm)
      split <;> grind

theorem mergeClusters_complete {desired : List Fields}
    (ids : ∀ cluster ∈ desired, IsID (clusterID cluster)) :
    ∃ merged : List Fields, (desired.map Value.map).mapM (mergeCluster (live.map .map) r) =
      pure (merged.map .map) ∧ List.Forall₂ (Completes schema live) desired merged := by
  induction desired with
  | nil => exact ⟨[], rfl, .nil⟩
  | cons cluster rest ih =>
    obtain ⟨isID, others⟩ := forall_mem_cons.mp ids
    obtain ⟨out, done, completes⟩ := mergeCluster_completes schemaOf distinct isID
    obtain ⟨outs, rest_done, rest_complete⟩ := ih others
    refine ⟨out :: outs, ?_, .cons completes rest_complete⟩
    rw [map_cons, mapM_cons, done, rest_done]
    rfl

end

/-- The clusters that a config or a state holds. -/
def HoldsClusters (fields : Fields) (clusters : List Fields) : Prop :=
  fields.lookup "cluster" = some (.list (clusters.map .map)) ∨
    clusters = [] ∧ Value.get fields "cluster" = .null

theorem get_eq_null {fields : Fields} {key : String} (nil : Value.get fields key = .null) :
    fields.lookup key = none ∨ fields.lookup key = some .null := by
  rw [Value.get] at nil
  cases found : fields.lookup key with
  | none => exact .inl rfl
  | some value => exact .inr (by simpa [found] using nil)

/-- Without live clusters there is nothing to complete. -/
theorem completes_nil (schema : SchemaMap) (cluster : Fields) :
    Completes schema [] cluster cluster :=
  ⟨rfl, fun _ _ held => held, fun f v absent => by simp [absent]⟩

/-- The entries of two maps are the same. -/
def SameEntries (a b : Fields) : Prop := ∀ key, a.lookup key = b.lookup key

/-- How a cluster comes out does not depend on the order of the live clusters. -/
theorem Completes.unique {order : List Fields} {out out' : Fields}
    (one : Completes schema live cluster out) (perm : order.Perm live)
    (other : Completes schema order cluster out') : SameEntries out out' := by
  intro f
  cases held : cluster.lookup f with
  | some v => rw [one.kept f v held, other.kept f v held]
  | none =>
    apply Option.ext
    intro v
    rw [one.filled f v held, other.filled f v held]
    simp only [perm.mem_iff]

variable {config liveState : Fields} {desired : List Fields}
  (schemaOf : clusterSchema r = some schema) (desiredHeld : HoldsClusters config desired)
  (ids : ∀ cluster ∈ desired, IsID (clusterID cluster)) (distinct : (live.map clusterID).Nodup)
  (liveHeld : HoldsClusters liveState live)
include schemaOf desiredHeld ids distinct liveHeld

theorem mergeClusterConfigs_completes :
    ∃ result merged, mergeClusterConfigsFromLiveState config liveState r = pure result ∧
      HoldsClusters result merged ∧ List.Forall₂ (Completes schema live) desired merged ∧
        ∀ key, key ≠ "cluster" → result.lookup key = config.lookup key := by
  unfold mergeClusterConfigsFromLiveState
  rcases liveHeld with liveHeld | ⟨rfl, nil⟩
  · have someState : liveState ≠ [] := by rintro rfl; cases liveHeld
    rcases desiredHeld with desiredHeld | ⟨rfl, nil⟩
    · have someConfig : config ≠ [] := by rintro rfl; cases desiredHeld
      obtain ⟨merged, done, completes⟩ := mergeClusters_complete schemaOf distinct ids
      refine ⟨Dict.set "cluster" (.list (merged.map .map)) config, merged, ?_, .inl (by simp),
        completes, fun key other => by simp [other]⟩
      simp only [someConfig, someState, or_self, ↓reduceIte, liveHeld, desiredHeld, done, pure_bind]
    · refine ⟨config, [], ?_, .inr ⟨rfl, nil⟩, .nil, fun _ _ => rfl⟩
      rcases get_eq_null nil with found | found <;> simp [liveHeld, found]
  · refine ⟨config, desired, ?_, desiredHeld, ?_, fun _ _ => rfl⟩
    · rcases get_eq_null nil with found | found <;> simp [found]
    · exact List.forall₂_same.mpr fun cluster _ => completes_nil schema cluster

/-- The desired clusters come out completed, whatever the order of the live ones, and the rest of
the config stays as it is. -/
theorem clusters_completed :
    ∃ result merged, mergeClusterConfigsFromLiveState config liveState r = pure result ∧
      HoldsClusters result merged ∧ List.Forall₂ (Completes schema live) desired merged ∧
      (∀ key, key ≠ "cluster" → result.lookup key = config.lookup key) ∧
      ∀ order liveState', order.Perm live → HoldsClusters liveState' order →
        ∃ result' merged', mergeClusterConfigsFromLiveState config liveState' r = pure result' ∧
          HoldsClusters result' merged' ∧ List.Forall₂ SameEntries merged merged' := by
  obtain ⟨result, merged, done, holds, completes, others⟩ :=
    mergeClusterConfigs_completes schemaOf desiredHeld ids distinct liveHeld
  refine ⟨result, merged, done, holds, completes, others, fun order liveState' perm liveHeld' => ?_⟩
  obtain ⟨result', merged', done', holds', completes', -⟩ := mergeClusterConfigs_completes schemaOf
    desiredHeld ids ((perm.map clusterID).nodup_iff.mpr distinct) liveHeld'
  refine ⟨result', merged', done', holds', ?_⟩
  clear done holds done' holds' others desiredHeld ids
  induction completes generalizing merged' with
  | nil =>
    cases completes'
    exact .nil
  | cons here _ ih =>
    cases completes' with
    | cons here' rest' => exact .cons (here.unique perm here') (ih _ rest')

end Clusters

def clusterFields : SchemaMap :=
  [("cluster_id", .mk { type := .string } .none), ("num_nodes", .mk { type := .int } .none)]

def bigtableSchema : SchemaMap := [("cluster", .mk { type := .list } (.resource clusterFields))]

def liveClusters : List Fields :=
  [[("cluster_id", .string "b")], [("cluster_id", .string "a"), ("num_nodes", .int 3)]]

/-- The number of nodes of cluster a is not set, and known from the second live cluster. -/
theorem nodes_completed :
    ∃ result merged, mergeClusterConfigsFromLiveState
        [("cluster", .list [.map [("cluster_id", .string "a")]])]
        [("cluster", .list (liveClusters.map .map))] bigtableSchema = pure result ∧
      HoldsClusters result merged ∧
      List.Forall₂ (Completes clusterFields liveClusters) [[("cluster_id", .string "a")]]
        merged := by
  have live : HoldsClusters [("cluster", .list (liveClusters.map .map))] liveClusters := .inl rfl
  have desired : HoldsClusters [("cluster", .list [.map [("cluster_id", .string "a")]])]
      [[("cluster_id", .string "a")]] := .inl rfl
  obtain ⟨result, merged, done, holds, completes, -⟩ := clusters_completed
    (rfl : clusterSchema bigtableSchema = some clusterFields) desired
    (by simp [IsID, clusterID, Value.get_cons]) (by simp [liveClusters, clusterID, Value.get_cons])
    live
  exact ⟨result, merged, done, holds, completes⟩

end ConfigConnector.Krmtotf
