/-
The live search universe: a token graph, its liquidity sidecar and the index of
active pool instances, kept in step with immutable AMM snapshots.  A call that
fails returns the state it was given; `none` is a panic of a graph operation on
a working copy.
-/
import AmmSearch.AmmGraph
import AmmSearch.LiquidityTracking

open FiniteMap StableGraph

namespace AmmSearch

/-- The registry part of a snapshot: the registered pools, the active instance
of each logical pool, and the registrations by instance. -/
structure AmmRegistryView where
  registry : AdapterRegistry
  pools : List (PoolKey × PoolInstanceId)
  pool : PoolInstanceId → Option PoolRegistration
  nodup_pools : (pools.map Prod.fst).Nodup

def AmmRegistryView.poolInstance (view : AmmRegistryView) (key : PoolKey) :
    Option PoolInstanceId :=
  (view.pools.find? fun entry => entry.1 = key).map Prod.snd

/-- An immutable published AMM state. -/
structure AmmStateSnapshot where
  runtimeId : ℕ
  version : ℕ
  point : AmmStatePoint
  registry : AmmRegistryView
  poolRevision : PoolInstanceId → Option ℕ
  storageValue : Address → U256 → Option U256

structure AmmChangeSet where
  version : ℕ
  point : AmmStatePoint
  poolChanges : List PoolInstanceId
  requiresFullRefresh : Bool

structure AmmStateCommit where
  snapshot : AmmStateSnapshot
  changes : AmmChangeSet

/-- One active pool represented in the live search universe. -/
structure IndexedPool where
  instanceId : PoolInstanceId
  revision : ℕ
  tokens : List Address
deriving DecidableEq

/-- Search-universe consequence of one AMM state commit. -/
inductive GraphTopologyImpact
  | unchanged
  | identityChanged
  | localized
  | fullReconciliation
deriving DecidableEq

def GraphTopologyImpact.rank : GraphTopologyImpact → ℕ
  | unchanged => 0
  | identityChanged => 1
  | localized => 2
  | fullReconciliation => 3

/-- `Ord::max` in the derived order. -/
def GraphTopologyImpact.max (left right : GraphTopologyImpact) : GraphTopologyImpact :=
  if left.rank ≤ right.rank then right else left

structure GraphPoolDelta where
  pool : PoolKey
  before : Option IndexedPool
  after : Option IndexedPool
deriving DecidableEq

/-- Canonical delta emitted after applying one AMM state commit. -/
structure GraphDelta where
  sourceStateVersion : ℕ
  sourcePoint : AmmStatePoint
  fromGraphVersion : GraphVersion
  toGraphVersion : GraphVersion
  impact : GraphTopologyImpact
  poolChanges : List GraphPoolDelta
  liquidity : PoolLiquidityMutationReport

/-- Rejected live graph transition. -/
inductive LiveGraphError
  | nonContiguousStateVersion (expected actual : ℕ)
  | commitVersionMismatch
  | runtimeMismatch (expected actual : ℕ)
  | staleSnapshot (current actual : ℕ)
  | snapshotStateMismatch (expectedVersion : ℕ) (expectedPoint : AmmStatePoint)
      (actualVersion : ℕ) (actualPoint : AmmStatePoint)
  | missingPoolRevision (pool : PoolInstanceId)
  | missingPoolRegistration (pool : PoolInstanceId)
  | graphVersionExhausted
deriving DecidableEq

/-- Incrementally maintained search universe. -/
structure LiveAmmGraph (G : Type) where
  graph : AmmGraph G
  runtimeId : ℕ
  stateVersion : ℕ
  point : AmmStatePoint
  options : GraphBuildOptions
  liquidityScope : LiquidityIndexScope
  liquidity : PoolLiquidityIndex
  indexed : Map PoolKey IndexedPool

/-- The search representation of one pool instance. -/
def indexedPool (snapshot : AmmStateSnapshot) (instanceId : PoolInstanceId)
    (options : GraphBuildOptions) : Except LiveGraphError (Option IndexedPool) :=
  match snapshot.registry.pool instanceId with
  | none => .error (.missingPoolRegistration instanceId)
  | some registration =>
      if isIndexableStatus registration.status options then
        match tokensForPool registration with
        | .error _ => .ok none
        | .ok tokens =>
            match snapshot.poolRevision instanceId with
            | none => .error (.missingPoolRevision instanceId)
            | some revision => .ok (some ⟨instanceId, revision, tokens⟩)
      else .ok none

/-- The loop of `indexed_from_snapshot`; its body makes the checks of
`indexed_pool`. -/
def indexPools (snapshot : AmmStateSnapshot) (options : GraphBuildOptions) :
    List (PoolKey × PoolInstanceId) → Map PoolKey IndexedPool →
      Except LiveGraphError (Map PoolKey IndexedPool)
  | [], indexed => .ok indexed
  | (key, instanceId) :: rest, indexed =>
      match indexedPool snapshot instanceId options with
      | .error error => .error error
      | .ok none => indexPools snapshot options rest indexed
      | .ok (some pool) => indexPools snapshot options rest (indexed.insert key pool)

def indexedFromSnapshot (snapshot : AmmStateSnapshot) (options : GraphBuildOptions) :
    Except LiveGraphError (Map PoolKey IndexedPool) :=
  indexPools snapshot options snapshot.registry.pools ∅

/-- The pool is gone, or has another instance or other tokens. -/
def semanticPoolChanged (next : Option IndexedPool) (pool : IndexedPool) : Bool :=
  match next with
  | none => true
  | some next => pool.instanceId ≠ next.instanceId ∨ pool.tokens ≠ next.tokens

def semanticIndexChanged (before after : Map PoolKey IndexedPool) : Bool :=
  (∃ key ∈ before.keys,
    (before.lookup key).any (semanticPoolChanged (after.lookup key)) = true) ∨
  ∃ key ∈ after.keys, key ∉ before.keys

def applyIndexDelta (indexed : Map PoolKey IndexedPool) (delta : GraphPoolDelta) :
    Map PoolKey IndexedPool :=
  match delta.after with
  | some after => indexed.insert delta.pool after
  | none => indexed.erase delta.pool

def applyIndexDeltas (indexed : Map PoolKey IndexedPool) (deltas : List GraphPoolDelta) :
    Map PoolKey IndexedPool :=
  deltas.foldl applyIndexDelta indexed

/-- The search representation of one logical pool in a snapshot. -/
def activePool (snapshot : AmmStateSnapshot) (options : GraphBuildOptions)
    (key : PoolKey) : Except LiveGraphError (Option IndexedPool) :=
  match snapshot.registry.poolInstance key with
  | none => .ok none
  | some instanceId => indexedPool snapshot instanceId options

/-- The impact of one changed pool. -/
def poolImpact (before after : Option IndexedPool) : GraphTopologyImpact :=
  match before, after with
  | some previous, some next =>
      if previous.tokens = next.tokens then
        if previous.instanceId = next.instanceId then .unchanged else .identityChanged
      else .localized
  | none, none => .unchanged
  | _, _ => .localized

/-- One changed pool, listed when its representation differs. -/
def poolDeltas (key : PoolKey) (before after : Option IndexedPool) : List GraphPoolDelta :=
  if before ≠ after then [⟨key, before, after⟩] else []

/-- The loop over the changed keys of a commit. -/
def collectDeltas (indexed : Map PoolKey IndexedPool) (snapshot : AmmStateSnapshot)
    (options : GraphBuildOptions) :
    List PoolKey → GraphTopologyImpact → List GraphPoolDelta →
      Except LiveGraphError (GraphTopologyImpact × List GraphPoolDelta)
  | [], impact, deltas => .ok (impact, deltas)
  | key :: rest, impact, deltas =>
      let before := indexed.lookup key
      match activePool snapshot options key with
      | .error error => .error error
      | .ok after =>
          collectDeltas indexed snapshot options rest (impact.max (poolImpact before after))
            (deltas ++ poolDeltas key before after)

section Graph

variable {G : Type} [StableDiGraph G Address EdgeData]

def liquidityAffectedPools (before after : AmmGraph G) (scope : LiquidityIndexScope)
    (directlyChanged : List PoolKey) : Finset PoolKey :=
  let affected := directlyChanged.toFinset
  if scope = .parallelEdgeOutputs then
    (ascending affected).foldl (fun affected key =>
      affected ∪ before.parallelNeighbors key ∪ after.parallelNeighbors key) affected
  else affected

/-- Apply the pool deltas of a commit to a working copy of the graph. -/
def applyPoolDeltas (snapshot : AmmStateSnapshot) (options : GraphBuildOptions) :
    List GraphPoolDelta → AmmGraph G → Option (Except LiveGraphError (AmmGraph G))
  | [], g => some (.ok g)
  | delta :: rest, g =>
      match delta.after with
      | some indexed =>
          match snapshot.registry.pool indexed.instanceId with
          | none => some (.error (.missingPoolRegistration indexed.instanceId))
          | some registration =>
              (g.applyPool registration options).bind fun applied =>
                applyPoolDeltas snapshot options rest applied.2
      | none =>
          (g.removePoolCompacting delta.pool).bind fun removed =>
            applyPoolDeltas snapshot options rest removed.2

namespace LiveAmmGraph

/-- Build with an explicit incremental liquidity-target scope; the lineage is
the fresh one that the build draws. -/
def fromSnapshotWithLiquidityScope (lineage : ℕ) (snapshot : AmmStateSnapshot)
    (options : GraphBuildOptions) (liquidityScope : LiquidityIndexScope) :
    Except LiveGraphError (LiveAmmGraph G) :=
  let graph : AmmGraph G :=
    (AmmGraph.fromRegistry lineage snapshot.registry.registry options).graph
  let liquidity :=
    (PoolLiquidityIndex.fromRegistryWithScope snapshot.registry.registry graph
      liquidityScope).1
  match indexedFromSnapshot snapshot options with
  | .error error => .error error
  | .ok indexed =>
      .ok ⟨graph, snapshot.runtimeId, snapshot.version, snapshot.point, options,
        liquidityScope, liquidity, indexed⟩

/-- Build the initial live graph from one coherent AMM snapshot. -/
def fromSnapshot (lineage : ℕ) (snapshot : AmmStateSnapshot) (options : GraphBuildOptions) :
    Except LiveGraphError (LiveAmmGraph G) :=
  fromSnapshotWithLiquidityScope lineage snapshot options .parallelEdgeOutputs

/-- The runtime a snapshot must come from, `none` when it does. -/
def validateRuntime (live : LiveAmmGraph G) (snapshot : AmmStateSnapshot) :
    Option LiveGraphError :=
  if snapshot.runtimeId ≠ live.runtimeId then
    some (.runtimeMismatch live.runtimeId snapshot.runtimeId)
  else none

def validateSnapshot (live : LiveAmmGraph G) (snapshot : AmmStateSnapshot) :
    Option LiveGraphError :=
  match live.validateRuntime snapshot with
  | some error => some error
  | none =>
      if snapshot.version ≠ live.stateVersion ∨ snapshot.point ≠ live.point then
        some (.snapshotStateMismatch live.stateVersion live.point snapshot.version
          snapshot.point)
      else none

def matchesSnapshot (live : LiveAmmGraph G) (snapshot : AmmStateSnapshot) : Bool :=
  live.runtimeId = snapshot.runtimeId ∧ live.stateVersion = snapshot.version ∧
    live.point = snapshot.point

/-- The changes of a complete replacement of the index. -/
def replacedPools (live : LiveAmmGraph G) (nextIndexed : Map PoolKey IndexedPool) :
    List GraphPoolDelta :=
  (ascending (live.indexed.keys ∪ nextIndexed.keys)).flatMap fun key =>
    poolDeltas key (live.indexed.lookup key) (nextIndexed.lookup key)

/-- The version of a replaced graph. -/
def replacedVersion (live : LiveAmmGraph G) (topologyChanged : Bool) :
    Option GraphVersion :=
  if topologyChanged then live.graph.version.checkedNext else some live.graph.version

def replaceFromSnapshot (live : LiveAmmGraph G) (lineage : ℕ) (snapshot : AmmStateSnapshot)
    (nextIndexed : Map PoolKey IndexedPool) (requestedImpact : GraphTopologyImpact) :
    Except LiveGraphError GraphDelta × LiveAmmGraph G :=
  let built : AmmGraph G :=
    (AmmGraph.fromRegistry lineage snapshot.registry.registry live.options).graph
  let poolChanges := live.replacedPools nextIndexed
  let topologyChanged := semanticIndexChanged live.indexed nextIndexed
  match live.replacedVersion topologyChanged with
  | none => (.error .graphVersionExhausted, live)
  | some toGraphVersion =>
      let nextGraph := { built with version := toGraphVersion }
      let reconciled := live.liquidity.reconcilePools snapshot.registry.registry nextGraph
        live.liquidityScope
        (liquidityAffectedPools live.graph nextGraph live.liquidityScope
          (poolChanges.map GraphPoolDelta.pool))
      (.ok
        { sourceStateVersion := snapshot.version
          sourcePoint := snapshot.point
          fromGraphVersion := live.graph.version
          toGraphVersion := toGraphVersion
          impact := if topologyChanged then requestedImpact else .unchanged
          poolChanges := poolChanges
          liquidity := reconciled.2 },
        { live with
          graph := nextGraph
          liquidity := reconciled.1
          indexed := nextIndexed
          stateVersion := snapshot.version
          point := snapshot.point })

/-- Reconcile against a newer snapshot when a reliable consumer recovers. -/
def reconcileSnapshot (live : LiveAmmGraph G) (lineage : ℕ) (snapshot : AmmStateSnapshot) :
    Except LiveGraphError GraphDelta × LiveAmmGraph G :=
  match live.validateRuntime snapshot with
  | some error => (.error error, live)
  | none =>
      if snapshot.version ≤ live.stateVersion then
        (.error (.staleSnapshot live.stateVersion snapshot.version), live)
      else
        match indexedFromSnapshot snapshot live.options with
        | .error error => (.error error, live)
        | .ok nextIndexed =>
            live.replaceFromSnapshot lineage snapshot nextIndexed .fullReconciliation

/-- The keys named by a change set, in the order of a set. -/
def changedKeys (changes : AmmChangeSet) : List PoolKey :=
  ascending (changes.poolChanges.map PoolInstanceId.key).toFinset

/-- A commit that changes quote state only. -/
def applyUnchanged (live : LiveAmmGraph G) (snapshot : AmmStateSnapshot)
    (impact : GraphTopologyImpact) (poolDeltas : List GraphPoolDelta) :
    Except LiveGraphError GraphDelta × LiveAmmGraph G :=
  (.ok
    { sourceStateVersion := snapshot.version
      sourcePoint := snapshot.point
      fromGraphVersion := live.graph.version
      toGraphVersion := live.graph.version
      impact := impact
      poolChanges := poolDeltas
      liquidity := {} },
    { live with
      indexed := applyIndexDeltas live.indexed poolDeltas
      stateVersion := snapshot.version
      point := snapshot.point })

/-- A commit that changes pools or their instances. -/
def applyChanged (live : LiveAmmGraph G) (snapshot : AmmStateSnapshot)
    (impact : GraphTopologyImpact) (poolDeltas : List GraphPoolDelta) :
    Option (Except LiveGraphError GraphDelta × LiveAmmGraph G) :=
  match applyPoolDeltas snapshot live.options poolDeltas live.graph with
  | none => none
  | some (.error error) => some (.error error, live)
  | some (.ok applied) =>
      match live.graph.version.checkedNext with
      | none => some (.error .graphVersionExhausted, live)
      | some toGraphVersion =>
          let nextGraph := { applied with version := toGraphVersion }
          let reconciled := live.liquidity.reconcilePools snapshot.registry.registry
            nextGraph live.liquidityScope
            (liquidityAffectedPools live.graph nextGraph live.liquidityScope
              (poolDeltas.map GraphPoolDelta.pool))
          some (.ok
            { sourceStateVersion := snapshot.version
              sourcePoint := snapshot.point
              fromGraphVersion := live.graph.version
              toGraphVersion := toGraphVersion
              impact := impact
              poolChanges := poolDeltas
              liquidity := reconciled.2 },
            { live with
              graph := nextGraph
              liquidity := reconciled.1
              indexed := applyIndexDeltas live.indexed poolDeltas
              stateVersion := snapshot.version
              point := snapshot.point })

def applySnapshotChanges (live : LiveAmmGraph G) (lineage : ℕ) (snapshot : AmmStateSnapshot)
    (changes : AmmChangeSet) : Option (Except LiveGraphError GraphDelta × LiveAmmGraph G) :=
  if changes.requiresFullRefresh then some (live.reconcileSnapshot lineage snapshot)
  else
    match collectDeltas live.indexed snapshot live.options (changedKeys changes)
        .unchanged [] with
    | .error error => some (.error error, live)
    | .ok (impact, poolDeltas) =>
        if impact = .unchanged then some (live.applyUnchanged snapshot impact poolDeltas)
        else live.applyChanged snapshot impact poolDeltas

/-- Apply one contiguous reliable state commit atomically. -/
def applyCommit (live : LiveAmmGraph G) (lineage : ℕ) (commit : AmmStateCommit) :
    Option (Except LiveGraphError GraphDelta × LiveAmmGraph G) :=
  match live.validateRuntime commit.snapshot with
  | some error => some (.error error, live)
  | none =>
      if commit.snapshot.version ≠ commit.changes.version ∨
          commit.snapshot.point ≠ commit.changes.point then
        some (.error .commitVersionMismatch, live)
      else
        match AmmSearch.checkedNext live.stateVersion with
        | none =>
            some (.error (.nonContiguousStateVersion live.stateVersion
              commit.snapshot.version), live)
        | some expected =>
            if commit.snapshot.version ≠ expected then
              some (.error (.nonContiguousStateVersion expected commit.snapshot.version),
                live)
            else live.applySnapshotChanges lineage commit.snapshot commit.changes

/-- Seed a discovered ERC-20 balance slot. -/
def setErc20LiquiditySlot (live : LiveAmmGraph G) (token holder : Address) (slot : U256) :
    ℕ × LiveAmmGraph G :=
  let set := live.liquidity.setErc20BalanceSlot token holder slot
  (set.1, { live with liquidity := set.2 })

/-- Mark one already-tracked pool/token balance stale. -/
def markLiquidityStale (live : LiveAmmGraph G) (pool : PoolKey) (token : Address) :
    Except PoolLiquidityError Unit × LiveAmmGraph G :=
  match live.liquidity.markStale pool token with
  | .error error => (.error error, live)
  | .ok liquidity => (.ok (), { live with liquidity := liquidity })

/-- Refresh known liquidity slots from the exact immutable live snapshot. -/
def refreshLiquidityFromSnapshot (live : LiveAmmGraph G) (snapshot : AmmStateSnapshot) :
    Except LiveGraphError PoolLiquidityRefreshReport × LiveAmmGraph G :=
  match live.validateSnapshot snapshot with
  | some error => (.error error, live)
  | none =>
      let refreshed := live.liquidity.refreshFromSnapshot snapshot.storageValue
      (.ok refreshed.2, { live with liquidity := refreshed.1 })

end LiveAmmGraph

end Graph

end AmmSearch
