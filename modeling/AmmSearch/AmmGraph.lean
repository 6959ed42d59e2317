/-
The token graph over AMM pool edges: a stable directed multigraph of token
nodes together with the indexes kept beside it (token to node, pool to edges,
pool to tokens, token pair to pools, and the cached outgoing edges that the
search loops read).
-/
import AmmSearch.Primitives
import AmmSearch.StableGraph

open FiniteMap StableGraph

namespace AmmSearch

/-- Monotonic identity of one token-graph topology. -/
structure GraphVersion where
  lineage : ℕ
  revision : ℕ
deriving DecidableEq

namespace GraphVersion

/-- The initial version of a full build in a fresh lineage. -/
def initial (lineage : ℕ) : GraphVersion := ⟨lineage, 0⟩

/-- The next revision of the lineage.  The callers that unwrap it panic on
`none`, so a graph operation that does is an `Option` here. -/
def checkedNext (version : GraphVersion) : Option GraphVersion :=
  (AmmSearch.checkedNext version.revision).map fun revision =>
    { version with revision := revision }

end GraphVersion

/-- Data carried by each directed AMM edge. -/
structure EdgeData where
  pool : PoolKey
deriving DecidableEq

/-- Cached directed edge view used by the search loops. -/
structure CachedOutgoingEdge where
  target : NodeIndex
  tokenIn : Address
  tokenOut : Address
  pool : PoolKey
deriving DecidableEq

structure GraphBuildOptions where
  includeDegraded : Bool := false
deriving DecidableEq

/-- Reason a pool was not indexed into the graph. -/
inductive SkippedPoolReason
  | status (status : PoolStatus)
  | missingMetadata (field : Text)
  | unsupportedMetadata
  | tooFewTokens (count : ℕ)
deriving DecidableEq

structure SkippedPool where
  pool : PoolKey
  reason : SkippedPoolReason
deriving DecidableEq

/-- Observable result of applying one pool registration. -/
inductive GraphPoolMutation
  | unchanged
  | added (directedEdges : ℕ)
  | updated (removedEdges addedEdges : ℕ)
  | removed (directedEdges : ℕ)
  | skipped (reason : SkippedPoolReason)
deriving DecidableEq

def GraphPoolMutation.topologyChanged : GraphPoolMutation → Bool
  | added _ | updated _ _ | removed _ => true
  | unchanged | skipped _ => false

def isIndexableStatus (status : PoolStatus) (options : GraphBuildOptions) :
    Bool :=
  status = .ready ∨ (options.includeDegraded ∧ status = .degraded)

def pairTokens (token0 token1 : Option Address) (field : Text) :
    Except SkippedPoolReason (List Address) :=
  match token0, token1 with
  | some token0, some token1 => .ok [token0, token1]
  | _, _ => .error (.missingMetadata field)

/-- `sort_unstable` followed by `dedup`. -/
def sortDedup (tokens : List Address) : List Address :=
  (tokens.insertionSort (· ≤ ·)).destutter (· ≠ ·)

def normalizeTokens (tokens : List Address) :
    Except SkippedPoolReason (List Address) :=
  let tokens := sortDedup tokens
  if tokens.length < 2 then .error (.tooFewTokens tokens.length)
  else .ok tokens

/-- The token list a registration declares in its metadata. -/
def metadataTokens :
    ProtocolMetadata → Except SkippedPoolReason (List Address)
  | .uniswapV2 metadata =>
      pairTokens metadata.token0 metadata.token1
        "Uniswap V2 token0/token1".toList
  | .uniswapV3 metadata | .pancakeV3 metadata | .slipstream metadata =>
      pairTokens metadata.token0 metadata.token1
        "V3-family token0/token1".toList
  | .solidlyV2 metadata =>
      pairTokens metadata.token0 metadata.token1
        "Solidly V2 token0/token1".toList
  | .balancerV2 metadata => .ok metadata.tokens
  | .curve metadata => .ok metadata.coins
  | .unknown | .custom _ => .error .unsupportedMetadata

def tokensForPool (pool : PoolRegistration) :
    Except SkippedPoolReason (List Address) :=
  metadataTokens pool.metadata >>= normalizeTokens

/-- The tokens a registration is indexed under, or why it is not. -/
def indexedTokens (registration : PoolRegistration)
    (options : GraphBuildOptions) : Except SkippedPoolReason (List Address) :=
  if isIndexableStatus registration.status options then
    tokensForPool registration
  else .error (.status registration.status)

def directedEdgeCount (tokens : ℕ) : ℕ := tokens * (tokens - 1)

/-- The unordered token pairs in list order. -/
def tokenPairs : List Address → List (Address × Address)
  | [] => []
  | left :: rest => rest.map (Prod.mk left) ++ tokenPairs rest

/-- Pairs of entries at distinct positions, row by row. -/
def distinctPairs {α : Type} (entries : List α) : List (α × α) :=
  entries.zipIdx.flatMap fun source =>
    (entries.zipIdx.filter fun target => source.2 ≠ target.2).map
      fun target => (source.1, target.1)

/-- Stable token graph over AMM pool edges. -/
structure AmmGraph (G : Type) where
  graph : G
  nodeMap : Map Address NodeIndex
  edgeMap : Map PoolKey (List EdgeIndex)
  poolTokens : Map PoolKey (List Address)
  pairPools : Map (Address × Address) (Finset PoolKey)
  outgoingCache : Map NodeIndex (List CachedOutgoingEdge)
  version : GraphVersion

/-- Result of building a graph. -/
structure GraphBuildReport (G : Type) where
  graph : AmmGraph G
  indexedPools : List PoolKey
  skippedPools : List SkippedPool

structure GraphBuildSummary where
  indexedPools : List PoolKey
  skippedPools : List SkippedPool
deriving DecidableEq

namespace AmmGraph

variable {G : Type} [StableDiGraph G Address EdgeData]

/-- The empty graph of a fresh lineage. -/
def new (lineage : ℕ) : AmmGraph G where
  graph := StableDiGraph.empty
  nodeMap := ∅
  edgeMap := ∅
  poolTokens := ∅
  pairPools := ∅
  outgoingCache := ∅
  version := .initial lineage

def nodeIndex (g : AmmGraph G) (token : Address) : Option NodeIndex :=
  g.nodeMap.lookup token

def nodeToken (g : AmmGraph G) (node : NodeIndex) : Option Address :=
  StableDiGraph.nodeWeight g.graph node

def nodeCount (g : AmmGraph G) : ℕ :=
  (StableDiGraph.nodeIndices g.graph).length

def edgeCount (g : AmmGraph G) : ℕ :=
  (StableDiGraph.edgeIndices g.graph).length

/-- The live edge indices of `pool`. -/
def edgesForPool (g : AmmGraph G) (pool : PoolKey) : List EdgeIndex :=
  ((g.edgeMap.lookup pool).getD []).filter fun edge =>
    (StableDiGraph.edge g.graph edge).isSome

def outgoingEdges (g : AmmGraph G) (node : NodeIndex) :
    List CachedOutgoingEdge :=
  (g.outgoingCache.lookup node).getD []

def trackedTokensForPool (g : AmmGraph G) (pool : PoolKey)
    (parallelOnly : Bool) : Finset Address :=
  match g.poolTokens.lookup pool with
  | none => ∅
  | some tokens =>
      if !parallelOnly then tokens.toFinset
      else
        (tokenPairs tokens).foldl (fun tracked pair =>
          match g.pairPools.lookup pair with
          | some pools =>
              if 2 ≤ pools.card then insert pair.2 (insert pair.1 tracked)
              else tracked
          | none => tracked) ∅

def parallelNeighbors (g : AmmGraph G) (pool : PoolKey) : Finset PoolKey :=
  match g.poolTokens.lookup pool with
  | none => ∅
  | some tokens =>
      (tokenPairs tokens).foldl (fun neighbors pair =>
        neighbors ∪ (g.pairPools.lookup pair).getD ∅) ∅

def getOrCreateNode (g : AmmGraph G) (token : Address) :
    NodeIndex × AmmGraph G :=
  match g.nodeMap.lookup token with
  | some node => (node, g)
  | none =>
      let created := StableDiGraph.addNode g.graph token
      (created.1,
        { g with
          graph := created.2
          nodeMap := g.nodeMap.insert token created.1 })

/-- Create the nodes of `tokens` in order, returning each with its token. -/
def getOrCreateNodes (g : AmmGraph G) :
    List Address → List (NodeIndex × Address) × AmmGraph G
  | [] => ([], g)
  | token :: rest =>
      let created := g.getOrCreateNode token
      let later := created.2.getOrCreateNodes rest
      ((created.1, token) :: later.1, later.2)

/-- The body of the edge-insertion loop. -/
def addDirectedEdge (pool : PoolKey) (g : AmmGraph G)
    (ends : (NodeIndex × Address) × (NodeIndex × Address)) : AmmGraph G :=
  let added := StableDiGraph.addEdge g.graph ends.1.1 ends.2.1 ⟨pool⟩
  let cached : CachedOutgoingEdge :=
    { target := ends.2.1, tokenIn := ends.1.2, tokenOut := ends.2.2, pool := pool }
  { g with
    graph := added.2
    outgoingCache := alter g.outgoingCache ends.1.1 fun edges =>
      some (cached :: edges.getD [])
    edgeMap := alter g.edgeMap pool fun edges =>
      some (edges.getD [] ++ [added.1]) }

def addPoolPairs (pairPools : Map (Address × Address) (Finset PoolKey))
    (pool : PoolKey) (tokens : List Address) :
    Map (Address × Address) (Finset PoolKey) :=
  (tokenPairs tokens).foldl (fun pairs pair =>
    alter pairs pair fun pools => some (insert pool (pools.getD ∅))) pairPools

def removePoolPairs (pairPools : Map (Address × Address) (Finset PoolKey))
    (pool : PoolKey) (tokens : List Address) :
    Map (Address × Address) (Finset PoolKey) :=
  (tokenPairs tokens).foldl (fun pairs pair =>
    alter pairs pair fun pools =>
      (pools.map fun pools => pools.erase pool).filter (· ≠ ∅)) pairPools

def addPoolEdges (g : AmmGraph G) (pool : PoolKey) (tokens : List Address) :
    AmmGraph G :=
  let created := g.getOrCreateNodes tokens
  let linked := (distinctPairs created.1).foldl (addDirectedEdge pool) created.2
  { linked with
    pairPools := addPoolPairs linked.pairPools pool tokens
    poolTokens := linked.poolTokens.insert pool tokens }

/-- Drop the cached edges of `pool` at the node of `token`. -/
def retainCachedEdges (pool : PoolKey) (g : AmmGraph G) (token : Address) :
    AmmGraph G :=
  match g.nodeMap.lookup token with
  | none => g
  | some node =>
      { g with
        outgoingCache := alter g.outgoingCache node fun edges =>
          edges.map fun edges => edges.filter fun edge => edge.pool ≠ pool }

def removePoolEdges (g : AmmGraph G) (pool : PoolKey) :
    (ℕ × List Address) × AmmGraph G :=
  let tokens := (g.poolTokens.lookup pool).getD []
  let unpaired : AmmGraph G :=
    { g with
      poolTokens := g.poolTokens.erase pool
      pairPools := removePoolPairs g.pairPools pool tokens }
  match g.edgeMap.lookup pool with
  | none => ((0, tokens), unpaired)
  | some edges =>
      let cut : AmmGraph G :=
        { unpaired with
          edgeMap := g.edgeMap.erase pool
          graph := edges.foldl StableDiGraph.removeEdge g.graph }
      ((edges.length, tokens), tokens.foldl (retainCachedEdges pool) cut)

/-- Remove the node of `token` when no edge uses it. -/
def pruneOrphanToken (g : AmmGraph G) (token : Address) : AmmGraph G :=
  match g.nodeMap.lookup token with
  | none => g
  | some node =>
      if StableDiGraph.outgoing g.graph node = [] ∧
          StableDiGraph.incoming g.graph node = [] then
        { g with
          graph := StableDiGraph.removeNode g.graph node
          outgoingCache := g.outgoingCache.erase node
          nodeMap := g.nodeMap.erase token }
      else g

def pruneOrphanTokens (g : AmmGraph G) (tokens : List Address) : AmmGraph G :=
  tokens.foldl pruneOrphanToken g

/-- Advance the version, or panic. -/
def bumpVersion (g : AmmGraph G) : Option (AmmGraph G) :=
  g.version.checkedNext.map fun version => { g with version := version }

/-- Remove every edge of `pool`, leaving token nodes in place. -/
def removePool (g : AmmGraph G) (pool : PoolKey) :
    Option (ℕ × AmmGraph G) :=
  let removal := g.removePoolEdges pool
  if 0 < removal.1.1 then
    removal.2.bumpVersion.map fun bumped => (removal.1.1, bumped)
  else some (removal.1.1, removal.2)

/-- Remove one pool and compact the token nodes it leaves without edges. -/
def removePoolCompacting (g : AmmGraph G) (pool : PoolKey) :
    Option (GraphPoolMutation × AmmGraph G) :=
  let removal := g.removePoolEdges pool
  if removal.1.1 = 0 then some (.unchanged, removal.2)
  else
    (removal.2.pruneOrphanTokens removal.1.2).bumpVersion.map fun bumped =>
      (.removed removal.1.1, bumped)

def removeOrSkip (g : AmmGraph G) (pool : PoolKey)
    (reason : SkippedPoolReason) : Option (GraphPoolMutation × AmmGraph G) :=
  (g.removePoolCompacting pool).map fun result =>
    match result.1 with
    | .removed directedEdges => (.removed directedEdges, result.2)
    | _ => (.skipped reason, result.2)

/-- Apply one current registration without scanning unrelated pools. -/
def applyPool (g : AmmGraph G) (registration : PoolRegistration)
    (options : GraphBuildOptions) : Option (GraphPoolMutation × AmmGraph G) :=
  match indexedTokens registration options with
  | .error reason => g.removeOrSkip registration.key reason
  | .ok tokens =>
      match g.poolTokens.lookup registration.key with
      | some current =>
          if current = tokens then some (.unchanged, g)
          else
            let removal := g.removePoolEdges registration.key
            let pruned := removal.2.pruneOrphanTokens removal.1.2
            (pruned.addPoolEdges registration.key tokens).bumpVersion.map
              fun bumped =>
                (.updated removal.1.1 (directedEdgeCount tokens.length), bumped)
      | none =>
          (g.addPoolEdges registration.key tokens).bumpVersion.map fun bumped =>
            (.added (directedEdgeCount tokens.length), bumped)

/-- One registration of a full build. -/
def indexRegistration (options : GraphBuildOptions)
    (report : GraphBuildReport G) (registration : PoolRegistration) :
    GraphBuildReport G :=
  match indexedTokens registration options with
  | .error reason =>
      { report with
        skippedPools := report.skippedPools ++ [⟨registration.key, reason⟩] }
  | .ok tokens =>
      { report with
        graph := report.graph.addPoolEdges registration.key tokens
        indexedPools := report.indexedPools ++ [registration.key] }

/-- Build a graph from the pools currently registered in `registry`. -/
def fromRegistry (lineage : ℕ) (registry : AdapterRegistry)
    (options : GraphBuildOptions) : GraphBuildReport G :=
  (registry.pools.insertionSort fun left right =>
    left.key.debug ≤ right.key.debug).foldl (indexRegistration options)
    { graph := new lineage, indexedPools := [], skippedPools := [] }

/-- Rebuild in place from `registry`, compacting any orphan nodes. -/
def rebuildFromRegistry (g : AmmGraph G) (lineage : ℕ)
    (registry : AdapterRegistry) (options : GraphBuildOptions) :
    Option (GraphBuildSummary × AmmGraph G) :=
  let report : GraphBuildReport G := fromRegistry lineage registry options
  let summary : GraphBuildSummary := ⟨report.indexedPools, report.skippedPools⟩
  if g.poolTokens = report.graph.poolTokens ∧
      g.nodeMap.keys = report.graph.nodeMap.keys then
    some (summary, { report.graph with version := g.version })
  else
    g.version.checkedNext.map fun version =>
      (summary, { report.graph with version := version })

end AmmGraph

end AmmSearch
