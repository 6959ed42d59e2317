/-
The request-path index of the sidecar: edge count, tokens by pool and pools by
token of the live graph, rebuilt from a graph or moved along by one delta of the
live graph at a time.
-/
import AmmSearch.FiniteMapTotals
import AmmSearch.LiveGraph

open FiniteMap StableGraph

namespace AmmSearch

/-- Constant-time graph counters and token membership. -/
structure GraphIndex where
  stateVersion : ℕ
  edges : ℕ
  poolTokens : Map PoolKey (List Address)
  tokenPools : Map Address ℕ

/-- A graph delta could not be applied safely.  An incoherent index is reported
with the debug text of a pool or with `token` and the address of a token. -/
inductive GraphIndexError
  | nonContiguous (expected actual : ℕ)
  | incoherentPool (pool : PoolKey)
  | incoherentToken (token : Address)
  | versionExhausted
  | edgeCountOverflow
  | tokenPoolCountOverflow
deriving DecidableEq

/-- `token_pool_counts`, the tokens of one pool. -/
def countTokens (counts : Map Address ℕ) (tokens : List Address) : Map Address ℕ :=
  tokens.foldl (fun counts token =>
    alter counts token fun count => some (count.getD 0 + 1)) counts

def tokenPoolCounts (poolTokens : Map PoolKey (List Address)) : Map Address ℕ :=
  (ascending poolTokens.keys).foldl (fun counts pool =>
    countTokens counts ((poolTokens.lookup pool).getD [])) ∅

/-- `directed_edge_count`. -/
def checkedDirectedEdgeCount (tokens : ℕ) : Except GraphIndexError ℕ :=
  if tokens * (tokens - 1) ≤ u64Max then .ok (tokens * (tokens - 1))
  else .error .edgeCountOverflow

inductive TokenCountChange
  | add
  | remove

def updateTokenCounts (current : Map Address ℕ) (change : TokenCountChange) :
    List Address → Map Address ℕ → Except GraphIndexError (Map Address ℕ)
  | [], next => .ok next
  | token :: rest, next =>
      let count := (next.lookup token).getD ((current.lookup token).getD 0)
      match change with
      | .add =>
          if count < u64Max then
            updateTokenCounts current change rest (next.insert token (count + 1))
          else .error .tokenPoolCountOverflow
      | .remove =>
          if 1 ≤ count then
            updateTokenCounts current change rest (next.insert token (count - 1))
          else .error (.incoherentToken token)

/-- The counters that `apply_delta` prepares before it writes any of them. -/
structure PreparedDelta where
  edges : ℕ
  pools : Map PoolKey (Option (List Address))
  tokenCounts : Map Address ℕ

namespace GraphIndex

section FromGraph

variable {G : Type} [StableDiGraph G Address EdgeData]

/-- One edge reference of the scan. -/
def collectEdge (graph : AmmGraph G) (tokensByPool : Map PoolKey (Finset Address))
    (edge : EdgeIndex) : Map PoolKey (Finset Address) :=
  match StableDiGraph.edge graph.graph edge with
  | none => tokensByPool
  | some record =>
      alter tokensByPool record.weight.pool fun tokens =>
        some (tokens.getD ∅ ∪ (graph.nodeToken record.source).toFinset ∪
          (graph.nodeToken record.target).toFinset)

/-- Build the index from the exact graph used by the route runtime. -/
def fromGraph (graph : AmmGraph G) (stateVersion : ℕ) : GraphIndex :=
  let tokensByPool := (StableDiGraph.edgeIndices graph.graph).foldl (collectEdge graph) ∅
  let poolTokens := mapValues ascending tokensByPool
  { stateVersion := stateVersion
    edges := graph.edgeCount
    poolTokens := poolTokens
    tokenPools := tokenPoolCounts poolTokens }

end FromGraph

/-- `canonical_token_slice` of the tokens of an indexed pool. -/
def canonicalTokens (pool : Option IndexedPool) : Option (List Address) :=
  pool.map fun pool => sortDedup pool.tokens

/-- Take the state before a change off the counters. -/
def subtractPool (index : GraphIndex) (prepared : PreparedDelta) (pool : PoolKey) :
    Option (List Address) → Except GraphIndexError PreparedDelta
  | none => .ok prepared
  | some tokens =>
      match checkedDirectedEdgeCount tokens.length with
      | .error error => .error error
      | .ok removed =>
          if removed ≤ prepared.edges then
            match updateTokenCounts index.tokenPools .remove tokens prepared.tokenCounts with
            | .error error => .error error
            | .ok counts =>
                .ok { prepared with edges := prepared.edges - removed, tokenCounts := counts }
          else .error (.incoherentPool pool)

/-- Put the state after a change onto the counters. -/
def addPool (index : GraphIndex) (prepared : PreparedDelta) :
    Option (List Address) → Except GraphIndexError PreparedDelta
  | none => .ok prepared
  | some tokens =>
      match checkedDirectedEdgeCount tokens.length with
      | .error error => .error error
      | .ok added =>
          if prepared.edges + added ≤ u64Max then
            match updateTokenCounts index.tokenPools .add tokens prepared.tokenCounts with
            | .error error => .error error
            | .ok counts =>
                .ok { prepared with edges := prepared.edges + added, tokenCounts := counts }
          else .error .edgeCountOverflow

/-- The tokens of a pool under the changes prepared so far. -/
def currentTokens (index : GraphIndex) (prepared : PreparedDelta) (pool : PoolKey) :
    Option (List Address) :=
  (prepared.pools.lookup pool).getD (index.poolTokens.lookup pool)

/-- One pool change of a delta. -/
def prepareChange (index : GraphIndex) (prepared : PreparedDelta)
    (change : GraphPoolDelta) : Except GraphIndexError PreparedDelta :=
  let before := canonicalTokens change.before
  let after := canonicalTokens change.after
  if index.currentTokens prepared change.pool ≠ before then
    .error (.incoherentPool change.pool)
  else
    match index.subtractPool prepared change.pool before with
    | .error error => .error error
    | .ok subtracted =>
        match index.addPool subtracted after with
        | .error error => .error error
        | .ok added => .ok { added with pools := added.pools.insert change.pool after }

def prepareChanges (index : GraphIndex) :
    List GraphPoolDelta → PreparedDelta → Except GraphIndexError PreparedDelta
  | [], prepared => .ok prepared
  | change :: rest, prepared =>
      match index.prepareChange prepared change with
      | .error error => .error error
      | .ok next => index.prepareChanges rest next

/-- Write prepared counters. -/
def write (index : GraphIndex) (prepared : PreparedDelta) (stateVersion : ℕ) : GraphIndex where
  stateVersion := stateVersion
  edges := prepared.edges
  poolTokens := (ascending prepared.pools.keys).foldl (fun poolTokens pool =>
    alter poolTokens pool fun _ => (prepared.pools.lookup pool).join) index.poolTokens
  tokenPools := (ascending prepared.tokenCounts.keys).foldl (fun tokenPools token =>
    alter tokenPools token fun _ => (prepared.tokenCounts.lookup token).filter (· ≠ 0))
      index.tokenPools

/-- Apply one contiguous route-runtime topology delta without scanning the
graph; `false` for an already represented one. -/
def applyDelta (index : GraphIndex) (delta : GraphDelta) :
    Except GraphIndexError Bool × GraphIndex :=
  if delta.sourceStateVersion ≤ index.stateVersion then (.ok false, index)
  else
    match checkedNext index.stateVersion with
    | none => (.error .versionExhausted, index)
    | some expected =>
        if delta.sourceStateVersion ≠ expected then
          (.error (.nonContiguous expected delta.sourceStateVersion), index)
        else
          match index.prepareChanges delta.poolChanges ⟨index.edges, ∅, ∅⟩ with
          | .error error => (.error error, index)
          | .ok prepared => (.ok true, index.write prepared delta.sourceStateVersion)

end GraphIndex

end AmmSearch
