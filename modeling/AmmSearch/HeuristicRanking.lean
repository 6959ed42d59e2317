/-
How heuristic search orders its choices: connector scores, the ranking of
parallel edges, the fast-lane candidates, and the order of branch groups.
-/
import AmmSearch.AmmGraph
import AmmSearch.LiquidityIndex
import AmmSearch.Quoting

open FiniteMap StableGraph

namespace AmmSearch

inductive HeuristicPassMode
  | initial
  | refinement
deriving DecidableEq

/-- `usize::MAX`. -/
def usizeMax : ℕ := 2 ^ 64 - 1

def HeuristicPassMode.edgeLimit (mode : HeuristicPassMode)
    (heuristic : HeuristicSearchConfig) : ℕ :=
  if heuristic.edgeShortlist.enabled then
    match mode with
    | .initial => heuristic.edgeShortlist.initialEdgesPerPair
    | .refinement => heuristic.edgeShortlist.refinementEdgesPerPair
  else usizeMax

def heuristicPassModes (heuristic : HeuristicSearchConfig) :
    List HeuristicPassMode :=
  if heuristic.edgeShortlist.enabled && heuristic.edgeShortlist.refineParallelEdges
      && heuristic.edgeShortlist.refinementEdgesPerPair >
        heuristic.edgeShortlist.initialEdgesPerPair then
    [.initial, .refinement]
  else [.initial]

/-- The admissible hops to one next token. -/
structure HeuristicHopGroup where
  nextToken : Address
  hops : List Hop
  closesTarget : Bool
deriving DecidableEq

/-- A route searcher.  `groupOrder` is the order that sorting branch groups
yields where their comparison is not an order, which depends on the iteration
order of a hash map. -/
structure AmmSearcher (G : Type) where
  registry : AdapterRegistry
  graph : AmmGraph G
  liquidityIndex : Option PoolLiquidityIndex
  quoteContext : QuoteKeyContext
  debug : DebugText
  groupOrder :
    HeuristicPassMode → RoutePath → List HeuristicHopGroup → List HeuristicHopGroup
  groupOrder_perm :
    ∀ mode path groups, (groupOrder mode path groups).Perm groups

def protocolBonus : ProtocolId → ℕ
  | .uniswapV3 | .pancakeV3 | .slipstream => 30
  | .curve => 25
  | .balancerV2 => 22
  | .uniswapV2 | .solidlyV2 => 10
  | .custom _ => 0

def poolFeeSort (pool : PoolRegistration) : ℕ :=
  match pool.metadata with
  | .uniswapV2 metadata => metadata.feeBps.getD u64Max
  | .uniswapV3 metadata | .pancakeV3 metadata | .slipstream metadata =>
      metadata.fee.getD u64Max
  | _ => u64Max

/-- Position of the highest set bit; zero for zero. -/
def u256Log2 (value : U256) : ℕ :=
  Nat.log2 value.val

def u16Max : ℕ := 2 ^ 16 - 1

structure LiquidityRankedHop where
  hop : Hop
  inputBalance : BalanceState
  outputBalance : BalanceState
  liquidityActive : Bool
  rankKnown : Bool
  rankScore : ℕ
  protocolBonus : ℕ
  feeSort : ℕ
deriving DecidableEq

structure ConnectorScore where
  knownBalances : ℕ := 0
  degree : ℕ := 0
  logSum : ℕ := 0
deriving DecidableEq

structure BranchLiquidityScore where
  maxInputBalance : Option U256 := none
  sumInputBalance : Option U256 := none
deriving DecidableEq

def BranchLiquidityScore.isKnown (score : BranchLiquidityScore) : Bool :=
  score.maxInputBalance.isSome

/-- Comparison of optional amounts; an absent amount is the least. -/
def cmpAmounts (left right : Option U256) : Ordering :=
  @cmp (WithBot U256) _ _ left right

/-- Append the paths that are not present yet, in order. -/
def pushUnseen (paths : List RoutePath) (candidates : List RoutePath) :
    List RoutePath :=
  candidates.foldl
    (fun paths path => if path ∈ paths then paths else paths ++ [path]) paths

namespace AmmSearcher

variable {G : Type} [StableDiGraph G Address EdgeData] (searcher : AmmSearcher G)

def hopSortKey (hop : Hop) : Text :=
  hop.pool.debug ++ ":".toList ++ searcher.debug.address hop.tokenIn ++
    ":".toList ++ searcher.debug.address hop.tokenOut

def routePathSortKey (path : RoutePath) : Text :=
  List.intercalate "|".toList (path.map searcher.hopSortKey)

def feeSort (pool : PoolKey) : ℕ :=
  ((searcher.registry.pool pool).map poolFeeSort).getD u64Max

def tokenDegree (node : NodeIndex) : ℕ :=
  (StableDiGraph.incoming searcher.graph.graph node).length +
    (StableDiGraph.outgoing searcher.graph.graph node).length

def autoConnectorTokens (tokenIn tokenOut : Address)
    (heuristic : HeuristicSearchConfig) : Finset Address :=
  if heuristic.maxAutoConnectors = 0 then ∅
  else
    let ranked :=
      (StableDiGraph.nodeIndices searcher.graph.graph).filterMap fun node =>
        (searcher.graph.nodeToken node).bind fun token =>
          if token = tokenIn ∨ token = tokenOut then none
          else if heuristic.minAutoConnectorDegree ≤ searcher.tokenDegree node then
            some (searcher.tokenDegree node, token)
          else none
    let sorted := ranked.insertionSort fun left right =>
      ((cmp right.1 left.1).then (cmp left.2 right.2)).isLE = true
    ((sorted.take heuristic.maxAutoConnectors).map Prod.snd).toFinset

def connectorTokensForHeuristic (tokenIn tokenOut : Address)
    (config : SearchConfig) (heuristic : HeuristicSearchConfig) :
    Option (Finset Address) :=
  match config.connectorTokens with
  | some tokens => some tokens
  | none => some (searcher.autoConnectorTokens tokenIn tokenOut heuristic)

def connectorLiquidityScore (token : Address) : ConnectorScore :=
  match searcher.graph.nodeIndex token with
  | none => {}
  | some node =>
      match searcher.liquidityIndex with
      | none => { degree := searcher.tokenDegree node }
      | some liquidityIndex =>
          let edges := StableDiGraph.incoming searcher.graph.graph node ++
            StableDiGraph.outgoing searcher.graph.graph node
          let pools := (edges.filterMap fun edge =>
            (StableDiGraph.edge searcher.graph.graph edge).map
              fun record => record.weight.pool).dedup
          let balances := pools.filterMap fun pool =>
            (liquidityIndex.balanceState pool token).fresh?
          { knownBalances := balances.length
            degree := searcher.tokenDegree node
            logSum := (balances.map u256Log2).sum }

def rankedCentralConnectors (tokenIn tokenOut : Address)
    (connectorTokens : Option (Finset Address)) : List Address :=
  let candidates := (ascending (connectorTokens.getD
    (searcher.autoConnectorTokens tokenIn tokenOut {}))).filter
      fun token => token ≠ tokenIn ∧ token ≠ tokenOut
  candidates.insertionSort fun left right =>
    let leftScore := searcher.connectorLiquidityScore left
    let rightScore := searcher.connectorLiquidityScore right
    ((cmp rightScore.knownBalances leftScore.knownBalances).then
      ((cmp rightScore.degree leftScore.degree).then
        ((cmp rightScore.logSum leftScore.logSum).then
          (cmp left right)))).isLE = true

def compareRankedHops (left right : LiquidityRankedHop) : Ordering :=
  let fallback :=
    (cmp right.protocolBonus left.protocolBonus).then
      ((cmp left.feeSort right.feeSort).then
        (cmp (searcher.hopSortKey left.hop) (searcher.hopSortKey right.hop)))
  match left.rankKnown, right.rankKnown with
  | true, false => .lt
  | false, true => .gt
  | true, true =>
      ((cmp right.rankScore left.rankScore).then
        ((cmpAmounts right.outputBalance.fresh? left.outputBalance.fresh?).then
          ((cmpAmounts right.inputBalance.fresh? left.inputBalance.fresh?).then
            ((cmp left.feeSort right.feeSort).then
              (cmp (searcher.hopSortKey left.hop)
                (searcher.hopSortKey right.hop)))))).then fallback
  | false, false => fallback

/-- Attach the ranking data of one hop. -/
def rankHop (liquidityActive protocolOrdering : Bool) (hop : Hop) :
    LiquidityRankedHop :=
  let balance (token : Address) : BalanceState :=
    match searcher.liquidityIndex with
    | some index => if liquidityActive then index.balanceState hop.pool token else .unknown
    | none => .unknown
  let inputBalance := balance hop.tokenIn
  let outputBalance := balance hop.tokenOut
  let bonus := AmmSearch.protocolBonus hop.pool.protocol
  let liquidityBucket :=
    match inputBalance.fresh?, outputBalance.fresh? with
    | some input, some output => u256Log2 (min input output)
    | _, _ => 0
  { hop := hop
    inputBalance := inputBalance
    outputBalance := outputBalance
    liquidityActive := liquidityActive
    rankKnown := inputBalance.fresh?.isSome && outputBalance.fresh?.isSome
    rankScore := min (min (liquidityBucket * 100) u16Max +
      (if protocolOrdering then bonus else 0)) u16Max
    protocolBonus := bonus
    feeSort := searcher.feeSort hop.pool }

def liquidityRankedHops (hops : List Hop) (edgeShortlist : AdaptiveEdgeShortlistConfig)
    (config : LiquidityPruningConfig) : List LiquidityRankedHop :=
  let liquidityActive :=
    config.enabled && searcher.liquidityIndex.isSome && decide (2 ≤ hops.length)
  let protocolOrdering := edgeShortlist.protocolOrdering && decide (2 ≤ hops.length)
  let ranked := hops.map (searcher.rankHop liquidityActive protocolOrdering)
  if protocolOrdering || (liquidityActive && config.orderByOutputBalance) then
    ranked.insertionSort fun left right =>
      (searcher.compareRankedHops left right).isLE = true
  else ranked

def rankedHopsBetween (tokenIn tokenOut : Address)
    (edgeShortlist : AdaptiveEdgeShortlistConfig) (config : LiquidityPruningConfig) :
    List LiquidityRankedHop :=
  match searcher.graph.nodeIndex tokenIn with
  | none => []
  | some node =>
      let hops := ((searcher.graph.outgoingEdges node).filter
        fun edge => edge.tokenOut = tokenOut).map
          fun edge => (⟨edge.pool, edge.tokenIn, edge.tokenOut⟩ : Hop)
      searcher.liquidityRankedHops hops edgeShortlist config

/-- The two-hop candidates through one connector. -/
def connectorPaths (tokenIn tokenOut connector : Address) (config : SearchConfig)
    (heuristic : HeuristicSearchConfig) : List RoutePath :=
  let firstHops := (searcher.rankedHopsBetween tokenIn connector
    heuristic.edgeShortlist config.liquidityPruning).take
      heuristic.fastLane.connectorEdgesPerPair
  let secondHops := (searcher.rankedHopsBetween connector tokenOut
    heuristic.edgeShortlist config.liquidityPruning).take
      heuristic.fastLane.connectorEdgesPerPair
  firstHops.flatMap fun first =>
    (secondHops.filter fun second => first.hop.pool ≠ second.hop.pool).map
      fun second => [first.hop, second.hop]

def fastLanePaths (tokenIn tokenOut : Address) (config : SearchConfig)
    (heuristic : HeuristicSearchConfig)
    (connectorTokens : Option (Finset Address)) : List RoutePath :=
  if config.maxHops = 0 then []
  else
    let direct :=
      if heuristic.fastLane.evaluateDirectBestFirst ∧ config.minHops ≤ 1 then
        ((searcher.rankedHopsBetween tokenIn tokenOut heuristic.edgeShortlist
          config.liquidityPruning).take heuristic.fastLane.directEdgesPerPair).map
            fun ranked => [ranked.hop]
      else []
    let twoHop :=
      if 2 ≤ config.maxHops ∧ config.minHops ≤ 2 then
        ((searcher.rankedCentralConnectors tokenIn tokenOut connectorTokens).take
          heuristic.fastLane.maxConnectors).flatMap fun connector =>
            searcher.connectorPaths tokenIn tokenOut connector config heuristic
      else []
    pushUnseen (pushUnseen [] direct) twoHop

/-- A branch group with the data it is ordered by. -/
structure ScoredGroup where
  group : HeuristicHopGroup
  liquidity : BranchLiquidityScore
  connector : ℕ
  degree : ℕ
deriving DecidableEq

def branchLiquidityScore (hops : List Hop) (closesTarget : Bool)
    (config : LiquidityPruningConfig) : BranchLiquidityScore :=
  if closesTarget || !config.enabled || !config.rankBranchesByLiquidity then {}
  else
    match searcher.liquidityIndex with
    | none => {}
    | some index =>
        hops.foldl (fun score hop =>
          match (index.balanceState hop.pool hop.tokenIn).fresh? with
          | some balance =>
              { maxInputBalance := some (score.maxInputBalance.elim balance (max balance))
                sumInputBalance := some (score.sumInputBalance.getD 0 + balance) }
          | none => score) {}

def compareGroups (heuristic : HeuristicSearchConfig)
    (config : LiquidityPruningConfig) (left right : ScoredGroup) : Ordering :=
  let fallback :=
    (cmp right.connector left.connector).then
      ((cmp right.degree left.degree).then
        (cmp left.group.nextToken right.group.nextToken))
  if heuristic.targetFirst = true ∧
      left.group.closesTarget ≠ right.group.closesTarget then
    cmp right.group.closesTarget left.group.closesTarget
  else if config.enabled = true ∧ config.rankBranchesByLiquidity = true ∧
      left.group.closesTarget = false ∧ right.group.closesTarget = false then
    match left.liquidity.isKnown, right.liquidity.isKnown with
    | true, true =>
        ((cmpAmounts right.liquidity.maxInputBalance
          left.liquidity.maxInputBalance).then
            (cmpAmounts right.liquidity.sumInputBalance
              left.liquidity.sumInputBalance)).then fallback
    | true, false => .lt
    | false, true => .gt
    | false, false => fallback
  else fallback

/-- The comparison is a total preorder on the listed groups. -/
def ConsistentOrder (compare : ScoredGroup → ScoredGroup → Ordering)
    (groups : List ScoredGroup) : Prop :=
  (∀ left ∈ groups, ∀ right ∈ groups, compare left right = (compare right left).swap) ∧
    ∀ left ∈ groups, ∀ middle ∈ groups, ∀ right ∈ groups,
      (compare left middle).isLE = true → (compare middle right).isLE = true →
        (compare left right).isLE = true

instance (compare : ScoredGroup → ScoredGroup → Ordering)
    (groups : List ScoredGroup) : Decidable (ConsistentOrder compare groups) :=
  inferInstanceAs (Decidable (_ ∧ _))

def scoreGroup (target : NodeIndex) (connectorTokens : Option (Finset Address))
    (config : LiquidityPruningConfig) (nextToken : Address) (hops : List Hop) :
    ScoredGroup :=
  let closesTarget := decide (searcher.graph.nodeIndex nextToken = some target)
  { group := ⟨nextToken, hops, closesTarget⟩
    liquidity := searcher.branchLiquidityScore hops closesTarget config
    connector := if connectorTokens.any fun tokens => nextToken ∈ tokens then 1 else 0
    degree := ((searcher.graph.nodeIndex nextToken).map searcher.tokenDegree).getD 0 }

/-- Sort the groups.  Sorting by a comparison that is not an order leaves the
groups in an unspecified order. -/
def sortedHeuristicHopGroups (mode : HeuristicPassMode) (path : RoutePath)
    (grouped : List (Address × List Hop)) (target : NodeIndex)
    (connectorTokens : Option (Finset Address)) (heuristic : HeuristicSearchConfig)
    (config : LiquidityPruningConfig) : List HeuristicHopGroup :=
  let scored := grouped.map fun entry =>
    searcher.scoreGroup target connectorTokens config entry.1 entry.2
  if ConsistentOrder (compareGroups heuristic config) scored then
    (scored.insertionSort fun left right =>
      (compareGroups heuristic config left right).isLE = true).map ScoredGroup.group
  else searcher.groupOrder mode path (scored.map ScoredGroup.group)

end AmmSearcher

end AmmSearch
