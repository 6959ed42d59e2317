/-
Heuristic route search: the fast lane, the level-by-level beam search over
quoted prefixes with its pruning rules, the refinement pass, and the final
simulation of the best paths.
-/
import AmmSearch.Enumeration
import AmmSearch.HeuristicRanking

open FiniteMap StableGraph

namespace AmmSearch

/-- A quoted prefix on the frontier. -/
structure HeuristicState where
  node : NodeIndex
  path : RoutePath
  hopQuotes : List HopQuote
  amount : U256
  visitedTokens : Finset Address
  usedPools : Finset PoolKey
deriving DecidableEq

structure PrefixLabel where
  amount : U256
  visitedTokens : Finset Address
  usedPools : Finset PoolKey
deriving DecidableEq

/-- `label` is at least as good as `other` in all three coordinates. -/
def PrefixLabel.dominates (label other : PrefixLabel) : Bool :=
  decide (other.amount ≤ label.amount ∧ label.visitedTokens ⊆ other.visitedTokens ∧
    label.usedPools ⊆ other.usedPools)

/-- The best labels seen at each token. -/
structure PrefixDominanceIndex where
  labels : Map Address (List PrefixLabel)

namespace PrefixDominanceIndex

def empty : PrefixDominanceIndex := ⟨∅⟩

def labelsAt (index : PrefixDominanceIndex) (token : Address) : List PrefixLabel :=
  (index.labels.lookup token).getD []

def insertOrDominated (index : PrefixDominanceIndex) (token : Address)
    (candidate : PrefixLabel) : Bool × PrefixDominanceIndex :=
  if (index.labelsAt token).any fun label => label.dominates candidate then
    (true, index)
  else
    (false, ⟨index.labels.insert token
      ((index.labelsAt token).filter (fun label => !candidate.dominates label) ++
        [candidate])⟩)

def isStrictlyDominated (index : PrefixDominanceIndex) (token : Address)
    (candidate : PrefixLabel) : Bool :=
  (index.labelsAt token).any fun label =>
    label.dominates candidate &&
      decide (candidate.amount < label.amount ∨
        label.visitedTokens.card < candidate.visitedTokens.card ∨
        label.usedPools.card < candidate.usedPools.card)

end PrefixDominanceIndex

structure RouteRequest where
  tokenIn : Address
  tokenOut : Address
  amountIn : U256
  config : SearchConfig
  simConfig : SimConfig
deriving DecidableEq

inductive HeuristicRunLimit
  | fastLaneOnly
  | full
deriving DecidableEq

structure HeuristicRoutesReport where
  quotes : List RouteQuote
  stopped : Bool
  failedCandidates : ℕ
deriving DecidableEq

structure QuotedHeuristicHop where
  hop : Hop
  amountOut : U256
deriving DecidableEq

inductive UpperBoundCap
  | known (cap : U256)
  | unknown
deriving DecidableEq

/-- The fixed inputs of one heuristic search. -/
structure HeuristicContext where
  source : NodeIndex
  target : NodeIndex
  tokenIn : Address
  tokenOut : Address
  amountIn : U256
  config : SearchConfig
  heuristic : HeuristicSearchConfig
  simConfig : SimConfig
  allowFinalSourceRevisit : Bool
  connectorTokens : Option (Finset Address)

namespace HeuristicContext

def closesSourceCycle (context : HeuristicContext) (node : NodeIndex) : Bool :=
  context.allowFinalSourceRevisit && context.source == context.target &&
    node == context.source

/-- The visited-token and connector guards that every edge loop repeats. -/
def admits (context : HeuristicContext) (visitedTokens : Finset Address)
    (edge : CachedOutgoingEdge) : Bool :=
  if edge.tokenOut ∈ visitedTokens ∧
      context.closesSourceCycle edge.target = false then false
  else if edge.target ≠ context.target ∧
      connectorAllowedWithTokens edge.tokenOut context.tokenIn context.tokenOut
        context.connectorTokens = false then false
  else true

def rootState (context : HeuristicContext) : HeuristicState :=
  { node := context.source
    path := []
    hopQuotes := []
    amount := context.amountIn
    visitedTokens := {context.tokenIn}
    usedPools := ∅ }

end HeuristicContext

/-- The visited tokens and used pools that the static search updates in
place. -/
structure StaticSets where
  visitedTokens : Finset Address
  usedPools : Finset PoolKey
deriving DecidableEq

/-- The queue loop of the balance cap. -/
structure CapRun where
  queue : List (NodeIndex × ℕ)
  seen : Finset (NodeIndex × ℕ)
  cap : Option U256
deriving DecidableEq

def maxCandidatesReached (count : ℕ) (config : SearchConfig) : Bool :=
  config.maxCandidates.any fun limit => limit ≤ count

/-- The larger of the incumbent and a new amount. -/
def raiseIncumbent (incumbent : Option U256) (amount : U256) : Option U256 :=
  some (incumbent.elim amount fun best => max best amount)

/-- Quotes in descending output order; equal outputs keep their order. -/
def sortByAmountOut (quotes : List RouteQuote) : List RouteQuote :=
  quotes.insertionSort fun left right => right.amountOut ≤ left.amountOut

def rankOrNoViable (candidates : ℕ) (quotes : List RouteQuote)
    (failures : List PathFailure) : Except SearchError (List RouteQuote) :=
  if quotes = [] then .error (.noViableRoute candidates failures)
  else .ok (sortByAmountOut quotes)

/-- The quoting loop of one branch group. -/
structure GroupQuotes where
  quoted : List QuotedHeuristicHop := []
  bestQuotedOutput : Option U256 := none
  failures : List PathFailure := []
deriving DecidableEq

/-- The mutable state of a heuristic search.  `halted` records that the search
loop of the current pass was left by a `break`. -/
structure HeuristicRun (σ : Type) where
  quotes : List RouteQuote := []
  failures : List PathFailure := []
  evaluatedPaths : Finset RoutePath := ∅
  incumbentAmount : Option U256 := none
  prefixDominance : PrefixDominanceIndex := .empty
  nextFrontier : List HeuristicState := []
  deferredEdgesSeen : Bool := false
  observed : σ
  stopped : Bool := false
  halted : Bool := false

namespace AmmSearcher

variable {G : Type} [StableDiGraph G Address EdgeData] (searcher : AmmSearcher G)
  (context : HeuristicContext)

def quoteEnv (simConfig : SimConfig) : QuoteEnv :=
  ⟨searcher.registry, simConfig, searcher.debug⟩

/-- A hop quote of this search. -/
def quoteHop (hop : Hop) (amountIn : U256) : Except Text U256 :=
  (searcher.quoteEnv context.simConfig).quoteHop searcher.quoteContext hop amountIn

def futureBlockedPools (node : NodeIndex) (visitedTokens : Finset Address)
    (usedPools : Finset PoolKey) : Finset PoolKey :=
  (((searcher.graph.outgoingEdges node).filter fun edge =>
    edge.pool ∈ usedPools ∧ context.admits visitedTokens edge = true).map
      CachedOutgoingEdge.pool).toFinset

/-- The dominance label of a state. -/
def label (state : HeuristicState) : PrefixLabel :=
  ⟨state.amount, state.visitedTokens,
    searcher.futureBlockedPools context state.node state.visitedTokens
      state.usedPools⟩

/-- The edge loop of the static search.  The two sets are updated before a
recursive call and restored after it. -/
def staticScan (remainingHops : ℕ)
    (recurse : NodeIndex → StaticSets → Bool × StaticSets) :
    List CachedOutgoingEdge → StaticSets → Bool × StaticSets
  | [], sets => (false, sets)
  | edge :: rest, sets =>
      if edge.pool ∈ sets.usedPools then
        staticScan remainingHops recurse rest sets
      else if context.admits sets.visitedTokens edge = false then
        staticScan remainingHops recurse rest sets
      else if edge.target = context.target then (true, sets)
      else if remainingHops ≤ 1 then staticScan remainingHops recurse rest sets
      else
        let found := recurse edge.target
          ⟨insert edge.tokenOut sets.visitedTokens, insert edge.pool sets.usedPools⟩
        let restored : StaticSets :=
          ⟨if edge.tokenOut ∈ sets.visitedTokens then found.2.visitedTokens
            else found.2.visitedTokens.erase edge.tokenOut,
          if edge.pool ∈ sets.usedPools then found.2.usedPools
            else found.2.usedPools.erase edge.pool⟩
        if found.1 then (true, restored)
        else staticScan remainingHops recurse rest restored

def hasStaticRouteToTargetDfs : ℕ → NodeIndex → StaticSets → Bool × StaticSets
  | 0, node, sets =>
      staticScan context 0 (fun _ sets => (false, sets))
        (searcher.graph.outgoingEdges node) sets
  | remaining + 1, node, sets =>
      staticScan context (remaining + 1) (hasStaticRouteToTargetDfs remaining)
        (searcher.graph.outgoingEdges node) sets

def hasStaticRouteToTarget (start : NodeIndex) (visitedTokens : Finset Address)
    (usedPools : Finset PoolKey) (maxHops : ℕ) : Bool :=
  if start = context.target then true
  else if maxHops = 0 then false
  else
    (searcher.hasStaticRouteToTargetDfs context maxHops start
      ⟨visitedTokens, usedPools⟩).1

/-- The hop that an outgoing edge offers to a state. -/
def admissibleHop (state : HeuristicState) (edge : CachedOutgoingEdge) :
    Option Hop :=
  let remainingAfterHop := context.config.maxHops - (state.path.length + 1)
  if edge.pool ∈ state.usedPools then none
  else if context.admits state.visitedTokens edge = false then none
  else if edge.target ≠ context.target ∧ (remainingAfterHop = 0 ∨
      searcher.hasStaticRouteToTarget context edge.target
        (insert edge.tokenOut state.visitedTokens) (insert edge.pool state.usedPools)
        remainingAfterHop = false) then none
  else some ⟨edge.pool, edge.tokenIn, edge.tokenOut⟩

def groupHeuristicHops (mode : HeuristicPassMode) (state : HeuristicState) :
    List HeuristicHopGroup :=
  let hops := (searcher.graph.outgoingEdges state.node).filterMap
    (searcher.admissibleHop context state)
  let grouped := (hops.map Hop.tokenOut).dedup.map fun token =>
    (token, hops.filter fun hop => hop.tokenOut = token)
  searcher.sortedHeuristicHopGroups mode state.path grouped context.target
    context.connectorTokens context.heuristic context.config.liquidityPruning

/-- The edges of one queue entry of the balance cap; `none` is an unknown
balance into the target. -/
def capEdges (index : PoolLiquidityIndex) (target : NodeIndex)
    (targetToken : Address) (maxHops depth : ℕ) :
    List CachedOutgoingEdge → CapRun → Option CapRun
  | [], run => some run
  | edge :: rest, run =>
      if depth + 1 > maxHops then capEdges index target targetToken maxHops depth rest run
      else if edge.target = target then
        match (index.balanceState edge.pool targetToken).fresh? with
        | some balance =>
            capEdges index target targetToken maxHops depth rest
              { run with cap := raiseIncumbent run.cap balance }
        | none => none
      else if depth + 1 < maxHops then
        capEdges index target targetToken maxHops depth rest
          { run with queue := run.queue ++ [(edge.target, depth + 1)] }
      else capEdges index target targetToken maxHops depth rest run

def capLoop (index : PoolLiquidityIndex) (target : NodeIndex)
    (targetToken : Address) (maxHops : ℕ) : ℕ → CapRun → UpperBoundCap
  | 0, _ => .unknown
  | fuel + 1, run =>
      match run.queue with
      | [] => run.cap.elim .unknown .known
      | (node, depth) :: rest =>
          if maxHops ≤ depth ∨ (node, depth) ∈ run.seen then
            capLoop index target targetToken maxHops fuel { run with queue := rest }
          else
            match capEdges index target targetToken maxHops depth
                (searcher.graph.outgoingEdges node)
                { run with queue := rest, seen := insert (node, depth) run.seen } with
            | none => .unknown
            | some run => capLoop index target targetToken maxHops fuel run

def targetBalanceCap (start target : NodeIndex) (targetToken : Address)
    (maxHops : ℕ) : UpperBoundCap :=
  match searcher.liquidityIndex with
  | none => .unknown
  | some index =>
      if maxHops = 0 then .unknown
      else
        searcher.capLoop index target targetToken maxHops
          (searcher.graph.enumerationFuel maxHops + 1) ⟨[(start, 0)], ∅, none⟩

def shouldPruneUpperBoundPrefix (state : HeuristicState)
    (incumbentAmount : Option U256) : Bool :=
  let config := context.heuristic.upperBoundPruning
  if context.allowFinalSourceRevisit = true ∨ config.enabled = false ∨
      config.balanceCapPruning = false ∨ state.node = context.target ∨
      context.config.maxHops ≤ state.path.length then false
  else
    match incumbentAmount with
    | none => false
    | some incumbent =>
        match searcher.targetBalanceCap state.node context.target context.tokenOut
            (context.config.maxHops - state.path.length) with
        | .known cap => decide (cap ≤ incumbent)
        | .unknown => false

def shortlistedRankedHops (mode : HeuristicPassMode)
    (ranked : List LiquidityRankedHop) : List LiquidityRankedHop :=
  if context.heuristic.edgeShortlist.enabled = false ∨ ranked.length ≤ 1 then ranked
  else ranked.take (mode.edgeLimit context.heuristic)

def shouldPruneLiquidityHop (ranked : LiquidityRankedHop)
    (bestQuotedOutput : Option U256) (closesTarget : Bool) : Bool :=
  let config := context.config.liquidityPruning
  if ranked.liquidityActive = false ∨ config.enabled = false ∨
      config.pruneBalanceDominated = false then false
  else
    match bestQuotedOutput, ranked.outputBalance.fresh? with
    | some best, some balance =>
        (closesTarget ||
          searcher.liquidityIndex.any fun index => index.isTwoTokenPool ranked.hop.pool) &&
            decide (balance ≤ best)
    | _, _ => false

/-- Quote one shortlisted hop of a group. -/
def quoteRankedHop (state : HeuristicState) (closesTarget : Bool)
    (quotes : GroupQuotes) (ranked : LiquidityRankedHop) : GroupQuotes :=
  if searcher.shouldPruneLiquidityHop context ranked quotes.bestQuotedOutput
      closesTarget then quotes
  else
    match searcher.quoteHop context ranked.hop state.amount with
    | .ok amountOut =>
        { quotes with
          quoted := quotes.quoted ++ [⟨ranked.hop, amountOut⟩]
          bestQuotedOutput := raiseIncumbent quotes.bestQuotedOutput amountOut }
    | .error reason =>
        { quotes with
          failures := quotes.failures ++ [⟨state.path ++ [ranked.hop], reason⟩] }

def retainLimit (mode : HeuristicPassMode) : ℕ :=
  if context.heuristic.edgeShortlist.enabled then mode.edgeLimit context.heuristic
  else context.heuristic.parallelEdgeLimit

/-- The quoted hops that a group keeps, best output first. -/
def retainQuoted (mode : HeuristicPassMode) (quoted : List QuotedHeuristicHop) :
    List QuotedHeuristicHop :=
  (quoted.insertionSort fun left right => right.amountOut ≤ left.amountOut).take
    (retainLimit context mode)

section Run

variable {σ : Type} (onQuote : σ → RouteQuote → σ × Bool)

/-- Record a path that reaches the target. -/
def completePath (run : HeuristicRun σ) (quote : RouteQuote) : HeuristicRun σ :=
  if quote.path ∈ run.evaluatedPaths then run
  else
    let (observed, keepSearching) := onQuote run.observed quote
    let quotes := run.quotes ++ [quote]
    { run with
      evaluatedPaths := insert quote.path run.evaluatedPaths
      incumbentAmount := raiseIncumbent run.incumbentAmount quote.amountOut
      observed := observed
      quotes := quotes
      stopped := !keepSearching
      halted := !keepSearching || maxCandidatesReached quotes.length context.config }

/-- Put a prefix on the next frontier unless a label dominates it. -/
def pushPrefix (run : HeuristicRun σ) (token : Address) (state : HeuristicState) :
    HeuristicRun σ :=
  if context.heuristic.prefixDominance then
    let (dominated, index) :=
      run.prefixDominance.insertOrDominated token (searcher.label context state)
    if dominated then { run with prefixDominance := index }
    else
      { run with
        prefixDominance := index
        nextFrontier := run.nextFrontier ++ [state] }
  else { run with nextFrontier := run.nextFrontier ++ [state] }

/-- The prefix that a quoted hop leads to. -/
def nextState (state : HeuristicState) (node : NodeIndex)
    (quoted : QuotedHeuristicHop) : HeuristicState :=
  { node := node
    path := state.path ++ [quoted.hop]
    hopQuotes := state.hopQuotes ++ [⟨quoted.hop, state.amount, quoted.amountOut⟩]
    amount := quoted.amountOut
    visitedTokens := insert quoted.hop.tokenOut state.visitedTokens
    usedPools := insert quoted.hop.pool state.usedPools }

def expandQuoted (state : HeuristicState) (run : HeuristicRun σ)
    (quoted : QuotedHeuristicHop) : HeuristicRun σ :=
  if run.halted then run
  else
    match searcher.graph.nodeIndex quoted.hop.tokenOut with
    | none => run -- never taken: a hop's output token is indexed
    | some node =>
        let next := nextState state node quoted
        if node = context.target then
          if context.config.minHops ≤ next.path.length then
            completePath context onQuote run
              ⟨next.path, context.amountIn, next.amount, next.hopQuotes⟩
          else run
        else if next.path.length < context.config.maxHops then
          searcher.pushPrefix context run quoted.hop.tokenOut next
        else run

def expandGroup (mode : HeuristicPassMode) (state : HeuristicState)
    (run : HeuristicRun σ) (group : HeuristicHopGroup) : HeuristicRun σ :=
  if run.halted then run
  else
    let ranked := searcher.liquidityRankedHops group.hops
      context.heuristic.edgeShortlist context.config.liquidityPruning
    let deferred := decide (mode = .initial ∧
      .refinement ∈ heuristicPassModes context.heuristic ∧
      context.heuristic.edgeShortlist.enabled = true ∧
      mode.edgeLimit context.heuristic < ranked.length)
    let quotes := (shortlistedRankedHops context mode ranked).foldl
      (searcher.quoteRankedHop context state group.closesTarget) {}
    (retainQuoted context mode quotes.quoted).foldl
      (searcher.expandQuoted context onQuote state)
      { run with
        failures := run.failures ++ quotes.failures
        deferredEdgesSeen := run.deferredEdgesSeen || deferred }

/-- The checks that skip a popped state. -/
def skipsState (run : HeuristicRun σ) (state : HeuristicState) : Bool :=
  decide (context.config.maxHops ≤ state.path.length) ||
    searcher.shouldPruneUpperBoundPrefix context state run.incumbentAmount ||
    (context.heuristic.prefixDominance &&
      match searcher.graph.nodeToken state.node with
      | none => true
      | some token =>
          run.prefixDominance.isStrictlyDominated token (searcher.label context state))

def expandState (mode : HeuristicPassMode) (run : HeuristicRun σ)
    (state : HeuristicState) : HeuristicRun σ :=
  if run.halted then run
  else if searcher.skipsState context run state then run
  else
    (searcher.groupHeuristicHops context mode state).foldl
      (searcher.expandGroup context onQuote mode state) run

/-- Drop the frontier states that a later label strictly dominates. -/
def retainUndominated (index : PrefixDominanceIndex)
    (frontier : List HeuristicState) : List HeuristicState :=
  if context.heuristic.prefixDominance then
    frontier.filter fun state =>
      match searcher.graph.nodeToken state.node with
      | none => true
      | some token => !index.isStrictlyDominated token (searcher.label context state)
  else frontier

def sortFrontier (frontier : List HeuristicState) : List HeuristicState :=
  frontier.insertionSort fun left right =>
    ((cmp right.amount left.amount).then
      (cmp (searcher.routePathSortKey left.path)
        (searcher.routePathSortKey right.path))).isLE = true

def applyBeamWidth (frontier : List HeuristicState) (beamWidth : Option ℕ)
    (sortWithoutTruncation : Bool) : List HeuristicState :=
  let exceeds := beamWidth.any fun width => width < frontier.length
  let frontier :=
    if sortWithoutTruncation || exceeds then searcher.sortFrontier frontier
    else frontier
  match beamWidth with
  | some width => if width < frontier.length then frontier.take width else frontier
  | none => frontier

/-- The frontier of the next level. -/
def nextLevel (run : HeuristicRun σ) : List HeuristicState :=
  let preserveLiquidityBranchOrder :=
    context.config.liquidityPruning.enabled &&
      context.config.liquidityPruning.rankBranchesByLiquidity &&
      searcher.liquidityIndex.isSome
  searcher.applyBeamWidth
    (searcher.retainUndominated context run.prefixDominance run.nextFrontier)
    context.heuristic.beamWidth (!preserveLiquidityBranchOrder)

/-- The level loop of one pass.  Every level lengthens the paths of the
frontier by one hop, which bounds the number of levels. -/
def searchLoop (mode : HeuristicPassMode) :
    ℕ → List HeuristicState → HeuristicRun σ → HeuristicRun σ
  | 0, _, run => run
  | fuel + 1, frontier, run =>
      if frontier = [] then run
      else
        let run := frontier.foldl (searcher.expandState context onQuote mode)
          { run with nextFrontier := [] }
        if run.halted then run
        else searchLoop mode fuel (searcher.nextLevel context run) run

def runPass (run : HeuristicRun σ) (mode : HeuristicPassMode) : HeuristicRun σ :=
  searcher.searchLoop context onQuote mode (context.config.maxHops + 1)
    [context.rootState]
    { run with halted := false, deferredEdgesSeen := false, nextFrontier := [] }

/-- The pass loop with its two early exits. -/
def runPasses : List HeuristicPassMode → HeuristicRun σ → HeuristicRun σ
  | [], run => run
  | mode :: rest, run =>
      let run := searcher.runPass context onQuote run mode
      if run.stopped then run
      else if mode = .initial ∧
          .refinement ∈ heuristicPassModes context.heuristic ∧
          run.deferredEdgesSeen = false then run
      else runPasses rest run

/-- Take over the fast-lane quotes up to the candidate limit. -/
def acceptFastLane (config : SearchConfig) :
    List RouteQuote → HeuristicRun σ → HeuristicRun σ
  | [], run => run
  | quote :: rest, run =>
      let run :=
        { run with
          incumbentAmount := raiseIncumbent run.incumbentAmount quote.amountOut
          quotes := run.quotes ++ [quote] }
      if maxCandidatesReached run.quotes.length config then { run with stopped := true }
      else acceptFastLane config rest run

def runFastLane (run : HeuristicRun σ) : HeuristicRun σ :=
  if context.allowFinalSourceRevisit = false ∧
      context.heuristic.fastLane.enabled = true then
    let paths := searcher.fastLanePaths context.tokenIn context.tokenOut
      context.config context.heuristic context.connectorTokens
    if paths = [] then run
    else
      let report := quotePathsWithRegistryObserved
        ⟨onQuote, fun observed _ => (observed, true)⟩
        (searcher.quoteEnv context.simConfig) searcher.quoteContext
        context.amountIn paths run.observed
      acceptFastLane context.config report.quotes
        { run with
          evaluatedPaths := run.evaluatedPaths ∪ paths.toFinset
          failures := run.failures ++ report.failures
          observed := report.observed
          stopped := report.stopped }
  else run

def finalists (quotes : List RouteQuote) : List RouteQuote :=
  (sortByAmountOut quotes).take context.heuristic.maxFinalists

/-- The report of a search that was stopped or limited to the fast lane. -/
def finishFastLane (run : HeuristicRun σ) :
    Except SearchError HeuristicRoutesReport :=
  let quotes := finalists context run.quotes
  if quotes = [] ∧ run.failures ≠ [] ∧ run.stopped = true then
    .error (.noViableRoute run.failures.length run.failures)
  else .ok ⟨quotes, run.stopped, run.failures.length⟩

/-- The report after the passes. -/
def finishSearch (run : HeuristicRun σ) :
    Except SearchError HeuristicRoutesReport :=
  let quotes := finalists context run.quotes
  if run.stopped then .ok ⟨quotes, run.stopped, run.failures.length⟩
  else if run.quotes = [] then
    if run.failures = [] then .error (.noPath context.tokenIn context.tokenOut)
    else .error (.noViableRoute run.failures.length run.failures)
  else if context.heuristic.simulateFinalists = false then
    .ok ⟨quotes, false, run.failures.length⟩
  else
    let simulated := quotePathsWithRegistry (searcher.quoteEnv context.simConfig)
      searcher.quoteContext (quotes.map RouteQuote.path) context.amountIn
    match rankOrNoViable quotes.length simulated.1 (run.failures ++ simulated.2) with
    | .error error => .error error
    | .ok ranked => .ok ⟨ranked, false, run.failures.length + simulated.2.length⟩

/-- The search after its inputs were resolved. -/
def searchRoutes (runLimit : HeuristicRunLimit) (observed : σ) :
    σ × Except SearchError HeuristicRoutesReport :=
  let run := searcher.runFastLane context onQuote { observed := observed }
  if run.stopped = true ∨ runLimit = .fastLaneOnly then
    (run.observed, finishFastLane context run)
  else
    let run := searcher.runPasses context onQuote
      (heuristicPassModes context.heuristic) run
    (run.observed, searcher.finishSearch context run)

def findRoutesHeuristicWithCacheObserved (tokenIn tokenOut : Address)
    (amountIn : U256) (config : SearchConfig) (heuristic : HeuristicSearchConfig)
    (simConfig : SimConfig) (allowFinalSourceRevisit : Bool)
    (runLimit : HeuristicRunLimit) (observed : σ) :
    σ × Except SearchError HeuristicRoutesReport :=
  match config.validate with
  | .error error => (observed, .error error)
  | .ok () =>
      match searcher.graph.nodeIndex tokenIn, searcher.graph.nodeIndex tokenOut with
      | none, _ => (observed, .error (.tokenNotFound tokenIn))
      | some _, none => (observed, .error (.tokenNotFound tokenOut))
      | some source, some target =>
          searcher.searchRoutes
            { source := source
              target := target
              tokenIn := tokenIn
              tokenOut := tokenOut
              amountIn := amountIn
              config := config
              heuristic := heuristic
              simConfig := simConfig
              allowFinalSourceRevisit := allowFinalSourceRevisit
              connectorTokens :=
                searcher.connectorTokensForHeuristic tokenIn tokenOut config heuristic }
            onQuote runLimit observed

end Run

def findRoutesHeuristicWithCache (tokenIn tokenOut : Address) (amountIn : U256)
    (config : SearchConfig) (heuristic : HeuristicSearchConfig)
    (simConfig : SimConfig) (allowFinalSourceRevisit : Bool) :
    Except SearchError (List RouteQuote) :=
  (searcher.findRoutesHeuristicWithCacheObserved (fun _ _ => ((), true)) tokenIn
    tokenOut amountIn config heuristic simConfig allowFinalSourceRevisit .full
    ()).2.map HeuristicRoutesReport.quotes

def quoteAndRankWithCache (paths : List RoutePath) (amountIn : U256)
    (simConfig : SimConfig) : Except SearchError (List RouteQuote) :=
  let report := quotePathsWithRegistry (searcher.quoteEnv simConfig)
    searcher.quoteContext paths amountIn
  rankOrNoViable paths.length report.1 report.2

/-- Find and quote routes; the mode of the request selects the search. -/
def findRoutes (request : RouteRequest) : Except SearchError (List RouteQuote) :=
  match request.config.mode with
  | .exhaustive => do
      let enumeration ← searcher.graph.enumerateRoutesFiltered request.tokenIn
        request.tokenOut request.config false ∅ request.config.maxCandidates none
      searcher.quoteAndRankWithCache enumeration.paths request.amountIn
        request.simConfig
  | .heuristic heuristic =>
      searcher.findRoutesHeuristicWithCache request.tokenIn request.tokenOut
        request.amountIn request.config heuristic request.simConfig false

end AmmSearcher

end AmmSearch
