/-
Route-search sessions: the routes that a stream has found, the pools they and
their parallel replacements depend on, and the refresh that quotes the affected
ones again after live updates.
-/
import AmmSearch.CachedQuoting
import AmmSearch.StreamingSearch

open FiniteMap StableGraph

namespace AmmSearch

/-- Pools whose state may have changed after a live-sync batch. -/
structure AffectedPools where
  pools : Finset PoolKey
  unknownLogs : ℕ := 0
  removedLogs : ℕ := 0
deriving DecidableEq

inductive IncrementalRouteUpdateStatus
  | unchanged
  | updated
  | recomputeRequired
deriving DecidableEq

/-- Why an incremental route session declined to update in place. -/
inductive RecomputeReason
  | removedLogs (count : ℕ)
  | unknownLogs (count : ℕ)
  | topologyChanged
  | statePointChanged (previous current : AmmStatePoint)
  | stateScopeChanged
  | unknownAffectedPool (pool : PoolKey)
  | degradedAffectedPool (pool : PoolKey)
  | probeBudgetExceeded (requested limit : ℕ)
deriving DecidableEq

structure IncrementalRouteUpdateReport where
  previousBest : Option RouteQuote
  best : Option RouteQuote
  status : IncrementalRouteUpdateStatus
  affectedPools : Finset PoolKey
  routesRequoted : ℕ
  probeRoutesQuoted : ℕ
  quoteCache : QuoteCacheStats
  recomputeReason : Option RecomputeReason
deriving DecidableEq

inductive RouteUpdateEvent
  | started (affectedPools : Finset PoolKey)
  | routeRequoted (quote : RouteQuote)
  | probeRouteFound (quote : RouteQuote)
  | bestChanged (previousBest best : Option RouteQuote)
  | recomputeRequired (reason : RecomputeReason)
  | completed (report : IncrementalRouteUpdateReport)
deriving DecidableEq

inductive RouteSessionEntry
  | quoted (quote : RouteQuote)
  | failed
deriving DecidableEq

def RouteSessionEntry.quote : RouteSessionEntry → Option RouteQuote
  | quoted quote => some quote
  | failed => none

/-- The paths filed under each pool. -/
abbrev PoolPathIndex := Map PoolKey (Finset RoutePath)

namespace PoolPathIndex

def pathsOf (index : PoolPathIndex) (pool : PoolKey) : Finset RoutePath :=
  (index.lookup pool).getD ∅

def insertPath (index : PoolPathIndex) (pool : PoolKey) (path : RoutePath) :
    PoolPathIndex :=
  alter index pool fun paths => some (insert path (paths.getD ∅))

end PoolPathIndex

def indexRoutePath (path : RoutePath) (index : PoolPathIndex) : PoolPathIndex :=
  path.foldl (fun index hop => index.insertPath hop.pool path) index

/-- The probe that takes `edge` instead of the hop at `hopIndex`. -/
def probeForEdge (path : RoutePath) (hopIndex : ℕ) (hop : Hop)
    (edge : CachedOutgoingEdge) : Option RoutePath :=
  if edge.tokenOut ≠ hop.tokenOut then none
  else if edge.pool = hop.pool then none
  else if path.zipIdx.any fun (existing, index) =>
      index ≠ hopIndex && existing.pool = edge.pool then none
  else some (path.set hopIndex ⟨edge.pool, hop.tokenIn, hop.tokenOut⟩)

def indexProbeForEdge (path : RoutePath) (hopIndex : ℕ) (hop : Hop)
    (index : PoolPathIndex) (edge : CachedOutgoingEdge) : PoolPathIndex :=
  match probeForEdge path hopIndex hop edge with
  | none => index
  | some probe => (index.insertPath hop.pool probe).insertPath edge.pool probe

/-- Keep the quote with the larger output; the later one when they are equal. -/
def laterMax (best : Option RouteQuote) (quote : RouteQuote) : Option RouteQuote :=
  match best with
  | none => some quote
  | some best => if quote.amountOut < best.amountOut then some best else some quote

structure RouteSearchSession where
  request : RouteRequest
  streamingConfig : StreamingSearchConfig
  finality : SearchFinality
  routeTable : Map RoutePath RouteSessionEntry
  poolToRoutes : PoolPathIndex
  parallelProbeIndex : PoolPathIndex
  best : Option RouteQuote
  quoteCache : SharedQuoteCache
  graphVersion : GraphVersion
  statePoint : Option AmmStatePoint
  maxProbePathsPerRefresh : ℕ

def defaultIncrementalProbeLimit : ℕ := 256

/-- A refresh callback, over the state it updates. -/
abbrev RouteUpdateCallback (κ : Type) := κ → RouteUpdateEvent → κ × SearchControl

def emitRouteUpdateEvent {κ : Type} (onEvent : RouteUpdateCallback κ) (callback : κ)
    (event : RouteUpdateEvent) : κ × Bool :=
  ((onEvent callback event).1, (onEvent callback event).2 == .continue)

/-- The inputs of one refresh, with the iteration orders of its hash sets. -/
structure RefreshCall (G : Type) where
  searcher : AmmSearcher G
  affected : AffectedPools
  poolOrder : HashOrder PoolKey
  pathOrder : HashOrder RoutePath

namespace AmmSearcher

variable {G : Type} [StableDiGraph G Address EdgeData] (searcher : AmmSearcher G)

def statePoint {G : Type} (searcher : AmmSearcher G) : Option AmmStatePoint :=
  searcher.quoteContext.point

def indexProbePathsForRoute (path : RoutePath) (index : PoolPathIndex) : PoolPathIndex :=
  path.zipIdx.foldl
    (fun index (hop, hopIndex) =>
      match searcher.graph.nodeIndex hop.tokenIn with
      | none => index
      | some node =>
          (searcher.graph.outgoingEdges node).foldl (indexProbeForEdge path hopIndex hop)
            index)
    index

/-- The paths of a hash set by their sort keys. -/
def sortedPaths (order : HashOrder RoutePath) (paths : Finset RoutePath) :
    List RoutePath :=
  (order.list paths).insertionSort fun left right =>
    (cmp (searcher.routePathSortKey left) (searcher.routePathSortKey right)).isLE = true

end AmmSearcher

namespace RouteSearchSession

variable {G : Type} [StableDiGraph G Address EdgeData] {κ : Type}
  (session : RouteSearchSession) (call : RefreshCall G) (onEvent : RouteUpdateCallback κ)

def insertQuote (searcher : AmmSearcher G) (session : RouteSearchSession)
    (quote : RouteQuote) : RouteSearchSession :=
  { session with
    routeTable := session.routeTable.insert quote.path (.quoted quote)
    poolToRoutes := indexRoutePath quote.path session.poolToRoutes
    parallelProbeIndex :=
      searcher.indexProbePathsForRoute quote.path session.parallelProbeIndex }

def insertFailed (session : RouteSearchSession) (path : RoutePath) : RouteSearchSession :=
  { session with routeTable := session.routeTable.insert path .failed }

def bestFromTable (order : HashOrder RoutePath) : Option RouteQuote :=
  ((order.list session.routeTable.keys).filterMap fun path =>
    (session.routeTable.lookup path).bind RouteSessionEntry.quote).foldl laterMax none

def incrementalReport (previousBest : Option RouteQuote)
    (status : IncrementalRouteUpdateStatus) (affectedPools : Finset PoolKey)
    (routesRequoted probeRoutesQuoted : ℕ) (recomputeReason : Option RecomputeReason) :
    IncrementalRouteUpdateReport where
  previousBest := previousBest
  best := session.best
  status := status
  affectedPools := affectedPools
  routesRequoted := routesRequoted
  probeRoutesQuoted := probeRoutesQuoted
  quoteCache := session.quoteCache.stats
  recomputeReason := recomputeReason

/-- Emit `Completed` with the report, whatever the answer. -/
def complete (callback : κ) (report : IncrementalRouteUpdateReport) :
    RouteSearchSession × κ × IncrementalRouteUpdateReport :=
  (session, (emitRouteUpdateEvent onEvent callback (.completed report)).1, report)

def recomputeRequired (previousBest : Option RouteQuote) (affectedPools : Finset PoolKey)
    (reason : RecomputeReason) (callback : κ) :
    RouteSearchSession × κ × IncrementalRouteUpdateReport :=
  session.complete onEvent
    (emitRouteUpdateEvent onEvent callback (.recomputeRequired reason)).1
    (session.incrementalReport previousBest .recomputeRequired affectedPools 0 0
      (some reason))

/-- The report of a refresh that finds nothing to quote. -/
def completeUnchanged (affectedPools : Finset PoolKey) (callback : κ) :
    RouteSearchSession × κ × IncrementalRouteUpdateReport :=
  session.complete onEvent callback
    (session.incrementalReport session.best .unchanged affectedPools 0 0 none)

def earlyRecomputeReason : Option RecomputeReason :=
  if 0 < call.affected.removedLogs then some (.removedLogs call.affected.removedLogs)
  else if 0 < call.affected.unknownLogs then some (.unknownLogs call.affected.unknownLogs)
  else
    let topology :=
      if session.graphVersion ≠ call.searcher.graph.version then
        some RecomputeReason.topologyChanged
      else none
    match session.statePoint, call.searcher.statePoint with
    | some previous, some current =>
        if previous ≠ current then some (.statePointChanged previous current) else topology
    | some _, none | none, some _ => some .stateScopeChanged
    | none, none => topology

/-- The first affected pool, in iteration order, that forces a new search. -/
def affectedPoolReason : Option RecomputeReason :=
  (call.poolOrder.list call.affected.pools).findSome? fun pool =>
    match call.searcher.registry.pool pool with
    | none => some (.unknownAffectedPool pool)
    | some registration =>
        if registration.status = .degraded then some (.degradedAffectedPool pool) else none

def materializedPaths : Finset RoutePath :=
  call.affected.pools.biUnion session.poolToRoutes.pathsOf

def probePaths : Finset RoutePath :=
  call.affected.pools.biUnion session.parallelProbeIndex.pathsOf \
    session.materializedPaths call

/-- Quote `paths` through the session cache, with one event a quote. -/
def quotePaths (event : RouteQuote → RouteUpdateEvent) (paths : List RoutePath)
    (callback : κ) : Option (QuoteRun κ × SharedQuoteCache) :=
  session.quoteCache.runProgram
    (quotePathsWithRegistryObservedCached
      ⟨fun callback quote => emitRouteUpdateEvent onEvent callback (event quote),
        fun callback _ => (callback, true)⟩
      (call.searcher.quoteEnv session.request.simConfig) call.searcher.quoteContext
      session.request.amountIn paths callback)

/-- The first quoting loop: all its paths are failed until they are quoted. -/
def requoteRoutes (paths : List RoutePath) (callback : κ) :
    Option (RouteSearchSession × κ × ℕ) :=
  if paths = [] then some (session, callback, 0)
  else
    (session.quotePaths call onEvent .routeRequoted paths callback).map
      fun (report, quoteCache) =>
        let session := paths.foldl insertFailed { session with quoteCache := quoteCache }
        let session := (report.failures.map PathFailure.path).foldl insertFailed session
        (report.quotes.foldl (insertQuote call.searcher) session, report.observed,
          report.quotes.length)

/-- The second quoting loop: a probe that cannot be quoted leaves no entry. -/
def quoteProbes (paths : List RoutePath) (callback : κ) :
    Option (RouteSearchSession × κ × ℕ) :=
  if paths = [] then some (session, callback, 0)
  else
    (session.quotePaths call onEvent .probeRouteFound paths callback).map
      fun (report, quoteCache) =>
        (report.quotes.foldl (insertQuote call.searcher)
          { session with quoteCache := quoteCache }, report.observed, report.quotes.length)

def bestChanged (previousBest : Option RouteQuote) : Bool :=
  session.best ≠ previousBest

/-- Choose the best route again and report. -/
def finishRefresh (previousBest : Option RouteQuote) (routesRequoted probeRoutesQuoted : ℕ)
    (callback : κ) : RouteSearchSession × κ × IncrementalRouteUpdateReport :=
  let session := { session with best := session.bestFromTable call.pathOrder }
  let callback :=
    if session.bestChanged previousBest then
      (emitRouteUpdateEvent onEvent callback (.bestChanged previousBest session.best)).1
    else callback
  let status :=
    if routesRequoted = 0 && probeRoutesQuoted = 0 && !session.bestChanged previousBest then
      IncrementalRouteUpdateStatus.unchanged
    else .updated
  session.complete onEvent callback
    (session.incrementalReport previousBest status call.affected.pools routesRequoted
      probeRoutesQuoted none)

/-- The session after the affected pools were dropped from its cache. -/
def invalidated : RouteSearchSession :=
  { session with
    quoteCache :=
      session.quoteCache.invalidatePools (call.poolOrder.list call.affected.pools) }

/-- The part of a refresh that quotes. -/
def requote (callback : κ) :
    Option (RouteSearchSession × κ × IncrementalRouteUpdateReport) := do
  let materialized :=
    call.searcher.sortedPaths call.pathOrder (session.materializedPaths call)
  let probes := call.searcher.sortedPaths call.pathOrder (session.probePaths call)
  let (requoted, callback, routesRequoted) ←
    (session.invalidated call).requoteRoutes call onEvent materialized callback
  let (probed, callback, probeRoutesQuoted) ←
    requoted.quoteProbes call onEvent probes callback
  some (probed.finishRefresh call onEvent session.best routesRequoted probeRoutesQuoted
    callback)

/-- Refresh the affected routes.  There is no result while another caller of the
cache is quoting. -/
def refreshAffected (callback : κ) :
    Option (RouteSearchSession × κ × IncrementalRouteUpdateReport) :=
  let earlyReason := session.earlyRecomputeReason call
  let (callback, keep) :=
    emitRouteUpdateEvent onEvent callback (.started call.affected.pools)
  if !keep then
    some (session, callback,
      session.incrementalReport session.best
        (if earlyReason.isSome then .recomputeRequired else .unchanged)
        call.affected.pools 0 0 earlyReason)
  else
    match earlyReason with
    | some reason =>
        some (session.recomputeRequired onEvent session.best call.affected.pools reason
          callback)
    | none =>
        if call.affected.pools = ∅ then
          some (session.completeUnchanged onEvent call.affected.pools callback)
        else
          match affectedPoolReason call with
          | some reason =>
              some (session.recomputeRequired onEvent session.best call.affected.pools
                reason callback)
          | none =>
              if session.materializedPaths call = ∅ ∧ session.probePaths call = ∅ then
                some (session.completeUnchanged onEvent call.affected.pools callback)
              else if session.maxProbePathsPerRefresh < (session.probePaths call).card then
                some (session.recomputeRequired onEvent session.best call.affected.pools
                  (.probeBudgetExceeded (session.probePaths call).card
                    session.maxProbePathsPerRefresh) callback)
              else session.requote call onEvent callback

end RouteSearchSession

namespace AmmSearcher

variable {G : Type} [StableDiGraph G Address EdgeData] (searcher : AmmSearcher G)

/-- A session before its first quote. -/
def emptySession (request : RouteRequest) (streaming : StreamingSearchConfig)
    (quoteCache : SharedQuoteCache) (run : StreamingRunReport) : RouteSearchSession where
  request := request
  streamingConfig := streaming
  finality := run.report.finality
  routeTable := ∅
  poolToRoutes := ∅
  parallelProbeIndex := ∅
  best := run.report.best
  quoteCache := quoteCache
  graphVersion := searcher.graph.version
  statePoint := searcher.statePoint
  maxProbePathsPerRefresh := defaultIncrementalProbeLimit

/-- The session over what a stream has quoted. -/
def sessionFromRun (request : RouteRequest) (streaming : StreamingSearchConfig)
    (quoteCache : SharedQuoteCache) (run : StreamingRunReport) : RouteSearchSession :=
  let session := run.quotes.foldl (RouteSearchSession.insertQuote searcher)
    (searcher.emptySession request streaming quoteCache run)
  match run.report.best with
  | none => session
  | some best =>
      if best.path ∈ session.routeTable then session
      else session.insertQuote searcher best

/-- Start a session; `quoteCache` is the shared cache as the stream leaves it. -/
def startRouteSession {κ : Type} (request : RouteRequest)
    (streaming : StreamingSearchConfig) (schedule : List FanIn.Event)
    (onEvent : EventCallback κ) (quoteCache : SharedQuoteCache) (callback : κ) :
    κ × Except SearchError RouteSearchSession :=
  let result := searcher.streamRoutesParallelWithCache request
    { streaming with emitAllViable := true } schedule onEvent none callback
  (result.1, result.2.map (searcher.sessionFromRun request streaming quoteCache))

end AmmSearcher

end AmmSearch
