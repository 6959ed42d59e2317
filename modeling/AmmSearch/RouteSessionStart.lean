/-
The start of a route session.  However its stream ends, the session is current: each
route it has found is filed under all its pools, its parallel replacements are filed
as probes, and its best quote is the best of the table.
-/
import AmmSearch.RouteSessionInvariant
import AmmSearch.StreamingSteps

open FiniteMap StableGraph MemoTable

namespace AmmSearch

/-- A stream that ends well reports good quotes and the best of them. -/
def ReportsQuotes {κ : Type} (good : RouteQuote → Prop)
    (result : κ × Except SearchError StreamingRunReport) : Prop :=
  ∀ run, result.2 = .ok run →
    IsBest run.quotes run.report.best ∧ ∀ quote ∈ run.quotes, good quote

section Stream

variable {κ : Type} {onEvent : EventCallback κ} {streaming : StreamingSearchConfig}
  {good : RouteQuote → Prop}

theorem reportsQuotes_fail (run : StreamRun κ) (error : SearchError) :
    ReportsQuotes good (run.fail error) := by
  intro result hresult
  cases hresult

theorem StreamRun.Faithful.finish {run : StreamRun κ} (hrun : run.Faithful good)
    (finality : SearchFinality) (emitCompleted : Bool) :
    ReportsQuotes good (run.finish streaming onEvent finality emitCompleted) := by
  intro result hresult
  have hreleased : (run.session.releaseInitialResultsAtCompletion streaming onEvent
      finality).1.state.best = run.session.state.best := by
    unfold StreamingSession.releaseInitialResultsAtCompletion
    split
    · rfl
    · exact StreamingSession.best_releaseInitialResults _ _
  have hbest : (run.session.finishStreamReport streaming onEvent finality
      emitCompleted).2.best = run.session.state.best := by
    simp only [StreamingSession.finishStreamReport]
    split <;> exact hreleased
  obtain rfl := Except.ok.inj hresult
  refine ⟨?_, hrun.quotes⟩
  simp only [hbest]
  exact hrun.tracks

theorem StreamRun.Faithful.emit {run : StreamRun κ} (hrun : run.Faithful good)
    (onEvent : EventCallback κ) (event : RouteSearchEvent) :
    (run.emit onEvent event).1.Faithful good :=
  hrun.of_eq rfl rfl

namespace StreamRun

variable {start run : StreamRun κ} {result : StreamRun κ × Bool}

theorem Step.faithful (hrun : run.Faithful good)
    (hstep : Step streaming onEvent good run result) : result.1.Faithful good := by
  cases hstep with
  | heuristicQuote quote hquote => exact hrun.observe hquote rfl rfl
  | exhaustiveQuote quote hquote => exact hrun.observe hquote rfl rfl
  | failures phase count =>
      exact hrun.of_eq (StreamingSession.best_observeFailedCandidates _ _ _) rfl
  | evaluated paths => exact hrun.of_eq rfl rfl
  | heuristicDone => exact hrun.of_eq (StreamingSession.finishHeuristicPhase_emits _).best rfl
  | phaseCompleted phase => exact hrun.emit onEvent _
  | skipped duplicates => exact hrun.of_eq rfl rfl
  | total count hnew => exact hrun.of_eq (StreamingSession.setTotalCandidates_emits _ _).best rfl
  | exhaustiveDone => exact hrun.of_eq rfl rfl

theorem Concludes.reportsQuotes (hstart : start.Faithful good)
    {result : κ × Except SearchError StreamingRunReport}
    (hconcludes : Concludes streaming onEvent good start result) :
    ReportsQuotes good result := by
  have hreaches : ∀ {run}, Reached streaming onEvent good start run → run.Faithful good :=
    fun hreached => hreached.holds (fun hrun hstep => hstep.faithful hrun) hstart
  cases hconcludes with
  | failed hrun error => exact reportsQuotes_fail _ _
  | completed hrun => exact (hreaches hrun).finish _ _
  | stopped hrun finality hfinality emitCompleted =>
      rcases hrun with hreached | hended
      · exact (hreaches hreached).finish _ _
      · have hfaithful := hended.holds (fun hrun hstep => hstep.faithful hrun) hstart
        exact hfaithful.finish _ _

end StreamRun

namespace AmmSearcher

variable {G : Type} {searcher : AmmSearcher G} {request : RouteRequest}
  [StableDiGraph G Address EdgeData]

/-- Whatever its callback answers, a stream reports quotes of their paths and the best
of them. -/
theorem streamRoutes_reportsQuotes (request : RouteRequest)
    (streaming : StreamingSearchConfig) (schedule : List FanIn.Event)
    (onEvent : EventCallback κ) (shouldContinue : Option (ℕ → Bool)) (callback : κ) :
    ReportsQuotes ((searcher.quoteEnv request.simConfig).Gives request.amountIn)
      (searcher.streamRoutesParallelWithCache request streaming schedule onEvent
        shouldContinue callback) := by
  have hnew : StreamRun.Faithful
      ((searcher.quoteEnv request.simConfig).Gives request.amountIn)
      ({ session := ⟨.new streaming, callback⟩ } : StreamRun κ) :=
    ⟨rfl, fun quote hquote => absurd hquote List.not_mem_nil⟩
  have hstarted := hnew.emit onEvent (.started streaming.completion)
  rcases searcher.streamRoutes_concludes request streaming schedule onEvent shouldContinue
    callback with ⟨error, herror⟩ | ⟨_, hrefused⟩ | ⟨_, _, hconcludes⟩
  · intro run hrun
    rw [herror] at hrun
    cases hrun
  · intro run hrun
    rw [hrefused] at hrun
    obtain rfl := Except.ok.inj hrun
    exact ⟨hstarted.tracks, hstarted.quotes⟩
  · exact hconcludes.reportsQuotes hstarted

end AmmSearcher

end Stream

namespace RouteSearchSession

variable {G : Type} {searcher : AmmSearcher G} {session : RouteSearchSession}

/-- The pools of all edges parallel to a table hop are filed. -/
def FilesParallel (session : RouteSearchSession) (searcher : AmmSearcher G) : Prop :=
  ∀ path ∈ session.routeTable, ∀ hop ∈ path, ∀ node,
    searcher.graph.nodeIndex hop.tokenIn = some node →
    ∀ edge ∈ searcher.graph.outgoingEdges node, edge.tokenOut = hop.tokenOut →
    session.Files edge.pool

/-- An edge parallel to a hop of the path gives a probe, or the path uses its pool. -/
theorem FilesParallel.insertQuote (hfiles : session.FilesParallel searcher)
    (quote : RouteQuote) : (session.insertQuote searcher quote).FilesParallel searcher := by
  intro path hpath hop hhop node hnode edge hedge htoken
  obtain rfl | hold := mem_routeTable_insertQuote.mp hpath
  · obtain ⟨hopIndex, hindex⟩ := List.mem_iff_getElem?.mp hhop
    cases hprobe : probeForEdge quote.path hopIndex hop edge with
    | none =>
        obtain ⟨used, hused, hpool⟩ := mem_of_probeForEdge_none hindex htoken hprobe
        exact hpool ▸ (covers_insertQuote_self hused).1
    | some probe =>
        refine ⟨probe, Or.inr (mem_pathsOf_indexProbePathsForRoute.mpr (Or.inl ?_))⟩
        exact ⟨hopIndex, hop, node, edge, hindex, hnode, hedge, hprobe, Or.inr rfl⟩
  · exact (hfiles path hold hop hhop node hnode edge hedge htoken).insertQuote

theorem FilesParallel.insertQuotes (hfiles : session.FilesParallel searcher)
    (quotes : List RouteQuote) :
    (session.insertQuotes searcher quotes).FilesParallel searcher := by
  unfold RouteSearchSession.insertQuotes
  induction quotes generalizing session with
  | nil => exact hfiles
  | cons quote rest ih => exact ih (hfiles.insertQuote quote)

end RouteSearchSession

section Cache

variable {G : Type} {searcher : AmmSearcher G} {request : RouteRequest}

/-- The hop follows an edge of the graph. -/
def AmmSearcher.GraphHop (searcher : AmmSearcher G) (hop : Hop) : Prop :=
  ∃ node, searcher.graph.nodeIndex hop.tokenIn = some node ∧
    ∃ edge ∈ searcher.graph.outgoingEdges node,
      edge.tokenOut = hop.tokenOut ∧ edge.pool = hop.pool

/-- The adapter's answer to a hop of the graph that `key` stands for. -/
def AmmSearcher.StreamAnswer (searcher : AmmSearcher G) (request : RouteRequest)
    (key : HopQuoteKey) (entry : Except Text U256) : Prop :=
  ∃ hop amount, searcher.GraphHop hop ∧
    (searcher.quoteEnv request.simConfig).quoteKey searcher.quoteContext hop amount =
      .ok key ∧
    entry = (searcher.quoteEnv request.simConfig).quoteHopUncached hop amount

/-- A new cache after the quoting programs of a stream, interleaved by `schedule`. -/
def streamCache (programs : List (QuoteProgram Unit)) (schedule : List ℕ) :
    SharedQuoteCache :=
  (settle SharedQuoteCache.table
    (run SharedQuoteCache.table ⟨.empty, programs.map Worker.asking⟩ schedule)).table

theorem rightUnique_streamAnswer (hkeyed : searcher.quoteContext.Keyed) :
    Relator.RightUnique (searcher.StreamAnswer request) := by
  rintro key left right ⟨leftHop, leftAmount, _, hleft, rfl⟩
    ⟨rightHop, rightAmount, _, hright, rfl⟩
  obtain ⟨rfl, rfl⟩ := QuoteEnv.quoteKey_injective hkeyed hleft hright
  rfl

theorem streamCache_spec (hkeyed : searcher.quoteContext.Keyed)
    {programs : List (QuoteProgram Unit)}
    (hasks : ∀ program ∈ programs, program.Asks (searcher.StreamAnswer request))
    (schedule : List ℕ) :
    (streamCache programs schedule).Filed ∧
      Settled SharedQuoteCache.table (searcher.StreamAnswer request)
        (streamCache programs schedule) := by
  have hslot : ∀ key, SharedQuoteCache.table.slot .empty key = .absent := fun _ => rfl
  have hfilled : Filled SharedQuoteCache.table (searcher.StreamAnswer request)
      ⟨.empty, programs.map Worker.asking⟩ := by
    refine ⟨⟨?_, ?_, ?_⟩, ?_⟩
    · intro key entry hready
      rw [hslot] at hready
      cases hready
    · intro worker hworker
      obtain ⟨program, hprogram, rfl⟩ := List.mem_map.mp hworker
      exact hasks program hprogram
    · intro key hflight
      rw [hslot] at hflight
      cases hflight
    · intro key entry hready
      rw [hslot] at hready
      cases hready
  constructor
  · exact table_settle_run (fun _ key hcache => hcache.poll key)
      (fun _ key entry hcache => (hcache.recordExecuted entry).store key entry)
      SharedQuoteCache.filed_empty schedule
  · exact hfilled.settled (rightUnique_streamAnswer hkeyed) schedule

end Cache

section Start

variable {G : Type} {searcher : AmmSearcher G} {request : RouteRequest}
  {streaming : StreamingSearchConfig} {quoteCache : SharedQuoteCache}
  {run : StreamingRunReport}

open RouteSearchSession

theorem notMem_emptySession {path : RoutePath} :
    path ∉ (searcher.emptySession request streaming quoteCache run).routeTable :=
  Finmap.notMem_empty

theorem lookup_emptySession {path : RoutePath} :
    (searcher.emptySession request streaming quoteCache run).routeTable.lookup path =
      none :=
  Finmap.lookup_eq_none.mpr notMem_emptySession

theorem indexed_emptySession :
    (searcher.emptySession request streaming quoteCache run).Indexed := by
  have hindex : ∀ pool path, path ∉ PoolPathIndex.pathsOf ∅ pool := by
    intro pool path
    simp [PoolPathIndex.pathsOf]
  refine ⟨?_, ?_, ?_⟩
  · intro path hpath
    exact absurd hpath notMem_emptySession
  · intro pool path hpath
    exact absurd hpath (hindex pool path)
  · intro pool probe hprobe
    exact absurd hprobe (hindex pool probe)

/-- The best quote of the stream is among its quotes, so it is in the table. -/
theorem sessionFromRun_eq (hbest : IsBest run.quotes run.report.best) :
    searcher.sessionFromRun request streaming quoteCache run =
      (searcher.emptySession request streaming quoteCache run).insertQuotes searcher
        run.quotes := by
  unfold AmmSearcher.sessionFromRun
  cases hreport : run.report.best with
  | none => rfl
  | some best =>
      rw [hreport] at hbest
      simp only
      split
      · rfl
      · rename_i hmissing
        refine absurd ?_ hmissing
        obtain ⟨quote, _, _, hlookup⟩ | ⟨hnone, _⟩ := @lookup_insertQuotes G searcher
          (searcher.emptySession request streaming quoteCache run) run.quotes best.path
        · exact Finmap.mem_of_lookup_eq_some hlookup
        · exact absurd rfl (hnone best hbest.1)

variable (hbest : IsBest run.quotes run.report.best)
  (hquotes : ∀ quote ∈ run.quotes,
    (searcher.quoteEnv request.simConfig).Gives request.amountIn quote)

include hbest hquotes

theorem exact_sessionFromRun :
    (searcher.sessionFromRun request streaming quoteCache run).Exact
      (searcher.quoteEnv request.simConfig) := by
  rw [sessionFromRun_eq hbest]
  have hentry : ∀ path entry, ((searcher.emptySession request streaming
      quoteCache run).insertQuotes searcher run.quotes).routeTable.lookup path = some entry →
      ∃ quote ∈ run.quotes, quote.path = path ∧ entry = .quoted quote := by
    intro path entry hlookup
    obtain ⟨quote, hquote, hpath, hfound⟩ | ⟨_, hfound⟩ := @lookup_insertQuotes G searcher
      (searcher.emptySession request streaming quoteCache run) run.quotes path
    · rw [hfound, Option.some.injEq] at hlookup
      exact ⟨quote, hquote, hpath, hlookup.symm⟩
    · rw [hfound, lookup_emptySession] at hlookup
      cases hlookup
  constructor
  · intro path entry hlookup
    obtain ⟨quote, hquote, rfl, rfl⟩ := hentry path entry hlookup
    have hgives := hquotes quote hquote
    unfold QuoteEnv.Gives at hgives
    simp only [RouteSessionEntry.Truthful, request_insertQuotes]
    rw [show (searcher.emptySession request streaming quoteCache run).request.amountIn =
      request.amountIn from rfl, hgives]
  · unfold BestOfTable
    rw [best_insertQuotes, show (searcher.emptySession request streaming quoteCache run).best =
      run.report.best from rfl]
    cases hreport : run.report.best with
    | none =>
        rw [hreport] at hbest
        intro path quote hlookup
        obtain ⟨found, hfound, _⟩ := hentry path _ hlookup
        rw [show run.quotes = [] from hbest] at hfound
        exact absurd hfound List.not_mem_nil
    | some best =>
        rw [hreport] at hbest
        constructor
        · obtain ⟨quote, hquote, hpath, hfound⟩ | ⟨hnone, _⟩ := @lookup_insertQuotes G
            searcher (searcher.emptySession request streaming quoteCache run) run.quotes
            best.path
          · -- both quotes are what quoting the path gives
            have hsame := hquotes quote hquote
            unfold QuoteEnv.Gives at hsame
            rw [hpath, hquotes best hbest.1, Except.ok.injEq] at hsame
            exact ⟨best.path, hsame ▸ hfound⟩
          · exact absurd rfl (hnone best hbest.1)
        · intro path quote hlookup
          obtain ⟨found, hfound, _, hsame⟩ := hentry path _ hlookup
          rw [RouteSessionEntry.quoted.injEq] at hsame
          exact hsame ▸ hbest.2 found hfound

theorem current_sessionFromRun (hkeyed : searcher.quoteContext.Keyed)
    (hfiled : quoteCache.Filed)
    (hsettled : Settled SharedQuoteCache.table (searcher.StreamAnswer request) quoteCache) :
    (searcher.sessionFromRun request streaming quoteCache run).Current
      (searcher.quoteEnv request.simConfig) := by
  have hexact := @exact_sessionFromRun G searcher request streaming quoteCache run hbest
    hquotes
  rw [sessionFromRun_eq hbest] at hexact ⊢
  refine ⟨indexed_emptySession.insertQuotes, hexact, ?_, ?_, ?_⟩
  · rw [quoteCache_insertQuotes]
    exact hfiled
  · rw [quoteCache_insertQuotes]
    exact hsettled.idle
  · rw [quoteCache_insertQuotes]
    intro key entry hready
    obtain ⟨hop, amount, ⟨node, hnode, edge, hedge, htoken, hpool⟩, hkey, rfl⟩ :=
      hsettled.ready key entry hready
    obtain ⟨rfl, rfl⟩ := QuoteEnv.quoteKey_spec hkeyed hkey
    rintro ⟨path, hpath, other, hother, htokenIn, htokenOut⟩
    have hparallel : ((searcher.emptySession request streaming quoteCache run).insertQuotes
        searcher run.quotes).FilesParallel searcher := by
      apply FilesParallel.insertQuotes
      intro path hpath
      exact absurd hpath notMem_emptySession
    constructor
    · rw [← show edge.pool = key.logicalPool from hpool]
      exact hparallel path hpath other hother node (htokenIn ▸ hnode) edge hedge
        (htoken.trans htokenOut.symm)
    · exact QuoteEnv.toOption_quoteHopUncached _ _

end Start

namespace AmmSearcher

variable {G : Type} [StableDiGraph G Address EdgeData] {searcher : AmmSearcher G}

/-- A new session is current, whatever its callback has answered. -/
theorem startRouteSession_current {κ : Type} {request : RouteRequest}
    {streaming : StreamingSearchConfig} {schedule : List FanIn.Event}
    {onEvent : EventCallback κ} {callback callback' : κ} {session : RouteSearchSession}
    {quoteCache : SharedQuoteCache} (hkeyed : searcher.quoteContext.Keyed)
    (hfiled : quoteCache.Filed)
    (hsettled : Settled SharedQuoteCache.table (searcher.StreamAnswer request) quoteCache)
    (hstart : searcher.startRouteSession request streaming schedule onEvent quoteCache
      callback = (callback', .ok session)) :
    session.request = request ∧
      session.Current (searcher.quoteEnv request.simConfig) := by
  unfold startRouteSession at hstart
  rw [Prod.mk.injEq] at hstart
  obtain ⟨_, hresult⟩ := hstart
  cases hrun : (searcher.streamRoutesParallelWithCache request
      { streaming with emitAllViable := true } schedule onEvent none callback).2 with
  | error error =>
      rw [hrun] at hresult
      cases hresult
  | ok run =>
      rw [hrun] at hresult
      obtain rfl := Except.ok.inj hresult
      obtain ⟨hbest, hquotes⟩ := streamRoutes_reportsQuotes request
        { streaming with emitAllViable := true } schedule onEvent none callback run hrun
      refine ⟨?_, current_sessionFromRun hbest hquotes hkeyed hfiled hsettled⟩
      rw [sessionFromRun_eq hbest, RouteSearchSession.request_insertQuotes]
      rfl

end AmmSearcher

end AmmSearch
