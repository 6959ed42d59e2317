/-
Heuristic search without approximations.  A search that nothing cuts finds every
route of its request that can be quoted, each of them once, just as plain enumeration
does; so both modes of a route or cycle request return the same quotes.
-/
import AmmSearch.HeuristicDominance

open FiniteMap StableGraph

namespace AmmSearch

structure CycleRequest where
  baseToken : Address
  amountIn : U256
  config : SearchConfig
  simConfig : SimConfig
deriving DecidableEq

/-- A quoted cycle with its profit over the input. -/
structure CycleQuote where
  route : RouteQuote
  profit : Option U256
deriving DecidableEq

def CycleQuote.ofRoute (route : RouteQuote) : CycleQuote where
  route := route
  profit := if route.amountIn < route.amountOut then some (route.amountOut - route.amountIn)
    else none

/-- A request in another mode. -/
def RouteRequest.withMode (request : RouteRequest) (mode : SearchMode) : RouteRequest :=
  { request with config := { request.config with mode := mode } }

def CycleRequest.withMode (request : CycleRequest) (mode : SearchMode) : CycleRequest :=
  { request with config := { request.config with mode := mode } }

/-- The routes of a cycle request. -/
def CycleRequest.routes (request : CycleRequest) : RouteRequest where
  tokenIn := request.baseToken
  tokenOut := request.baseToken
  amountIn := request.amountIn
  config := request.config
  simConfig := request.simConfig

/-- Both succeed with the same elements, or both fail. -/
def SameOutcome {ε α : Type} : Except ε (List α) → Except ε (List α) → Prop
  | .ok left, .ok right => left.Perm right
  | .error _, .error _ => True
  | _, _ => False

theorem SameOutcome.map {ε α β : Type} {left right : Except ε (List α)}
    (hsame : SameOutcome left right) (f : α → β) :
    SameOutcome (left.map (List.map f)) (right.map (List.map f)) := by
  cases left with
  | error error =>
      cases right with
      | error error' => trivial
      | ok right => exact hsame.elim
  | ok left =>
      cases right with
      | error error => exact hsame.elim
      | ok right => exact List.Perm.map f hsame

namespace AmmSearcher

variable {G : Type} [StableDiGraph G Address EdgeData] (searcher : AmmSearcher G)

/-- Find and quote cycles; the mode of the request selects the search. -/
def findCycles (request : CycleRequest) : Except SearchError (List CycleQuote) :=
  let routes :=
    match request.config.mode with
    | .exhaustive => do
        let enumeration ← searcher.graph.enumerateRoutesFiltered request.baseToken
          request.baseToken request.config true ∅ request.config.maxCandidates none
        searcher.quoteAndRankWithCache enumeration.paths request.amountIn
          request.simConfig
    | .heuristic heuristic =>
        searcher.findRoutesHeuristicWithCache request.baseToken request.baseToken
          request.amountIn request.config heuristic request.simConfig true
  routes.map (List.map CycleQuote.ofRoute)

/-- The heuristic mode of a route request, or of the routes of a cycle request. -/
def heuristicRoutes (request : RouteRequest) (heuristic : HeuristicSearchConfig)
    (allowFinalSourceRevisit : Bool) : Except SearchError (List RouteQuote) :=
  searcher.findRoutesHeuristicWithCache request.tokenIn request.tokenOut request.amountIn
    (request.withMode (.heuristic heuristic)).config heuristic request.simConfig
    allowFinalSourceRevisit

/-- The exhaustive mode of a route request, or of the routes of a cycle request. -/
def exhaustiveRoutes (request : RouteRequest) (allowFinalSourceRevisit : Bool) :
    Except SearchError (List RouteQuote) := do
  let enumeration ← searcher.graph.enumerateRoutesFiltered request.tokenIn request.tokenOut
    (request.withMode .exhaustive).config allowFinalSourceRevisit ∅
    request.config.maxCandidates none
  searcher.quoteAndRankWithCache enumeration.paths request.amountIn request.simConfig

/-- Nothing cuts the search, and its limits are no smaller than what they bound. -/
structure Unpruned (request : RouteRequest) (heuristic : HeuristicSearchConfig)
    (allowFinalSourceRevisit : Bool) : Prop where
  connectors : request.config.connectorTokens ≠ none
  candidates : request.config.maxCandidates = none
  liquidity : request.config.liquidityPruning.enabled = false
  beam : heuristic.beamWidth = none
  dominance : heuristic.prefixDominance = false
  shortlist : heuristic.edgeShortlist.enabled = false
  upperBound : heuristic.upperBoundPruning.enabled = false
  someEdge : 1 ≤ heuristic.parallelEdgeLimit
  edges : searcher.graph.maxOutDegree ≤ heuristic.parallelEdgeLimit
  someFinalist : 1 ≤ heuristic.maxFinalists
  finalists : ∀ paths : List RoutePath, paths.Nodup →
    (∀ path ∈ paths, searcher.graph.IsRoute request.config request.tokenIn request.tokenOut
      allowFinalSourceRevisit path) → paths.length ≤ heuristic.maxFinalists

/-- The context of a route or cycle search. -/
def modeContext (request : RouteRequest) (heuristic : HeuristicSearchConfig)
    (allowFinalSourceRevisit : Bool) (source target : NodeIndex) : HeuristicContext :=
  { searcher.requestContext (request.withMode (.heuristic heuristic)) heuristic source
      target with
    allowFinalSourceRevisit := allowFinalSourceRevisit }

/-- The quotes of all routes of the search that can be quoted, each once. -/
structure ListsRoutes (context : HeuristicContext) (quotes : List RouteQuote) : Prop where
  nodup : (quotes.map RouteQuote.path).Nodup
  mem_iff : ∀ quote, quote ∈ quotes ↔ searcher.Reportable context quote

variable {searcher} {context : HeuristicContext}

theorem ListsRoutes.perm {left right : List RouteQuote}
    (hleft : searcher.ListsRoutes context left) (hright : searcher.ListsRoutes context right) :
    left.Perm right := by
  rw [List.perm_ext_iff_of_nodup (List.Nodup.of_map _ hleft.nodup)
    (List.Nodup.of_map _ hright.nodup)]
  intro quote
  rw [hleft.mem_iff, hright.mem_iff]

theorem ListsRoutes.soundQuotes {quotes : List RouteQuote}
    (hlists : searcher.ListsRoutes context quotes) : searcher.SoundQuotes context quotes :=
  ⟨hlists.nodup, fun quote hquote => (hlists.mem_iff quote).mp hquote⟩

section Search

variable {σ : Type} {onQuote : σ → RouteQuote → σ × Bool} {start : σ}

/-- A search that nothing cuts lists the routes that can be quoted. -/
theorem listsRoutes_finalRun (hresolved : context.Resolved searcher.graph)
    (huncut : searcher.Uncut context) (hmin : 1 ≤ context.config.minHops)
    (hroom : 0 < context.config.maxHops)
    (hquiet : ∀ observed quote, (onQuote observed quote).2 = true)
    (hdom : context.heuristic.prefixDominance = false)
    (hshort : context.heuristic.edgeShortlist.enabled = false)
    (hfast : searcher.SoundRun context onQuote start
      (searcher.runFastLane context onQuote { observed := start })) :
    (searcher.finalRun context onQuote start).stopped = false ∧
      searcher.ListsRoutes context (searcher.finalRun context onQuote start).quotes := by
  obtain ⟨⟨expanded, hpass⟩, hsound⟩ :=
    finalRun_singlePass hresolved huncut hroom hquiet hshort hfast
  refine ⟨hpass.stopped, hsound.1, fun quote => ⟨hsound.2 quote, ?_⟩⟩
  intro hquote
  have hpath : quote.path ≠ [] := by
    intro hempty
    have hlength : context.config.minHops ≤ quote.path.length := hquote.isRoute.minHops
    rw [hempty] at hlength
    exact absurd (hmin.trans hlength) (by simp)
  obtain ⟨front, hop, hfront⟩ := List.eq_nil_or_concat' quote.path |>.resolve_left hpath
  have hroute := hquote.isRoute
  have hyields := hquote.yields
  rw [hfront] at hroute hyields
  -- the front of the route is expanded, and its last hop closes it
  obtain ⟨hcompletable, hoffers⟩ := completable_of_isRoute hroute
  obtain ⟨_, hcloses, hbound, _⟩ :=
    HeuristicContext.isRoute_effective_append_singleton.mp hroute
  obtain ⟨before, hbefore, hamount⟩ := yields_append_singleton.mp hyields
  obtain ⟨state, hstate, rfl⟩ := hpass.expands hresolved hdom
    (fun state hop hstate hoffers => considers_of_offered hshort
      ((mem_offeredHops hresolved hstate hop).mpr hoffers)) hcompletable hbefore
  have hstateSound := hpass.sound state hstate
  rw [← hstateSound.yields.unique hbefore] at hamount
  obtain ⟨found, hfound, hsame, _⟩ := hpass.exists_quote hsound hstate
    (considers_of_offered hshort ((mem_offeredHops hresolved hstateSound hop).mpr hoffers))
    hamount hcloses.2.1 hbound
  have hreportable := hsound.2 found hfound
  have htrace := hreportable.trace
  rw [hsame, ← hfront, hquote.trace] at htrace
  obtain ⟨path, amountIn, amountOut, hops⟩ := quote
  obtain ⟨path', amountIn', amountOut', hops'⟩ := found
  have hamountIn := hreportable.amountIn.trans hquote.amountIn.symm
  simp only [Except.ok.injEq, Prod.mk.injEq] at htrace hfront hsame hamountIn
  obtain ⟨rfl, rfl⟩ := htrace
  obtain rfl := hfront.trans hsame.symm
  obtain rfl := hamountIn
  exact hfound

end Search

end AmmSearcher

/-- The result hands over the quotes in some order, or fails for want of any. -/
def Delivers (quotes : List RouteQuote) :
    Except SearchError (List RouteQuote) → Prop
  | .ok returned => quotes ≠ [] ∧ returned.Perm quotes
  | .error _ => quotes = []

theorem Delivers.sameOutcome {left right : List RouteQuote}
    {first second : Except SearchError (List RouteQuote)} (hfirst : Delivers left first)
    (hsecond : Delivers right second) (hperm : left.Perm right) :
    SameOutcome first second := by
  cases first with
  | error error =>
      cases second with
      | error error' => trivial
      | ok returned =>
          rw [show left = [] from hfirst, List.nil_perm] at hperm
          exact hsecond.1 hperm
  | ok returned =>
      cases second with
      | error error =>
          rw [show right = [] from hsecond, List.perm_nil] at hperm
          exact hfirst.1 hperm
      | ok returned' => exact hfirst.2.trans (hperm.trans hsecond.2.symm)

theorem delivers_rankOrNoViable (candidates : ℕ) (quotes : List RouteQuote)
    (failures : List PathFailure) :
    Delivers quotes (rankOrNoViable candidates quotes failures) := by
  unfold rankOrNoViable
  split
  · assumption
  · rename_i hsome
    exact ⟨hsome, List.perm_insertionSort _ _⟩

theorem Delivers.of_perm {quotes other : List RouteQuote}
    {result : Except SearchError (List RouteQuote)} (hdelivers : Delivers quotes result)
    (hperm : quotes.Perm other) : Delivers other result := by
  cases result with
  | error error =>
      rw [show quotes = [] from hdelivers, List.nil_perm] at hperm
      exact hperm
  | ok returned =>
      refine ⟨?_, hdelivers.2.trans hperm⟩
      rintro rfl
      exact hdelivers.1 (List.perm_nil.mp hperm)

namespace AmmSearcher

variable {G : Type} [StableDiGraph G Address EdgeData] {searcher : AmmSearcher G}
  {context : HeuristicContext}

/-- A finished search without limits hands over what it has found. -/
theorem delivers_finishSearch {σ : Type} (hmin : 1 ≤ context.config.minHops)
    {run : HeuristicRun σ} (hstopped : run.stopped = false)
    (hlists : searcher.ListsRoutes context run.quotes)
    (hfinalists : run.quotes.length ≤ context.heuristic.maxFinalists) :
    Delivers run.quotes
      ((searcher.finishSearch context run).map HeuristicRoutesReport.quotes) := by
  have hperm : (finalists context run.quotes).Perm run.quotes := by
    have hsorted : (sortByAmountOut run.quotes).Perm run.quotes :=
      List.perm_insertionSort _ _
    rw [finalists, List.take_of_length_le (hsorted.length_eq.trans_le hfinalists)]
    exact hsorted
  simp only [finishSearch]
  rw [if_neg (by simp [hstopped])]
  split
  · rename_i hempty
    split
    · exact hempty
    · exact hempty
  · rename_i hsome
    split
    · exact ⟨hsome, hperm⟩
    · -- simulating the finalists gives them back
      have hsound := hlists.soundQuotes.finalists
      have hsimulated : (quotePathsWithRegistry (searcher.quoteEnv context.simConfig)
          searcher.quoteContext ((finalists context run.quotes).map RouteQuote.path)
          context.amountIn).1.Perm (finalists context run.quotes) := by
        rw [List.perm_ext_iff_of_nodup (List.Nodup.of_map _ hsound.simulated.1)
          (List.Nodup.of_map _ hsound.1)]
        exact mem_simulated (hsound.traced hmin)
      generalize quotePathsWithRegistry (searcher.quoteEnv context.simConfig)
        searcher.quoteContext ((finalists context run.quotes).map RouteQuote.path)
        context.amountIn = simulated at hsimulated
      have hranked := (delivers_rankOrNoViable (finalists context run.quotes).length
        simulated.1 (run.failures ++ simulated.2)).of_perm (hsimulated.trans hperm)
      cases hresult : rankOrNoViable (finalists context run.quotes).length simulated.1
          (run.failures ++ simulated.2) with
      | error error =>
          rw [hresult] at hranked
          exact absurd hranked hsome
      | ok ranked =>
          rw [hresult] at hranked
          exact hranked

/-- Quoting a list of all routes lists the routes that can be quoted. -/
theorem listsRoutes_quotePaths (hmin : 1 ≤ context.config.minHops) {paths : List RoutePath}
    (hnodup : paths.Nodup)
    (hpaths : ∀ path, path ∈ paths ↔ searcher.graph.IsRoute context.effective context.tokenIn
      context.tokenOut context.allowFinalSourceRevisit path) :
    searcher.ListsRoutes context
      (quotePathsWithRegistry (searcher.quoteEnv context.simConfig) searcher.quoteContext
        paths context.amountIn).1 := by
  obtain ⟨_, hquotes, hquoted, hall, hcontinue⟩ := quotePathsWithRegistryObserved_spec
    (searcher.quoteEnv context.simConfig) searcher.quoteContext context.amountIn
    (fun _ _ => ((), true)) hnodup ()
  refine ⟨hquotes, fun quote => ⟨?_, ?_⟩⟩
  · intro hquote
    obtain ⟨hpath, _, hamount, htrace⟩ := hquoted quote hquote
    exact ⟨(hpaths quote.path).mp hpath, hamount, htrace⟩
  · intro hquote
    refine hall (hcontinue fun _ _ => rfl) quote ((hpaths quote.path).mpr hquote.isRoute) ?_
      hquote.amountIn hquote.trace
    intro hempty
    have hlength : context.config.minHops ≤ quote.path.length := hquote.isRoute.minHops
    rw [hempty] at hlength
    exact absurd (hmin.trans hlength) (by simp)

section Modes

variable {request : RouteRequest} {heuristic : HeuristicSearchConfig} {allow : Bool}
  {source target : NodeIndex}

/-- Controls that nothing prunes with are validated, apart from the fast lane. -/
theorem Unpruned.validate (hoff : searcher.Unpruned request heuristic allow)
    (hlane : heuristic.fastLane.validate = .ok ()) : heuristic.validate = .ok () := by
  have hedge : (heuristic.parallelEdgeLimit == 0) = false := by
    rw [beq_eq_false_iff_ne]
    exact Nat.one_le_iff_ne_zero.mp hoff.someEdge
  have hfinalist : (heuristic.maxFinalists == 0) = false := by
    rw [beq_eq_false_iff_ne]
    exact Nat.one_le_iff_ne_zero.mp hoff.someFinalist
  unfold HeuristicSearchConfig.validate
  rw [hedge, hfinalist, hoff.beam, hlane]
  simp [AdaptiveEdgeShortlistConfig.validate, hoff.shortlist, rejectWhen, bind, Except.bind]

/-- The two modes validate the same controls. -/
theorem validate_withMode (hheuristic : heuristic.validate = .ok ()) :
    (request.withMode (.heuristic heuristic)).config.validate =
      (request.withMode .exhaustive).config.validate := by
  unfold RouteRequest.withMode SearchConfig.validate
  simp only [hheuristic]

/-- The routes of the search are those of the request. -/
theorem isRoute_modeContext_iff (hconnectors : request.config.connectorTokens ≠ none)
    (path : RoutePath) :
    searcher.graph.IsRoute (searcher.modeContext request heuristic allow source
        target).effective request.tokenIn request.tokenOut allow path ↔
      searcher.graph.IsRoute request.config request.tokenIn request.tokenOut allow path := by
  obtain ⟨tokens, htokens⟩ := Option.ne_none_iff_exists'.mp hconnectors
  have hsame : (searcher.modeContext request heuristic allow source
      target).effective.connectorTokens = request.config.connectorTokens := by
    simp [HeuristicContext.effective, modeContext, requestContext, RouteRequest.withMode,
      connectorTokensForHeuristic, htokens]
  constructor
  · rintro ⟨hedges, hconnects, hmin, hmax, hpools, hvisits, hinter⟩
    refine ⟨hedges, hconnects, hmin, hmax, hpools, hvisits, ?_⟩
    simpa only [connectorAllowed, hsame] using hinter
  · rintro ⟨hedges, hconnects, hmin, hmax, hpools, hvisits, hinter⟩
    refine ⟨hedges, hconnects, hmin, hmax, hpools, hvisits, ?_⟩
    simpa only [connectorAllowed, hsame] using hinter

/-- The heuristic mode hands over the routes that can be quoted. -/
theorem delivers_heuristicRoutes (hindexed : searcher.graph.Indexed)
    (hoff : searcher.Unpruned request heuristic allow)
    (hvalid : (request.withMode (.heuristic heuristic)).config.validate = .ok ())
    (hsource : searcher.graph.nodeIndex request.tokenIn = some source)
    (htarget : searcher.graph.nodeIndex request.tokenOut = some target)
    (hends : allow = false → request.tokenIn ≠ request.tokenOut) :
    ∃ quotes, searcher.ListsRoutes
        (searcher.modeContext request heuristic allow source target) quotes ∧
      Delivers quotes (searcher.heuristicRoutes request heuristic allow) := by
  obtain ⟨hmin, hmax⟩ := SearchConfig.hops_of_validate hvalid
  have hresolved : (searcher.modeContext request heuristic allow source target).Resolved
      searcher.graph := ⟨hindexed, hsource, htarget⟩
  have huncut : searcher.Uncut
      (searcher.modeContext request heuristic allow source target) :=
    ⟨hoff.candidates, hoff.beam, hoff.liquidity, hoff.upperBound, fun _ => hoff.edges,
      fun hshort => absurd (hoff.shortlist.symm.trans hshort) Bool.false_ne_true⟩
  obtain ⟨tokens, htokens⟩ : ∃ tokens, (searcher.modeContext request heuristic allow source
      target).connectorTokens = some tokens := by
    simp only [modeContext, requestContext, connectorTokensForHeuristic]
    split
    · exact ⟨_, rfl⟩
    · exact ⟨_, rfl⟩
  have hfast : searcher.SoundRun (searcher.modeContext request heuristic allow source target)
      (fun (_ : Unit) _ => ((), true)) () (searcher.runFastLane
        (searcher.modeContext request heuristic allow source target) (fun _ _ => ((), true))
        { observed := () }) := by
    apply soundRun_runFastLane
    intro hallow _ path hpath _ _
    exact isRoute_of_mem_fastLanePaths hresolved htokens (hends hallow) hpath
  have hlane := @fastLaneRun_runFastLane G _ searcher
    (searcher.modeContext request heuristic allow source target) Unit
    (fun _ _ => ((), true)) hoff.candidates (fun _ _ => rfl) ()
  obtain ⟨hstopped, hlists⟩ := listsRoutes_finalRun hresolved huncut hmin
    (show 0 < request.config.maxHops by exact hmin.trans hmax) (fun _ _ => rfl)
    hoff.dominance hoff.shortlist hfast
  refine ⟨_, hlists, ?_⟩
  have hresult : searcher.heuristicRoutes request heuristic allow =
      (searcher.finishSearch (searcher.modeContext request heuristic allow source target)
        (searcher.finalRun (searcher.modeContext request heuristic allow source target)
          (fun _ _ => ((), true)) ())).map HeuristicRoutesReport.quotes := by
    simp only [heuristicRoutes, findRoutesHeuristicWithCache,
      findRoutesHeuristicWithCacheObserved, hvalid, hsource, htarget]
    change (searcher.searchRoutes (searcher.modeContext request heuristic allow source target)
      (fun _ _ => ((), true)) .full ()).2.map _ = _
    unfold searchRoutes
    simp only
    rw [if_neg (by simp [hlane.stopped])]
    rfl
  rw [hresult]
  apply delivers_finishSearch hmin hstopped hlists
  rw [← List.length_map RouteQuote.path]
  apply hoff.finalists _ hlists.nodup
  intro path hpath
  obtain ⟨quote, hquote, rfl⟩ := List.mem_map.mp hpath
  exact (isRoute_modeContext_iff hoff.connectors quote.path).mp
    ((hlists.mem_iff quote).mp hquote).isRoute

/-- The exhaustive mode hands over the routes that can be quoted. -/
theorem delivers_exhaustiveRoutes (hindexed : searcher.graph.Indexed)
    (hoff : searcher.Unpruned request heuristic allow)
    (hvalid : (request.withMode .exhaustive).config.validate = .ok ())
    (hsource : searcher.graph.nodeIndex request.tokenIn = some source)
    (htarget : searcher.graph.nodeIndex request.tokenOut = some target) :
    ∃ quotes, searcher.ListsRoutes
        (searcher.modeContext request heuristic allow source target) quotes ∧
      Delivers quotes (searcher.exhaustiveRoutes request allow) := by
  obtain ⟨hmin, _⟩ := SearchConfig.hops_of_validate hvalid
  obtain ⟨hnodup, hroutes, _⟩ :=
    AmmGraph.requestRoutes_spec hindexed hvalid hsource htarget allow
  have henumerate := AmmGraph.enumerateRoutesFiltered_full hvalid hsource htarget allow ∅
  simp only [Finset.notMem_empty, not_false_eq_true, decide_true, List.filter_true,
    decide_false, List.filter_false, List.length_nil] at henumerate
  generalize searcher.graph.requestRoutes source target request.tokenIn request.tokenOut
    (request.withMode .exhaustive).config allow = routes at hnodup hroutes henumerate
  have hpaths : ∀ path, path ∈ routes ↔ searcher.graph.IsRoute
      (searcher.modeContext request heuristic allow source target).effective request.tokenIn
      request.tokenOut allow path := by
    intro path
    rw [isRoute_modeContext_iff hoff.connectors, hroutes]
    constructor
    · rintro ⟨hedges, hconnects, hfew, hmany, hpools, hvisits, hinter⟩
      exact ⟨hedges, hconnects, hfew, hmany, hpools, hvisits, hinter⟩
    · rintro ⟨hedges, hconnects, hfew, hmany, hpools, hvisits, hinter⟩
      exact ⟨hedges, hconnects, hfew, hmany, hpools, hvisits, hinter⟩
  have hlists := @listsRoutes_quotePaths G _ searcher
    (searcher.modeContext request heuristic allow source target) hmin routes hnodup hpaths
  refine ⟨_, hlists, ?_⟩
  unfold exhaustiveRoutes
  rw [hoff.candidates, henumerate]
  split
  · rename_i hempty
    rw [hempty]
    rfl
  · exact delivers_rankOrNoViable routes.length _ _

/-- The two modes have the same outcome. -/
theorem sameOutcome_modes (hindexed : searcher.graph.Indexed)
    (hoff : searcher.Unpruned request heuristic allow)
    (hlane : heuristic.fastLane.validate = .ok ())
    (hends : allow = false → request.tokenIn ≠ request.tokenOut) :
    SameOutcome (searcher.heuristicRoutes request heuristic allow)
      (searcher.exhaustiveRoutes request allow) := by
  have hsame := @validate_withMode request heuristic (hoff.validate hlane)
  cases hvalid : (request.withMode .exhaustive).config.validate with
  | error error =>
      rw [hvalid] at hsame
      simp only [heuristicRoutes, exhaustiveRoutes, findRoutesHeuristicWithCache,
        findRoutesHeuristicWithCacheObserved, AmmGraph.enumerateRoutesFiltered, hsame,
        hvalid]
      trivial
  | ok validated =>
      rw [hvalid] at hsame
      cases hsource : searcher.graph.nodeIndex request.tokenIn with
      | none =>
          simp only [heuristicRoutes, exhaustiveRoutes, findRoutesHeuristicWithCache,
            findRoutesHeuristicWithCacheObserved, AmmGraph.enumerateRoutesFiltered, hsame,
            hvalid, hsource]
          trivial
      | some source =>
          cases htarget : searcher.graph.nodeIndex request.tokenOut with
          | none =>
              simp only [heuristicRoutes, exhaustiveRoutes, findRoutesHeuristicWithCache,
                findRoutesHeuristicWithCacheObserved, AmmGraph.enumerateRoutesFiltered,
                hsame, hvalid, hsource, htarget]
              trivial
          | some target =>
              obtain ⟨left, hleft, hfirst⟩ :=
                delivers_heuristicRoutes hindexed hoff hsame hsource htarget hends
              obtain ⟨right, hright, hsecond⟩ :=
                delivers_exhaustiveRoutes hindexed hoff hvalid hsource htarget
              exact hfirst.sameOutcome hsecond (hleft.perm hright)

end Modes

/-- With its approximations off and valid fast-lane controls, the heuristic mode of a
route request between two tokens, and of every cycle request, returns the same quotes as
the exhaustive mode and fails exactly when that does. -/
theorem heuristic_sameOutcome_exhaustive (hbuilt : searcher.graph.Built)
    (heuristic : HeuristicSearchConfig) (hlane : heuristic.fastLane.validate = .ok ()) :
    (∀ request : RouteRequest, request.tokenIn ≠ request.tokenOut →
      searcher.Unpruned request heuristic false →
      SameOutcome (searcher.findRoutes (request.withMode (.heuristic heuristic)))
        (searcher.findRoutes (request.withMode .exhaustive))) ∧
      ∀ request : CycleRequest, searcher.Unpruned request.routes heuristic true →
        SameOutcome (searcher.findCycles (request.withMode (.heuristic heuristic)))
          (searcher.findCycles (request.withMode .exhaustive)) := by
  constructor
  · intro request hne hoff
    have hsame := @sameOutcome_modes G _ searcher request heuristic false hbuilt.indexed hoff
      hlane fun _ => hne
    exact hsame
  · intro request hoff
    have hsame := @sameOutcome_modes G _ searcher request.routes heuristic true hbuilt.indexed
      hoff hlane nofun
    exact hsame.map CycleQuote.ofRoute

/-- A request has no more routes than its enumeration lists. -/
theorem length_le_requestRoutes (hindexed : searcher.graph.Indexed) {config : SearchConfig}
    {tokenIn tokenOut : Address} {allow : Bool} (hvalid : config.validate = .ok ())
    {source target : NodeIndex} (hsource : searcher.graph.nodeIndex tokenIn = some source)
    (htarget : searcher.graph.nodeIndex tokenOut = some target) {paths : List RoutePath}
    (hnodup : paths.Nodup)
    (hroutes : ∀ path ∈ paths, searcher.graph.IsRoute config tokenIn tokenOut allow path) :
    paths.length ≤
      (searcher.graph.requestRoutes source target tokenIn tokenOut config allow).length := by
  obtain ⟨_, hmem, _⟩ := AmmGraph.requestRoutes_spec hindexed hvalid hsource htarget allow
  apply List.Subperm.length_le
  apply hnodup.subperm
  intro path hpath
  exact (hmem path).mpr (hroutes path hpath)

end AmmSearcher

namespace UnprunedExample

open CappedExample MinHopsExample

/-- Nothing cuts the search; its fast lane takes `edges` direct edges per pair. -/
def unpruned (edges : ℕ) : HeuristicSearchConfig :=
  { CappedExample.heuristic with
    prefixDominance := false
    fastLane := { directEdgesPerPair := edges } }

/-- Cycles from `1`, through the detour and the direct way. -/
def cycle : CycleRequest where
  baseToken := 1
  amountIn := 100
  config := { minHops := 2, maxHops := 3, connectorTokens := some {2, 3} }
  simConfig := ⟨0, 0, 0⟩

theorem one_le_usizeMax : 1 ≤ usizeMax := by
  unfold usizeMax
  omega

theorem unpruned_detour {edges : ℕ} {request : RouteRequest} {allow : Bool}
    (hconnectors : request.config.connectorTokens ≠ none)
    (hcandidates : request.config.maxCandidates = none)
    (hliquidity : request.config.liquidityPruning.enabled = false)
    (hvalid : request.config.validate = .ok ()) {source target : NodeIndex}
    (hsource : (searcher detour).graph.nodeIndex request.tokenIn = some source)
    (htarget : (searcher detour).graph.nodeIndex request.tokenOut = some target)
    (hroutes : ((searcher detour).graph.requestRoutes source target request.tokenIn
      request.tokenOut request.config allow).length ≤ usizeMax) :
    (searcher detour).Unpruned request (unpruned edges) allow where
  connectors := hconnectors
  candidates := hcandidates
  liquidity := hliquidity
  beam := rfl
  dominance := rfl
  shortlist := rfl
  upperBound := rfl
  someEdge := one_le_usizeMax
  edges := show (searcher detour).graph.maxOutDegree ≤ usizeMax by decide +kernel
  someFinalist := one_le_usizeMax
  finalists := fun _ hnodup hpaths => (AmmSearcher.length_le_requestRoutes
    (AmmGraph.Built.fromRegistry 1 detour {}).indexed hvalid hsource htarget hnodup
    hpaths).trans hroutes

theorem unpruned_routes (edges : ℕ) :
    (searcher detour).Unpruned (request 4 {2, 3} 1 3) (unpruned edges) false := by
  have hsource : (searcher detour).graph.nodeIndex (request 4 {2, 3} 1 3).tokenIn =
      some (((searcher detour).graph.nodeIndex 1).getD 0) := by decide +kernel
  have htarget : (searcher detour).graph.nodeIndex (request 4 {2, 3} 1 3).tokenOut =
      some (((searcher detour).graph.nodeIndex 4).getD 0) := by decide +kernel
  apply unpruned_detour (by decide) rfl rfl (by rfl) hsource htarget
  decide +kernel

theorem unpruned_cycles (edges : ℕ) :
    (searcher detour).Unpruned cycle.routes (unpruned edges) true := by
  have hbase : (searcher detour).graph.nodeIndex cycle.routes.tokenIn =
      some (((searcher detour).graph.nodeIndex 1).getD 0) := by decide +kernel
  apply unpruned_detour (by decide) rfl rfl (by rfl) hbase hbase
  decide +kernel

/-- Both modes return the routes to `4`, and the triangle as two cycles. -/
theorem sameOutcome_detour :
    SameOutcome
        ((searcher detour).findRoutes
          ((request 4 {2, 3} 1 3).withMode (.heuristic (unpruned 1))))
        ((searcher detour).findRoutes ((request 4 {2, 3} 1 3).withMode .exhaustive)) ∧
      SameOutcome ((searcher detour).findCycles (cycle.withMode (.heuristic (unpruned 1))))
        ((searcher detour).findCycles (cycle.withMode .exhaustive)) := by
  have hbuilt : (searcher detour).graph.Built := .fromRegistry 1 detour {}
  have hends : (request 4 {2, 3} 1 3).tokenIn ≠ (request 4 {2, 3} 1 3).tokenOut := by decide
  have hroutes := unpruned_routes 1
  have hcycles := unpruned_cycles 1
  have hlane : (unpruned 1).fastLane.validate = .ok () := rfl
  generalize request 4 {2, 3} 1 3 = request at hends hroutes ⊢
  generalize unpruned 1 = heuristic at hroutes hcycles hlane ⊢
  generalize searcher detour = searcher at hbuilt hroutes hcycles ⊢
  obtain ⟨hsame, hsame'⟩ :=
    AmmSearcher.heuristic_sameOutcome_exhaustive hbuilt heuristic hlane
  exact ⟨hsame request hends hroutes, hsame' cycle hcycles⟩

/-- A fast lane that may take no edge is refused in the heuristic mode only. -/
theorem not_sameOutcome_empty_lane :
    (request 4 {2, 3} 1 3).tokenIn ≠ (request 4 {2, 3} 1 3).tokenOut ∧
      (searcher detour).Unpruned (request 4 {2, 3} 1 3) (unpruned 0) false ∧
      ¬SameOutcome
        ((searcher detour).findRoutes
          ((request 4 {2, 3} 1 3).withMode (.heuristic (unpruned 0))))
        ((searcher detour).findRoutes ((request 4 {2, 3} 1 3).withMode .exhaustive)) := by
  refine ⟨by decide, unpruned_routes 0, ?_⟩
  have hrefused : ((searcher detour).findRoutes
      ((request 4 {2, 3} 1 3).withMode (.heuristic (unpruned 0)))).toOption = none := by
    decide +kernel
  have hfound : ((searcher detour).findRoutes
      ((request 4 {2, 3} 1 3).withMode .exhaustive)).toOption ≠ none := by
    decide +kernel
  intro hsame
  cases hleft : (searcher detour).findRoutes
      ((request 4 {2, 3} 1 3).withMode (.heuristic (unpruned 0))) with
  | error error =>
      cases hright : (searcher detour).findRoutes
          ((request 4 {2, 3} 1 3).withMode .exhaustive) with
      | error error' =>
          rw [hright] at hfound
          exact hfound rfl
      | ok right =>
          rw [hleft, hright] at hsame
          exact hsame
  | ok left =>
      rw [hleft] at hrefused
      cases hrefused

end UnprunedExample

end AmmSearch
