/-
The outcome of an uncut heuristic search: its fast lane takes over every
candidate that can be quoted, and the best returned amount is the best amount
among all quotes of the run.
-/
import AmmSearch.HeuristicCoverage
import AmmSearch.HeuristicInvariant

open FiniteMap StableGraph

namespace AmmSearch

namespace AmmSearcher

variable {G : Type} [StableDiGraph G Address EdgeData] (searcher : AmmSearcher G)
  (context : HeuristicContext)

/-- The path is a candidate of the fast lane. -/
def FastLanePath (path : RoutePath) : Prop :=
  (context.allowFinalSourceRevisit = false ∧
    context.heuristic.fastLane.enabled = true) ∧
  path ∈ searcher.fastLanePaths context.tokenIn context.tokenOut context.config
    context.heuristic context.connectorTokens

/-- The state that the fast lane of an unlimited search leaves. -/
structure FastLaneRun {σ : Type} (onQuote : σ → RouteQuote → σ × Bool) (start : σ)
    (run : HeuristicRun σ) : Prop where
  stopped : run.stopped = false
  index : run.prefixDominance = .empty
  evaluated : ∀ path, path ∈ run.evaluatedPaths ↔ searcher.FastLanePath context path
  quoted : ∀ path ∈ run.evaluatedPaths, ∀ result,
    searcher.trace context path = .ok result → ∃ quote ∈ run.quotes, quote.path = path
  origin : ∀ quote ∈ run.quotes, quote.path ∈ run.evaluatedPaths
  reported : run.observed = reportAll onQuote start run.quotes

variable {searcher context} {σ : Type} {onQuote : σ → RouteQuote → σ × Bool}

theorem acceptFastLane_unlimited {config : SearchConfig}
    (hlimit : config.maxCandidates = none) (quotes : List RouteQuote)
    (run : HeuristicRun σ) :
    ∃ incumbent, acceptFastLane config quotes run =
      { run with quotes := run.quotes ++ quotes, incumbentAmount := incumbent } := by
  induction quotes generalizing run with
  | nil => exact ⟨run.incumbentAmount, by simp [acceptFastLane]⟩
  | cons quote rest ih =>
      obtain ⟨incumbent, heq⟩ := ih
        { run with
          incumbentAmount := raiseIncumbent run.incumbentAmount quote.amountOut
          quotes := run.quotes ++ [quote] }
      refine ⟨incumbent, ?_⟩
      rw [acceptFastLane]
      simp only
      rw [if_neg (by simp [maxCandidatesReached, hlimit]), heq]
      simp

theorem ne_nil_of_mem_fastLanePaths {tokenIn tokenOut : Address}
    {config : SearchConfig} {heuristic : HeuristicSearchConfig}
    {connectorTokens : Option (Finset Address)} {path : RoutePath}
    (hpath : path ∈ searcher.fastLanePaths tokenIn tokenOut config heuristic
      connectorTokens) : path ≠ [] := by
  obtain ⟨_, ⟨_, _, ranked, _, rfl⟩ | ⟨_, _, _, _, first, _, second, _, _, rfl⟩⟩ :=
    (mem_fastLanePaths _ _ _ _ _ path).mp hpath
  · simp
  · simp

theorem length_le_two_of_mem_fastLanePaths {tokenIn tokenOut : Address}
    {config : SearchConfig} {heuristic : HeuristicSearchConfig}
    {connectorTokens : Option (Finset Address)} {path : RoutePath}
    (hpath : path ∈ searcher.fastLanePaths tokenIn tokenOut config heuristic
      connectorTokens) : path.length ≤ 2 := by
  obtain ⟨_, ⟨_, _, ranked, _, rfl⟩ | ⟨_, _, _, _, first, _, second, _, _, rfl⟩⟩ :=
    (mem_fastLanePaths _ _ _ _ _ path).mp hpath
  · simp
  · simp

theorem fastLaneRun_runFastLane (hlimit : context.config.maxCandidates = none)
    (hquiet : ∀ observed quote, (onQuote observed quote).2 = true) (start : σ) :
    searcher.FastLaneRun context onQuote start
      (searcher.runFastLane context onQuote { observed := start }) := by
  have hinitial : (∀ path, ¬ searcher.FastLanePath context path) →
      searcher.FastLaneRun context onQuote start { observed := start } := by
    intro hnone
    refine ⟨rfl, rfl, ?_, by simp, by simp, rfl⟩
    intro path
    simp [hnone path]
  unfold runFastLane
  split
  · rename_i henabled
    simp only
    split
    · rename_i hempty
      refine hinitial fun path hpath => ?_
      have hmem := hpath.2
      rw [hempty] at hmem
      cases hmem
    · have hspec := quotePathsWithRegistryObserved_spec
        (searcher.quoteEnv context.simConfig) searcher.quoteContext context.amountIn
        onQuote (@nodup_fastLanePaths G _ searcher context.tokenIn context.tokenOut
          context.config context.heuristic context.connectorTokens) start
      generalize quotePathsWithRegistryObserved
        ⟨onQuote, fun observed _ => (observed, true)⟩ _ _ _ _ _ = report at hspec ⊢
      obtain ⟨hobserved, _, hquoted, hall, hcontinue⟩ := hspec
      have hstopped := hcontinue hquiet
      obtain ⟨incumbent, haccept⟩ := acceptFastLane_unlimited hlimit report.quotes
        { ({ observed := start } : HeuristicRun σ) with
          evaluatedPaths := ∅ ∪ (searcher.fastLanePaths context.tokenIn context.tokenOut
            context.config context.heuristic context.connectorTokens).toFinset
          failures := [] ++ report.failures
          observed := report.observed
          stopped := report.stopped }
      rw [haccept]
      constructor
      · exact hstopped
      · rfl
      · intro path
        simp [FastLanePath, henabled]
      · intro path hpath result htrace
        have hmem : path ∈ searcher.fastLanePaths context.tokenIn context.tokenOut
            context.config context.heuristic context.connectorTokens := by
          simpa using hpath
        exact ⟨⟨path, context.amountIn, result.2, result.1⟩,
          List.mem_append_right _ (hall hstopped _ hmem
            (ne_nil_of_mem_fastLanePaths hmem) rfl htrace), rfl⟩
      · intro quote hquote
        have hmem : quote ∈ report.quotes := by simpa using hquote
        simpa using (hquoted quote hmem).1
      · simpa using hobserved
  · rename_i hdisabled
    exact hinitial fun path hpath => hdisabled hpath.1

/-- The run that a full search finishes with. -/
def finalRun (searcher : AmmSearcher G) (context : HeuristicContext)
    (onQuote : σ → RouteQuote → σ × Bool) (start : σ) : HeuristicRun σ :=
  searcher.runPasses context onQuote (heuristicPassModes context.heuristic)
    (searcher.runFastLane context onQuote { observed := start })

/-- The passes of a search that goes on: the refinement pass follows the initial one
unless it is off or nothing was deferred. -/
theorem runPasses_cases {run : HeuristicRun σ}
    (hfirst : (searcher.runPass context onQuote run .initial).stopped = false) :
    (searcher.runPasses context onQuote (heuristicPassModes context.heuristic) run =
        searcher.runPass context onQuote run .initial ∧
      (.refinement ∈ heuristicPassModes context.heuristic →
        (searcher.runPass context onQuote run .initial).deferredEdgesSeen = false)) ∨
    .refinement ∈ heuristicPassModes context.heuristic ∧
      searcher.runPasses context onQuote (heuristicPassModes context.heuristic) run =
        searcher.runPass context onQuote (searcher.runPass context onQuote run .initial)
          .refinement := by
  have hmodes : heuristicPassModes context.heuristic = [.initial] ∨
      heuristicPassModes context.heuristic = [.initial, .refinement] := by
    unfold heuristicPassModes
    split
    · exact Or.inr rfl
    · exact Or.inl rfl
  rcases hmodes with hmodes | hmodes
  · refine Or.inl ⟨?_, by simp [hmodes]⟩
    rw [hmodes]
    simp only [runPasses]
    rw [if_neg (by simp [hfirst])]
    split
    · rfl
    · rfl
  · rw [hmodes]
    simp only [runPasses]
    rw [if_neg (by simp [hfirst])]
    by_cases hdeferred :
        (searcher.runPass context onQuote run .initial).deferredEdgesSeen = false
    · rw [if_pos ⟨trivial, by simp [hmodes], hdeferred⟩]
      exact Or.inl ⟨rfl, fun _ => hdeferred⟩
    · rw [if_neg fun hskip => hdeferred hskip.2.2]
      refine Or.inr ⟨by simp, ?_⟩
      split
      · rfl
      · split
        · rfl
        · rfl

end AmmSearcher

section Best

/-- The best amount in a list of quotes. -/
def bestOf (quotes : List RouteQuote) : Option U256 :=
  (quotes.map RouteQuote.amountOut).max?

/-- The best amount that a search returns. -/
def bestAmountOut (result : Except SearchError (List RouteQuote)) : Option U256 :=
  result.toOption.bind bestOf

theorem bestOf_eq_some {quotes : List RouteQuote} {amount : U256} :
    bestOf quotes = some amount ↔
      (∃ quote ∈ quotes, quote.amountOut = amount) ∧
        ∀ quote ∈ quotes, quote.amountOut ≤ amount := by
  unfold bestOf
  rw [List.max?_eq_some_iff, List.mem_map, List.forall_mem_map]

theorem bestOf_eq_none {quotes : List RouteQuote} :
    bestOf quotes = none ↔ quotes = [] := by
  unfold bestOf
  rw [List.max?_eq_none_iff, List.map_eq_nil_iff]

theorem bestOf_congr {quotes other : List RouteQuote}
    (hmem : ∀ quote, quote ∈ quotes ↔ quote ∈ other) : bestOf quotes = bestOf other := by
  cases hbest : bestOf other with
  | none =>
      rw [bestOf_eq_none] at hbest ⊢
      rw [List.eq_nil_iff_forall_not_mem]
      intro quote hquote
      rw [hmem, hbest] at hquote
      cases hquote
  | some amount =>
      simpa only [bestOf_eq_some, hmem] using hbest

theorem sortByAmountOut_pairwise (quotes : List RouteQuote) :
    (sortByAmountOut quotes).Pairwise
      fun left right => right.amountOut ≤ left.amountOut := by
  have : Std.Total fun left right : RouteQuote => right.amountOut ≤ left.amountOut :=
    ⟨fun left right => le_total right.amountOut left.amountOut⟩
  have : IsTrans RouteQuote fun left right => right.amountOut ≤ left.amountOut :=
    ⟨fun _ _ _ hleft hright => hright.trans hleft⟩
  exact List.pairwise_insertionSort _ quotes

/-- A cut after the best quotes keeps the best amount. -/
theorem bestOf_take_sortByAmountOut (quotes : List RouteQuote) {limit : ℕ}
    (hlimit : 1 ≤ limit) :
    bestOf ((sortByAmountOut quotes).take limit) = bestOf quotes := by
  have hperm : (sortByAmountOut quotes).Perm quotes := List.perm_insertionSort _ _
  rw [bestOf_congr fun quote => hperm.mem_iff.symm]
  have hsorted := sortByAmountOut_pairwise quotes
  cases hlist : sortByAmountOut quotes with
  | nil => rw [List.take_nil]
  | cons head rest =>
      rw [hlist, List.pairwise_cons] at hsorted
      have hhead : ∀ list : List RouteQuote, (∀ quote ∈ list, quote ∈ head :: rest) →
          head ∈ list → bestOf list = some head.amountOut := by
        intro list hsub hmem
        refine bestOf_eq_some.mpr ⟨⟨head, hmem, rfl⟩, ?_⟩
        intro quote hquote
        rcases List.mem_cons.mp (hsub quote hquote) with rfl | hrest
        · exact le_refl _
        · exact hsorted.1 quote hrest
      rw [hhead _ (fun _ h => h) List.mem_cons_self]
      apply hhead _ fun _ h => List.mem_of_mem_take h
      obtain ⟨limit, rfl⟩ := Nat.exists_eq_add_of_le' hlimit
      rw [List.take_succ_cons]
      exact List.mem_cons_self

end Best

namespace AmmSearcher

variable {G : Type} [StableDiGraph G Address EdgeData] {searcher : AmmSearcher G}
  {context : HeuristicContext} {σ : Type}

theorem SoundQuotes.traced (hmin : 1 ≤ context.config.minHops) {quotes : List RouteQuote}
    (hquotes : searcher.SoundQuotes context quotes) : searcher.TracedQuotes context quotes where
  nodup := hquotes.1
  traced := by
    intro quote hquote
    obtain ⟨hroute, hamount, htrace⟩ := hquotes.2 quote hquote
    refine ⟨?_, hamount, htrace⟩
    intro hempty
    have hlength : context.config.minHops ≤ quote.path.length := hroute.minHops
    rw [hempty] at hlength
    exact absurd (hmin.trans hlength) (by simp)

omit [StableDiGraph G Address EdgeData] in
/-- Simulating traced quotes gives the same quotes back. -/
theorem mem_simulated {quotes : List RouteQuote}
    (hquotes : searcher.TracedQuotes context quotes) (quote : RouteQuote) :
    quote ∈ (quotePathsWithRegistry (searcher.quoteEnv context.simConfig)
        searcher.quoteContext (quotes.map RouteQuote.path) context.amountIn).1 ↔
      quote ∈ quotes := by
  obtain ⟨_, _, hquoted, hall, hcontinue⟩ := quotePathsWithRegistryObserved_spec
    (searcher.quoteEnv context.simConfig) searcher.quoteContext context.amountIn
    (fun _ _ => ((), true)) hquotes.nodup ()
  constructor
  · intro hmem
    obtain ⟨hpath, _, hamount, htrace⟩ := hquoted quote hmem
    obtain ⟨other, hother, hsame⟩ := List.mem_map.mp hpath
    obtain ⟨_, hamount', htrace'⟩ := hquotes.traced other hother
    unfold trace at htrace'
    rw [hsame, htrace] at htrace'
    obtain ⟨path, amountIn, amountOut, hops⟩ := quote
    obtain ⟨path', amountIn', amountOut', hops'⟩ := other
    simp only [Except.ok.injEq, Prod.mk.injEq] at hsame hamount hamount' htrace'
    obtain ⟨rfl, rfl⟩ := htrace'
    subst hsame hamount hamount'
    exact hother
  · intro hmem
    obtain ⟨hpath, hamount, htrace⟩ := hquotes.traced quote hmem
    exact hall (hcontinue fun _ _ => rfl) quote (List.mem_map_of_mem hmem) hpath hamount
      htrace

omit [StableDiGraph G Address EdgeData] in
/-- The best returned amount is the best amount of the run. -/
theorem bestAmountOut_finishSearch
    (hfinalists : 1 ≤ context.heuristic.maxFinalists) {run : HeuristicRun σ}
    (hstopped : run.stopped = false)
    (hquotes : searcher.TracedQuotes context run.quotes) :
    bestAmountOut ((searcher.finishSearch context run).map HeuristicRoutesReport.quotes) =
      bestOf run.quotes := by
  have hbest : bestOf (finalists context run.quotes) = bestOf run.quotes :=
    bestOf_take_sortByAmountOut run.quotes hfinalists
  simp only [finishSearch]
  rw [if_neg (by simp [hstopped])]
  split
  · rename_i hempty
    rw [hempty]
    split
    · rfl
    · rfl
  · rename_i hsome
    split
    · exact hbest
    · have hsame := bestOf_congr (mem_simulated hquotes.finalists)
      rw [hbest] at hsame
      unfold rankOrNoViable
      split
      · rename_i error herror
        split at herror
        · rename_i hnone
          rw [hnone] at hsame
          exact absurd (bestOf_eq_none.mp hsame.symm) hsome
        · cases herror
      · rename_i ranked hranked
        split at hranked
        · cases hranked
        · obtain rfl := Except.ok.inj hranked
          refine Eq.trans (bestOf_congr ?_) hsame
          exact fun quote => (List.perm_insertionSort _ _).mem_iff

omit [StableDiGraph G Address EdgeData] in
theorem quotes_ne_nil_of_finishSearch {run : HeuristicRun σ}
    (hstopped : run.stopped = false) {report : HeuristicRoutesReport}
    (hreport : searcher.finishSearch context run = .ok report) : run.quotes ≠ [] := by
  intro hempty
  simp only [finishSearch] at hreport
  rw [if_neg (by simp [hstopped]), if_pos hempty] at hreport
  split at hreport
  · cases hreport
  · cases hreport

/-- What the run of a request says about the routes that the request returns. -/
structure Returns (result : Except SearchError (List RouteQuote))
    (run : HeuristicRun σ) : Prop where
  best : bestAmountOut result = bestOf run.quotes
  nonempty : ∀ quotes, result = .ok quotes → run.quotes ≠ []

theorem Returns.exists_ok {result : Except SearchError (List RouteQuote)}
    {run : HeuristicRun σ} (hreturns : Returns result run) (hsome : run.quotes ≠ []) :
    ∃ quotes, result = .ok quotes ∧ bestOf quotes = bestOf run.quotes := by
  cases result with
  | error error =>
      exact absurd (bestOf_eq_none.mp hreturns.best.symm) hsome
  | ok quotes => exact ⟨quotes, rfl, hreturns.best⟩

section Requests

variable {request : RouteRequest} {heuristic : HeuristicSearchConfig}
  {source target : NodeIndex}

/-- A request that returns routes names two tokens of the graph. -/
theorem exists_nodes_of_findRoutes (hmode : request.config.mode = .heuristic heuristic)
    (hvalid : request.config.validate = .ok ()) {quotes : List RouteQuote}
    (hok : searcher.findRoutes request = .ok quotes) :
    (∃ source, searcher.graph.nodeIndex request.tokenIn = some source) ∧
      ∃ target, searcher.graph.nodeIndex request.tokenOut = some target := by
  simp only [findRoutes, hmode, findRoutesHeuristicWithCache,
    findRoutesHeuristicWithCacheObserved, hvalid] at hok
  cases hsource : searcher.graph.nodeIndex request.tokenIn with
  | none =>
      rw [hsource] at hok
      cases hok
  | some source =>
      cases htarget : searcher.graph.nodeIndex request.tokenOut with
      | none =>
          rw [hsource, htarget] at hok
          cases hok
      | some target => exact ⟨⟨source, rfl⟩, target, rfl⟩

/-- A full heuristic request returns what its final run found. -/
theorem returns_findRoutes (hmode : request.config.mode = .heuristic heuristic)
    (hvalid : request.config.validate = .ok ())
    (hsource : searcher.graph.nodeIndex request.tokenIn = some source)
    (htarget : searcher.graph.nodeIndex request.tokenOut = some target)
    (hlimit : request.config.maxCandidates = none)
    (hstopped : (searcher.finalRun (searcher.requestContext request heuristic source
      target) (fun _ _ => ((), true)) ()).stopped = false)
    (hquotes : searcher.TracedQuotes (searcher.requestContext request heuristic source
      target) (searcher.finalRun (searcher.requestContext request heuristic source
        target) (fun _ _ => ((), true)) ()).quotes) :
    Returns (searcher.findRoutes request)
      (searcher.finalRun (searcher.requestContext request heuristic source target)
        (fun _ _ => ((), true)) ()) := by
  have hfast := @fastLaneRun_runFastLane G _ searcher
    (searcher.requestContext request heuristic source target) Unit
    (fun _ _ => ((), true)) hlimit (fun _ _ => rfl) ()
  have hresult : searcher.findRoutes request =
      (searcher.finishSearch (searcher.requestContext request heuristic source target)
        (searcher.finalRun (searcher.requestContext request heuristic source target)
          (fun _ _ => ((), true)) ())).map HeuristicRoutesReport.quotes := by
    simp only [findRoutes, hmode]
    change (searcher.observedSearch request heuristic (fun _ _ => ((), true)) .full
      ()).2.map _ = _
    rw [observedSearch_eq hvalid hsource htarget]
    unfold searchRoutes
    simp only
    rw [if_neg (by simp [hfast.stopped])]
    rfl
  have hfinalists : 1 ≤ heuristic.maxFinalists := by
    have hheuristic := SearchConfig.heuristic_of_validate hmode hvalid
    unfold HeuristicSearchConfig.validate at hheuristic
    rw [rejectWhen_bind_eq_ok_iff, rejectWhen_bind_eq_ok_iff] at hheuristic
    simpa [Nat.one_le_iff_ne_zero] using hheuristic.2.1
  rw [hresult]
  refine ⟨bestAmountOut_finishSearch hfinalists hstopped hquotes, ?_⟩
  intro quotes hok
  cases hreport : searcher.finishSearch (searcher.requestContext request heuristic
      source target) (searcher.finalRun (searcher.requestContext request heuristic source
        target) (fun _ _ => ((), true)) ()) with
  | error error =>
      rw [hreport] at hok
      cases hok
  | ok report => exact quotes_ne_nil_of_finishSearch hstopped hreport

end Requests

section SinglePass

variable {onQuote : σ → RouteQuote → σ × Bool} {start : σ}

/-- Without a shortlist the search is one pass after the fast lane. -/
theorem finalRun_singlePass (hresolved : context.Resolved searcher.graph)
    (huncut : searcher.Uncut context) (hroom : 0 < context.config.maxHops)
    (hquiet : ∀ observed quote, (onQuote observed quote).2 = true)
    (hshort : context.heuristic.edgeShortlist.enabled = false)
    (hfast : searcher.SoundRun context onQuote start
      (searcher.runFastLane context onQuote { observed := start })) :
    (∃ expanded, searcher.PassCovers context onQuote .initial 0 [context.rootState]
        (beginPass (searcher.runFastLane context onQuote { observed := start }))
        (searcher.finalRun context onQuote start) expanded) ∧
      searcher.SoundQuotes context (searcher.finalRun context onQuote start).quotes := by
  have hlane := @fastLaneRun_runFastLane G _ searcher context σ onQuote
    huncut.candidates hquiet start
  have hmodes : heuristicPassModes context.heuristic = [.initial] := by
    simp [heuristicPassModes, hshort]
  have hfinal : searcher.finalRun context onQuote start =
      searcher.runPass context onQuote
        (searcher.runFastLane context onQuote { observed := start }) .initial := by
    unfold finalRun
    rw [hmodes]
    simp only [runPasses]
    split
    · rfl
    · split
      · rfl
      · rfl
  obtain ⟨log, hsound⟩ := hfast.runPass hresolved .initial
  rw [hfinal]
  refine ⟨passCovers_runPass hresolved huncut hroom hquiet hlane.stopped ?_ hlane.quoted,
    hsound.soundQuotes⟩
  rw [hlane.index]
  exact PrefixDominanceIndex.wellFormed_empty

end SinglePass

end AmmSearcher

end AmmSearch
