/-
Soundness of heuristic search.  Every quote that the beam search reports is a
route of the request with the amounts of its hops, and no path is reported
twice; the fast lane keeps this except on round trips.
-/
import AmmSearch.HeuristicExpansion

open FiniteMap StableGraph

namespace AmmSearch

namespace AmmSearcher

variable {G : Type} [StableDiGraph G Address EdgeData] (searcher : AmmSearcher G)
  (context : HeuristicContext)

/-- A quote of a route with the amounts of its hops. -/
structure Reportable (quote : RouteQuote) : Prop where
  isRoute : searcher.graph.IsRoute context.effective context.tokenIn
    context.tokenOut context.allowFinalSourceRevisit quote.path
  amountIn : quote.amountIn = context.amountIn
  trace : searcher.trace context quote.path = .ok (quote.hops, quote.amountOut)

section Runs

variable {σ : Type} (onQuote : σ → RouteQuote → σ × Bool) (start : σ)

/-- The run has reported `log` to its callback, and everything it holds is
sound. -/
structure RunSound (log : List RouteQuote) (run : HeuristicRun σ) : Prop where
  observed : run.observed = reportAll onQuote start log
  reportable : ∀ quote ∈ log, searcher.Reportable context quote
  nodup : (log.map RouteQuote.path).Nodup
  evaluated : ∀ quote ∈ log, quote.path ∈ run.evaluatedPaths
  quotes : run.quotes.Sublist log
  frontier : ∀ state ∈ run.nextFrontier, searcher.Sound context state

/-- Some log makes the run sound. -/
def SoundRun (run : HeuristicRun σ) : Prop :=
  ∃ log, searcher.RunSound context onQuote start log run

variable {searcher context onQuote start} {run : HeuristicRun σ}

theorem SoundRun.completePath (hrun : searcher.SoundRun context onQuote start run)
    {quote : RouteQuote} (hquote : searcher.Reportable context quote) :
    searcher.SoundRun context onQuote start
      (completePath context onQuote run quote) := by
  obtain ⟨log, hobserved, hreportable, hnodup, hevaluated, hquotes, hfrontier⟩ := hrun
  unfold AmmSearcher.completePath
  split
  · exact ⟨log, hobserved, hreportable, hnodup, hevaluated, hquotes, hfrontier⟩
  · rename_i hnew
    refine ⟨log ++ [quote], ?_, ?_, ?_, ?_, hquotes.append (List.Sublist.refl _),
      hfrontier⟩
    · simp only [reportAll_append, ← hobserved]
      rfl
    · intro other hother
      rcases List.mem_append.mp hother with hold | hlast
      · exact hreportable other hold
      · exact List.mem_singleton.mp hlast ▸ hquote
    · rw [List.map_append, List.map_singleton, List.nodup_append_comm,
        List.singleton_append, List.nodup_cons]
      refine ⟨?_, hnodup⟩
      intro hmem
      obtain ⟨other, hother, hpath⟩ := List.mem_map.mp hmem
      exact hnew (hpath ▸ hevaluated other hother)
    · intro other hother
      rcases List.mem_append.mp hother with hold | hlast
      · exact Finset.mem_insert_of_mem (hevaluated other hold)
      · exact List.mem_singleton.mp hlast ▸ Finset.mem_insert_self _ _

theorem SoundRun.pushPrefix (hrun : searcher.SoundRun context onQuote start run)
    {next : HeuristicState} (hnext : searcher.Sound context next) (token : Address) :
    searcher.SoundRun context onQuote start
      (searcher.pushPrefix context run token next) := by
  obtain ⟨log, hobserved, hreportable, hnodup, hevaluated, hquotes, hfrontier⟩ := hrun
  have hpushed : ∀ state ∈ run.nextFrontier ++ [next],
      searcher.Sound context state := by
    intro state hstate
    rcases List.mem_append.mp hstate with hold | hlast
    · exact hfrontier state hold
    · exact List.mem_singleton.mp hlast ▸ hnext
  simp only [AmmSearcher.pushPrefix]
  split
  · split
    · exact ⟨log, hobserved, hreportable, hnodup, hevaluated, hquotes, hfrontier⟩
    · exact ⟨log, hobserved, hreportable, hnodup, hevaluated, hquotes, hpushed⟩
  · exact ⟨log, hobserved, hreportable, hnodup, hevaluated, hquotes, hpushed⟩

/-- Expanding a quoted hop of a sound state keeps the run sound. -/
theorem SoundRun.expandQuoted (hresolved : context.Resolved searcher.graph)
    (hrun : searcher.SoundRun context onQuote start run) {state : HeuristicState}
    (hstate : searcher.Sound context state) {quoted : QuotedHeuristicHop}
    (hdepth : state.path.length < context.config.maxHops)
    (hoffered : quoted.hop ∈ searcher.offeredHops context state)
    (hquote : searcher.quoteHop context quoted.hop state.amount = .ok quoted.amountOut) :
    searcher.SoundRun context onQuote start
      (searcher.expandQuoted context onQuote state run quoted) := by
  have hoffers := (mem_offeredHops hresolved hstate quoted.hop).mp hoffered
  unfold AmmSearcher.expandQuoted
  split
  · exact hrun
  · split
    · exact hrun
    · rename_i node hnode
      have htarget : node = context.target ↔ quoted.hop.tokenOut = context.tokenOut := by
        constructor
        · rintro rfl
          exact AmmGraph.nodeIndex_inj hresolved.indexed hnode hresolved.target
        · intro heq
          rw [heq] at hnode
          exact Option.some.inj (hnode.symm.trans hresolved.target)
      simp only
      split
      · rename_i hnodeTarget
        split
        · rename_i hmin
          rcases hoffers with hcloses | ⟨hextends, _⟩
          · refine hrun.completePath ⟨?_, rfl, ?_⟩
            · refine HeuristicContext.isRoute_effective_append_singleton.mpr
                ⟨hstate.isOpen, hcloses, ?_, hdepth⟩
              simpa [nextState] using hmin
            · simp only [nextState]
              rw [trace_append_singleton hstate.trace, hquote]
          · exact absurd (htarget.mp hnodeTarget) hextends.2.2.1
        · exact hrun
      · rename_i hnodeTarget
        split
        · rcases hoffers with hcloses | ⟨hextends, _⟩
          · exact absurd (htarget.mpr hcloses.2.1) hnodeTarget
          · exact hrun.pushPrefix (hstate.nextState hextends hquote hnode) _
        · exact hrun

theorem SoundRun.expandGroup (hresolved : context.Resolved searcher.graph)
    (hrun : searcher.SoundRun context onQuote start run) {state : HeuristicState}
    (hstate : searcher.Sound context state)
    (hdepth : state.path.length < context.config.maxHops) {mode : HeuristicPassMode}
    {group : HeuristicHopGroup}
    (hgroup : group ∈ searcher.groupHeuristicHops context mode state) :
    searcher.SoundRun context onQuote start
      (searcher.expandGroup context onQuote mode state run group) := by
  unfold AmmSearcher.expandGroup
  split
  · exact hrun
  · refine List.foldlRecOn (searcher.keptQuotes context mode state group) _ ?_ ?_
    · obtain ⟨log, hobserved, hreportable, hnodup, hevaluated, hquotes, hfrontier⟩ :=
        hrun
      exact ⟨log, hobserved, hreportable, hnodup, hevaluated, hquotes, hfrontier⟩
    · intro run hrun quoted hquoted
      obtain ⟨hoffered, _, hquote⟩ := offered_of_mem_keptQuotes hgroup hquoted
      exact hrun.expandQuoted hresolved hstate hdepth hoffered hquote

theorem SoundRun.expandState (hresolved : context.Resolved searcher.graph)
    (hrun : searcher.SoundRun context onQuote start run) {state : HeuristicState}
    (hstate : searcher.Sound context state) (mode : HeuristicPassMode) :
    searcher.SoundRun context onQuote start
      (searcher.expandState context onQuote mode run state) := by
  unfold AmmSearcher.expandState
  split
  · exact hrun
  · split
    · exact hrun
    · rename_i hskip
      have hdepth : state.path.length < context.config.maxHops := by
        simp only [skipsState, Bool.or_eq_true, decide_eq_true_eq, not_or,
          not_le] at hskip
        exact hskip.1.1
      refine List.foldlRecOn _ _ hrun ?_
      intro run hrun group hgroup
      exact hrun.expandGroup hresolved hstate hdepth hgroup

omit [StableDiGraph G Address EdgeData] in
theorem applyBeamWidth_subset (frontier : List HeuristicState) (width : Option ℕ)
    (sort : Bool) :
    ∀ state ∈ searcher.applyBeamWidth frontier width sort, state ∈ frontier := by
  intro state hstate
  have hsorted : ∀ flag : Bool, state ∈ (if flag = true then
      searcher.sortFrontier frontier else frontier) → state ∈ frontier := by
    intro flag hstate
    split at hstate
    · exact (List.perm_insertionSort _ _).mem_iff.mp hstate
    · exact hstate
  have htaken : ∀ (width : ℕ) (base : List HeuristicState),
      state ∈ (if width < base.length then base.take width else base) →
        state ∈ base := by
    intro width base hstate
    split at hstate
    · exact List.mem_of_mem_take hstate
    · exact hstate
  cases width with
  | none => exact hsorted _ hstate
  | some width => exact hsorted _ (htaken _ _ hstate)

theorem nextLevel_subset (run : HeuristicRun σ) :
    ∀ state ∈ searcher.nextLevel context run, state ∈ run.nextFrontier := by
  intro state hstate
  have hretained := applyBeamWidth_subset _ _ _ state hstate
  unfold retainUndominated at hretained
  split at hretained
  · exact (List.mem_filter.mp hretained).1
  · exact hretained

theorem SoundRun.searchLoop (hresolved : context.Resolved searcher.graph)
    (mode : HeuristicPassMode) (fuel : ℕ) {frontier : List HeuristicState}
    (hfrontier : ∀ state ∈ frontier, searcher.Sound context state)
    (hrun : searcher.SoundRun context onQuote start run) :
    searcher.SoundRun context onQuote start
      (searcher.searchLoop context onQuote mode fuel frontier run) := by
  induction fuel generalizing frontier run with
  | zero => exact hrun
  | succ fuel ih =>
      have hlevel : searcher.SoundRun context onQuote start
          (frontier.foldl (searcher.expandState context onQuote mode)
            { run with nextFrontier := [] }) := by
        refine List.foldlRecOn _ _ ?_ ?_
        · obtain ⟨log, hobserved, hreportable, hnodup, hevaluated, hquotes, _⟩ := hrun
          exact ⟨log, hobserved, hreportable, hnodup, hevaluated, hquotes, by simp⟩
        · intro run hrun state hstate
          exact hrun.expandState hresolved (hfrontier state hstate) mode
      rw [AmmSearcher.searchLoop]
      split
      · exact hrun
      · simp only
        split
        · exact hlevel
        · refine ih ?_ hlevel
          intro state hstate
          obtain ⟨log, hsound⟩ := hlevel
          exact hsound.frontier state (nextLevel_subset _ state hstate)

theorem SoundRun.runPass (hresolved : context.Resolved searcher.graph)
    (hrun : searcher.SoundRun context onQuote start run) (mode : HeuristicPassMode) :
    searcher.SoundRun context onQuote start
      (searcher.runPass context onQuote run mode) := by
  refine SoundRun.searchLoop hresolved mode _ ?_ ?_
  · intro state hstate
    exact List.mem_singleton.mp hstate ▸ sound_rootState hresolved
  · obtain ⟨log, hobserved, hreportable, hnodup, hevaluated, hquotes, _⟩ := hrun
    exact ⟨log, hobserved, hreportable, hnodup, hevaluated, hquotes, by simp⟩

theorem SoundRun.runPasses (hresolved : context.Resolved searcher.graph)
    (modes : List HeuristicPassMode)
    (hrun : searcher.SoundRun context onQuote start run) :
    searcher.SoundRun context onQuote start
      (searcher.runPasses context onQuote modes run) := by
  induction modes generalizing run with
  | nil => exact hrun
  | cons mode rest ih =>
      rw [AmmSearcher.runPasses]
      split
      · exact hrun.runPass hresolved mode
      · split
        · exact hrun.runPass hresolved mode
        · exact ih (hrun.runPass hresolved mode)

end Runs

section FastLane

theorem foldl_pushUnseen_spec (candidates paths : List RoutePath)
    (hpaths : paths.Nodup) :
    (pushUnseen paths candidates).Nodup ∧
      ∀ path, path ∈ pushUnseen paths candidates ↔ path ∈ paths ∨ path ∈ candidates := by
  induction candidates generalizing paths with
  | nil => simpa [pushUnseen] using hpaths
  | cons head rest ih =>
      have hstep : pushUnseen paths (head :: rest) =
          pushUnseen (if head ∈ paths then paths else paths ++ [head]) rest := rfl
      rw [hstep]
      split
      · rename_i hseen
        refine ⟨(ih paths hpaths).1, fun path => ?_⟩
        rw [(ih paths hpaths).2, List.mem_cons]
        constructor
        · rintro (hold | hnew)
          · exact Or.inl hold
          · exact Or.inr (Or.inr hnew)
        · rintro (hold | rfl | hnew)
          · exact Or.inl hold
          · exact Or.inl hseen
          · exact Or.inr hnew
      · rename_i hnew
        have hnodup : (paths ++ [head]).Nodup := by
          rw [List.nodup_append_comm, List.singleton_append, List.nodup_cons]
          exact ⟨hnew, hpaths⟩
        refine ⟨(ih _ hnodup).1, fun path => ?_⟩
        rw [(ih _ hnodup).2, List.mem_append, List.mem_singleton, List.mem_cons, or_assoc]

variable {searcher context}

theorem nodup_fastLanePaths
    (tokenIn tokenOut : Address) (config : SearchConfig)
    (heuristic : HeuristicSearchConfig) (connectorTokens : Option (Finset Address)) :
    (searcher.fastLanePaths tokenIn tokenOut config heuristic connectorTokens).Nodup := by
  unfold fastLanePaths
  split
  · exact List.nodup_nil
  · exact (foldl_pushUnseen_spec _ _ (foldl_pushUnseen_spec _ _ List.nodup_nil).1).1

/-- The direct candidates of the fast lane. -/
def DirectCandidate (searcher : AmmSearcher G) (tokenIn tokenOut : Address)
    (config : SearchConfig) (heuristic : HeuristicSearchConfig)
    (path : RoutePath) : Prop :=
  ∃ ranked ∈ (searcher.rankedHopsBetween tokenIn tokenOut heuristic.edgeShortlist
    config.liquidityPruning).take heuristic.fastLane.directEdgesPerPair,
      path = [ranked.hop]

/-- The two-hop candidates of the fast lane. -/
def ConnectorCandidate (searcher : AmmSearcher G) (tokenIn tokenOut : Address)
    (config : SearchConfig) (heuristic : HeuristicSearchConfig)
    (connectorTokens : Option (Finset Address)) (path : RoutePath) : Prop :=
  ∃ connector ∈ (searcher.rankedCentralConnectors tokenIn tokenOut
    connectorTokens).take heuristic.fastLane.maxConnectors,
    ∃ first ∈ (searcher.rankedHopsBetween tokenIn connector heuristic.edgeShortlist
      config.liquidityPruning).take heuristic.fastLane.connectorEdgesPerPair,
    ∃ second ∈ (searcher.rankedHopsBetween connector tokenOut heuristic.edgeShortlist
      config.liquidityPruning).take heuristic.fastLane.connectorEdgesPerPair,
      first.hop.pool ≠ second.hop.pool ∧ path = [first.hop, second.hop]

theorem mem_fastLanePaths (tokenIn tokenOut : Address) (config : SearchConfig)
    (heuristic : HeuristicSearchConfig) (connectorTokens : Option (Finset Address))
    (path : RoutePath) :
    path ∈ searcher.fastLanePaths tokenIn tokenOut config heuristic connectorTokens ↔
      config.maxHops ≠ 0 ∧
        ((heuristic.fastLane.evaluateDirectBestFirst = true ∧ config.minHops ≤ 1 ∧
            searcher.DirectCandidate tokenIn tokenOut config heuristic path) ∨
          (2 ≤ config.maxHops ∧ config.minHops ≤ 2 ∧
            searcher.ConnectorCandidate tokenIn tokenOut config heuristic
              connectorTokens path)) := by
  unfold fastLanePaths
  split
  · rename_i hzero
    simp [hzero]
  · rename_i hne
    have hdirect := foldl_pushUnseen_spec
      (if heuristic.fastLane.evaluateDirectBestFirst = true ∧ config.minHops ≤ 1 then
        ((searcher.rankedHopsBetween tokenIn tokenOut heuristic.edgeShortlist
          config.liquidityPruning).take heuristic.fastLane.directEdgesPerPair).map
            fun ranked => [ranked.hop] else []) [] List.nodup_nil
    simp only [(foldl_pushUnseen_spec _ _ hdirect.1).2, hdirect.2]
    simp only [List.not_mem_nil, false_or, ne_eq, hne, not_false_eq_true, true_and]
    refine or_congr ?_ ?_
    · split
      · rename_i hflags
        simp only [hflags, true_and, DirectCandidate, List.mem_map,
          @eq_comm _ path]
      · rename_i hflags
        simp only [List.not_mem_nil, false_iff]
        exact fun h => hflags ⟨h.1, h.2.1⟩
    · split
      · rename_i hbounds
        simp only [hbounds, true_and, ConnectorCandidate, connectorPaths,
          List.mem_flatMap, List.mem_map, List.mem_filter, decide_eq_true_eq,
          and_assoc, @eq_comm _ path]
      · rename_i hbounds
        simp only [List.not_mem_nil, false_iff]
        exact fun h => hbounds ⟨h.1, h.2.1⟩

/-- Ranked hops follow the edges between two tokens. -/
theorem isHop_of_mem_rankedHopsBetween (hindexed : searcher.graph.Indexed)
    {tokenIn tokenOut : Address} {shortlist : AdaptiveEdgeShortlistConfig}
    {config : LiquidityPruningConfig} {ranked : LiquidityRankedHop}
    (hranked : ranked ∈ searcher.rankedHopsBetween tokenIn tokenOut shortlist config) :
    searcher.graph.IsHop ranked.hop ∧ ranked.hop.tokenIn = tokenIn ∧
      ranked.hop.tokenOut = tokenOut := by
  unfold rankedHopsBetween at hranked
  cases hnode : searcher.graph.nodeIndex tokenIn with
  | none => simp [hnode] at hranked
  | some node =>
      simp only [hnode] at hranked
      have hhop := (searcher.perm_liquidityRankedHops _ _ _).mem_iff.mp
        (List.mem_map_of_mem hranked)
      simp only [List.mem_map, List.mem_filter, decide_eq_true_eq] at hhop
      obtain ⟨edge, ⟨hedge, hout⟩, hhop⟩ := hhop
      obtain ⟨hin, _, hedgeHop⟩ := (hindexed.mem_outgoingEdges hnode edge).mp hedge
      rw [← hhop]
      exact ⟨by simpa only [hin] using hedgeHop, hin, hout⟩

theorem mem_rankedCentralConnectors {tokenIn tokenOut : Address}
    {tokens : Finset Address} {token : Address}
    (htoken : token ∈ searcher.rankedCentralConnectors tokenIn tokenOut (some tokens)) :
    token ∈ tokens ∧ token ≠ tokenIn ∧ token ≠ tokenOut := by
  have hmem := (List.perm_insertionSort _ _).mem_iff.mp htoken
  simpa using hmem

/-- Between distinct tokens every fast-lane candidate is a route. -/
theorem isRoute_of_mem_fastLanePaths (hresolved : context.Resolved searcher.graph)
    {tokens : Finset Address} (htokens : context.connectorTokens = some tokens)
    (hne : context.tokenIn ≠ context.tokenOut) {path : RoutePath}
    (hpath : path ∈ searcher.fastLanePaths context.tokenIn context.tokenOut
      context.config context.heuristic context.connectorTokens) :
    searcher.graph.IsRoute context.effective context.tokenIn context.tokenOut
      context.allowFinalSourceRevisit path := by
  obtain ⟨hmax, hcase⟩ := (mem_fastLanePaths _ _ _ _ _ path).mp hpath
  rcases hcase with ⟨_, hmin, ranked, hranked, rfl⟩ |
    ⟨hmax', hmin, connector, hconnector, first, hfirst, second, hsecond, hpools, rfl⟩
  · obtain ⟨hhop, hin, hout⟩ := isHop_of_mem_rankedHopsBetween hresolved.indexed
      (List.mem_of_mem_take hranked)
    refine HeuristicContext.isRoute_effective_append_singleton.mpr
      ⟨HeuristicContext.isOpen_nil, ⟨⟨hhop, hin, by simp⟩, hout, Or.inr hne⟩, hmin, ?_⟩
    exact Nat.one_le_iff_ne_zero.mpr hmax
  · obtain ⟨hhop, hin, hout⟩ := isHop_of_mem_rankedHopsBetween hresolved.indexed
      (List.mem_of_mem_take hfirst)
    obtain ⟨hhop', hin', hout'⟩ := isHop_of_mem_rankedHopsBetween hresolved.indexed
      (List.mem_of_mem_take hsecond)
    rw [htokens] at hconnector
    obtain ⟨hallowed, hsource, htarget⟩ :=
      mem_rankedCentralConnectors (List.mem_of_mem_take hconnector)
    have hopen : context.IsOpen searcher.graph [first.hop] := by
      refine HeuristicContext.isOpen_append_singleton.mpr
        ⟨HeuristicContext.isOpen_nil, ⟨hhop, hin, by simp⟩, ?_, ?_, ?_⟩
      · simpa [hout] using hsource
      · rwa [hout]
      · simp [connectorAllowed, connectorAllowedWithTokens, HeuristicContext.effective,
          htokens, hout, hallowed]
    refine HeuristicContext.isRoute_effective_append_singleton.mpr
      ⟨hopen, ⟨⟨hhop', ?_, ?_⟩, hout', Or.inr hne⟩, hmin, hmax'⟩
    · rw [hin', endToken, List.getLast?_singleton]
      exact hout.symm
    · simpa using hpools.symm

/-- Taking over the fast-lane quotes keeps an initial part of them. -/
theorem acceptFastLane_spec {σ : Type} (config : SearchConfig)
    (quotes : List RouteQuote) (run : HeuristicRun σ) :
    ∃ taken stopped incumbent, taken <+: quotes ∧
      acceptFastLane config quotes run =
        { run with
          quotes := run.quotes ++ taken
          stopped := stopped
          incumbentAmount := incumbent } := by
  induction quotes generalizing run with
  | nil =>
      exact ⟨[], run.stopped, run.incumbentAmount, List.prefix_refl _, by
        simp [acceptFastLane]⟩
  | cons quote rest ih =>
      rw [acceptFastLane]
      simp only
      split
      · exact ⟨[quote], true, _, ⟨rest, rfl⟩, rfl⟩
      · obtain ⟨taken, stopped, incumbent, hpre, heq⟩ := ih
          { run with
            incumbentAmount := raiseIncumbent run.incumbentAmount quote.amountOut
            quotes := run.quotes ++ [quote] }
        refine ⟨quote :: taken, stopped, incumbent, ?_, ?_⟩
        · rwa [List.cons_prefix_cons, and_iff_right rfl]
        · rw [heq]
          simp

variable {σ : Type} {onQuote : σ → RouteQuote → σ × Bool} {start : σ}

/-- The fast lane is sound when each of its candidates that can be quoted is
a route. -/
theorem soundRun_runFastLane
    (hroutes : context.allowFinalSourceRevisit = false →
      context.heuristic.fastLane.enabled = true →
      ∀ path ∈ searcher.fastLanePaths context.tokenIn context.tokenOut context.config
        context.heuristic context.connectorTokens,
      ∀ result, searcher.trace context path = .ok result →
        searcher.graph.IsRoute context.effective context.tokenIn context.tokenOut
          context.allowFinalSourceRevisit path) :
    searcher.SoundRun context onQuote start
      (searcher.runFastLane context onQuote { observed := start }) := by
  have hinitial : searcher.SoundRun context onQuote start { observed := start } :=
    ⟨[], rfl, by simp, List.nodup_nil, by simp, List.Sublist.refl _, by simp⟩
  unfold runFastLane
  split
  · rename_i henabled
    have hroutes := hroutes henabled.1 henabled.2
    simp only
    split
    · exact hinitial
    · have hspec := quotePathsWithRegistryObserved_spec
        (searcher.quoteEnv context.simConfig) searcher.quoteContext context.amountIn
        onQuote (@nodup_fastLanePaths G _ searcher context.tokenIn context.tokenOut
          context.config context.heuristic context.connectorTokens) start
      generalize quotePathsWithRegistryObserved
        ⟨onQuote, fun observed _ => (observed, true)⟩ _ _ _ _ _ = report at hspec ⊢
      obtain ⟨hobserved, hnodup, hquoted, _⟩ := hspec
      obtain ⟨taken, stopped, incumbent, htaken, haccept⟩ := acceptFastLane_spec
        context.config report.quotes
        { ({ observed := start } : HeuristicRun σ) with
          evaluatedPaths := ∅ ∪ (searcher.fastLanePaths context.tokenIn context.tokenOut
            context.config context.heuristic context.connectorTokens).toFinset
          failures := [] ++ report.failures
          observed := report.observed
          stopped := report.stopped }
      rw [haccept]
      refine ⟨report.quotes, hobserved, ?_, hnodup, ?_, ?_, by simp⟩
      · intro quote hquote
        obtain ⟨hpath, _, hamount, htrace⟩ := hquoted quote hquote
        exact ⟨hroutes quote.path hpath _ htrace, hamount, htrace⟩
      · intro quote hquote
        simpa using (hquoted quote hquote).1
      · simpa using htaken.sublist
  · exact hinitial

end FastLane

section Reports

variable {searcher context} {σ : Type} {onQuote : σ → RouteQuote → σ × Bool}
  {start : σ} {run : HeuristicRun σ}

/-- Distinct sound quotes. -/
def SoundQuotes (searcher : AmmSearcher G) (context : HeuristicContext)
    (quotes : List RouteQuote) : Prop :=
  (quotes.map RouteQuote.path).Nodup ∧
    ∀ quote ∈ quotes, searcher.Reportable context quote

theorem RunSound.soundQuotes {log : List RouteQuote}
    (hrun : searcher.RunSound context onQuote start log run) :
    searcher.SoundQuotes context run.quotes :=
  ⟨hrun.nodup.sublist (hrun.quotes.map RouteQuote.path),
    fun quote hquote => hrun.reportable quote (hrun.quotes.mem hquote)⟩

theorem SoundQuotes.of_perm {quotes other : List RouteQuote}
    (hquotes : searcher.SoundQuotes context quotes) (hperm : other.Perm quotes) :
    searcher.SoundQuotes context other :=
  ⟨(hperm.map RouteQuote.path).nodup_iff.mpr hquotes.1,
    fun quote hquote => hquotes.2 quote (hperm.mem_iff.mp hquote)⟩

theorem SoundQuotes.finalists {quotes : List RouteQuote}
    (hquotes : searcher.SoundQuotes context quotes) :
    searcher.SoundQuotes context (finalists context quotes) := by
  have hsorted := hquotes.of_perm (List.perm_insertionSort
    (fun left right : RouteQuote => right.amountOut ≤ left.amountOut) quotes)
  refine ⟨hsorted.1.sublist ((List.take_sublist _ _).map RouteQuote.path), ?_⟩
  intro quote hquote
  exact hsorted.2 quote (List.mem_of_mem_take hquote)

/-- Simulating sound quotes again gives sound quotes. -/
theorem SoundQuotes.simulated {quotes : List RouteQuote}
    (hquotes : searcher.SoundQuotes context quotes) :
    searcher.SoundQuotes context
      (quotePathsWithRegistry (searcher.quoteEnv context.simConfig)
        searcher.quoteContext (quotes.map RouteQuote.path) context.amountIn).1 := by
  obtain ⟨_, hnodup, hquoted, _⟩ := quotePathsWithRegistryObserved_spec
    (searcher.quoteEnv context.simConfig) searcher.quoteContext context.amountIn
    (fun _ _ => ((), true)) hquotes.1 ()
  refine ⟨hnodup, ?_⟩
  intro quote hquote
  obtain ⟨hpath, _, hamount, htrace⟩ := hquoted quote hquote
  obtain ⟨other, hother, heq⟩ := List.mem_map.mp hpath
  exact ⟨heq ▸ (hquotes.2 other hother).isRoute, hamount, htrace⟩

theorem finishFastLane_sound (hrun : searcher.SoundQuotes context run.quotes)
    {report : HeuristicRoutesReport} (hreport : finishFastLane context run = .ok report) :
    searcher.SoundQuotes context report.quotes := by
  simp only [finishFastLane] at hreport
  split at hreport
  · cases hreport
  · obtain rfl := Except.ok.inj hreport
    exact hrun.finalists

theorem finishSearch_sound (hrun : searcher.SoundQuotes context run.quotes)
    {report : HeuristicRoutesReport}
    (hreport : searcher.finishSearch context run = .ok report) :
    searcher.SoundQuotes context report.quotes := by
  simp only [finishSearch] at hreport
  split at hreport
  · obtain rfl := Except.ok.inj hreport
    exact hrun.finalists
  · split at hreport
    · split at hreport
      · cases hreport
      · cases hreport
    · split at hreport
      · obtain rfl := Except.ok.inj hreport
        exact hrun.finalists
      · split at hreport
        · cases hreport
        · rename_i ranked hranked
          obtain rfl := Except.ok.inj hreport
          unfold rankOrNoViable at hranked
          split at hranked
          · cases hranked
          · obtain rfl := Except.ok.inj hranked
            exact hrun.finalists.simulated.of_perm (List.perm_insertionSort _ _)

/-- A search after a sound fast lane reports and returns sound quotes. -/
theorem searchRoutes_sound (hresolved : context.Resolved searcher.graph)
    (hfast : searcher.SoundRun context onQuote start
      (searcher.runFastLane context onQuote { observed := start }))
    (runLimit : HeuristicRunLimit) :
    (∃ log, (searcher.searchRoutes context onQuote runLimit start).1 =
        reportAll onQuote start log ∧ searcher.SoundQuotes context log) ∧
      ∀ report, (searcher.searchRoutes context onQuote runLimit start).2 = .ok report →
        searcher.SoundQuotes context report.quotes := by
  unfold searchRoutes
  simp only
  split
  · obtain ⟨log, hlog⟩ := hfast
    refine ⟨⟨log, hlog.observed, hlog.nodup, hlog.reportable⟩, fun report hreport => ?_⟩
    exact finishFastLane_sound hlog.soundQuotes hreport
  · obtain ⟨log, hlog⟩ := hfast.runPasses hresolved
      (heuristicPassModes context.heuristic)
    refine ⟨⟨log, hlog.observed, hlog.nodup, hlog.reportable⟩, fun report hreport => ?_⟩
    exact finishSearch_sound hlog.soundQuotes hreport

end Reports

section Requests

/-- The resolved context of a route request. -/
def requestContext (request : RouteRequest) (heuristic : HeuristicSearchConfig)
    (source target : NodeIndex) : HeuristicContext where
  source := source
  target := target
  tokenIn := request.tokenIn
  tokenOut := request.tokenOut
  amountIn := request.amountIn
  config := request.config
  heuristic := heuristic
  simConfig := request.simConfig
  allowFinalSourceRevisit := false
  connectorTokens := searcher.connectorTokensForHeuristic request.tokenIn
    request.tokenOut request.config heuristic

/-- The heuristic phase of a route request under an observer. -/
def observedSearch {σ : Type} (request : RouteRequest)
    (heuristic : HeuristicSearchConfig) (onQuote : σ → RouteQuote → σ × Bool)
    (runLimit : HeuristicRunLimit) (start : σ) :
    σ × Except SearchError HeuristicRoutesReport :=
  searcher.findRoutesHeuristicWithCacheObserved onQuote request.tokenIn
    request.tokenOut request.amountIn request.config heuristic request.simConfig false
    runLimit start

/-- A callback that also keeps the quotes reported to it. -/
def recording {σ : Type} (onQuote : σ → RouteQuote → σ × Bool) :
    σ × List RouteQuote → RouteQuote → (σ × List RouteQuote) × Bool :=
  fun observed quote =>
    (((onQuote observed.1 quote).1, observed.2 ++ [quote]),
      (onQuote observed.1 quote).2)

/-- Distinct routes of the request, each with the quote of its path. -/
structure FaithfulQuotes (request : RouteRequest) (quotes : List RouteQuote) :
    Prop where
  nodup : (quotes.map RouteQuote.path).Nodup
  isRoute : ∀ quote ∈ quotes, searcher.graph.IsRoute request.config request.tokenIn
    request.tokenOut false quote.path
  quoted : ∀ quote ∈ quotes, (searcher.quoteEnv request.simConfig).quotePathWithRegistry
    quote.path request.amountIn = .ok quote

/-- Everything that the search returns, and everything that its heuristic
phase reports to any observer, is faithful. -/
def HeuristicSound (request : RouteRequest) (heuristic : HeuristicSearchConfig) :
    Prop :=
  (∀ quotes, searcher.findRoutes request = .ok quotes →
    searcher.FaithfulQuotes request quotes) ∧
  ∀ (σ : Type) (onQuote : σ → RouteQuote → σ × Bool) (start : σ)
    (runLimit : HeuristicRunLimit),
    searcher.FaithfulQuotes request
      (searcher.observedSearch request heuristic (recording onQuote) runLimit
        (start, [])).1.2 ∧
    ∀ report, (searcher.observedSearch request heuristic (recording onQuote) runLimit
      (start, [])).2 = .ok report → searcher.FaithfulQuotes request report.quotes

/-- The fast lane of a request from a token to itself has a round trip through
a connector that can be quoted. -/
def QuotedRoundTrip (request : RouteRequest) (heuristic : HeuristicSearchConfig) :
    Prop :=
  request.tokenIn = request.tokenOut ∧ heuristic.fastLane.enabled = true ∧
    2 ≤ request.config.maxHops ∧ request.config.minHops ≤ 2 ∧
    ∃ path, searcher.ConnectorCandidate request.tokenIn request.tokenOut
        request.config heuristic (searcher.connectorTokensForHeuristic request.tokenIn
          request.tokenOut request.config heuristic) path ∧
      ∃ result, (searcher.quoteEnv request.simConfig).traceHops searcher.quoteContext
        path request.amountIn = .ok result

variable {searcher} {request : RouteRequest} {heuristic : HeuristicSearchConfig}
  {source target : NodeIndex}

theorem reportAll_recording {σ : Type} (onQuote : σ → RouteQuote → σ × Bool)
    (start : σ) (before log : List RouteQuote) :
    (reportAll (recording onQuote) (start, before) log).2 = before ++ log := by
  induction log generalizing start before with
  | nil => simp [reportAll]
  | cons quote rest ih =>
      change (reportAll (recording onQuote) (_, before ++ [quote]) rest).2 = _
      rw [ih, List.append_assoc, List.singleton_append]

theorem observedSearch_eq (hvalid : request.config.validate = .ok ())
    (hsource : searcher.graph.nodeIndex request.tokenIn = some source)
    (htarget : searcher.graph.nodeIndex request.tokenOut = some target) {σ : Type}
    (onQuote : σ → RouteQuote → σ × Bool) (runLimit : HeuristicRunLimit) (start : σ) :
    searcher.observedSearch request heuristic onQuote runLimit start =
      searcher.searchRoutes (searcher.requestContext request heuristic source target)
        onQuote runLimit start := by
  simp only [observedSearch, findRoutesHeuristicWithCacheObserved, hvalid, hsource,
    htarget]
  rfl

/-- The connectors of the search are among those that the request allows. -/
theorem isRoute_of_effective {path : RoutePath}
    (hroute : searcher.graph.IsRoute
      (searcher.requestContext request heuristic source target).effective
      request.tokenIn request.tokenOut false path) :
    searcher.graph.IsRoute request.config request.tokenIn request.tokenOut false path := by
  obtain ⟨hedges, hconnects, hmin, hmax, hpools, htokens, hinter⟩ := hroute
  refine ⟨hedges, hconnects, hmin, hmax, hpools, htokens, ?_⟩
  intro hop hhop
  obtain ⟨htarget, hallowed⟩ := hinter hop hhop
  refine ⟨htarget, ?_⟩
  simp only [connectorAllowed, HeuristicContext.effective, requestContext,
    connectorTokensForHeuristic] at hallowed
  unfold connectorAllowed
  cases hconnectors : request.config.connectorTokens with
  | some tokens => simpa only [hconnectors] using hallowed
  | none =>
      unfold connectorAllowedWithTokens
      split <;> simp

theorem SoundQuotes.faithful (hvalid : request.config.validate = .ok ())
    {quotes : List RouteQuote}
    (hquotes : searcher.SoundQuotes
      (searcher.requestContext request heuristic source target) quotes) :
    searcher.FaithfulQuotes request quotes where
  nodup := hquotes.1
  isRoute := fun quote hquote => isRoute_of_effective (hquotes.2 quote hquote).isRoute
  quoted := by
    intro quote hquote
    obtain ⟨hroute, hamount, htrace⟩ := hquotes.2 quote hquote
    have hne : quote.path ≠ [] := by
      intro hempty
      have hmin := hroute.minHops
      rw [hempty] at hmin
      exact absurd ((SearchConfig.hops_of_validate hvalid).1.trans hmin) (by simp)
    have hquote := QuoteEnv.quotePathWithRegistry_of_traceHops hne htrace
    obtain ⟨path, amountIn, amountOut, hops⟩ := quote
    simp only at hamount hquote
    rw [hamount]
    exact hquote

theorem faithfulQuotes_nil : searcher.FaithfulQuotes request [] :=
  ⟨List.nodup_nil, by simp, by simp⟩

/-- The fast lane of a request is sound unless it has a quoted round trip. -/
theorem soundRun_requestContext
    (hresolved : (searcher.requestContext request heuristic source target).Resolved
      searcher.graph)
    (hroundTrip : ¬ searcher.QuotedRoundTrip request heuristic) {σ : Type}
    (onQuote : σ → RouteQuote → σ × Bool) (start : σ) :
    searcher.SoundRun (searcher.requestContext request heuristic source target) onQuote
      start (searcher.runFastLane
        (searcher.requestContext request heuristic source target) onQuote
        { observed := start }) := by
  obtain ⟨tokens, htokens⟩ : ∃ tokens, (searcher.requestContext request heuristic
      source target).connectorTokens = some tokens := by
    simp only [requestContext, connectorTokensForHeuristic]
    split
    · exact ⟨_, rfl⟩
    · exact ⟨_, rfl⟩
  refine soundRun_runFastLane ?_
  intro _ henabled path hpath result htrace
  by_cases hne : request.tokenIn = request.tokenOut
  · exfalso
    obtain ⟨_, ⟨_, _, ranked, hranked, _⟩ | ⟨hmax, hmin, hcandidate⟩⟩ :=
      (mem_fastLanePaths _ _ _ _ _ path).mp hpath
    · obtain ⟨hhop, hin, hout⟩ := isHop_of_mem_rankedHopsBetween hresolved.indexed
        (List.mem_of_mem_take hranked)
      exact hresolved.indexed.tokens_ne hhop (hin.trans (hne.trans hout.symm))
    · exact hroundTrip ⟨hne, henabled, hmax, hmin, path, hcandidate, result, htrace⟩
  · exact isRoute_of_mem_fastLanePaths hresolved htokens hne hpath

/-- A valid request whose tokens are not both indexed is rejected at once. -/
theorem observedSearch_resolved (hvalid : request.config.validate = .ok ()) {σ : Type}
    (onQuote : σ → RouteQuote → σ × Bool) (runLimit : HeuristicRunLimit) (start : σ) :
    (∃ source target, searcher.graph.nodeIndex request.tokenIn = some source ∧
        searcher.graph.nodeIndex request.tokenOut = some target) ∨
      ∃ token, searcher.observedSearch request heuristic onQuote runLimit start =
        (start, .error (.tokenNotFound token)) := by
  cases hsource : searcher.graph.nodeIndex request.tokenIn with
  | none =>
      refine Or.inr ⟨request.tokenIn, ?_⟩
      simp [observedSearch, findRoutesHeuristicWithCacheObserved, hvalid, hsource]
  | some source =>
      cases htarget : searcher.graph.nodeIndex request.tokenOut with
      | none =>
          refine Or.inr ⟨request.tokenOut, ?_⟩
          simp [observedSearch, findRoutesHeuristicWithCacheObserved, hvalid, hsource,
            htarget]
      | some target => exact Or.inl ⟨source, target, rfl, rfl⟩

/-- What an observed search reports and returns without a quoted round trip. -/
theorem observedSearch_sound (hindexed : searcher.graph.Indexed)
    (hvalid : request.config.validate = .ok ())
    (hroundTrip : ¬ searcher.QuotedRoundTrip request heuristic) {σ : Type}
    (onQuote : σ → RouteQuote → σ × Bool) (runLimit : HeuristicRunLimit) (start : σ) :
    (∃ log, (searcher.observedSearch request heuristic onQuote runLimit start).1 =
        reportAll onQuote start log ∧ searcher.FaithfulQuotes request log) ∧
      ∀ report, (searcher.observedSearch request heuristic onQuote runLimit start).2 =
        .ok report → searcher.FaithfulQuotes request report.quotes := by
  rcases @observedSearch_resolved G _ searcher request heuristic hvalid σ onQuote runLimit
    start with ⟨source, target, hsource, htarget⟩ | ⟨token, hmissing⟩
  · have hresolved : (searcher.requestContext request heuristic source
        target).Resolved searcher.graph := ⟨hindexed, hsource, htarget⟩
    obtain ⟨⟨log, hlog, hsound⟩, hreports⟩ := searchRoutes_sound hresolved
      (soundRun_requestContext hresolved hroundTrip onQuote start) runLimit
    rw [observedSearch_eq hvalid hsource htarget]
    exact ⟨⟨log, hlog, hsound.faithful hvalid⟩,
      fun report hreport => (hreports report hreport).faithful hvalid⟩
  · rw [hmissing]
    refine ⟨⟨[], rfl, faithfulQuotes_nil⟩, fun report hreport => ?_⟩
    cases hreport

/-- The observer of a fast lane that never refuses has seen every candidate
that can be quoted. -/
theorem reported_of_mem_fastLanePaths {context : HeuristicContext}
    (hallow : context.allowFinalSourceRevisit = false)
    (henabled : context.heuristic.fastLane.enabled = true) {path : RoutePath}
    (hpath : path ∈ searcher.fastLanePaths context.tokenIn context.tokenOut
      context.config context.heuristic context.connectorTokens) (hne : path ≠ [])
    {hops : List HopQuote} {amountOut : U256}
    (htrace : searcher.trace context path = .ok (hops, amountOut)) :
    (⟨path, context.amountIn, amountOut, hops⟩ : RouteQuote) ∈
      (searcher.runFastLane context (recording fun (_ : Unit) _ => ((), true))
        { observed := ((), []) }).observed.2 := by
  obtain ⟨hobserved, _, _, hall, hcontinue⟩ := quotePathsWithRegistryObserved_spec
    (searcher.quoteEnv context.simConfig) searcher.quoteContext context.amountIn
    (recording fun (_ : Unit) _ => ((), true))
    (@nodup_fastLanePaths G _ searcher context.tokenIn context.tokenOut
      context.config context.heuristic context.connectorTokens) ((), [])
  have hmem := hall (hcontinue fun _ _ => rfl) ⟨path, context.amountIn, amountOut, hops⟩
    hpath hne rfl htrace
  unfold runFastLane
  rw [if_pos ⟨hallow, henabled⟩]
  simp only
  rw [if_neg (List.ne_nil_of_mem hpath)]
  obtain ⟨taken, stopped, incumbent, _, haccept⟩ := acceptFastLane_spec context.config
    (quotePathsWithRegistryObserved
      ⟨recording fun (_ : Unit) _ => ((), true), fun observed _ => (observed, true)⟩
      (searcher.quoteEnv context.simConfig) searcher.quoteContext context.amountIn
      (searcher.fastLanePaths context.tokenIn context.tokenOut context.config
        context.heuristic context.connectorTokens) ((), [])).quotes _
  rw [haccept]
  simp only
  rw [hobserved, reportAll_recording]
  exact hmem

/-- A quoted round trip is reported, and it revisits its source. -/
theorem reported_of_quotedRoundTrip (hindexed : searcher.graph.Indexed)
    (hvalid : request.config.validate = .ok ())
    (hroundTrip : searcher.QuotedRoundTrip request heuristic) :
    ∃ quote ∈ (searcher.observedSearch request heuristic
        (recording fun (_ : Unit) _ => ((), true)) .fastLaneOnly ((), [])).1.2,
      ∃ first second : Hop, quote.path = [first, second] ∧
        second.tokenOut = request.tokenIn := by
  obtain ⟨hsame, henabled, hmax, hmin, path, hcandidate, ⟨hops, amountOut⟩, htrace⟩ :=
    hroundTrip
  obtain ⟨connector, hconnector, first, hfirst, second, hsecond, hpools, rfl⟩ := hcandidate
  have hcandidate : searcher.ConnectorCandidate request.tokenIn request.tokenOut
      request.config heuristic (searcher.connectorTokensForHeuristic request.tokenIn
        request.tokenOut request.config heuristic) [first.hop, second.hop] :=
    ⟨connector, hconnector, first, hfirst, second, hsecond, hpools, rfl⟩
  obtain ⟨⟨e, record, _, _, hin, _⟩, hfirstIn, _⟩ :=
    isHop_of_mem_rankedHopsBetween hindexed (List.mem_of_mem_take hfirst)
  obtain ⟨_, _, hout⟩ :=
    isHop_of_mem_rankedHopsBetween hindexed (List.mem_of_mem_take hsecond)
  have hsource : searcher.graph.nodeIndex request.tokenIn = some record.source := by
    rw [hfirstIn] at hin
    exact (hindexed.linked.node_iff _ _).mpr hin
  rw [observedSearch_eq hvalid hsource (hsame ▸ hsource)]
  have hpath : [first.hop, second.hop] ∈ searcher.fastLanePaths request.tokenIn
      request.tokenOut request.config heuristic (searcher.connectorTokensForHeuristic
        request.tokenIn request.tokenOut request.config heuristic) :=
    (mem_fastLanePaths _ _ _ _ _ _).mpr
      ⟨by omega, Or.inr ⟨hmax, hmin, hcandidate⟩⟩
  have hreported := @reported_of_mem_fastLanePaths G _ searcher
    (searcher.requestContext request heuristic record.source record.source) rfl henabled
    _ hpath (by simp) hops amountOut htrace
  refine ⟨⟨[first.hop, second.hop], request.amountIn, amountOut, hops⟩, ?_,
    first.hop, second.hop, rfl, hout.trans hsame.symm⟩
  unfold searchRoutes
  simp only [or_true, if_true]
  exact hreported

/-- Heuristic search is sound exactly when its fast lane has no quoted round
trip. -/
theorem heuristicSound_iff (hbuilt : searcher.graph.Built)
    (hmode : request.config.mode = .heuristic heuristic)
    (hvalid : request.config.validate = .ok ()) :
    searcher.HeuristicSound request heuristic ↔
      ¬ searcher.QuotedRoundTrip request heuristic := by
  constructor
  · intro hsound hroundTrip
    obtain ⟨quote, hquote, first, second, hpath, hout⟩ :=
      reported_of_quotedRoundTrip hbuilt.indexed hvalid hroundTrip
    have hroute := ((hsound.2 Unit (fun _ _ => ((), true)) ()
      .fastLaneOnly).1).isRoute quote hquote
    have htokens := hroute.tokens
    rw [hpath, if_neg (by simp)] at htokens
    simp [hout] at htokens
  · intro hroundTrip
    refine ⟨?_, ?_⟩
    · intro quotes hquotes
      have hreports := (observedSearch_sound hbuilt.indexed hvalid hroundTrip
        (fun (_ : Unit) _ => ((), true)) .full ()).2
      simp only [findRoutes, hmode, findRoutesHeuristicWithCache] at hquotes
      cases hresult : (searcher.observedSearch request heuristic
          (fun (_ : Unit) _ => ((), true)) .full ()).2 with
      | error error =>
          simp only [observedSearch] at hresult
          simp [hresult, Except.map] at hquotes
      | ok report =>
          have hreport := hreports report hresult
          simp only [observedSearch] at hresult
          rw [hresult] at hquotes
          obtain rfl := Except.ok.inj hquotes
          exact hreport
    · intro σ onQuote start runLimit
      obtain ⟨⟨log, hlog, hfaithful⟩, hreports⟩ := observedSearch_sound hbuilt.indexed
        hvalid hroundTrip (recording onQuote) runLimit (start, [])
      refine ⟨?_, hreports⟩
      rw [hlog, reportAll_recording]
      exact hfaithful

end Requests

end AmmSearcher

namespace RoundTripExample

/-- A quoter that returns its input. -/
def adapter : Adapter := ⟨fun _ _ _ amount _ => .ok amount⟩

/-- Two parallel pools between the tokens `1` and `2`. -/
def registry : AdapterRegistry where
  pools := [TwoPoolExample.pool ['a'] 1 2, TwoPoolExample.pool ['b'] 1 2]
  adapter := fun _ => some adapter
  nodup_keys := by decide

/-- Formatters that print nothing. -/
def debug : DebugText := ⟨fun _ => [], fun _ => [], fun _ => [], fun _ => []⟩

def searcher : AmmSearcher (SlotGraph Address EdgeData) where
  registry := registry
  graph := (AmmGraph.fromRegistry 1 registry {}).graph
  liquidityIndex := none
  quoteContext := .static
  debug := debug
  groupOrder := fun _ _ groups => groups
  groupOrder_perm := fun _ _ groups => List.Perm.refl groups

/-- The searcher after its registry has changed. -/
def searcherOver (quoted : AdapterRegistry) : AmmSearcher (SlotGraph Address EdgeData) :=
  { searcher with registry := quoted }

def heuristic : HeuristicSearchConfig :=
  { fastLane := { connectorEdgesPerPair := 2 } }

def request (tokenOut : Address) : RouteRequest where
  tokenIn := 1
  tokenOut := tokenOut
  amountIn := 5
  config := { connectorTokens := some {2}, mode := .heuristic heuristic }
  simConfig := ⟨0, 0, 0⟩

/-- A request between distinct tokens is sound. -/
theorem heuristicSound_one_two :
    (request 2).tokenIn ≠ (request 2).tokenOut ∧
      searcher.HeuristicSound (request 2) heuristic := by
  have hne : (request 2).tokenIn ≠ (request 2).tokenOut := by decide
  refine ⟨hne, ?_⟩
  exact (AmmSearcher.heuristicSound_iff (.fromRegistry 1 registry {}) rfl (by rfl)).mpr
    fun hroundTrip => hne hroundTrip.1

/-- A request from a token to itself returns a round trip. -/
theorem not_heuristicSound_one_one :
    ¬ searcher.HeuristicSound (request 1) heuristic := by
  intro hsound
  have hreturned : ∃ quotes, searcher.findRoutes (request 1) = .ok quotes ∧
      ∃ quote ∈ quotes, quote.path.map Hop.tokenOut = [2, 1] := by
    refine ⟨((searcher.findRoutes (request 1)).toOption).getD [], ?_, ?_⟩
    · decide +kernel
    · decide +kernel
  obtain ⟨quotes, hquotes, quote, hquote, htokens⟩ := hreturned
  have hroute := (hsound.1 quotes hquotes).isRoute quote hquote
  have hnodup := hroute.tokens
  rw [if_neg (by decide), htokens] at hnodup
  exact absurd hnodup (by decide)

end RoundTripExample

end AmmSearch
