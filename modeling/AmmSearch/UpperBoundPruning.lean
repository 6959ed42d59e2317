/-
Upper-bound pruning loses no best amount.  With or without it a search finds the
best amount of its fast lane and of its passes, and when the bound makes a search
miss the deferred edges of a prefix, nothing below that prefix was better.
-/
import AmmSearch.BoundedPasses
import AmmSearch.HeuristicRefinement

open FiniteMap StableGraph BranchAndBound Relation

namespace AmmSearch

namespace AmmSearcher

variable {G : Type} [StableDiGraph G Address EdgeData] {searcher : AmmSearcher G}
  {context : HeuristicContext} {mode : HeuristicPassMode} {state : HeuristicState}
  {amount : U256} {σ : Type} {onQuote : σ → RouteQuote → σ × Bool} {start : σ}

section FastLane

omit [StableDiGraph G Address EdgeData] in
/-- The incumbent after the fast lane is one of its quotes. -/
theorem incumbent_acceptFastLane {config : SearchConfig} (hlimit : config.maxCandidates = none)
    (quotes : List RouteQuote) {run : HeuristicRun σ} {best : U256}
    (hbest : (acceptFastLane config quotes run).incumbentAmount = some best) :
    run.incumbentAmount = some best ∨ ∃ quote ∈ quotes, quote.amountOut = best := by
  induction quotes generalizing run with
  | nil => exact Or.inl hbest
  | cons quote rest ih =>
      rw [acceptFastLane] at hbest
      simp only at hbest
      rw [if_neg (by simp [maxCandidatesReached, hlimit])] at hbest
      rcases ih hbest with hraised | ⟨other, hother, hamount⟩
      · obtain ⟨raised, hsome, _, _, hchoice⟩ :=
          raiseIncumbent_spec run.incumbentAmount quote.amountOut
        obtain rfl := Option.some.inj (hsome.symm.trans hraised)
        rcases hchoice with rfl | hold
        · exact Or.inr ⟨quote, List.mem_cons_self, rfl⟩
        · exact Or.inl hold
      · exact Or.inr ⟨other, List.mem_cons_of_mem quote hother, hamount⟩

/-- The fast lane leaves traced quotes, and its incumbent is one of them. -/
theorem traced_runFastLane (hlimit : context.config.maxCandidates = none) :
    searcher.TracedQuotes context
        (searcher.runFastLane context onQuote { observed := start }).quotes ∧
      ∀ best, (searcher.runFastLane context onQuote
        { observed := start }).incumbentAmount = some best →
        Found (searcher.runFastLane context onQuote { observed := start }) best := by
  unfold runFastLane
  split
  · simp only
    split
    · exact ⟨⟨List.nodup_nil, by simp⟩, by simp⟩
    · obtain ⟨_, hnodup, hquoted, _⟩ := quotePathsWithRegistryObserved_spec
        (searcher.quoteEnv context.simConfig) searcher.quoteContext context.amountIn
        onQuote (@nodup_fastLanePaths G _ searcher context.tokenIn context.tokenOut
          context.config context.heuristic context.connectorTokens) start
      have hquotes := fun run : HeuristicRun σ => @acceptFastLane_unlimited σ
        context.config hlimit (quotePathsWithRegistryObserved
          ⟨onQuote, fun observed _ => (observed, true)⟩ (searcher.quoteEnv context.simConfig)
          searcher.quoteContext context.amountIn (searcher.fastLanePaths context.tokenIn
            context.tokenOut context.config context.heuristic context.connectorTokens)
          start).quotes run
      have hsame : ∀ run : HeuristicRun σ, run.quotes = [] →
          (acceptFastLane context.config _ run).quotes = _ := fun run hempty => by
        obtain ⟨incumbent, haccept⟩ := hquotes run
        rw [haccept, hempty, List.nil_append]
      constructor
      · rw [hsame _ rfl]
        refine ⟨hnodup, fun quote hquote => ?_⟩
        obtain ⟨_, hnonempty, hamount, htrace⟩ := hquoted quote hquote
        exact ⟨hnonempty, hamount, htrace⟩
      · intro best hbest
        unfold Found
        rw [hsame _ rfl]
        rcases incumbent_acceptFastLane hlimit _ hbest with hnone | hfound
        · cases hnone
        · exact hfound
  · exact ⟨⟨List.nodup_nil, by simp⟩, by simp⟩

end FastLane

section FinalRun

/-- An amount of the fast lane, or of a pass that leaves nothing out. -/
inductive Obtainable (searcher : AmmSearcher G) (context : HeuristicContext) (amount : U256) :
    Prop
  | fastLane {path : RoutePath} {hopQuotes : List HopQuote}
      (hpath : searcher.FastLanePath context path)
      (htrace : searcher.trace context path = .ok (hopQuotes, amount))
  | pass {mode : HeuristicPassMode} (hmode : mode ∈ heuristicPassModes context.heuristic)
      (hbelow : (searcher.passTree context mode).Below context.rootState amount)

theorem initial_mem_heuristicPassModes (heuristic : HeuristicSearchConfig) :
    .initial ∈ heuristicPassModes heuristic := by
  unfold heuristicPassModes
  split
  · simp
  · simp

omit [StableDiGraph G Address EdgeData] in
/-- A group that the initial pass does not defer is kept in full by both passes. -/
theorem keptQuotes_refinement {group : HeuristicHopGroup}
    (hmodes : .refinement ∈ heuristicPassModes context.heuristic)
    (hdefers : ¬ Defers context .initial group) :
    searcher.keptQuotes context .refinement state group =
      searcher.keptQuotes context .initial state group := by
  obtain ⟨henabled, hmore⟩ : context.heuristic.edgeShortlist.enabled = true ∧
      HeuristicPassMode.initial.edgeLimit context.heuristic <
        HeuristicPassMode.refinement.edgeLimit context.heuristic := by
    unfold heuristicPassModes at hmodes
    split at hmodes
    · rename_i hpasses
      simp only [Bool.and_eq_true, decide_eq_true_eq] at hpasses
      refine ⟨hpasses.1.1, ?_⟩
      unfold HeuristicPassMode.edgeLimit
      rw [if_pos hpasses.1.1, if_pos hpasses.1.1]
      exact hpasses.2
    · simp at hmodes
  have hfits : group.hops.length ≤ HeuristicPassMode.initial.edgeLimit context.heuristic :=
    Nat.not_lt.mp fun hmany => hdefers ⟨rfl, hmodes, henabled, hmany⟩
  have hlength := (searcher.perm_liquidityRankedHops group.hops
    context.heuristic.edgeShortlist context.config.liquidityPruning).length_eq
  rw [List.length_map] at hlength
  have hlisted : ∀ mode : HeuristicPassMode,
      group.hops.length ≤ mode.edgeLimit context.heuristic →
      shortlistedRankedHops context mode (searcher.liquidityRankedHops group.hops
        context.heuristic.edgeShortlist context.config.liquidityPruning) =
      searcher.liquidityRankedHops group.hops
        context.heuristic.edgeShortlist context.config.liquidityPruning := by
    intro mode hmode
    unfold shortlistedRankedHops
    split
    · rfl
    · exact List.take_of_length_le (hlength.le.trans hmode)
  have hquoted := @length_quoted_foldl_le G searcher context state group.closesTarget
    (searcher.liquidityRankedHops group.hops context.heuristic.edgeShortlist
      context.config.liquidityPruning) {}
  rw [List.length_nil, Nat.zero_add, hlength] at hquoted
  unfold keptQuotes retainQuoted retainLimit
  rw [hlisted .refinement (hfits.trans hmore.le), hlisted .initial hfits, if_pos henabled,
    if_pos henabled, List.take_of_length_le, List.take_of_length_le]
  · rw [List.length_insertionSort]
    exact hquoted.trans hfits
  · rw [List.length_insertionSort]
    exact hquoted.trans (hfits.trans hmore.le)

/-- Where the initial pass defers nothing it keeps what the refinement pass keeps. -/
theorem Retains.initial {quoted : QuotedHeuristicHop}
    (hmodes : .refinement ∈ heuristicPassModes context.heuristic)
    (hdefers : ¬ searcher.DefersAt context .initial state)
    (hretains : searcher.Retains context .refinement state quoted) :
    searcher.Retains context .initial state quoted := by
  obtain ⟨group, hgroup, hquoted⟩ := hretains
  have hinitial : group ∈ searcher.groupHeuristicHops context .initial state :=
    (mem_groupHeuristicHops .initial state group).mpr
      ((mem_groupHeuristicHops .refinement state group).mp hgroup)
  refine ⟨group, hinitial, ?_⟩
  rwa [← keptQuotes_refinement hmodes fun hdefer => hdefers ⟨group, hinitial, hdefer⟩]

/-- What a search that only the upper bound cuts has found when it ends. -/
structure BoundedSearch (searcher : AmmSearcher G) (context : HeuristicContext)
    (run : HeuristicRun σ) : Prop where
  stopped : run.stopped = false
  traced : searcher.TracedQuotes context run.quotes
  obtainable : ∀ amount, Found run amount → searcher.Obtainable context amount
  matched : ∀ amount, searcher.Obtainable context amount → Tree.Matched (Found run) amount

section Passes

variable {lane first last : HeuristicRun σ} {reached reached' : HeuristicState → Prop}

/-- A quote of a pass is from before or below the root. -/
theorem BoundedPass.found_cases
    (hpass : searcher.BoundedPass context onQuote mode [context.rootState] (beginPass lane)
      last reached)
    (hfound : Found last amount) :
    Found lane amount ∨ (searcher.passTree context mode).Below context.rootState amount := by
  obtain ⟨quote, hquote, rfl⟩ := hfound
  rcases hpass.origin quote hquote with hold | ⟨state, hstate, hvalue⟩
  · exact Or.inl ⟨quote, hold, rfl⟩
  · obtain ⟨root, hroot, hpath⟩ := hpass.grown state hstate
    obtain rfl := List.mem_singleton.mp hroot
    exact Or.inr ⟨state, hpath, hvalue⟩

/-- The quotes of the fast lane are the fast-lane part of what is obtainable. -/
theorem FastLaneRun.found_iff (hlane : searcher.FastLaneRun context onQuote start lane)
    (htraced : searcher.TracedQuotes context lane.quotes) :
    Found lane amount ↔ ∃ path hopQuotes, searcher.FastLanePath context path ∧
      searcher.trace context path = .ok (hopQuotes, amount) := by
  constructor
  · rintro ⟨quote, hquote, rfl⟩
    exact ⟨quote.path, quote.hops, (hlane.evaluated _).mp (hlane.origin quote hquote),
      (htraced.traced quote hquote).trace⟩
  · rintro ⟨path, hopQuotes, hpath, htrace⟩
    obtain ⟨quote, hquote, rfl⟩ := hlane.quoted path ((hlane.evaluated path).mpr hpath) _ htrace
    have hsame := (htraced.traced quote hquote).trace
    rw [htrace, Except.ok.injEq, Prod.mk.injEq] at hsame
    exact ⟨quote, hquote, hsame.2.symm⟩

variable (hresolved : context.Resolved searcher.graph)
  (hbalances : searcher.BalancesBound context.simConfig context.tokenOut)
  (hroom : 0 < context.config.maxHops)
  (hlane : ∀ amount, Found lane amount ↔ ∃ path hopQuotes, searcher.FastLanePath context path ∧
    searcher.trace context path = .ok (hopQuotes, amount))
  (hfirst : searcher.BoundedPass context onQuote .initial [context.rootState] (beginPass lane)
    first reached)

include hresolved hbalances hroom hlane hfirst

/-- A search of one pass: what it deferred to a refinement pass was nothing. -/
theorem boundedSearch_initial (htraced : searcher.TracedQuotes context first.quotes)
    (hskip : .refinement ∈ heuristicPassModes context.heuristic →
      first.deferredEdgesSeen = false) :
    searcher.BoundedSearch context first where
  stopped := hfirst.stopped
  traced := htraced
  obtainable := by
    intro amount hfound
    rcases hfirst.found_cases hfound with hfound | hbelow
    · obtain ⟨path, hopQuotes, hpath, htrace⟩ := (hlane amount).mp hfound
      exact .fastLane hpath htrace
    · exact .pass (initial_mem_heuristicPassModes context.heuristic) hbelow
  matched := by
    rintro amount (⟨hpath, htrace⟩ | ⟨hmode, hbelow⟩)
    · exact ⟨amount, hfirst.keeps.found ((hlane amount).mpr ⟨_, _, hpath, htrace⟩), le_rfl⟩
    · rename_i mode
      refine hfirst.settled hresolved hbalances hroom ?_ amount hbelow
      intro state quoted hdeferred hretains
      cases mode with
      | initial => exact hretains
      | refinement =>
          refine hretains.initial hmode fun hdefers => ?_
          exact Bool.false_ne_true ((hskip hmode).symm.trans (hdeferred hdefers))

theorem boundedSearch_refinement (htraced : searcher.TracedQuotes context last.quotes)
    (hmodes : .refinement ∈ heuristicPassModes context.heuristic)
    (hlast : searcher.BoundedPass context onQuote .refinement [context.rootState]
      (beginPass first) last reached') :
    searcher.BoundedSearch context last where
  stopped := hlast.stopped
  traced := htraced
  obtainable := by
    intro amount hfound
    rcases hlast.found_cases hfound with hfound | hbelow
    · rcases hfirst.found_cases hfound with hfound | hbelow
      · obtain ⟨path, hopQuotes, hpath, htrace⟩ := (hlane amount).mp hfound
        exact .fastLane hpath htrace
      · exact .pass (initial_mem_heuristicPassModes context.heuristic) hbelow
    · exact .pass hmodes hbelow
  matched := by
    have hkeeps : ∀ amount, Found first amount → Found last amount := fun _ hfound =>
      hlast.keeps.found hfound
    rintro amount (⟨hpath, htrace⟩ | ⟨hmode, hbelow⟩)
    · have hfound := (hlane amount).mpr ⟨_, _, hpath, htrace⟩
      exact ⟨amount, hkeeps amount (hfirst.keeps.found hfound), le_rfl⟩
    · rename_i mode
      cases mode with
      | initial =>
          exact (hfirst.settled hresolved hbalances hroom (fun _ _ _ hretains => hretains) amount
            hbelow).mono hkeeps
      | refinement =>
          exact hlast.settled hresolved hbalances hroom (fun _ _ _ hretains => hretains) amount
            hbelow

end Passes

/-- A search that only the bound cuts finds the best obtainable amount. -/
theorem boundedSearch_finalRun (hresolved : context.Resolved searcher.graph)
    (honly : OnlyBounded context) (hroom : 0 < context.config.maxHops)
    (hquiet : ∀ observed quote, (onQuote observed quote).2 = true)
    (hbalances : searcher.BalancesBound context.simConfig context.tokenOut) :
    searcher.BoundedSearch context (searcher.finalRun context onQuote start) := by
  have hlane := @fastLaneRun_runFastLane G _ searcher context σ onQuote honly.candidates
    hquiet start
  obtain ⟨htraced, hincumbent⟩ := @traced_runFastLane G _ searcher context σ onQuote start
    honly.candidates
  have hpasses := (@passInvariant_tracedQuotes G searcher context σ onQuote).runPasses
    (heuristicPassModes context.heuristic) ⟨htraced, hlane.origin⟩ hlane.stopped
  have hfound := fun amount => @FastLaneRun.found_iff G _ searcher context amount σ onQuote
    start _ hlane htraced
  obtain ⟨reached, hfirst⟩ := @boundedPass_runPass G _ searcher context .initial σ onQuote _
    honly hroom hquiet
    ⟨hlane.quoted, fun quote hquote => (htraced.traced quote hquote).trace, hincumbent⟩
    hlane.stopped
  rcases runPasses_cases hfirst.stopped with ⟨hlast, hskip⟩ | ⟨hmodes, hlast⟩
  · unfold finalRun
    rw [hlast] at hpasses ⊢
    exact boundedSearch_initial hresolved hbalances hroom hfound hfirst hpasses.1 hskip
  · obtain ⟨reached', hsecond⟩ := @boundedPass_runPass G _ searcher context .refinement σ onQuote
      _ honly hroom hquiet hfirst.toAccounted hfirst.stopped
    unfold finalRun
    rw [hlast] at hpasses ⊢
    exact boundedSearch_refinement hresolved hbalances hroom hfound hfirst hpasses.1 hmodes
      hsecond

/-- The best quote is the best obtainable amount. -/
theorem BoundedSearch.bestOf_eq_some {run : HeuristicRun σ}
    (hsearch : searcher.BoundedSearch context run) :
    bestOf run.quotes = some amount ↔
      IsGreatest {amount | searcher.Obtainable context amount} amount := by
  rw [← Tree.isGreatest_iff hsearch.matched hsearch.obtainable, AmmSearch.bestOf_eq_some]
  constructor
  · rintro ⟨hmem, hmost⟩
    refine ⟨hmem, ?_⟩
    rintro other ⟨quote, hquote, rfl⟩
    exact hmost quote hquote
  · rintro ⟨hmem, hmost⟩
    exact ⟨hmem, fun quote hquote => hmost ⟨quote, hquote, rfl⟩⟩

end FinalRun

end AmmSearcher

/-- Two searches over the same routes; they may rank, quote and cut differently. -/
structure HeuristicContext.SameRoutes (context other : HeuristicContext) : Prop where
  source : context.source = other.source
  target : context.target = other.target
  tokenIn : context.tokenIn = other.tokenIn
  tokenOut : context.tokenOut = other.tokenOut
  maxHops : context.config.maxHops = other.config.maxHops
  revisit : context.allowFinalSourceRevisit = other.allowFinalSourceRevisit
  connectors : context.connectorTokens = other.connectorTokens

/-- The search with other bounds. -/
def HeuristicContext.withBounds (context : HeuristicContext) (bounds : UpperBoundPruningConfig)
    (searchMode : SearchMode) : HeuristicContext :=
  { context with
    config := { context.config with mode := searchMode }
    heuristic := { context.heuristic with upperBoundPruning := bounds } }

/-- The request in heuristic mode with upper-bound pruning switched on or off. -/
def RouteRequest.withUpperBound (request : RouteRequest) (heuristic : HeuristicSearchConfig)
    (enabled : Bool) : RouteRequest :=
  { request with
    config :=
      { request.config with
        mode := .heuristic
          { heuristic with
            upperBoundPruning := { heuristic.upperBoundPruning with enabled := enabled } } } }

namespace AmmSearcher

variable {G : Type} {searcher : AmmSearcher G} {context : HeuristicContext}
  {mode : HeuristicPassMode} {state : HeuristicState} {amount : U256}

section SameRoutes

variable {other : HeuristicContext} (hsame : context.SameRoutes other)

include hsame

theorem admits_congr : context.admits = other.admits := by
  obtain ⟨hsource, htarget, htokenIn, htokenOut, -, hrevisit, hconnectors⟩ := hsame
  cases context
  cases other
  simp only at hsource htarget htokenIn htokenOut hrevisit hconnectors
  subst hsource htarget htokenIn htokenOut hrevisit hconnectors
  rfl

theorem staticScan_congr (remainingHops : ℕ)
    (recurse : NodeIndex → StaticSets → Bool × StaticSets) (edges : List CachedOutgoingEdge)
    (sets : StaticSets) :
    staticScan context remainingHops recurse edges sets =
      staticScan other remainingHops recurse edges sets := by
  induction edges generalizing sets with
  | nil => rfl
  | cons edge rest ih =>
      rw [staticScan, staticScan]
      simp only [ih, admits_congr hsame, hsame.target]

theorem hasStaticRouteToTargetDfs_congr (remaining : ℕ) :
    searcher.hasStaticRouteToTargetDfs context remaining =
      searcher.hasStaticRouteToTargetDfs other remaining := by
  induction remaining with
  | zero =>
      funext node sets
      exact staticScan_congr hsame _ _ _ _
  | succ remaining ih =>
      funext node sets
      rw [hasStaticRouteToTargetDfs, hasStaticRouteToTargetDfs, ih]
      exact staticScan_congr hsame _ _ _ _

/-- Searches over the same routes offer the same hops. -/
theorem admissibleHop_congr :
    searcher.admissibleHop context state = searcher.admissibleHop other state := by
  funext edge
  unfold admissibleHop hasStaticRouteToTarget
  simp only [hasStaticRouteToTargetDfs_congr hsame, admits_congr hsame, hsame.target,
    hsame.maxHops]

end SameRoutes

section Bounds

variable {bounds : UpperBoundPruningConfig} {searchMode : SearchMode}

theorem sameRoutes_withBounds :
    (context.withBounds bounds searchMode).SameRoutes context :=
  ⟨rfl, rfl, rfl, rfl, rfl, rfl, rfl⟩

variable [StableDiGraph G Address EdgeData]

theorem groupHeuristicHops_withBounds :
    searcher.groupHeuristicHops (context.withBounds bounds searchMode) mode state =
      searcher.groupHeuristicHops context mode state := by
  unfold groupHeuristicHops
  rw [admissibleHop_congr sameRoutes_withBounds]
  rfl

/-- The bound has no part in the tree of a pass. -/
theorem passTree_withBounds :
    searcher.passTree (context.withBounds bounds searchMode) mode =
      searcher.passTree context mode := by
  unfold passTree Retains
  simp only [groupHeuristicHops_withBounds]
  rfl

theorem obtainable_withBounds :
    searcher.Obtainable (context.withBounds bounds searchMode) amount ↔
      searcher.Obtainable context amount := by
  constructor
  · rintro (⟨hpath, htrace⟩ | ⟨hmode, hbelow⟩)
    · exact .fastLane hpath htrace
    · rw [passTree_withBounds] at hbelow
      exact .pass hmode hbelow
  · rintro (⟨hpath, htrace⟩ | ⟨hmode, hbelow⟩)
    · exact .fastLane hpath htrace
    · rw [← @passTree_withBounds G searcher context _ bounds searchMode] at hbelow
      exact .pass hmode hbelow

end Bounds

section Requests

variable [StableDiGraph G Address EdgeData] {request : RouteRequest}
  {heuristic : HeuristicSearchConfig} {source target : NodeIndex}

/-- A search of complete levels returns the best obtainable amount. -/
theorem bestAmountOut_eq_some_iff (hindexed : searcher.graph.Indexed)
    (hmode : request.config.mode = .heuristic heuristic)
    (hvalid : request.config.validate = .ok ())
    (hcandidates : request.config.maxCandidates = none) (hbeam : heuristic.beamWidth = none)
    (hdominance : heuristic.prefixDominance = false)
    (hbalances : searcher.BalancesBound request.simConfig request.tokenOut)
    (hsource : searcher.graph.nodeIndex request.tokenIn = some source)
    (htarget : searcher.graph.nodeIndex request.tokenOut = some target) :
    bestAmountOut (searcher.findRoutes request) = some amount ↔
      IsGreatest {amount | searcher.Obtainable
        (searcher.requestContext request heuristic source target) amount} amount := by
  obtain ⟨hmin, hmax⟩ := SearchConfig.hops_of_validate hvalid
  have hsearch := @boundedSearch_finalRun G _ searcher
    (searcher.requestContext request heuristic source target) Unit (fun _ _ => ((), true)) ()
    ⟨hindexed, hsource, htarget⟩ ⟨hcandidates, hbeam, hdominance⟩
    (lt_of_lt_of_le hmin hmax) (fun _ _ => rfl) hbalances
  have hreturns := returns_findRoutes hmode hvalid hsource htarget hcandidates hsearch.stopped
    hsearch.traced
  rw [hreturns.best]
  exact hsearch.bestOf_eq_some

theorem findRoutes_of_invalid (hmode : request.config.mode = .heuristic heuristic)
    {error : SearchError} (hvalid : request.config.validate = .error error) :
    searcher.findRoutes request = .error error := by
  simp only [findRoutes, hmode, findRoutesHeuristicWithCache,
    findRoutesHeuristicWithCacheObserved, hvalid]
  rfl

/-- A search between tokens that are not both in the graph returns nothing. -/
theorem bestAmountOut_of_missing (hmode : request.config.mode = .heuristic heuristic)
    (hvalid : request.config.validate = .ok ())
    (hmissing : searcher.graph.nodeIndex request.tokenIn = none ∨
      searcher.graph.nodeIndex request.tokenOut = none) :
    bestAmountOut (searcher.findRoutes request) = none := by
  cases hresult : searcher.findRoutes request with
  | error error => rfl
  | ok quotes =>
      obtain ⟨⟨source, hsource⟩, target, htarget⟩ :=
        exists_nodes_of_findRoutes hmode hvalid hresult
      rcases hmissing with hnone | hnone
      · cases hsource.symm.trans hnone
      · cases htarget.symm.trans hnone

/-- Two requests between the same tokens that are valid together have the same best amount
when they have it wherever both tokens are in the graph. -/
theorem bestAmountOut_congr {other : RouteRequest} {heuristic' : HeuristicSearchConfig}
    (hmode : request.config.mode = .heuristic heuristic)
    (hmode' : other.config.mode = .heuristic heuristic')
    (hsame : request.config.validate = other.config.validate)
    (hin : request.tokenIn = other.tokenIn) (hout : request.tokenOut = other.tokenOut)
    (hbest : request.config.validate = .ok () → ∀ source target,
      searcher.graph.nodeIndex request.tokenIn = some source →
      searcher.graph.nodeIndex request.tokenOut = some target →
      ∀ amount, bestAmountOut (searcher.findRoutes request) = some amount ↔
        bestAmountOut (searcher.findRoutes other) = some amount) :
    bestAmountOut (searcher.findRoutes request) = bestAmountOut (searcher.findRoutes other) := by
  cases hvalid : request.config.validate with
  | error error =>
      rw [findRoutes_of_invalid hmode hvalid, findRoutes_of_invalid hmode' (hsame ▸ hvalid)]
  | ok _ =>
      have hvalid' : other.config.validate = .ok () := hsame ▸ hvalid
      cases hsource : searcher.graph.nodeIndex request.tokenIn with
      | none =>
          rw [bestAmountOut_of_missing hmode hvalid (Or.inl hsource),
            bestAmountOut_of_missing hmode' hvalid' (Or.inl (hin ▸ hsource))]
      | some source =>
          cases htarget : searcher.graph.nodeIndex request.tokenOut with
          | none =>
              rw [bestAmountOut_of_missing hmode hvalid (Or.inr htarget),
                bestAmountOut_of_missing hmode' hvalid' (Or.inr (hout ▸ htarget))]
          | some target => exact Option.ext (hbest hvalid source target hsource htarget)

/-- Upper-bound pruning is lossless: where a fresh balance bounds what its pool pays out, the
best amount does not depend on the switch. -/
theorem upperBound_lossless (hbuilt : searcher.graph.Built)
    (hcandidates : request.config.maxCandidates = none) (hbeam : heuristic.beamWidth = none)
    (hdominance : heuristic.prefixDominance = false)
    (hbalances : searcher.BalancesBound request.simConfig request.tokenOut) :
    bestAmountOut (searcher.findRoutes (request.withUpperBound heuristic true)) =
      bestAmountOut (searcher.findRoutes (request.withUpperBound heuristic false)) := by
  -- validation does not look at the switch
  refine bestAmountOut_congr rfl rfl rfl rfl rfl fun hvalid source target hsource htarget => ?_
  have hbest : ∀ enabled amount, bestAmountOut (searcher.findRoutes
      (request.withUpperBound heuristic enabled)) = some amount ↔
    IsGreatest {amount | searcher.Obtainable
      (searcher.requestContext request heuristic source target) amount} amount := by
    intro enabled amount
    have hvalid : (request.withUpperBound heuristic enabled).config.validate = .ok () := hvalid
    have hmode : (request.withUpperBound heuristic enabled).config.mode =
        .heuristic { heuristic with
          upperBoundPruning := { heuristic.upperBoundPruning with enabled := enabled } } := rfl
    rw [bestAmountOut_eq_some_iff hbuilt.indexed hmode hvalid hcandidates hbeam hdominance
      hbalances hsource htarget]
    simp only [← @obtainable_withBounds G searcher
      (searcher.requestContext request heuristic source target) _
      { heuristic.upperBoundPruning with enabled := enabled }
      (request.withUpperBound heuristic enabled).config.mode]
    rfl
  exact fun amount => (hbest true amount).trans (hbest false amount).symm

end Requests

end AmmSearcher

namespace BoundedExample

open CappedExample

/-- A detour over `2` that pays out less than the direct way from `1` to `3`. -/
def registry : AdapterRegistry :=
  CappedExample.registry (fun pool _ _ => if pool.debug = ['b'] then 60 else 80)
    [TwoPoolExample.pool ['a'] 1 2, TwoPoolExample.pool ['b'] 2 3,
      TwoPoolExample.pool ['c'] 1 3] (by decide)

/-- The balance of `3` in the last pool of the detour. -/
def index : PoolLiquidityIndex :=
  { PoolLiquidityIndex.empty with
    targets := [⟨3, .unknown, .fresh 60, true⟩]
    byPoolToken := (∅ : Map (PoolKey × Address) ℕ).insert
      ((TwoPoolExample.pool ['b'] 2 3).key, 3) 0 }

def searcher : AmmSearcher (SlotGraph Address EdgeData) :=
  { CappedExample.searcher registry with liquidityIndex := some index }

def heuristic : HeuristicSearchConfig :=
  { CappedExample.heuristic with
    prefixDominance := false
    fastLane := { enabled := false }
    upperBoundPruning := { enabled := true } }

def request : RouteRequest :=
  CappedExample.request 3 {2} 1 2

theorem balancesBound : searcher.BalancesBound request.simConfig 3 := by
  intro tracked hindex pool balance hfresh hop hpool _ amountIn amountOut hquote
  obtain rfl := Option.some.inj hindex
  have hknown : pool = (TwoPoolExample.pool ['b'] 2 3).key ∧ balance = 60 := by
    unfold PoolLiquidityIndex.balanceState index at hfresh
    rw [FiniteMap.lookup_insert_eq] at hfresh
    split at hfresh
    · rename_i hsame
      exact ⟨(Prod.mk.inj hsame).1, (Option.some.inj hfresh).symm⟩
    · cases hfresh
  obtain ⟨rfl, rfl⟩ := hknown
  simp only [AmmSearcher.quoteEnv, searcher, CappedExample.searcher, QuoteEnv.quoteHop,
    QuoteEnv.quoteKey, QuoteKeyContext.poolScope, QuoteEnv.quoteHopUncached,
    QuoteEnv.simulateHop, hpool] at hquote
  have hlookup : registry.pool (TwoPoolExample.pool ['b'] 2 3).key =
      some (TwoPoolExample.pool ['b'] 2 3) := by rfl
  rw [hlookup] at hquote
  obtain rfl := Except.ok.inj hquote
  exact min_le_right _ _

/-- The bound keeps the search from quoting the detour; the best amount is the same. -/
theorem upperBound_lossless_detour :
    searcher.graph.Built ∧ searcher.BalancesBound request.simConfig request.tokenOut ∧
      bestAmountOut (searcher.findRoutes (request.withUpperBound heuristic true)) =
        bestAmountOut (searcher.findRoutes (request.withUpperBound heuristic false)) ∧
      bestAmountOut (searcher.findRoutes (request.withUpperBound heuristic true)) = some 80 ∧
      (searcher.evaluatedQuotes (request.withUpperBound heuristic true)
        heuristic).length < (searcher.evaluatedQuotes
          (request.withUpperBound heuristic false)
          { heuristic with
            upperBoundPruning :=
              { heuristic.upperBoundPruning with enabled := false } }).length :=
  ⟨.fromRegistry 1 registry {}, balancesBound,
    AmmSearcher.upperBound_lossless (.fromRegistry 1 registry {}) rfl rfl rfl balancesBound,
    by decide +kernel, by decide +kernel⟩

end BoundedExample

end AmmSearch
