/-
What the refinement pass adds.  The second pass starts from the labels of the
first, so a prefix that the first pass already reached is not expanded again
and its deferred edges are never quoted.
-/
import AmmSearch.HeuristicDominance

open FiniteMap StableGraph

namespace AmmSearch

namespace AmmSearcher

variable {G : Type} [StableDiGraph G Address EdgeData] (searcher : AmmSearcher G)

/-- The hop is among the first `limit` ranked edges between its two tokens. -/
def Shortlisted (config : SearchConfig) (heuristic : HeuristicSearchConfig)
    (limit : ℕ) (hop : Hop) : Prop :=
  hop ∈ ((searcher.rankedHopsBetween hop.tokenIn hop.tokenOut heuristic.edgeShortlist
    config.liquidityPruning).take limit).map LiquidityRankedHop.hop

variable {searcher} {context : HeuristicContext} {mode : HeuristicPassMode}
  {path : RoutePath} {hop : Hop} {amount : U256}

section Groups

variable (htwo : searcher.graph.TwoToken) (hresolved : context.Resolved searcher.graph)
  (hne : context.tokenIn ≠ context.tokenOut)

include htwo hresolved hne

/-- Parallel edges are offered together. -/
theorem Offers.parallel {other : Hop} (hopen : context.IsOpen searcher.graph path)
    (hoffers : searcher.Offers context path hop) (hother : searcher.graph.IsHop other)
    (hin : other.tokenIn = hop.tokenIn) (hout : other.tokenOut = hop.tokenOut) :
    searcher.Offers context path other := by
  rcases hoffers with ⟨hcontinues, htarget, hmode⟩ | ⟨hextends, hcompletes⟩
  · refine Or.inl ⟨⟨hother, hin.trans hcontinues.start, ?_⟩, hout.trans htarget, hmode⟩
    apply hopen.pool_fresh htwo hresolved.indexed hother
    rw [hout, htarget, List.mem_cons, not_or]
    refine ⟨hne.symm, fun hmem => ?_⟩
    obtain ⟨last, hlast, heq⟩ := List.mem_map.mp hmem
    exact (hopen.intermediates last hlast).1 heq
  · have hnext : context.Extends searcher.graph path other := by
      obtain ⟨hcontinues, hnew, htarget, hallowed⟩ := hextends
      rw [← hout] at hnew htarget hallowed
      exact ⟨⟨hother, hin.trans hcontinues.start,
        hopen.pool_fresh htwo hresolved.indexed hother hnew⟩, hnew, htarget, hallowed⟩
    have hreplaces : context.Replaces searcher.graph (path ++ [other]) (path ++ [hop]) := by
      refine ⟨HeuristicContext.isOpen_append_singleton.mpr ⟨hopen, hnext⟩,
        HeuristicContext.isOpen_append_singleton.mpr ⟨hopen, hextends⟩, by simp [hout], ?_⟩
      rw [visitedOf_append_singleton, visitedOf_append_singleton, hout]
    exact Or.inr ⟨hnext, hreplaces.completes htwo hresolved.indexed hne hcompletes⟩

/-- An offered group holds all edges between its two tokens. -/
theorem filter_offeredHops {state : HeuristicState}
    (hstate : searcher.Sound context state)
    (hoffers : searcher.Offers context state.path hop) :
    (searcher.offeredHops context state).filter
        (fun other => other.tokenOut = hop.tokenOut) =
      ((searcher.graph.outgoingEdges state.node).filter
        fun edge => edge.tokenOut = hop.tokenOut).map AmmGraph.edgeHop := by
  have hstart : hop.tokenIn = endToken context.tokenIn state.path := by
    rcases hoffers with hcloses | ⟨hextends, _⟩
    · exact hcloses.1.start
    · exact hextends.1.start
  have hadmissible : ∀ edge ∈ searcher.graph.outgoingEdges state.node,
      edge.tokenOut = hop.tokenOut →
      searcher.admissibleHop context state edge = some (AmmGraph.edgeHop edge) := by
    intro edge hedge hout
    obtain ⟨hin, htarget, hhop⟩ :=
      (hresolved.indexed.mem_outgoingEdges hstate.node edge).mp hedge
    have hisHop : searcher.graph.IsHop (AmmGraph.edgeHop edge) := by
      simpa only [AmmGraph.edgeHop, hin] using hhop
    have hoffered := (mem_offeredHops hresolved hstate _).mpr
      (hoffers.parallel htwo hresolved hne hstate.isOpen hisHop (hin.trans hstart.symm) hout)
    obtain ⟨other, hother, hsame⟩ := List.mem_filterMap.mp hoffered
    have hhops := (admissibleHop_of_edge hsame).1
    obtain ⟨hin', htarget', _⟩ :=
      (hresolved.indexed.mem_outgoingEdges hstate.node other).mp hother
    obtain ⟨target, tokenIn, tokenOut, pool⟩ := edge
    obtain ⟨target', tokenIn', tokenOut', pool'⟩ := other
    simp only [AmmGraph.edgeHop, Hop.mk.injEq] at hhops
    obtain ⟨rfl, rfl, rfl⟩ := hhops
    obtain rfl := Option.some.inj (htarget.symm.trans htarget')
    exact hsame
  unfold offeredHops
  generalize searcher.graph.outgoingEdges state.node = edges at hadmissible
  induction edges with
  | nil => rfl
  | cons edge rest ih =>
      have hrest := ih fun other hother =>
        hadmissible other (List.mem_cons_of_mem edge hother)
      by_cases hout : edge.tokenOut = hop.tokenOut
      · have hkeep : (AmmGraph.edgeHop edge).tokenOut = hop.tokenOut := hout
        rw [List.filterMap_cons_some (hadmissible edge List.mem_cons_self hout),
          List.filter_cons, if_pos (decide_eq_true hkeep),
          List.filter_cons_of_pos (by simpa using hout), List.map_cons, hrest]
      · rw [List.filter_cons_of_neg (by simpa using hout), ← hrest]
        cases hedge : searcher.admissibleHop context state edge with
        | none => rw [List.filterMap_cons_none hedge]
        | some other =>
            obtain rfl := (admissibleHop_of_edge hedge).1
            have hdrop : ¬ (AmmGraph.edgeHop edge).tokenOut = hop.tokenOut := hout
            rw [List.filterMap_cons_some hedge, List.filter_cons,
              if_neg (by rwa [decide_eq_true_iff])]

/-- The ranking of an offered group does not depend on the prefix. -/
theorem rankedHopsBetween_eq {state : HeuristicState}
    (hstate : searcher.Sound context state)
    (hoffers : searcher.Offers context state.path hop) :
    searcher.rankedHopsBetween hop.tokenIn hop.tokenOut context.heuristic.edgeShortlist
        context.config.liquidityPruning =
      searcher.liquidityRankedHops ((searcher.offeredHops context state).filter
        fun other => other.tokenOut = hop.tokenOut) context.heuristic.edgeShortlist
          context.config.liquidityPruning := by
  have hnode : searcher.graph.nodeIndex hop.tokenIn = some state.node := by
    rcases hoffers with hcloses | ⟨hextends, _⟩
    · rw [hcloses.1.start]
      exact hstate.node
    · rw [hextends.1.start]
      exact hstate.node
  rw [filter_offeredHops htwo hresolved hne hstate hoffers]
  unfold rankedHopsBetween
  rw [hnode]
  rfl

/-- A pass quotes an offered hop exactly when its limit shortlists it. -/
theorem considers_iff (hshort : context.heuristic.edgeShortlist.enabled = true)
    (hlimit : 1 ≤ mode.edgeLimit context.heuristic) {state : HeuristicState}
    (hstate : searcher.Sound context state) :
    searcher.Considers context mode state hop ↔
      searcher.Offers context state.path hop ∧
        searcher.Shortlisted context.config context.heuristic
          (mode.edgeLimit context.heuristic) hop := by
  have htake : ∀ ranked : List LiquidityRankedHop,
      shortlistedRankedHops context mode ranked =
        ranked.take (mode.edgeLimit context.heuristic) := by
    intro ranked
    unfold shortlistedRankedHops
    split
    · rename_i hsmall
      rcases hsmall with hoff | hsmall
      · exact absurd (hoff.symm.trans hshort) Bool.false_ne_true
      · exact (List.take_of_length_le (hsmall.trans hlimit)).symm
    · rfl
  unfold Considers consideredHops Shortlisted
  constructor
  · rintro ⟨group, hgroup, hhop⟩
    have hoffered : hop ∈ searcher.offeredHops context state :=
      Considers.offered ⟨group, hgroup, hhop⟩
    have hoffers := (mem_offeredHops hresolved hstate hop).mp hoffered
    obtain ⟨_, hhops, _⟩ := (mem_groupHeuristicHops mode state group).mp hgroup
    have hmem := (searcher.perm_liquidityRankedHops _ _ _).mem_iff.mp
      (((shortlistedRankedHops_sublist mode _).map _).mem hhop)
    rw [hhops] at hmem
    have htoken : hop.tokenOut = group.nextToken := by
      simpa using (List.mem_filter.mp hmem).2
    refine ⟨hoffers, ?_⟩
    rw [rankedHopsBetween_eq htwo hresolved hne hstate hoffers, ← htake]
    rwa [hhops, ← htoken] at hhop
  · rintro ⟨hoffers, hlisted⟩
    have hoffered := (mem_offeredHops hresolved hstate hop).mpr hoffers
    refine ⟨⟨hop.tokenOut, (searcher.offeredHops context state).filter
      (fun other => other.tokenOut = hop.tokenOut),
      decide (searcher.graph.nodeIndex hop.tokenOut = some context.target)⟩,
      (mem_groupHeuristicHops mode state _).mpr
        ⟨List.mem_map_of_mem hoffered, rfl, rfl⟩, ?_⟩
    rw [rankedHopsBetween_eq htwo hresolved hne hstate hoffers, ← htake] at hlisted
    exact hlisted

/-- A hop that the initial limit leaves out defers its group. -/
theorem defers_of_not_shortlisted
    (hshort : context.heuristic.edgeShortlist.enabled = true)
    (hmodes : .refinement ∈ heuristicPassModes context.heuristic)
    {state : HeuristicState} (hstate : searcher.Sound context state)
    (hoffers : searcher.Offers context state.path hop)
    (hleft : ¬ searcher.Shortlisted context.config context.heuristic
      (HeuristicPassMode.initial.edgeLimit context.heuristic) hop) :
    ∃ group ∈ searcher.groupHeuristicHops context .initial state,
      Defers context .initial group := by
  have hoffered := (mem_offeredHops hresolved hstate hop).mpr hoffers
  refine ⟨⟨hop.tokenOut, (searcher.offeredHops context state).filter
    (fun other => other.tokenOut = hop.tokenOut),
    decide (searcher.graph.nodeIndex hop.tokenOut = some context.target)⟩,
    (mem_groupHeuristicHops .initial state _).mpr
      ⟨List.mem_map_of_mem hoffered, rfl, rfl⟩, rfl, hmodes, hshort, ?_⟩
  by_contra hfits
  apply hleft
  unfold Shortlisted
  have hperm := searcher.perm_liquidityRankedHops
    ((searcher.offeredHops context state).filter
      fun other => other.tokenOut = hop.tokenOut)
    context.heuristic.edgeShortlist context.config.liquidityPruning
  have hlength := hperm.length_eq
  rw [List.length_map] at hlength
  rw [rankedHopsBetween_eq htwo hresolved hne hstate hoffers,
    List.take_of_length_le (hlength.le.trans (Nat.not_lt.mp hfits)), hperm.mem_iff]
  exact List.mem_filter.mpr ⟨hoffered, by simp⟩

end Groups

section Passes

variable {σ : Type} {onQuote : σ → RouteQuote → σ × Bool}
  {start final : HeuristicRun σ} {expanded : HeuristicState → Prop}
  (htwo : searcher.graph.TwoToken) (hresolved : context.Resolved searcher.graph)
  (hne : context.tokenIn ≠ context.tokenOut)
  (hshort : context.heuristic.edgeShortlist.enabled = true)
  (hlimit : 1 ≤ mode.edgeLimit context.heuristic)
  (hpass : searcher.PassCovers context onQuote mode 0 [context.rootState] start final
    expanded)

include htwo hresolved hne hshort hlimit hpass

/-- A pass follows shortlisted hops only. -/
theorem PassCovers.shortlisted {state : HeuristicState} (hstate : expanded state) :
    ∀ hop ∈ state.path, searcher.Shortlisted context.config context.heuristic
      (mode.edgeLimit context.heuristic) hop := by
  induction hlength : state.path.length generalizing state with
  | zero =>
      rw [List.length_eq_zero_iff] at hlength
      simp [hlength]
  | succ length ih =>
      rcases hpass.parent state hstate with hroot | ⟨parent, hparent, hop, hpath, hhop⟩
      · obtain rfl := List.mem_singleton.mp hroot
        cases hlength
      · rw [hpath, List.length_append, List.length_singleton] at hlength
        intro other hother
        rw [hpath] at hother
        rcases List.mem_append.mp hother with hother | hother
        · exact ih hparent (by omega) other hother
        · obtain rfl := List.mem_singleton.mp hother
          exact ((considers_iff htwo hresolved hne hshort hlimit
            (hpass.sound parent hparent)).mp hhop).2

/-- A pass matches every shortlisted route, unless a label of its start outdoes
a prefix of the route. -/
theorem PassCovers.quote_or_label (hmono : searcher.MonotoneQuotes context.simConfig)
    (hdom : context.heuristic.prefixDominance = true)
    (hallow : context.allowFinalSourceRevisit = false)
    (hmin : context.config.minHops = 1)
    (hsound : searcher.SoundQuotes context final.quotes)
    (hroute : searcher.QuotedRoute context.problem path amount)
    (hlisted : ∀ hop ∈ path, searcher.Shortlisted context.config context.heuristic
      (mode.edgeLimit context.heuristic) hop) :
    (∃ quote ∈ final.quotes, amount ≤ quote.amountOut) ∨
      ∃ part before, part <+: path ∧ part ≠ path ∧ part ≠ [] ∧
        searcher.Yields context.problem part before ∧
        ∃ label ∈ start.prefixDominance.labelsAt (endToken context.tokenIn part),
          before ≤ label.amount ∧
            label.visitedTokens ⊆ visitedOf context.tokenIn part := by
  have hconsiders : ∀ hop ∈ path, ∀ state, searcher.Sound context state →
      searcher.Offers context state.path hop →
      searcher.Considers context mode state hop := by
    intro hop hhop state hstate hoffers
    exact (considers_iff htwo hresolved hne hshort hlimit hstate).mpr
      ⟨hoffers, hlisted hop hhop⟩
  obtain ⟨front, hop, rfl⟩ :=
    List.eq_nil_or_concat' path |>.resolve_left (hroute.ne_nil hmin.ge)
  have hisRoute := (isRoute_iff hallow).mpr hroute.isRoute
  obtain ⟨hcompletable, hoffers⟩ := completable_of_isRoute hisRoute
  obtain ⟨_, hcloses, _, _⟩ :=
    HeuristicContext.isRoute_effective_append_singleton.mp hisRoute
  obtain ⟨before, hbefore, hquote⟩ := yields_append_singleton.mp hroute.yields
  rcases hpass.covers_prefix htwo hresolved hne hmono hdom hcompletable hbefore
      fun other hother => hconsiders other (List.mem_append_left _ hother) with
    ⟨state, hstate, hreplaces, hle⟩ | ⟨part, before', hpart, hnonempty, hrest⟩
  · obtain ⟨larger, hlarger, hamount⟩ := quoteHop_mono hmono hoffers.isHop hle hquote
    obtain ⟨quote, hmem, _, hout⟩ := hpass.exists_quote hsound hstate
      (hconsiders hop (by simp) state (hpass.sound state hstate)
        (hoffers.replace htwo hresolved hne hreplaces)) hlarger hcloses.2.1
      (hmin.le.trans (Nat.le_add_left 1 _))
    exact Or.inl ⟨quote, hmem, hout ▸ hamount⟩
  · refine Or.inr ⟨part, before', hpart.trans (List.prefix_append _ _), ?_, hnonempty,
      hrest⟩
    rintro rfl
    have hlength := List.IsPrefix.length_le hpart
    simp at hlength

end Passes

section FinalRun

theorem refinement_mem_iff {heuristic : HeuristicSearchConfig} :
    .refinement ∈ heuristicPassModes heuristic ↔
      heuristic.edgeShortlist.enabled = true ∧
        heuristic.edgeShortlist.refineParallelEdges = true ∧
        heuristic.edgeShortlist.initialEdgesPerPair <
          heuristic.edgeShortlist.refinementEdgesPerPair := by
  unfold heuristicPassModes
  split
  · rename_i hpasses
    simpa [and_assoc] using hpasses
  · rename_i hpasses
    simpa [and_assoc] using hpasses

variable {σ : Type} {onQuote : σ → RouteQuote → σ × Bool} {start : σ}

/-- The run of a search with a shortlist: the initial pass, then the refinement
pass if it is due. -/
theorem finalRun_passes (hresolved : context.Resolved searcher.graph)
    (huncut : searcher.Uncut context) (hroom : 0 < context.config.maxHops)
    (hquiet : ∀ observed quote, (onQuote observed quote).2 = true)
    (hfast : searcher.SoundRun context onQuote start
      (searcher.runFastLane context onQuote { observed := start })) :
    ∃ first expanded,
      searcher.PassCovers context onQuote .initial 0 [context.rootState]
        (beginPass (searcher.runFastLane context onQuote { observed := start })) first
        expanded ∧
      searcher.SoundQuotes context first.quotes ∧
      searcher.SoundQuotes context (searcher.finalRun context onQuote start).quotes ∧
      ((searcher.finalRun context onQuote start = first ∧
          (.refinement ∈ heuristicPassModes context.heuristic →
            first.deferredEdgesSeen = false)) ∨
        .refinement ∈ heuristicPassModes context.heuristic ∧
        ∃ expanded', searcher.PassCovers context onQuote .refinement 0
          [context.rootState] (beginPass first)
          (searcher.finalRun context onQuote start) expanded') := by
  have hlane := @fastLaneRun_runFastLane G _ searcher context σ onQuote
    huncut.candidates hquiet start
  obtain ⟨expanded, hpass⟩ := @passCovers_runPass G _ searcher context .initial σ onQuote
    (searcher.runFastLane context onQuote { observed := start }) hresolved huncut hroom
    hquiet hlane.stopped (by
      rw [hlane.index]
      exact PrefixDominanceIndex.wellFormed_empty) hlane.quoted
  have hfirst := hfast.runPass hresolved .initial
  have hfinal := hfast.runPasses hresolved (heuristicPassModes context.heuristic)
  refine ⟨_, expanded, hpass, ?_, ?_, ?_⟩
  · obtain ⟨log, hlog⟩ := hfirst
    exact hlog.soundQuotes
  · obtain ⟨log, hlog⟩ := hfinal
    exact hlog.soundQuotes
  · rcases runPasses_cases hpass.stopped with hlast | ⟨hmodes, hlast⟩
    · exact Or.inl hlast
    · refine Or.inr ⟨hmodes, ?_⟩
      unfold finalRun
      rw [hlast]
      exact passCovers_runPass hresolved huncut hroom hquiet hpass.stopped hpass.index
        hpass.quoted

end FinalRun

section Requests

/-- Only the shortlist and prefix dominance cut the search, and the refinement
pass is enabled. -/
structure RefinementOn (searcher : AmmSearcher G) (request : RouteRequest)
    (heuristic : HeuristicSearchConfig) : Prop where
  mode : request.config.mode = .heuristic heuristic
  valid : request.config.validate = .ok ()
  candidates : request.config.maxCandidates = none
  minHops : request.config.minHops = 1
  liquidity : request.config.liquidityPruning.enabled = false
  beam : heuristic.beamWidth = none
  upperBound : heuristic.upperBoundPruning.enabled = false
  dominance : heuristic.prefixDominance = true
  shortlist : heuristic.edgeShortlist.enabled = true
  refine : heuristic.edgeShortlist.refineParallelEdges = true
  tokens : request.tokenIn ≠ request.tokenOut
  twoToken : searcher.graph.TwoToken
  monotone : searcher.MonotoneQuotes request.simConfig

/-- The quotes that a full search reports to an observer that never stops it. -/
def evaluatedQuotes (searcher : AmmSearcher G) (request : RouteRequest)
    (heuristic : HeuristicSearchConfig) : List RouteQuote :=
  (searcher.observedSearch request heuristic (recording fun (_ : Unit) _ => ((), true))
    .full ((), [])).1.2

/-- Every hop of the path is among the first `limit` edges of its pair. -/
def WithinShortlist (searcher : AmmSearcher G) (request : RouteRequest)
    (heuristic : HeuristicSearchConfig) (limit : ℕ) (path : RoutePath) : Prop :=
  ∀ hop ∈ path, searcher.Shortlisted request.config heuristic limit hop

/-- Every quotable route within the refinement limit is evaluated or matched by
an evaluated route. -/
def RefinementCovers (searcher : AmmSearcher G) (request : RouteRequest)
    (heuristic : HeuristicSearchConfig) : Prop :=
  ∀ path amount,
    searcher.QuotedRoute (searcher.routeProblem request heuristic) path amount →
    searcher.WithinShortlist request heuristic
      heuristic.edgeShortlist.refinementEdgesPerPair path →
    ∃ quote ∈ searcher.evaluatedQuotes request heuristic,
      quote.path = path ∨ amount ≤ quote.amountOut

/-- A proper prefix of the path is outdone by a prefix within the initial
limit. -/
def OutdoneByInitial (searcher : AmmSearcher G) (request : RouteRequest)
    (heuristic : HeuristicSearchConfig) (path : RoutePath) : Prop :=
  ∃ part amount other amount', part <+: path ∧ part ≠ path ∧
    searcher.QuotedPrefix (searcher.routeProblem request heuristic) part amount ∧
    searcher.QuotedPrefix (searcher.routeProblem request heuristic) other amount' ∧
    searcher.WithinShortlist request heuristic
      heuristic.edgeShortlist.initialEdgesPerPair other ∧
    Outdoes (searcher.routeProblem request heuristic) other part amount' amount

/-- The routes that the fast lane, the initial pass or the refinement pass
matches. -/
def Matched (searcher : AmmSearcher G) (request : RouteRequest)
    (heuristic : HeuristicSearchConfig) (path : RoutePath) : Prop :=
  (heuristic.fastLane.enabled = true ∧
      path ∈ searcher.fastLanePaths request.tokenIn request.tokenOut request.config
        heuristic (searcher.connectorTokensForHeuristic request.tokenIn
          request.tokenOut request.config heuristic)) ∨
    searcher.WithinShortlist request heuristic
      heuristic.edgeShortlist.initialEdgesPerPair path ∨
    (heuristic.edgeShortlist.initialEdgesPerPair <
        heuristic.edgeShortlist.refinementEdgesPerPair ∧
      searcher.WithinShortlist request heuristic
        heuristic.edgeShortlist.refinementEdgesPerPair path ∧
      ¬ searcher.OutdoneByInitial request heuristic path)

variable {request : RouteRequest} {heuristic : HeuristicSearchConfig}
  {source target : NodeIndex}

/-- The passes of a request. -/
structure RefinementRun (searcher : AmmSearcher G) (request : RouteRequest)
    (heuristic : HeuristicSearchConfig) (source target : NodeIndex)
    (lane first final : HeuristicRun (Unit × List RouteQuote))
    (expanded : HeuristicState → Prop) : Prop where
  resolved : (searcher.requestContext request heuristic source target).Resolved
    searcher.graph
  fastLane : searcher.FastLaneRun (searcher.requestContext request heuristic source target)
    (recording fun (_ : Unit) _ => ((), true)) ((), []) lane
  initial : searcher.PassCovers
    (searcher.requestContext request heuristic source target)
    (recording fun (_ : Unit) _ => ((), true)) .initial 0
    [(searcher.requestContext request heuristic source target).rootState]
    (beginPass lane) first expanded
  soundFirst : searcher.SoundQuotes
    (searcher.requestContext request heuristic source target) first.quotes
  sound : searcher.SoundQuotes
    (searcher.requestContext request heuristic source target) final.quotes
  last : (final = first ∧ (.refinement ∈ heuristicPassModes heuristic →
      first.deferredEdgesSeen = false)) ∨
    .refinement ∈ heuristicPassModes heuristic ∧
    ∃ expanded', searcher.PassCovers
      (searcher.requestContext request heuristic source target)
      (recording fun (_ : Unit) _ => ((), true)) .refinement 0
      [(searcher.requestContext request heuristic source target).rootState]
      (beginPass first) final expanded'
  evaluated : searcher.evaluatedQuotes request heuristic = final.quotes

theorem exists_refinementRun (hindexed : searcher.graph.Indexed)
    (hon : searcher.RefinementOn request heuristic)
    (hsource : searcher.graph.nodeIndex request.tokenIn = some source)
    (htarget : searcher.graph.nodeIndex request.tokenOut = some target) :
    ∃ lane first final expanded, searcher.RefinementRun request heuristic source target
      lane first final expanded := by
  obtain ⟨hmin, hmax⟩ := SearchConfig.hops_of_validate hon.valid
  have hresolved : (searcher.requestContext request heuristic source target).Resolved
      searcher.graph := ⟨hindexed, hsource, htarget⟩
  have hlimits : 1 ≤ heuristic.edgeShortlist.initialEdgesPerPair ∧
      1 ≤ heuristic.edgeShortlist.refinementEdgesPerPair :=
    HeuristicSearchConfig.edges_of_validate
      (SearchConfig.heuristic_of_validate hon.mode hon.valid) hon.shortlist
  have huncut : searcher.Uncut
      (searcher.requestContext request heuristic source target) :=
    ⟨hon.candidates, hon.beam, hon.liquidity, hon.upperBound,
      fun hoff => absurd (hoff.symm.trans hon.shortlist) Bool.false_ne_true,
      fun _ => hlimits⟩
  have hlane := @fastLaneRun_runFastLane G _ searcher
    (searcher.requestContext request heuristic source target) _
    (recording fun (_ : Unit) _ => ((), true)) hon.candidates (fun _ _ => rfl) ((), [])
  have hroundTrip : ¬ searcher.QuotedRoundTrip request heuristic :=
    fun hround => hon.tokens hround.1
  obtain ⟨first, expanded, hinitial, hsoundFirst, hsound, hlast⟩ := finalRun_passes
    hresolved huncut (show 0 < request.config.maxHops by exact hmin.trans hmax)
    (fun _ _ => rfl) (soundRun_requestContext hresolved hroundTrip
      (recording fun (_ : Unit) _ => ((), true)) ((), []))
  refine ⟨_, first, _, expanded, hresolved, hlane, hinitial, hsoundFirst, hsound, hlast,
    ?_⟩
  have hfirst := hinitial.keeps.observed_eq hlane.reported
  have hfinal : (searcher.finalRun (searcher.requestContext request heuristic source
      target) (recording fun (_ : Unit) _ => ((), true)) ((), [])).observed =
      reportAll (recording fun (_ : Unit) _ => ((), true)) ((), [])
        (searcher.finalRun (searcher.requestContext request heuristic source target)
          (recording fun (_ : Unit) _ => ((), true)) ((), [])).quotes := by
    rcases hlast with ⟨hsame, _⟩ | ⟨_, _, hsecond⟩
    · rw [hsame]
      exact hfirst
    · exact hsecond.keeps.observed_eq hfirst
  unfold evaluatedQuotes
  rw [observedSearch_eq hon.valid hsource htarget]
  unfold searchRoutes
  simp only
  rw [if_neg (by simp [hlane.stopped])]
  change (searcher.finalRun (searcher.requestContext request heuristic source target)
    (recording fun (_ : Unit) _ => ((), true)) ((), [])).observed.2 = _
  rw [hfinal, reportAll_recording, List.nil_append]

theorem RefinementOn.edges (hon : searcher.RefinementOn request heuristic) :
    1 ≤ heuristic.edgeShortlist.initialEdgesPerPair ∧
      1 ≤ heuristic.edgeShortlist.refinementEdgesPerPair :=
  HeuristicSearchConfig.edges_of_validate
    (SearchConfig.heuristic_of_validate hon.mode hon.valid) hon.shortlist

theorem RefinementOn.edgeLimit (hon : searcher.RefinementOn request heuristic) :
    HeuristicPassMode.initial.edgeLimit heuristic =
        heuristic.edgeShortlist.initialEdgesPerPair ∧
      HeuristicPassMode.refinement.edgeLimit heuristic =
        heuristic.edgeShortlist.refinementEdgesPerPair := by
  simp [HeuristicPassMode.edgeLimit, hon.shortlist]

section Runs

variable {lane first final : HeuristicRun (Unit × List RouteQuote)}
  {expanded : HeuristicState → Prop}
  (hon : searcher.RefinementOn request heuristic)
  (hrun : searcher.RefinementRun request heuristic source target lane first final expanded)

include hon hrun

omit hon in
/-- The fast lane and the initial pass stay evaluated. -/
theorem RefinementRun.mem_final {quote : RouteQuote} (hquote : quote ∈ first.quotes) :
    quote ∈ final.quotes := by
  rcases hrun.last with ⟨hsame, _⟩ | ⟨_, _, hsecond⟩
  · rwa [hsame]
  · exact hsecond.keeps.mem_quotes hquote

omit hon in
theorem RefinementRun.quotedRoute {quote : RouteQuote} (hquote : quote ∈ final.quotes) :
    searcher.QuotedRoute (searcher.routeProblem request heuristic) quote.path
      quote.amountOut :=
  ⟨(isRoute_iff rfl).mp (hrun.sound.2 quote hquote).isRoute,
    (hrun.sound.2 quote hquote).yields⟩

/-- The initial pass matches every route within its limit. -/
theorem RefinementRun.quote_of_initial
    (hroute : searcher.QuotedRoute (searcher.routeProblem request heuristic) path amount)
    (hlisted : searcher.WithinShortlist request heuristic
      heuristic.edgeShortlist.initialEdgesPerPair path) :
    ∃ quote ∈ final.quotes, amount ≤ quote.amountOut := by
  have hlimit : 1 ≤ HeuristicPassMode.initial.edgeLimit heuristic :=
    hon.edgeLimit.1 ▸ hon.edges.1
  rw [← hon.edgeLimit.1] at hlisted
  rcases hrun.initial.quote_or_label hon.twoToken hrun.resolved hon.tokens hon.shortlist
      hlimit hon.monotone hon.dominance rfl hon.minHops hrun.soundFirst hroute hlisted with
    ⟨quote, hquote, hle⟩ | ⟨_, _, _, _, _, _, label, hlabel, _⟩
  · exact ⟨quote, hrun.mem_final hquote, hle⟩
  · have hempty : (beginPass lane).prefixDominance = .empty := hrun.fastLane.index
    rw [hempty, PrefixDominanceIndex.labelsAt_empty] at hlabel
    cases hlabel

/-- A label of the initial pass belongs to a prefix within its limit. -/
theorem RefinementRun.exists_of_label {token : Address} {label : PrefixLabel}
    (hlabel : label ∈ first.prefixDominance.labelsAt token) :
    ∃ other,
      searcher.QuotedPrefix (searcher.routeProblem request heuristic) other label.amount ∧
      searcher.WithinShortlist request heuristic
        heuristic.edgeShortlist.initialEdgesPerPair other ∧
      endToken request.tokenIn other = token ∧
      label.visitedTokens = visitedOf request.tokenIn other := by
  have hlimit : 1 ≤ HeuristicPassMode.initial.edgeLimit heuristic :=
    hon.edgeLimit.1 ▸ hon.edges.1
  rcases hrun.initial.labels token label hlabel with
    hold | ⟨state, hstate, hpath, hend, rfl⟩
  · have hempty : (beginPass lane).prefixDominance = .empty := hrun.fastLane.index
    rw [hempty, PrefixDominanceIndex.labelsAt_empty] at hold
    cases hold
  · have hsound := hrun.initial.sound state hstate
    refine ⟨state.path, hsound.quotedPrefix hpath, ?_, hend, hsound.visited⟩
    rw [← hon.edgeLimit.1]
    exact hrun.initial.shortlisted hon.twoToken hrun.resolved hon.tokens hon.shortlist
      hlimit hstate

/-- The first hop of a route decides whether the refinement pass runs. -/
theorem RefinementRun.deferred_of_first {rest : RoutePath}
    (hmodes : .refinement ∈ heuristicPassModes heuristic)
    (hroute : searcher.QuotedRoute (searcher.routeProblem request heuristic)
      (hop :: rest) amount)
    (hleft : ¬ searcher.Shortlisted request.config heuristic
      heuristic.edgeShortlist.initialEdgesPerPair hop) :
    first.deferredEdgesSeen = true := by
  have hroot := hrun.initial.begins _ (List.mem_singleton_self _)
  have hoffers : searcher.Offers
      (searcher.requestContext request heuristic source target) [] hop :=
    offers_of_isRoute_append ((isRoute_iff rfl).mpr hroute.isRoute)
  rw [← hon.edgeLimit.1] at hleft
  obtain ⟨group, hgroup, hdefers⟩ := defers_of_not_shortlisted hon.twoToken hrun.resolved
    hon.tokens hon.shortlist hmodes (hrun.initial.sound _ hroot) hoffers hleft
  exact hrun.initial.deferred _ hroot group hgroup hdefers

/-- The refinement pass matches the routes within its limit that no prefix of
the initial pass outdoes. -/
theorem RefinementRun.quote_of_refinement
    (hmore : heuristic.edgeShortlist.initialEdgesPerPair <
      heuristic.edgeShortlist.refinementEdgesPerPair)
    (hroute : searcher.QuotedRoute (searcher.routeProblem request heuristic) path amount)
    (hlisted : searcher.WithinShortlist request heuristic
      heuristic.edgeShortlist.refinementEdgesPerPair path)
    (hfree : ¬ searcher.OutdoneByInitial request heuristic path) :
    ∃ quote ∈ final.quotes, amount ≤ quote.amountOut := by
  have hmodes := refinement_mem_iff.mpr ⟨hon.shortlist, hon.refine, hmore⟩
  have hproblem : (searcher.requestContext request heuristic source target).problem =
      searcher.routeProblem request heuristic := rfl
  rcases hrun.last with ⟨_, hdeferred⟩ | ⟨_, expanded', hsecond⟩
  · -- without a second pass the first hop is within the initial limit
    cases path with
    | nil => exact absurd rfl (hroute.ne_nil hon.minHops.ge)
    | cons hop rest =>
        have hfirst : searcher.Shortlisted request.config heuristic
            heuristic.edgeShortlist.initialEdgesPerPair hop := by
          by_contra hleft
          have hseen := hrun.deferred_of_first hon hmodes hroute hleft
          rw [hdeferred hmodes] at hseen
          cases hseen
        cases rest with
        | nil =>
            refine hrun.quote_of_initial hon hroute ?_
            intro other hother
            obtain rfl := List.mem_singleton.mp hother
            exact hfirst
        | cons following rest =>
            have hpart : [hop] <+: hop :: following :: rest := ⟨following :: rest, rfl⟩
            rw [← hproblem] at hroute
            obtain ⟨before, hprefix⟩ := hroute.exists_quotedPrefix rfl hpart (by simp)
              (by simp)
            refine absurd ⟨[hop], before, [hop], before, hpart, by simp, hprefix, hprefix,
              ?_, rfl, Finset.Subset.refl _, le_refl _⟩ hfree
            intro other hother
            obtain rfl := List.mem_singleton.mp hother
            exact hfirst
  · have hlimit : 1 ≤ HeuristicPassMode.refinement.edgeLimit heuristic :=
      hon.edgeLimit.2 ▸ hon.edges.2
    rw [← hon.edgeLimit.2] at hlisted
    rcases hsecond.quote_or_label hon.twoToken hrun.resolved hon.tokens hon.shortlist
        hlimit hon.monotone hon.dominance rfl hon.minHops hrun.sound hroute hlisted with
      hquote | ⟨part, before, hpart, hproper, hnonempty, hbefore, label, hlabel, hle, hsub⟩
    · exact hquote
    · obtain ⟨other, hother, hwithin, hend, hvisited⟩ := hrun.exists_of_label hon hlabel
      rw [← hproblem] at hroute
      obtain ⟨before', hprefix⟩ := hroute.exists_quotedPrefix rfl hpart hproper hnonempty
      rw [hvisited] at hsub
      obtain rfl := hprefix.yields.unique hbefore
      exact absurd ⟨part, before', other, label.amount, hpart, hproper, hprefix, hother,
        hwithin, hend, hsub, hle⟩ hfree

omit hrun in
/-- The completed paths of a pass are within its limit. -/
theorem RefinementOn.withinShortlist
    {start pass : HeuristicRun (Unit × List RouteQuote)}
    {reached : HeuristicState → Prop} {mode : HeuristicPassMode}
    (hresolved : (searcher.requestContext request heuristic source target).Resolved
      searcher.graph) (hlimit : 1 ≤ mode.edgeLimit heuristic)
    (hpass : searcher.PassCovers (searcher.requestContext request heuristic source target)
      (recording fun (_ : Unit) _ => ((), true)) mode 0
      [(searcher.requestContext request heuristic source target).rootState] start pass
      reached) {state : HeuristicState} (hstate : reached state)
    (hhop : searcher.Considers (searcher.requestContext request heuristic source target)
      mode state hop) :
    searcher.WithinShortlist request heuristic (mode.edgeLimit heuristic)
      (state.path ++ [hop]) := by
  intro other hother
  rcases List.mem_append.mp hother with hother | hother
  · exact hpass.shortlisted hon.twoToken hresolved hon.tokens hon.shortlist hlimit hstate
      other hother
  · obtain rfl := List.mem_singleton.mp hother
    exact ((considers_iff hon.twoToken hresolved hon.tokens hon.shortlist hlimit
      (hpass.sound state hstate)).mp hhop).2

/-- A prefix of the refinement pass is not outdone by one of the initial
pass. -/
theorem RefinementRun.not_outdoneByInitial {expanded' : HeuristicState → Prop}
    (hsecond : searcher.PassCovers
      (searcher.requestContext request heuristic source target)
      (recording fun (_ : Unit) _ => ((), true)) .refinement 0
      [(searcher.requestContext request heuristic source target).rootState]
      (beginPass first) final expanded') {state : HeuristicState}
    (hstate : expanded' state) (hop : Hop) :
    ¬ searcher.OutdoneByInitial request heuristic (state.path ++ [hop]) := by
  rintro ⟨part, amount, other, amount', hpre, hproper, hpart, hother, hwithin, houtdoes⟩
  have hlimit : 1 ≤ HeuristicPassMode.initial.edgeLimit heuristic :=
    hon.edgeLimit.1 ▸ hon.edges.1
  have hshorter : part <+: state.path :=
    (List.prefix_concat_iff.mp hpre).resolve_left hproper
  obtain ⟨earlier, hearlier, rfl⟩ := hsecond.expanded_of_isPrefix hstate hshorter
  have hearlierSound := hsecond.sound earlier hearlier
  have hopen : (searcher.requestContext request heuristic source target).IsOpen
      searcher.graph other := isOpen_iff.mpr hother.isPrefix
  have hreplaces : (searcher.requestContext request heuristic source target).Replaces
      searcher.graph other earlier.path :=
    ⟨hopen, hearlierSound.isOpen, houtdoes.token, houtdoes.visited⟩
  have hcompletable := hreplaces.completable hon.twoToken hrun.resolved.indexed hon.tokens
    (hsecond.completable hrun.resolved hearlier hpart.nonempty)
  rw [← hon.edgeLimit.1] at hwithin
  rcases hrun.initial.covers_prefix hon.twoToken hrun.resolved hon.tokens hon.monotone
      hon.dominance hcompletable hother.yields
      (fun hop hhop state hstate hoffers => (considers_iff hon.twoToken hrun.resolved
        hon.tokens hon.shortlist hlimit hstate).mpr ⟨hoffers, hwithin hop hhop⟩) with
    ⟨better, hbetter, hcovers, hle⟩ | ⟨_, _, _, _, _, label, hlabel, _⟩
  · have hbetterSound := hrun.initial.sound better hbetter
    have hroot : earlier ∉
        [(searcher.requestContext request heuristic source target).rootState] := by
      intro hmem
      obtain rfl := List.mem_singleton.mp hmem
      exact hpart.nonempty rfl
    have hlabelled := hrun.initial.labelled hon.dominance better hbetter
      (hcovers.ne_nil hother.nonempty)
    rw [hcovers.token.trans houtdoes.token] at hlabelled
    refine hsecond.fresh hon.dominance earlier hearlier hroot (hlabelled.trans ?_)
    refine (label_dominates_iff hon.twoToken hrun.resolved hon.tokens hearlierSound
      hbetterSound).mpr ⟨?_, hcovers.visited.trans houtdoes.visited⟩
    rw [hearlierSound.yields.unique hpart.yields]
    exact houtdoes.amount_le.trans hle
  · have hempty : (beginPass lane).prefixDominance = .empty := hrun.fastLane.index
    rw [hempty, PrefixDominanceIndex.labelsAt_empty] at hlabel
    cases hlabel

/-- Everything evaluated is of one of the three kinds. -/
theorem RefinementRun.matched {quote : RouteQuote} (hquote : quote ∈ final.quotes) :
    searcher.Matched request heuristic quote.path := by
  have hfirst : quote ∈ first.quotes → searcher.Matched request heuristic quote.path := by
    intro hquote
    rcases hrun.initial.origin quote hquote with hlane | ⟨state, hstate, hop, hpath, hhop⟩
    · obtain ⟨⟨_, henabled⟩, hmem⟩ :=
        (hrun.fastLane.evaluated _).mp (hrun.fastLane.origin quote hlane)
      exact Or.inl ⟨henabled, hmem⟩
    · rw [hpath]
      have hwithin := hon.withinShortlist hrun.resolved (hon.edgeLimit.1 ▸ hon.edges.1)
        hrun.initial hstate hhop
      rw [hon.edgeLimit.1] at hwithin
      exact Or.inr (Or.inl hwithin)
  rcases hrun.last with ⟨hsame, _⟩ | ⟨hmodes, expanded', hsecond⟩
  · exact hfirst (hsame ▸ hquote)
  · rcases hsecond.origin quote hquote with hold | ⟨state, hstate, hop, hpath, hhop⟩
    · exact hfirst hold
    · have hwithin := hon.withinShortlist hrun.resolved (hon.edgeLimit.2 ▸ hon.edges.2)
        hsecond hstate hhop
      rw [hon.edgeLimit.2] at hwithin
      have hfree := hrun.not_outdoneByInitial hon hsecond hstate hop
      rw [← hpath] at hwithin hfree
      exact Or.inr (Or.inr ⟨(refinement_mem_iff.mp hmodes).2.2, hwithin, hfree⟩)

/-- A route of one of the three kinds is matched by an evaluated route. -/
theorem RefinementRun.quote_of_matched
    (hroute : searcher.QuotedRoute (searcher.routeProblem request heuristic) path amount)
    (hmatched : searcher.Matched request heuristic path) :
    ∃ quote ∈ final.quotes, amount ≤ quote.amountOut := by
  rcases hmatched with ⟨henabled, hlane⟩ | hwithin | ⟨hmore, hwithin, hfree⟩
  · obtain ⟨hopQuotes, htrace⟩ := hroute.yields
    obtain ⟨quote, hquote, rfl⟩ := hrun.fastLane.quoted path
      ((hrun.fastLane.evaluated path).mpr ⟨⟨rfl, henabled⟩, hlane⟩) _ htrace
    have hmem := hrun.mem_final (hrun.initial.keeps.mem_quotes hquote)
    exact ⟨quote, hmem, (hroute.yields.unique (hrun.quotedRoute hmem).yields).le⟩
  · exact hrun.quote_of_initial hon hroute hwithin
  · exact hrun.quote_of_refinement hon hmore hroute hwithin hfree

end Runs

/-- The refinement pass covers its routes exactly when each of them yields no
more than a route of the fast lane, of the initial pass, or of the refinement
pass that no prefix of the initial pass outdoes. -/
theorem refinementCovers_iff (hbuilt : searcher.graph.Built)
    (hon : searcher.RefinementOn request heuristic) :
    searcher.RefinementCovers request heuristic ↔
      ∀ path amount,
        searcher.QuotedRoute (searcher.routeProblem request heuristic) path amount →
        searcher.WithinShortlist request heuristic
          heuristic.edgeShortlist.refinementEdgesPerPair path →
        ∃ other amount',
          searcher.QuotedRoute (searcher.routeProblem request heuristic) other amount' ∧
          amount ≤ amount' ∧ searcher.Matched request heuristic other := by
  have hruns : ∀ path amount,
      searcher.QuotedRoute (searcher.routeProblem request heuristic) path amount →
      ∃ source target lane first final expanded, searcher.RefinementRun request heuristic
        source target lane first final expanded := by
    intro path amount hroute
    obtain ⟨⟨source, hsource⟩, target, htarget⟩ :=
      hroute.exists_nodes hbuilt.indexed hon.minHops.ge
    obtain ⟨lane, first, final, expanded, hrun⟩ :=
      exists_refinementRun hbuilt.indexed hon hsource htarget
    exact ⟨source, target, lane, first, final, expanded, hrun⟩
  constructor
  · intro hcovers path amount hroute hwithin
    obtain ⟨source, target, lane, first, final, expanded, hrun⟩ :=
      hruns path amount hroute
    obtain ⟨quote, hquote, hcase⟩ := hcovers path amount hroute hwithin
    rw [hrun.evaluated] at hquote
    refine ⟨quote.path, quote.amountOut, hrun.quotedRoute hquote, ?_,
      hrun.matched hon hquote⟩
    rcases hcase with rfl | hle
    · exact (hroute.yields.unique (hrun.quotedRoute hquote).yields).le
    · exact hle
  · intro hcondition path amount hroute hwithin
    obtain ⟨source, target, lane, first, final, expanded, hrun⟩ :=
      hruns path amount hroute
    obtain ⟨other, amount', hother, hle, hmatched⟩ := hcondition path amount hroute hwithin
    obtain ⟨quote, hquote, hle'⟩ := hrun.quote_of_matched hon hother hmatched
    exact ⟨quote, hrun.evaluated ▸ hquote, Or.inr (hle.trans hle')⟩

end Requests

end AmmSearcher

namespace DeferredEdgeExample

open CappedExample

/-- One pool from `1` to `2` and two from there to `3`. -/
def pools : List PoolRegistration :=
  [TwoPoolExample.pool ['e'] 1 2, TwoPoolExample.pool ['f'] 2 3,
    TwoPoolExample.pool ['g'] 2 3]

/-- The pool named `scarce` pays out little. -/
def registry (scarce : Text) : AdapterRegistry :=
  CappedExample.registry (fun pool _ _ => if pool.debug = scarce then 50 else 1000) pools
    (by decide)

/-- One edge a pair in the initial pass, two in the refinement pass. -/
def heuristic : HeuristicSearchConfig :=
  { CappedExample.heuristic with
    edgeShortlist :=
      { enabled := true, refineParallelEdges := true, refinementEdgesPerPair := 2 } }

def request : RouteRequest :=
  (CappedExample.request 3 {2} 1 2).withDominance heuristic true

theorem refinementOn (scarce : Text) :
    (searcher (registry scarce)).RefinementOn request heuristic :=
  ⟨rfl, by rfl, rfl, rfl, rfl, rfl, rfl, rfl, rfl, rfl, by decide,
    twoToken (registry scarce) (show ∀ pool ∈ pools, (indexedTokens pool {}).toOption.all
      (fun tokens => tokens.length = 2) = true by decide), monotoneQuotes _ _ _ _⟩

/-- When the first-ranked edge is the better one, its route matches all. -/
theorem refinementCovers_second_scarce :
    (searcher (registry ['g'])).RefinementOn request heuristic ∧
      ∀ path amount,
        (searcher (registry ['g'])).QuotedRoute
          ((searcher (registry ['g'])).routeProblem request heuristic) path amount →
        (searcher (registry ['g'])).WithinShortlist request heuristic
          heuristic.edgeShortlist.refinementEdgesPerPair path →
        ∃ other amount',
          (searcher (registry ['g'])).QuotedRoute
            ((searcher (registry ['g'])).routeProblem request heuristic) other amount' ∧
          amount ≤ amount' ∧
          (searcher (registry ['g'])).Matched request heuristic other := by
  refine ⟨refinementOn ['g'], (AmmSearcher.refinementCovers_iff
    (.fromRegistry 1 (registry ['g']) {}) (refinementOn ['g'])).mp ?_⟩
  intro path amount hroute _
  have hevaluated : ∃ quote ∈ (searcher (registry ['g'])).evaluatedQuotes request heuristic,
      quote.amountOut = 100 := by
    decide +kernel
  obtain ⟨quote, hquote, hamount⟩ := hevaluated
  refine ⟨quote, hquote, Or.inr ?_⟩
  rw [hamount]
  exact le_amountIn_of_yields hroute.yields

/-- The route over the second edge from `2` to `3`. -/
def second : RoutePath :=
  [⟨(TwoPoolExample.pool ['e'] 1 2).key, 1, 2⟩, ⟨(TwoPoolExample.pool ['g'] 2 3).key, 2, 3⟩]

theorem quotedRoute_second : (searcher (registry ['f'])).QuotedRoute
    ((searcher (registry ['f'])).routeProblem request heuristic) second 100 := by
  have hindexed := (@AmmGraph.Built.fromRegistry (SlotGraph Address EdgeData) _ 1
    (registry ['f']) {}).indexed
  have hpairs : ∀ hop ∈ second, ((searcher (registry ['f'])).graph.poolTokens.lookup
      hop.pool).any (fun tokens => hop.tokenIn ∈ tokens ∧ hop.tokenOut ∈ tokens ∧
        hop.tokenIn ≠ hop.tokenOut) = true := by
    decide +kernel
  refine ⟨⟨?_, ⟨rfl, rfl, rfl⟩, by decide, by decide, by decide, by decide, by decide⟩, ?_⟩
  · intro hop hhop
    have hpair := hpairs hop hhop
    cases hlookup : (searcher (registry ['f'])).graph.poolTokens.lookup hop.pool with
    | none =>
        rw [hlookup] at hpair
        cases hpair
    | some tokens =>
        rw [hlookup] at hpair
        exact hindexed.isHop_iff.mpr ⟨tokens, hlookup, by simpa using hpair⟩
  · exact ⟨_, by rfl⟩

/-- The better edge is deferred, and its prefix is not expanded again. -/
theorem not_refinementCovers_first_scarce :
    (searcher (registry ['f'])).graph.Built ∧
      (searcher (registry ['f'])).RefinementOn request heuristic ∧
      ¬ (searcher (registry ['f'])).RefinementCovers request heuristic := by
  refine ⟨.fromRegistry 1 (registry ['f']) {}, refinementOn ['f'], ?_⟩
  intro hcovers
  have hwithin : (searcher (registry ['f'])).WithinShortlist request heuristic
      heuristic.edgeShortlist.refinementEdgesPerPair second := by
    unfold AmmSearcher.WithinShortlist AmmSearcher.Shortlisted
    decide +kernel
  obtain ⟨quote, hquote, hcase⟩ := hcovers second 100 quotedRoute_second hwithin
  have hevaluated : ∀ quote ∈ (searcher (registry ['f'])).evaluatedQuotes request heuristic,
      quote.path ≠ second ∧ quote.amountOut < 100 := by
    decide +kernel
  obtain ⟨hother, hless⟩ := hevaluated quote hquote
  rcases hcase with hsame | hle
  · exact hother hsame
  · exact absurd hle (not_le.mpr hless)

end DeferredEdgeExample

end AmmSearch
