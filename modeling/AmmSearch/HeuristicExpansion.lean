/-
What the expansion of one prefix can do: the hops it is offered, how they are
grouped and ranked, and which of them are quoted and kept.
-/
import AmmSearch.QuotingExact
import AmmSearch.StaticReachability

open FiniteMap StableGraph

namespace AmmSearch

namespace AmmSearcher

variable {G : Type} [StableDiGraph G Address EdgeData] (searcher : AmmSearcher G)
  (context : HeuristicContext)

/-- The amounts along a path of this search. -/
def trace (path : RoutePath) : Except Text (List HopQuote × U256) :=
  (searcher.quoteEnv context.simConfig).traceHops searcher.quoteContext path
    context.amountIn

/-- A frontier state carries the derived data of an open path. -/
structure Sound (state : HeuristicState) : Prop where
  isOpen : context.IsOpen searcher.graph state.path
  node : searcher.graph.nodeIndex (endToken context.tokenIn state.path) =
    some state.node
  visited : state.visitedTokens = visitedOf context.tokenIn state.path
  used : state.usedPools = usedOf state.path
  trace : searcher.trace context state.path = .ok (state.hopQuotes, state.amount)

/-- The hops that the outgoing edges offer to a state. -/
def offeredHops (state : HeuristicState) : List Hop :=
  (searcher.graph.outgoingEdges state.node).filterMap
    (searcher.admissibleHop context state)

/-- The hops that the search may take after an open path. -/
def Offers (path : RoutePath) (hop : Hop) : Prop :=
  context.Closes searcher.graph path hop ∨
    context.Extends searcher.graph path hop ∧
      context.Completes searcher.graph (path ++ [hop])
        (context.config.maxHops - (path.length + 1))

variable {searcher context} {state : HeuristicState}

/-- A validated configuration keeps at least one hop of a group. -/
theorem retainLimit_pos (hvalid : context.heuristic.validate = .ok ())
    (mode : HeuristicPassMode) : 1 ≤ retainLimit context mode := by
  unfold retainLimit HeuristicPassMode.edgeLimit
  cases henabled : context.heuristic.edgeShortlist.enabled with
  | false => exact HeuristicSearchConfig.parallelEdges_of_validate hvalid
  | true =>
      obtain ⟨hinitial, hrefinement⟩ := HeuristicSearchConfig.edges_of_validate hvalid henabled
      cases mode with
      | initial => exact hinitial
      | refinement => exact hrefinement

theorem sound_rootState (hresolved : context.Resolved searcher.graph) :
    searcher.Sound context context.rootState where
  isOpen := HeuristicContext.isOpen_nil
  node := hresolved.source
  visited := rfl
  used := rfl
  trace := rfl

theorem Sound.eq_of_path_eq {left right : HeuristicState}
    (hleft : searcher.Sound context left) (hright : searcher.Sound context right)
    (hpath : left.path = right.path) : left = right := by
  obtain ⟨_, hnode, hvisited, hused, htrace⟩ := hleft
  obtain ⟨_, hnode', hvisited', hused', htrace'⟩ := hright
  obtain ⟨leftNode, leftPath, leftQuotes, leftAmount, leftVisited, leftUsed⟩ := left
  obtain ⟨rightNode, rightPath, rightQuotes, rightAmount, rightVisited, rightUsed⟩ :=
    right
  simp only at hpath hnode hvisited hused htrace hnode' hvisited' hused' htrace'
  subst hpath
  have hamounts := htrace.symm.trans htrace'
  simp only [Except.ok.injEq, Prod.mk.injEq] at hamounts
  rw [hvisited, hused, hvisited', hused', hamounts.1, hamounts.2,
    Option.some.inj (hnode.symm.trans hnode')]

section Offered

omit [StableDiGraph G Address EdgeData] in
theorem admissibleHop_of_edge {edge : CachedOutgoingEdge} {hop : Hop}
    (hhop : searcher.admissibleHop context state edge = some hop) :
    hop = AmmGraph.edgeHop edge ∧ edge.pool ∉ state.usedPools ∧
      context.admits state.visitedTokens edge = true ∧
      (edge.target ≠ context.target →
        searcher.hasStaticRouteToTarget context edge.target
          (insert edge.tokenOut state.visitedTokens)
          (insert edge.pool state.usedPools)
          (context.config.maxHops - (state.path.length + 1)) = true) := by
  simp only [admissibleHop] at hhop
  split_ifs at hhop with hpool hadmits hstatic
  refine ⟨(Option.some.inj hhop).symm, hpool, by simpa using hadmits, ?_⟩
  intro htarget
  by_contra hno
  exact hstatic ⟨htarget, Or.inr (by simpa using hno)⟩

omit [StableDiGraph G Address EdgeData] in
theorem admissibleHop_eq_some {edge : CachedOutgoingEdge}
    (hpool : edge.pool ∉ state.usedPools)
    (hadmits : context.admits state.visitedTokens edge = true)
    (hstatic : edge.target ≠ context.target →
      context.config.maxHops - (state.path.length + 1) ≠ 0 ∧
      searcher.hasStaticRouteToTarget context edge.target
        (insert edge.tokenOut state.visitedTokens) (insert edge.pool state.usedPools)
        (context.config.maxHops - (state.path.length + 1)) = true) :
    searcher.admissibleHop context state edge = some (AmmGraph.edgeHop edge) := by
  unfold admissibleHop
  rw [if_neg hpool, if_neg (by simp [hadmits]), if_neg]
  · rfl
  · rintro ⟨htarget, hzero | hno⟩
    · exact (hstatic htarget).1 hzero
    · simp [(hstatic htarget).2] at hno

/-- The offered hops are the closings and the extensions that the static
search can still complete. -/
theorem mem_offeredHops (hresolved : context.Resolved searcher.graph)
    (hstate : searcher.Sound context state) (hop : Hop) :
    hop ∈ searcher.offeredHops context state ↔
      searcher.Offers context state.path hop := by
  have hstatic : ∀ edge : CachedOutgoingEdge,
      context.Extends searcher.graph state.path (AmmGraph.edgeHop edge) →
      searcher.graph.nodeIndex edge.tokenOut = some edge.target →
      edge.target ≠ context.target →
      (searcher.hasStaticRouteToTarget context edge.target
        (insert edge.tokenOut state.visitedTokens) (insert edge.pool state.usedPools)
        (context.config.maxHops - (state.path.length + 1)) = true ↔
          context.Completes searcher.graph (state.path ++ [AmmGraph.edgeHop edge])
            (context.config.maxHops - (state.path.length + 1))) := by
    intro edge hextends hout htarget
    rw [← hasStaticRouteToTarget_iff hresolved
      (HeuristicContext.isOpen_append_singleton.mpr ⟨hstate.isOpen, hextends⟩)
      (by simpa [AmmGraph.edgeHop] using hout) htarget,
      visitedOf_append_singleton, usedOf_append_singleton, hstate.visited, hstate.used]
    rfl
  unfold offeredHops
  rw [List.mem_filterMap]
  constructor
  · rintro ⟨edge, hedge, hhop⟩
    obtain ⟨rfl, hpool, hadmits, hroute⟩ := admissibleHop_of_edge hhop
    rw [hstate.used] at hpool
    rw [hstate.visited] at hadmits
    by_cases htarget : edge.target = context.target
    · exact Or.inl (HeuristicContext.closes_of_admitted hresolved hstate.isOpen
        hstate.node hedge hpool hadmits htarget)
    · obtain ⟨hextends, hout⟩ := HeuristicContext.extends_of_admitted hresolved
        hstate.isOpen hstate.node hedge hpool hadmits htarget
      exact Or.inr ⟨hextends, (hstatic edge hextends hout htarget).mp (hroute htarget)⟩
  · intro hoffers
    have hcase : context.Closes searcher.graph state.path hop ∨
        context.Extends searcher.graph state.path hop := by
      rcases hoffers with hcloses | hextends
      · exact Or.inl hcloses
      · exact Or.inr hextends.1
    obtain ⟨edge, hedge, hpool, hadmits, rfl⟩ :=
      (HeuristicContext.outgoing_admitted_iff hresolved hstate.isOpen hstate.node
        hop).mpr hcase
    obtain ⟨_, hout, _⟩ :=
      (hresolved.indexed.mem_outgoingEdges hstate.node edge).mp hedge
    refine ⟨edge, hedge, admissibleHop_eq_some (by rwa [hstate.used])
      (by rwa [hstate.visited]) ?_⟩
    intro htarget
    rcases hoffers with hcloses | ⟨hextends, hcompletes⟩
    · exact absurd ((AmmGraph.target_eq_iff hresolved.indexed hout
        hresolved.target).mpr hcloses.2.1) htarget
    · refine ⟨?_, (hstatic edge hextends hout htarget).mpr hcompletes⟩
      intro hzero
      rw [hzero] at hcompletes
      exact HeuristicContext.not_completes_zero hcompletes

theorem nodup_offeredHops (hindexed : searcher.graph.Indexed)
    (state : HeuristicState) : (searcher.offeredHops context state).Nodup := by
  refine AmmGraph.nodup_filterMap_outgoingEdges hindexed state.node ?_
  intro left right hop hleft hright
  have heq := (admissibleHop_of_edge hleft).1.symm.trans (admissibleHop_of_edge hright).1
  simp only [AmmGraph.edgeHop, Hop.mk.injEq] at heq
  rw [heq.1, heq.2.2]

end Offered

section Ranking

theorem perm_sortedHeuristicHopGroups (mode : HeuristicPassMode) (path : RoutePath)
    (grouped : List (Address × List Hop)) (target : NodeIndex)
    (connectorTokens : Option (Finset Address)) (heuristic : HeuristicSearchConfig)
    (config : LiquidityPruningConfig) :
    (searcher.sortedHeuristicHopGroups mode path grouped target connectorTokens
      heuristic config).Perm (grouped.map fun entry =>
        (searcher.scoreGroup target connectorTokens config entry.1 entry.2).group) := by
  simp only [sortedHeuristicHopGroups]
  split
  · refine ((List.perm_insertionSort _ _).map _).trans ?_
    rw [List.map_map]
    rfl
  · refine (searcher.groupOrder_perm _ _ _).trans ?_
    rw [List.map_map]
    rfl

/-- The groups of a state partition its offered hops by next token. -/
theorem mem_groupHeuristicHops (mode : HeuristicPassMode) (state : HeuristicState)
    (group : HeuristicHopGroup) :
    group ∈ searcher.groupHeuristicHops context mode state ↔
      group.nextToken ∈ (searcher.offeredHops context state).map Hop.tokenOut ∧
        group.hops = (searcher.offeredHops context state).filter
          (fun hop => hop.tokenOut = group.nextToken) ∧
        group.closesTarget = decide (searcher.graph.nodeIndex group.nextToken =
          some context.target) := by
  have hperm := searcher.perm_sortedHeuristicHopGroups mode state.path
    (((searcher.offeredHops context state).map Hop.tokenOut).dedup.map fun token =>
      (token, (searcher.offeredHops context state).filter
        fun hop => hop.tokenOut = token))
    context.target context.connectorTokens context.heuristic
    context.config.liquidityPruning
  have hmem : group ∈ searcher.groupHeuristicHops context mode state ↔ _ :=
    hperm.mem_iff
  rw [hmem, List.map_map, List.mem_map]
  simp only [List.mem_dedup, Function.comp, scoreGroup]
  constructor
  · rintro ⟨token, htoken, rfl⟩
    exact ⟨htoken, rfl, rfl⟩
  · rintro ⟨htoken, hhops, hcloses⟩
    refine ⟨group.nextToken, htoken, ?_⟩
    obtain ⟨nextToken, hops, closesTarget⟩ := group
    simp only at hhops hcloses
    rw [hhops, hcloses]

omit [StableDiGraph G Address EdgeData] in
/-- Ranking only reorders the hops. -/
theorem perm_liquidityRankedHops (hops : List Hop)
    (shortlist : AdaptiveEdgeShortlistConfig) (config : LiquidityPruningConfig) :
    ((searcher.liquidityRankedHops hops shortlist config).map
      LiquidityRankedHop.hop).Perm hops := by
  have hmap : ∀ active ordering, (hops.map (searcher.rankHop active ordering)).map
      LiquidityRankedHop.hop = hops := by
    intro active ordering
    rw [List.map_map]
    exact List.map_id'' (fun hop => rfl) hops
  simp only [liquidityRankedHops]
  split
  · refine ((List.perm_insertionSort _ _).map _).trans ?_
    rw [hmap]
  · rw [hmap]

theorem shortlistedRankedHops_sublist (mode : HeuristicPassMode)
    (ranked : List LiquidityRankedHop) :
    List.Sublist (shortlistedRankedHops context mode ranked) ranked := by
  unfold shortlistedRankedHops
  split
  · exact List.Sublist.refl _
  · exact List.take_sublist _ _

omit [StableDiGraph G Address EdgeData] in
/-- The quoted hops of a group come from its ranked hops. -/
theorem mem_quoted_foldl {closesTarget : Bool} (ranked : List LiquidityRankedHop)
    (quotes : GroupQuotes) {quoted : QuotedHeuristicHop}
    (hmem : quoted ∈ (ranked.foldl
      (searcher.quoteRankedHop context state closesTarget) quotes).quoted) :
    quoted ∈ quotes.quoted ∨
      quoted.hop ∈ ranked.map LiquidityRankedHop.hop ∧
        searcher.quoteHop context quoted.hop state.amount = .ok quoted.amountOut := by
  induction ranked generalizing quotes with
  | nil => exact Or.inl hmem
  | cons head rest ih =>
      rw [List.foldl_cons] at hmem
      rcases ih _ hmem with hold | ⟨hhop, hquote⟩
      · unfold quoteRankedHop at hold
        split at hold
        · exact Or.inl hold
        · split at hold
          · rename_i amountOut hquote
            rcases List.mem_append.mp hold with hold | hnew
            · exact Or.inl hold
            · obtain rfl := List.mem_singleton.mp hnew
              exact Or.inr ⟨List.mem_cons_self, hquote⟩
          · exact Or.inl hold
      · exact Or.inr ⟨List.mem_cons_of_mem _ hhop, hquote⟩

omit [StableDiGraph G Address EdgeData] in
/-- A ranked hop gives at most one quoted hop. -/
theorem length_quoted_foldl_le {closesTarget : Bool} (ranked : List LiquidityRankedHop)
    (quotes : GroupQuotes) :
    (ranked.foldl (searcher.quoteRankedHop context state closesTarget) quotes).quoted.length ≤
      quotes.quoted.length + ranked.length := by
  induction ranked generalizing quotes with
  | nil => exact le_rfl
  | cons head rest ih =>
      have hstep : (searcher.quoteRankedHop context state closesTarget quotes
          head).quoted.length ≤ quotes.quoted.length + 1 := by
        unfold quoteRankedHop
        split
        · exact Nat.le_succ _
        · split
          · simp
          · exact Nat.le_succ _
      rw [List.foldl_cons, List.length_cons]
      exact (ih _).trans (by omega)

/-- The quoted hops that a group hands to the next level. -/
def keptQuotes (searcher : AmmSearcher G) (context : HeuristicContext)
    (mode : HeuristicPassMode) (state : HeuristicState) (group : HeuristicHopGroup) :
    List QuotedHeuristicHop :=
  retainQuoted context mode ((shortlistedRankedHops context mode
    (searcher.liquidityRankedHops group.hops context.heuristic.edgeShortlist
      context.config.liquidityPruning)).foldl
        (searcher.quoteRankedHop context state group.closesTarget) {}).quoted

theorem mem_retainQuoted {mode : HeuristicPassMode}
    {quotes : List QuotedHeuristicHop} {quoted : QuotedHeuristicHop}
    (hmem : quoted ∈ retainQuoted context mode quotes) : quoted ∈ quotes :=
  (List.perm_insertionSort _ _).mem_iff.mp (List.mem_of_mem_take hmem)

/-- A kept hop was offered to the state and quoted at its amount. -/
theorem offered_of_mem_keptQuotes {mode : HeuristicPassMode}
    {group : HeuristicHopGroup} {quoted : QuotedHeuristicHop}
    (hgroup : group ∈ searcher.groupHeuristicHops context mode state)
    (hmem : quoted ∈ searcher.keptQuotes context mode state group) :
    quoted.hop ∈ searcher.offeredHops context state ∧
      quoted.hop.tokenOut = group.nextToken ∧
      searcher.quoteHop context quoted.hop state.amount = .ok quoted.amountOut := by
  obtain ⟨_, hhops, _⟩ := (mem_groupHeuristicHops mode state group).mp hgroup
  rcases mem_quoted_foldl _ _ (mem_retainQuoted hmem) with hnone | ⟨hranked, hquote⟩
  · cases hnone
  · have hhop := (searcher.perm_liquidityRankedHops _ _ _).mem_iff.mp
      (((shortlistedRankedHops_sublist mode _).map _).mem hranked)
    rw [hhops, List.mem_filter, decide_eq_true_iff] at hhop
    exact ⟨hhop.1, hhop.2, hquote⟩

end Ranking

section Next

variable {quoted : QuotedHeuristicHop}

omit [StableDiGraph G Address EdgeData] in
theorem trace_append_singleton {path : RoutePath} {hop : Hop}
    {hopQuotes : List HopQuote} {amount : U256}
    (htrace : searcher.trace context path = .ok (hopQuotes, amount)) :
    searcher.trace context (path ++ [hop]) =
      match searcher.quoteHop context hop amount with
      | .error reason => .error reason
      | .ok amountOut => .ok (hopQuotes ++ [⟨hop, amount, amountOut⟩], amountOut) := by
  unfold trace at htrace ⊢
  rw [QuoteEnv.traceHops_append_singleton, htrace]
  rfl

/-- The next state of a sound state is sound when its hop extends the path. -/
theorem Sound.nextState (hstate : searcher.Sound context state) {node : NodeIndex}
    (hextends : context.Extends searcher.graph state.path quoted.hop)
    (hquote : searcher.quoteHop context quoted.hop state.amount = .ok quoted.amountOut)
    (hnode : searcher.graph.nodeIndex quoted.hop.tokenOut = some node) :
    searcher.Sound context (AmmSearcher.nextState state node quoted) where
  isOpen := HeuristicContext.isOpen_append_singleton.mpr ⟨hstate.isOpen, hextends⟩
  node := by simpa [AmmSearcher.nextState] using hnode
  visited := by
    simp only [AmmSearcher.nextState]
    rw [hstate.visited, visitedOf_append_singleton]
  used := by
    simp only [AmmSearcher.nextState]
    rw [hstate.used, usedOf_append_singleton]
  trace := by
    simp only [AmmSearcher.nextState]
    rw [trace_append_singleton hstate.trace, hquote]

end Next

end AmmSearcher

end AmmSearch
