/-
Balance-dominated pruning and the limit of parallel edges over two-token pools.  A hop is
left out when another hop of its group pays at least as much; over two-token pools the other
hop is open to every continuation, so the best amount depends on neither switch.
-/
import AmmSearch.HeuristicDominance
import AmmSearch.UpperBoundPruning

open FiniteMap StableGraph BranchAndBound Relation

namespace AmmSearch

namespace AmmSearcher

variable {G : Type} {searcher : AmmSearcher G} {context other : HeuristicContext}
  {mode : HeuristicPassMode} {state better next : HeuristicState} {amount : U256}
  {quoted : QuotedHeuristicHop}

section Group

/-- The best output of a group is that of one of its quoted hops. -/
def BestQuoted (quotes : GroupQuotes) : Prop :=
  ∀ best, quotes.bestQuotedOutput = some best →
    ∃ quoted ∈ quotes.quoted, quoted.amountOut = best

/-- One ranked hop adds at most its own quote. -/
theorem bestQuoted_quoteRankedHop {closesTarget : Bool} {quotes : GroupQuotes}
    (hbest : BestQuoted quotes) (ranked : LiquidityRankedHop) :
    BestQuoted (searcher.quoteRankedHop context state closesTarget quotes ranked) ∧
      ∀ quoted ∈ quotes.quoted,
        quoted ∈ (searcher.quoteRankedHop context state closesTarget quotes ranked).quoted := by
  unfold quoteRankedHop
  split
  · exact ⟨hbest, fun _ hquoted => hquoted⟩
  · split
    · rename_i amountOut _
      refine ⟨fun best hraised => ?_, fun _ hquoted => List.mem_append_left _ hquoted⟩
      obtain ⟨raised, hsome, _, _, hchoice⟩ :=
        raiseIncumbent_spec quotes.bestQuotedOutput amountOut
      obtain rfl := Option.some.inj (hsome.symm.trans hraised)
      rcases hchoice with rfl | hold
      · exact ⟨_, List.mem_append_right _ (List.mem_singleton_self _), rfl⟩
      · obtain ⟨quoted, hquoted, hamount⟩ := hbest raised hold
        exact ⟨quoted, List.mem_append_left _ hquoted, hamount⟩
    · exact ⟨hbest, fun _ hquoted => hquoted⟩

theorem mem_quoted_of_mem {closesTarget : Bool} (ranked : List LiquidityRankedHop)
    {quotes : GroupQuotes} (hbest : BestQuoted quotes) (hquoted : quoted ∈ quotes.quoted) :
    quoted ∈ (ranked.foldl
      (searcher.quoteRankedHop context state closesTarget) quotes).quoted := by
  induction ranked generalizing quotes with
  | nil => exact hquoted
  | cons head rest ih =>
      obtain ⟨hnext, hkept⟩ :=
        @bestQuoted_quoteRankedHop G searcher context state closesTarget quotes hbest head
      exact ih hnext (hkept quoted hquoted)

/-- A hop whose balance bounds it is quoted, or a hop before it pays at least as much. -/
theorem exists_quoted_ge {closesTarget : Bool} (ranked : List LiquidityRankedHop)
    {quotes : GroupQuotes} (hbest : BestQuoted quotes) {hop : LiquidityRankedHop}
    (hmem : hop ∈ ranked)
    (hquote : searcher.quoteHop context hop.hop state.amount = .ok amount)
    (hbound : ∀ balance, hop.outputBalance.fresh? = some balance → amount ≤ balance) :
    ∃ quoted ∈ (ranked.foldl
        (searcher.quoteRankedHop context state closesTarget) quotes).quoted,
      amount ≤ quoted.amountOut := by
  induction ranked generalizing quotes with
  | nil => cases hmem
  | cons head rest ih =>
      have hnext := (@bestQuoted_quoteRankedHop G searcher context state closesTarget quotes
        hbest head).1
      rcases List.mem_cons.mp hmem with rfl | hlater
      · have hstep : ∃ quoted ∈ (searcher.quoteRankedHop context state closesTarget quotes
            hop).quoted, amount ≤ quoted.amountOut := by
          unfold quoteRankedHop
          split
          · rename_i hpruned
            unfold shouldPruneLiquidityHop at hpruned
            simp only at hpruned
            split at hpruned
            · cases hpruned
            · split at hpruned
              · rename_i best balance hquoted hfresh
                obtain ⟨quoted, hmember, rfl⟩ := hbest best hquoted
                have hle : balance ≤ quoted.amountOut := by
                  simpa using (Bool.and_eq_true_iff.mp hpruned).2
                exact ⟨quoted, hmember, (hbound balance hfresh).trans hle⟩
              · cases hpruned
          · rw [hquote]
            exact ⟨_, List.mem_append_right _ (List.mem_singleton_self _), le_rfl⟩
        obtain ⟨quoted, hmember, hle⟩ := hstep
        exact ⟨quoted, mem_quoted_of_mem rest hnext hmember, hle⟩
      · exact ih hnext hlater

/-- A limit that keeps a hop keeps the best one. -/
theorem exists_retained_ge (hlimit : 0 < retainLimit context mode)
    {quotes : List QuotedHeuristicHop} (hquoted : quoted ∈ quotes) :
    ∃ kept ∈ retainQuoted context mode quotes, quoted.amountOut ≤ kept.amountOut := by
  unfold retainQuoted
  have hmem := (List.perm_insertionSort
    (fun left right : QuotedHeuristicHop => right.amountOut ≤ left.amountOut) quotes).mem_iff.mpr
      hquoted
  have hsorted := List.pairwise_insertionSort
    (fun left right : QuotedHeuristicHop => right.amountOut ≤ left.amountOut) quotes
  cases hsort : quotes.insertionSort
      (fun left right : QuotedHeuristicHop => right.amountOut ≤ left.amountOut) with
  | nil =>
      rw [hsort] at hmem
      cases hmem
  | cons first rest =>
      rw [hsort] at hmem hsorted
      refine ⟨first, ?_, ?_⟩
      · obtain ⟨limit, hsucc⟩ := Nat.exists_eq_succ_of_ne_zero hlimit.ne'
        rw [hsucc]
        exact List.mem_cons_self
      · rcases List.mem_cons.mp hmem with rfl | hlater
        · exact le_rfl
        · exact (List.pairwise_cons.mp hsorted).1 quoted hlater

/-- The output balance of a ranked hop is that of its pool. -/
theorem fresh_of_mem_liquidityRankedHops {hops : List Hop}
    {shortlist : AdaptiveEdgeShortlistConfig} {config : LiquidityPruningConfig}
    {ranked : LiquidityRankedHop} (hranked : ranked ∈ searcher.liquidityRankedHops hops
      shortlist config) {balance : U256} (hfresh : ranked.outputBalance.fresh? = some balance) :
    ∃ index, searcher.liquidityIndex = some index ∧
      (index.balanceState ranked.hop.pool ranked.hop.tokenOut).fresh? = some balance := by
  obtain ⟨active, ordering, hop, rfl⟩ : ∃ active ordering hop,
      ranked = searcher.rankHop active ordering hop := by
    simp only [liquidityRankedHops] at hranked
    split at hranked
    · obtain ⟨hop, -, rfl⟩ :=
        List.mem_map.mp ((List.perm_insertionSort _ _).mem_iff.mp hranked)
      exact ⟨_, _, hop, rfl⟩
    · obtain ⟨hop, -, rfl⟩ := List.mem_map.mp hranked
      exact ⟨_, _, hop, rfl⟩
  simp only [rankHop] at hfresh ⊢
  split at hfresh
  · rename_i index hindex
    split at hfresh
    · exact ⟨index, hindex, hfresh⟩
    · cases hfresh
  · cases hfresh

end Group

/-- Two searches that offer, rank and quote the same hops; they may keep others of them. -/
structure SameRanking (context other : HeuristicContext) : Prop
    extends context.SameRoutes other where
  minHops : context.config.minHops = other.config.minHops
  simConfig : context.simConfig = other.simConfig
  shortlist : context.heuristic.edgeShortlist = other.heuristic.edgeShortlist
  enabled : context.config.liquidityPruning.enabled = other.config.liquidityPruning.enabled
  order : context.config.liquidityPruning.orderByOutputBalance =
    other.config.liquidityPruning.orderByOutputBalance

theorem SameRanking.shortlisted (hsame : SameRanking context other) (hops : List Hop) :
    shortlistedRankedHops other mode (searcher.liquidityRankedHops hops
        other.heuristic.edgeShortlist other.config.liquidityPruning) =
      shortlistedRankedHops context mode (searcher.liquidityRankedHops hops
        context.heuristic.edgeShortlist context.config.liquidityPruning) := by
  unfold shortlistedRankedHops liquidityRankedHops HeuristicPassMode.edgeLimit
  simp only [hsame.shortlist, hsame.enabled, hsame.order]

section Rivals

variable [StableDiGraph G Address EdgeData]

/-- A prefix with the tokens of another one and at least its amount. -/
structure Rivals (searcher : AmmSearcher G) (context : HeuristicContext)
    (state better : HeuristicState) : Prop where
  sound : searcher.Sound context state
  sound_better : searcher.Sound context better
  node : better.node = state.node
  visited : better.visitedTokens = state.visitedTokens
  amount : state.amount ≤ better.amount

variable (htwo : searcher.graph.TwoToken) (hresolved : context.Resolved searcher.graph)
  (hne : context.tokenIn ≠ context.tokenOut)

include hresolved in
theorem Rivals.replaces (hrivals : searcher.Rivals context state better) :
    context.Replaces searcher.graph better.path state.path ∧
      context.Replaces searcher.graph state.path better.path := by
  have htoken : endToken context.tokenIn better.path = endToken context.tokenIn state.path :=
    AmmGraph.nodeIndex_inj hresolved.indexed
      (hrivals.sound_better.node.trans (congrArg some hrivals.node)) hrivals.sound.node
  have hvisited : visitedOf context.tokenIn better.path = visitedOf context.tokenIn state.path := by
    rw [← hrivals.sound_better.visited, hrivals.visited, hrivals.sound.visited]
  exact ⟨⟨hrivals.sound_better.isOpen, hrivals.sound.isOpen, htoken, hvisited.subset⟩,
    ⟨hrivals.sound.isOpen, hrivals.sound_better.isOpen, htoken.symm, hvisited.symm.subset⟩⟩

include htwo hresolved hne in
/-- Rivals are offered the same hops, edge by edge. -/
theorem Rivals.offeredHops_eq (hrivals : searcher.Rivals context state better) :
    searcher.offeredHops context better = searcher.offeredHops context state := by
  obtain ⟨hreplaces, hreplaced⟩ := hrivals.replaces hresolved
  have hoffers : ∀ hop, hop ∈ searcher.offeredHops context better ↔
      hop ∈ searcher.offeredHops context state := by
    intro hop
    rw [mem_offeredHops hresolved hrivals.sound_better, mem_offeredHops hresolved hrivals.sound]
    exact ⟨Offers.replace htwo hresolved hne hreplaced,
      Offers.replace htwo hresolved hne hreplaces⟩
  -- the hop of an outgoing edge names the edge
  have hedges : ∀ left ∈ searcher.graph.outgoingEdges state.node,
      ∀ right ∈ searcher.graph.outgoingEdges state.node,
        AmmGraph.edgeHop left = AmmGraph.edgeHop right → left = right := by
    intro left hleft right hright hhop
    have hleftTarget := ((hresolved.indexed.mem_outgoingEdges hrivals.sound.node left).mp
      hleft).2.1
    have hrightTarget := ((hresolved.indexed.mem_outgoingEdges hrivals.sound.node right).mp
      hright).2.1
    cases left
    cases right
    simp only [AmmGraph.edgeHop, Hop.mk.injEq] at hhop hleftTarget hrightTarget
    obtain ⟨rfl, rfl, rfl⟩ := hhop
    rw [Option.some.inj (hleftTarget.symm.trans hrightTarget)]
  have hmoves : ∀ first second : HeuristicState, first.node = state.node →
      second.node = state.node →
      (∀ hop, hop ∈ searcher.offeredHops context first →
        hop ∈ searcher.offeredHops context second) →
      ∀ edge ∈ searcher.graph.outgoingEdges state.node, ∀ hop,
        searcher.admissibleHop context first edge = some hop →
          searcher.admissibleHop context second edge = some hop := by
    intro first second hfirst hsecond hsub edge hedge hop hhop
    obtain ⟨twin, htwin, hoffered⟩ := List.mem_filterMap.mp
      (hsub hop (List.mem_filterMap.mpr ⟨edge, hfirst ▸ hedge, hhop⟩))
    rw [hedges edge hedge twin (hsecond ▸ htwin) ((admissibleHop_of_edge hhop).1.symm.trans
      (admissibleHop_of_edge hoffered).1)]
    exact hoffered
  unfold offeredHops
  rw [hrivals.node]
  refine List.filterMap_congr fun edge hedge => Option.ext fun hop => ?_
  exact ⟨hmoves better state hrivals.node rfl (fun hop => (hoffers hop).mp) edge hedge hop,
    hmoves state better rfl hrivals.node (fun hop => (hoffers hop).mpr) edge hedge hop⟩

include hresolved in
/-- A kept hop that does not reach the target leads to a sound prefix. -/
theorem Sound.nextState_of_retains (hsame : SameRanking context other)
    (hstate : searcher.Sound context state) (hretains : searcher.Retains other mode state quoted)
    {node : NodeIndex} (hnode : searcher.graph.nodeIndex quoted.hop.tokenOut = some node)
    (hopen : node ≠ context.target) :
    searcher.Sound context (AmmSearcher.nextState state node quoted) := by
  obtain ⟨group, hgroup, hkept⟩ := hretains
  obtain ⟨hoffered, -, hquote⟩ := offered_of_mem_keptQuotes hgroup hkept
  have hsameQuote : searcher.quoteHop context quoted.hop state.amount = .ok quoted.amountOut := by
    unfold quoteHop at hquote ⊢
    rw [hsame.simConfig]
    exact hquote
  rw [offeredHops, ← admissibleHop_congr hsame.toSameRoutes] at hoffered
  rcases (mem_offeredHops hresolved hstate quoted.hop).mp hoffered with
    hcloses | ⟨hextends, -⟩
  · rw [hcloses.2.1, hresolved.target] at hnode
    exact absurd (Option.some.inj hnode).symm hopen
  · exact hstate.nextState hextends hsameQuote hnode

omit [StableDiGraph G Address EdgeData] in
theorem SameRanking.refl (context : HeuristicContext) : SameRanking context context :=
  ⟨⟨rfl, rfl, rfl, rfl, rfl, rfl, rfl⟩, rfl, rfl, rfl, rfl, rfl⟩

variable (hmono : searcher.MonotoneQuotes context.simConfig)
  (hbalances : ∀ token, searcher.BalancesBound context.simConfig token)
  (hsame : SameRanking context other) (hlimit : 0 < retainLimit other mode)

include htwo hresolved hne hmono hbalances hsame hlimit

/-- What a prefix keeps, a rival keeps or keeps something better, to the same token. -/
theorem Rivals.retains (hrivals : searcher.Rivals context state better)
    (hretains : searcher.Retains context mode state quoted) :
    ∃ later, searcher.Retains other mode better later ∧
      later.hop.tokenOut = quoted.hop.tokenOut ∧ quoted.amountOut ≤ later.amountOut := by
  obtain ⟨group, hgroup, hkept⟩ := hretains
  obtain ⟨hoffered, htoken, hquote⟩ := offered_of_mem_keptQuotes hgroup hkept
  have hothers : searcher.offeredHops other better = searcher.offeredHops context state := by
    rw [← hrivals.offeredHops_eq htwo hresolved hne]
    unfold offeredHops
    rw [admissibleHop_congr hsame.toSameRoutes]
  have hgroup' : group ∈ searcher.groupHeuristicHops other mode better := by
    rw [mem_groupHeuristicHops] at hgroup ⊢
    rw [hothers, ← hsame.target]
    exact hgroup
  -- the quoted hop, at the larger amount
  obtain ⟨larger, hlarger, hle⟩ := quoteHop_mono hmono
    (((mem_offeredHops hresolved hrivals.sound quoted.hop).mp hoffered).isHop) hrivals.amount
    hquote
  have hranked : quoted.hop ∈ (shortlistedRankedHops context mode
      (searcher.liquidityRankedHops group.hops context.heuristic.edgeShortlist
        context.config.liquidityPruning)).map LiquidityRankedHop.hop := by
    rcases mem_quoted_foldl _ _ (mem_retainQuoted hkept) with hnone | ⟨hmem, -⟩
    · cases hnone
    · exact hmem
  obtain ⟨ranked, hmember, hhop⟩ := List.mem_map.mp hranked
  have hbound : ∀ balance, ranked.outputBalance.fresh? = some balance → larger ≤ balance := by
    intro balance hfresh
    obtain ⟨index, hindex, hbalance⟩ := fresh_of_mem_liquidityRankedHops
      ((shortlistedRankedHops_sublist mode _).mem hmember) hfresh
    rw [hhop] at hbalance
    exact hbalances quoted.hop.tokenOut index hindex _ balance hbalance quoted.hop rfl rfl
      better.amount larger hlarger
  have hlargerOther : searcher.quoteHop other ranked.hop better.amount = .ok larger := by
    rw [hhop]
    unfold quoteHop at hlarger ⊢
    rw [← hsame.simConfig]
    exact hlarger
  rw [← hsame.shortlisted] at hmember
  obtain ⟨best, hbest, hbestLe⟩ := @exists_quoted_ge G searcher other better larger
    group.closesTarget _ {} (fun best hnone => by cases hnone) ranked hmember hlargerOther hbound
  obtain ⟨later, hlater, hlaterLe⟩ := exists_retained_ge hlimit hbest
  refine ⟨later, ⟨group, hgroup', hlater⟩, ?_, hle.trans (hbestLe.trans hlaterLe)⟩
  rw [(offered_of_mem_keptQuotes hgroup' hlater).2.1, htoken]

/-- A rival offers at least what the prefix offers. -/
theorem Rivals.below (hrivals : searcher.Rivals context state better)
    (hbelow : (searcher.passTree context mode).Below state amount) :
    ∃ best, (searcher.passTree other mode).Below better best ∧ amount ≤ best := by
  refine Tree.Below.rivalled ?_ ?_ hrivals hbelow
  · rintro state better _ hrivals ⟨quoted, node, hretains, hnode, hopen, hroom, rfl⟩
    obtain ⟨later, hlater, htoken, hle⟩ :=
      hrivals.retains htwo hresolved hne hmono hbalances hsame hlimit hretains
    obtain ⟨hreplaces, hreplaced⟩ := hrivals.replaces hresolved
    have hlength := Nat.le_antisymm hreplaces.length_le hreplaced.length_le
    have hlaterNode : searcher.graph.nodeIndex later.hop.tokenOut = some node := by
      rw [htoken]
      exact hnode
    refine ⟨AmmSearcher.nextState better node later,
      ⟨later, node, hlater, hlaterNode, hsame.target ▸ hopen, ?_, rfl⟩, ?_⟩
    · rw [hlength, ← hsame.maxHops]
      exact hroom
    · refine ⟨hrivals.sound.nextState_of_retains hresolved (.refl context) hretains hnode hopen,
        hrivals.sound_better.nextState_of_retains hresolved hsame hlater hlaterNode hopen, rfl,
        ?_, hle⟩
      simp only [AmmSearcher.nextState]
      rw [htoken, hrivals.visited]
  · rintro state better _ hrivals ⟨quoted, hretains, hnode, hmin, rfl⟩
    obtain ⟨later, hlater, htoken, hle⟩ :=
      hrivals.retains htwo hresolved hne hmono hbalances hsame hlimit hretains
    obtain ⟨hreplaces, hreplaced⟩ := hrivals.replaces hresolved
    have hlength := Nat.le_antisymm hreplaces.length_le hreplaced.length_le
    refine ⟨later.amountOut, ⟨later, hlater, ?_, ?_, rfl⟩, hle⟩
    · rw [htoken, ← hsame.target]
      exact hnode
    · rw [hlength, ← hsame.minHops]
      exact hmin

end Rivals

end AmmSearcher

/-- The request in heuristic mode with a limit of parallel edges, and with balance-dominated
pruning switched on or off. -/
def RouteRequest.withBranching (request : RouteRequest) (heuristic : HeuristicSearchConfig)
    (limit : ℕ) (prune : Bool) : RouteRequest :=
  { request with
    config :=
      { request.config with
        liquidityPruning := { request.config.liquidityPruning with pruneBalanceDominated := prune }
        mode := .heuristic { heuristic with parallelEdgeLimit := limit } } }

namespace AmmSearcher

section Requests

variable {G : Type} [StableDiGraph G Address EdgeData] {searcher : AmmSearcher G}
  {request : RouteRequest} {heuristic : HeuristicSearchConfig} {amount : U256}
  {limit limit' : ℕ} {prune prune' : Bool} {source target : NodeIndex}

/-- The context of the search with the given limit and switch. -/
def branchingContext (searcher : AmmSearcher G) (request : RouteRequest)
    (heuristic : HeuristicSearchConfig) (limit : ℕ) (prune : Bool) (source target : NodeIndex) :
    HeuristicContext :=
  searcher.requestContext (request.withBranching heuristic limit prune)
    { heuristic with parallelEdgeLimit := limit } source target

/-- What one search can obtain, the other one can match. -/
theorem matched_branching (htwo : searcher.graph.TwoToken)
    (hindexed : searcher.graph.Indexed) (hne : request.tokenIn ≠ request.tokenOut)
    (hmono : searcher.MonotoneQuotes request.simConfig)
    (hbalances : ∀ token, searcher.BalancesBound request.simConfig token)
    (hvalid : (request.withBranching heuristic limit' prune').config.validate = .ok ())
    (hsource : searcher.graph.nodeIndex request.tokenIn = some source)
    (htarget : searcher.graph.nodeIndex request.tokenOut = some target)
    (hobtainable : searcher.Obtainable
      (searcher.branchingContext request heuristic limit prune source target) amount) :
    Tree.Matched (searcher.Obtainable
      (searcher.branchingContext request heuristic limit' prune' source target)) amount := by
  rcases hobtainable with ⟨hpath, htrace⟩ | ⟨hmode, hbelow⟩
  · exact ⟨amount, .fastLane hpath htrace, le_rfl⟩
  · rename_i mode
    have hresolved : (searcher.branchingContext request heuristic limit prune source
        target).Resolved searcher.graph := ⟨hindexed, hsource, htarget⟩
    have hroot := @sound_rootState G _ searcher _ hresolved
    have hsame : SameRanking
        (searcher.branchingContext request heuristic limit prune source target)
        (searcher.branchingContext request heuristic limit' prune' source target) :=
      ⟨⟨rfl, rfl, rfl, rfl, rfl, rfl, rfl⟩, rfl, rfl, rfl, rfl, rfl⟩
    have hheuristic : (searcher.branchingContext request heuristic limit' prune' source
        target).heuristic.validate = .ok () := SearchConfig.heuristic_of_validate rfl hvalid
    obtain ⟨best, hbest, hle⟩ := Rivals.below htwo hresolved hne hmono hbalances hsame
      (retainLimit_pos hheuristic mode) ⟨hroot, hroot, rfl, rfl, le_rfl⟩ hbelow
    exact ⟨best, .pass hmode hbest, hle⟩

/-- Over two-token pools with monotone quotes, whose fresh balances bound what they pay out,
the best amount depends neither on balance-dominated pruning nor on how many parallel edges
are kept. -/
theorem branching_lossless (hbuilt : searcher.graph.Built) (htwo : searcher.graph.TwoToken)
    (hne : request.tokenIn ≠ request.tokenOut)
    (hcandidates : request.config.maxCandidates = none) (hbeam : heuristic.beamWidth = none)
    (hdominance : heuristic.prefixDominance = false)
    (hmono : searcher.MonotoneQuotes request.simConfig)
    (hbalances : ∀ token, searcher.BalancesBound request.simConfig token)
    (hlimit : 0 < limit) (hlimit' : 0 < limit') :
    bestAmountOut (searcher.findRoutes (request.withBranching heuristic limit prune)) =
      bestAmountOut (searcher.findRoutes (request.withBranching heuristic limit' prune')) := by
  have hsame : (request.withBranching heuristic limit prune).config.validate =
      (request.withBranching heuristic limit' prune').config.validate := by
    simp only [RouteRequest.withBranching, SearchConfig.validate,
      HeuristicSearchConfig.validate, beq_eq_false_iff_ne.mpr hlimit.ne',
      beq_eq_false_iff_ne.mpr hlimit'.ne']
    rfl
  refine bestAmountOut_congr rfl rfl hsame rfl rfl fun hvalid source target hsource htarget
    amount => ?_
  have hmode : ∀ limit prune, (request.withBranching heuristic limit prune).config.mode =
      .heuristic { heuristic with parallelEdgeLimit := limit } := fun _ _ => rfl
  rw [bestAmountOut_eq_some_iff hbuilt.indexed (hmode limit prune) hvalid hcandidates hbeam
      hdominance (hbalances _) hsource htarget,
    bestAmountOut_eq_some_iff hbuilt.indexed (hmode limit' prune') (hsame ▸ hvalid) hcandidates
      hbeam hdominance (hbalances _) hsource htarget]
  exact Tree.isGreatest_iff_of_matched
    (fun _ => matched_branching htwo hbuilt.indexed hne hmono hbalances hvalid hsource htarget)
    (fun _ => matched_branching htwo hbuilt.indexed hne hmono hbalances (hsame ▸ hvalid)
      hsource htarget)

end Requests

end AmmSearcher

namespace DominatedExample

open CappedExample

/-- A pool between `1` and `2` that holds 60 of `2`. -/
def dominated : PoolRegistration := TwoPoolExample.pool ['b'] 1 2

def index : PoolLiquidityIndex :=
  { PoolLiquidityIndex.empty with
    targets := [⟨2, .unknown, .fresh 60, true⟩]
    byPoolToken := (∅ : Map (PoolKey × Address) ℕ).insert (dominated.key, 2) 0
    poolTokenCounts := (∅ : Map PoolKey ℕ).insert dominated.key 2 }

def indexed (registry : AdapterRegistry) : AmmSearcher (SlotGraph Address EdgeData) :=
  { CappedExample.searcher registry with liquidityIndex := some index }

def heuristic : HeuristicSearchConfig :=
  { CappedExample.heuristic with
    prefixDominance := false
    fastLane := { enabled := false } }

def request : RouteRequest :=
  { CappedExample.request 3 {2} 1 2 with
    config :=
      { (CappedExample.request 3 {2} 1 2).config with liquidityPruning := { enabled := true } } }

theorem balancesBound {cap : PoolKey → Address → Address → U256}
    {pools : List PoolRegistration} {hnodup : (pools.map PoolRegistration.key).Nodup}
    (hcap : ∀ tokenIn, cap dominated.key tokenIn 2 ≤ 60) (token : Address) :
    (indexed (CappedExample.registry cap pools hnodup)).BalancesBound request.simConfig
      token := by
  intro tracked hindex pool balance hfresh hop hpool htoken amountIn amountOut hquote
  obtain rfl := Option.some.inj hindex
  have hknown : (pool, token) = (dominated.key, 2) ∧ balance = 60 := by
    unfold PoolLiquidityIndex.balanceState index at hfresh
    rw [FiniteMap.lookup_insert_eq] at hfresh
    split at hfresh
    · rename_i hsame
      exact ⟨hsame, (Option.some.inj hfresh).symm⟩
    · cases hfresh
  obtain ⟨hsame, rfl⟩ := hknown
  obtain ⟨rfl, rfl⟩ := Prod.mk.inj hsame
  simp only [AmmSearcher.quoteEnv, indexed, CappedExample.searcher, QuoteEnv.quoteHop,
    QuoteEnv.quoteKey, QuoteKeyContext.poolScope, QuoteEnv.quoteHopUncached,
    QuoteEnv.simulateHop] at hquote
  cases hfound : (CappedExample.registry cap pools hnodup).pool hop.pool with
  | none =>
      rw [hfound] at hquote
      cases hquote
  | some found =>
      rw [hfound] at hquote
      obtain rfl := Except.ok.inj hquote
      have hkey : found.key = dominated.key :=
        ((AdapterRegistry.pool_eq_some_iff _ _ _).mp hfound).2.trans hpool
      rw [hkey, htoken]
      exact (min_le_right _ _).trans (hcap hop.tokenIn)

/-- A better pool between `1` and `2`, and a pool on to `3`. -/
def parallel : AdapterRegistry :=
  CappedExample.registry (fun pool _ _ => if pool = dominated.key then 60 else 80)
    [TwoPoolExample.pool ['a'] 1 2, dominated, TwoPoolExample.pool ['c'] 2 3] (by decide)

/-- The dominated pool is not quoted; the best amount is the same. -/
theorem branching_lossless_parallel :
    (indexed parallel).graph.Built ∧ (indexed parallel).graph.TwoToken ∧
      bestAmountOut ((indexed parallel).findRoutes (request.withBranching heuristic 5 true)) =
        bestAmountOut ((indexed parallel).findRoutes
          (request.withBranching heuristic 5 false)) ∧
      bestAmountOut ((indexed parallel).findRoutes (request.withBranching heuristic 5 true)) =
        some 80 ∧
      ((indexed parallel).evaluatedQuotes (request.withBranching heuristic 5 true)
        { heuristic with parallelEdgeLimit := 5 }).length <
        ((indexed parallel).evaluatedQuotes (request.withBranching heuristic 5 false)
          { heuristic with parallelEdgeLimit := 5 }).length := by
  have htwo : (indexed parallel).graph.TwoToken := twoToken parallel (by decide)
  have hmono : (indexed parallel).MonotoneQuotes request.simConfig := monotoneQuotes _ _ _ _
  exact ⟨.fromRegistry 1 parallel {}, htwo,
    AmmSearcher.branching_lossless (.fromRegistry 1 parallel {}) htwo (by decide) rfl rfl rfl
      hmono (balancesBound fun _ => by decide) (by decide) (by decide),
    by decide +kernel, by decide +kernel⟩

/-- One pool with three tokens, which pays well into `3` from `2` only. -/
def wide : PoolRegistration where
  key := ⟨.curve, some 7, ['w']⟩
  status := .ready
  metadata := .curve ⟨[1, 2, 3]⟩
  tokens := some [1, 2, 3]

def threeTokens : AdapterRegistry :=
  CappedExample.registry (fun pool tokenIn tokenOut =>
      if pool = dominated.key then 60
      else if pool.debug = ['c'] ∨ tokenIn = 1 ∧ tokenOut = 3 then 10 else 80)
    [wide, dominated, TwoPoolExample.pool ['c'] 2 3] (by decide)

/-- With a pool of three tokens the pruned hop can be the one that leaves that pool to the
rest of the route. -/
theorem bestAmountOut_threeTokens_ne :
    (indexed threeTokens).graph.Built ∧
      (indexed threeTokens).MonotoneQuotes request.simConfig ∧
      (∀ token, (indexed threeTokens).BalancesBound request.simConfig token) ∧
      bestAmountOut ((indexed threeTokens).findRoutes
          (request.withBranching heuristic 5 true)) = some 10 ∧
      bestAmountOut ((indexed threeTokens).findRoutes
          (request.withBranching heuristic 5 false)) = some 60 :=
  ⟨.fromRegistry 1 threeTokens {}, monotoneQuotes _ _ _ _,
    balancesBound fun _ => (if_pos rfl).le, by decide +kernel, by decide +kernel⟩

end DominatedExample

end AmmSearch
