/-
The order of branch groups.  Groups that do not close the target may be ranked by
liquidity, a group that closes it never is; the remaining keys are connector, degree and
address.  Whether that is one order decides whether the iteration order of a hash map
can be seen in the search.
-/
import AmmSearch.AmmGraphOperations
import AmmSearch.HeuristicRanking
import AmmSearch.LiquidityUpdates
import AmmSearch.MixedOrder

open FiniteMap MixedOrder StableGraph

namespace AmmSearch

theorem cmp_toLex {α β : Type} [LinearOrder α] [LinearOrder β] (left right : α)
    (left' right' : β) :
    cmp (toLex (left, left')) (toLex (right, right')) =
      (cmp left right).then (cmp left' right') := by
  rcases lt_trichotomy left right with hlt | rfl | hlt
  · rw [hlt.cmp_eq_lt]
    exact LT.lt.cmp_eq_lt (Prod.Lex.toLex_lt_toLex.mpr (Or.inl hlt))
  · rw [cmp_self_eq_eq]
    refine StrictMono.cmp_map_eq (f := fun last => toLex (left, last)) ?_ left' right'
    exact fun _ _ hlast => Prod.Lex.toLex_lt_toLex.mpr (Or.inr ⟨rfl, hlast⟩)
  · rw [hlt.cmp_eq_gt]
    exact LT.lt.cmp_eq_gt (Prod.Lex.toLex_lt_toLex.mpr (Or.inl hlt))

theorem cmp_dual {α : Type} [LinearOrder α] (left right : α) :
    cmp (OrderDual.toDual left) (OrderDual.toDual right) = cmp right left :=
  (toDual_compares_toDual.mpr (cmp_compares right left)).cmp_eq

namespace AmmSearcher

namespace ScoredGroup

open OrderDual

/-- The keys that all groups share; connectors and high degrees come first. -/
def fallbackKey (scored : ScoredGroup) : ℕᵒᵈ ×ₗ (ℕᵒᵈ ×ₗ Address) :=
  toLex (toDual scored.connector, toLex (toDual scored.degree, scored.group.nextToken))

/-- Known liquidity is ranked above unknown liquidity. -/
def liquidityKey (scored : ScoredGroup) : WithBot (WithBot U256 ×ₗ WithBot U256) :=
  if scored.liquidity.isKnown then
    WithBot.some (toLex (scored.liquidity.maxInputBalance, scored.liquidity.sumInputBalance))
  else ⊥

/-- The keys of two groups that are both ranked by liquidity. -/
def rankedKey (scored : ScoredGroup) :
    (WithBot (WithBot U256 ×ₗ WithBot U256))ᵒᵈ ×ₗ (ℕᵒᵈ ×ₗ (ℕᵒᵈ ×ₗ Address)) :=
  toLex (toDual scored.liquidityKey, scored.fallbackKey)

theorem cmp_fallbackKey (left right : ScoredGroup) :
    cmp left.fallbackKey right.fallbackKey =
      (cmp right.connector left.connector).then
        ((cmp right.degree left.degree).then
          (cmp left.group.nextToken right.group.nextToken)) := by
  rw [fallbackKey, fallbackKey, cmp_toLex, cmp_toLex, cmp_dual, cmp_dual]

theorem cmp_rankedKey (left right : ScoredGroup) :
    cmp left.rankedKey right.rankedKey =
      (cmp right.liquidityKey left.liquidityKey).then
        (cmp left.fallbackKey right.fallbackKey) := by
  rw [rankedKey, rankedKey, cmp_toLex, cmp_dual]

theorem cmp_liquidityKey (left right : ScoredGroup) :
    cmp right.liquidityKey left.liquidityKey =
      match left.liquidity.isKnown, right.liquidity.isKnown with
      | true, true =>
          (cmpAmounts right.liquidity.maxInputBalance left.liquidity.maxInputBalance).then
            (cmpAmounts right.liquidity.sumInputBalance left.liquidity.sumInputBalance)
      | true, false => .lt
      | false, true => .gt
      | false, false => .eq := by
  unfold liquidityKey
  cases hleft : left.liquidity.isKnown with
  | true =>
      cases hright : right.liquidity.isKnown with
      | true =>
          rw [if_pos rfl, if_pos rfl]
          exact (WithBot.coe_strictMono.cmp_map_eq _ _).trans (cmp_toLex _ _ _ _)
      | false => exact LT.lt.cmp_eq_lt (WithBot.bot_lt_coe _)
  | false =>
      cases hright : right.liquidity.isKnown with
      | true => exact LT.lt.cmp_eq_gt (WithBot.bot_lt_coe _)
      | false => exact cmp_self_eq_eq _

end ScoredGroup

variable {heuristic : HeuristicSearchConfig} {config : LiquidityPruningConfig}

/-- Branches are ranked by liquidity. -/
def RanksBranches (config : LiquidityPruningConfig) : Prop :=
  config.enabled = true ∧ config.rankBranchesByLiquidity = true

/-- The keys of one lexicographic order: closing groups, liquidity, and the rest. -/
def sortKey (heuristic : HeuristicSearchConfig) (config : LiquidityPruningConfig)
    (scored : ScoredGroup) :
    Boolᵒᵈ ×ₗ ((WithBot (WithBot U256 ×ₗ WithBot U256))ᵒᵈ ×ₗ (ℕᵒᵈ ×ₗ (ℕᵒᵈ ×ₗ Address))) :=
  let closes := heuristic.targetFirst && scored.group.closesTarget
  let ranked := config.enabled && config.rankBranchesByLiquidity &&
    !scored.group.closesTarget
  toLex (OrderDual.toDual closes,
    toLex (OrderDual.toDual (if ranked then scored.liquidityKey else ⊥),
      scored.fallbackKey))

theorem compareGroups_of_not_ranked {left right : ScoredGroup}
    (hsame : heuristic.targetFirst = true →
      left.group.closesTarget = right.group.closesTarget)
    (hranked : ¬(RanksBranches config ∧ left.group.closesTarget = false ∧
      right.group.closesTarget = false)) :
    compareGroups heuristic config left right = cmp left.fallbackKey right.fallbackKey := by
  rw [ScoredGroup.cmp_fallbackKey, compareGroups, if_neg (fun h => h.2 (hsame h.1)), if_neg]
  rintro ⟨henabled, hrank, hclosed⟩
  exact hranked ⟨⟨henabled, hrank⟩, hclosed⟩

theorem compareGroups_of_ranked {left right : ScoredGroup} (hranked : RanksBranches config)
    (hleft : left.group.closesTarget = false) (hright : right.group.closesTarget = false) :
    compareGroups heuristic config left right = cmp left.rankedKey right.rankedKey := by
  rw [ScoredGroup.cmp_rankedKey, ScoredGroup.cmp_liquidityKey, ScoredGroup.cmp_fallbackKey,
    compareGroups, if_neg (fun h => h.2 (hleft.trans hright.symm)),
    if_pos ⟨hranked.1, hranked.2, hleft, hright⟩]
  cases left.liquidity.isKnown <;> cases right.liquidity.isKnown <;> rfl

/-- With closing groups first, or without liquidity, the comparison is by one key. -/
theorem compareGroups_eq_cmp_sortKey
    (hordered : heuristic.targetFirst = true ∨ ¬ RanksBranches config)
    (left right : ScoredGroup) :
    compareGroups heuristic config left right =
      cmp (sortKey heuristic config left) (sortKey heuristic config right) := by
  rw [sortKey, sortKey, cmp_toLex, cmp_toLex, cmp_dual, cmp_dual]
  by_cases hdiffer : heuristic.targetFirst = true ∧
      left.group.closesTarget ≠ right.group.closesTarget
  · rw [compareGroups, if_pos hdiffer, hdiffer.1]
    cases hleft : left.group.closesTarget <;> cases hright : right.group.closesTarget
    · exact absurd (hleft.trans hright.symm) hdiffer.2
    · rfl
    · rfl
    · exact absurd (hleft.trans hright.symm) hdiffer.2
  · have hsame : heuristic.targetFirst = true →
        left.group.closesTarget = right.group.closesTarget := by
      intro hfirst
      by_contra hne
      exact hdiffer ⟨hfirst, hne⟩
    have hclosing : cmp (heuristic.targetFirst && right.group.closesTarget)
        (heuristic.targetFirst && left.group.closesTarget) = .eq := by
      rw [cmp_eq_eq_iff]
      cases hfirst : heuristic.targetFirst with
      | true => rw [hsame hfirst]
      | false => rfl
    rw [hclosing]
    by_cases hranked : RanksBranches config ∧ left.group.closesTarget = false ∧
        right.group.closesTarget = false
    · obtain ⟨hrank, hleft, hright⟩ := hranked
      have hboth : ∀ scored : ScoredGroup, scored.group.closesTarget = false →
          (config.enabled && config.rankBranchesByLiquidity &&
            !scored.group.closesTarget) = true := by
        intro scored hopen
        rw [hrank.1, hrank.2, hopen]
        rfl
      rw [compareGroups_of_ranked hrank hleft hright, ScoredGroup.cmp_rankedKey,
        hboth left hleft, hboth right hright, if_pos rfl, if_pos rfl]
      rfl
    · rw [compareGroups_of_not_ranked hsame hranked]
      -- Groups that agree on closing the target are ranked together or not at all.
      have hneither : ∀ scored, scored = left ∨ scored = right →
          (config.enabled && config.rankBranchesByLiquidity &&
            !scored.group.closesTarget) = false := by
        intro scored hscored
        rw [Bool.eq_false_iff]
        intro htrue
        simp only [Bool.and_eq_true, Bool.not_eq_true'] at htrue
        obtain ⟨hrank, hopen⟩ := htrue
        have hagree := hsame (hordered.resolve_right (not_not.mpr hrank))
        rcases hscored with rfl | rfl
        · exact hranked ⟨hrank, hopen, hagree.symm.trans hopen⟩
        · exact hranked ⟨hrank, hagree.trans hopen, hopen⟩
      rw [hneither left (Or.inl rfl), hneither right (Or.inr rfl), if_neg Bool.false_ne_true,
        if_neg Bool.false_ne_true, cmp_self_eq_eq]
      rfl

/-- Without closing groups first, a closing group is compared by the shared keys only. -/
theorem compareGroups_eq_mixed (hfirst : heuristic.targetFirst = false)
    (hranked : RanksBranches config) (left right : ScoredGroup) :
    compareGroups heuristic config left right =
      mixed (fun scored => scored.group.closesTarget = false) ScoredGroup.rankedKey
        ScoredGroup.fallbackKey left right := by
  have hsame : heuristic.targetFirst = true →
      left.group.closesTarget = right.group.closesTarget := by
    rw [hfirst]
    intro habsurd
    cases habsurd
  by_cases hopen : left.group.closesTarget = false ∧ right.group.closesTarget = false
  · rw [mixed, if_pos hopen, compareGroups_of_ranked hranked hopen.1 hopen.2]
  · rw [mixed, if_neg hopen]
    exact compareGroups_of_not_ranked hsame fun h => hopen h.2

/-- Whenever a closing group stands between two others by the shared keys, the one behind
it has no better known liquidity than the one ahead of it. -/
def RankedAcrossClosing (groups : List ScoredGroup) : Prop :=
  ∀ ahead ∈ groups, ∀ closing ∈ groups, ∀ behind ∈ groups,
    ahead.group.closesTarget = false → closing.group.closesTarget = true →
      behind.group.closesTarget = false → ahead.fallbackKey < closing.fallbackKey →
        closing.fallbackKey < behind.fallbackKey → behind.liquidityKey ≤ ahead.liquidityKey

theorem separated_iff_rankedAcrossClosing (groups : List ScoredGroup) :
    Separated (fun scored => scored.group.closesTarget = false) ScoredGroup.rankedKey
      ScoredGroup.fallbackKey groups ↔ RankedAcrossClosing groups := by
  constructor
  · intro hseparated ahead hahead closing hclosing behind hbehind ha hc hb hfirst hsecond
    have hlt := hseparated ahead hahead closing hclosing behind hbehind ha
      (by simp [hc]) hb hfirst hsecond
    rcases Prod.Lex.toLex_lt_toLex.mp hlt with hless | ⟨hequal, _⟩
    · exact le_of_lt (OrderDual.toDual_lt_toDual.mp hless)
    · exact (OrderDual.toDual_inj.mp hequal).ge
  · intro hranked ahead hahead closing hclosing behind hbehind ha hc hb hfirst hsecond
    have hle := hranked ahead hahead closing hclosing behind hbehind ha
      (by simpa using hc) hb hfirst hsecond
    apply Prod.Lex.toLex_lt_toLex.mpr
    rcases hle.lt_or_eq with hless | hequal
    · exact Or.inl (OrderDual.toDual_lt_toDual.mpr hless)
    · exact Or.inr ⟨congrArg OrderDual.toDual hequal.symm, hfirst.trans hsecond⟩

section Groups

variable {G : Type} [StableDiGraph G Address EdgeData]
variable {searcher : AmmSearcher G} {grouped : List (Address × List Hop)}
variable {target : NodeIndex} {connectorTokens : Option (Finset Address)}

/-- The groups of a map with the data they are sorted by. -/
def scoredGroups (searcher : AmmSearcher G) (target : NodeIndex)
    (connectorTokens : Option (Finset Address)) (config : LiquidityPruningConfig)
    (grouped : List (Address × List Hop)) : List ScoredGroup :=
  grouped.map fun entry =>
    searcher.scoreGroup target connectorTokens config entry.1 entry.2

/-- The groups are compared by a total order, and come out the same for every iteration
order of the map. -/
structure OrdersGroups (searcher : AmmSearcher G) (target : NodeIndex)
    (connectorTokens : Option (Finset Address)) (heuristic : HeuristicSearchConfig)
    (config : LiquidityPruningConfig) (grouped : List (Address × List Hop)) : Prop where
  totalOn : TotalOn (compareGroups heuristic config)
    (searcher.scoredGroups target connectorTokens config grouped)
  sorted : ∀ mode path other, grouped.Perm other →
    searcher.sortedHeuristicHopGroups mode path grouped target connectorTokens heuristic
        config =
      searcher.sortedHeuristicHopGroups mode path other target connectorTokens heuristic
        config

theorem consistentOrder_of_totalOn {compare : ScoredGroup → ScoredGroup → Ordering}
    {groups : List ScoredGroup} (htotal : TotalOn compare groups) :
    ConsistentOrder compare groups :=
  ⟨htotal.total, htotal.trans⟩

/-- Groups with different next tokens differ in their keys. -/
theorem injOn_of_nextToken {β : Type} {key : ScoredGroup → β}
    (hnodup : (grouped.map Prod.fst).Nodup)
    (hkey : ∀ {left right : ScoredGroup}, key left = key right →
      left.group.nextToken = right.group.nextToken) :
    Set.InjOn key
      {scored | scored ∈ searcher.scoredGroups target connectorTokens config grouped} := by
  intro left hleft right hright heq
  obtain ⟨entry, hentry, rfl⟩ := List.mem_map.mp hleft
  obtain ⟨entry', hentry', rfl⟩ := List.mem_map.mp hright
  have hsame : entry = entry' := List.inj_on_of_nodup_map hnodup hentry hentry' (hkey heq)
  rw [hsame]

theorem nextToken_of_fallbackKey {left right : ScoredGroup}
    (heq : left.fallbackKey = right.fallbackKey) :
    left.group.nextToken = right.group.nextToken := by
  have hpair := toLex_inj.mp heq
  exact (Prod.mk.inj (toLex_inj.mp (Prod.mk.inj hpair).2)).2

/-- The comparison is a total order on the groups exactly under the condition. -/
theorem totalOn_compareGroups_iff (hnodup : (grouped.map Prod.fst).Nodup) :
    TotalOn (compareGroups heuristic config)
        (searcher.scoredGroups target connectorTokens config grouped) ↔
      heuristic.targetFirst = true ∨ ¬ RanksBranches config ∨
        RankedAcrossClosing
          (searcher.scoredGroups target connectorTokens config grouped) := by
  by_cases hordered : heuristic.targetFirst = true ∨ ¬ RanksBranches config
  · have htotal : TotalOn (compareGroups heuristic config)
        (searcher.scoredGroups target connectorTokens config grouped) := by
      apply totalOn_of_key fun left _ right _ =>
        compareGroups_eq_cmp_sortKey hordered left right
      apply injOn_of_nextToken hnodup
      intro left right heq
      have hpair := (Prod.mk.inj (toLex_inj.mp heq)).2
      exact nextToken_of_fallbackKey (Prod.mk.inj (toLex_inj.mp hpair)).2
    simp only [htotal, true_iff]
    tauto
  · push Not at hordered
    obtain ⟨hfirst, hranked⟩ := hordered
    rw [ne_eq, Bool.not_eq_true] at hfirst
    have hmixed : compareGroups heuristic config =
        mixed (fun scored => scored.group.closesTarget = false) ScoredGroup.rankedKey
          ScoredGroup.fallbackKey := by
      funext left right
      exact compareGroups_eq_mixed hfirst hranked left right
    rw [hmixed, totalOn_mixed_iff, separated_iff_rankedAcrossClosing]
    · simp [hfirst, hranked]
    · exact injOn_of_nextToken hnodup fun heq =>
        nextToken_of_fallbackKey (Prod.mk.inj (toLex_inj.mp heq)).2
    · exact injOn_of_nextToken hnodup nextToken_of_fallbackKey

theorem ordersGroups_of_totalOn
    (htotal : TotalOn (compareGroups heuristic config)
      (searcher.scoredGroups target connectorTokens config grouped)) :
    searcher.OrdersGroups target connectorTokens heuristic config grouped where
  totalOn := htotal
  sorted mode path other hperm := by
    have hscored : (searcher.scoredGroups target connectorTokens config grouped).Perm
        (searcher.scoredGroups target connectorTokens config other) := hperm.map _
    have hfirst := consistentOrder_of_totalOn htotal
    have hsecond := consistentOrder_of_totalOn (htotal.perm hscored)
    unfold scoredGroups at hfirst hsecond
    rw [sortedHeuristicHopGroups, sortedHeuristicHopGroups, if_pos hfirst, if_pos hsecond]
    exact congrArg (List.map ScoredGroup.group) (htotal.insertionSort_eq hscored)

/-- The groups of different next tokens are in one total order, independent of the map,
exactly when closing groups come first, or branches are not ranked by liquidity, or
liquidity ranks no group behind a closing one above a group ahead of it. -/
theorem ordersGroups_iff (hnodup : (grouped.map Prod.fst).Nodup) :
    searcher.OrdersGroups target connectorTokens heuristic config grouped ↔
      heuristic.targetFirst = true ∨ ¬ RanksBranches config ∨
        RankedAcrossClosing
          (searcher.scoredGroups target connectorTokens config grouped) := by
  rw [← totalOn_compareGroups_iff hnodup]
  exact ⟨OrdersGroups.totalOn, ordersGroups_of_totalOn⟩

end Groups

end AmmSearcher

namespace BranchRankingExample

open AmmSearcher

def pool (address : Address) (name : Text) (token0 token1 : Address) : PoolRegistration where
  key := ⟨.uniswapV2, some address, name⟩
  status := .ready
  metadata := .uniswapV2 ⟨some token0, some token1, some 30⟩
  tokens := some [token0, token1]

/-- From token 1 one hop leads to token 3 or towards it, through token 2 or token 4. -/
def registry : AdapterRegistry where
  pools := [pool 11 ['a'] 1 2, pool 12 ['b'] 1 4, pool 13 ['c'] 1 3, pool 14 ['d'] 2 3,
    pool 15 ['e'] 4 3, pool 16 ['f'] 4 5, pool 17 ['g'] 4 6]
  adapter := fun _ => none
  nodup_keys := by decide

def graph : AmmGraph (SlotGraph Address EdgeData) :=
  (AmmGraph.fromRegistry 1 registry {}).graph

/-- The index in which only the balance of token 1 in the first pool is known. -/
def liquidity : PoolLiquidityIndex :=
  let built := (PoolLiquidityIndex.fromRegistryWithScope registry graph
    .allDirectedEdgeInputsAndOutputs).1
  ((built.setBalance (pool 11 ['a'] 1 2).key 1 1000).toOption).getD built

def searcher : AmmSearcher (SlotGraph Address EdgeData) where
  registry := registry
  graph := graph
  liquidityIndex := some liquidity
  quoteContext := .static
  debug := ⟨fun _ => [], fun _ => [], fun _ => [], fun _ => []⟩
  groupOrder := fun _ _ groups => groups
  groupOrder_perm := fun _ _ groups => List.Perm.refl groups

/-- The groups of the hops out of token 1. -/
def grouped : List (Address × List Hop) :=
  [(2, [⟨(pool 11 ['a'] 1 2).key, 1, 2⟩]), (4, [⟨(pool 12 ['b'] 1 4).key, 1, 4⟩]),
    (3, [⟨(pool 13 ['c'] 1 3).key, 1, 3⟩])]

def ranking : LiquidityPruningConfig :=
  { enabled := true, rankBranchesByLiquidity := true }

def target : NodeIndex := (graph.nodeIndex 3).getD 0

/-- With closing groups first, the three groups are in order. -/
theorem ordersGroups_closingFirst :
    (grouped.map Prod.fst).Nodup ∧
      searcher.OrdersGroups target none {} ranking grouped := by
  have hnodup : (grouped.map Prod.fst).Nodup := by decide
  exact ⟨hnodup, (ordersGroups_iff hnodup).mpr (Or.inl rfl)⟩

/-- Without, they are in a cycle: token 4 comes before the target for its degree, the
target before token 2 for its degree, and token 2 before token 4 for its liquidity. -/
theorem not_ordersGroups_cycle :
    (grouped.map Prod.fst).Nodup ∧
      ¬ searcher.OrdersGroups target none { targetFirst := false } ranking grouped := by
  refine ⟨by decide, fun horders => ?_⟩
  let score := searcher.scoreGroup target none ranking
  have hlast := horders.totalOn.trans
    (score 4 [⟨(pool 12 ['b'] 1 4).key, 1, 4⟩]) (by decide +kernel)
    (score 3 [⟨(pool 13 ['c'] 1 3).key, 1, 3⟩]) (by decide +kernel)
    (score 2 [⟨(pool 11 ['a'] 1 2).key, 1, 2⟩]) (by decide +kernel)
    (by decide +kernel) (by decide +kernel)
  exact absurd hlast (by decide +kernel)

end BranchRankingExample

end AmmSearch
