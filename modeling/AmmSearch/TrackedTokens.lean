/-
The tokens whose balances a scope tracks, computed twice: by one scan over all edges
of a graph, and for one pool from the pool and pair indexes.  The two agree on every
graph that the public operations build.
-/
import AmmSearch.AmmGraphIncremental
import AmmSearch.LiquidityReconcile

open FiniteMap StableGraph

namespace AmmSearch

/-- A tracking map has the tokens of each pool, and no entry without tokens. -/
structure Records (tracked : Map PoolKey (Finset Address))
    (tokens : PoolKey → Address → Prop) : Prop where
  mem_iff : ∀ pool token, token ∈ (tracked.lookup pool).getD ∅ ↔ tokens pool token
  nonempty : ∀ pool, tracked.lookup pool ≠ some ∅

namespace Records

variable {tracked : Map PoolKey (Finset Address)} {tokens : PoolKey → Address → Prop}

theorem empty : Records ∅ fun _ _ => False where
  mem_iff pool token := by simp
  nonempty pool := by simp

theorem congr (hrecords : Records tracked tokens) {tokens' : PoolKey → Address → Prop}
    (hiff : ∀ pool token, tokens pool token ↔ tokens' pool token) :
    Records tracked tokens' :=
  ⟨fun pool token => (hrecords.mem_iff pool token).trans (hiff pool token),
    hrecords.nonempty⟩

/-- The entry of a pool is determined by its tokens. -/
theorem lookup_eq (hrecords : Records tracked tokens) {pool : PoolKey}
    {needed : Finset Address} (hneeded : ∀ token, token ∈ needed ↔ tokens pool token) :
    tracked.lookup pool = if needed = ∅ then none else some needed := by
  have hsame : (tracked.lookup pool).getD ∅ = needed := by
    ext token
    rw [hrecords.mem_iff, hneeded]
  have hne := hrecords.nonempty pool
  cases hlookup : tracked.lookup pool with
  | none =>
      rw [hlookup, Option.getD_none] at hsame
      rw [if_pos hsame.symm]
  | some found =>
      rw [hlookup] at hsame hne
      rw [Option.getD_some] at hsame
      subst hsame
      rw [if_neg]
      rintro rfl
      exact hne rfl

theorem insertTracked (hrecords : Records tracked tokens) (pool : PoolKey) (token : Address) :
    Records (AmmSearch.insertTracked tracked pool token) fun other found =>
      tokens other found ∨ (other = pool ∧ found = token) where
  mem_iff other found := by
    rw [lookup_insertTracked]
    by_cases hother : other = pool
    · subst hother
      rw [if_pos rfl, Option.getD_some, Finset.mem_insert, hrecords.mem_iff, or_comm]
      simp
    · rw [if_neg hother, hrecords.mem_iff]
      simp [hother]
  nonempty other := by
    rw [lookup_insertTracked]
    split
    · intro hempty
      exact Finset.insert_ne_empty _ _ (Option.some.inj hempty)
    · exact hrecords.nonempty other

theorem trackGroup (hrecords : Records tracked tokens) (group : Address × Address)
    (pools : List PoolKey) :
    Records (AmmSearch.trackGroup tracked group pools) fun pool token =>
      tokens pool token ∨
        (parallelEdgeThreshold ≤ pools.length ∧ pool ∈ pools ∧ token = group.2) where
  mem_iff pool token := by
    rw [lookup_trackGroup]
    by_cases hgroup : parallelEdgeThreshold ≤ pools.length ∧ pool ∈ pools
    · rw [if_pos hgroup, Option.getD_some, Finset.mem_insert, hrecords.mem_iff, or_comm]
      simp [hgroup.1, hgroup.2]
    · rw [if_neg hgroup, hrecords.mem_iff]
      rw [not_and] at hgroup
      constructor
      · exact Or.inl
      · rintro (hold | ⟨hmany, hpool, _⟩)
        · exact hold
        · exact absurd hpool (hgroup hmany)
  nonempty pool := by
    rw [lookup_trackGroup]
    split
    · intro hempty
      exact Finset.insert_ne_empty _ _ (Option.some.inj hempty)
    · exact hrecords.nonempty pool

/-- What single items of a fold track is tracked after the fold. -/
theorem foldl {ι : Type} {step : Map PoolKey (Finset Address) → ι → Map PoolKey (Finset Address)}
    (adds : ι → PoolKey → Address → Prop)
    (hstep : ∀ (tracked : Map PoolKey (Finset Address)) (tokens : PoolKey → Address → Prop)
      (item : ι), Records tracked tokens →
      Records (step tracked item) fun pool token => tokens pool token ∨ adds item pool token)
    (items : List ι) (hrecords : Records tracked tokens) :
    Records (items.foldl step tracked) fun pool token =>
      tokens pool token ∨ ∃ item ∈ items, adds item pool token := by
  induction items generalizing tracked tokens with
  | nil => exact hrecords.congr (by simp)
  | cons item rest ih =>
      apply (ih (hstep tracked tokens item hrecords)).congr
      intro pool token
      rw [List.exists_mem_cons_iff, or_assoc]

/-- All groups of a map, in any order. -/
theorem foldl_trackGroup (groups : Map (Address × Address) (List PoolKey)) :
    Records (groups.foldl AmmSearch.trackGroup trackGroup_comm ∅) fun pool token =>
      ∃ tokenIn pools, groups.lookup (tokenIn, token) = some pools ∧
        parallelEdgeThreshold ≤ pools.length ∧ pool ∈ pools := by
  obtain ⟨entries, hentries⟩ := Quot.exists_rep groups.entries
  have hmem : ∀ group pools, ⟨group, pools⟩ ∈ entries ↔ groups.lookup group = some pools := by
    intro group pools
    have hlookup := Finmap.mem_lookup_iff (s := groups) (a := group) (b := pools)
    rw [← hentries] at hlookup
    exact hlookup.symm
  have hfold : groups.foldl AmmSearch.trackGroup trackGroup_comm ∅ =
      entries.foldl (fun tracked entry => AmmSearch.trackGroup tracked entry.1 entry.2) ∅ := by
    unfold Finmap.foldl
    simp only [← hentries]
    rfl
  rw [hfold]
  have hrun := Records.foldl (fun (entry : Σ _ : Address × Address, List PoolKey) pool token =>
      parallelEdgeThreshold ≤ entry.2.length ∧ pool ∈ entry.2 ∧ token = entry.1.2)
    (fun _ _ entry hrecords => hrecords.trackGroup entry.1 entry.2) entries Records.empty
  apply hrun.congr
  intro pool token
  rw [false_or]
  constructor
  · rintro ⟨⟨⟨tokenIn, tokenOut⟩, pools⟩, hentry, hmany, hpool, rfl⟩
    exact ⟨tokenIn, pools, (hmem _ _).mp hentry, hmany, hpool⟩
  · rintro ⟨tokenIn, pools, hlookup, hmany, hpool⟩
    exact ⟨⟨(tokenIn, token), pools⟩, (hmem _ _).mpr hlookup, hmany, hpool, rfl⟩

end Records

section Scans

variable {G : Type} [StableDiGraph G Address EdgeData] {graph : AmmGraph G}

theorem edgeReferences_eq (graph : AmmGraph G) :
    edgeReferences graph =
      ((StableDiGraph.edgeIndices graph.graph).filterMap graph.edgeEnds).map fun ends =>
        (ends.2.1, ends.2.2, ends.1) := by
  unfold edgeReferences
  rw [List.map_filterMap]
  congr 1
  funext edge
  unfold edgeTokens AmmGraph.edgeEnds AmmGraph.cachedEdge
  cases StableDiGraph.edge graph.graph edge with
  | none => rfl
  | some record =>
      simp only [Option.bind_some]
      cases graph.nodeToken record.source with
      | none => rfl
      | some tokenIn =>
          simp only [Option.bind_some]
          cases graph.nodeToken record.target <;> rfl

theorem mem_edgeReferences (hvalid : graph.Valid) (tokenIn tokenOut : Address)
    (pool : PoolKey) :
    (tokenIn, tokenOut, pool) ∈ edgeReferences graph ↔
      graph.HasPair pool tokenIn tokenOut := by
  have hedges : (pool, tokenIn, tokenOut) ∈
      (StableDiGraph.edgeIndices graph.graph).filterMap graph.edgeEnds ↔
        graph.HasPair pool tokenIn tokenOut := by
    refine (graph.mem_edgeMultiset pool tokenIn tokenOut).trans ⟨?_, ?_⟩
    · rintro ⟨edge, hedge⟩
      exact hvalid.indexed.linked.pairs_of_hasEdge hedge
    · exact hvalid.indexed.linked.edge_exists pool tokenIn tokenOut
  rw [edgeReferences_eq, ← hedges, List.mem_map]
  constructor
  · rintro ⟨⟨other, source, target⟩, hmem, heq⟩
    cases heq
    exact hmem
  · exact fun hmem => ⟨_, hmem, rfl⟩

theorem nodup_edgeReferences (hvalid : graph.Valid) : (edgeReferences graph).Nodup := by
  rw [edgeReferences_eq]
  apply List.Nodup.map
  · rintro ⟨pool, tokenIn, tokenOut⟩ ⟨pool', tokenIn', tokenOut'⟩ heq
    cases heq
    rfl
  · exact Multiset.coe_nodup.mp hvalid.nodup_edgeMultiset

/-- The pools of one directed pair in edge order. -/
def groupPools (references : List (Address × Address × PoolKey))
    (group : Address × Address) : List PoolKey :=
  references.filterMap fun reference =>
    if (reference.1, reference.2.1) = group then some reference.2.2 else none

theorem mem_groupPools (references : List (Address × Address × PoolKey))
    (group : Address × Address) (pool : PoolKey) :
    pool ∈ groupPools references group ↔ (group.1, group.2, pool) ∈ references := by
  rw [groupPools, List.mem_filterMap]
  constructor
  · rintro ⟨⟨tokenIn, tokenOut, other⟩, hmem, heq⟩
    split at heq
    · rename_i hgroup
      obtain rfl := Option.some.inj heq
      subst hgroup
      exact hmem
    · cases heq
  · exact fun hmem => ⟨_, hmem, if_pos rfl⟩

theorem nodup_groupPools {references : List (Address × Address × PoolKey)}
    (hnodup : references.Nodup) (group : Address × Address) :
    (groupPools references group).Nodup := by
  apply hnodup.filterMap
  rintro ⟨tokenIn, tokenOut, pool⟩ ⟨tokenIn', tokenOut', pool'⟩ found hleft hright
  simp only [Option.mem_def, Option.ite_none_right_eq_some, Option.some.injEq] at hleft hright
  obtain ⟨rfl, rfl⟩ := hleft
  obtain ⟨heq, rfl⟩ := hright
  rw [Prod.mk.injEq] at heq
  rw [heq.1, heq.2]

theorem lookup_edgeGroups (graph : AmmGraph G) (group : Address × Address) :
    (edgeGroups graph).lookup group =
      if groupPools (edgeReferences graph) group = [] then none
      else some (groupPools (edgeReferences graph) group) := by
  unfold edgeGroups
  induction edgeReferences graph using List.reverseRecOn with
  | nil => simp [groupPools]
  | append_singleton references reference ih =>
      rw [List.foldl_append, List.foldl_cons, List.foldl_nil, lookup_alter]
      have happend : groupPools (references ++ [reference]) group =
          groupPools references group ++
            if (reference.1, reference.2.1) = group then [reference.2.2] else [] := by
        rw [groupPools, List.filterMap_append]
        by_cases hgroup : (reference.1, reference.2.1) = group
        · simp [groupPools, hgroup]
        · simp [groupPools, hgroup]
      rw [happend]
      by_cases hgroup : group = (reference.1, reference.2.1)
      · subst hgroup
        have hne : groupPools references (reference.1, reference.2.1) ++ [reference.2.2] ≠ [] :=
          List.append_ne_nil_of_right_ne_nil _ (List.cons_ne_nil _ _)
        rw [if_pos rfl, if_pos rfl, ih, if_neg hne]
        by_cases hnone : groupPools references (reference.1, reference.2.1) = []
        · rw [if_pos hnone, hnone]
          rfl
        · rw [if_neg hnone]
          rfl
      · rw [if_neg hgroup, if_neg (Ne.symm hgroup), List.append_nil]
        exact ih

theorem records_parallelOutputTokens (graph : AmmGraph G) :
    Records (parallelOutputTokensByPool graph) fun pool token =>
      ∃ tokenIn, (tokenIn, token, pool) ∈ edgeReferences graph ∧
        parallelEdgeThreshold ≤ (groupPools (edgeReferences graph) (tokenIn, token)).length := by
  apply (Records.foldl_trackGroup (edgeGroups graph)).congr
  intro pool token
  constructor
  · rintro ⟨tokenIn, pools, hlookup, hmany, hpool⟩
    rw [lookup_edgeGroups] at hlookup
    split at hlookup
    · cases hlookup
    · obtain rfl := Option.some.inj hlookup
      exact ⟨tokenIn, (mem_groupPools _ _ _).mp hpool, hmany⟩
  · rintro ⟨tokenIn, hreference, hmany⟩
    have hpool := (mem_groupPools _ (tokenIn, token) pool).mpr hreference
    refine ⟨tokenIn, _, ?_, hmany, hpool⟩
    rw [lookup_edgeGroups, if_neg (List.ne_nil_of_mem hpool)]

theorem records_allDirectedEdgeTokens (graph : AmmGraph G) :
    Records (allDirectedEdgeTokensByPool graph) fun pool token =>
      ∃ reference ∈ edgeReferences graph, reference.2.2 = pool ∧
        (token = reference.1 ∨ token = reference.2.1) := by
  apply (Records.foldl (fun (reference : Address × Address × PoolKey) pool token =>
    reference.2.2 = pool ∧ (token = reference.1 ∨ token = reference.2.1)) ?_
    (edgeReferences graph) Records.empty).congr
  · simp
  · rintro tracked tokens ⟨tokenIn, tokenOut, pool⟩ hrecords
    apply ((hrecords.insertTracked pool tokenIn).insertTracked pool tokenOut).congr
    intro other token
    rw [or_assoc, ← and_or_left, eq_comm (a := pool)]

omit [StableDiGraph G Address EdgeData] in
/-- The tokens of a pool that its own indexes track. -/
theorem mem_trackedTokensForPool (graph : AmmGraph G) (pool : PoolKey) (token : Address) :
    token ∈ graph.trackedTokensForPool pool true ↔
      ∃ tokens, graph.poolTokens.lookup pool = some tokens ∧ ∃ pair ∈ tokenPairs tokens,
        2 ≤ ((graph.pairPools.lookup pair).getD ∅).card ∧
          (token = pair.1 ∨ token = pair.2) := by
  unfold AmmGraph.trackedTokensForPool
  cases graph.poolTokens.lookup pool with
  | none => simp
  | some tokens =>
      simp only [Bool.not_true, Bool.false_eq_true, if_false, Option.some.injEq,
        exists_eq_left']
      apply (foldl_iff (token ∈ ·) (fun pair =>
        2 ≤ ((graph.pairPools.lookup pair).getD ∅).card ∧ (token = pair.1 ∨ token = pair.2))
        ?_ (tokenPairs tokens) ∅).trans
      · simp
      · intro tracked pair
        cases graph.pairPools.lookup pair with
        | none => simp
        | some pools =>
            simp only [Option.getD_some]
            by_cases hmany : 2 ≤ pools.card
            · simp only [hmany, if_true, Finset.mem_insert, true_and]
              tauto
            · simp [hmany]

theorem hasPair_iff_mem_tokenPairs (hvalid : graph.Valid) {left right : Address}
    (hlt : left < right) (pool : PoolKey) :
    graph.HasPair pool left right ↔ ∃ tokens, graph.poolTokens.lookup pool = some tokens ∧
      (left, right) ∈ tokenPairs tokens := by
  apply exists_congr
  intro tokens
  apply and_congr_right
  intro htokens
  rw [mem_tokenPairs_iff (hvalid.indexed.tokens_valid pool tokens htokens).1]
  simp [hlt, ne_of_lt hlt]

omit [StableDiGraph G Address EdgeData] in
theorem hasPair_comm (pool : PoolKey) (tokenIn tokenOut : Address) :
    graph.HasPair pool tokenIn tokenOut ↔ graph.HasPair pool tokenOut tokenIn := by
  apply exists_congr
  intro tokens
  rw [ne_comm, and_left_comm (a := tokenIn ∈ tokens)]

/-- As many edges swap two tokens as pools hold both. -/
theorem length_groupPools (hvalid : graph.Valid) {left right : Address} (hlt : left < right) :
    (groupPools (edgeReferences graph) (left, right)).length =
        ((graph.pairPools.lookup (left, right)).getD ∅).card ∧
      (groupPools (edgeReferences graph) (right, left)).length =
        ((graph.pairPools.lookup (left, right)).getD ∅).card := by
  have hlength : ∀ group : Address × Address,
      (∀ pool, graph.HasPair pool group.1 group.2 ↔ graph.HasPair pool left right) →
      (groupPools (edgeReferences graph) group).length =
        ((graph.pairPools.lookup (left, right)).getD ∅).card := by
    intro group hgroup
    rw [← List.toFinset_card_of_nodup (nodup_groupPools (nodup_edgeReferences hvalid) group)]
    congr 1
    ext pool
    rw [List.mem_toFinset, mem_groupPools, mem_edgeReferences hvalid, hgroup,
      hasPair_iff_mem_tokenPairs hvalid hlt, (hvalid.indexed.pairs (left, right)).2]
  exact ⟨hlength (left, right) fun _ => Iff.rfl,
    hlength (right, left) fun pool => hasPair_comm pool right left⟩

theorem mem_neededTokens_parallel (hvalid : graph.Valid) (pool : PoolKey) (token : Address) :
    token ∈ PoolLiquidityIndex.neededTokens graph .parallelEdgeOutputs pool ↔
      ∃ tokenIn, (tokenIn, token, pool) ∈ edgeReferences graph ∧
        parallelEdgeThreshold ≤
          (groupPools (edgeReferences graph) (tokenIn, token)).length := by
  have hneeded : PoolLiquidityIndex.neededTokens graph .parallelEdgeOutputs pool =
      graph.trackedTokensForPool pool true := by simp [PoolLiquidityIndex.neededTokens]
  rw [hneeded, mem_trackedTokensForPool]
  constructor
  · rintro ⟨tokens, htokens, ⟨left, right⟩, hpair, hmany, hside⟩
    have hsorted := (hvalid.indexed.tokens_valid pool tokens htokens).1
    obtain ⟨hleft, hright, hlt⟩ := (mem_tokenPairs_iff hsorted _).mp hpair
    obtain ⟨hforward, hbackward⟩ := length_groupPools hvalid hlt
    rcases hside with rfl | rfl
    · refine ⟨right, (mem_edgeReferences hvalid _ _ _).mpr
        ⟨tokens, htokens, hright, hleft, ne_of_gt hlt⟩, ?_⟩
      rw [hbackward]
      exact hmany
    · refine ⟨left, (mem_edgeReferences hvalid _ _ _).mpr
        ⟨tokens, htokens, hleft, hright, ne_of_lt hlt⟩, ?_⟩
      rw [hforward]
      exact hmany
  · rintro ⟨tokenIn, hreference, hmany⟩
    obtain ⟨tokens, htokens, hin, hout, hne⟩ := (mem_edgeReferences hvalid _ _ _).mp hreference
    have hsorted := (hvalid.indexed.tokens_valid pool tokens htokens).1
    refine ⟨tokens, htokens, ?_⟩
    rcases lt_or_gt_of_ne hne with hlt | hgt
    · rw [(length_groupPools hvalid hlt).1] at hmany
      exact ⟨(tokenIn, token), (mem_tokenPairs_iff hsorted _).mpr ⟨hin, hout, hlt⟩, hmany,
        Or.inr rfl⟩
    · rw [(length_groupPools hvalid hgt).2] at hmany
      exact ⟨(token, tokenIn), (mem_tokenPairs_iff hsorted _).mpr ⟨hout, hin, hgt⟩, hmany,
        Or.inl rfl⟩

/-- Two distinct entries of a list with at least two. -/
theorem exists_mem_ne {tokens : List Address} (hnodup : tokens.Nodup)
    (hlength : 2 ≤ tokens.length) (token : Address) : ∃ other ∈ tokens, token ≠ other := by
  by_contra hall
  push Not at hall
  have hsub : tokens.length ≤ [token].length :=
    (hnodup.subperm fun other hother => by simp [hall other hother]).length_le
  simp only [List.length_singleton] at hsub
  omega

theorem mem_neededTokens_all (hvalid : graph.Valid) (pool : PoolKey) (token : Address) :
    token ∈ PoolLiquidityIndex.neededTokens graph .allDirectedEdgeInputsAndOutputs pool ↔
      ∃ reference ∈ edgeReferences graph, reference.2.2 = pool ∧
        (token = reference.1 ∨ token = reference.2.1) := by
  have hneeded : token ∈ PoolLiquidityIndex.neededTokens graph
      .allDirectedEdgeInputsAndOutputs pool ↔
        ∃ tokens, graph.poolTokens.lookup pool = some tokens ∧ token ∈ tokens := by
    unfold PoolLiquidityIndex.neededTokens AmmGraph.trackedTokensForPool
    cases graph.poolTokens.lookup pool <;> simp
  rw [hneeded]
  constructor
  · rintro ⟨tokens, htokens, hmem⟩
    obtain ⟨hsorted, hlength⟩ := hvalid.indexed.tokens_valid pool tokens htokens
    obtain ⟨other, hother, hne⟩ :=
      exists_mem_ne (AmmGraph.nodup_of_pairwise_lt hsorted) hlength token
    exact ⟨(token, other, pool), (mem_edgeReferences hvalid _ _ _).mpr
      ⟨tokens, htokens, hmem, hother, hne⟩, rfl, Or.inl rfl⟩
  · rintro ⟨⟨tokenIn, tokenOut, other⟩, hreference, rfl, hside⟩
    obtain ⟨tokens, htokens, hin, hout, _⟩ := (mem_edgeReferences hvalid _ _ _).mp hreference
    rcases hside with rfl | rfl
    · exact ⟨tokens, htokens, hin⟩
    · exact ⟨tokens, htokens, hout⟩

/-- The scan of all edges and the lookup of one pool track the same tokens. -/
theorem lookup_trackedTokensByPool (hvalid : graph.Valid) (scope : LiquidityIndexScope)
    (pool : PoolKey) :
    (trackedTokensByPool graph scope).lookup pool =
      if PoolLiquidityIndex.neededTokens graph scope pool = ∅ then none
      else some (PoolLiquidityIndex.neededTokens graph scope pool) := by
  cases scope with
  | parallelEdgeOutputs =>
      exact (records_parallelOutputTokens graph).lookup_eq
        (mem_neededTokens_parallel hvalid pool)
  | allDirectedEdgeInputsAndOutputs =>
      exact (records_allDirectedEdgeTokens graph).lookup_eq (mem_neededTokens_all hvalid pool)

end Scans

end AmmSearch
