/-
How far a change of some pools reaches.  The tracked tokens of a pool change only if the
pool itself changes or shares a token pair with a changed one, and the full build and the
reconciliation record the same token counts for pools of the graph.
-/
import AmmSearch.LiquidityRebuild
import AmmSearch.LiveGraph

open FiniteMap StableGraph

namespace AmmSearch

section Neighbors

variable {G : Type} {before after graph : AmmGraph G} {scope : LiquidityIndexScope}
  {changed : List PoolKey} {pool other : PoolKey}

theorem mem_parallelNeighbors (graph : AmmGraph G) (pool other : PoolKey) :
    other ∈ graph.parallelNeighbors pool ↔
      ∃ tokens, graph.poolTokens.lookup pool = some tokens ∧ ∃ pair ∈ tokenPairs tokens,
        other ∈ (graph.pairPools.lookup pair).getD ∅ := by
  unfold AmmGraph.parallelNeighbors
  cases graph.poolTokens.lookup pool with
  | none => simp
  | some tokens =>
      simp only [Option.some.injEq, exists_eq_left']
      apply (foldl_iff (other ∈ ·)
        (fun pair => other ∈ (graph.pairPools.lookup pair).getD ∅) ?_
        (tokenPairs tokens) ∅).trans
      · simp
      · intro neighbors pair
        exact Finset.mem_union

theorem mem_liquidityAffectedPools :
    pool ∈ liquidityAffectedPools before after scope changed ↔
      pool ∈ changed ∨ scope = .parallelEdgeOutputs ∧ ∃ key ∈ changed,
        pool ∈ before.parallelNeighbors key ∨ pool ∈ after.parallelNeighbors key := by
  unfold liquidityAffectedPools
  by_cases hscope : scope = .parallelEdgeOutputs
  · simp only [hscope, if_true, true_and]
    apply (foldl_iff (pool ∈ ·) (fun key => pool ∈ before.parallelNeighbors key ∨
      pool ∈ after.parallelNeighbors key) ?_ (ascending changed.toFinset) _).trans
    · simp only [List.mem_toFinset, mem_ascending]
    · intro affected key
      rw [Finset.mem_union, Finset.mem_union, or_assoc]
  · simp [hscope]

/-- Two pools that hold one pair are neighbours of each other. -/
theorem neighbor_of_pair (hpairs : AmmGraph.PairsIndexed graph.pairPools graph.poolTokens)
    {pair : Address × Address} (hpool : pool ∈ (graph.pairPools.lookup pair).getD ∅)
    (hother : other ∈ (graph.pairPools.lookup pair).getD ∅) :
    pool ∈ graph.parallelNeighbors other := by
  obtain ⟨tokens, htokens, hpair⟩ := ((hpairs pair).2 other).mp hother
  exact (mem_parallelNeighbors graph other pool).mpr ⟨tokens, htokens, pair, hpair, hpool⟩

/-- The pools of a pair that an unaffected pool holds are the same before and after. -/
theorem pairPools_of_unaffected
    (hbefore : AmmGraph.PairsIndexed before.pairPools before.poolTokens)
    (hafter : AmmGraph.PairsIndexed after.pairPools after.poolTokens)
    (hothers : ∀ key ∉ changed, after.poolTokens.lookup key = before.poolTokens.lookup key)
    (hpool : pool ∉ liquidityAffectedPools before after .parallelEdgeOutputs changed)
    {tokens : List Address} (htokens : before.poolTokens.lookup pool = some tokens)
    {pair : Address × Address} (hpair : pair ∈ tokenPairs tokens) :
    (after.pairPools.lookup pair).getD ∅ = (before.pairPools.lookup pair).getD ∅ := by
  rw [mem_liquidityAffectedPools] at hpool
  simp only [true_and, not_or, not_exists, not_and] at hpool
  obtain ⟨hunchanged, hneighbor⟩ := hpool
  have hhere : pool ∈ (before.pairPools.lookup pair).getD ∅ :=
    ((hbefore pair).2 pool).mpr ⟨tokens, htokens, hpair⟩
  have hthere : pool ∈ (after.pairPools.lookup pair).getD ∅ :=
    ((hafter pair).2 pool).mpr ⟨tokens, by rw [hothers pool hunchanged, htokens], hpair⟩
  ext other
  by_cases hother : other ∈ changed
  · obtain ⟨hnotBefore, hnotAfter⟩ := hneighbor other hother
    constructor
    · intro hmem
      exact absurd (neighbor_of_pair hafter hthere hmem) hnotAfter
    · intro hmem
      exact absurd (neighbor_of_pair hbefore hhere hmem) hnotBefore
  · rw [(hafter pair).2, (hbefore pair).2, hothers other hother]

/-- What the scope tracks of a pool outside the affected ones. -/
theorem neededTokens_of_unaffected
    (hbefore : AmmGraph.PairsIndexed before.pairPools before.poolTokens)
    (hafter : AmmGraph.PairsIndexed after.pairPools after.poolTokens)
    (hothers : ∀ key ∉ changed, after.poolTokens.lookup key = before.poolTokens.lookup key)
    (hpool : pool ∉ liquidityAffectedPools before after scope changed) :
    PoolLiquidityIndex.neededTokens after scope pool =
      PoolLiquidityIndex.neededTokens before scope pool := by
  have hunchanged : pool ∉ changed := fun hmem =>
    hpool (mem_liquidityAffectedPools.mpr (Or.inl hmem))
  cases scope with
  | allDirectedEdgeInputsAndOutputs =>
      simp only [PoolLiquidityIndex.neededTokens, AmmGraph.trackedTokensForPool,
        hothers pool hunchanged]
      rfl
  | parallelEdgeOutputs =>
      ext token
      have hmem := mem_trackedTokensForPool after pool token
      have hmemBefore := mem_trackedTokensForPool before pool token
      rw [hothers pool hunchanged] at hmem
      apply hmem.trans (Iff.trans ?_ hmemBefore.symm)
      refine exists_congr fun tokens => and_congr_right fun htokens => ?_
      refine exists_congr fun pair => and_congr_right fun hpair => ?_
      rw [pairPools_of_unaffected hbefore hafter hothers hpool htokens hpair]

theorem neededTokens_of_absent (habsent : graph.poolTokens.lookup pool = none) :
    PoolLiquidityIndex.neededTokens graph scope pool = ∅ := by
  unfold PoolLiquidityIndex.neededTokens AmmGraph.trackedTokensForPool
  rw [habsent]

end Neighbors

namespace PoolLiquidityIndex

section Counts

variable {G : Type} {registry : AdapterRegistry} {graph : AmmGraph G}
  {scope : LiquidityIndexScope} {index : PoolLiquidityIndex}

/-- The token count that a full build records for a registration. -/
def builtCount (tracked : Map PoolKey (Finset Address)) (registration : PoolRegistration) :
    Option ℕ :=
  (tracked.lookup registration.key).bind fun _ =>
    registration.tokens.bind fun tokens =>
      if (sortDedup tokens).length < 2 then none else some (sortDedup tokens).length

theorem counts_foldl {step : PoolLiquidityIndex → Address → PoolLiquidityIndex}
    (hkeeps : ∀ index token, (step index token).poolTokenCounts = index.poolTokenCounts)
    (tokens : List Address) (index : PoolLiquidityIndex) :
    (tokens.foldl step index).poolTokenCounts = index.poolTokenCounts := by
  induction tokens generalizing index with
  | nil => rfl
  | cons token rest ih => rw [List.foldl_cons, ih, hkeeps]

theorem counts_foldl_fst {step : PoolLiquidityIndex × ℕ → Address → PoolLiquidityIndex × ℕ}
    (hkeeps : ∀ state token, (step state token).1.poolTokenCounts = state.1.poolTokenCounts)
    (tokens : List Address) (state : PoolLiquidityIndex × ℕ) :
    (tokens.foldl step state).1.poolTokenCounts = state.1.poolTokenCounts := by
  induction tokens generalizing state with
  | nil => rfl
  | cons token rest ih => rw [List.foldl_cons, ih, hkeeps]

/-- One registration of a full build records its own count. -/
theorem counts_indexPool (tracked : Map PoolKey (Finset Address))
    (state : PoolLiquidityIndex × ℕ) (registration : PoolRegistration) (pool : PoolKey) :
    (indexPool tracked state registration).1.poolTokenCounts.lookup pool =
      if pool = registration.key then
        (builtCount tracked registration).or (state.1.poolTokenCounts.lookup pool)
      else state.1.poolTokenCounts.lookup pool := by
  unfold indexPool builtCount
  cases tracked.lookup registration.key with
  | none => simp
  | some needed =>
      cases registration.tokens with
      | none => simp
      | some tokens =>
          simp only [Option.bind_some]
          by_cases hfew : (sortDedup tokens).length < 2
          · simp [hfew]
          · have hcounted : (if pool = registration.key then
                (some (sortDedup tokens).length).or (state.1.poolTokenCounts.lookup pool)
              else state.1.poolTokenCounts.lookup pool) =
                (state.1.poolTokenCounts.insert registration.key
                  (sortDedup tokens).length).lookup pool := by
              rw [lookup_insert_eq]
              rfl
            rw [if_neg hfew, if_neg hfew, hcounted]
            by_cases hnone : ((sortDedup tokens).filter fun token => token ∈ needed) = []
            · rw [if_pos hnone]
            · rw [if_neg hnone]
              refine congrArg (Finmap.lookup pool) ?_
              cases registration.metadata with
              | balancerV2 metadata =>
                  refine (counts_foldl_fst ?_ _ _).trans rfl
                  exact fun _ _ => rfl
              | unknown => rfl
              | custom tag => rfl
              | uniswapV2 _ | uniswapV3 _ | pancakeV3 _ | slipstream _ | solidlyV2 _
              | curve _ =>
                  cases registration.key.address with
                  | none =>
                      refine (counts_foldl ?_ _ _).trans rfl
                      exact fun _ _ => rfl
                  | some holder =>
                      refine (counts_foldl ?_ _ _).trans rfl
                      exact fun _ _ => rfl

theorem counts_foldl_indexPool (tracked : Map PoolKey (Finset Address))
    (registrations : List PoolRegistration)
    (hnodup : (registrations.map PoolRegistration.key).Nodup) (state : PoolLiquidityIndex × ℕ) :
    (∀ registration ∈ registrations,
      (registrations.foldl (indexPool tracked) state).1.poolTokenCounts.lookup
          registration.key =
        (builtCount tracked registration).or
          (state.1.poolTokenCounts.lookup registration.key)) ∧
    ∀ pool ∉ registrations.map PoolRegistration.key,
      (registrations.foldl (indexPool tracked) state).1.poolTokenCounts.lookup pool =
        state.1.poolTokenCounts.lookup pool := by
  induction registrations generalizing state with
  | nil => exact ⟨by simp, fun _ _ => rfl⟩
  | cons head rest ih =>
      rw [List.map_cons, List.nodup_cons] at hnodup
      obtain ⟨hregistered, hothers⟩ := ih hnodup.2 (indexPool tracked state head)
      constructor
      · intro registration hmem
        rw [List.foldl_cons]
        rcases List.mem_cons.mp hmem with rfl | hlater
        · rw [hothers _ hnodup.1, counts_indexPool, if_pos rfl]
        · have hne : registration.key ≠ head.key := fun hkey =>
            hnodup.1 (hkey ▸ List.mem_map_of_mem hlater)
          rw [hregistered registration hlater, counts_indexPool, if_neg hne]
      · intro pool hpool
        rw [List.map_cons, List.mem_cons, not_or] at hpool
        rw [List.foldl_cons, hothers pool hpool.2, counts_indexPool, if_neg hpool.1]

/-- One reconciliation records the count of its pool and of no other. -/
theorem counts_reconcilePool (hindex : index.WellFormed)
    (report : PoolLiquidityMutationReport) (pool other : PoolKey) :
    (reconcilePool registry graph scope (index, report) pool).1.poolTokenCounts.lookup other =
      if other = pool then registeredCount registry graph scope pool
      else index.poolTokenCounts.lookup other := by
  obtain ⟨hremoved, htargets, hcounts⟩ := removePoolTargets_spec hindex pool
  have hpushed : (reconcilePool registry graph scope (index, report) pool).1.poolTokenCounts =
      (countPoolTokens registry pool (index.reconciledTargets registry graph scope pool)
        (index.removePoolTargets pool)).poolTokenCounts := by
    obtain ⟨counts, hcounted⟩ := countPoolTokens_eq registry pool
      (index.reconciledTargets registry graph scope pool) (index.removePoolTargets pool)
    rw [reconcilePool_fst, hcounted]
    apply (pushTargets_spec (hremoved.of_counts counts) (nodup_reconciledEntries hindex pool)
      ?_).2.1
    intro entry _
    exact (htargets pool entry.1).trans (if_pos rfl)
  rw [hpushed]
  unfold countPoolTokens registeredCount
  have hcleared : (index.removePoolTargets pool).poolTokenCounts.lookup other =
      if other = pool then none else index.poolTokenCounts.lookup other := by
    rw [hcounts, lookup_erase_eq]
  rw [reconciledTargets_eq hindex]
  cases registry.pool pool with
  | none => exact hcleared
  | some registration =>
      simp only [Option.bind_some, Option.elim_some, ne_eq, List.map_eq_nil_iff]
      cases registration.tokens with
      | none => exact hcleared
      | some tokens =>
          simp only [Option.bind_some]
          split
          · simp only [lookup_insert_eq, hcleared]
            split
            · rfl
            · rfl
          · exact hcleared

/-- Reconciling distinct pools one after the other. -/
theorem counts_foldl_reconcilePool (hindex : index.WellFormed)
    (report : PoolLiquidityMutationReport) {pools : List PoolKey} (hnodup : pools.Nodup)
    (pool : PoolKey) :
    (pools.foldl (reconcilePool registry graph scope)
        (index, report)).1.poolTokenCounts.lookup pool =
      if pool ∈ pools then registeredCount registry graph scope pool
      else index.poolTokenCounts.lookup pool := by
  induction pools generalizing index report with
  | nil => simp
  | cons head rest ih =>
      rw [List.nodup_cons] at hnodup
      rw [List.foldl_cons, ih (wellFormed_reconcilePool hindex report head) _ hnodup.2]
      rw [counts_reconcilePool hindex report head pool]
      by_cases hpool : pool = head
      · subst hpool
        simp [hnodup.1]
      · simp [hpool]

theorem mem_sortedPools (pools : Finset PoolKey) (pool : PoolKey) :
    pool ∈ sortedPools pools ↔ pool ∈ pools := by
  rw [sortedPools, mem_destutter_ne]
  exact (List.perm_insertionSort _ _).mem_iff.trans (mem_ascending pools pool)

theorem nodup_sortedPools (pools : Finset PoolKey) : (sortedPools pools).Nodup :=
  ((List.perm_insertionSort _ _).nodup_iff.mpr (nodup_ascending pools)).sublist
    (List.destutter_sublist _ _)

/-- A reconciliation of selected pools. -/
theorem target_reconcilePools (hindex : index.WellFormed) (pools : Finset PoolKey)
    (pool : PoolKey) (token : Address) :
    (index.reconcilePools registry graph scope pools).1.target pool token =
      if pool ∈ pools then
        (registeredSource registry graph scope pool token).map fun source =>
          reconciledTarget (index.target pool token) source
      else index.target pool token := by
  have hfold := @target_foldl_reconcilePool G registry graph scope index hindex {}
    (sortedPools pools) (nodup_sortedPools pools) pool token
  simp only [mem_sortedPools] at hfold
  exact hfold

theorem counts_reconcilePools (hindex : index.WellFormed) (pools : Finset PoolKey)
    (pool : PoolKey) :
    (index.reconcilePools registry graph scope pools).1.poolTokenCounts.lookup pool =
      if pool ∈ pools then registeredCount registry graph scope pool
      else index.poolTokenCounts.lookup pool := by
  have hfold := @counts_foldl_reconcilePool G registry graph scope index hindex {}
    (sortedPools pools) (nodup_sortedPools pools) pool
  simp only [mem_sortedPools] at hfold
  exact hfold

end Counts

section Registered

variable {G : Type} {registry : AdapterRegistry} {graph : AmmGraph G}
  {scope : LiquidityIndexScope} {options : GraphBuildOptions} {pool : PoolKey}
  {token : Address}

/-- The token list of a registration is that of its metadata. -/
def ListsTokens (registration : PoolRegistration) : Prop :=
  ∀ tokens, tokensForPool registration = .ok tokens →
    ∃ listed, registration.tokens = some listed ∧ sortDedup listed = tokens

/-- The graph holds exactly the registered pools that the options index. -/
structure Registers (registry : AdapterRegistry) (graph : AmmGraph G)
    (options : GraphBuildOptions) : Prop where
  lookup : ∀ pool, graph.poolTokens.lookup pool =
    (registry.pool pool).bind (AmmGraph.registeredEntry · options)
  lists : ∀ pool registration, registry.pool pool = some registration →
    ListsTokens registration

theorem exists_tokens_of_needed (hneeded : token ∈ neededTokens graph scope pool) :
    ∃ tokens, graph.poolTokens.lookup pool = some tokens ∧ token ∈ tokens := by
  cases scope with
  | parallelEdgeOutputs =>
      obtain ⟨tokens, htokens, pair, hpair, -, hends⟩ :=
        (mem_trackedTokensForPool graph pool token).mp hneeded
      obtain ⟨hfirst, hsecond⟩ := mem_tokenPairs_left hpair
      refine ⟨tokens, htokens, ?_⟩
      rcases hends with rfl | rfl
      · exact hfirst
      · exact hsecond
  | allDirectedEdgeInputsAndOutputs =>
      unfold neededTokens AmmGraph.trackedTokensForPool at hneeded
      cases htokens : graph.poolTokens.lookup pool with
      | none => simp [htokens] at hneeded
      | some tokens => exact ⟨tokens, rfl, by simpa [htokens] using hneeded⟩

theorem tokensForPool_of_registeredEntry {registration : PoolRegistration}
    {tokens : List Address}
    (hentry : AmmGraph.registeredEntry registration options = some tokens) :
    tokensForPool registration = .ok tokens := by
  unfold AmmGraph.registeredEntry indexedTokens at hentry
  split at hentry
  · cases htokens : tokensForPool registration with
    | error reason =>
        rw [htokens] at hentry
        cases hentry
    | ok found =>
        rw [htokens] at hentry
        exact congrArg Except.ok (Option.some.inj hentry)
  · cases hentry

/-- A registration with indexed tokens says where its balances are. -/
theorem desiredSource_ne_none {registration : PoolRegistration} {tokens : List Address}
    (htokens : tokensForPool registration = .ok tokens) (token : Address) :
    desiredSource registration token ≠ none := by
  unfold tokensForPool metadataTokens at htokens
  unfold desiredSource
  cases hmetadata : registration.metadata with
  | unknown =>
      rw [hmetadata] at htokens
      cases htokens
  | custom tag =>
      rw [hmetadata] at htokens
      cases htokens
  | uniswapV2 _ | uniswapV3 _ | pancakeV3 _ | slipstream _ | solidlyV2 _ | balancerV2 _
  | curve _ => simp

/-- What is tracked of a registered pool are tokens of its registration. -/
theorem Registers.of_needed (hregisters : Registers registry graph options)
    (hneeded : token ∈ neededTokens graph scope pool) :
    ∃ registration listed, registry.pool pool = some registration ∧
      registration.tokens = some listed ∧ 2 ≤ (sortDedup listed).length ∧
      token ∈ sortDedup listed ∧ desiredSource registration token ≠ none := by
  obtain ⟨tokens, hlookup, htoken⟩ := exists_tokens_of_needed hneeded
  rw [hregisters.lookup] at hlookup
  obtain ⟨registration, hpool, hentry⟩ := Option.bind_eq_some_iff.mp hlookup
  have htokens := tokensForPool_of_registeredEntry hentry
  obtain ⟨listed, hlisted, hsame⟩ := hregisters.lists pool registration hpool tokens htokens
  refine ⟨registration, listed, hpool, hlisted, ?_, ?_, desiredSource_ne_none htokens token⟩
  · rw [hsame]
    exact (AmmGraph.registeredEntry_valid hentry).2
  · rw [hsame]
    exact htoken

theorem Registers.builtSource_eq (hregisters : Registers registry graph options)
    (token : Address) : builtSource registry graph scope pool token =
      registeredSource registry graph scope pool token := by
  refine (builtSource_eq_iff pool).mpr ?_ token
  rintro ⟨registration, tokens, found, hpool, htokens, hfew, hwanted⟩
  have hneeded : found ∈ neededTokens graph scope pool := by
    unfold wantedSource at hwanted
    rw [htokens, Option.bind_some] at hwanted
    by_contra hnot
    exact hwanted (if_neg fun hboth => hnot hboth.2)
  obtain ⟨other, listed, hother, hlisted, hmany, -⟩ := hregisters.of_needed hneeded
  obtain rfl := Option.some.inj (hpool.symm.trans hother)
  obtain rfl := Option.some.inj (htokens.symm.trans hlisted)
  omega

end Registered

section Built

variable {G : Type} [StableDiGraph G Address EdgeData] {registry : AdapterRegistry}
  {graph : AmmGraph G} {scope : LiquidityIndexScope} {options : GraphBuildOptions}

/-- A full build records the count that a reconciliation would. -/
theorem counts_fromRegistryWithScope (hvalid : graph.Valid)
    (hregisters : Registers registry graph options) (pool : PoolKey) :
    (fromRegistryWithScope registry graph scope).1.poolTokenCounts.lookup pool =
      registeredCount registry graph scope pool := by
  have hperm := List.perm_insertionSort
    (fun left right : PoolRegistration => left.key.debug ≤ right.key.debug) registry.pools
  obtain ⟨hregistered, hothers⟩ := counts_foldl_indexPool (trackedTokensByPool graph scope)
    (registry.pools.insertionSort fun left right => left.key.debug ≤ right.key.debug)
    ((hperm.map PoolRegistration.key).nodup_iff.mpr registry.nodup_keys)
    (PoolLiquidityIndex.empty, 0)
  have hnone : PoolLiquidityIndex.empty.poolTokenCounts.lookup pool = none := by
    simp [PoolLiquidityIndex.empty]
  change ((registry.pools.insertionSort _).foldl _
    (PoolLiquidityIndex.empty, 0)).1.poolTokenCounts.lookup pool = _
  unfold registeredCount
  cases hpool : registry.pool pool with
  | none =>
      rw [hothers, hnone]
      · rfl
      · intro hmem
        rw [(hperm.map PoolRegistration.key).mem_iff] at hmem
        obtain ⟨registration, hmem, hkey⟩ := List.mem_map.mp hmem
        have hsome := (registry.pool_eq_some_iff pool registration).mpr ⟨hmem, hkey⟩
        rw [hpool] at hsome
        cases hsome
  | some registration =>
      obtain ⟨hmem, rfl⟩ := (registry.pool_eq_some_iff pool registration).mp hpool
      rw [hregistered registration (hperm.mem_iff.mpr hmem), hnone, Option.or_none,
        Option.bind_some]
      unfold builtCount
      rw [lookup_trackedTokensByPool hvalid]
      by_cases hempty : neededTokens graph scope registration.key = ∅
      · rw [if_pos hempty, hempty, desiredTargets_empty]
        cases registration.tokens with
        | none => rfl
        | some tokens => simp
      · obtain ⟨token, hneeded⟩ := Finset.nonempty_iff_ne_empty.mpr hempty
        obtain ⟨other, listed, hother, hlisted, hmany, htoken, hsource⟩ :=
          hregisters.of_needed hneeded
        obtain rfl := Option.some.inj (hpool.symm.trans hother)
        have hdesired :
            desiredTargets registration (neededTokens graph scope registration.key) ≠ [] := by
          intro hnil
          have hlookup := (desiredTargets_spec registration
            (neededTokens graph scope registration.key)).2 token
          rw [hnil, wantedSource, hlisted, Option.bind_some, if_pos ⟨htoken, hneeded⟩]
            at hlookup
          exact hsource hlookup.symm
        rw [if_neg hempty, hlisted, Option.bind_some, Option.bind_some, Option.bind_some,
          if_neg (not_lt.mpr hmany), if_pos ⟨hmany, hdesired⟩]

end Built

end PoolLiquidityIndex

end AmmSearch
