/-
Full build and reconciliation of a liquidity index.  Both give each pool the targets
that its registration and its tracked tokens ask for; reconciliation also keeps the
slots that were discovered and the balances of unchanged sources.
-/
import AmmSearch.AmmGraphLinks
import AmmSearch.LiquidityView

open FiniteMap StableGraph

namespace AmmSearch

/-- Where a registration stores its balance of a token, for the tracked protocols. -/
def desiredSource (pool : PoolRegistration) (token : Address) : Option LiquiditySource :=
  match pool.metadata with
  | .uniswapV2 _ | .uniswapV3 _ | .pancakeV3 _ | .slipstream _ | .solidlyV2 _ | .curve _ =>
      some (match pool.key.address with
        | none => .unknown
        | some holder => .erc20Balance holder none)
  | .balancerV2 metadata => some (balancerSource metadata token)
  | .unknown | .custom _ => none

/-- The source that a registration asks for when `needed` tokens are tracked. -/
def wantedSource (pool : PoolRegistration) (needed : Finset Address) (token : Address) :
    Option LiquiditySource :=
  pool.tokens.bind fun tokens =>
    if token ∈ sortDedup tokens ∧ token ∈ needed then desiredSource pool token else none

theorem nodup_sortDedup (tokens : List Address) : (sortDedup tokens).Nodup :=
  (pairwise_lt_sortDedup tokens).imp fun hlt => ne_of_lt hlt

section Lists

variable {α β : Type} [DecidableEq α]

theorem lookup_map_pair {keys : List α} (value : α → β) (key : α) :
    (keys.map fun key => (key, value key)).lookup key =
      if key ∈ keys then some (value key) else none := by
  induction keys with
  | nil => simp
  | cons head rest ih =>
      rw [List.map_cons, List.lookup_cons, ih]
      by_cases hhead : key = head
      · subst hhead
        simp
      · have hbeq : (key == head) = false := beq_eq_false_iff_ne.mpr hhead
        simp [hbeq, hhead]

theorem lookup_map_value {γ : Type} (entries : List (α × β)) (change : α → β → γ) (key : α) :
    (entries.map fun entry => (entry.1, change entry.1 entry.2)).lookup key =
      (entries.lookup key).map (change key) := by
  induction entries with
  | nil => rfl
  | cons head rest ih =>
      obtain ⟨headKey, value⟩ := head
      rw [List.map_cons, List.lookup_cons, List.lookup_cons, ih]
      by_cases hhead : key = headKey
      · subst hhead
        simp
      · have hbeq : (key == headKey) = false := beq_eq_false_iff_ne.mpr hhead
        simp [hbeq]

end Lists

theorem desiredTargets_spec (pool : PoolRegistration) (needed : Finset Address) :
    ((desiredTargets pool needed).map Prod.fst).Nodup ∧
      ∀ token, (desiredTargets pool needed).lookup token = wantedSource pool needed token := by
  unfold desiredTargets wantedSource desiredSource
  cases pool.tokens with
  | none => exact ⟨List.nodup_nil, fun _ => rfl⟩
  | some tokens =>
      have hnodup : ((sortDedup tokens).filter fun token => token ∈ needed).Nodup :=
        (nodup_sortDedup tokens).filter _
      have hkeys : ∀ source : Address → LiquiditySource,
          ((((sortDedup tokens).filter fun token => token ∈ needed).map fun token =>
            (token, source token)).map Prod.fst).Nodup := by
        intro source
        rw [List.map_map]
        simpa [Function.comp_def] using hnodup
      have hlookup : ∀ (source : Address → LiquiditySource) token,
          (((sortDedup tokens).filter fun token => token ∈ needed).map fun token =>
            (token, source token)).lookup token =
            if token ∈ sortDedup tokens ∧ token ∈ needed then some (source token)
            else none := by
        intro source token
        rw [lookup_map_pair]
        simp [List.mem_filter]
      simp only [Option.bind_some]
      cases pool.metadata <;>
        first
          | exact ⟨hkeys _, fun token => hlookup _ token⟩
          | exact ⟨List.nodup_nil, fun token => by simp⟩

namespace PoolLiquidityIndex

/-- What a pair is tracked as after a reconciliation that wants `source` for it. -/
def reconciledTarget (previous : Option (LiquiditySource × BalanceState))
    (source : LiquiditySource) : LiquiditySource × BalanceState :=
  match previous with
  | none => (source, .unknown)
  | some (previousSource, balance) =>
      (previousSource.preserveDiscoveredSource source,
        if previousSource = previousSource.preserveDiscoveredSource source then balance
        else .unknown)

section Reconcile

variable {G : Type} {registry : AdapterRegistry} {graph : AmmGraph G}
  {scope : LiquidityIndexScope} {index : PoolLiquidityIndex}

/-- The tokens of a pool that the scope tracks. -/
def neededTokens (graph : AmmGraph G) (scope : LiquidityIndexScope) (pool : PoolKey) :
    Finset Address :=
  graph.trackedTokensForPool pool (scope = .parallelEdgeOutputs)

/-- The source that the registry asks for a pair. -/
def registeredSource (registry : AdapterRegistry) (graph : AmmGraph G)
    (scope : LiquidityIndexScope) (pool : PoolKey) (token : Address) :
    Option LiquiditySource :=
  (registry.pool pool).bind fun registration =>
    wantedSource registration (neededTokens graph scope pool) token

/-- The token count that is recorded for a pool with targets. -/
def registeredCount (registry : AdapterRegistry) (graph : AmmGraph G)
    (scope : LiquidityIndexScope) (pool : PoolKey) : Option ℕ :=
  (registry.pool pool).bind fun registration =>
    registration.tokens.bind fun tokens =>
      if 2 ≤ (sortDedup tokens).length ∧
          desiredTargets registration (neededTokens graph scope pool) ≠ [] then
        some (sortDedup tokens).length
      else none

theorem wantedSource_empty (pool : PoolRegistration) (token : Address) :
    wantedSource pool ∅ token = none := by
  unfold wantedSource
  cases pool.tokens with
  | none => rfl
  | some tokens => simp

theorem desiredTargets_empty (pool : PoolRegistration) : desiredTargets pool ∅ = [] := by
  unfold desiredTargets
  cases pool.tokens with
  | none => rfl
  | some tokens => cases pool.metadata <;> simp

/-- The unreconciled targets of the loop body. -/
theorem reconciledTargets_eq (hindex : index.WellFormed) (pool : PoolKey) :
    index.reconciledTargets registry graph scope pool =
      ((registry.pool pool).elim [] fun registration =>
        desiredTargets registration (neededTokens graph scope pool)).map fun entry =>
          (entry.1, (reconciledTarget (index.target pool entry.1) entry.2).1) := by
  unfold reconciledTargets
  cases registry.pool pool with
  | none => rfl
  | some registration =>
      have hdesired : (if neededTokens graph scope pool = ∅ then []
          else desiredTargets registration (neededTokens graph scope pool)) =
          desiredTargets registration (neededTokens graph scope pool) := by
        split
        · rename_i hempty
          rw [hempty, desiredTargets_empty]
        · rfl
      refine (congrArg (List.map _) hdesired).trans (List.map_congr_left ?_)
      rintro ⟨token, source⟩ _
      dsimp only
      rw [previousTargets_lookup hindex]
      cases index.target pool token <;> rfl

/-- The targets that a reconciliation pushes for a pool. -/
def reconciledEntries (index : PoolLiquidityIndex) (registry : AdapterRegistry)
    (graph : AmmGraph G) (scope : LiquidityIndexScope) (pool : PoolKey) :
    List (Address × LiquiditySource × BalanceState) :=
  (index.reconciledTargets registry graph scope pool).map fun entry =>
    (entry.1, entry.2, keptBalance (index.previousTargets pool) entry.1 entry.2)

/-- A reconciliation drops the targets of a pool and pushes the wanted ones. -/
theorem reconcilePool_fst (state : PoolLiquidityIndex × PoolLiquidityMutationReport)
    (pool : PoolKey) :
    (reconcilePool registry graph scope state pool).1 =
      (countPoolTokens registry pool (state.1.reconciledTargets registry graph scope pool)
        (state.1.removePoolTargets pool)).pushTargets pool
        (state.1.reconciledEntries registry graph scope pool) := by
  unfold reconciledEntries pushTargets
  rw [List.foldl_map]
  rfl

theorem nodup_reconciledTargets (hindex : index.WellFormed) (pool : PoolKey) :
    ((index.reconciledTargets registry graph scope pool).map Prod.fst).Nodup := by
  rw [reconciledTargets_eq hindex, List.map_map]
  cases registry.pool pool with
  | none => exact List.nodup_nil
  | some registration =>
      exact (desiredTargets_spec registration (neededTokens graph scope pool)).1

theorem nodup_reconciledEntries (hindex : index.WellFormed) (pool : PoolKey) :
    ((index.reconciledEntries registry graph scope pool).map Prod.fst).Nodup := by
  unfold reconciledEntries
  rw [List.map_map]
  exact nodup_reconciledTargets hindex pool

/-- The token counts do not take part in the bookkeeping of the targets. -/
theorem WellFormed.of_counts (hindex : index.WellFormed) (counts : Map PoolKey ℕ) :
    { index with poolTokenCounts := counts }.WellFormed :=
  ⟨⟨hindex.slots, hindex.located, hindex.injective, hindex.owned, hindex.released⟩,
    hindex.mem_byPool, hindex.nodup_byPool⟩

/-- Recording a token count only changes the counts. -/
theorem countPoolTokens_eq (registry : AdapterRegistry) (pool : PoolKey)
    (desired : List (Address × LiquiditySource)) (index : PoolLiquidityIndex) :
    ∃ counts, countPoolTokens registry pool desired index =
      { index with poolTokenCounts := counts } := by
  unfold countPoolTokens
  cases registry.pool pool with
  | none => exact ⟨index.poolTokenCounts, rfl⟩
  | some registration =>
      have hcounts : ∀ (counted : Prop) [Decidable counted] (recorded : Map PoolKey ℕ),
          ∃ counts, (if counted then { index with poolTokenCounts := recorded } else index) =
            { index with poolTokenCounts := counts } := by
        intro counted _ recorded
        split
        · exact ⟨recorded, rfl⟩
        · exact ⟨index.poolTokenCounts, rfl⟩
      exact hcounts _ _

end Reconcile

end PoolLiquidityIndex

end AmmSearch
