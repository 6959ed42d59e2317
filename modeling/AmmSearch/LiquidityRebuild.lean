/-
Reconciliation against a full build.  Both give a pool the targets that its
registration asks for, except that the full build passes over registrations with fewer
than two tokens; reconciliation keeps discovered slots and the balances of unchanged
sources, and counts what it adds, removes and keeps.
-/
import AmmSearch.FiniteMapTotals
import AmmSearch.LiquidityHolders
import AmmSearch.TrackedTokens

open FiniteMap StableGraph

namespace AmmSearch

namespace PoolLiquidityIndex

section Build

variable {G : Type} [StableDiGraph G Address EdgeData] {registry : AdapterRegistry}
  {graph : AmmGraph G} {scope : LiquidityIndexScope}

/-- The registrations of a full build each get the targets of their own pool. -/
theorem foldl_indexPool_target (tracked : Map PoolKey (Finset Address))
    (registrations : List PoolRegistration)
    (hnodup : (registrations.map PoolRegistration.key).Nodup)
    (state : PoolLiquidityIndex × ℕ) (hindex : state.1.WellFormed)
    (hnew : ∀ registration ∈ registrations, ∀ token,
      state.1.target registration.key token = none) :
    (∀ registration ∈ registrations, ∀ token,
      (registrations.foldl (indexPool tracked) state).1.target registration.key token =
        (builtEntries tracked registration).lookup token) ∧
    ∀ pool ∉ registrations.map PoolRegistration.key, ∀ token,
      (registrations.foldl (indexPool tracked) state).1.target pool token =
        state.1.target pool token := by
  induction registrations generalizing state with
  | nil => exact ⟨by simp, fun _ _ _ => rfl⟩
  | cons head rest ih =>
      rw [List.map_cons, List.nodup_cons] at hnodup
      obtain ⟨counts, heq⟩ := indexPool_fst tracked state head
      have hfresh : ∀ entry ∈ builtEntries tracked head,
          ({ state.1 with poolTokenCounts := counts } : PoolLiquidityIndex).target head.key
            entry.1 = none :=
        fun entry _ => hnew head List.mem_cons_self entry.1
      obtain ⟨hpushed, _, htargets⟩ := pushTargets_spec (hindex.of_counts counts)
        (nodup_builtEntries tracked head) hfresh
      rw [← heq] at hpushed htargets
      have hothers : ∀ pool ≠ head.key, ∀ token,
          (indexPool tracked state head).1.target pool token = state.1.target pool token := by
        intro pool hne token
        rw [htargets, if_neg hne]
        rfl
      have hnext : ∀ registration ∈ rest, ∀ token,
          (indexPool tracked state head).1.target registration.key token = none := by
        intro registration hmem token
        rw [hothers]
        · exact hnew registration (List.mem_cons_of_mem head hmem) token
        · intro hkey
          exact hnodup.1 (hkey ▸ List.mem_map_of_mem hmem)
      obtain ⟨hregistered, hrest⟩ := ih hnodup.2 (indexPool tracked state head) hpushed hnext
      constructor
      · intro registration hmem token
        rcases List.mem_cons.mp hmem with rfl | hlater
        · rw [List.foldl_cons, hrest _ hnodup.1, htargets, if_pos rfl]
          have hnone := hnew registration List.mem_cons_self token
          change (_ : Option _).or (state.1.target registration.key token) = _
          rw [hnone, Option.or_none]
        · exact hregistered registration hlater token
      · intro pool hpool token
        rw [List.map_cons, List.mem_cons, not_or] at hpool
        rw [List.foldl_cons, hrest pool hpool.2, hothers pool hpool.1]

/-- The source that a full build gives a pair. -/
def builtSource (registry : AdapterRegistry) (graph : AmmGraph G)
    (scope : LiquidityIndexScope) (pool : PoolKey) (token : Address) :
    Option LiquiditySource :=
  (registry.pool pool).bind fun registration =>
    registration.tokens.bind fun tokens =>
      if (sortDedup tokens).length < 2 then none
      else wantedSource registration (neededTokens graph scope pool) token

theorem lookup_builtEntries (hvalid : graph.Valid) (registration : PoolRegistration)
    (token : Address) :
    (builtEntries (trackedTokensByPool graph scope) registration).lookup token =
      (registration.tokens.bind fun tokens =>
        if (sortDedup tokens).length < 2 then none
        else wantedSource registration (neededTokens graph scope registration.key)
          token).map fun source => (source, .unknown) := by
  have hwanted : ∀ needed : Finset Address,
      ((desiredTargets registration needed).map fun entry =>
        (entry.1, entry.2, BalanceState.unknown)).lookup token =
        (wantedSource registration needed token).map fun source =>
          (source, BalanceState.unknown) := by
    intro needed
    rw [lookup_map_value (desiredTargets registration needed)
      fun _ source => (source, BalanceState.unknown), (desiredTargets_spec registration needed).2]
  unfold builtEntries
  rw [lookup_trackedTokensByPool hvalid]
  by_cases hempty : neededTokens graph scope registration.key = ∅
  · rw [if_pos hempty, hempty]
    cases registration.tokens with
    | none => rfl
    | some tokens =>
        rw [Option.bind_some, wantedSource_empty, ite_self]
        rfl
  · rw [if_neg hempty]
    cases registration.tokens with
    | none => rfl
    | some tokens =>
        rw [Option.bind_some]
        by_cases hfew : (sortDedup tokens).length < 2
        · simp only [hfew, if_true]
          rfl
        · simp only [hfew, if_false]
          exact hwanted _

theorem target_fromRegistryWithScope (hvalid : graph.Valid) (pool : PoolKey)
    (token : Address) :
    (fromRegistryWithScope registry graph scope).1.target pool token =
      (builtSource registry graph scope pool token).map fun source => (source, .unknown) := by
  have hperm := List.perm_insertionSort
    (fun left right : PoolRegistration => left.key.debug ≤ right.key.debug) registry.pools
  have hnone : ∀ other found, (PoolLiquidityIndex.empty).target other found = none := by
    intro other found
    simp [target, PoolLiquidityIndex.empty]
  obtain ⟨hregistered, hothers⟩ := foldl_indexPool_target (trackedTokensByPool graph scope)
    (registry.pools.insertionSort fun left right => left.key.debug ≤ right.key.debug)
    ((hperm.map PoolRegistration.key).nodup_iff.mpr registry.nodup_keys)
    (PoolLiquidityIndex.empty, 0) wellFormed_empty (fun registration _ => hnone _)
  change ((registry.pools.insertionSort _).foldl _ (PoolLiquidityIndex.empty, 0)).1.target
    pool token = _
  unfold builtSource
  cases hpool : registry.pool pool with
  | none =>
      rw [hothers, hnone]
      · rfl
      · intro hmem
        rw [(hperm.map PoolRegistration.key).mem_iff] at hmem
        obtain ⟨registration, hmem, hkey⟩ := List.mem_map.mp hmem
        have hsome := (registry.pool_eq_some_iff pool registration).mpr ⟨hmem, hkey⟩
        rw [hpool] at hsome
        cases hsome
  | some registration =>
      obtain ⟨hmem, rfl⟩ := (registry.pool_eq_some_iff pool registration).mp hpool
      rw [hregistered registration (hperm.mem_iff.mpr hmem), lookup_builtEntries hvalid]
      rfl

end Build

section Reconcile

variable {G : Type} {registry : AdapterRegistry} {graph : AmmGraph G}
  {scope : LiquidityIndexScope} {index : PoolLiquidityIndex}

/-- One reconciliation replaces the targets of its pool and of no other. -/
theorem target_reconcilePool (hindex : index.WellFormed)
    (report : PoolLiquidityMutationReport) (pool other : PoolKey) (token : Address) :
    (reconcilePool registry graph scope (index, report) pool).1.target other token =
      if other = pool then
        (registeredSource registry graph scope pool token).map fun source =>
          reconciledTarget (index.target pool token) source
      else index.target other token := by
  obtain ⟨counts, hcounts⟩ := countPoolTokens_eq registry pool
    (index.reconciledTargets registry graph scope pool) (index.removePoolTargets pool)
  obtain ⟨hremoved, htargets, _⟩ := removePoolTargets_spec hindex pool
  have hnew : ∀ entry ∈ index.reconciledEntries registry graph scope pool,
      ({ index.removePoolTargets pool with poolTokenCounts := counts } :
        PoolLiquidityIndex).target pool entry.1 = none := by
    intro entry _
    have hnone := htargets pool entry.1
    rwa [if_pos rfl] at hnone
  have hpushed := (pushTargets_spec (hremoved.of_counts counts)
    (nodup_reconciledEntries hindex pool) hnew).2.2 other token
  rw [reconcilePool_fst, hcounts, hpushed]
  have hcleared : ({ index.removePoolTargets pool with poolTokenCounts := counts } :
      PoolLiquidityIndex).target other token =
        if other = pool then none else index.target other token := htargets other token
  rw [hcleared]
  by_cases hother : other = pool
  · rw [if_pos hother, if_pos hother, if_pos hother, Option.or_none]
    unfold reconciledEntries
    rw [lookup_map_value (index.reconciledTargets registry graph scope pool)
      fun token source => (source, keptBalance (index.previousTargets pool) token source),
      reconciledTargets_eq hindex,
      lookup_map_value _ fun token source =>
        (reconciledTarget (index.target pool token) source).1, Option.map_map]
    have hlookup : ((registry.pool pool).elim [] fun registration =>
        desiredTargets registration (neededTokens graph scope pool)).lookup token =
          registeredSource registry graph scope pool token := by
      unfold registeredSource
      cases registry.pool pool with
      | none => rfl
      | some registration =>
          exact (desiredTargets_spec registration (neededTokens graph scope pool)).2 token
    rw [hlookup]
    congr 1
    funext source
    rw [Function.comp_apply, keptBalance, previousTargets_lookup hindex]
    cases index.target pool token <;> rfl
  · rw [if_neg hother, if_neg hother, if_neg hother]

/-- Reconciling distinct pools one after the other. -/
theorem target_foldl_reconcilePool (hindex : index.WellFormed)
    (report : PoolLiquidityMutationReport) {pools : List PoolKey} (hnodup : pools.Nodup)
    (pool : PoolKey) (token : Address) :
    (pools.foldl (reconcilePool registry graph scope) (index, report)).1.target pool token =
      if pool ∈ pools then
        (registeredSource registry graph scope pool token).map fun source =>
          reconciledTarget (index.target pool token) source
      else index.target pool token := by
  induction pools generalizing index report with
  | nil => simp
  | cons head rest ih =>
      rw [List.nodup_cons] at hnodup
      have hhead := @target_reconcilePool G registry graph scope index hindex report head pool
        token
      rw [List.foldl_cons]
      rw [ih (wellFormed_reconcilePool hindex report head) _ hnodup.2, hhead]
      by_cases hpool : pool = head
      · subst hpool
        simp [hnodup.1]
      · simp [hpool]

end Reconcile

section Counts

variable {G : Type} {registry : AdapterRegistry} {graph : AmmGraph G}
  {scope : LiquidityIndexScope} {index next : PoolLiquidityIndex}

/-- Number of tracked pool-token balances. -/
def len (index : PoolLiquidityIndex) : ℕ := index.byPoolToken.keys.card

/-- The tracked tokens of a pool. -/
def poolTokens (index : PoolLiquidityIndex) (pool : PoolKey) : Finset Address :=
  (index.previousTargets pool).keys

theorem mem_poolTokens (hindex : index.WellFormed) (pool : PoolKey) (token : Address) :
    token ∈ index.poolTokens pool ↔ (index.target pool token).isSome := by
  rw [poolTokens, Finmap.mem_keys, Finmap.mem_iff, previousTargets_lookup hindex,
    Option.isSome_iff_exists]

theorem mem_keys_byPoolToken (hindex : index.WellFormed) (key : PoolKey × Address) :
    key ∈ index.byPoolToken.keys ↔ (index.target key.1 key.2).isSome := by
  rw [Finmap.mem_keys, Finmap.mem_iff]
  constructor
  · rintro ⟨position, hposition⟩
    obtain ⟨found, hfound, _⟩ := hindex.located key.1 key.2 position hposition
    rw [target, hposition, Option.bind_some, hfound]
    rfl
  · intro hsome
    obtain ⟨found, hfound⟩ := Option.isSome_iff_exists.mp hsome
    obtain ⟨position, hposition, _⟩ := Option.bind_eq_some_iff.mp hfound
    exact ⟨position, hposition⟩

/-- The balances of one pool and those of all others. -/
theorem len_eq (hindex : index.WellFormed) (pool : PoolKey) :
    index.len = (index.poolTokens pool).card +
      (index.byPoolToken.keys.filter fun key => key.1 ≠ pool).card := by
  have hpool : (index.byPoolToken.keys.filter fun key => key.1 = pool).card =
      (index.poolTokens pool).card := by
    have himage : (index.byPoolToken.keys.filter fun key => key.1 = pool) =
        (index.poolTokens pool).image fun token => (pool, token) := by
      ext ⟨other, token⟩
      rw [Finset.mem_filter, mem_keys_byPoolToken hindex, Finset.mem_image]
      constructor
      · rintro ⟨hsome, rfl⟩
        exact ⟨token, (mem_poolTokens hindex other token).mpr hsome, rfl⟩
      · rintro ⟨found, hfound, heq⟩
        cases heq
        exact ⟨(mem_poolTokens hindex pool token).mp hfound, rfl⟩
    rw [himage, Finset.card_image_of_injective]
    exact Prod.mk_right_injective pool
  rw [len, ← hpool]
  exact (Finset.card_filter_add_card_filter_not _).symm

/-- Two indexes that differ in one pool differ in length by its tokens. -/
theorem len_add_card (hindex : index.WellFormed) (hnext : next.WellFormed) {pool : PoolKey}
    (hothers : ∀ other ≠ pool, ∀ token, next.target other token = index.target other token) :
    next.len + (index.poolTokens pool).card = index.len + (next.poolTokens pool).card := by
  have hrest : (next.byPoolToken.keys.filter fun key => key.1 ≠ pool) =
      index.byPoolToken.keys.filter fun key => key.1 ≠ pool := by
    ext ⟨other, token⟩
    rw [Finset.mem_filter, Finset.mem_filter, mem_keys_byPoolToken hnext,
      mem_keys_byPoolToken hindex]
    apply and_congr_left
    intro hne
    rw [hothers other hne]
  rw [len_eq hindex pool, len_eq hnext pool, hrest]
  omega

/-- The desired targets whose Fresh balance is kept. -/
def keepsFresh (previous : Map Address (LiquiditySource × BalanceState))
    (desired : Address × LiquiditySource) : Bool :=
  (previous.lookup desired.1).any fun found => found.1 = desired.2 ∧ found.2.fresh?.isSome

/-- What the count of one desired target changes: kept, moved or new. -/
theorem countDesired_cases (previous : Map Address (LiquiditySource × BalanceState))
    (report : PoolLiquidityMutationReport) (kept : Finset Address) (token : Address)
    (source : LiquiditySource) :
    ∃ unknown, countDesired previous (report, kept) (token, source) =
      match previous.lookup token with
      | some (previousSource, balance) =>
          if previousSource = source then
            ({ report with
                preservedFreshTargets := report.preservedFreshTargets +
                  if balance.fresh?.isSome then 1 else 0
                unknownTargets := unknown }, insert token kept)
          else
            ({ report with
                removedTargets := report.removedTargets + 1
                addedTargets := report.addedTargets + 1
                unknownTargets := unknown }, kept)
      | none =>
          ({ report with
              addedTargets := report.addedTargets + 1
              unknownTargets := unknown }, kept) := by
  refine ⟨if source = .unknown then report.unknownTargets + 1 else report.unknownTargets, ?_⟩
  unfold countDesired
  cases previous.lookup token with
  | none => by_cases hunknown : source = .unknown <;> simp [hunknown]
  | some found =>
      obtain ⟨previousSource, balance⟩ := found
      by_cases hsame : previousSource = source
      · by_cases hfresh : balance.fresh?.isSome = true
        · by_cases hunknown : source = .unknown <;> simp [hsame, hfresh, hunknown]
        · by_cases hunknown : source = .unknown <;> simp [hsame, hfresh, hunknown]
      · by_cases hunknown : source = .unknown
        · subst hunknown
          simp [hsame]
        · simp [hsame, hunknown]

/-- One desired target is counted. -/
theorem countDesired_spec (previous : Map Address (LiquiditySource × BalanceState))
    (counted : PoolLiquidityMutationReport × Finset Address)
    (desired : Address × LiquiditySource) :
    (countDesired previous counted desired).1.addedTargets +
        (if desired.1 ∈ previous.keys then 1 else 0) + counted.1.removedTargets =
      counted.1.addedTargets + (countDesired previous counted desired).1.removedTargets + 1 ∧
    (countDesired previous counted desired).1.preservedFreshTargets =
      counted.1.preservedFreshTargets + (if keepsFresh previous desired then 1 else 0) ∧
    ∀ token ∈ (countDesired previous counted desired).2,
      token ∈ counted.2 ∨ token = desired.1 := by
  obtain ⟨report, kept⟩ := counted
  obtain ⟨token, source⟩ := desired
  have hmem : token ∈ previous.keys ↔ (previous.lookup token).isSome := by
    rw [Finmap.mem_keys, Finmap.mem_iff, Option.isSome_iff_exists]
  obtain ⟨unknown, hcounted⟩ := countDesired_cases previous report kept token source
  rw [hcounted]
  unfold keepsFresh
  simp only [hmem]
  cases previous.lookup token with
  | none =>
      refine ⟨?_, ?_, fun other hother => Or.inl hother⟩
      · simp only [Option.isSome_none, Bool.false_eq_true, if_false]
        omega
      · simp
  | some found =>
      obtain ⟨previousSource, balance⟩ := found
      by_cases hsame : previousSource = source
      · simp only [if_pos hsame]
        refine ⟨?_, ?_, fun other hother => ?_⟩
        · simp only [Option.isSome_some, if_true]
          omega
        · simp [hsame]
        · rw [Finset.mem_insert] at hother
          exact hother.symm
      · simp only [if_neg hsame]
        refine ⟨?_, ?_, fun other hother => Or.inl hother⟩
        · simp only [Option.isSome_some, if_true]
          omega
        · simp [hsame]

theorem foldl_countDesired (previous : Map Address (LiquiditySource × BalanceState))
    (desired : List (Address × LiquiditySource))
    (counted : PoolLiquidityMutationReport × Finset Address) :
    (desired.foldl (countDesired previous) counted).1.addedTargets +
        (desired.filter fun entry => entry.1 ∈ previous.keys).length +
        counted.1.removedTargets =
      counted.1.addedTargets +
        (desired.foldl (countDesired previous) counted).1.removedTargets + desired.length ∧
    (desired.foldl (countDesired previous) counted).1.preservedFreshTargets =
      counted.1.preservedFreshTargets + (desired.filter (keepsFresh previous)).length ∧
    ∀ token ∈ (desired.foldl (countDesired previous) counted).2,
      token ∈ counted.2 ∨ token ∈ desired.map Prod.fst := by
  induction desired generalizing counted with
  | nil => exact ⟨by simp, by simp, fun token htoken => Or.inl htoken⟩
  | cons head rest ih =>
      obtain ⟨hadded, hpreserved, hkept⟩ := countDesired_spec previous counted head
      obtain ⟨hrestAdded, hrestPreserved, hrestKept⟩ := ih (countDesired previous counted head)
      rw [List.foldl_cons, List.length_cons, List.filter_cons, List.filter_cons]
      refine ⟨?_, ?_, fun token htoken => ?_⟩
      · by_cases hhead : head.1 ∈ previous.keys
        · simp only [hhead, if_true, decide_true, List.length_cons] at hadded ⊢
          omega
        · simp only [hhead, if_false, decide_false, Bool.false_eq_true] at hadded ⊢
          omega
      · by_cases hhead : keepsFresh previous head = true
        · simp only [hhead, if_true, List.length_cons] at hpreserved ⊢
          omega
        · simp only [hhead, if_false, Bool.false_eq_true] at hpreserved ⊢
          omega
      · rw [List.map_cons, List.mem_cons]
        rcases hrestKept token htoken with hold | hlater
        · rcases hkept token hold with hstart | hhead
          · exact Or.inl hstart
          · exact Or.inr (Or.inl hhead)
        · exact Or.inr (Or.inr hlater)

/-- The tokens of a pool whose Fresh balance is the same afterwards. -/
def keptFresh (index next : PoolLiquidityIndex) (pool : PoolKey) : Finset Address :=
  (index.poolTokens pool).filter fun token =>
    ((index.target pool token).any fun previous => previous.2.fresh?.isSome) ∧
      next.target pool token = index.target pool token

/-- A list with distinct keys is what its lookups say. -/
theorem mem_iff_lookup {α β : Type} [DecidableEq α] {entries : List (α × β)}
    (hnodup : (entries.map Prod.fst).Nodup) (key : α) (value : β) :
    (key, value) ∈ entries ↔ entries.lookup key = some value := by
  constructor
  · intro hmem
    obtain ⟨earlier, later, rfl⟩ := List.append_of_mem hmem
    refine List.lookup_eq_some_iff.mpr ⟨earlier, later, rfl, fun entry hentry => ?_⟩
    rw [List.map_append, List.map_cons] at hnodup
    have hne := (List.nodup_append.mp hnodup).2.2 entry.1 (List.mem_map_of_mem hentry) key
      List.mem_cons_self
    simpa using Ne.symm hne
  · intro hlookup
    obtain ⟨earlier, later, rfl, _⟩ := List.lookup_eq_some_iff.mp hlookup
    exact List.mem_append_right _ List.mem_cons_self

/-- Distinct keys of a list are counted by their set. -/
theorem length_filter_keys {α β : Type} [DecidableEq α] {entries : List (α × β)}
    (hnodup : (entries.map Prod.fst).Nodup) (keep : α × β → Bool) :
    (entries.filter keep).length =
      ((entries.filter keep).map Prod.fst).toFinset.card := by
  rw [List.toFinset_card_of_nodup (hnodup.sublist (List.filter_sublist.map _)),
    List.length_map]

/-- One reconciliation counts the balances that it adds, removes and keeps. -/
theorem reconcilePool_report (hindex : index.WellFormed)
    (report : PoolLiquidityMutationReport) (pool : PoolKey)
    (hnext : next = (reconcilePool registry graph scope (index, report) pool).1) :
    next.len + (reconcilePool registry graph scope (index, report) pool).2.removedTargets +
        report.addedTargets =
      index.len + (reconcilePool registry graph scope (index, report) pool).2.addedTargets +
        report.removedTargets ∧
    (reconcilePool registry graph scope (index, report) pool).2.preservedFreshTargets =
      report.preservedFreshTargets + (index.keptFresh next pool).card := by
  have hwell : next.WellFormed := by
    rw [hnext]
    exact wellFormed_reconcilePool hindex report pool
  have htarget : ∀ other token, next.target other token = if other = pool then
      (registeredSource registry graph scope pool token).map fun source =>
        reconciledTarget (index.target pool token) source
      else index.target other token := by
    intro other token
    rw [hnext]
    exact target_reconcilePool hindex report pool other token
  have hnodup := @nodup_reconciledTargets G registry graph scope index hindex pool
  have hlookup : ∀ token,
      (index.reconciledTargets registry graph scope pool).lookup token =
        (next.target pool token).map Prod.fst := by
    intro token
    rw [htarget, if_pos rfl, reconciledTargets_eq hindex,
      lookup_map_value _ fun token source =>
        (reconciledTarget (index.target pool token) source).1, Option.map_map]
    unfold registeredSource
    cases registry.pool pool with
    | none => rfl
    | some registration =>
        rw [Option.elim_some,
          (desiredTargets_spec registration (neededTokens graph scope pool)).2]
        rfl
  obtain ⟨hadded, hpreserved, hkept⟩ := foldl_countDesired (index.previousTargets pool)
    (index.reconciledTargets registry graph scope pool) (report, ∅)
  simp only at hadded hpreserved hkept
  have hlen : next.len + (index.poolTokens pool).card =
      index.len + (next.poolTokens pool).card :=
    len_add_card hindex hwell fun other hne token => by rw [htarget, if_neg hne]
  unfold PoolLiquidityIndex.reconcilePool
  simp only
  generalize index.reconciledTargets registry graph scope pool = desired at *
  have hafter : (next.poolTokens pool).card = desired.length := by
    rw [← List.length_map (f := Prod.fst), ← List.toFinset_card_of_nodup hnodup]
    congr 1
    ext token
    rw [mem_poolTokens hwell, List.mem_toFinset, ← Option.isSome_map (f := Prod.fst), ← hlookup]
    exact List.lookup_isSome_iff.trans (by simp)
  have hkeys : (desired.filter fun entry => entry.1 ∈ (index.previousTargets pool).keys).length =
      ((index.poolTokens pool).filter fun token => token ∈ desired.map Prod.fst).card := by
    rw [length_filter_keys hnodup]
    congr 1
    ext token
    simp only [List.mem_toFinset, List.mem_map, List.mem_filter, decide_eq_true_eq,
      Finset.mem_filter]
    constructor
    · rintro ⟨entry, ⟨hmem, hkey⟩, rfl⟩
      exact ⟨hkey, entry, hmem, rfl⟩
    · rintro ⟨hkey, entry, hmem, rfl⟩
      exact ⟨entry, ⟨hmem, hkey⟩, rfl⟩
  have hdropped : ((index.previousTargets pool).keys.filter fun token =>
      token ∉ (desired.foldl (countDesired (index.previousTargets pool)) (report, ∅)).2 ∧
        desired.all fun entry => entry.1 ≠ token) =
      (index.poolTokens pool).filter fun token => ¬ token ∈ desired.map Prod.fst := by
    apply Finset.filter_congr
    intro token _
    constructor
    · rintro ⟨_, hall⟩ hmem
      obtain ⟨entry, hentry, rfl⟩ := List.mem_map.mp hmem
      simpa using List.all_eq_true.mp hall entry hentry
    · intro hmem
      refine ⟨fun htoken => ?_, List.all_eq_true.mpr fun entry hentry => ?_⟩
      · rcases hkept token htoken with hnone | hdesired
        · exact Finset.notMem_empty token hnone
        · exact hmem hdesired
      · simp only [decide_eq_true_eq]
        rintro rfl
        exact hmem (List.mem_map_of_mem hentry)
  have hsplit := Finset.card_filter_add_card_filter_not (s := index.poolTokens pool)
    fun token => token ∈ desired.map Prod.fst
  refine ⟨?_, ?_⟩
  · rw [hdropped]
    omega
  · rw [hpreserved]
    congr 1
    rw [length_filter_keys hnodup, keptFresh]
    congr 1
    ext token
    have hsame := htarget pool token
    rw [if_pos rfl] at hsame
    simp only [List.mem_toFinset, List.mem_map, List.mem_filter, Finset.mem_filter]
    constructor
    · rintro ⟨⟨found, source⟩, ⟨hmem, hfresh⟩, rfl⟩
      have hsource := hlookup found
      rw [(mem_iff_lookup hnodup found source).mp hmem] at hsource
      unfold keepsFresh at hfresh
      rw [previousTargets_lookup hindex] at hfresh
      cases hprevious : index.target pool found with
      | none =>
          rw [hprevious] at hfresh
          cases hfresh
      | some previous =>
          obtain ⟨previousSource, balance⟩ := previous
          rw [hprevious] at hfresh hsame
          simp only [Option.any_some, decide_eq_true_eq] at hfresh
          obtain ⟨rfl, hbalance⟩ := hfresh
          refine ⟨?_, by simpa using hbalance, ?_⟩
          · rw [mem_poolTokens hindex, hprevious]
            rfl
          · -- The source is the previous one, so the balance is too.
            rw [hsame] at hsource ⊢
            cases hwanted : registeredSource registry graph scope pool found with
            | none =>
                rw [hwanted] at hsource
                cases hsource
            | some wanted =>
                rw [hwanted, Option.map_some, Option.map_some, Option.some.injEq] at hsource
                rw [Option.map_some, Option.some.injEq]
                simp only [reconciledTarget] at hsource ⊢
                rw [← hsource, if_pos rfl]
    · rintro ⟨_, hfresh, hequal⟩
      cases hprevious : index.target pool token with
      | none =>
          rw [hprevious] at hfresh
          cases hfresh
      | some previous =>
          rw [hprevious, Option.any_some] at hfresh
          refine ⟨(token, previous.1), ⟨(mem_iff_lookup hnodup _ _).mpr ?_, ?_⟩, rfl⟩
          · rw [hlookup, hequal, hprevious]
            rfl
          · rw [keepsFresh, previousTargets_lookup hindex, hprevious]
            simpa using hfresh

theorem keptFresh_congr {start done : PoolLiquidityIndex} (hindex : index.WellFormed)
    (hstart : start.WellFormed) {pool : PoolKey}
    (hbefore : ∀ token, start.target pool token = index.target pool token)
    (hafter : ∀ token, done.target pool token = next.target pool token) :
    start.keptFresh done pool = index.keptFresh next pool := by
  ext token
  simp only [keptFresh, Finset.mem_filter, mem_poolTokens hindex, mem_poolTokens hstart,
    hbefore, hafter]

/-- Reconciling distinct pools counts every change once. -/
theorem foldl_reconcilePool_report (hindex : index.WellFormed)
    (report : PoolLiquidityMutationReport) {pools : List PoolKey} (hnodup : pools.Nodup)
    {done : PoolLiquidityIndex × PoolLiquidityMutationReport}
    (hdone : pools.foldl (reconcilePool registry graph scope) (index, report) = done) :
    done.1.len + done.2.removedTargets + report.addedTargets =
      index.len + done.2.addedTargets + report.removedTargets ∧
    done.2.preservedFreshTargets = report.preservedFreshTargets +
      (pools.map fun pool => (index.keptFresh done.1 pool).card).sum := by
  induction pools generalizing index report with
  | nil =>
      subst hdone
      exact ⟨Nat.add_right_comm _ _ _, by simp⟩
  | cons head rest ih =>
      rw [List.nodup_cons] at hnodup
      rw [List.foldl_cons] at hdone
      obtain ⟨hcount, hpreserved⟩ := @reconcilePool_report G registry graph scope index _ hindex
        report head rfl
      have hwell := @wellFormed_reconcilePool G registry graph scope index hindex report head
      have hothers := @target_reconcilePool G registry graph scope index hindex report head
      generalize reconcilePool registry graph scope (index, report) head = step at *
      obtain ⟨next, counted⟩ := step
      simp only at hcount hpreserved hwell hothers
      obtain ⟨hrestCount, hrestPreserved⟩ := ih hwell counted hnodup.2 hdone
      have htarget := @target_foldl_reconcilePool G registry graph scope next hwell counted rest
        hnodup.2
      rw [hdone] at htarget
      constructor
      · omega
      · rw [hrestPreserved, hpreserved, List.map_cons, List.sum_cons, Nat.add_assoc]
        congr 2
        · apply congrArg
          apply keptFresh_congr hindex hindex (fun _ => rfl)
          intro token
          rw [htarget, if_neg hnodup.1]
        · congr 1
          apply List.map_congr_left
          intro pool hpool
          apply congrArg
          apply keptFresh_congr hindex hwell _ (fun _ => rfl)
          intro token
          rw [hothers, if_neg]
          rintro rfl
          exact hnodup.1 hpool

end Counts

section Selection

/-- Dropping repeated neighbours drops no entry. -/
theorem mem_destutter_ne {α : Type} [DecidableEq α] (entries : List α) (entry : α) :
    entry ∈ entries.destutter (· ≠ ·) ↔ entry ∈ entries := by
  have hrun : ∀ (entries : List α) (last : α),
      entry ∈ entries.destutter' (· ≠ ·) last ↔ entry = last ∨ entry ∈ entries := by
    intro entries
    induction entries with
    | nil => simp
    | cons head rest ih =>
        intro last
        by_cases hhead : last ≠ head
        · rw [List.destutter'_cons_pos _ hhead, List.mem_cons, ih, List.mem_cons]
        · rw [List.destutter'_cons_neg _ hhead, ih, List.mem_cons]
          rw [not_not] at hhead
          rw [hhead, or_self_left]
  cases entries with
  | nil => rfl
  | cons head rest => rw [List.destutter_cons', hrun, List.mem_cons]

/-- The selected pools as they are reconciled. -/
def selectedPools (pools : List PoolKey) : List PoolKey :=
  (pools.insertionSort fun left right => left.debug ≤ right.debug).destutter (· ≠ ·)

theorem mem_selectedPools (pools : List PoolKey) (pool : PoolKey) :
    pool ∈ selectedPools pools ↔ pool ∈ pools := by
  rw [selectedPools, mem_destutter_ne]
  exact (List.perm_insertionSort _ pools).mem_iff

/-- Pools with distinct debug texts are reconciled once each. -/
theorem nodup_selectedPools {pools : List PoolKey}
    (hdebug : ∀ left ∈ pools, ∀ right ∈ pools, left.debug = right.debug → left = right) :
    (selectedPools pools).Nodup := by
  have htotal : Std.Total fun left right : PoolKey => left.debug ≤ right.debug :=
    ⟨fun left right => le_total left.debug right.debug⟩
  have htrans : IsTrans PoolKey fun left right => left.debug ≤ right.debug :=
    ⟨fun _ _ _ hleft hright => le_trans hleft hright⟩
  have hsorted := List.pairwise_insertionSort
    (fun left right : PoolKey => left.debug ≤ right.debug) pools
  have hsub : (selectedPools pools).Pairwise fun left right => left.debug ≤ right.debug :=
    hsorted.sublist (List.destutter_sublist (· ≠ ·) _)
  have hne : (selectedPools pools).IsChain (· ≠ ·) := List.isChain_destutter (· ≠ ·) _
  have hchain : (selectedPools pools).IsChain fun left right => left.debug < right.debug := by
    rw [List.isChain_iff_getElem] at hne ⊢
    intro position hposition
    apply lt_of_le_of_ne
      (List.pairwise_iff_getElem.mp hsub _ _ _ _ (Nat.lt_succ_self position))
    intro hsame
    apply hne position hposition
    apply hdebug _ _ _ _ hsame
    · exact (mem_selectedPools pools _).mp (List.getElem_mem _)
    · exact (mem_selectedPools pools _).mp (List.getElem_mem _)
  have hstrict : IsTrans PoolKey fun left right => left.debug < right.debug :=
    ⟨fun _ _ _ hleft hright => lt_trans hleft hright⟩
  apply (List.isChain_iff_pairwise.mp hchain).imp
  rintro left _ hlt rfl
  exact lt_irrefl _ hlt

end Selection

section Reconciled

variable {G : Type} [StableDiGraph G Address EdgeData] {registry : AdapterRegistry}
  {graph : AmmGraph G} {scope : LiquidityIndexScope} {index : PoolLiquidityIndex}

/-- What a reconciliation of selected pools owes to a full build. -/
structure Reconciled (index next built : PoolLiquidityIndex)
    (report : PoolLiquidityMutationReport) (pools : List PoolKey) : Prop where
  /-- The targets of the full build, with the slots discovered for the same holder. -/
  sources : ∀ pool ∈ pools, ∀ token, (next.target pool token).map Prod.fst =
    (built.target pool token).map fun wanted =>
      (index.target pool token).elim wanted.1 fun previous =>
        previous.1.preserveDiscoveredSource wanted.1
  /-- A balance is kept with its source, and unknown otherwise. -/
  balances : ∀ pool ∈ pools, ∀ token source balance,
    next.target pool token = some (source, balance) →
    balance = (index.target pool token).elim .unknown fun previous =>
      if previous.1 = source then previous.2 else .unknown
  others : ∀ pool ∉ pools, ∀ token, next.target pool token = index.target pool token
  count : next.len + report.removedTargets = index.len + report.addedTargets
  preserved : report.preservedFreshTargets =
    ∑ pool ∈ pools.toFinset, (index.keptFresh next pool).card

/-- The graph tracks a token of a registration that has fewer than two. -/
def LoneTarget (registry : AdapterRegistry) (graph : AmmGraph G)
    (scope : LiquidityIndexScope) (pool : PoolKey) : Prop :=
  ∃ registration tokens token, registry.pool pool = some registration ∧
    registration.tokens = some tokens ∧ (sortDedup tokens).length < 2 ∧
    wantedSource registration (neededTokens graph scope pool) token ≠ none

omit [StableDiGraph G Address EdgeData] in
theorem builtSource_cases (registry : AdapterRegistry) (graph : AmmGraph G)
    (scope : LiquidityIndexScope) (pool : PoolKey) (token : Address) :
    builtSource registry graph scope pool token = none ∨
      builtSource registry graph scope pool token =
        registeredSource registry graph scope pool token := by
  unfold builtSource registeredSource
  cases registry.pool pool with
  | none => exact Or.inl rfl
  | some registration =>
      rw [Option.bind_some, Option.bind_some]
      cases htokens : registration.tokens with
      | none => exact Or.inl rfl
      | some tokens =>
          rw [Option.bind_some]
          split
          · exact Or.inl rfl
          · exact Or.inr rfl

omit [StableDiGraph G Address EdgeData] in
/-- The full build and the reconciliation ask for the same sources but for lone targets. -/
theorem builtSource_eq_iff (pool : PoolKey) :
    (∀ token, builtSource registry graph scope pool token =
      registeredSource registry graph scope pool token) ↔
        ¬ LoneTarget registry graph scope pool := by
  unfold builtSource registeredSource
  constructor
  · rintro hsame ⟨registration, tokens, token, hpool, htokens, hfew, hwanted⟩
    have htoken := hsame token
    rw [hpool, Option.bind_some, Option.bind_some, htokens, Option.bind_some, if_pos hfew]
      at htoken
    exact hwanted htoken.symm
  · intro hlone token
    cases hpool : registry.pool pool with
    | none => rfl
    | some registration =>
        rw [Option.bind_some, Option.bind_some]
        cases htokens : registration.tokens with
        | none => simp [wantedSource, htokens]
        | some tokens =>
            rw [Option.bind_some]
            split
            · rename_i hfew
              by_contra hwanted
              exact hlone ⟨registration, tokens, token, hpool, htokens, hfew, Ne.symm hwanted⟩
            · rfl

/-- A reconciliation of any selected pools agrees with a full build exactly if the graph
tracks no token of a selected registration that has fewer than two. -/
theorem reconcilePoolList_reconciled_iff {start : PoolLiquidityIndex}
    (hconstructed : Constructed (G := G) start) (commands : List (Command G))
    (hreached : index ∈ start.states commands) (registry : AdapterRegistry)
    (hbuilt : graph.Built) (scope : LiquidityIndexScope) (pools : List PoolKey)
    (hdebug : ∀ left ∈ pools, ∀ right ∈ pools, left.debug = right.debug → left = right) :
    Reconciled index (index.reconcilePoolList registry graph scope pools).1
        (fromRegistryWithScope registry graph scope).1
        (index.reconcilePoolList registry graph scope pools).2 pools ↔
      ∀ pool ∈ pools, ¬ LoneTarget registry graph scope pool := by
  have hindex := (hconstructed.holderIndexed.states commands hreached).wellFormed
  have hnodup := nodup_selectedPools hdebug
  have htarget : ∀ pool token,
      (index.reconcilePoolList registry graph scope pools).1.target pool token =
        if pool ∈ pools then (registeredSource registry graph scope pool token).map
          fun source => reconciledTarget (index.target pool token) source
        else index.target pool token := by
    intro pool token
    have hfold := @target_foldl_reconcilePool G registry graph scope index hindex {} _ hnodup
      pool token
    simp only [mem_selectedPools] at hfold
    exact hfold
  have hfull : ∀ pool token, (fromRegistryWithScope registry graph scope).1.target pool token =
      (builtSource registry graph scope pool token).map fun source => (source, .unknown) :=
    fun pool token => target_fromRegistryWithScope hbuilt.valid pool token
  obtain ⟨hcount, hpreserved⟩ := @foldl_reconcilePool_report G registry graph scope index hindex
    {} _ hnodup _ rfl
  constructor
  · intro hreconciled pool hpool
    apply (builtSource_eq_iff pool).mp
    intro token
    have hsource := hreconciled.sources pool hpool token
    rw [htarget, if_pos hpool, hfull] at hsource
    rcases builtSource_cases registry graph scope pool token with hnone | hsame
    · rw [hnone, Option.map_map, Option.map_none, Option.map_none,
        Option.map_eq_none_iff] at hsource
      rw [hnone, hsource]
    · exact hsame
  · intro hlone
    refine ⟨fun pool hpool token => ?_, fun pool hpool token source balance hnext => ?_,
      fun pool hpool token => ?_, hcount, ?_⟩
    · rw [htarget, if_pos hpool, hfull, (builtSource_eq_iff pool).mpr (hlone pool hpool) token,
        Option.map_map, Option.map_map]
      congr 1
      funext source
      cases index.target pool token <;> rfl
    · rw [htarget, if_pos hpool, Option.map_eq_some_iff] at hnext
      obtain ⟨wanted, _, heq⟩ := hnext
      cases hprevious : index.target pool token with
      | none =>
          rw [hprevious] at heq
          cases heq
          rfl
      | some previous =>
          rw [hprevious] at heq
          cases heq
          rfl
    · rw [htarget, if_neg hpool]
    · rw [Nat.zero_add] at hpreserved
      have hselected : pools.toFinset = (selectedPools pools).toFinset := by
        ext pool
        rw [List.mem_toFinset, List.mem_toFinset, mem_selectedPools]
      rw [hselected, List.sum_toFinset _ hnodup]
      exact hpreserved

end Reconciled

end PoolLiquidityIndex

namespace TwoPoolGraph

/-- The left pool registered again with one token twice, while the graph still has both. -/
def leftAlone : PoolRegistration := pool 7 ['a'] 1 1

def reconciledAlone : PoolLiquidityIndex × PoolLiquidityMutationReport :=
  liquidity.reconcilePoolList (registry [leftAlone, right] (by decide)) graph
    .allDirectedEdgeInputsAndOutputs [left.key]

/-- A lone token is tracked although the full build passes over its pool. -/
theorem not_reconciled_leftAlone :
    ¬ PoolLiquidityIndex.Reconciled liquidity reconciledAlone.1
      (PoolLiquidityIndex.fromRegistryWithScope (registry [leftAlone, right] (by decide)) graph
        .allDirectedEdgeInputsAndOutputs).1 reconciledAlone.2 [left.key] := by
  intro hreconciled
  have hsource := hreconciled.sources left.key List.mem_cons_self 1
  have hnext : (reconciledAlone.1.target left.key 1).map Prod.fst =
      some (.erc20Balance 7 none) := by decide +kernel
  have hfull : (PoolLiquidityIndex.fromRegistryWithScope
      (registry [leftAlone, right] (by decide)) graph
      .allDirectedEdgeInputsAndOutputs).1.target left.key 1 = none := by decide +kernel
  rw [hnext, hfull] at hsource
  cases hsource

/-- Both pools are reconciled after the left one is unregistered. -/
theorem reconciled_leftRemoved :
    (∀ pool ∈ [left.key, right.key], ¬ PoolLiquidityIndex.LoneTarget
      (registry [right] (by decide)) graph .allDirectedEdgeInputsAndOutputs pool) ∧
    PoolLiquidityIndex.Reconciled liquidity
      (liquidity.reconcilePoolList (registry [right] (by decide)) graph
        .allDirectedEdgeInputsAndOutputs [left.key, right.key]).1
      (PoolLiquidityIndex.fromRegistryWithScope (registry [right] (by decide)) graph
        .allDirectedEdgeInputsAndOutputs).1
      (liquidity.reconcilePoolList (registry [right] (by decide)) graph
        .allDirectedEdgeInputsAndOutputs [left.key, right.key]).2 [left.key, right.key] := by
  have hlone : ∀ pool ∈ [left.key, right.key], ¬ PoolLiquidityIndex.LoneTarget
      (registry [right] (by decide)) graph .allDirectedEdgeInputsAndOutputs pool := by
    rintro pool hpool ⟨registration, tokens, token, hregistered, htokens, hfew, _⟩
    simp only [List.mem_cons, List.not_mem_nil, or_false] at hpool
    rcases hpool with rfl | rfl
    · cases hregistered
    · obtain rfl := Option.some.inj hregistered
      obtain rfl := Option.some.inj htokens
      exact absurd hfew (by decide)
  refine ⟨hlone, ?_⟩
  exact (PoolLiquidityIndex.reconcilePoolList_reconciled_iff
    (.fromRegistryWithScope (registry [left, right] nodup_keys) graph
      .allDirectedEdgeInputsAndOutputs) ([] : List LiquidityCommand) List.mem_cons_self _
    (.fromRegistry 1 _ {}) _ _ (by decide)).mpr hlone

end TwoPoolGraph

end AmmSearch
