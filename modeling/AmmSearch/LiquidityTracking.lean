/-
Operations on the liquidity sidecar: which tokens of a pool are tracked and where
their balances are stored, the full build of an index, the reconciliation of selected
pools, and the refresh from a chain snapshot.
-/
import AmmSearch.AmmGraph
import AmmSearch.LiquidityIndex
import AmmSearch.SlotTable

open FiniteMap StableGraph

namespace AmmSearch

/-- Which pool-token balances an index tracks. -/
inductive LiquidityIndexScope
  | parallelEdgeOutputs
  | allDirectedEdgeInputsAndOutputs
deriving DecidableEq

structure PoolLiquidityBuildReport where
  trackedBalances : ℕ
  unknownBalances : ℕ
deriving DecidableEq

structure PoolLiquidityMutationReport where
  addedTargets : ℕ := 0
  removedTargets : ℕ := 0
  preservedFreshTargets : ℕ := 0
  unknownTargets : ℕ := 0
deriving DecidableEq

structure PoolLiquidityRefreshReport where
  storageReads : ℕ := 0
  refreshedBalances : ℕ := 0
  unknownBalances : ℕ := 0
  staleBalances : ℕ := 0
  failures : List (Address × Text) := []
deriving DecidableEq

inductive PoolLiquidityError
  | unknownPoolToken (pool : PoolKey) (token : Address)
deriving DecidableEq

def parallelEdgeThreshold : ℕ := 2

def balancerCashBits : ℕ := 112

/-- One of the two cash fields of a Balancer vault word. -/
def decodeBalancerCash (word : U256) (highField : Bool) : U256 :=
  if highField then
    Fin.ofNat (2 ^ 256) (word.val / 2 ^ balancerCashBits % 2 ^ balancerCashBits)
  else Fin.ofNat (2 ^ 256) (word.val % 2 ^ balancerCashBits)

namespace LiquiditySource

/-- The storage word behind a balance of `token`, once it is known. -/
def storageSlot (token : Address) : LiquiditySource → Option (Address × U256)
  | .erc20Balance _ (some slot) => some (token, slot)
  | .balancerV2VaultCash vault slot _ => some (vault, slot)
  | .erc20Balance _ none | .unknown => none

/-- The balance that a storage word holds. -/
def decode : LiquiditySource → U256 → Option U256
  | .erc20Balance _ _, value => some value
  | .balancerV2VaultCash _ _ highField, value => some (decodeBalancerCash value highField)
  | .unknown, _ => none

/-- Keep the slot that was discovered for the same holder. -/
def preserveDiscoveredSource : LiquiditySource → LiquiditySource → LiquiditySource
  | .erc20Balance previousHolder (some slot), .erc20Balance desiredHolder desiredSlot =>
      if previousHolder = desiredHolder then .erc20Balance previousHolder (some slot)
      else .erc20Balance desiredHolder desiredSlot
  | _, desired => desired

end LiquiditySource

namespace PoolLiquidityTarget

def storageSlot (target : PoolLiquidityTarget) : Option (Address × U256) :=
  target.source.storageSlot target.token

end PoolLiquidityTarget

/-- The vault slots of a Balancer pool by token; the last entry of a token counts. -/
def tokenCashByToken (metadata : BalancerV2Metadata) : Map Address TokenCash :=
  metadata.tokenCash.foldl (fun cashes cash => cashes.insert cash.token cash) ∅

def balancerSource (metadata : BalancerV2Metadata) (token : Address) : LiquiditySource :=
  match metadata.vault, (tokenCashByToken metadata).lookup token with
  | some vault, some cash => .balancerV2VaultCash vault cash.slot cash.highField
  | _, _ => .unknown

/-- The tracked tokens of a registration with their storage sources. -/
def desiredTargets (pool : PoolRegistration) (neededTokens : Finset Address) :
    List (Address × LiquiditySource) :=
  match pool.tokens with
  | none => []
  | some tokens =>
      let tokens := (sortDedup tokens).filter fun token => token ∈ neededTokens
      match pool.metadata with
      | .uniswapV2 _ | .uniswapV3 _ | .pancakeV3 _ | .slipstream _ | .solidlyV2 _
      | .curve _ =>
          tokens.map fun token =>
            (token, match pool.key.address with
              | none => .unknown
              | some holder => .erc20Balance holder none)
      | .balancerV2 metadata => tokens.map fun token => (token, balancerSource metadata token)
      | .unknown | .custom _ => []

section Tracking

variable {G : Type} [StableDiGraph G Address EdgeData]

/-- The tokens at the two ends of an edge, with its pool. -/
def edgeTokens (graph : AmmGraph G) (edge : EdgeIndex) :
    Option (Address × Address × PoolKey) :=
  (StableDiGraph.edge graph.graph edge).bind fun record =>
    (graph.nodeToken record.source).bind fun tokenIn =>
      (graph.nodeToken record.target).map fun tokenOut =>
        (tokenIn, tokenOut, record.weight.pool)

/-- The live edges with their tokens. -/
def edgeReferences (graph : AmmGraph G) : List (Address × Address × PoolKey) :=
  (StableDiGraph.edgeIndices graph.graph).filterMap (edgeTokens graph)

def insertTracked (tracked : Map PoolKey (Finset Address)) (pool : PoolKey)
    (token : Address) : Map PoolKey (Finset Address) :=
  alter tracked pool fun tokens => some (insert token (tokens.getD ∅))

/-- The pools of each directed token pair. -/
def edgeGroups (graph : AmmGraph G) : Map (Address × Address) (List PoolKey) :=
  (edgeReferences graph).foldl (fun groups (tokenIn, tokenOut, pool) =>
    alter groups (tokenIn, tokenOut) fun pools => some (pools.getD [] ++ [pool])) ∅

/-- Track the output token of one group if it has parallel edges. -/
def trackGroup (tracked : Map PoolKey (Finset Address)) (group : Address × Address)
    (pools : List PoolKey) : Map PoolKey (Finset Address) :=
  if pools.length < parallelEdgeThreshold then tracked
  else pools.foldl (fun tracked pool => insertTracked tracked pool group.2) tracked

theorem lookup_insertTracked (tracked : Map PoolKey (Finset Address)) (pool other : PoolKey)
    (token : Address) :
    (insertTracked tracked pool token).lookup other =
      if other = pool then some (insert token ((tracked.lookup pool).getD ∅))
      else tracked.lookup other :=
  lookup_alter tracked pool other _

theorem lookup_foldl_insertTracked (pools : List PoolKey)
    (tracked : Map PoolKey (Finset Address)) (token : Address) (other : PoolKey) :
    (pools.foldl (fun tracked pool => insertTracked tracked pool token) tracked).lookup other =
      if other ∈ pools then some (insert token ((tracked.lookup other).getD ∅))
      else tracked.lookup other := by
  induction pools generalizing tracked with
  | nil => simp
  | cons pool rest ih =>
      rw [List.foldl_cons, ih, lookup_insertTracked]
      by_cases hpool : other = pool
      · subst hpool
        by_cases hrest : other ∈ rest
        · simp [hrest]
        · simp [hrest]
      · simp [hpool]

theorem lookup_trackGroup (tracked : Map PoolKey (Finset Address))
    (group : Address × Address) (pools : List PoolKey) (other : PoolKey) :
    (trackGroup tracked group pools).lookup other =
      if parallelEdgeThreshold ≤ pools.length ∧ other ∈ pools then
        some (insert group.2 ((tracked.lookup other).getD ∅))
      else tracked.lookup other := by
  unfold trackGroup
  split
  · rename_i hfew
    rw [if_neg]
    intro hmany
    exact absurd hfew (not_lt.mpr hmany.1)
  · rename_i hmany
    rw [lookup_foldl_insertTracked]
    simp [not_lt.mp hmany]

/-- The iteration order of the groups does not matter. -/
theorem trackGroup_comm (tracked : Map PoolKey (Finset Address))
    (group : Address × Address) (pools : List PoolKey) (group' : Address × Address)
    (pools' : List PoolKey) :
    trackGroup (trackGroup tracked group pools) group' pools' =
      trackGroup (trackGroup tracked group' pools') group pools := by
  apply Finmap.ext_lookup
  intro other
  simp only [lookup_trackGroup]
  split
  · split
    · simp [Finset.insert_comm]
    · rfl
  · rfl

/-- The output tokens of the edges that have a parallel edge. -/
def parallelOutputTokensByPool (graph : AmmGraph G) : Map PoolKey (Finset Address) :=
  (edgeGroups graph).foldl trackGroup trackGroup_comm ∅

def allDirectedEdgeTokensByPool (graph : AmmGraph G) : Map PoolKey (Finset Address) :=
  (edgeReferences graph).foldl (fun tracked (tokenIn, tokenOut, pool) =>
    insertTracked (insertTracked tracked pool tokenIn) pool tokenOut) ∅

def trackedTokensByPool (graph : AmmGraph G) :
    LiquidityIndexScope → Map PoolKey (Finset Address)
  | .parallelEdgeOutputs => parallelOutputTokensByPool graph
  | .allDirectedEdgeInputsAndOutputs => allDirectedEdgeTokensByPool graph

end Tracking

namespace PoolLiquidityIndex

/-- The position at which the next target is stored. -/
def nextTarget (index : PoolLiquidityIndex) : ℕ :=
  SlotTable.nextPosition index.targets index.freeTargets

def pushIndex {α : Type} [DecidableEq α] (index : Map α (List ℕ)) (key : α)
    (position : ℕ) : Map α (List ℕ) :=
  alter index key fun positions => some (positions.getD [] ++ [position])

def pushTargetWithBalance (index : PoolLiquidityIndex) (pool : PoolKey) (token : Address)
    (source : LiquiditySource) (balance : BalanceState) : PoolLiquidityIndex where
  targets := SlotTable.store index.targets index.freeTargets ⟨token, source, balance, true⟩
  byPoolToken := index.byPoolToken.insert (pool, token) index.nextTarget
  byTokenHolder :=
    match source with
    | .erc20Balance holder _ =>
        pushIndex index.byTokenHolder (token, holder) index.nextTarget
    | _ => index.byTokenHolder
  byStorageSlot :=
    match source.storageSlot token with
    | some slot => pushIndex index.byStorageSlot slot index.nextTarget
    | none => index.byStorageSlot
  byPool := pushIndex index.byPool pool index.nextTarget
  poolTokenCounts := index.poolTokenCounts
  freeTargets := index.freeTargets.dropLast

def pushTarget (index : PoolLiquidityIndex) (pool : PoolKey) (token : Address)
    (source : LiquiditySource) : PoolLiquidityIndex :=
  index.pushTargetWithBalance pool token source .unknown

/-- Drop a position from a reverse index, and the key when nothing is left. -/
def removeReverseIndex {α : Type} [DecidableEq α] (index : Map α (List ℕ)) (key : α)
    (removed : ℕ) : Map α (List ℕ) :=
  alter index key fun positions =>
    (positions.map fun positions => positions.filter (· ≠ removed)).filter (· ≠ [])

/-- Release one target of a pool. -/
def removeTarget (pool : PoolKey) (index : PoolLiquidityIndex) (position : ℕ) :
    PoolLiquidityIndex :=
  match index.targets[position]? with
  | none => index
  | some target =>
      if !target.active then index
      else
        { targets := index.targets.set position { target with active := false }
          byPoolToken := index.byPoolToken.erase (pool, target.token)
          byTokenHolder :=
            match target.source with
            | .erc20Balance holder _ =>
                removeReverseIndex index.byTokenHolder (target.token, holder) position
            | _ => index.byTokenHolder
          byStorageSlot :=
            match target.storageSlot with
            | some slot => removeReverseIndex index.byStorageSlot slot position
            | none => index.byStorageSlot
          byPool := index.byPool
          poolTokenCounts := index.poolTokenCounts
          freeTargets := index.freeTargets ++ [position] }

def removePoolTargets (index : PoolLiquidityIndex) (pool : PoolKey) : PoolLiquidityIndex :=
  match index.byPool.lookup pool with
  | none => { index with poolTokenCounts := index.poolTokenCounts.erase pool }
  | some positions =>
      let removed := positions.foldl (removeTarget pool)
        { index with byPool := index.byPool.erase pool }
      { removed with poolTokenCounts := removed.poolTokenCounts.erase pool }

/-- The active targets of a pool by token. -/
def previousTargets (index : PoolLiquidityIndex) (pool : PoolKey) :
    Map Address (LiquiditySource × BalanceState) :=
  ((((index.byPool.lookup pool).getD []).filterMap fun position =>
    index.targets[position]?).filter PoolLiquidityTarget.active).foldl
      (fun previous target => previous.insert target.token (target.source, target.balance)) ∅

/-- Count one desired target; the set holds the tokens whose source is unchanged. -/
def countDesired (previous : Map Address (LiquiditySource × BalanceState))
    (counted : PoolLiquidityMutationReport × Finset Address)
    (desired : Address × LiquiditySource) :
    PoolLiquidityMutationReport × Finset Address :=
  let (report, kept) := counted
  let (report, kept) :=
    match previous.lookup desired.1 with
    | some (source, balance) =>
        if source = desired.2 then
          if balance.fresh?.isSome then
            ({ report with preservedFreshTargets := report.preservedFreshTargets + 1 },
              insert desired.1 kept)
          else (report, insert desired.1 kept)
        else
          ({ report with
              removedTargets := report.removedTargets + 1
              addedTargets := report.addedTargets + 1 }, kept)
    | none => ({ report with addedTargets := report.addedTargets + 1 }, kept)
  if desired.2 = .unknown then
    ({ report with unknownTargets := report.unknownTargets + 1 }, kept)
  else (report, kept)

/-- The tokens and sources that a pool should be tracked under. -/
def reconciledTargets {G : Type} (registry : AdapterRegistry) (graph : AmmGraph G)
    (scope : LiquidityIndexScope) (index : PoolLiquidityIndex) (pool : PoolKey) :
    List (Address × LiquiditySource) :=
  let needed := graph.trackedTokensForPool pool (scope = .parallelEdgeOutputs)
  let desired :=
    match registry.pool pool with
    | none => []
    | some registration => if needed = ∅ then [] else desiredTargets registration needed
  desired.map fun (token, source) =>
    (token, match (index.previousTargets pool).lookup token with
      | some (previous, _) => previous.preserveDiscoveredSource source
      | none => source)

/-- The balance that a target keeps: that of the same source. -/
def keptBalance (previous : Map Address (LiquiditySource × BalanceState)) (token : Address)
    (source : LiquiditySource) : BalanceState :=
  match previous.lookup token with
  | some (previousSource, balance) =>
      if previousSource = source then balance else .unknown
  | none => .unknown

/-- Record the token count of a pool that is tracked. -/
def countPoolTokens (registry : AdapterRegistry) (pool : PoolKey)
    (desired : List (Address × LiquiditySource)) (index : PoolLiquidityIndex) :
    PoolLiquidityIndex :=
  match registry.pool pool with
  | none => index
  | some registration =>
      let tokenCount :=
        match registration.tokens with
        | none => 0
        | some tokens => (sortDedup tokens).length
      if 2 ≤ tokenCount ∧ desired ≠ [] then
        { index with poolTokenCounts := index.poolTokenCounts.insert pool tokenCount }
      else index

def pushDesired (pool : PoolKey) (previous : Map Address (LiquiditySource × BalanceState))
    (index : PoolLiquidityIndex) (desired : Address × LiquiditySource) : PoolLiquidityIndex :=
  index.pushTargetWithBalance pool desired.1 desired.2
    (keptBalance previous desired.1 desired.2)

/-- The loop body of `reconcile_pools`. -/
def reconcilePool {G : Type} (registry : AdapterRegistry) (graph : AmmGraph G)
    (scope : LiquidityIndexScope) (state : PoolLiquidityIndex × PoolLiquidityMutationReport)
    (pool : PoolKey) : PoolLiquidityIndex × PoolLiquidityMutationReport :=
  let (index, report) := state
  let previous := index.previousTargets pool
  let desired := index.reconciledTargets registry graph scope pool
  let (report, kept) := desired.foldl (countDesired previous) (report, ∅)
  let dropped := previous.keys.filter fun token =>
    token ∉ kept ∧ desired.all fun next => next.1 ≠ token
  let cleared := countPoolTokens registry pool desired (index.removePoolTargets pool)
  (desired.foldl (pushDesired pool previous) cleared,
    { report with removedTargets := report.removedTargets + dropped.card })

/-- Selected pools in the order of their debug texts. -/
def sortedPools (pools : Finset PoolKey) : List PoolKey :=
  ((ascending pools).insertionSort fun left right => left.debug ≤ right.debug).destutter
    (· ≠ ·)

/-- Reconcile only the selected pools against the current graph and registry. -/
def reconcilePools {G : Type} (index : PoolLiquidityIndex) (registry : AdapterRegistry)
    (graph : AmmGraph G) (scope : LiquidityIndexScope) (pools : Finset PoolKey) :
    PoolLiquidityIndex × PoolLiquidityMutationReport :=
  (sortedPools pools).foldl (reconcilePool registry graph scope) (index, {})

/-- The loop body of the full build; the number counts the unknown balances. -/
def indexPool (tracked : Map PoolKey (Finset Address)) (state : PoolLiquidityIndex × ℕ)
    (pool : PoolRegistration) : PoolLiquidityIndex × ℕ :=
  let (index, unknownBalances) := state
  match tracked.lookup pool.key, pool.tokens with
  | some neededTokens, some tokens =>
      let tokens := sortDedup tokens
      if tokens.length < 2 then (index, unknownBalances)
      else
        let index :=
          { index with
            poolTokenCounts := index.poolTokenCounts.insert pool.key tokens.length }
        let tokens := tokens.filter fun token => token ∈ neededTokens
        if tokens = [] then (index, unknownBalances)
        else
          match pool.metadata with
          | .uniswapV2 _ | .uniswapV3 _ | .pancakeV3 _ | .slipstream _ | .solidlyV2 _
          | .curve _ =>
              match pool.key.address with
              | none =>
                  (tokens.foldl (fun index token => index.pushTarget pool.key token .unknown)
                    index, unknownBalances + tokens.length)
              | some holder =>
                  (tokens.foldl (fun index token =>
                    index.pushTarget pool.key token (.erc20Balance holder none)) index,
                    unknownBalances)
          | .balancerV2 metadata =>
              tokens.foldl (fun (index, unknownBalances) token =>
                let source := balancerSource metadata token
                (index.pushTarget pool.key token source,
                  if source = .unknown then unknownBalances + 1 else unknownBalances))
                (index, unknownBalances)
          | .unknown | .custom _ => (index, unknownBalances)
  | _, _ => (index, unknownBalances)

/-- Build an index for the pools of `graph`. -/
def fromRegistryWithScope {G : Type} [StableDiGraph G Address EdgeData]
    (registry : AdapterRegistry) (graph : AmmGraph G) (scope : LiquidityIndexScope) :
    PoolLiquidityIndex × PoolLiquidityBuildReport :=
  let (index, unknownBalances) :=
    (registry.pools.insertionSort fun left right =>
      left.key.debug ≤ right.key.debug).foldl (indexPool (trackedTokensByPool graph scope))
        (empty, 0)
  (index, ⟨index.byPoolToken.keys.card, unknownBalances⟩)

/-- Give the ERC-20 target at `position` its slot. -/
def setTargetSlot (token : Address) (slot : U256) (index : PoolLiquidityIndex)
    (position : ℕ) : PoolLiquidityIndex :=
  match index.targets[position]? with
  | some target =>
      match target.source with
      | .erc20Balance sourceHolder _ =>
          let positions := (index.byStorageSlot.lookup (token, slot)).getD []
          { index with
            targets := index.targets.set position
              { target with source := .erc20Balance sourceHolder (some slot) }
            byStorageSlot := index.byStorageSlot.insert (token, slot)
              (if position ∈ positions then positions else positions ++ [position]) }
      | _ => index
  | none => index

def setErc20Slot (index : PoolLiquidityIndex) (token holder : Address) (slot : U256) :
    PoolLiquidityIndex :=
  ((index.byTokenHolder.lookup (token, holder)).getD []).foldl
    (setTargetSlot token slot) index

/-- Seed a discovered ERC-20 balance slot, with the number of targets that it adds. -/
def setErc20BalanceSlot (index : PoolLiquidityIndex) (token holder : Address)
    (slot : U256) : ℕ × PoolLiquidityIndex :=
  let before := ((index.byStorageSlot.lookup (token, slot)).getD []).length
  let next := index.setErc20Slot token holder slot
  (((next.byStorageSlot.lookup (token, slot)).getD []).length - before, next)

/-- Mark a tracked balance stale. -/
def markStale (index : PoolLiquidityIndex) (pool : PoolKey) (token : Address) :
    Except PoolLiquidityError PoolLiquidityIndex :=
  match index.byPoolToken.lookup (pool, token) with
  | none => .error (.unknownPoolToken pool token)
  | some position =>
      .ok { index with
        targets := index.targets.modify position fun target =>
          { target with balance := .stale } }

/-- The balance of a target in a storage snapshot. -/
def snapshotBalance (storageValue : Address → U256 → Option U256) (token : Address)
    (source : LiquiditySource) : Option U256 :=
  (source.storageSlot token).bind fun (address, slot) =>
    (storageValue address slot).bind source.decode

/-- Refresh known balances from one immutable storage snapshot. -/
def refreshFromSnapshot (index : PoolLiquidityIndex)
    (storageValue : Address → U256 → Option U256) :
    PoolLiquidityIndex × PoolLiquidityRefreshReport :=
  let refreshed := index.targets.map fun target =>
    if !target.active then target
    else
      match snapshotBalance storageValue target.token target.source with
      | none => { target with balance := .unknown }
      | some value => { target with balance := .fresh value }
  let active := index.targets.filter PoolLiquidityTarget.active
  let known := active.filter fun target =>
    (snapshotBalance storageValue target.token target.source).isSome
  ({ index with targets := refreshed },
    { refreshedBalances := known.length
      unknownBalances := active.length - known.length })

end PoolLiquidityIndex

end AmmSearch
