/-
The holder index of a liquidity index lists exactly the active ERC-20 balances in
every state of every run, whatever slots are set: a slot never moves a target to
another token holder.
-/
import AmmSearch.LiquidityReverseRuns

open FiniteMap StableGraph

namespace AmmSearch

namespace PoolLiquidityIndex

/-- What every public operation keeps of an index. -/
structure HolderIndexed (index : PoolLiquidityIndex) : Prop where
  wellFormed : index.WellFormed
  listed : index.HoldersListed

section Operations

variable {index next : PoolLiquidityIndex} {token holder : Address} {slot : U256}

theorem HolderIndexed.of_touches {touched : ℕ → Prop} (hindex : index.HolderIndexed)
    (htouches : Touches touched index next) : next.HolderIndexed :=
  ⟨hindex.wellFormed.of_samePlaces htouches.samePlaces, htouches.holdersListed hindex.listed⟩

theorem HolderIndexed.setTargetSlot (hindex : index.HolderIndexed) {position : ℕ}
    {known : Option U256} {balance : BalanceState} (htarget : index.targets[position]? =
      some ⟨token, .erc20Balance holder known, balance, true⟩) :
    (PoolLiquidityIndex.setTargetSlot token slot index position).HolderIndexed :=
  ⟨hindex.wellFormed.of_samePlaces (samePlaces_setTargetSlot htarget),
    holdersListed_setTargetSlot hindex.listed htarget⟩

/-- The balances of a holder stay balances of that holder while their slot is set. -/
theorem HolderIndexed.setErc20Slot (hindex : index.HolderIndexed) (token holder : Address)
    (slot : U256) : (index.setErc20Slot token holder slot).HolderIndexed := by
  have htargets : ∀ position ∈ (index.byTokenHolder.lookup (token, holder)).getD [],
      ∃ known balance, index.targets[position]? =
        some ⟨token, .erc20Balance holder known, balance, true⟩ :=
    fun position hposition => hindex.listed.erc20_of_mem hposition
  unfold PoolLiquidityIndex.setErc20Slot
  generalize (index.byTokenHolder.lookup (token, holder)).getD [] = positions at htargets
  induction positions generalizing index with
  | nil => exact hindex
  | cons head rest ih =>
      obtain ⟨known, balance, htarget⟩ := htargets head List.mem_cons_self
      apply ih (hindex.setTargetSlot htarget)
      intro position hposition
      rw [setTargetSlot_eq htarget]
      by_cases hhead : head = position
      · subst hhead
        have hlt := (List.getElem?_eq_some_iff.mp htarget).1
        exact ⟨some slot, balance, by simp [hlt]⟩
      · obtain ⟨known', balance', htarget'⟩ :=
          htargets position (List.mem_cons_of_mem head hposition)
        exact ⟨known', balance', by simp only [List.getElem?_set_ne hhead, htarget']⟩

theorem HolderIndexed.foldl_setErc20Slot (hindex : index.HolderIndexed) (token : Address)
    (pairs : List (Address × U256)) :
    (pairs.foldl (fun index pair => index.setErc20Slot token pair.1 pair.2)
      index).HolderIndexed := by
  induction pairs generalizing index with
  | nil => exact hindex
  | cons head rest ih => exact ih (hindex.setErc20Slot token head.1 head.2)

theorem HolderIndexed.foldl_discoverToken (source : RefreshSource)
    (holdersByToken : Map Address (Finset Address)) (tokens : List Address)
    (state : PoolLiquidityIndex × PoolLiquidityRefreshReport)
    (hindex : state.1.HolderIndexed) :
    (tokens.foldl (discoverToken source holdersByToken) state).1.HolderIndexed := by
  induction tokens generalizing state with
  | nil => exact hindex
  | cons head rest ih =>
      apply ih
      rcases discoverToken_cases source holdersByToken state head with
        ⟨pairs, _, heq⟩ | ⟨_, htouches⟩
      · rw [heq]
        exact hindex.foldl_setErc20Slot head pairs
      · exact hindex.of_touches htouches

theorem HolderIndexed.refresh (hindex : index.HolderIndexed) (source : RefreshSource)
    (mode : RefreshMode) : (index.refresh source mode).1.HolderIndexed := by
  have hdiscovered : (index.discoverErc20Slots source mode {}).1.HolderIndexed :=
    HolderIndexed.foldl_discoverToken source _ _ (index, {}) hindex
  exact hdiscovered.of_touches (touches_refresh index source mode)

end Operations

section Runs

variable {G : Type} {index reached : PoolLiquidityIndex}

theorem HolderIndexed.foldl_reconcilePool (hindex : index.HolderIndexed)
    (registry : AdapterRegistry) (graph : AmmGraph G) (scope : LiquidityIndexScope)
    (report : PoolLiquidityMutationReport) (pools : List PoolKey) :
    (pools.foldl (reconcilePool registry graph scope) (index, report)).1.HolderIndexed := by
  have hdone := @Maintained.foldl_reconcilePool G registry graph scope index HoldersListed
    maintained_holdersListed hindex.wellFormed hindex.listed report pools
  exact ⟨hdone.1, hdone.2⟩

theorem HolderIndexed.execute (hindex : index.HolderIndexed) (command : Command G) :
    (index.execute command).HolderIndexed := by
  cases command with
  | reconcilePools registry graph scope pools =>
      exact hindex.foldl_reconcilePool registry graph scope {} _
  | setErc20BalanceSlot token holder slot => exact hindex.setErc20Slot token holder slot
  | setBalance pool token balance =>
      exact hindex.of_touches (touches_setBalance index pool token balance)
  | markStale pool token => exact hindex.of_touches (touches_markStale index pool token)
  | refresh source mode => exact hindex.refresh source mode
  | refreshFromSnapshot storageValue =>
      exact hindex.of_touches (touches_refreshFromSnapshot index storageValue)
  | applyTransferLog cache log =>
      exact hindex.of_touches (touches_applyTransferLog index cache log)
  | markTransferLogStale log =>
      exact hindex.of_touches (touches_markTransferLogStale index log)
  | applyStorageUpdates updates =>
      exact hindex.of_touches (touches_applyStorageUpdates index updates)

/-- The holder index is exact in every state of every run. -/
theorem HolderIndexed.states (hindex : index.HolderIndexed) (commands : List (Command G))
    (hreached : reached ∈ index.states commands) : reached.HolderIndexed := by
  induction commands generalizing index with
  | nil =>
      rw [PoolLiquidityIndex.states, List.mem_singleton] at hreached
      exact hreached ▸ hindex
  | cons command rest ih =>
      rw [PoolLiquidityIndex.states, List.mem_cons] at hreached
      rcases hreached with rfl | hrest
      · exact hindex
      · exact ih (hindex.execute command) hrest

theorem Constructed.holderIndexed [StableDiGraph G Address EdgeData]
    (hconstructed : Constructed (G := G) index) : index.HolderIndexed :=
  ⟨hconstructed.reverseIndexed.wellFormed, hconstructed.reverseIndexed.reversed.holders⟩

end Runs

end PoolLiquidityIndex

end AmmSearch
