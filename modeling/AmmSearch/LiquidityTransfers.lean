/-
Transfer logs change the cache and the balances by the same deltas: a transfer
subtracts on one side and then adds on the other, once for each storage word and once
for each balance.
-/
import AmmSearch.CacheWords
import AmmSearch.LiquidityHolders

open FiniteMap StableGraph

namespace AmmSearch

namespace PoolLiquidityIndex

section Transfers

variable {index : PoolLiquidityIndex} {token holder : Address} {delta : SlotDelta}

/-- The slot of the ERC-20 target at a position. -/
def slotAt (index : PoolLiquidityIndex) (position : ℕ) : Option U256 :=
  (index.targets[position]?).bind fun target =>
    match target.source with
    | .erc20Balance _ slot => slot
    | .balancerV2VaultCash _ _ _ | .unknown => none

/-- The positions that one side of a transfer reaches. -/
def sidePositions (index : PoolLiquidityIndex) (token holder : Address) : List ℕ :=
  if holder = 0 then [] else (index.byTokenHolder.lookup (token, holder)).getD []

/-- The balances that one side of a transfer touches. -/
def sideBalances (index : PoolLiquidityIndex) (token holder : Address) (delta : SlotDelta) :
    List TouchedBalance :=
  (index.sidePositions token holder).filterMap fun position =>
    (index.slotAt position).map fun slot => ⟨position, token, slot, delta⟩

/-- The slots that one side of a transfer changes, each once. -/
structure SideSlots (index : PoolLiquidityIndex) (token holder : Address)
    (slots : List U256) : Prop where
  nodup : slots.Nodup
  mem_iff : ∀ slot, slot ∈ slots ↔
    ∃ position ∈ index.sidePositions token holder, index.slotAt position = some slot

/-- Collect the balance at one position; the set holds the slots that are changed already. -/
def collectStep (index : PoolLiquidityIndex) (token : Address) (delta : SlotDelta)
    (state : List StateUpdate × List TouchedBalance × Finset U256) (position : ℕ) :
    List StateUpdate × List TouchedBalance × Finset U256 :=
  match index.slotAt position with
  | some slot =>
      (if slot ∈ state.2.2 then state.1 else state.1 ++ [.slotDelta token slot delta],
        state.2.1 ++ [⟨position, token, slot, delta⟩], insert slot state.2.2)
  | none => state

theorem collectTransferUpdates_eq (index : PoolLiquidityIndex) (token holder : Address)
    (delta : SlotDelta) (collected : List StateUpdate × List TouchedBalance) :
    index.collectTransferUpdates token holder delta collected =
      let found := (index.sidePositions token holder).foldl (index.collectStep token delta)
        (collected.1, collected.2, ∅)
      (found.1, found.2.1) := by
  unfold collectTransferUpdates
  by_cases hzero : holder = 0
  · simp [sidePositions, hzero]
  · have hsides : index.sidePositions token holder =
        (index.byTokenHolder.lookup (token, holder)).getD [] := if_neg hzero
    rw [hsides]
    refine (if_neg hzero).trans (congrArg
      (fun found : List StateUpdate × List TouchedBalance × Finset U256 => (found.1, found.2.1))
      (List.foldl_ext _ _ _ ?_))
    intro state position _
    unfold collectStep slotAt
    cases index.targets[position]? with
    | none => rfl
    | some target =>
        obtain ⟨owned, source, balance, active⟩ := target
        cases source with
        | erc20Balance found known => cases known <;> rfl
        | balancerV2VaultCash vault slot highField => rfl
        | unknown => rfl

theorem foldl_collectStep (positions : List ℕ)
    (state : List StateUpdate × List TouchedBalance × Finset U256) :
    ∃ slots : List U256, slots.Nodup ∧
      (∀ slot, slot ∈ slots ↔
        slot ∉ state.2.2 ∧ ∃ position ∈ positions, index.slotAt position = some slot) ∧
      (positions.foldl (index.collectStep token delta) state).1 =
        state.1 ++ slots.map (fun slot => .slotDelta token slot delta) ∧
      (positions.foldl (index.collectStep token delta) state).2.1 =
        state.2.1 ++ positions.filterMap fun position =>
          (index.slotAt position).map fun slot => ⟨position, token, slot, delta⟩ := by
  induction positions generalizing state with
  | nil => exact ⟨[], by simp⟩
  | cons head rest ih =>
      rw [List.foldl_cons]
      cases hslot : index.slotAt head with
      | none =>
          obtain ⟨slots, hnodup, hmem, hupdates, htouched⟩ := ih state
          have hsame : index.collectStep token delta state head = state := by
            rw [collectStep, hslot]
          rw [hsame]
          exact ⟨slots, hnodup, by simp [hmem, hslot], hupdates, by simp [htouched, hslot]⟩
      | some slot =>
          obtain ⟨slots, hnodup, hmem, hupdates, htouched⟩ :=
            ih (index.collectStep token delta state head)
          rw [hupdates, htouched]
          have hlisted : ∀ other, (∃ position ∈ head :: rest,
              index.slotAt position = some other) ↔
              slot = other ∨ ∃ position ∈ rest, index.slotAt position = some other := by
            intro other
            simp [hslot]
          simp only [collectStep, hslot] at hmem ⊢
          by_cases hpushed : slot ∈ state.2.2
          · refine ⟨slots, hnodup, fun other => ?_, by simp [hpushed], by simp [hslot]⟩
            rw [hmem, hlisted, Finset.insert_eq_of_mem hpushed]
            constructor
            · exact fun hother => ⟨hother.1, Or.inr hother.2⟩
            · rintro ⟨hother, rfl | hrest⟩
              · exact absurd hpushed hother
              · exact ⟨hother, hrest⟩
          · have hnew : slot ∉ slots := fun hslots => by simpa using (hmem slot).mp hslots
            refine ⟨slot :: slots, List.nodup_cons.mpr ⟨hnew, hnodup⟩, fun other => ?_,
              by simp [hpushed], by simp [hslot]⟩
            rw [List.mem_cons, hmem, hlisted, Finset.mem_insert, not_or]
            by_cases hother : other = slot
            · subst hother
              simp [hpushed]
            · simp [hother, Ne.symm hother]

/-- One side of a transfer changes every slot once and touches every balance. -/
theorem collectTransferUpdates_spec (index : PoolLiquidityIndex) (token holder : Address)
    (delta : SlotDelta) (collected : List StateUpdate × List TouchedBalance) :
    ∃ slots, index.SideSlots token holder slots ∧
      index.collectTransferUpdates token holder delta collected =
        (collected.1 ++ slots.map (fun slot => .slotDelta token slot delta),
          collected.2 ++ index.sideBalances token holder delta) := by
  obtain ⟨slots, hnodup, hmem, hupdates, htouched⟩ :=
    @foldl_collectStep index token delta (index.sidePositions token holder)
      (collected.1, collected.2, ∅)
  refine ⟨slots, ⟨hnodup, fun slot => by simpa using hmem slot⟩, ?_⟩
  rw [collectTransferUpdates_eq]
  exact Prod.ext hupdates htouched

theorem getElem?_applyTouched (cache : AdapterCache) (skipped : List (Address × U256))
    (state : PoolLiquidityIndex × TransferApplyReport) (touched : TouchedBalance)
    (position : ℕ) :
    (applyTouched cache skipped state touched).1.targets[position]? =
      if position = touched.position then
        (state.1.targets[position]?).map fun target => target.touch cache skipped touched
      else state.1.targets[position]? := by
  obtain ⟨start, report⟩ := state
  unfold applyTouched PoolLiquidityTarget.touch
  by_cases hposition : position = touched.position
  · subst hposition
    by_cases hskipped : (touched.address, touched.slot) ∈ skipped
    · simp [hskipped, getElem?_setTargetBalance]
    · simp only [hskipped, if_false, if_true]
      cases htarget : start.targets[touched.position]? with
      | none =>
          simp only [Option.bind_none, getElem?_setTargetBalance, if_true, htarget,
            Option.map_none]
      | some target =>
          simp only [Option.bind_some, Option.map_some]
          cases target.balance.fresh? with
          | none => simp only [getElem?_setTargetBalance, if_true, htarget, Option.map_some]
          | some current =>
              simp only [getElem?_setTargetBalance, if_true, htarget, Option.map_some]
  · rw [if_neg hposition]
    exact (touches_applyTouched cache skipped (start, report) touched).others position hposition

/-- Each target is touched by its own entries, in their order. -/
theorem getElem?_foldl_applyTouched (cache : AdapterCache)
    (skipped : List (Address × U256)) (entries : List TouchedBalance)
    (state : PoolLiquidityIndex × TransferApplyReport) (position : ℕ) :
    (entries.foldl (applyTouched cache skipped) state).1.targets[position]? =
      (state.1.targets[position]?).map fun target =>
        (entries.filter fun entry => entry.position = position).foldl
          (PoolLiquidityTarget.touch cache skipped) target := by
  induction entries generalizing state with
  | nil => simp
  | cons head rest ih =>
      rw [List.foldl_cons, ih, getElem?_applyTouched]
      by_cases hposition : position = head.position
      · simp [hposition, Function.comp_def]
      · simp [hposition, Ne.symm hposition]

theorem foldl_touch_shape (cache : AdapterCache) (skipped : List (Address × U256))
    (entries : List TouchedBalance) (target : PoolLiquidityTarget) :
    (entries.foldl (PoolLiquidityTarget.touch cache skipped) target).shape = target.shape := by
  induction entries generalizing target with
  | nil => rfl
  | cons head rest ih =>
      rw [List.foldl_cons, ih]
      exact PoolLiquidityTarget.touch_shape skipped target head

theorem HoldersListed.nodup_sidePositions (hlisted : index.HoldersListed) :
    (index.sidePositions token holder).Nodup := by
  unfold sidePositions
  split
  · exact List.nodup_nil
  · exact hlisted.nodup (token, holder)

/-- The one entry of a position, if it has a slot. -/
theorem HoldersListed.filter_sideBalances (hlisted : index.HoldersListed) (position : ℕ) :
    (index.sideBalances token holder delta).filter (fun entry => entry.position = position) =
      if position ∈ index.sidePositions token holder then
        ((index.slotAt position).map fun slot => (⟨position, token, slot, delta⟩ :
          TouchedBalance)).toList
      else [] := by
  have hnodup := @HoldersListed.nodup_sidePositions index token holder hlisted
  unfold sideBalances
  generalize index.sidePositions token holder = positions at hnodup
  induction positions with
  | nil => rfl
  | cons head rest ih =>
      rw [List.nodup_cons] at hnodup
      have hrest := ih hnodup.2
      by_cases hhead : head = position
      · subst hhead
        rw [if_neg hnodup.1] at hrest
        cases hslot : index.slotAt head with
        | none => simpa [hslot] using hrest
        | some slot => simpa [hslot] using hrest
      · cases hslot : index.slotAt head with
        | none => simpa [hslot, Ne.symm hhead] using hrest
        | some slot => simpa [hslot, hhead, Ne.symm hhead] using hrest

theorem SideSlots.sideBalances_eq_nil (hslots : index.SideSlots token holder []) :
    index.sideBalances token holder delta = [] := by
  apply List.filterMap_eq_nil_iff.mpr
  intro position hposition
  cases hslot : index.slotAt position with
  | none => rfl
  | some slot =>
      have hmem := (hslots.mem_iff slot).mpr ⟨position, hposition, hslot⟩
      cases hmem

/-- The cache updates of a transfer log. -/
def transferUpdates (index : PoolLiquidityIndex) (log : Log) : List StateUpdate :=
  match parseTransfer log with
  | none => []
  | some transfer =>
      (index.collectTransferUpdates transfer.token transfer.target (.add transfer.value)
        (index.collectTransferUpdates transfer.token transfer.source (.sub transfer.value)
          ([], []))).1

/-- The words that a cache reports as skipped. -/
def skippedWords (cache : AdapterCache) (updates : List StateUpdate) :
    List (Address × U256) :=
  if (cache.applyUpdates updates).hasSkipped then (cache.applyUpdates updates).skipped else []

/-- A transfer subtracts on one side and then adds on the other, in the cache and in
the balances. -/
theorem applyTransferLog_spec (index : PoolLiquidityIndex) (cache : AdapterCache) {log : Log}
    {transfer : TokenTransfer} (hparse : parseTransfer log = some transfer) :
    ∃ sourceSlots targetSlots,
      index.SideSlots transfer.token transfer.source sourceSlots ∧
      index.SideSlots transfer.token transfer.target targetSlots ∧
      index.transferUpdates log =
        sourceSlots.map (fun slot => .slotDelta transfer.token slot (.sub transfer.value)) ++
        targetSlots.map (fun slot => .slotDelta transfer.token slot (.add transfer.value)) ∧
      ∀ position : ℕ, (index.applyTransferLog cache log).1.targets[position]? =
        (index.targets[position]?).map fun target =>
          ((index.sideBalances transfer.token transfer.target (.add transfer.value)).filter
              fun entry => entry.position = position).foldl
            (PoolLiquidityTarget.touch cache (skippedWords cache (index.transferUpdates log)))
            (((index.sideBalances transfer.token transfer.source (.sub transfer.value)).filter
                fun entry => entry.position = position).foldl
              (PoolLiquidityTarget.touch cache (skippedWords cache (index.transferUpdates log)))
              target) := by
  obtain ⟨sourceSlots, hsource, hfirst⟩ := index.collectTransferUpdates_spec transfer.token
    transfer.source (.sub transfer.value) ([], [])
  obtain ⟨targetSlots, htarget, hsecond⟩ := index.collectTransferUpdates_spec transfer.token
    transfer.target (.add transfer.value)
    (sourceSlots.map (fun slot => .slotDelta transfer.token slot (.sub transfer.value)),
      index.sideBalances transfer.token transfer.source (.sub transfer.value))
  rw [List.nil_append, List.nil_append] at hfirst
  have hcollected : index.transferUpdates log =
      sourceSlots.map (fun slot => .slotDelta transfer.token slot (.sub transfer.value)) ++
      targetSlots.map (fun slot => .slotDelta transfer.token slot (.add transfer.value)) := by
    simp only [transferUpdates, hparse, hfirst, hsecond]
  unfold applyTransferLog
  simp only [hparse, hfirst, hsecond]
  split
  · -- Nothing is changed: neither side has a known slot.
    rename_i hnone
    rw [List.append_eq_nil_iff, List.map_eq_nil_iff, List.map_eq_nil_iff] at hnone
    obtain ⟨rfl, rfl⟩ := hnone
    refine ⟨[], [], hsource, htarget, hcollected, fun position => ?_⟩
    rw [hsource.sideBalances_eq_nil, htarget.sideBalances_eq_nil]
    simp
  · refine ⟨sourceSlots, targetSlots, hsource, htarget, hcollected, fun position => ?_⟩
    rw [getElem?_foldl_applyTouched, hcollected]
    simp only [List.filter_append, List.foldl_append, skippedWords]

end Transfers

section Follows

variable {index : PoolLiquidityIndex} {token holder : Address} {delta : SlotDelta}
  {cache : StoringCache} {words : CacheWords} {position : ℕ} {target current : PoolLiquidityTarget}

/-- Balances of different token holders have different storage words; only packed
vault words, which belong to no holder, serve two balances. -/
def DistinctSlots (index : PoolLiquidityIndex) : Prop :=
  ∀ target ∈ index.targets, ∀ other ∈ index.targets, target.active = true →
    other.active = true → target.storageSlot.isSome → target.storageSlot = other.storageSlot →
      target.tokenHolder = other.tokenHolder

/-- Every fresh balance with a slot is what its storage word holds. -/
def Follows (index : PoolLiquidityIndex) (words : CacheWords) : Prop :=
  ∀ target ∈ index.targets, target.active = true → target.Follows words

/-- One side of a transfer moves a balance exactly as it moves its word. -/
theorem follows_side (hlisted : index.HoldersListed) (hdistinct : index.DistinctSlots)
    (skipped : List (Address × U256)) {slots : List U256}
    (hslots : index.SideSlots token holder slots)
    (htarget : index.targets[position]? = some target) (hactive : target.active = true)
    (hshape : current.shape = target.shape) (hfollows : current.Follows words) :
    (((index.sideBalances token holder delta).filter
        fun entry => entry.position = position).foldl
          (PoolLiquidityTarget.touch cache.toAdapterCache skipped) current).Follows
      (cache.applyAll words (slots.map fun slot => .slotDelta token slot delta)) := by
  have htoken : current.token = target.token := congrArg (fun shape => shape.1) hshape
  have hsource : current.source = target.source := congrArg (fun shape => shape.2.1) hshape
  rw [hlisted.filter_sideBalances]
  by_cases hside : position ∈ index.sidePositions token holder
  · -- The target belongs to the holder: its word is changed if it has one.
    rw [if_pos hside]
    have hlookup : position ∈ (index.byTokenHolder.lookup (token, holder)).getD [] := by
      unfold sidePositions at hside
      split at hside
      · cases hside
      · exact hside
    obtain ⟨known, balance, hfound⟩ := hlisted.erc20_of_mem hlookup
    obtain rfl := Option.some.inj (htarget.symm.trans hfound)
    cases known with
    | none =>
        have hnone : index.slotAt position = none := by simp [slotAt, htarget]
        rw [hnone]
        intro key moved hkey _
        rw [PoolLiquidityTarget.storageSlot, Option.map_none, Option.toList_none,
          List.foldl_nil, hsource] at hkey
        cases hkey
    | some slot =>
        have hsome : index.slotAt position = some slot := by simp [slotAt, htarget]
        rw [hsome]
        apply hfollows.touch skipped hsource
        rw [StoringCache.applyAll_slotDeltas cache token delta hslots.nodup, if_pos]
        exact ⟨htoken, (hslots.mem_iff slot).mpr ⟨position, hside, hsome⟩⟩
  · -- The target is of another holder: no changed word is its word.
    rw [if_neg hside]
    intro key balance hkey hbalance
    rw [StoringCache.applyAll_slotDeltas cache token delta hslots.nodup, if_neg]
    · exact hfollows key balance hkey hbalance
    · rintro ⟨hkeyToken, hkeySlot⟩
      obtain ⟨other, hother, hslot⟩ := (hslots.mem_iff key.2).mp hkeySlot
      have hzero : holder ≠ 0 := by
        rintro rfl
        simp [sidePositions] at hother
      rw [sidePositions, if_neg hzero] at hother hside
      obtain ⟨known, balance', hfound⟩ := hlisted.erc20_of_mem hother
      obtain rfl : known = some key.2 := by
        rw [slotAt, hfound] at hslot
        exact hslot
      have htargetKey : target.storageSlot = some key := by
        rw [PoolLiquidityTarget.storageSlot, ← hsource, ← htoken]
        exact hkey
      have hholder := hdistinct target (List.mem_of_getElem? htarget) _
        (List.mem_of_getElem? hfound) hactive rfl (by rw [htargetKey]; rfl)
        (by rw [htargetKey]; exact congrArg some (Prod.ext hkeyToken rfl))
      apply hside
      rw [hlisted.mem_iff, keyAt, htarget, Option.bind_some, if_pos hactive, hholder]
      rfl

/-- After a transfer log every fresh balance follows the cache again. -/
theorem follows_applyTransferLog (hlisted : index.HoldersListed)
    (hdistinct : index.DistinctSlots) (hfollows : index.Follows words) (log : Log) :
    (index.applyTransferLog cache.toAdapterCache log).1.Follows
      (cache.applyAll words (index.transferUpdates log)) := by
  intro after hafter hactive
  cases hparse : parseTransfer log with
  | none =>
      have hsame : index.applyTransferLog cache.toAdapterCache log = (index, {}) := by
        simp only [applyTransferLog, hparse]
      rw [hsame] at hafter
      simp only [transferUpdates, hparse]
      exact hfollows after hafter hactive
  | some transfer =>
      obtain ⟨sourceSlots, targetSlots, hsource, htarget, hupdates, htargets⟩ :=
        index.applyTransferLog_spec cache.toAdapterCache hparse
      obtain ⟨position, hposition⟩ := List.mem_iff_getElem?.mp hafter
      rw [htargets position, Option.map_eq_some_iff] at hposition
      obtain ⟨before, hbefore, rfl⟩ := hposition
      generalize skippedWords cache.toAdapterCache (index.transferUpdates log) = skipped
        at hactive ⊢
      have hshape := foldl_touch_shape cache.toAdapterCache skipped
        ((index.sideBalances transfer.token transfer.source (.sub transfer.value)).filter
          fun entry => entry.position = position) before
      have hbeforeActive : before.active = true := by
        have hlast := foldl_touch_shape cache.toAdapterCache skipped
          ((index.sideBalances transfer.token transfer.target (.add transfer.value)).filter
            fun entry => entry.position = position) (((index.sideBalances transfer.token
            transfer.source (.sub transfer.value)).filter fun entry =>
              entry.position = position).foldl
                (PoolLiquidityTarget.touch cache.toAdapterCache skipped) before)
        rw [← hactive]
        exact (congrArg (fun shape => shape.2.2) (hlast.trans hshape)).symm
      have hstart := hfollows before (List.mem_of_getElem? hbefore) hbeforeActive
      rw [hupdates, StoringCache.applyAll_append]
      apply follows_side hlisted hdistinct skipped htarget hbefore hbeforeActive hshape
      exact follows_side hlisted hdistinct skipped hsource hbefore hbeforeActive rfl hstart

end Follows

end PoolLiquidityIndex

end AmmSearch
