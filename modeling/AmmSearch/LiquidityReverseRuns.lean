/-
Runs of a liquidity index: which public operations keep the reverse indexes
exact.  Balance updates never move a target; a slot that is set for a token
holder keeps the indexes exact as long as no target of that holder already has
another slot.
-/
import AmmSearch.AmmGraphOperations
import AmmSearch.LiquidityReverse

open FiniteMap StableGraph

namespace AmmSearch

namespace PoolLiquidityIndex

section Balances

variable {index next last : PoolLiquidityIndex} {touched : ℕ → Prop}

/-- Only balances change, and only at touched positions. -/
structure Touches (touched : ℕ → Prop) (index next : PoolLiquidityIndex) : Prop where
  maps : next = { index with targets := next.targets }
  shapes : ∀ position : ℕ, (next.targets[position]?).map PoolLiquidityTarget.shape =
    (index.targets[position]?).map PoolLiquidityTarget.shape
  others : ∀ position, ¬ touched position →
    next.targets[position]? = index.targets[position]?

theorem Touches.refl (index : PoolLiquidityIndex) : Touches touched index index :=
  ⟨rfl, fun _ => rfl, fun _ _ => rfl⟩

theorem Touches.trans (hfirst : Touches touched index next)
    (hsecond : Touches touched next last) : Touches touched index last := by
  refine ⟨?_, fun position => ?_, fun position hposition => ?_⟩
  · rw [hsecond.maps, hfirst.maps]
  · exact (hsecond.shapes position).trans (hfirst.shapes position)
  · exact (hsecond.others position hposition).trans (hfirst.others position hposition)

theorem Touches.mono {touched' : ℕ → Prop} (htouches : Touches touched index next)
    (hmono : ∀ position, touched position → touched' position) :
    Touches touched' index next :=
  ⟨htouches.maps, htouches.shapes, fun position hposition =>
    htouches.others position fun hold => hposition (hmono position hold)⟩

theorem touches_setTargetBalance (index : PoolLiquidityIndex) (position : ℕ)
    (balance : PoolLiquidityTarget → BalanceState) :
    Touches (· = position) index (index.setTargetBalance position balance) := by
  refine ⟨rfl, fun other => ?_, fun other hother => ?_⟩
  · simp only [setTargetBalance, List.getElem?_modify]
    cases index.targets[other]? with
    | none => rfl
    | some target =>
        simp only [Option.map_some]
        split <;> rfl
  · simp only [setTargetBalance, List.getElem?_modify, if_neg (Ne.symm hother)]
    cases index.targets[other]? <;> rfl

/-- A fold of steps that touch listed positions. -/
theorem touches_foldl {α σ : Type} (read : σ → PoolLiquidityIndex) {step : σ → α → σ}
    {entries : List α}
    (hstep : ∀ state, ∀ entry ∈ entries, Touches touched (read state)
      (read (step state entry))) (state : σ) :
    Touches touched (read state) (read (entries.foldl step state)) := by
  induction entries generalizing state with
  | nil => exact Touches.refl _
  | cons head rest ih =>
      apply (hstep state head List.mem_cons_self).trans
      exact ih (fun state entry hentry =>
        hstep state entry (List.mem_cons_of_mem head hentry)) _

theorem touches_markPositions (index : PoolLiquidityIndex) (positions : List ℕ)
    (balance : BalanceState) :
    Touches (· ∈ positions) index (index.markPositions positions balance) := by
  apply touches_foldl id
  intro state position hposition
  apply (touches_setTargetBalance state position _).mono
  rintro _ rfl
  exact hposition

theorem touches_updateSlotValue (index : PoolLiquidityIndex) (address : Address)
    (slot value : U256) :
    Touches (· ∈ (index.byStorageSlot.lookup (address, slot)).getD []) index
      (index.updateSlotValue address slot value).1 := by
  refine touches_foldl Prod.fst ?_ (index, 0)
  intro state position hposition
  unfold storeValue
  simp only
  split
  · apply (touches_setTargetBalance state.1 position _).mono
    rintro _ rfl
    exact hposition
  · exact Touches.refl _

theorem touches_applyTouched (cache : AdapterCache) (skipped : List (Address × U256))
    (state : PoolLiquidityIndex × TransferApplyReport) (touched : TouchedBalance) :
    Touches (· = touched.position) state.1 (applyTouched cache skipped state touched).1 := by
  unfold applyTouched
  simp only
  split
  · exact touches_setTargetBalance state.1 touched.position _
  · split
    · exact touches_setTargetBalance state.1 touched.position _
    · exact touches_setTargetBalance state.1 touched.position _

/-- The collected balances are listed under the holder. -/
theorem mem_collectTransferUpdates {index : PoolLiquidityIndex} {token holder : Address}
    {delta : SlotDelta} {collected : List StateUpdate × List TouchedBalance}
    {touched : TouchedBalance}
    (hmem : touched ∈ (index.collectTransferUpdates token holder delta collected).2) :
    touched ∈ collected.2 ∨
      touched.position ∈ (index.byTokenHolder.lookup (token, holder)).getD [] := by
  unfold collectTransferUpdates at hmem
  split at hmem
  · exact Or.inl hmem
  · generalize (index.byTokenHolder.lookup (token, holder)).getD [] = positions at hmem ⊢
    simp only at hmem
    generalize (∅ : Finset U256) = pushed at hmem
    obtain ⟨updates, found⟩ := collected
    simp only at hmem ⊢
    induction positions generalizing updates found pushed with
    | nil => exact Or.inl hmem
    | cons head rest ih =>
        rw [List.foldl_cons] at hmem
        have hrest : ∀ {updates found pushed},
            touched ∈ (rest.foldl _ (updates, found, pushed)).2.1 →
              touched ∈ found ∨ touched.position ∈ rest := fun hfound => ih _ _ _ hfound
        rw [List.mem_cons]
        split at hmem
        · split at hmem
          · rcases hrest hmem with hfound | hlater
            · rcases List.mem_append.mp hfound with hold | hnew
              · exact Or.inl hold
              · right
                left
                rw [List.mem_singleton.mp hnew]
            · exact Or.inr (Or.inr hlater)
          · rcases hrest hmem with hold | hlater
            · exact Or.inl hold
            · exact Or.inr (Or.inr hlater)
        · rcases hrest hmem with hold | hlater
          · exact Or.inl hold
          · exact Or.inr (Or.inr hlater)

theorem touches_applyTransferLog (index : PoolLiquidityIndex) (cache : AdapterCache)
    (log : Log) :
    Touches (fun position => ∃ transfer, parseTransfer log = some transfer ∧
      (position ∈ (index.byTokenHolder.lookup (transfer.token, transfer.source)).getD [] ∨
        position ∈ (index.byTokenHolder.lookup (transfer.token, transfer.target)).getD []))
      index (index.applyTransferLog cache log).1 := by
  unfold applyTransferLog
  cases hparse : parseTransfer log with
  | none => exact Touches.refl index
  | some transfer =>
      simp only
      split
      · exact Touches.refl index
      · refine touches_foldl Prod.fst ?_ (index, _)
        intro state entry hentry
        apply (touches_applyTouched cache _ state entry).mono
        rintro _ rfl
        refine ⟨transfer, rfl, ?_⟩
        rcases mem_collectTransferUpdates hentry with hsource | htarget
        · rcases mem_collectTransferUpdates hsource with hnone | hsource
          · cases hnone
          · exact Or.inl hsource
        · exact Or.inr htarget

theorem touches_markHolderStale (token : Address)
    (state : PoolLiquidityIndex × TransferApplyReport) (holder : Address) :
    Touches (· ∈ (state.1.byTokenHolder.lookup (token, holder)).getD []) state.1
      (markHolderStale token state holder).1 := by
  unfold markHolderStale
  simp only
  split
  · exact Touches.refl _
  · exact touches_markPositions _ _ _

theorem touches_markTransferLogStale (index : PoolLiquidityIndex) (log : Log) :
    Touches (fun position => ∃ transfer, parseTransfer log = some transfer ∧
      (position ∈ (index.byTokenHolder.lookup (transfer.token, transfer.source)).getD [] ∨
        position ∈ (index.byTokenHolder.lookup (transfer.token, transfer.target)).getD []))
      index (index.markTransferLogStale log).1 := by
  unfold markTransferLogStale
  cases hparse : parseTransfer log with
  | none => exact Touches.refl index
  | some transfer =>
      have hfirst := touches_markHolderStale transfer.token (index, { matched := true })
        transfer.source
      have hsecond := touches_markHolderStale transfer.token
        (markHolderStale transfer.token (index, { matched := true }) transfer.source)
        transfer.target
      have hholders := congrArg PoolLiquidityIndex.byTokenHolder hfirst.maps
      refine (hfirst.mono ?_).trans (hsecond.mono ?_)
      · exact fun position hposition => ⟨transfer, rfl, Or.inl hposition⟩
      · intro position hposition
        rw [hholders] at hposition
        exact ⟨transfer, rfl, Or.inr hposition⟩

/-- The storage words that a batch of updates writes. -/
def writtenSlots (updates : List StateUpdate) : List (Address × U256) :=
  updates.filterMap fun update =>
    match update with
    | .slot address slot _ => some (address, slot)
    | .slotDelta _ _ _ | .other _ => none

theorem touches_applyStorageUpdates (index : PoolLiquidityIndex)
    (updates : List StateUpdate) :
    Touches (fun position => ∃ key ∈ writtenSlots updates,
      position ∈ (index.byStorageSlot.lookup key).getD []) index
      (index.applyStorageUpdates updates).1 := by
  unfold applyStorageUpdates
  generalize (0 : ℕ) = updated
  induction updates generalizing index updated with
  | nil => exact Touches.refl index
  | cons head rest ih =>
      rw [List.foldl_cons]
      cases head with
      | slot address slot value =>
          have hstored := touches_updateSlotValue index address slot value
          have hslots := congrArg PoolLiquidityIndex.byStorageSlot hstored.maps
          refine (hstored.mono ?_).trans ((ih _ _).mono ?_)
          · intro position hposition
            exact ⟨(address, slot), by simp [writtenSlots], hposition⟩
          · rintro position ⟨key, hkey, hposition⟩
            rw [hslots] at hposition
            refine ⟨key, ?_, hposition⟩
            simpa [writtenSlots] using Or.inr hkey
      | slotDelta address slot delta =>
          apply (ih _ _).mono
          rintro position ⟨key, hkey, hposition⟩
          exact ⟨key, by simpa [writtenSlots] using hkey, hposition⟩
      | other tag =>
          apply (ih _ _).mono
          rintro position ⟨key, hkey, hposition⟩
          exact ⟨key, by simpa [writtenSlots] using hkey, hposition⟩

end Balances

section Places

variable {index next : PoolLiquidityIndex}

/-- The positions keep their tokens and stay in use or free. -/
structure SamePlaces (index next : PoolLiquidityIndex) : Prop where
  byPoolToken : next.byPoolToken = index.byPoolToken
  byPool : next.byPool = index.byPool
  freeTargets : next.freeTargets = index.freeTargets
  places : ∀ position : ℕ,
    (next.targets[position]?).map (fun target => (target.token, target.active)) =
      (index.targets[position]?).map fun target => (target.token, target.active)

theorem SamePlaces.getElem? (hsame : SamePlaces index next) {position : ℕ}
    {target : PoolLiquidityTarget} (htarget : index.targets[position]? = some target) :
    ∃ other, next.targets[position]? = some other ∧ other.token = target.token ∧
      other.active = target.active := by
  have hplace := hsame.places position
  rw [htarget, Option.map_some, Option.map_eq_some_iff] at hplace
  obtain ⟨other, hother, heq⟩ := hplace
  exact ⟨other, hother, congrArg Prod.fst heq, congrArg Prod.snd heq⟩

theorem SamePlaces.symm (hsame : SamePlaces index next) : SamePlaces next index :=
  ⟨hsame.byPoolToken.symm, hsame.byPool.symm, hsame.freeTargets.symm,
    fun position => (hsame.places position).symm⟩

theorem WellFormed.of_samePlaces (hindex : index.WellFormed)
    (hsame : SamePlaces index next) : next.WellFormed := by
  refine ⟨⟨⟨?_, ?_⟩, ?_, ?_, ?_, ?_⟩, ?_, ?_⟩
  · intro position hposition
    rw [hsame.freeTargets] at hposition
    have hlt := hindex.slots.lt_length position hposition
    obtain ⟨other, hother, _⟩ := hsame.getElem? (List.getElem?_eq_getElem hlt)
    exact (List.getElem?_eq_some_iff.mp hother).1
  · rw [hsame.freeTargets]
    exact hindex.slots.nodup
  · intro pool token position hposition
    rw [hsame.byPoolToken] at hposition
    obtain ⟨target, htarget, hactive, htoken⟩ := hindex.located pool token position hposition
    obtain ⟨other, hother, hotherToken, hotherActive⟩ := hsame.getElem? htarget
    exact ⟨other, hother, hotherActive.trans hactive, hotherToken.trans htoken⟩
  · rw [hsame.byPoolToken]
    exact hindex.injective
  · intro position target htarget hactive
    obtain ⟨other, hother, htoken, hotherActive⟩ := hsame.symm.getElem? htarget
    rw [hsame.byPoolToken, ← htoken]
    exact hindex.owned position other hother (hotherActive.trans hactive)
  · intro position hposition target htarget
    rw [hsame.freeTargets] at hposition
    obtain ⟨other, hother, _, hactive⟩ := hsame.symm.getElem? htarget
    rw [← hactive]
    exact hindex.released position hposition other hother
  · rw [hsame.byPool, hsame.byPoolToken]
    exact hindex.mem_byPool
  · rw [hsame.byPool]
    exact hindex.nodup_byPool

theorem Reversed.freed_of_samePlaces (hreversed : index.Reversed)
    (hsame : SamePlaces index next) {position : ℕ} {target : PoolLiquidityTarget}
    (htarget : next.targets[position]? = some target) (hinactive : target.active = false) :
    position ∈ next.freeTargets := by
  obtain ⟨other, hother, _, hactive⟩ := hsame.symm.getElem? htarget
  rw [hsame.freeTargets]
  exact hreversed.freed position other hother (hactive.trans hinactive)

theorem Touches.samePlaces {touched : ℕ → Prop} (htouches : Touches touched index next) :
    SamePlaces index next := by
  have hmaps := htouches.maps
  refine ⟨by rw [hmaps], by rw [hmaps], by rw [hmaps], fun position => ?_⟩
  have hplace : ∀ found : Option PoolLiquidityTarget,
      found.map (fun target => (target.token, target.active)) =
        (found.map PoolLiquidityTarget.shape).map fun shape => (shape.1, shape.2.2) := by
    intro found
    rw [Option.map_map]
    rfl
  rw [hplace, hplace, htouches.shapes position]

/-- Keys that do not read the balance are the same. -/
theorem Touches.keyAt_eq {touched : ℕ → Prop} (htouches : Touches touched index next)
    {κ : Type} {key : PoolLiquidityTarget → Option κ}
    (hkey : ∀ target other : PoolLiquidityTarget, target.shape = other.shape →
      key target = key other) : keyAt key next.targets = keyAt key index.targets := by
  funext position
  have hshape := htouches.shapes position
  unfold keyAt
  cases hleft : next.targets[position]? with
  | none =>
      rw [hleft, Option.map_none, eq_comm, Option.map_eq_none_iff] at hshape
      rw [hshape]
  | some target =>
      rw [hleft, Option.map_some, eq_comm, Option.map_eq_some_iff] at hshape
      obtain ⟨other, hother, heq⟩ := hshape
      have hactive : other.active = target.active := congrArg (fun shape => shape.2.2) heq
      simp only [hother, Option.bind_some, hactive, hkey other target heq]

theorem Touches.holdersListed {touched : ℕ → Prop} (htouches : Touches touched index next)
    (hlisted : index.HoldersListed) : next.HoldersListed := by
  unfold HoldersListed
  rw [htouches.keyAt_eq, htouches.maps]
  · exact hlisted
  · rintro ⟨token, source, _, _⟩ ⟨token', source', _, _⟩ hshape
    simp only [PoolLiquidityTarget.shape, Prod.mk.injEq] at hshape
    simp [PoolLiquidityTarget.tokenHolder, hshape.1, hshape.2.1]

theorem ReverseIndexed.of_touches {touched : ℕ → Prop} (hindex : index.ReverseIndexed)
    (htouches : Touches touched index next) : next.ReverseIndexed := by
  have hsame := htouches.samePlaces
  refine ⟨hindex.wellFormed.of_samePlaces hsame, ?_,
    htouches.holdersListed hindex.reversed.holders, ?_⟩
  · rw [htouches.keyAt_eq, htouches.maps]
    · exact hindex.reversed.storage
    · rintro ⟨token, source, _, _⟩ ⟨token', source', _, _⟩ hshape
      simp only [PoolLiquidityTarget.shape, Prod.mk.injEq] at hshape
      simp [PoolLiquidityTarget.storageSlot, hshape.1, hshape.2.1]
  · intro position target htarget hinactive
    exact hindex.reversed.freed_of_samePlaces hsame htarget hinactive

end Places

section Slots

variable {index next : PoolLiquidityIndex} {token holder : Address} {slot : U256}

/-- No tracked balance of the holder has another slot. -/
def SlotOpen (index : PoolLiquidityIndex) (token holder : Address) (slot : U256) : Prop :=
  ∀ position ∈ (index.byTokenHolder.lookup (token, holder)).getD [],
    ∀ target, index.targets[position]? = some target →
      target.storageSlot = none ∨ target.storageSlot = some (token, slot)

/-- An ERC-20 target of the holder, found through the holder index. -/
theorem HoldersListed.erc20_of_mem (hlisted : index.HoldersListed) {position : ℕ}
    (hposition : position ∈ (index.byTokenHolder.lookup (token, holder)).getD []) :
    ∃ known balance, index.targets[position]? =
      some ⟨token, .erc20Balance holder known, balance, true⟩ := by
  have hkey := (hlisted.mem_iff (token, holder) position).mp hposition
  obtain ⟨⟨owned, source, balance, active⟩, htarget, hactive⟩ :=
    Option.bind_eq_some_iff.mp hkey
  simp only at hactive
  split at hactive
  · rename_i hused
    cases source with
    | erc20Balance found known =>
        simp only [PoolLiquidityTarget.tokenHolder, Option.some.injEq, Prod.mk.injEq] at hactive
        obtain ⟨rfl, rfl⟩ := hactive
        rw [hused] at htarget
        exact ⟨known, balance, htarget⟩
    | balancerV2VaultCash vault slot highField => cases hactive
    | unknown => cases hactive
  · cases hactive

theorem setTargetSlot_eq {position : ℕ} {known : Option U256} {balance : BalanceState}
    (htarget : index.targets[position]? =
      some ⟨token, .erc20Balance holder known, balance, true⟩) :
    setTargetSlot token slot index position =
      { index with
        targets := index.targets.set position
          ⟨token, .erc20Balance holder (some slot), balance, true⟩
        byStorageSlot := index.byStorageSlot.insert (token, slot)
          (if position ∈ (index.byStorageSlot.lookup (token, slot)).getD [] then
            (index.byStorageSlot.lookup (token, slot)).getD []
          else (index.byStorageSlot.lookup (token, slot)).getD [] ++ [position]) } := by
  simp only [setTargetSlot, htarget]

theorem samePlaces_setTargetSlot {position : ℕ} {known : Option U256}
    {balance : BalanceState} (htarget : index.targets[position]? =
      some ⟨token, .erc20Balance holder known, balance, true⟩) :
    SamePlaces index (setTargetSlot token slot index position) := by
  rw [setTargetSlot_eq htarget]
  refine ⟨rfl, rfl, rfl, fun other => ?_⟩
  have hlt := (List.getElem?_eq_some_iff.mp htarget).1
  simp only [List.getElem?_set, hlt, if_true]
  split
  · rename_i heq
    subst heq
    rw [htarget]
    rfl
  · rfl

/-- Replacing an active target replaces its keys. -/
theorem keyAt_set_active {κ : Type} (key : PoolLiquidityTarget → Option κ) {position : ℕ}
    {known : Option U256} {balance : BalanceState} (htarget : index.targets[position]? =
      some ⟨token, .erc20Balance holder known, balance, true⟩) :
    keyAt key (index.targets.set position
      ⟨token, .erc20Balance holder (some slot), balance, true⟩) =
    Function.update (keyAt key index.targets) position
      (key ⟨token, .erc20Balance holder (some slot), balance, true⟩) := by
  have hlt := (List.getElem?_eq_some_iff.mp htarget).1
  funext other
  rw [keyAt, List.getElem?_set, Function.update_apply]
  by_cases hother : position = other
  · simp [hother, hother ▸ hlt]
  · rw [if_neg hother, if_neg (Ne.symm hother)]
    rfl

/-- A slot never moves a target to another holder. -/
theorem holdersListed_setTargetSlot (hlisted : index.HoldersListed) {position : ℕ}
    {known : Option U256} {balance : BalanceState} (htarget : index.targets[position]? =
      some ⟨token, .erc20Balance holder known, balance, true⟩) :
    (setTargetSlot token slot index position).HoldersListed := by
  unfold HoldersListed
  rw [setTargetSlot_eq htarget]
  simp only [keyAt_set_active _ htarget]
  have hupdate : Function.update (keyAt PoolLiquidityTarget.tokenHolder index.targets)
      position (PoolLiquidityTarget.tokenHolder
        ⟨token, .erc20Balance holder (some slot), balance, true⟩) =
      keyAt PoolLiquidityTarget.tokenHolder index.targets := by
    rw [Function.update_eq_self_iff]
    simp only [keyAt, htarget, Option.bind_some, if_true]
    rfl
  rw [hupdate]
  exact hlisted

/-- Setting one slot that is open. -/
theorem ReverseIndexed.setTargetSlot (hindex : index.ReverseIndexed) {position : ℕ}
    {known : Option U256} {balance : BalanceState} (htarget : index.targets[position]? =
      some ⟨token, .erc20Balance holder known, balance, true⟩)
    (hopen : known = none ∨ known = some slot) :
    (PoolLiquidityIndex.setTargetSlot token slot index position).ReverseIndexed := by
  have hsame := @samePlaces_setTargetSlot index token holder slot _ _ _ htarget
  refine ⟨hindex.wellFormed.of_samePlaces hsame, ?_,
    holdersListed_setTargetSlot hindex.reversed.holders htarget, ?_⟩
  · have hlisted := hindex.reversed.storage.mem_iff (token, slot) position
    have hat : keyAt PoolLiquidityTarget.storageSlot index.targets position =
        known.map (Prod.mk token) := by
      simp only [keyAt, htarget, Option.bind_some, if_true]
      cases known <;> rfl
    rw [hat] at hlisted
    rw [setTargetSlot_eq htarget]
    simp only [keyAt_set_active _ htarget]
    rcases hopen with rfl | rfl
    · have hpush := hindex.reversed.storage.push (hat.trans rfl) (token, slot)
      have hunlisted : position ∉ (index.byStorageSlot.lookup (token, slot)).getD [] :=
        fun hmem => by simpa using hlisted.mp hmem
      rw [if_neg hunlisted]
      exact hpush
    · have hmem := hlisted.mpr rfl
      rw [if_pos hmem]
      have hupdate : Function.update (keyAt PoolLiquidityTarget.storageSlot index.targets)
          position (PoolLiquidityTarget.storageSlot
            ⟨token, .erc20Balance holder (some slot), balance, true⟩) =
          keyAt PoolLiquidityTarget.storageSlot index.targets := by
        rw [Function.update_eq_self_iff, hat]
        rfl
      rw [hupdate]
      have hlookup : ∀ key, ((index.byStorageSlot.insert (token, slot)
          ((index.byStorageSlot.lookup (token, slot)).getD [])).lookup key).getD [] =
            (index.byStorageSlot.lookup key).getD [] := by
        intro key
        rw [lookup_insert_eq]
        split
        · rename_i heq
          rw [heq]
          rfl
        · rfl
      exact ⟨fun key other => by rw [hlookup]; exact hindex.reversed.storage.mem_iff key other,
        fun key => by rw [hlookup]; exact hindex.reversed.storage.nodup key⟩
  · intro other target hother hinactive
    exact hindex.reversed.freed_of_samePlaces hsame hother hinactive

/-- Setting an open slot keeps every reverse index exact. -/
theorem ReverseIndexed.setErc20Slot (hindex : index.ReverseIndexed)
    (hopen : index.SlotOpen token holder slot) :
    (index.setErc20Slot token holder slot).ReverseIndexed := by
  unfold PoolLiquidityIndex.setErc20Slot
  have htargets : ∀ position ∈ (index.byTokenHolder.lookup (token, holder)).getD [],
      ∃ known balance, index.targets[position]? =
        some ⟨token, .erc20Balance holder known, balance, true⟩ ∧
        (known = none ∨ known = some slot) := by
    intro position hposition
    obtain ⟨known, balance, htarget⟩ := HoldersListed.erc20_of_mem hindex.reversed.holders hposition
    refine ⟨known, balance, htarget, ?_⟩
    rcases hopen position hposition _ htarget with hnone | hsome
    · cases known with
      | none => exact Or.inl rfl
      | some found => cases hnone
    · cases known with
      | none => cases hsome
      | some found =>
          right
          exact congrArg some (congrArg Prod.snd (Option.some.inj hsome))
  generalize (index.byTokenHolder.lookup (token, holder)).getD [] = positions at htargets
  clear hopen
  induction positions generalizing index with
  | nil => exact hindex
  | cons head rest ih =>
      obtain ⟨known, balance, htarget, hknown⟩ := htargets head List.mem_cons_self
      apply ih (hindex.setTargetSlot htarget hknown)
      intro position hposition
      obtain ⟨known', balance', htarget', hknown'⟩ :=
        htargets position (List.mem_cons_of_mem head hposition)
      rw [setTargetSlot_eq htarget]
      simp only [List.getElem?_set]
      split
      · rename_i heq
        subst heq
        have hlt := (List.getElem?_eq_some_iff.mp htarget).1
        exact ⟨some slot, balance, by simp [hlt], Or.inr rfl⟩
      · exact ⟨known', balance', htarget', hknown'⟩

/-- A storage word of a position that a later operation must not lose. -/
def Listed (index : PoolLiquidityIndex) (key : Address × U256) (position : ℕ) : Prop :=
  position ∈ (index.byStorageSlot.lookup key).getD []

/-- A position listed under two words belongs to neither index. -/
theorem Reversed.listed_unique (hreversed : index.Reversed) {key other : Address × U256}
    {position : ℕ} (hkey : index.Listed key position) (hother : index.Listed other position) :
    key = other := by
  have hleft := (hreversed.storage.mem_iff key position).mp hkey
  have hright := (hreversed.storage.mem_iff other position).mp hother
  exact Option.some.inj (hleft.symm.trans hright)

theorem Touches.listed {touched : ℕ → Prop} (htouches : Touches touched index next)
    {key : Address × U256} {position : ℕ} (hlisted : index.Listed key position) :
    next.Listed key position := by
  unfold Listed
  rw [htouches.maps]
  exact hlisted

theorem listed_setTargetSlot {key : Address × U256} {position other : ℕ}
    (hlisted : index.Listed key position) :
    (setTargetSlot token slot index other).Listed key position := by
  unfold setTargetSlot
  split
  · split
    · simp only [Listed, lookup_insert_eq]
      split
      · rename_i heq
        rw [heq] at hlisted
        rw [Option.getD_some]
        split
        · exact hlisted
        · exact List.mem_append_left _ hlisted
      · exact hlisted
    · exact hlisted
  · exact hlisted

theorem listed_setErc20Slot {key : Address × U256} {position : ℕ}
    (hlisted : index.Listed key position) :
    (index.setErc20Slot token holder slot).Listed key position := by
  unfold setErc20Slot
  generalize (index.byTokenHolder.lookup (token, holder)).getD [] = positions
  induction positions generalizing index with
  | nil => exact hlisted
  | cons head rest ih => exact ih (listed_setTargetSlot hlisted)

/-- The slot that was set lists every balance of the holder. -/
theorem listed_slot_setErc20Slot (hreversed : index.Reversed) {position : ℕ}
    (hposition : position ∈ (index.byTokenHolder.lookup (token, holder)).getD []) :
    (index.setErc20Slot token holder slot).Listed (token, slot) position := by
  unfold setErc20Slot
  have htargets : ∀ position ∈ (index.byTokenHolder.lookup (token, holder)).getD [],
      ∃ known balance, index.targets[position]? =
        some ⟨token, .erc20Balance holder known, balance, true⟩ :=
    fun position hposition => HoldersListed.erc20_of_mem hreversed.holders hposition
  clear hreversed
  generalize (index.byTokenHolder.lookup (token, holder)).getD [] = positions at *
  induction positions generalizing index with
  | nil => cases hposition
  | cons head rest ih =>
      obtain ⟨known, balance, htarget⟩ := htargets head List.mem_cons_self
      rw [List.foldl_cons]
      have hrest : ∀ position ∈ rest, ∃ known balance,
          (setTargetSlot token slot index head).targets[position]? =
            some ⟨token, .erc20Balance holder known, balance, true⟩ := by
        intro other hother
        rw [setTargetSlot_eq htarget]
        simp only [List.getElem?_set]
        split
        · rename_i heq
          subst heq
          have hlt := (List.getElem?_eq_some_iff.mp htarget).1
          exact ⟨some slot, balance, by simp [hlt]⟩
        · exact htargets other (List.mem_cons_of_mem head hother)
      rcases List.mem_cons.mp hposition with rfl | hmem
      · have hset : (setTargetSlot token slot index position).Listed (token, slot)
            position := by
          rw [setTargetSlot_eq htarget]
          simp only [Listed, lookup_insert_eq, if_true, Option.getD_some]
          split
          · assumption
          · simp
        generalize setTargetSlot token slot index position = started at hset
        clear hrest ih htargets hposition
        induction rest generalizing started with
        | nil => exact hset
        | cons head rest ih => exact ih _ (listed_setTargetSlot hset)
      · exact ih hmem hrest

/-- Setting a slot that is not open lists a balance under two words. -/
theorem listedTwice_of_not_slotOpen (hreversed : index.Reversed)
    (hclosed : ¬ index.SlotOpen token holder slot) :
    ∃ key position, key ≠ (token, slot) ∧
      (index.setErc20Slot token holder slot).Listed key position ∧
      (index.setErc20Slot token holder slot).Listed (token, slot) position := by
  simp only [SlotOpen, not_forall, not_or] at hclosed
  obtain ⟨position, hposition, target, htarget, hsome, hother⟩ := hclosed
  obtain ⟨key, hkey⟩ := Option.ne_none_iff_exists'.mp hsome
  obtain ⟨known, balance, hfound⟩ := HoldersListed.erc20_of_mem hreversed.holders hposition
  obtain rfl := Option.some.inj (htarget.symm.trans hfound)
  refine ⟨key, position, ?_, ?_, listed_slot_setErc20Slot hreversed hposition⟩
  · rintro rfl
    exact hother hkey
  · apply listed_setErc20Slot
    apply (hreversed.storage.mem_iff key position).mpr
    simp only [keyAt, htarget, Option.bind_some, if_true]
    exact hkey

end Slots

section Refresh

variable {index next : PoolLiquidityIndex}

/-- The discovered slots are open when they are set, one after the other. -/
def PairsOpen (token : Address) : PoolLiquidityIndex → List (Address × U256) → Prop
  | _, [] => True
  | index, pair :: rest => index.SlotOpen token pair.1 pair.2 ∧
      PairsOpen token (index.setErc20Slot token pair.1 pair.2) rest

/-- The slots that the discovery sets are open, token by token. -/
def TokensOpen (source : RefreshSource) (holdersByToken : Map Address (Finset Address)) :
    PoolLiquidityIndex → List Address → Prop
  | _, [] => True
  | index, token :: rest =>
      (match source.trackErc20Balances token
          (source.holderOrder.list ((holdersByToken.lookup token).getD ∅)) with
        | .ok (some pairs) => PairsOpen token index pairs
        | _ => True) ∧
      TokensOpen source holdersByToken
        (discoverToken source holdersByToken (index, {}) token).1 rest

/-- Lists under two words and stays so. -/
def ListedTwice (index : PoolLiquidityIndex) : Prop :=
  ∃ key other position, key ≠ other ∧ index.Listed key position ∧ index.Listed other position

theorem ReverseIndexed.not_listedTwice (hindex : index.ReverseIndexed) :
    ¬ index.ListedTwice := by
  rintro ⟨key, other, position, hne, hkey, hother⟩
  exact hne (hindex.reversed.listed_unique hkey hother)

theorem listedTwice_foldl_setErc20Slot (token : Address) (pairs : List (Address × U256))
    (hlisted : index.ListedTwice) :
    (pairs.foldl (fun index pair => index.setErc20Slot token pair.1 pair.2)
      index).ListedTwice := by
  induction pairs generalizing index with
  | nil => exact hlisted
  | cons head rest ih =>
      obtain ⟨key, other, position, hne, hkey, hother⟩ := hlisted
      exact ih ⟨key, other, position, hne, listed_setErc20Slot hkey,
        listed_setErc20Slot hother⟩

theorem foldl_setErc20Slot_iff (hindex : index.ReverseIndexed) (token : Address)
    (pairs : List (Address × U256)) :
    (PairsOpen token index pairs ∧
      (pairs.foldl (fun index pair => index.setErc20Slot token pair.1 pair.2)
        index).ReverseIndexed) ∨
    (¬ PairsOpen token index pairs ∧
      (pairs.foldl (fun index pair => index.setErc20Slot token pair.1 pair.2)
        index).ListedTwice) := by
  induction pairs generalizing index with
  | nil => exact Or.inl ⟨trivial, hindex⟩
  | cons head rest ih =>
      by_cases hopen : index.SlotOpen token head.1 head.2
      · rcases ih (hindex.setErc20Slot hopen) with ⟨hrest, hdone⟩ | ⟨hrest, hdone⟩
        · exact Or.inl ⟨⟨hopen, hrest⟩, hdone⟩
        · exact Or.inr ⟨fun hall => hrest hall.2, hdone⟩
      · obtain ⟨key, position, hne, hkey, hslot⟩ :=
          listedTwice_of_not_slotOpen hindex.reversed hopen
        exact Or.inr ⟨fun hall => hopen hall.1,
          listedTwice_foldl_setErc20Slot token rest
            ⟨key, _, position, hne, hkey, hslot⟩⟩

/-- A step of the discovery that sets no slot only touches balances. -/
theorem discoverToken_cases (source : RefreshSource)
    (holdersByToken : Map Address (Finset Address))
    (state : PoolLiquidityIndex × PoolLiquidityRefreshReport) (token : Address) :
    (∃ pairs, source.trackErc20Balances token
        (source.holderOrder.list ((holdersByToken.lookup token).getD ∅)) = .ok (some pairs) ∧
      (discoverToken source holdersByToken state token).1 =
        pairs.foldl (fun index pair => index.setErc20Slot token pair.1 pair.2) state.1) ∨
    ((∀ pairs, source.trackErc20Balances token
        (source.holderOrder.list ((holdersByToken.lookup token).getD ∅)) ≠ .ok (some pairs)) ∧
      Touches (fun _ => True) state.1 (discoverToken source holdersByToken state token).1) := by
  have hmark : ∀ (holders : List Address) (balance : BalanceState),
      Touches (fun _ => True) state.1 (holders.foldl (fun index holder =>
        index.markPositions ((state.1.byTokenHolder.lookup (token, holder)).getD [])
          balance) state.1) := by
    intro holders balance
    refine touches_foldl id ?_ state.1
    intro index holder _
    exact (touches_markPositions _ _ _).mono fun _ _ => trivial
  unfold discoverToken
  simp only
  cases source.trackErc20Balances token
      (source.holderOrder.list ((holdersByToken.lookup token).getD ∅)) with
  | error reason => exact Or.inr ⟨by simp, hmark _ _⟩
  | ok found =>
      cases found with
      | none => exact Or.inr ⟨by simp, hmark _ _⟩
      | some pairs => exact Or.inl ⟨pairs, rfl, rfl⟩

theorem discoverToken_fst (source : RefreshSource)
    (holdersByToken : Map Address (Finset Address)) (index : PoolLiquidityIndex)
    (report report' : PoolLiquidityRefreshReport) (token : Address) :
    (discoverToken source holdersByToken (index, report) token).1 =
      (discoverToken source holdersByToken (index, report') token).1 := by
  unfold discoverToken
  simp only
  cases source.trackErc20Balances token
      (source.holderOrder.list ((holdersByToken.lookup token).getD ∅)) with
  | error reason => rfl
  | ok found => cases found <;> rfl

theorem Touches.listedTwice {touched : ℕ → Prop} (htouches : Touches touched index next)
    (hlisted : index.ListedTwice) : next.ListedTwice := by
  obtain ⟨key, other, position, hne, hkey, hother⟩ := hlisted
  exact ⟨key, other, position, hne, htouches.listed hkey, htouches.listed hother⟩

theorem listedTwice_discoverToken (source : RefreshSource)
    (holdersByToken : Map Address (Finset Address))
    (state : PoolLiquidityIndex × PoolLiquidityRefreshReport) (token : Address)
    (hlisted : state.1.ListedTwice) :
    (discoverToken source holdersByToken state token).1.ListedTwice := by
  rcases discoverToken_cases source holdersByToken state token with
    ⟨pairs, _, heq⟩ | ⟨_, htouches⟩
  · rw [heq]
    exact listedTwice_foldl_setErc20Slot token pairs hlisted
  · exact htouches.listedTwice hlisted

theorem foldl_discoverToken_iff (hindex : index.ReverseIndexed) (source : RefreshSource)
    (holdersByToken : Map Address (Finset Address)) (report : PoolLiquidityRefreshReport)
    (tokens : List Address) :
    (TokensOpen source holdersByToken index tokens ∧
      (tokens.foldl (discoverToken source holdersByToken) (index, report)).1.ReverseIndexed) ∨
    (¬ TokensOpen source holdersByToken index tokens ∧
      (tokens.foldl (discoverToken source holdersByToken) (index, report)).1.ListedTwice) := by
  have hgrows : ∀ (tokens : List Address)
      (state : PoolLiquidityIndex × PoolLiquidityRefreshReport), state.1.ListedTwice →
      (tokens.foldl (discoverToken source holdersByToken) state).1.ListedTwice := by
    intro tokens
    induction tokens with
    | nil => exact fun _ hstate => hstate
    | cons head rest ih =>
        exact fun state hstate =>
          ih _ (listedTwice_discoverToken source holdersByToken state head hstate)
  induction tokens generalizing index report with
  | nil => exact Or.inl ⟨trivial, hindex⟩
  | cons head rest ih =>
      have hfst := discoverToken_fst source holdersByToken index {} report head
      have hstep : ∀ first : Prop, (first ∧
            (discoverToken source holdersByToken (index, report) head).1.ReverseIndexed) ∨
          (¬ first ∧ (discoverToken source holdersByToken (index, report)
            head).1.ListedTwice) →
          ((first ∧ TokensOpen source holdersByToken
              (discoverToken source holdersByToken (index, {}) head).1 rest) ∧
            (rest.foldl (discoverToken source holdersByToken)
              (discoverToken source holdersByToken (index, report) head)).1.ReverseIndexed) ∨
          (¬ (first ∧ TokensOpen source holdersByToken
              (discoverToken source holdersByToken (index, {}) head).1 rest) ∧
            (rest.foldl (discoverToken source holdersByToken)
              (discoverToken source holdersByToken (index, report) head)).1.ListedTwice) := by
        rintro first (⟨hfirst, hdone⟩ | ⟨hfirst, htwice⟩)
        · rw [hfst]
          rcases ih hdone (discoverToken source holdersByToken (index, report) head).2 with
            ⟨hrest, hlast⟩ | ⟨hrest, hlast⟩
          · exact Or.inl ⟨⟨hfirst, hrest⟩, hlast⟩
          · exact Or.inr ⟨fun hall => hrest hall.2, hlast⟩
        · exact Or.inr ⟨fun hall => hfirst hall.1, hgrows rest _ htwice⟩
      apply hstep
      rcases discoverToken_cases source holdersByToken (index, report) head with
        ⟨pairs, hpairs, heq⟩ | ⟨hnone, htouches⟩
      · rw [hpairs, heq]
        exact foldl_setErc20Slot_iff hindex head pairs
      · refine Or.inl ⟨?_, hindex.of_touches htouches⟩
        split
        · exact absurd ‹_› (hnone _)
        · trivial

/-- Reading the known slots only touches balances. -/
theorem touches_applyStorageSync (source : RefreshSource)
    (state : PoolLiquidityIndex × PoolLiquidityRefreshReport) (spec : Address × List U256) :
    Touches (fun _ => True) state.1 (applyStorageSync source state spec).1 := by
  unfold applyStorageSync
  simp only
  split
  · refine touches_foldl Prod.fst ?_ (state.1, state.2)
    intro current entry _
    exact (touches_updateSlotValue _ _ _ _).mono fun _ _ => trivial
  · exact (touches_markPositions _ _ _).mono fun _ _ => trivial

theorem touches_refresh (index : PoolLiquidityIndex) (source : RefreshSource)
    (mode : RefreshMode) :
    Touches (fun _ => True) (index.discoverErc20Slots source mode {}).1
      (index.refresh source mode).1 := by
  have hstep : ∀ state, ∀ spec ∈ (index.discoverErc20Slots source mode {}).1.storageSyncSpecs
      mode, Touches (fun _ => True) (Prod.fst state)
        (Prod.fst (applyStorageSync source state spec)) :=
    fun state spec _ => touches_applyStorageSync source state spec
  have hall : ∀ report, Touches (fun _ => True) (index.discoverErc20Slots source mode {}).1
      (((index.discoverErc20Slots source mode {}).1.storageSyncSpecs mode).foldl
        (applyStorageSync source) ((index.discoverErc20Slots source mode {}).1, report)).1 :=
    fun report => touches_foldl Prod.fst hstep (_, report)
  exact hall _

/-- The slots a refresh discovers are open when they are set. -/
def DiscoversOpen (index : PoolLiquidityIndex) (source : RefreshSource)
    (mode : RefreshMode) : Prop :=
  TokensOpen source (index.undiscoveredHolders mode) index
    (source.tokenOrder.list (index.undiscoveredHolders mode).keys)

theorem refresh_reverseIndexed_iff (hindex : index.ReverseIndexed) (source : RefreshSource)
    (mode : RefreshMode) :
    (index.refresh source mode).1.ReverseIndexed ↔ index.DiscoversOpen source mode := by
  have htouches := touches_refresh index source mode
  rcases foldl_discoverToken_iff hindex source (index.undiscoveredHolders mode) {}
    (source.tokenOrder.list (index.undiscoveredHolders mode).keys) with
      ⟨hopen, hdone⟩ | ⟨hclosed, htwice⟩
  · exact iff_of_true (hdone.of_touches htouches) hopen
  · refine iff_of_false (fun hnext => ?_) hclosed
    exact hnext.not_listedTwice (htouches.listedTwice htwice)

theorem touches_refreshFromSnapshot (index : PoolLiquidityIndex)
    (storageValue : Address → U256 → Option U256) :
    Touches (fun _ => True) index (index.refreshFromSnapshot storageValue).1 := by
  refine ⟨rfl, fun position => ?_, fun _ htouched => absurd trivial htouched⟩
  simp only [refreshFromSnapshot, List.getElem?_map, Option.map_map]
  congr 1
  funext target
  simp only [Function.comp_apply]
  split
  · rfl
  · split <;> rfl

end Refresh

section Commands

/-- A public mutation of the index with the answers that it gets from outside. -/
inductive Command (G : Type)
  | reconcilePools (registry : AdapterRegistry) (graph : AmmGraph G)
      (scope : LiquidityIndexScope) (pools : List PoolKey)
  | setErc20BalanceSlot (token holder : Address) (slot : U256)
  | setBalance (pool : PoolKey) (token : Address) (balance : U256)
  | markStale (pool : PoolKey) (token : Address)
  | refresh (source : RefreshSource) (mode : RefreshMode)
  | refreshFromSnapshot (storageValue : Address → U256 → Option U256)
  | applyTransferLog (cache : AdapterCache) (log : Log)
  | markTransferLogStale (log : Log)
  | applyStorageUpdates (updates : List StateUpdate)

variable {G : Type} {index next : PoolLiquidityIndex}

/-- The index after a mutation; a failed one leaves it unchanged. -/
def execute (index : PoolLiquidityIndex) : Command G → PoolLiquidityIndex
  | .reconcilePools registry graph scope pools =>
      (index.reconcilePoolList registry graph scope pools).1
  | .setErc20BalanceSlot token holder slot => (index.setErc20BalanceSlot token holder slot).2
  | .setBalance pool token balance =>
      (index.setBalance pool token balance).toOption.getD index
  | .markStale pool token => (index.markStale pool token).toOption.getD index
  | .refresh source mode => (index.refresh source mode).1
  | .refreshFromSnapshot storageValue => (index.refreshFromSnapshot storageValue).1
  | .applyTransferLog cache log => (index.applyTransferLog cache log).1
  | .markTransferLogStale log => (index.markTransferLogStale log).1
  | .applyStorageUpdates updates => (index.applyStorageUpdates updates).1

/-- The mutation sets no slot for a holder whose balance has another one. -/
def KeepsSlots (index : PoolLiquidityIndex) : Command G → Prop
  | .setErc20BalanceSlot token holder slot => index.SlotOpen token holder slot
  | .refresh source mode => index.DiscoversOpen source mode
  | _ => True

theorem touches_setBalance (index : PoolLiquidityIndex) (pool : PoolKey) (token : Address)
    (balance : U256) :
    Touches (fun _ => True) index ((index.setBalance pool token balance).toOption.getD index) := by
  unfold setBalance
  split
  · exact Touches.refl index
  · exact (touches_setTargetBalance _ _ _).mono fun _ _ => trivial

theorem touches_markStale (index : PoolLiquidityIndex) (pool : PoolKey) (token : Address) :
    Touches (fun _ => True) index ((index.markStale pool token).toOption.getD index) := by
  unfold markStale
  split
  · exact Touches.refl index
  · exact (touches_setTargetBalance index _ fun _ => .stale).mono fun _ _ => trivial

/-- One mutation keeps every reverse index exact exactly when it keeps slots. -/
theorem execute_reverseIndexed_iff (hindex : index.ReverseIndexed) (command : Command G) :
    (index.execute command).ReverseIndexed ↔ index.KeepsSlots command := by
  cases command with
  | reconcilePools registry graph scope pools =>
      exact iff_of_true (hindex.foldl_reconcilePool {} _) trivial
  | setErc20BalanceSlot token holder slot =>
      constructor
      · intro hnext
        by_contra hclosed
        obtain ⟨key, position, hne, hkey, hslot⟩ :=
          listedTwice_of_not_slotOpen hindex.reversed hclosed
        exact hnext.not_listedTwice ⟨key, _, position, hne, hkey, hslot⟩
      · exact hindex.setErc20Slot
  | setBalance pool token balance =>
      exact iff_of_true (hindex.of_touches (touches_setBalance index pool token balance)) trivial
  | markStale pool token =>
      exact iff_of_true (hindex.of_touches (touches_markStale index pool token)) trivial
  | refresh source mode => exact refresh_reverseIndexed_iff hindex source mode
  | refreshFromSnapshot storageValue =>
      exact iff_of_true (hindex.of_touches (touches_refreshFromSnapshot index storageValue))
        trivial
  | applyTransferLog cache log =>
      exact iff_of_true (hindex.of_touches (touches_applyTransferLog index cache log)) trivial
  | markTransferLogStale log =>
      exact iff_of_true (hindex.of_touches (touches_markTransferLogStale index log)) trivial
  | applyStorageUpdates updates =>
      exact iff_of_true (hindex.of_touches (touches_applyStorageUpdates index updates)) trivial

/-- How an index is made. -/
inductive Constructed {G : Type} [StableDiGraph G Address EdgeData] :
    PoolLiquidityIndex → Prop
  | empty : Constructed empty
  | fromRegistryWithScope (registry : AdapterRegistry) (graph : AmmGraph G)
      (scope : LiquidityIndexScope) :
      Constructed (fromRegistryWithScope registry graph scope).1

/-- A full build gives each registration the targets of its own pool. -/
theorem foldl_indexPool_reverseIndexed (tracked : Map PoolKey (Finset Address))
    (registrations : List PoolRegistration)
    (hnodup : (registrations.map PoolRegistration.key).Nodup)
    (state : PoolLiquidityIndex × ℕ) (hindex : state.1.ReverseIndexed)
    (hnew : ∀ registration ∈ registrations, ∀ token,
      state.1.target registration.key token = none) :
    (registrations.foldl (indexPool tracked) state).1.ReverseIndexed := by
  induction registrations generalizing state with
  | nil => exact hindex
  | cons head rest ih =>
      rw [List.map_cons, List.nodup_cons] at hnodup
      obtain ⟨counts, heq⟩ := indexPool_fst tracked state head
      have hentries := nodup_builtEntries tracked head
      have hcounted := hindex.wellFormed.of_counts counts
      have hfresh : ∀ entry ∈ builtEntries tracked head,
          ({ state.1 with poolTokenCounts := counts } : PoolLiquidityIndex).target head.key
            entry.1 = none :=
        fun entry _ => hnew head List.mem_cons_self entry.1
      apply ih hnodup.2
      · rw [heq]
        exact ⟨(pushTargets_spec hcounted hentries hfresh).1,
          maintained_reversed.pushTargets hcounted
            (maintained_reversed.files hindex.reversed _ counts) hentries hfresh⟩
      · intro registration hmem token
        have hspec := (pushTargets_spec hcounted hentries hfresh).2.2
          registration.key token
        rw [heq, hspec, if_neg]
        · exact hnew registration (List.mem_cons_of_mem head hmem) token
        · intro hkey
          exact hnodup.1 (hkey ▸ List.mem_map_of_mem hmem)

theorem Constructed.reverseIndexed [StableDiGraph G Address EdgeData]
    (hconstructed : Constructed (G := G) index) : index.ReverseIndexed := by
  cases hconstructed with
  | empty => exact reverseIndexed_empty
  | fromRegistryWithScope registry graph scope =>
      have hperm := List.perm_insertionSort
        (fun left right : PoolRegistration => left.key.debug ≤ right.key.debug)
        registry.pools
      exact foldl_indexPool_reverseIndexed (trackedTokensByPool graph scope) _
        ((hperm.map PoolRegistration.key).nodup_iff.mpr registry.nodup_keys)
        (PoolLiquidityIndex.empty, 0) reverseIndexed_empty
        (by intro registration _ token; simp [target, PoolLiquidityIndex.empty])

/-- The states of a run, the last one included. -/
def states (index : PoolLiquidityIndex) : List (Command G) → List PoolLiquidityIndex
  | [] => [index]
  | command :: rest => index :: (index.execute command).states rest

/-- Every mutation of the run keeps slots where it is made. -/
def KeepsSlotsRun (index : PoolLiquidityIndex) : List (Command G) → Prop
  | [] => True
  | command :: rest => index.KeepsSlots command ∧ (index.execute command).KeepsSlotsRun rest

/-- Storage words and transfers change the balances of their own targets only. -/
structure UpdatesOwnTargets (index : PoolLiquidityIndex) : Prop where
  storage : ∀ updates (position : ℕ) (target : PoolLiquidityTarget),
    index.targets[position]? = some target →
    (index.applyStorageUpdates updates).1.targets[position]? ≠ some target →
    target.active = true ∧ ∃ key ∈ writtenSlots updates, target.storageSlot = some key
  transfer : ∀ cache log (position : ℕ) (target : PoolLiquidityTarget),
    index.targets[position]? = some target →
    (index.applyTransferLog cache log).1.targets[position]? ≠ some target →
    target.active = true ∧ ∃ transfer, parseTransfer log = some transfer ∧
      (target.tokenHolder = some (transfer.token, transfer.source) ∨
        target.tokenHolder = some (transfer.token, transfer.target))

theorem keyAt_eq_some {κ : Type} {key : PoolLiquidityTarget → Option κ}
    {targets : List PoolLiquidityTarget} {position : ℕ} {target : PoolLiquidityTarget}
    {found : κ} (htarget : targets[position]? = some target)
    (hkey : keyAt key targets position = some found) :
    target.active = true ∧ key target = some found := by
  simp only [keyAt, htarget, Option.bind_some] at hkey
  split at hkey
  · exact ⟨‹_›, hkey⟩
  · cases hkey

theorem Reversed.updatesOwnTargets (hreversed : index.Reversed) :
    index.UpdatesOwnTargets := by
  constructor
  · intro updates position target htarget hchanged
    by_contra hforeign
    apply hchanged
    rw [(touches_applyStorageUpdates index updates).others position, htarget]
    rintro ⟨key, hkey, hlisted⟩
    obtain ⟨hactive, hslot⟩ := keyAt_eq_some htarget
      ((hreversed.storage.mem_iff key position).mp hlisted)
    exact hforeign ⟨hactive, key, hkey, hslot⟩
  · intro cache log position target htarget hchanged
    by_contra hforeign
    apply hchanged
    rw [(touches_applyTransferLog index cache log).others position, htarget]
    rintro ⟨transfer, hparse, hsource | htransfer⟩
    · obtain ⟨hactive, hholder⟩ := keyAt_eq_some htarget
        ((hreversed.holders.mem_iff _ position).mp hsource)
      exact hforeign ⟨hactive, transfer, hparse, Or.inl hholder⟩
    · obtain ⟨hactive, hholder⟩ := keyAt_eq_some htarget
        ((hreversed.holders.mem_iff _ position).mp htransfer)
      exact hforeign ⟨hactive, transfer, hparse, Or.inr hholder⟩

theorem states_reverseIndexed_iff (hindex : index.ReverseIndexed)
    (commands : List (Command G)) :
    (∀ reached ∈ index.states commands, reached.ReverseIndexed) ↔
      index.KeepsSlotsRun commands := by
  induction commands generalizing index with
  | nil => simpa [states, KeepsSlotsRun] using hindex
  | cons command rest ih =>
      rw [states, List.forall_mem_cons, KeepsSlotsRun]
      constructor
      · rintro ⟨_, hrest⟩
        have hnext : (index.execute command).ReverseIndexed := by
          apply hrest
          cases rest <;> simp [states]
        exact ⟨(execute_reverseIndexed_iff hindex command).mp hnext, (ih hnext).mp hrest⟩
      · rintro ⟨hkeeps, hrest⟩
        have hnext := (execute_reverseIndexed_iff hindex command).mpr hkeeps
        exact ⟨hindex, (ih hnext).mpr hrest⟩

/-- In every run from a construction, the reverse indexes are exact in every
state exactly when no mutation moves a discovered slot; and exact indexes send
updates to their own targets only. -/
theorem reverseIndexes_exact_iff [StableDiGraph G Address EdgeData]
    (hconstructed : Constructed (G := G) index) (commands : List (Command G)) :
    (∀ reached ∈ index.states commands, reached.ReverseIndexed ∧
      reached.UpdatesOwnTargets) ↔ index.KeepsSlotsRun commands := by
  rw [← states_reverseIndexed_iff hconstructed.reverseIndexed commands]
  constructor
  · exact fun hall reached hmem => (hall reached hmem).1
  · intro hall reached hmem
    exact ⟨hall reached hmem, (hall reached hmem).reversed.updatesOwnTargets⟩

end Commands

end PoolLiquidityIndex

namespace TwoPoolGraph

/-- All balances of the two pools, both of which hold token 2. -/
def liquidity : PoolLiquidityIndex :=
  (PoolLiquidityIndex.fromRegistryWithScope (registry [left, right] nodup_keys) graph
    .allDirectedEdgeInputsAndOutputs).1

abbrev LiquidityCommand := PoolLiquidityIndex.Command (SlotGraph Address EdgeData)

/-- A second slot is set for the same holder. -/
theorem not_exact_secondSlot :
    ¬ ∀ reached ∈ liquidity.states [(.setErc20BalanceSlot 1 7 10 : LiquidityCommand),
        .setErc20BalanceSlot 1 7 11],
      reached.ReverseIndexed ∧ reached.UpdatesOwnTargets := by
  intro hall
  have hlast := (hall _ (List.mem_of_getElem? (i := 2) rfl)).1.reversed
  have hsame : ((1 : Address), (10 : U256)) = (1, 11) :=
    @PoolLiquidityIndex.Reversed.listed_unique _ hlast _ _ 0
      (by unfold PoolLiquidityIndex.Listed; decide)
      (by unfold PoolLiquidityIndex.Listed; decide)
  exact absurd hsame (by decide)

/-- One slot is set and written. -/
theorem exact_firstSlot :
    liquidity.KeepsSlotsRun [(.setErc20BalanceSlot 1 7 10 : LiquidityCommand),
        .applyStorageUpdates [.slot 1 10 5]] ∧
      ∀ reached ∈ liquidity.states [(.setErc20BalanceSlot 1 7 10 : LiquidityCommand),
          .applyStorageUpdates [.slot 1 10 5]],
        reached.ReverseIndexed ∧ reached.UpdatesOwnTargets := by
  have hkeeps : liquidity.KeepsSlotsRun [(.setErc20BalanceSlot 1 7 10 : LiquidityCommand),
      .applyStorageUpdates [.slot 1 10 5]] := by
    refine ⟨?_, trivial, trivial⟩
    intro position hposition target htarget
    have hlist : (liquidity.byTokenHolder.lookup (1, 7)).getD [] = [0] := by decide
    have hfirst : liquidity.targets[0]? =
        some ⟨1, .erc20Balance 7 none, .unknown, true⟩ := by
      decide
    change position ∈ (liquidity.byTokenHolder.lookup (1, 7)).getD [] at hposition
    rw [hlist, List.mem_singleton] at hposition
    subst hposition
    obtain rfl := Option.some.inj (htarget.symm.trans hfirst)
    exact Or.inl rfl
  refine ⟨hkeeps, ?_⟩
  exact (PoolLiquidityIndex.reverseIndexes_exact_iff
    (.fromRegistryWithScope (registry [left, right] nodup_keys) graph
      .allDirectedEdgeInputsAndOutputs) _).mpr hkeeps

end TwoPoolGraph

end AmmSearch
