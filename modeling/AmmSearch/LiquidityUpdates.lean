/-
Updates of tracked balances: explicit settings, ERC-20 transfer logs, storage
writes, and the refresh that discovers balance slots and reads them from a
provider.  What the cache and the provider answer is a parameter.
-/
import AmmSearch.BigEndian
import AmmSearch.LiquidityTracking

open FiniteMap

namespace AmmSearch

/-- An event log as the liquidity index reads it. -/
structure Log where
  address : Address
  topics : List U256
  data : List BigEndian.Byte
deriving DecidableEq

structure TokenTransfer where
  token : Address
  source : Address
  target : Address
  value : U256
deriving DecidableEq

/-- A relative change of one storage word. -/
inductive SlotDelta
  | add (value : U256)
  | sub (value : U256)
deriving DecidableEq

/-- The cache updates that the index emits or reads. -/
inductive StateUpdate
  | slot (address : Address) (slot value : U256)
  | slotDelta (address : Address) (slot : U256) (delta : SlotDelta)
  | other (tag : ℕ)
deriving DecidableEq

/-- What the cache reports about updates that it did not apply. -/
structure StateDiff where
  skipped : List (Address × U256)
  skippedMasks : ℕ
  hasSkipped : Bool
deriving DecidableEq

/-- Answers of the adapter cache to one batch of updates, and the arithmetic of
its slot deltas. -/
structure AdapterCache where
  applyUpdates : List StateUpdate → StateDiff
  applyDelta : SlotDelta → U256 → U256

structure TransferApplyReport where
  matched : Bool := false
  updatedBalances : ℕ := 0
  staleBalances : ℕ := 0
  cacheUpdates : ℕ := 0
  skippedCacheUpdates : ℕ := 0
deriving DecidableEq

/-- `keccak256("Transfer(address,address,uint256)")`. -/
def transferEventSignature : U256 :=
  Fin.ofNat (2 ^ 256) 0xddf252ad1be2c89b69c2b068fc378daa952ba7f163c4a11628f55a4df523b3ef

/-- The low twenty bytes of a word. -/
def addressFromWord (word : U256) : Address := Fin.ofNat (2 ^ 160) word.val

def parseTransfer (log : Log) : Option TokenTransfer :=
  match log.topics with
  | signature :: source :: target :: _ =>
      if signature ≠ transferEventSignature then none
      else if log.data.length < 32 then none
      else
        some
          { token := log.address
            source := addressFromWord source
            target := addressFromWord target
            value := Fin.ofNat (2 ^ 256) (BigEndian.decode (log.data.take 32)) }
  | _ => none

inductive RefreshMode
  | all
  | staleOnly
deriving DecidableEq

def RefreshMode.includes : RefreshMode → BalanceState → Bool
  | all, _ => true
  | staleOnly, state => state = .stale

/-- Iteration orders of one refresh, and the answers that it gets: the balance
slots the cache finds for the holders of a token, and the words the provider
returns for the slots of a contract. -/
structure RefreshSource where
  tokenOrder : HashOrder Address
  holderOrder : HashOrder Address
  trackErc20Balances : Address → List Address → Except Text (Option (List (Address × U256)))
  runStorageSync : Address → List U256 → Except Text (Address × List (U256 × U256))

namespace PoolLiquidityIndex

/-- Change the balance of the target at `position`. -/
def setTargetBalance (index : PoolLiquidityIndex) (position : ℕ)
    (balance : PoolLiquidityTarget → BalanceState) : PoolLiquidityIndex :=
  { index with
    targets := index.targets.modify position fun target =>
      { target with balance := balance target } }

/-- Set a fresh balance of a tracked pair. -/
def setBalance (index : PoolLiquidityIndex) (pool : PoolKey) (token : Address)
    (balance : U256) : Except PoolLiquidityError PoolLiquidityIndex :=
  match index.byPoolToken.lookup (pool, token) with
  | none => .error (.unknownPoolToken pool token)
  | some position => .ok (index.setTargetBalance position fun _ => .fresh balance)

/-- A balance that a transfer touches: position, storage word and change. -/
structure TouchedBalance where
  position : ℕ
  address : Address
  slot : U256
  delta : SlotDelta
deriving DecidableEq

/-- The balances of `holder` with a known slot, and one cache update a slot. -/
def collectTransferUpdates (index : PoolLiquidityIndex) (token holder : Address)
    (delta : SlotDelta) (collected : List StateUpdate × List TouchedBalance) :
    List StateUpdate × List TouchedBalance :=
  if holder = 0 then collected
  else
    let positions := (index.byTokenHolder.lookup (token, holder)).getD []
    let (updates, touched, _) := positions.foldl
      (fun (updates, touched, pushedSlots) position =>
        match index.targets[position]? with
        | some target =>
            match target.source with
            | .erc20Balance _ (some slot) =>
                (if slot ∈ pushedSlots then updates
                  else updates ++ [StateUpdate.slotDelta token slot delta],
                  touched ++ [⟨position, token, slot, delta⟩], insert slot pushedSlots)
            | _ => (updates, touched, pushedSlots)
        | none => (updates, touched, pushedSlots))
      (collected.1, collected.2, (∅ : Finset U256))
    (updates, touched)

/-- Apply one touched balance; the words in `skipped` were cold in the cache. -/
def applyTouched (cache : AdapterCache) (skipped : List (Address × U256))
    (state : PoolLiquidityIndex × TransferApplyReport) (touched : TouchedBalance) :
    PoolLiquidityIndex × TransferApplyReport :=
  let (index, report) := state
  let stale : PoolLiquidityIndex × TransferApplyReport :=
    (index.setTargetBalance touched.position fun _ => .stale,
      { report with staleBalances := report.staleBalances + 1 })
  if (touched.address, touched.slot) ∈ skipped then stale
  else
    match (index.targets[touched.position]?).bind fun target => target.balance.fresh? with
    | some current =>
        (index.setTargetBalance touched.position fun _ =>
            .fresh (cache.applyDelta touched.delta current),
          { report with updatedBalances := report.updatedBalances + 1 })
    | none => stale

/-- Apply an ERC-20 transfer log to the cache and to the balances. -/
def applyTransferLog (index : PoolLiquidityIndex) (cache : AdapterCache) (log : Log) :
    PoolLiquidityIndex × TransferApplyReport :=
  match parseTransfer log with
  | none => (index, {})
  | some transfer =>
      let (updates, touched) :=
        index.collectTransferUpdates transfer.token transfer.target (.add transfer.value)
          (index.collectTransferUpdates transfer.token transfer.source (.sub transfer.value)
            ([], []))
      if updates = [] then (index, {})
      else
        let diff := cache.applyUpdates updates
        touched.foldl (applyTouched cache (if diff.hasSkipped then diff.skipped else []))
          (index,
            { matched := true
              cacheUpdates := updates.length
              skippedCacheUpdates := diff.skipped.length + diff.skippedMasks })

/-- Give every listed balance the same state. -/
def markPositions (index : PoolLiquidityIndex) (positions : List ℕ)
    (balance : BalanceState) : PoolLiquidityIndex :=
  positions.foldl (fun index position => index.setTargetBalance position fun _ => balance)
    index

/-- Mark the balances of one side of a transfer stale. -/
def markHolderStale (token : Address) (state : PoolLiquidityIndex × TransferApplyReport)
    (holder : Address) : PoolLiquidityIndex × TransferApplyReport :=
  let (index, report) := state
  if holder = 0 then (index, report)
  else
    let positions := (index.byTokenHolder.lookup (token, holder)).getD []
    (index.markPositions positions .stale,
      { report with staleBalances := report.staleBalances + positions.length })

def markTransferLogStale (index : PoolLiquidityIndex) (log : Log) :
    PoolLiquidityIndex × TransferApplyReport :=
  match parseTransfer log with
  | none => (index, {})
  | some transfer =>
      [transfer.source, transfer.target].foldl (markHolderStale transfer.token)
        (index, { matched := true })

/-- Store a storage word in one target that is listed under it. -/
def storeValue (value : U256) (state : PoolLiquidityIndex × ℕ) (position : ℕ) :
    PoolLiquidityIndex × ℕ :=
  let (index, updated) := state
  match (index.targets[position]?).bind fun target => target.source.decode value with
  | some balance => (index.setTargetBalance position fun _ => .fresh balance, updated + 1)
  | none => (index, updated)

/-- Store a storage word in every target that is listed under it. -/
def updateSlotValue (index : PoolLiquidityIndex) (address : Address) (slot value : U256) :
    PoolLiquidityIndex × ℕ :=
  ((index.byStorageSlot.lookup (address, slot)).getD []).foldl (storeValue value) (index, 0)

/-- Absolute slot writes of a sync path, with the number of updated balances. -/
def applyStorageUpdates (index : PoolLiquidityIndex) (updates : List StateUpdate) :
    PoolLiquidityIndex × ℕ :=
  updates.foldl (fun (index, updated) update =>
    match update with
    | .slot address slot value =>
        let stored := index.updateSlotValue address slot value
        (stored.1, updated + stored.2)
    | .slotDelta _ _ _ | .other _ => (index, updated)) (index, 0)

/-- The holders whose slot a refresh has to discover, by token. -/
def undiscoveredHolders (index : PoolLiquidityIndex) (mode : RefreshMode) :
    Map Address (Finset Address) :=
  index.targets.foldl (fun holders target =>
    if target.active ∧ mode.includes target.balance then
      match target.source with
      | .erc20Balance holder none =>
          alter holders target.token fun known => some (insert holder (known.getD ∅))
      | _ => holders
    else holders) ∅

/-- Discover the slots of one token's holders. -/
def discoverToken (source : RefreshSource) (holdersByToken : Map Address (Finset Address))
    (state : PoolLiquidityIndex × PoolLiquidityRefreshReport) (token : Address) :
    PoolLiquidityIndex × PoolLiquidityRefreshReport :=
  let (index, report) := state
  let holders := source.holderOrder.list ((holdersByToken.lookup token).getD ∅)
  let listed := fun holder => (index.byTokenHolder.lookup (token, holder)).getD []
  match source.trackErc20Balances token holders with
  | .ok (some pairs) =>
      (pairs.foldl (fun index pair => index.setErc20Slot token pair.1 pair.2) index, report)
  | .ok none =>
      (holders.foldl (fun index holder => index.markPositions (listed holder) .unknown) index,
        { report with
          unknownBalances := report.unknownBalances +
            (holders.map fun holder => (listed holder).length).sum })
  | .error reason =>
      (holders.foldl (fun index holder => index.markPositions (listed holder) .stale) index,
        { report with
          staleBalances := report.staleBalances +
            (holders.map fun holder => (listed holder).length).sum
          failures := report.failures ++ [(token, reason)] })

def discoverErc20Slots (index : PoolLiquidityIndex) (source : RefreshSource)
    (mode : RefreshMode) (report : PoolLiquidityRefreshReport) :
    PoolLiquidityIndex × PoolLiquidityRefreshReport :=
  let holdersByToken := index.undiscoveredHolders mode
  (source.tokenOrder.list holdersByToken.keys).foldl (discoverToken source holdersByToken)
    (index, report)

/-- The known slots to read, by contract. -/
def slotsByTarget (index : PoolLiquidityIndex) (mode : RefreshMode) : Map Address (List U256) :=
  index.targets.foldl (fun slots target =>
    if target.active ∧ mode.includes target.balance then
      match target.storageSlot with
      | some (address, slot) => alter slots address fun known => some (known.getD [] ++ [slot])
      | none => slots
    else slots) ∅

def unreadBalances (index : PoolLiquidityIndex) (mode : RefreshMode) : ℕ :=
  (index.targets.filter fun target => target.active ∧ mode.includes target.balance ∧
    target.storageSlot = none ∧ target.balance = .unknown).length

/-- The slots to read of each contract, sorted and each once. -/
def storageSyncSpecs (index : PoolLiquidityIndex) (mode : RefreshMode) :
    List (Address × List U256) :=
  let slots := index.slotsByTarget mode
  ((ascending slots.keys).map fun target =>
    (target, (((slots.lookup target).getD []).insertionSort (· ≤ ·)).destutter
      (· ≠ ·))).filter fun spec => spec.2 ≠ []

/-- Store the answer to one read. -/
def applyStorageSync (source : RefreshSource)
    (state : PoolLiquidityIndex × PoolLiquidityRefreshReport)
    (spec : Address × List U256) : PoolLiquidityIndex × PoolLiquidityRefreshReport :=
  let (index, report) := state
  match source.runStorageSync spec.1 spec.2 with
  | .ok (target, entries) =>
      entries.foldl (fun (index, report) entry =>
        let stored := index.updateSlotValue target entry.1 entry.2
        (stored.1, { report with refreshedBalances := report.refreshedBalances + stored.2 }))
        (index, report)
  | .error reason =>
      let listed := spec.2.flatMap fun slot =>
        (index.byStorageSlot.lookup (spec.1, slot)).getD []
      (index.markPositions listed .stale,
        { report with
          staleBalances := report.staleBalances + listed.length
          failures := report.failures ++ [(spec.1, reason)] })

/-- Discover missing slots, then read every known balance that the mode includes. -/
def refresh (index : PoolLiquidityIndex) (source : RefreshSource) (mode : RefreshMode) :
    PoolLiquidityIndex × PoolLiquidityRefreshReport :=
  let (index, report) := index.discoverErc20Slots source mode {}
  let specs := index.storageSyncSpecs mode
  let report :=
    { report with
      unknownBalances := report.unknownBalances + index.unreadBalances mode
      storageReads := (specs.map fun spec => spec.2.length).sum }
  specs.foldl (applyStorageSync source) (index, report)

def refreshAll (index : PoolLiquidityIndex) (source : RefreshSource) :
    PoolLiquidityIndex × PoolLiquidityRefreshReport :=
  index.refresh source .all

def refreshStale (index : PoolLiquidityIndex) (source : RefreshSource) :
    PoolLiquidityIndex × PoolLiquidityRefreshReport :=
  index.refresh source .staleOnly

/-- Reconcile listed pools, each once per run of equal neighbours in debug order. -/
def reconcilePoolList {G : Type} (index : PoolLiquidityIndex) (registry : AdapterRegistry)
    (graph : AmmGraph G) (scope : LiquidityIndexScope) (pools : List PoolKey) :
    PoolLiquidityIndex × PoolLiquidityMutationReport :=
  ((pools.insertionSort fun left right => left.debug ≤ right.debug).destutter
    (· ≠ ·)).foldl (reconcilePool registry graph scope) (index, {})

end PoolLiquidityIndex

end AmmSearch
