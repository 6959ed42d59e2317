/-
Transfer subscriptions.  The event sources of a liquidity index name every transfer log
that can change it: a client that may miss all other logs, and subscribes again after each
reconciliation, keeps the balances and sends the cache updates of one that misses none.
-/
import AmmSearch.LiquidityFollows

open FiniteMap StableGraph

namespace AmmSearch

/-- The transfers of one token that concern the holders. -/
structure TransferEventSource where
  token : Address
  holders : List Address
deriving DecidableEq

/-- A list of subscriptions names a token holder. -/
def Covers (sources : List TransferEventSource) (token holder : Address) : Prop :=
  ∃ source ∈ sources, source.token = token ∧ holder ∈ source.holders

/-- The log is a transfer from or to a subscribed holder. -/
def Log.Subscribed (sources : List TransferEventSource) (log : Log) : Prop :=
  ∃ transfer, parseTransfer log = some transfer ∧
    (Covers sources transfer.token transfer.source ∨
      Covers sources transfer.token transfer.target)

namespace PoolLiquidityIndex

/-- File the holder of an active ERC-20 balance under its token. -/
def trackHolder (byToken : Map Address (Finset Address)) (target : PoolLiquidityTarget) :
    Map Address (Finset Address) :=
  if target.active then
    match target.tokenHolder with
    | some (token, holder) =>
        alter byToken token fun known => some (insert holder (known.getD ∅))
    | none => byToken
  else byToken

/-- The ERC-20 transfer subscriptions that keep the balances fresh. -/
def transferEventSources (index : PoolLiquidityIndex) : List TransferEventSource :=
  let byToken := index.targets.foldl trackHolder ∅
  (ascending byToken.keys).map fun token =>
    { token, holders := ascending ((byToken.lookup token).getD ∅) }

section Sources

variable {index : PoolLiquidityIndex} {token holder : Address}

theorem mem_trackHolder (byToken : Map Address (Finset Address))
    (target : PoolLiquidityTarget) :
    holder ∈ ((trackHolder byToken target).lookup token).getD ∅ ↔
      holder ∈ (byToken.lookup token).getD ∅ ∨
        target.active = true ∧ target.tokenHolder = some (token, holder) := by
  unfold trackHolder
  by_cases hactive : target.active = true
  · rw [if_pos hactive]
    cases hkey : target.tokenHolder with
    | none => simp
    | some key =>
        obtain ⟨other, found⟩ := key
        simp only [lookup_alter, hactive, Option.some.injEq, Prod.mk.injEq, true_and]
        by_cases htoken : token = other
        · subst htoken
          simp only [if_true, Option.getD_some, Finset.mem_insert, true_and]
          rw [or_comm, eq_comm]
        · simp [htoken, Ne.symm htoken]
  · simp [hactive]

theorem mem_transferHolders :
    holder ∈ ((index.targets.foldl trackHolder ∅).lookup token).getD ∅ ↔
      ∃ target ∈ index.targets, target.active = true ∧
        target.tokenHolder = some (token, holder) := by
  have hfold := foldl_iff (fun byToken => holder ∈ (Finmap.lookup token byToken).getD ∅)
    (fun target : PoolLiquidityTarget =>
      target.active = true ∧ target.tokenHolder = some (token, holder))
    (fun byToken target => mem_trackHolder byToken target) index.targets ∅
  simpa using hfold

/-- A token holder is subscribed if and only if an active balance belongs to it. -/
theorem covers_transferEventSources :
    Covers index.transferEventSources token holder ↔
      ∃ position, keyAt PoolLiquidityTarget.tokenHolder index.targets position =
        some (token, holder) := by
  have hkey : (∃ position, keyAt PoolLiquidityTarget.tokenHolder index.targets position =
      some (token, holder)) ↔ ∃ target ∈ index.targets, target.active = true ∧
        target.tokenHolder = some (token, holder) := by
    simp only [keyAt, Option.bind_eq_some_iff, List.mem_iff_getElem?, Option.ite_none_right_eq_some]
    constructor
    · rintro ⟨position, target, htarget, hactive⟩
      exact ⟨target, ⟨position, htarget⟩, hactive⟩
    · rintro ⟨target, ⟨position, htarget⟩, hactive⟩
      exact ⟨position, target, htarget, hactive⟩
  rw [hkey, ← mem_transferHolders]
  unfold Covers transferEventSources
  simp only [List.mem_map, mem_ascending]
  constructor
  · rintro ⟨source, ⟨found, hfound, rfl⟩, rfl, hholder⟩
    exact (mem_ascending _ _).mp hholder
  · intro hholder
    refine ⟨_, ⟨token, ?_, rfl⟩, rfl, (mem_ascending _ _).mpr hholder⟩
    rw [Finmap.mem_keys]
    by_contra hnone
    rw [Finmap.lookup_eq_none.mpr hnone] at hholder
    exact absurd hholder (Finset.notMem_empty holder)

end Sources

section Commands

variable {G : Type} {index : PoolLiquidityIndex} {sources : List TransferEventSource}

/-- Only a reconciliation adds and removes balances. -/
def Command.reconciles : Command G → Bool
  | .reconcilePools _ _ _ _ => true
  | .setErc20BalanceSlot _ _ _ | .setBalance _ _ _ | .markStale _ _ | .refresh _ _
  | .refreshFromSnapshot _ | .applyTransferLog _ _ | .markTransferLogStale _
  | .applyStorageUpdates _ => false

/-- The transfer log that a command brings. -/
def Command.log? : Command G → Option Log
  | .applyTransferLog _ log | .markTransferLogStale log => some log
  | .reconcilePools _ _ _ _ | .setErc20BalanceSlot _ _ _ | .setBalance _ _ _ | .markStale _ _
  | .refresh _ _ | .refreshFromSnapshot _ | .applyStorageUpdates _ => none

theorem byTokenHolder_setErc20Slot (index : PoolLiquidityIndex) (token holder : Address)
    (slot : U256) : (index.setErc20Slot token holder slot).byTokenHolder =
      index.byTokenHolder := by
  unfold setErc20Slot
  generalize (index.byTokenHolder.lookup (token, holder)).getD [] = positions
  induction positions generalizing index with
  | nil => rfl
  | cons head rest ih =>
      rw [List.foldl_cons, ih]
      unfold setTargetSlot
      split
      · split <;> rfl
      · rfl

theorem byTokenHolder_foldl_setErc20Slot (index : PoolLiquidityIndex) (token : Address)
    (pairs : List (Address × U256)) :
    (pairs.foldl (fun index pair => index.setErc20Slot token pair.1 pair.2)
      index).byTokenHolder = index.byTokenHolder := by
  induction pairs generalizing index with
  | nil => rfl
  | cons head rest ih => rw [List.foldl_cons, ih, byTokenHolder_setErc20Slot]

theorem Touches.byTokenHolder {touched : ℕ → Prop} {next : PoolLiquidityIndex}
    (htouches : Touches touched index next) : next.byTokenHolder = index.byTokenHolder := by
  rw [htouches.maps]

theorem byTokenHolder_foldl_discoverToken (source : RefreshSource)
    (holdersByToken : Map Address (Finset Address)) (tokens : List Address)
    (state : PoolLiquidityIndex × PoolLiquidityRefreshReport) :
    (tokens.foldl (discoverToken source holdersByToken) state).1.byTokenHolder =
      state.1.byTokenHolder := by
  induction tokens generalizing state with
  | nil => rfl
  | cons head rest ih =>
      rw [List.foldl_cons, ih]
      rcases discoverToken_cases source holdersByToken state head with
        ⟨pairs, _, heq⟩ | ⟨_, htouches⟩
      · rw [heq]
        exact byTokenHolder_foldl_setErc20Slot state.1 head pairs
      · exact htouches.byTokenHolder

/-- The holder index changes in reconciliations only. -/
theorem byTokenHolder_execute {command : Command G} (hkept : command.reconciles = false) :
    (index.execute command).byTokenHolder = index.byTokenHolder := by
  cases command with
  | reconcilePools registry graph scope pools => cases hkept
  | setErc20BalanceSlot token holder slot => exact byTokenHolder_setErc20Slot _ _ _ _
  | setBalance pool token balance => exact (touches_setBalance _ _ _ _).byTokenHolder
  | markStale pool token => exact (touches_markStale _ _ _).byTokenHolder
  | refresh source mode =>
      exact (touches_refresh index source mode).byTokenHolder.trans
        (byTokenHolder_foldl_discoverToken source _ _ (index, {}))
  | refreshFromSnapshot storageValue =>
      exact (touches_refreshFromSnapshot _ _).byTokenHolder
  | applyTransferLog cache log => exact (touches_applyTransferLog _ _ _).byTokenHolder
  | markTransferLogStale log => exact (touches_markTransferLogStale _ _).byTokenHolder
  | applyStorageUpdates updates => exact (touches_applyStorageUpdates _ _).byTokenHolder

/-- The subscriptions name every holder that the index lists. -/
def Subscribes (sources : List TransferEventSource) (index : PoolLiquidityIndex) : Prop :=
  ∀ token holder, (index.byTokenHolder.lookup (token, holder)).getD [] ≠ [] →
    Covers sources token holder

theorem HolderIndexed.subscribes (hindex : index.HolderIndexed) :
    Subscribes index.transferEventSources index := by
  intro token holder hlisted
  obtain ⟨position, hposition⟩ := List.exists_mem_of_ne_nil _ hlisted
  exact covers_transferEventSources.mpr
    ⟨position, (hindex.listed.mem_iff _ position).mp hposition⟩

theorem Subscribes.execute (hsources : Subscribes sources index) {command : Command G}
    (hkept : command.reconciles = false) : Subscribes sources (index.execute command) := by
  intro token holder hlisted
  rw [byTokenHolder_execute hkept] at hlisted
  exact hsources token holder hlisted

/-- No balance is listed under either side of a transfer without a subscription. -/
theorem Subscribes.listed_eq_nil (hsources : Subscribes sources index) {log : Log}
    (hmissed : ¬ log.Subscribed sources) {transfer : TokenTransfer}
    (hparse : parseTransfer log = some transfer) :
    (index.byTokenHolder.lookup (transfer.token, transfer.source)).getD [] = [] ∧
      (index.byTokenHolder.lookup (transfer.token, transfer.target)).getD [] = [] := by
  constructor
  · by_contra hlisted
    exact hmissed ⟨transfer, hparse, Or.inl (hsources _ _ hlisted)⟩
  · by_contra hlisted
    exact hmissed ⟨transfer, hparse, Or.inr (hsources _ _ hlisted)⟩

theorem Touches.eq_of_untouched {touched : ℕ → Prop} {next : PoolLiquidityIndex}
    (htouches : Touches touched index next) (hnone : ∀ position, ¬ touched position) :
    next = index := by
  have htargets : next.targets = index.targets :=
    List.ext_getElem? fun position => htouches.others position (hnone position)
  rw [htouches.maps, htargets]

theorem Subscribes.execute_missed (hsources : Subscribes sources index) {log : Log}
    (hmissed : ¬ log.Subscribed sources) {command : Command G}
    (hlog : command.log? = some log) : index.execute command = index := by
  have hnone : ∀ position : ℕ, ¬ ∃ transfer, parseTransfer log = some transfer ∧
      (position ∈ (index.byTokenHolder.lookup (transfer.token, transfer.source)).getD [] ∨
        position ∈ (index.byTokenHolder.lookup (transfer.token, transfer.target)).getD []) := by
    rintro position ⟨transfer, hparse, hposition⟩
    obtain ⟨hsource, htarget⟩ := hsources.listed_eq_nil hmissed hparse
    rw [hsource, htarget] at hposition
    simp at hposition
  cases command with
  | applyTransferLog cache found =>
      cases hlog
      exact (touches_applyTransferLog index cache log).eq_of_untouched hnone
  | markTransferLogStale found =>
      cases hlog
      exact (touches_markTransferLogStale index log).eq_of_untouched hnone
  | reconcilePools _ _ _ _ => cases hlog
  | setErc20BalanceSlot _ _ _ => cases hlog
  | setBalance _ _ _ => cases hlog
  | markStale _ _ => cases hlog
  | refresh _ _ => cases hlog
  | refreshFromSnapshot _ => cases hlog
  | applyStorageUpdates _ => cases hlog

theorem Subscribes.transferUpdates_missed (hsources : Subscribes sources index) {log : Log}
    (hmissed : ¬ log.Subscribed sources) : index.transferUpdates log = [] := by
  cases hparse : parseTransfer log with
  | none => simp only [transferUpdates, hparse]
  | some transfer =>
      obtain ⟨hsource, htarget⟩ := hsources.listed_eq_nil hmissed hparse
      simp only [transferUpdates, hparse, collectTransferUpdates_eq, sidePositions, hsource,
        htarget, ite_self, List.foldl_nil]

end Commands

section Runs

variable {G : Type}

/-- The batch of cache updates that a command sends. -/
def sentBatch (index : PoolLiquidityIndex) : Command G → List (List StateUpdate)
  | .applyTransferLog _ log =>
      if index.transferUpdates log = [] then [] else [index.transferUpdates log]
  | .reconcilePools _ _ _ _ | .setErc20BalanceSlot _ _ _ | .setBalance _ _ _ | .markStale _ _
  | .refresh _ _ | .refreshFromSnapshot _ | .markTransferLogStale _
  | .applyStorageUpdates _ => []

/-- The batches of cache updates along a run. -/
def sentBatches (index : PoolLiquidityIndex) : List (Command G) → List (List StateUpdate)
  | [] => []
  | command :: rest => index.sentBatch command ++ (index.execute command).sentBatches rest

/-- The subscriptions after a command: a reconciliation is followed by new ones. -/
def resubscribe (sources : List TransferEventSource) (index : PoolLiquidityIndex)
    (command : Command G) : List TransferEventSource :=
  if command.reconciles then (index.execute command).transferEventSources else sources

/-- What a client with these subscriptions hears of a run: it may miss transfer logs of
holders that it has not subscribed. -/
inductive Hears : PoolLiquidityIndex → List TransferEventSource → List (Command G) →
    List (Command G) → Prop
  | nil (index : PoolLiquidityIndex) (sources : List TransferEventSource) :
      Hears index sources [] []
  | hear {index : PoolLiquidityIndex} {sources : List TransferEventSource}
      {command : Command G} {rest heard : List (Command G)}
      (next : Hears (index.execute command) (resubscribe sources index command) rest heard) :
      Hears index sources (command :: rest) (command :: heard)
  | miss {index : PoolLiquidityIndex} {sources : List TransferEventSource}
      {command : Command G} {log : Log} {rest heard : List (Command G)}
      (brings : command.log? = some log) (missed : ¬ log.Subscribed sources)
      (next : Hears index sources rest heard) : Hears index sources (command :: rest) heard

variable {index reached : PoolLiquidityIndex} {sources : List TransferEventSource}
  {commands heard earlier : List (Command G)}

theorem sentBatch_missed (hsources : Subscribes sources index) {log : Log}
    (hmissed : ¬ log.Subscribed sources) {command : Command G}
    (hlog : command.log? = some log) : index.sentBatch command = [] := by
  cases command with
  | applyTransferLog cache found =>
      cases hlog
      rw [sentBatch, if_pos (hsources.transferUpdates_missed hmissed)]
  | _ => rfl

theorem Hears.lossless (hheard : Hears index sources commands heard)
    (hindex : index.HolderIndexed) (hsources : Subscribes sources index) :
    heard.foldl execute index = commands.foldl execute index ∧
      index.sentBatches heard = index.sentBatches commands := by
  induction hheard with
  | nil => exact ⟨rfl, rfl⟩
  | hear _ ih =>
      rename_i index sources command rest heard _
      have hnext : Subscribes (resubscribe sources index command) (index.execute command) := by
        unfold resubscribe
        split
        · exact (hindex.execute command).subscribes
        · exact hsources.execute (by simpa using ‹¬ command.reconciles = true›)
      obtain ⟨hstates, hbatches⟩ := ih (hindex.execute command) hnext
      exact ⟨hstates, by rw [sentBatches, sentBatches, hbatches]⟩
  | miss hlog hmissed _ ih =>
      obtain ⟨hstates, hbatches⟩ := ih hindex hsources
      constructor
      · rw [hstates, List.foldl_cons, hsources.execute_missed hmissed hlog]
      · rw [hbatches, sentBatches, sentBatch_missed hsources hmissed hlog,
          hsources.execute_missed hmissed hlog, List.nil_append]

/-- A transfer of nothing from a holder to itself. -/
def emptyTransfer (token holder : Address) : Log where
  address := token
  topics := [transferEventSignature, Fin.ofNat (2 ^ 256) holder.val,
    Fin.ofNat (2 ^ 256) holder.val]
  data := List.replicate 32 0

theorem addressFromWord_ofNat (holder : Address) :
    addressFromWord (Fin.ofNat (2 ^ 256) holder.val) = holder := by
  apply Fin.ext
  have hlt := holder.isLt
  simp only [addressFromWord, Fin.ofNat]
  omega

theorem parseTransfer_emptyTransfer (token holder : Address) :
    parseTransfer (emptyTransfer token holder) = some ⟨token, holder, holder, 0⟩ := by
  have hvalue : Fin.ofNat (2 ^ 256)
      (BigEndian.decode ((List.replicate 32 (0 : BigEndian.Byte)).take 32)) = 0 := by
    decide
  simp only [parseTransfer, emptyTransfer, ne_eq, not_true_eq_false, if_false,
    List.length_replicate, lt_irrefl, addressFromWord_ofNat, hvalue]

theorem subscribed_emptyTransfer {token holder : Address} :
    (emptyTransfer token holder).Subscribed sources ↔ Covers sources token holder := by
  unfold Log.Subscribed
  rw [parseTransfer_emptyTransfer]
  simp

theorem getElem?_markPositions (index : PoolLiquidityIndex) (positions : List ℕ)
    (balance : BalanceState)
    (position : ℕ) :
    (index.markPositions positions balance).targets[position]? =
      if position ∈ positions then
        (index.targets[position]?).map fun target => { target with balance }
      else index.targets[position]? := by
  induction positions generalizing index with
  | nil => simp [markPositions]
  | cons head rest ih =>
      have hrest := ih (index.setTargetBalance head fun _ => balance)
      rw [markPositions, List.foldl_cons]
      rw [markPositions] at hrest
      rw [hrest]
      simp only [setTargetBalance, List.getElem?_modify, List.mem_cons]
      by_cases hhead : head = position
      · subst hhead
        cases index.targets[head]? <;> simp
      · simp [hhead, Ne.symm hhead]

/-- The balances of a subscribed holder turn stale with a removed transfer. -/
theorem balance_markTransferLogStale (index : PoolLiquidityIndex) {token holder : Address}
    {position : ℕ}
    (hposition : position ∈ (index.byTokenHolder.lookup (token, holder)).getD [])
    (hholder : holder ≠ 0) :
    ∀ target ∈ (index.markTransferLogStale (emptyTransfer token holder)).1.targets[position]?,
      target.balance = .stale := by
  intro target htarget
  have hfirst := touches_markHolderStale token (index, { matched := true }) holder
  simp only [markTransferLogStale, parseTransfer_emptyTransfer, List.foldl_cons,
    List.foldl_nil] at htarget
  generalize markHolderStale token (index, { matched := true }) holder = state at hfirst htarget
  rw [← hfirst.byTokenHolder] at hposition
  simp only [markHolderStale, if_neg hholder, getElem?_markPositions, if_pos hposition] at htarget
  obtain ⟨before, _, rfl⟩ := Option.map_eq_some_iff.mp htarget
  rfl

/-- Without the subscription of a holder a change of its balance is lost. -/
theorem HolderIndexed.exists_lost (hindex : index.HolderIndexed) {token holder : Address}
    (hcovers : Covers index.transferEventSources token holder) (hholder : holder ≠ 0) :
    ∃ pool log, (∀ sources, log.Subscribed sources ↔ Covers sources token holder) ∧
      PoolLiquidityIndex.execute (PoolLiquidityIndex.execute index
          (.setBalance pool token 0 : Command G)) (.markTransferLogStale log : Command G) ≠
        PoolLiquidityIndex.execute index (.setBalance pool token 0 : Command G) := by
  obtain ⟨position, hkey⟩ := covers_transferEventSources.mp hcovers
  have hlisted := (hindex.listed.mem_iff (token, holder) position).mpr hkey
  obtain ⟨target, htarget, hfound⟩ := Option.bind_eq_some_iff.mp hkey
  obtain ⟨hactive, hsource⟩ := Option.ite_none_right_eq_some.mp hfound
  have htoken : target.token = token := by
    unfold PoolLiquidityTarget.tokenHolder at hsource
    split at hsource <;> cases hsource
    rfl
  obtain ⟨pool, hpool⟩ := hindex.wellFormed.owned position target htarget hactive
  rw [htoken] at hpool
  refine ⟨pool, emptyTransfer token holder, fun _ => subscribed_emptyTransfer, fun hsame => ?_⟩
  have hset : PoolLiquidityIndex.execute index (.setBalance pool token 0 : Command G) =
      index.setTargetBalance position fun _ => .fresh 0 := by
    simp only [PoolLiquidityIndex.execute, setBalance, hpool]
    rfl
  have hfresh : (index.setTargetBalance position fun _ => .fresh 0).targets[position]? =
      some { target with balance := .fresh 0 } := by
    simp [setTargetBalance, htarget]
  have hstale := balance_markTransferLogStale
    (index.setTargetBalance position fun _ => .fresh 0) hlisted hholder
    { target with balance := .fresh 0 }
  rw [hset, PoolLiquidityIndex.execute] at hsame
  rw [hsame] at hstale
  exact absurd (hstale hfresh) (by simp)

/-- In every state of every run the transfer subscriptions lose nothing, and losing any of
them but the zero address's loses a change of a balance. -/
theorem transferEventSources_exact [StableDiGraph G Address EdgeData]
    (hconstructed : Constructed (G := G) index) (hreached : reached ∈ index.states earlier) :
    (∀ commands heard : List (Command G),
      Hears reached reached.transferEventSources commands heard →
        heard.foldl PoolLiquidityIndex.execute reached =
            commands.foldl PoolLiquidityIndex.execute reached ∧
          reached.sentBatches heard = reached.sentBatches commands) ∧
      ∀ token holder, Covers reached.transferEventSources token holder → holder ≠ 0 →
        ∃ pool log, (∀ sources, log.Subscribed sources ↔ Covers sources token holder) ∧
          PoolLiquidityIndex.execute (PoolLiquidityIndex.execute reached
              (.setBalance pool token 0 : Command G)) (.markTransferLogStale log : Command G) ≠
            PoolLiquidityIndex.execute reached (.setBalance pool token 0 : Command G) := by
  have hindex := hconstructed.holderIndexed.states earlier hreached
  exact ⟨fun commands heard hheard => hheard.lossless hindex hindex.subscribes,
    fun token holder hcovers hholder => hindex.exists_lost hcovers hholder⟩

end Runs

end PoolLiquidityIndex

namespace TwoPoolGraph

/-- A transfer between two holders that no pool belongs to. -/
def unrelated : Log where
  address := 1
  topics := [transferEventSignature, 11, 12]
  data := List.replicate 31 0 ++ [20]

theorem not_subscribed_unrelated : ¬ unrelated.Subscribed funded.transferEventSources := by
  have hsources : funded.transferEventSources = [⟨1, [7]⟩, ⟨2, [7, 8]⟩, ⟨3, [8]⟩] := by
    decide +kernel
  have hparse : parseTransfer unrelated = some ⟨1, 11, 12, 20⟩ := by decide +kernel
  rintro ⟨transfer, hfound, hcovers⟩
  rw [hparse] at hfound
  cases hfound
  rw [hsources] at hcovers
  simp [Covers] at hcovers

/-- A transfer of others may be missed, the left pool's subscription may not. -/
theorem transferEventSources_exact_burn :
    (([.applyTransferLog cache.toAdapterCache burn] : List LiquidityCommand).foldl
          PoolLiquidityIndex.execute funded =
        ([.applyTransferLog cache.toAdapterCache unrelated,
            .applyTransferLog cache.toAdapterCache burn] : List LiquidityCommand).foldl
          PoolLiquidityIndex.execute funded ∧
      funded.sentBatches ([.applyTransferLog cache.toAdapterCache burn] :
          List LiquidityCommand) =
        funded.sentBatches ([.applyTransferLog cache.toAdapterCache unrelated,
            .applyTransferLog cache.toAdapterCache burn] : List LiquidityCommand)) ∧
      Covers funded.transferEventSources 1 7 := by
  have hexact := PoolLiquidityIndex.transferEventSources_exact
    (.fromRegistryWithScope (registry [left, right] nodup_keys) graph
      .allDirectedEdgeInputsAndOutputs) funded_mem_states
  refine ⟨hexact.1 _ _ (.miss rfl not_subscribed_unrelated (.hear (.nil _ _))), ?_⟩
  exact PoolLiquidityIndex.covers_transferEventSources.mpr ⟨0, by
    rw [funded_targets]
    rfl⟩

end TwoPoolGraph

end AmmSearch
