/-
Fresh balances and the storage words of the cache.  Transfer logs keep them equal;
lists of cache updates store the absolute writes only, so what the rest of a list does
to a word decides whether the fresh balances still follow it.
-/
import AmmSearch.LiquidityTransfers

open FiniteMap StableGraph

namespace AmmSearch

/-- A change of the cache that is passed on to the balances. -/
inductive CacheChange
  | transferLog (log : Log)
  | storageUpdates (updates : List StateUpdate)
deriving DecidableEq

/-- The change names the holder or the storage word of a target. -/
def CacheChange.Concerns (cache : StoringCache) (target : PoolLiquidityTarget) :
    CacheChange → Prop
  | .transferLog log => ∃ transfer, parseTransfer log = some transfer ∧
      (target.tokenHolder = some (transfer.token, transfer.source) ∨
        target.tokenHolder = some (transfer.token, transfer.target))
  | .storageUpdates updates => ∃ key, target.storageSlot = some key ∧
      ∃ update ∈ updates, cache.Names update key

namespace PoolLiquidityIndex

section Changes

variable {index : PoolLiquidityIndex} {cache : StoringCache} {words : CacheWords}
  {updates : List StateUpdate}

/-- What a change does to the cache. -/
def cacheUpdates (index : PoolLiquidityIndex) : CacheChange → List StateUpdate
  | .transferLog log => index.transferUpdates log
  | .storageUpdates updates => updates

/-- The index after a change. -/
def applyChange (index : PoolLiquidityIndex) (cache : AdapterCache) :
    CacheChange → PoolLiquidityIndex
  | .transferLog log => (index.applyTransferLog cache log).1
  | .storageUpdates updates => (index.applyStorageUpdates updates).1

/-- After the change every fresh balance is what the cache then holds, and targets that
the change does not concern are as before. -/
structure FollowsCache (index : PoolLiquidityIndex) (cache : StoringCache)
    (words : CacheWords) (change : CacheChange) : Prop where
  follows : (index.applyChange cache.toAdapterCache change).Follows
    (cache.applyAll words (index.cacheUpdates change))
  kept : ∀ (position : ℕ) (target : PoolLiquidityTarget),
    index.targets[position]? = some target → target.active = true →
    ¬ change.Concerns cache target →
    (index.applyChange cache.toAdapterCache change).targets[position]? = some target

/-- The last absolute write that reaches a target is its word's last change of the
balance; without one the word of a fresh target keeps its balance; and a target whose
word is not named gets no other balance through a word that still lists it. -/
structure SettlesTarget (index : PoolLiquidityIndex) (cache : StoringCache)
    (words : CacheWords) (updates : List StateUpdate) (position : ℕ)
    (target : PoolLiquidityTarget) : Prop where
  written : ∀ key value, target.storageSlot = some key →
    index.lastWrite position updates = some value →
    (cache.applyAll words updates key).bind target.source.decode = target.source.decode value
  unwritten : ∀ key, target.storageSlot = some key →
    index.lastWrite position updates = none → target.balance.fresh?.isSome →
    (cache.applyAll words updates key).bind target.source.decode =
      (words key).bind target.source.decode
  unnamed : ¬ (CacheChange.storageUpdates updates).Concerns cache target →
    ∀ value balance, index.lastWrite position updates = some value →
      target.source.decode value = some balance → target.balance = .fresh balance

/-- Transfer logs always settle; a list of updates has to settle every active target. -/
def Settles (index : PoolLiquidityIndex) (cache : StoringCache) (words : CacheWords) :
    CacheChange → Prop
  | .transferLog _ => True
  | .storageUpdates updates => ∀ (position : ℕ) (target : PoolLiquidityTarget),
      index.targets[position]? = some target → target.active = true →
      index.SettlesTarget cache words updates position target

theorem followsCache_transferLog (hlisted : index.HoldersListed)
    (hdistinct : index.DistinctSlots) (hfollows : index.Follows words) (log : Log) :
    index.FollowsCache cache words (.transferLog log) where
  follows := follows_applyTransferLog hlisted hdistinct hfollows log
  kept position target htarget hactive hother := by
    rw [applyChange, (touches_applyTransferLog index cache.toAdapterCache log).others position,
      htarget]
    rintro ⟨transfer, hparse, hside⟩
    have hkey : keyAt PoolLiquidityTarget.tokenHolder index.targets position =
        target.tokenHolder := by
      rw [keyAt, htarget, Option.bind_some, if_pos hactive]
    apply hother
    refine ⟨transfer, hparse, hside.imp (fun hsource => ?_) fun htarget => ?_⟩
    · rw [← hkey]
      exact (hlisted.mem_iff _ position).mp hsource
    · rw [← hkey]
      exact (hlisted.mem_iff _ position).mp htarget

/-- A balance with a storage word can be read from any value of it. -/
theorem decode_isSome {target : PoolLiquidityTarget} {key : Address × U256}
    (hkey : target.storageSlot = some key) (value : U256) :
    ∃ balance, target.source.decode value = some balance := by
  obtain ⟨token, source, balance, active⟩ := target
  cases source with
  | erc20Balance holder slot => exact ⟨value, rfl⟩
  | balancerV2VaultCash vault slot highField => exact ⟨_, rfl⟩
  | unknown => cases hkey

theorem follows_store_iff {target : PoolLiquidityTarget} (value : U256) :
    (target.store value).Follows words ↔ ∀ key, target.storageSlot = some key →
      (words key).bind target.source.decode = target.source.decode value := by
  have hslot : (target.store value).storageSlot = target.storageSlot := by
    unfold PoolLiquidityTarget.store
    split <;> rfl
  have hsource : (target.store value).source = target.source := by
    unfold PoolLiquidityTarget.store
    split <;> rfl
  have hbalance : ∀ balance, target.source.decode value = some balance →
      (target.store value).balance = .fresh balance := by
    intro balance hdecode
    rw [PoolLiquidityTarget.store, hdecode]
  unfold PoolLiquidityTarget.Follows
  rw [hslot, hsource]
  constructor
  · intro hfollows key hkey
    obtain ⟨balance, hdecode⟩ := decode_isSome hkey value
    rw [hfollows key balance hkey (hbalance balance hdecode), hdecode]
  · intro hwords key balance hkey hfresh
    obtain ⟨found, hdecode⟩ := decode_isSome hkey value
    rw [hbalance found hdecode, BalanceState.fresh.injEq] at hfresh
    rw [hwords key hkey, hdecode, hfresh]

/-- One target after a list of updates. -/
theorem settlesTarget_iff {position : ℕ} {target : PoolLiquidityTarget}
    (hfollows : target.Follows words) :
    index.SettlesTarget cache words updates position target ↔
      ((index.lastWrite position updates).elim target
          fun value => target.store value).Follows (cache.applyAll words updates) ∧
        (¬ (CacheChange.storageUpdates updates).Concerns cache target →
          ((index.lastWrite position updates).elim target fun value => target.store value) =
            target) := by
  cases hlast : index.lastWrite position updates with
  | none =>
      simp only [Option.elim_none, implies_true, and_true]
      constructor
      · intro hsettles key balance hkey hbalance
        rw [hsettles.unwritten key hkey hlast (by rw [hbalance]; rfl)]
        exact hfollows key balance hkey hbalance
      · intro hafter
        refine ⟨fun key value hkey hvalue => ?_, fun key hkey _ hfresh => ?_,
          fun _ value balance hvalue => ?_⟩
        · rw [hlast] at hvalue
          cases hvalue
        · cases hbalance : target.balance with
          | fresh balance =>
              rw [hafter key balance hkey hbalance, hfollows key balance hkey hbalance]
          | unknown =>
              rw [hbalance] at hfresh
              cases hfresh
          | stale =>
              rw [hbalance] at hfresh
              cases hfresh
        · rw [hlast] at hvalue
          cases hvalue
  | some value =>
      simp only [Option.elim_some, follows_store_iff]
      have hsame : target.store value = target ↔ ∀ balance,
          target.source.decode value = some balance → target.balance = .fresh balance := by
        obtain ⟨token, source, balance, active⟩ := target
        unfold PoolLiquidityTarget.store
        cases hdecode : source.decode value with
        | none => simp
        | some found => simp [eq_comm]
      rw [hsame]
      constructor
      · intro hsettles
        exact ⟨fun key hkey => hsettles.written key value hkey hlast,
          fun hother balance => hsettles.unnamed hother value balance hlast⟩
      · rintro ⟨hwords, hkept⟩
        refine ⟨fun key found hkey hfound => ?_, fun key _ hnone => ?_,
          fun hother found balance hfound => ?_⟩
        · obtain rfl := Option.some.inj (hlast.symm.trans hfound)
          exact hwords key hkey
        · rw [hlast] at hnone
          cases hnone
        · obtain rfl := Option.some.inj (hlast.symm.trans hfound)
          exact hkept hother balance

theorem followsCache_storageUpdates_iff (hfollows : index.Follows words) :
    index.FollowsCache cache words (.storageUpdates updates) ↔
      index.Settles cache words (.storageUpdates updates) := by
  have hactive : ∀ (found : Option U256) (target : PoolLiquidityTarget),
      (found.elim target fun value => target.store value).active = target.active := by
    intro found target
    cases found with
    | none => rfl
    | some value => exact congrArg (fun shape => shape.2.2) (target.store_shape value)
  constructor
  · intro hcache position target htarget hused
    have hafter := @getElem?_applyStorageUpdates index updates position
    rw [htarget, Option.map_some] at hafter
    apply (settlesTarget_iff (hfollows target (List.mem_of_getElem? htarget) hused)).mpr
    constructor
    · exact hcache.follows _ (List.mem_of_getElem? hafter)
        ((hactive (index.lastWrite position updates) target).trans hused)
    · intro hother
      exact Option.some.inj (hafter.symm.trans (hcache.kept position target htarget hused hother))
  · intro hsettles
    refine ⟨?_, ?_⟩
    · intro after hafter hused
      obtain ⟨position, hposition⟩ := List.mem_iff_getElem?.mp hafter
      rw [applyChange, getElem?_applyStorageUpdates, Option.map_eq_some_iff] at hposition
      obtain ⟨target, htarget, rfl⟩ := hposition
      rw [hactive] at hused
      exact ((settlesTarget_iff (hfollows target (List.mem_of_getElem? htarget) hused)).mp
        (hsettles position target htarget hused)).1
    · intro position target htarget hused hother
      rw [applyChange, getElem?_applyStorageUpdates, htarget, Option.map_some]
      exact congrArg some (((settlesTarget_iff (hfollows target
        (List.mem_of_getElem? htarget) hused)).mp
          (hsettles position target htarget hused)).2 hother)

/-- A write that reaches a position goes to a word that lists it. -/
theorem listed_of_lastWrite {position : ℕ} {value : U256}
    (hlast : index.lastWrite position updates = some value) :
    ∃ address slot, index.Listed (address, slot) position ∧
      .slot address slot value ∈ updates := by
  induction updates using List.reverseRecOn with
  | nil => cases hlast
  | append_singleton updates update ih =>
      have hearlier : index.lastWrite position updates = some value →
          ∃ address slot, index.Listed (address, slot) position ∧
            .slot address slot value ∈ updates ++ [update] := by
        intro hfound
        obtain ⟨address, slot, hlisted, hmem⟩ := ih hfound
        exact ⟨address, slot, hlisted, List.mem_append_left _ hmem⟩
      rw [lastWrite, List.foldl_append] at hlast
      cases update with
      | slot address slot written =>
          simp only [List.foldl_cons, List.foldl_nil] at hlast
          split at hlast
          · obtain rfl := Option.some.inj hlast
            exact ⟨address, slot, ‹_›, by simp⟩
          · exact hearlier hlast
      | slotDelta address slot delta => exact hearlier hlast
      | other tag => exact hearlier hlast

/-- With exact reverse indexes the last absolute write of a word decides what it holds,
if the list changes the word in no other way. -/
theorem Reversed.applyAll_eq_lastWrite (hreversed : index.Reversed) {position : ℕ}
    {key : Address × U256}
    (hkey : keyAt PoolLiquidityTarget.storageSlot index.targets position = some key)
    (habsolute : ∀ update ∈ updates, cache.Names update key →
      ∃ value, update = .slot key.1 key.2 value) :
    cache.applyAll words updates key =
      (index.lastWrite position updates).elim (words key) some := by
  have hlisted : ∀ other, index.Listed other position ↔ other = key := by
    intro other
    rw [Listed, hreversed.storage.mem_iff, hkey, Option.some.injEq, eq_comm]
  induction updates using List.reverseRecOn with
  | nil => rfl
  | append_singleton updates update ih =>
      have hearlier := ih fun earlier hmem =>
        habsolute earlier (List.mem_append_left _ hmem)
      rw [StoringCache.applyAll_append]
      change cache.applyUpdate (cache.applyAll words updates) update key = _
      by_cases hnames : cache.Names update key
      · obtain ⟨value, rfl⟩ := habsolute update (by simp) hnames
        have hlast : index.lastWrite position (updates ++ [.slot key.1 key.2 value]) =
            some value := by
          rw [lastWrite, List.foldl_append]
          exact if_pos ((hlisted key).mpr rfl)
        rw [hlast, StoringCache.applyUpdate]
        exact Function.update_self ..
      · rw [cache.applyUpdate_of_not_names hnames, hearlier]
        have hlast : index.lastWrite position (updates ++ [update]) =
            index.lastWrite position updates := by
          rw [lastWrite, List.foldl_append]
          cases update with
          | slot address slot value =>
              exact if_neg fun hreached => hnames ((hlisted (address, slot)).mp hreached).symm
          | slotDelta address slot delta => rfl
          | other tag => rfl
        rw [hlast]

/-- With exact reverse indexes a list settles if it changes the tracked words by
absolute writes only. -/
theorem Reversed.settles_of_absolute (hreversed : index.Reversed)
    (habsolute : ∀ target ∈ index.targets, target.active = true →
      ∀ key, target.storageSlot = some key → ∀ update ∈ updates, cache.Names update key →
        ∃ value, update = .slot key.1 key.2 value) :
    index.Settles cache words (.storageUpdates updates) := by
  intro position target htarget hactive
  have hkeyAt : keyAt PoolLiquidityTarget.storageSlot index.targets position =
      target.storageSlot := by
    rw [keyAt, htarget, Option.bind_some, if_pos hactive]
  have hword : ∀ key, target.storageSlot = some key → cache.applyAll words updates key =
      (index.lastWrite position updates).elim (words key) some := fun key hkey =>
    hreversed.applyAll_eq_lastWrite (hkeyAt.trans hkey)
      (habsolute target (List.mem_of_getElem? htarget) hactive key hkey)
  refine ⟨fun key value hkey hlast => ?_, fun key hkey hlast _ => ?_,
    fun hother value _ hlast _ => ?_⟩
  · rw [hword key hkey, hlast]
    rfl
  · rw [hword key hkey, hlast]
    rfl
  · obtain ⟨address, slot, hlisted, hmem⟩ := listed_of_lastWrite hlast
    have hkey := (hreversed.storage.mem_iff (address, slot) position).mp hlisted
    exact absurd ⟨(address, slot), hkeyAt.symm.trans hkey, _, hmem, rfl⟩ hother

/-- In every state of every run, a transfer log leaves the fresh balances equal to the
words of the cache, and a list of cache updates does so exactly if it settles. -/
theorem followsCache_iff {G : Type} [StableDiGraph G Address EdgeData]
    {start : PoolLiquidityIndex} (hconstructed : Constructed (G := G) start)
    (commands : List (Command G)) (hreached : index ∈ start.states commands)
    (cache : StoringCache) (words : CacheWords) (hdistinct : index.DistinctSlots)
    (hfollows : index.Follows words) (change : CacheChange) :
    index.FollowsCache cache words change ↔ index.Settles cache words change := by
  cases change with
  | transferLog log =>
      have hindex := hconstructed.holderIndexed.states commands hreached
      exact iff_of_true (followsCache_transferLog hindex.listed hdistinct hfollows log) trivial
  | storageUpdates updates => exact followsCache_storageUpdates_iff hfollows

end Changes

end PoolLiquidityIndex

namespace TwoPoolGraph

/-- A cache without backend: every word is warm or absent, and deltas wrap. -/
def cache : StoringCache where
  applyUpdates _ := ⟨[], 0, false⟩
  applyDelta
    | .add value, current => current + value
    | .sub value, current => current - value
  applyOther _ words := words
  namedWords _ := ∅
  applyOther_eq _ _ _ _ := rfl

/-- The balance of the left pool gets its slot and its word. -/
def fund : List LiquidityCommand :=
  [.setErc20BalanceSlot 1 7 10, .applyStorageUpdates [.slot 1 10 100]]

def funded : PoolLiquidityIndex := fund.foldl PoolLiquidityIndex.execute liquidity

def fundedWords : CacheWords := Function.update (fun _ => none) (1, 10) (some 100)

/-- The left pool sends twenty tokens to the zero address. -/
def burn : Log where
  address := 1
  topics := [transferEventSignature, 7, 0]
  data := List.replicate 31 0 ++ [20]

theorem funded_targets : funded.targets =
    [⟨1, .erc20Balance 7 (some 10), .fresh 100, true⟩, ⟨2, .erc20Balance 7 none, .unknown, true⟩,
      ⟨2, .erc20Balance 8 none, .unknown, true⟩, ⟨3, .erc20Balance 8 none, .unknown, true⟩] := by
  decide +kernel

theorem funded_mem_states : funded ∈ liquidity.states fund := by
  simp [funded, fund, PoolLiquidityIndex.states]

theorem distinctSlots_funded : funded.DistinctSlots := by
  unfold PoolLiquidityIndex.DistinctSlots
  rw [funded_targets]
  decide

theorem follows_funded : funded.Follows fundedWords := by
  intro target htarget _ key balance hkey hbalance
  rw [funded_targets] at htarget
  simp only [List.mem_cons, List.not_mem_nil, or_false] at htarget
  rcases htarget with rfl | rfl | rfl | rfl
  · cases hkey
    cases hbalance
    rfl
  · cases hbalance
  · cases hbalance
  · cases hbalance

/-- A relative change is not stored: the balance stays fresh and wrong. -/
theorem not_followsCache_slotDelta :
    funded ∈ liquidity.states fund ∧ funded.DistinctSlots ∧ funded.Follows fundedWords ∧
      ¬ funded.FollowsCache cache fundedWords (.storageUpdates [.slotDelta 1 10 (.sub 20)]) := by
  refine ⟨funded_mem_states, distinctSlots_funded, follows_funded, fun hcache => ?_⟩
  have hfollows := hcache.follows ⟨1, .erc20Balance 7 (some 10), .fresh 100, true⟩ (by
    change _ ∈ funded.targets
    rw [funded_targets]
    exact List.mem_cons_self) rfl (1, 10) 100 rfl rfl
  exact absurd hfollows (by decide)

/-- A burn is stored. -/
theorem followsCache_burn :
    funded ∈ liquidity.states fund ∧ funded.DistinctSlots ∧ funded.Follows fundedWords ∧
      (funded.FollowsCache cache fundedWords (.transferLog burn) ↔
        funded.Settles cache fundedWords (.transferLog burn)) :=
  ⟨funded_mem_states, distinctSlots_funded, follows_funded,
    PoolLiquidityIndex.followsCache_iff
      (.fromRegistryWithScope (registry [left, right] nodup_keys) graph
        .allDirectedEdgeInputsAndOutputs) fund funded_mem_states cache fundedWords
      distinctSlots_funded follows_funded (.transferLog burn)⟩

end TwoPoolGraph

end AmmSearch
