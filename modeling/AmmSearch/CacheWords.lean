/-
The storage words of a cache and what cache updates do to them, and how a storage
word and a list of updates are stored in the targets of a liquidity index.
-/
import AmmSearch.LiquidityReverseRuns

open FiniteMap StableGraph

namespace AmmSearch

/-- The storage words of a cache; a cold word is absent. -/
abbrev CacheWords := Address × U256 → Option U256

/-- A cache with what updates do to its words.  Masked writes, purges and every other
kind of update is `applyOther`, which changes the words that it names only. -/
structure StoringCache extends AdapterCache where
  applyOther : ℕ → CacheWords → CacheWords
  namedWords : ℕ → Set (Address × U256)
  applyOther_eq : ∀ tag words key, key ∉ namedWords tag → applyOther tag words key = words key

namespace StoringCache

variable (cache : StoringCache) {words : CacheWords} {key : Address × U256}

/-- The words after one update; a relative change skips a cold word. -/
def applyUpdate (words : CacheWords) : StateUpdate → CacheWords
  | .slot address slot value => Function.update words (address, slot) (some value)
  | .slotDelta address slot delta =>
      Function.update words (address, slot)
        ((words (address, slot)).map (cache.applyDelta delta))
  | .other tag => cache.applyOther tag words

/-- The words after a list of updates. -/
def applyAll (words : CacheWords) (updates : List StateUpdate) : CacheWords :=
  updates.foldl cache.applyUpdate words

/-- The words that an update may change. -/
def Names : StateUpdate → Address × U256 → Prop
  | .slot address slot _, key => key = (address, slot)
  | .slotDelta address slot _, key => key = (address, slot)
  | .other tag, key => key ∈ cache.namedWords tag

theorem applyUpdate_of_not_names {update : StateUpdate} (hother : ¬ cache.Names update key) :
    cache.applyUpdate words update key = words key := by
  cases update with
  | slot address slot value => exact Function.update_of_ne hother _ _
  | slotDelta address slot delta => exact Function.update_of_ne hother _ _
  | other tag => exact cache.applyOther_eq tag words key hother

theorem applyAll_append (words : CacheWords) (updates later : List StateUpdate) :
    cache.applyAll words (updates ++ later) =
      cache.applyAll (cache.applyAll words updates) later :=
  List.foldl_append

/-- The same change of several words of one contract. -/
theorem applyAll_slotDeltas (token : Address) (delta : SlotDelta) {slots : List U256}
    (hnodup : slots.Nodup) (words : CacheWords) :
    cache.applyAll words (slots.map fun slot => .slotDelta token slot delta) key =
      if key.1 = token ∧ key.2 ∈ slots then (words key).map (cache.applyDelta delta)
      else words key := by
  induction slots generalizing words with
  | nil => simp [applyAll]
  | cons head rest ih =>
      rw [List.nodup_cons] at hnodup
      have hrest := ih hnodup.2 (cache.applyUpdate words (.slotDelta token head delta))
      rw [List.map_cons]
      refine hrest.trans ?_
      by_cases hhead : key = (token, head)
      · subst hhead
        simp [applyUpdate, hnodup.1]
      · have hne : ¬ (key.1 = token ∧ key.2 = head) := fun heq => hhead (Prod.ext heq.1 heq.2)
        rw [@applyUpdate_of_not_names cache words key (.slotDelta token head delta) hhead]
        by_cases htoken : key.1 = token
        · have hslot : key.2 ≠ head := fun heq => hne ⟨htoken, heq⟩
          simp [htoken, hslot]
        · simp [htoken]

end StoringCache

namespace PoolLiquidityTarget

variable {cache : AdapterCache} {words next : CacheWords} {target : PoolLiquidityTarget}

/-- A fresh balance is what the storage word holds. -/
def Follows (words : CacheWords) (target : PoolLiquidityTarget) : Prop :=
  ∀ key balance, target.storageSlot = some key → target.balance = .fresh balance →
    (words key).bind target.source.decode = some balance

/-- The target after a storage word is stored in it. -/
def store (value : U256) (target : PoolLiquidityTarget) : PoolLiquidityTarget :=
  match target.source.decode value with
  | some balance => { target with balance := .fresh balance }
  | none => target

theorem store_shape (value : U256) (target : PoolLiquidityTarget) :
    (target.store value).shape = target.shape := by
  unfold store
  split <;> rfl

/-- The later store counts. -/
theorem store_store (value earlier : U256) (target : PoolLiquidityTarget) :
    (target.store earlier).store value = target.store value := by
  obtain ⟨token, source, balance, active⟩ := target
  cases source <;> rfl

/-- The target after a transfer that touches it. -/
def touch (cache : AdapterCache) (skipped : List (Address × U256))
    (target : PoolLiquidityTarget) (touched : PoolLiquidityIndex.TouchedBalance) :
    PoolLiquidityTarget :=
  if (touched.address, touched.slot) ∈ skipped then { target with balance := .stale }
  else
    match target.balance.fresh? with
    | some current => { target with balance := .fresh (cache.applyDelta touched.delta current) }
    | none => { target with balance := .stale }

theorem touch_shape (skipped : List (Address × U256)) (target : PoolLiquidityTarget)
    (touched : PoolLiquidityIndex.TouchedBalance) :
    (target.touch cache skipped touched).shape = target.shape := by
  unfold touch
  split
  · rfl
  · split <;> rfl

/-- A touched balance moves with its word, or is no longer fresh. -/
theorem Follows.touch (hfollows : target.Follows words) (skipped : List (Address × U256))
    {touched : PoolLiquidityIndex.TouchedBalance} {holder : Address} {slot : U256}
    (hsource : target.source = .erc20Balance holder (some slot))
    (hnext : next (target.token, slot) =
      (words (target.token, slot)).map (cache.applyDelta touched.delta)) :
    (target.touch cache skipped touched).Follows next := by
  obtain ⟨token, source, balance, active⟩ := target
  simp only at hsource
  subst hsource
  intro key moved hkey hmoved
  obtain rfl : (token, slot) = key := by
    unfold PoolLiquidityTarget.touch at hkey
    split at hkey
    · exact Option.some.inj hkey
    · split at hkey <;> exact Option.some.inj hkey
  unfold PoolLiquidityTarget.touch at hmoved ⊢
  split at hmoved
  · cases hmoved
  · rename_i hwarm
    simp only [hwarm, if_false]
    cases balance with
    | unknown => cases hmoved
    | stale => cases hmoved
    | fresh current =>
        have hword := hfollows (token, slot) current rfl rfl
        obtain ⟨word, hfound, hcurrent⟩ := Option.bind_eq_some_iff.mp hword
        obtain rfl := Option.some.inj hcurrent
        simp only [BalanceState.fresh?, BalanceState.fresh.injEq] at hmoved
        simp only at hnext
        rw [hnext, hfound, ← hmoved]
        rfl

end PoolLiquidityTarget

namespace PoolLiquidityIndex

section Stores

variable {index : PoolLiquidityIndex}

theorem getElem?_setTargetBalance (position other : ℕ)
    (balance : PoolLiquidityTarget → BalanceState) :
    (index.setTargetBalance position balance).targets[other]? =
      if other = position then
        (index.targets[other]?).map fun target => { target with balance := balance target }
      else index.targets[other]? := by
  simp only [setTargetBalance, List.getElem?_modify, eq_comm (a := position)]
  cases index.targets[other]? with
  | none => simp
  | some target => by_cases hother : other = position <;> simp [hother]

theorem getElem?_storeValue (value : U256) (state : PoolLiquidityIndex × ℕ)
    (position other : ℕ) :
    (storeValue value state position).1.targets[other]? =
      if other = position then
        (state.1.targets[other]?).map (PoolLiquidityTarget.store value)
      else state.1.targets[other]? := by
  unfold storeValue
  cases hfound : (state.1.targets[position]?).bind fun target => target.source.decode value with
  | none =>
      simp only [hfound]
      split
      · rename_i hother
        subst hother
        cases htarget : state.1.targets[other]? with
        | none => rfl
        | some target =>
            rw [htarget, Option.bind_some] at hfound
            rw [Option.map_some, PoolLiquidityTarget.store, hfound]
      · rfl
  | some balance =>
      simp only [hfound, getElem?_setTargetBalance]
      split
      · rename_i hother
        subst hother
        obtain ⟨target, htarget, hdecode⟩ := Option.bind_eq_some_iff.mp hfound
        rw [htarget, Option.map_some, Option.map_some, PoolLiquidityTarget.store, hdecode]
      · rfl

instance (key : Address × U256) (position : ℕ) : Decidable (index.Listed key position) :=
  inferInstanceAs (Decidable (_ ∈ _))

theorem getElem?_updateSlotValue (address : Address) (slot value : U256) (position : ℕ) :
    (index.updateSlotValue address slot value).1.targets[position]? =
      if index.Listed (address, slot) position then
        (index.targets[position]?).map (PoolLiquidityTarget.store value)
      else index.targets[position]? := by
  have hfold : ∀ (positions : List ℕ) (state : PoolLiquidityIndex × ℕ),
      (positions.foldl (storeValue value) state).1.targets[position]? =
        if position ∈ positions then
          (state.1.targets[position]?).map (PoolLiquidityTarget.store value)
        else state.1.targets[position]? := by
    intro positions
    induction positions with
    | nil => simp
    | cons head rest ih =>
        intro state
        rw [List.foldl_cons, ih, getElem?_storeValue]
        by_cases hhead : position = head
        · subst hhead
          simp [Function.comp_def, PoolLiquidityTarget.store_store]
        · simp [hhead]
  exact hfold _ (index, 0)

/-- The value of the last absolute write to a word under which a position is listed. -/
def lastWrite (index : PoolLiquidityIndex) (position : ℕ) (updates : List StateUpdate) :
    Option U256 :=
  updates.foldl (fun last update =>
    match update with
    | .slot address slot value =>
        if index.Listed (address, slot) position then some value else last
    | .slotDelta _ _ _ | .other _ => last) none

theorem applyStorageUpdates_append (updates : List StateUpdate) (update : StateUpdate) :
    (index.applyStorageUpdates (updates ++ [update])).1 =
      match update with
      | .slot address slot value =>
          ((index.applyStorageUpdates updates).1.updateSlotValue address slot value).1
      | .slotDelta _ _ _ | .other _ => (index.applyStorageUpdates updates).1 := by
  unfold applyStorageUpdates
  rw [List.foldl_append]
  cases update <;> rfl

/-- A list of updates stores the last absolute write that reaches a target. -/
theorem getElem?_applyStorageUpdates (updates : List StateUpdate) (position : ℕ) :
    (index.applyStorageUpdates updates).1.targets[position]? =
      (index.targets[position]?).map fun target =>
        (index.lastWrite position updates).elim target fun value => target.store value := by
  induction updates using List.reverseRecOn with
  | nil => simp [applyStorageUpdates, lastWrite]
  | append_singleton updates update ih =>
      have hlisted : ∀ key, (index.applyStorageUpdates updates).1.Listed key position ↔
          index.Listed key position := by
        intro key
        unfold Listed
        rw [(touches_applyStorageUpdates index updates).maps]
      rw [applyStorageUpdates_append]
      unfold lastWrite at ih ⊢
      rw [List.foldl_append]
      cases update with
      | slot address slot value =>
          simp only [getElem?_updateSlotValue, hlisted, ih, List.foldl_cons, List.foldl_nil]
          by_cases hreached : index.Listed (address, slot) position
          · simp only [hreached, if_true, Option.map_map]
            congr 1
            funext target
            cases updates.foldl _ none with
            | none => rfl
            | some earlier => exact PoolLiquidityTarget.store_store value earlier target
          · simp only [hreached, if_false]
      | slotDelta address slot delta => exact ih
      | other tag => exact ih

end Stores

end PoolLiquidityIndex

end AmmSearch
