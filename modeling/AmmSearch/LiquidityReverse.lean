/-
The reverse indexes of a liquidity index: which positions a storage word and a
token holder are listed under, and which positions are free.  They follow the
targets through every operation that does not move a target from one storage
word to another.
-/
import AmmSearch.LiquidityReconcile
import AmmSearch.LiquidityUpdates

open FiniteMap StableGraph

namespace AmmSearch

/-- An index from keys to positions lists each position once, under its key. -/
structure Lists {κ : Type} [DecidableEq κ] (index : Map κ (List ℕ))
    (keyAt : ℕ → Option κ) : Prop where
  mem_iff : ∀ key position, position ∈ (index.lookup key).getD [] ↔
    keyAt position = some key
  nodup : ∀ key, ((index.lookup key).getD []).Nodup

section Lists

variable {κ : Type} [DecidableEq κ] {index : Map κ (List ℕ)} {keyAt : ℕ → Option κ}
  {position : ℕ}

theorem Lists.push (hlists : Lists index keyAt) (hnew : keyAt position = none) (key : κ) :
    Lists (PoolLiquidityIndex.pushIndex index key position)
      (Function.update keyAt position (some key)) := by
  have hlookup : ∀ other, ((PoolLiquidityIndex.pushIndex index key position).lookup
      other).getD [] = if other = key then (index.lookup key).getD [] ++ [position]
        else (index.lookup other).getD [] := by
    intro other
    rw [PoolLiquidityIndex.pushIndex, lookup_alter]
    split <;> rfl
  have hunlisted : ∀ other, position ∉ (index.lookup other).getD [] := by
    intro other hmem
    rw [hlists.mem_iff, hnew] at hmem
    cases hmem
  constructor
  · intro other found
    rw [hlookup, Function.update_apply]
    by_cases hother : other = key
    · subst hother
      rw [if_pos rfl, List.mem_append, List.mem_singleton, hlists.mem_iff]
      by_cases hfound : found = position
      · simp [hfound]
      · simp [hfound]
    · rw [if_neg hother]
      by_cases hfound : found = position
      · subst hfound
        simp [hunlisted other, Ne.symm hother]
      · rw [if_neg hfound]
        exact hlists.mem_iff other found
  · intro other
    rw [hlookup]
    split
    · apply List.Nodup.append (hlists.nodup key) (List.nodup_singleton position)
      intro found hfound hlast
      exact hunlisted key (List.mem_singleton.mp hlast ▸ hfound)
    · exact hlists.nodup other

theorem getD_filter_ne_nil (kept : List ℕ) :
    ((some kept).filter fun positions => positions ≠ []).getD [] = kept := by
  cases kept <;> rfl

theorem Lists.remove (hlists : Lists index keyAt) {key : κ}
    (hkey : keyAt position = some key) :
    Lists (PoolLiquidityIndex.removeReverseIndex index key position)
      (Function.update keyAt position none) := by
  have hlookup : ∀ other, ((PoolLiquidityIndex.removeReverseIndex index key
      position).lookup other).getD [] =
        if other = key then ((index.lookup key).getD []).filter (· ≠ position)
        else (index.lookup other).getD [] := by
    intro other
    rw [PoolLiquidityIndex.removeReverseIndex, lookup_alter]
    split
    · cases index.lookup key with
      | none => rfl
      | some positions => exact getD_filter_ne_nil _
    · rfl
  constructor
  · intro other found
    rw [hlookup, Function.update_apply]
    by_cases hother : other = key
    · subst hother
      rw [if_pos rfl, List.mem_filter, hlists.mem_iff]
      by_cases hfound : found = position
      · simp [hfound]
      · simp [hfound]
    · rw [if_neg hother, hlists.mem_iff]
      by_cases hfound : found = position
      · subst hfound
        simp [hkey, Ne.symm hother]
      · rw [if_neg hfound]
  · intro other
    rw [hlookup]
    split
    · exact (hlists.nodup key).filter _
    · exact hlists.nodup other

end Lists

namespace PoolLiquidityTarget

/-- The token and the holder of an ERC-20 balance. -/
def tokenHolder (target : PoolLiquidityTarget) : Option (Address × Address) :=
  match target.source with
  | .erc20Balance holder _ => some (target.token, holder)
  | .balancerV2VaultCash _ _ _ | .unknown => none

/-- What the reverse indexes follow of a target. -/
def shape (target : PoolLiquidityTarget) : Address × LiquiditySource × Bool :=
  (target.token, target.source, target.active)

end PoolLiquidityTarget

namespace PoolLiquidityIndex

/-- The key of the active target at a position. -/
def keyAt {κ : Type} (key : PoolLiquidityTarget → Option κ)
    (targets : List PoolLiquidityTarget) (position : ℕ) : Option κ :=
  (targets[position]?).bind fun target => if target.active then key target else none

/-- Storage words, token holders and free positions. -/
structure Reversed (index : PoolLiquidityIndex) : Prop where
  storage : Lists index.byStorageSlot (keyAt PoolLiquidityTarget.storageSlot index.targets)
  holders : Lists index.byTokenHolder (keyAt PoolLiquidityTarget.tokenHolder index.targets)
  freed : ∀ position target, index.targets[position]? = some target →
    target.active = false → position ∈ index.freeTargets

/-- The holder index lists exactly the active ERC-20 balances. -/
def HoldersListed (index : PoolLiquidityIndex) : Prop :=
  Lists index.byTokenHolder (keyAt PoolLiquidityTarget.tokenHolder index.targets)

/-- Every reverse index is exact. -/
structure ReverseIndexed (index : PoolLiquidityIndex) : Prop where
  wellFormed : index.WellFormed
  reversed : index.Reversed

theorem reverseIndexed_empty : empty.ReverseIndexed where
  wellFormed := wellFormed_empty
  reversed :=
    { storage := ⟨by simp [empty, keyAt], by simp [empty]⟩
      holders := ⟨by simp [empty, keyAt], by simp [empty]⟩
      freed := by simp [empty] }

section Push

variable {index : PoolLiquidityIndex} {pool : PoolKey} {token : Address}
  {source : LiquiditySource} {balance : BalanceState}

theorem keyAt_pushTargetWithBalance (hindex : index.WellFormed) {κ : Type}
    (key : PoolLiquidityTarget → Option κ) :
    keyAt key (index.pushTargetWithBalance pool token source balance).targets =
      Function.update (keyAt key index.targets) index.nextTarget
        (key ⟨token, source, balance, true⟩) := by
  funext position
  rw [keyAt, getElem?_pushTargetWithBalance hindex, Function.update_apply]
  split <;> rfl

theorem keyAt_nextTarget (hindex : index.WellFormed) {κ : Type}
    (key : PoolLiquidityTarget → Option κ) :
    keyAt key index.targets index.nextTarget = none := by
  unfold keyAt
  cases htarget : index.targets[index.nextTarget]? with
  | none => rfl
  | some target => simp [hindex.nextTarget_unused htarget]

/-- Pushing under an optional key. -/
theorem lists_pushTarget {κ : Type} [DecidableEq κ] {byKey : Map κ (List ℕ)}
    {key : PoolLiquidityTarget → Option κ} (hindex : index.WellFormed)
    (hlists : Lists byKey (keyAt key index.targets)) :
    Lists ((key ⟨token, source, balance, true⟩).elim byKey fun found =>
        pushIndex byKey found index.nextTarget)
      (keyAt key (index.pushTargetWithBalance pool token source balance).targets) := by
  rw [keyAt_pushTargetWithBalance hindex]
  have hnone := keyAt_nextTarget hindex key
  cases key ⟨token, source, balance, true⟩ with
  | none =>
      have hupdate : Function.update (keyAt key index.targets) index.nextTarget none =
          keyAt key index.targets := by
        conv_lhs => rw [← hnone, Function.update_eq_self]
      rw [hupdate]
      exact hlists
  | some found => exact hlists.push hnone found

theorem HoldersListed.pushTargetWithBalance (hlisted : index.HoldersListed)
    (hindex : index.WellFormed) :
    (index.pushTargetWithBalance pool token source balance).HoldersListed := by
  have hlists := @lists_pushTarget index pool token source balance _ _ _ _ hindex hlisted
  cases source <;> exact hlists

theorem Reversed.pushTargetWithBalance (hreversed : index.Reversed)
    (hindex : index.WellFormed) :
    (index.pushTargetWithBalance pool token source balance).Reversed where
  storage := by
    have hlists := @lists_pushTarget index pool token source balance _ _ _ _ hindex
      hreversed.storage
    have hstored : (index.pushTargetWithBalance pool token source balance).byStorageSlot =
        (source.storageSlot token).elim index.byStorageSlot fun slot =>
          pushIndex index.byStorageSlot slot index.nextTarget := by
      simp only [PoolLiquidityIndex.pushTargetWithBalance]
      cases source.storageSlot token <;> rfl
    rw [hstored]
    exact hlists
  holders := HoldersListed.pushTargetWithBalance hreversed.holders hindex
  freed position target htarget hinactive := by
    rw [getElem?_pushTargetWithBalance hindex] at htarget
    split at htarget
    · obtain rfl := Option.some.inj htarget
      cases hinactive
    · rename_i hne
      have hfree := hreversed.freed position target htarget hinactive
      change position ∈ index.freeTargets.dropLast
      rcases List.eq_nil_or_concat index.freeTargets with hnil | ⟨front, last, hconcat⟩
      · rw [hnil] at hfree
        cases hfree
      · rw [hconcat, List.concat_eq_append] at hfree ⊢
        rw [List.dropLast_concat]
        rcases List.mem_append.mp hfree with hfront | hlast
        · exact hfront
        · exfalso
          apply hne
          rw [List.mem_singleton.mp hlast, nextTarget, SlotTable.nextPosition, hconcat]
          simp

end Push

section Remove

variable {index : PoolLiquidityIndex} {pool : PoolKey}

theorem keyAt_set_inactive {κ : Type} (key : PoolLiquidityTarget → Option κ)
    {targets : List PoolLiquidityTarget} {position : ℕ} {target : PoolLiquidityTarget}
    (htarget : targets[position]? = some target) :
    keyAt key (targets.set position { target with active := false }) =
      Function.update (keyAt key targets) position none := by
  have hlt := (List.getElem?_eq_some_iff.mp htarget).1
  funext other
  rw [keyAt, List.getElem?_set, Function.update_apply]
  by_cases hother : position = other
  · simp [hother, hother ▸ hlt]
  · rw [if_neg hother, if_neg (Ne.symm hother)]
    rfl

/-- Removing under an optional key. -/
theorem lists_removeTarget {κ : Type} [DecidableEq κ] {byKey : Map κ (List ℕ)}
    {key : PoolLiquidityTarget → Option κ} {targets : List PoolLiquidityTarget}
    {position : ℕ} {target : PoolLiquidityTarget}
    (hlists : Lists byKey (keyAt key targets))
    (htarget : targets[position]? = some target) (hactive : target.active = true) :
    Lists ((key target).elim byKey fun found => removeReverseIndex byKey found position)
      (keyAt key (targets.set position { target with active := false })) := by
  rw [keyAt_set_inactive key htarget]
  have hkey : keyAt key targets position = key target := by
    simp [keyAt, htarget, hactive]
  cases hfound : key target with
  | none =>
      have hupdate : Function.update (keyAt key targets) position none =
          keyAt key targets := by
        conv_lhs => rw [← hfound, ← hkey, Function.update_eq_self]
      rw [hupdate]
      exact hlists
  | some found => exact hlists.remove (hkey.trans hfound)

theorem HoldersListed.removeTarget (hlisted : index.HoldersListed) (position : ℕ) :
    (PoolLiquidityIndex.removeTarget pool index position).HoldersListed := by
  unfold PoolLiquidityIndex.removeTarget
  cases htarget : index.targets[position]? with
  | none => exact hlisted
  | some target =>
      simp only
      by_cases hactive : target.active = true
      · simp only [hactive, Bool.not_true, Bool.false_eq_true, if_false]
        have hlists := lists_removeTarget hlisted htarget hactive
        obtain ⟨token, source, balance, active⟩ := target
        cases source <;> exact hlists
      · simp only [hactive, Bool.not_false, if_true]
        exact hlisted

theorem Reversed.removeTarget (hreversed : index.Reversed) (position : ℕ) :
    (PoolLiquidityIndex.removeTarget pool index position).Reversed := by
  have hholders := @HoldersListed.removeTarget index pool hreversed.holders position
  unfold PoolLiquidityIndex.removeTarget at hholders ⊢
  cases htarget : index.targets[position]? with
  | none => exact hreversed
  | some target =>
      simp only [htarget] at hholders
      simp only
      by_cases hactive : target.active = true
      · simp only [hactive, Bool.not_true, Bool.false_eq_true, if_false] at hholders ⊢
        refine ⟨?_, hholders, ?_⟩
        · have hlists := lists_removeTarget hreversed.storage htarget hactive
          cases hslot : target.storageSlot <;> rw [hslot] at hlists <;> exact hlists
        · intro other found hfound hinactive
          rw [List.getElem?_set] at hfound
          rw [List.mem_append, List.mem_singleton]
          split at hfound
          · rename_i heq
            exact Or.inr heq.symm
          · exact Or.inl (hreversed.freed other found hfound hinactive)
      · simp only [hactive, Bool.not_false, if_true]
        exact hreversed

end Remove

section Maintained

variable {index : PoolLiquidityIndex} {pool : PoolKey} {P : PoolLiquidityIndex → Prop}

/-- A property of the targets and the reverse indexes that pushing and releasing
one target keeps. -/
structure Maintained (P : PoolLiquidityIndex → Prop) : Prop where
  push : ∀ {index : PoolLiquidityIndex}, index.WellFormed → P index →
    ∀ pool token source balance, P (index.pushTargetWithBalance pool token source balance)
  remove : ∀ {index : PoolLiquidityIndex}, P index →
    ∀ pool position, P (PoolLiquidityIndex.removeTarget pool index position)
  files : ∀ {index : PoolLiquidityIndex}, P index →
    ∀ byPool counts, P { index with byPool := byPool, poolTokenCounts := counts }

theorem maintained_reversed : Maintained Reversed where
  push hindex hreversed _ _ _ _ := hreversed.pushTargetWithBalance hindex
  remove hreversed _ position := hreversed.removeTarget position
  files hreversed _ _ := ⟨hreversed.storage, hreversed.holders, hreversed.freed⟩

theorem maintained_holdersListed : Maintained HoldersListed where
  push hindex hlisted _ _ _ _ := hlisted.pushTargetWithBalance hindex
  remove hlisted _ position := hlisted.removeTarget position
  files hlisted _ _ := hlisted

theorem Maintained.pushTargets (hP : Maintained P) (hindex : index.WellFormed) (hhas : P index)
    {entries : List (Address × LiquiditySource × BalanceState)}
    (hnodup : (entries.map Prod.fst).Nodup)
    (hnew : ∀ entry ∈ entries, index.target pool entry.1 = none) :
    P (index.pushTargets pool entries) := by
  induction entries generalizing index with
  | nil => exact hhas
  | cons head rest ih =>
      rw [List.map_cons, List.nodup_cons] at hnodup
      rw [List.forall_mem_cons] at hnew
      have hpushed : (index.pushTargetWithBalance pool head.1 head.2.1 head.2.2).WellFormed :=
        hindex.pushTargetWithBalance (hindex.target_eq_none.mp hnew.1)
      apply ih hpushed (hP.push hindex hhas pool head.1 head.2.1 head.2.2) hnodup.2
      intro entry hentry
      rw [target_pushTargetWithBalance hindex, if_neg]
      · exact hnew.2 entry hentry
      · rintro ⟨_, heq⟩
        exact hnodup.1 (heq ▸ List.mem_map_of_mem hentry)

theorem Maintained.removePoolTargets (hP : Maintained P) (hhas : P index) (pool : PoolKey) :
    P (index.removePoolTargets pool) := by
  have hfold : ∀ (positions : List ℕ) (start : PoolLiquidityIndex), P start →
      P (positions.foldl (PoolLiquidityIndex.removeTarget pool) start) := by
    intro positions
    induction positions with
    | nil => exact fun _ hstart => hstart
    | cons head rest ih => exact fun start hstart => ih _ (hP.remove hstart pool head)
  unfold PoolLiquidityIndex.removePoolTargets
  split
  · exact hP.files hhas _ _
  · exact hP.files (hfold _ _ (hP.files hhas _ _)) _ _

end Maintained

section Construction

variable {G : Type} {registry : AdapterRegistry} {graph : AmmGraph G}
  {scope : LiquidityIndexScope} {index : PoolLiquidityIndex}

theorem Maintained.reconcilePool {P : PoolLiquidityIndex → Prop} (hP : Maintained P)
    (hindex : index.WellFormed) (hhas : P index) (report : PoolLiquidityMutationReport)
    (pool : PoolKey) :
    P (PoolLiquidityIndex.reconcilePool registry graph scope (index, report) pool).1 := by
  rw [reconcilePool_fst]
  obtain ⟨counts, hcounts⟩ := countPoolTokens_eq registry pool
    (index.reconciledTargets registry graph scope pool) (index.removePoolTargets pool)
  obtain ⟨hremoved, htargets, _⟩ := removePoolTargets_spec hindex pool
  rw [hcounts]
  apply hP.pushTargets (hremoved.of_counts counts)
  · exact hP.files (hP.removePoolTargets hhas pool) _ counts
  · exact nodup_reconciledEntries hindex pool
  · intro entry _
    have hnone := htargets pool entry.1
    rwa [if_pos rfl] at hnone

theorem wellFormed_reconcilePool (hindex : index.WellFormed)
    (report : PoolLiquidityMutationReport) (pool : PoolKey) :
    (reconcilePool registry graph scope (index, report) pool).1.WellFormed := by
  rw [reconcilePool_fst]
  obtain ⟨counts, hcounts⟩ := countPoolTokens_eq registry pool
    (index.reconciledTargets registry graph scope pool) (index.removePoolTargets pool)
  obtain ⟨hremoved, htargets, _⟩ := removePoolTargets_spec hindex pool
  rw [hcounts]
  refine (pushTargets_spec (hremoved.of_counts counts)
    (nodup_reconciledEntries hindex pool) ?_).1
  intro entry _
  have hnone := htargets pool entry.1
  rwa [if_pos rfl] at hnone

theorem Maintained.foldl_reconcilePool {P : PoolLiquidityIndex → Prop} (hP : Maintained P)
    (hindex : index.WellFormed) (hhas : P index) (report : PoolLiquidityMutationReport)
    (pools : List PoolKey) :
    (pools.foldl (PoolLiquidityIndex.reconcilePool registry graph scope)
      (index, report)).1.WellFormed ∧
    P (pools.foldl (PoolLiquidityIndex.reconcilePool registry graph scope)
      (index, report)).1 := by
  induction pools generalizing index report with
  | nil => exact ⟨hindex, hhas⟩
  | cons head rest ih =>
      exact ih (wellFormed_reconcilePool hindex report head)
        (hP.reconcilePool hindex hhas report head) _

theorem ReverseIndexed.foldl_reconcilePool (hindex : index.ReverseIndexed)
    (report : PoolLiquidityMutationReport) (pools : List PoolKey) :
    (pools.foldl (PoolLiquidityIndex.reconcilePool registry graph scope)
      (index, report)).1.ReverseIndexed := by
  have hdone := @Maintained.foldl_reconcilePool G registry graph scope index Reversed
    maintained_reversed hindex.wellFormed hindex.reversed report pools
  exact ⟨hdone.1, hdone.2⟩

/-- The targets that a full build pushes for a registration. -/
def builtEntries (tracked : Map PoolKey (Finset Address)) (pool : PoolRegistration) :
    List (Address × LiquiditySource × BalanceState) :=
  match tracked.lookup pool.key, pool.tokens with
  | some neededTokens, some tokens =>
      if (sortDedup tokens).length < 2 then []
      else (desiredTargets pool neededTokens).map fun entry => (entry.1, entry.2, .unknown)
  | _, _ => []

theorem nodup_builtEntries (tracked : Map PoolKey (Finset Address)) (pool : PoolRegistration) :
    ((builtEntries tracked pool).map Prod.fst).Nodup := by
  unfold builtEntries
  split
  · split
    · exact List.nodup_nil
    · rw [List.map_map]
      exact (desiredTargets_spec pool _).1
  · exact List.nodup_nil

/-- One registration of a full build pushes its targets with unknown balances. -/
theorem indexPool_fst (tracked : Map PoolKey (Finset Address))
    (state : PoolLiquidityIndex × ℕ) (pool : PoolRegistration) :
    ∃ counts, (indexPool tracked state pool).1 =
      { state.1 with poolTokenCounts := counts }.pushTargets pool.key
        (builtEntries tracked pool) := by
  -- The targets of one pool are pushed in token order.
  have hpush : ∀ (tokens : List Address) (source : Address → LiquiditySource)
      (start : PoolLiquidityIndex),
      tokens.foldl (fun index token => index.pushTarget pool.key token (source token)) start =
        start.pushTargets pool.key ((tokens.map fun token => (token, source token)).map
          fun entry => (entry.1, entry.2, .unknown)) := by
    intro tokens source start
    rw [List.map_map]
    unfold PoolLiquidityIndex.pushTargets
    rw [List.foldl_map]
    rfl
  unfold indexPool builtEntries
  cases htracked : tracked.lookup pool.key with
  | none => exact ⟨state.1.poolTokenCounts, rfl⟩
  | some needed =>
      cases htokens : pool.tokens with
      | none => exact ⟨state.1.poolTokenCounts, rfl⟩
      | some tokens =>
          simp only
          by_cases hfew : (sortDedup tokens).length < 2
          · rw [if_pos hfew, if_pos hfew]
            exact ⟨state.1.poolTokenCounts, rfl⟩
          · rw [if_neg hfew, if_neg hfew]
            refine ⟨state.1.poolTokenCounts.insert pool.key (sortDedup tokens).length, ?_⟩
            unfold desiredTargets
            simp only [htokens]
            by_cases hnone : ((sortDedup tokens).filter fun token => token ∈ needed) = []
            · rw [if_pos hnone, hnone]
              cases pool.metadata <;> rfl
            · rw [if_neg hnone]
              cases pool.metadata with
              | balancerV2 metadata =>
                  refine Eq.trans ?_ (hpush _ (balancerSource metadata) _)
                  exact (List.foldl_hom Prod.fst fun _ _ => rfl).symm
              | unknown => rfl
              | custom tag => rfl
              | uniswapV2 _ | uniswapV3 _ | pancakeV3 _ | slipstream _ | solidlyV2 _
              | curve _ =>
                  simp only
                  cases pool.key.address with
                  | none => exact hpush _ (fun _ => .unknown) _
                  | some holder => exact hpush _ (fun _ => .erc20Balance holder none) _

end Construction

end PoolLiquidityIndex

end AmmSearch
