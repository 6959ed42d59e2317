/-
What a liquidity index says: the source and the balance of each tracked pool-token
pair, and which pools have two tokens.  Each operation on a well-formed index is
described by its effect on this view.
-/
import AmmSearch.LiquidityTracking

open FiniteMap StableGraph

namespace AmmSearch

namespace PoolLiquidityIndex

/-- The source and the balance of a tracked pool-token pair. -/
def target (index : PoolLiquidityIndex) (pool : PoolKey) (token : Address) :
    Option (LiquiditySource × BalanceState) :=
  (index.byPoolToken.lookup (pool, token)).bind fun position =>
    (index.targets[position]?).map fun target => (target.source, target.balance)

/-- The positions of the tracked pairs are exactly the active slots, and the free slots
are inactive. -/
structure Located (index : PoolLiquidityIndex) : Prop where
  slots : SlotTable.Valid index.targets index.freeTargets
  located : ∀ pool token position, index.byPoolToken.lookup (pool, token) = some position →
    ∃ target, index.targets[position]? = some target ∧ target.active = true ∧
      target.token = token
  injective : ∀ key other position, index.byPoolToken.lookup key = some position →
    index.byPoolToken.lookup other = some position → key = other
  owned : ∀ position target, index.targets[position]? = some target →
    target.active = true → ∃ pool, index.byPoolToken.lookup (pool, target.token) =
      some position
  released : ∀ position ∈ index.freeTargets, ∀ target,
    index.targets[position]? = some target → target.active = false

/-- The positions are also filed under their pools. -/
structure WellFormed (index : PoolLiquidityIndex) : Prop extends Located index where
  mem_byPool : ∀ pool position, position ∈ (index.byPool.lookup pool).getD [] ↔
    ∃ token, index.byPoolToken.lookup (pool, token) = some position
  nodup_byPool : ∀ pool, ((index.byPool.lookup pool).getD []).Nodup

theorem wellFormed_empty : empty.WellFormed where
  slots := ⟨fun position hposition => absurd hposition List.not_mem_nil, List.nodup_nil⟩
  located pool token position hposition := by simp [empty] at hposition
  injective key other position hposition := by simp [empty] at hposition
  owned position target htarget := by simp [empty] at htarget
  released position hposition := absurd hposition List.not_mem_nil
  mem_byPool pool position := by simp [empty]
  nodup_byPool pool := by simp [empty]

section Push

variable {index : PoolLiquidityIndex} {pool : PoolKey} {token : Address}
  {source : LiquiditySource} {balance : BalanceState}

theorem getElem?_pushTargetWithBalance (hindex : index.WellFormed) (position : ℕ) :
    (index.pushTargetWithBalance pool token source balance).targets[position]? =
      if position = index.nextTarget then some ⟨token, source, balance, true⟩
      else index.targets[position]? :=
  SlotTable.getElem?_store hindex.slots _ position

theorem lookup_pushTargetWithBalance (key : PoolKey × Address) :
    (index.pushTargetWithBalance pool token source balance).byPoolToken.lookup key =
      if key = (pool, token) then some index.nextTarget
      else index.byPoolToken.lookup key :=
  lookup_insert_eq _ _ _ _

/-- The next position is not in use. -/
theorem WellFormed.nextTarget_unused (hindex : index.WellFormed) {other : PoolLiquidityTarget}
    (hother : index.targets[index.nextTarget]? = some other) : other.active = false := by
  obtain ⟨hfree, _⟩ | ⟨hnew, _⟩ := hindex.slots.nextPosition_cases
  · exact hindex.released _ hfree other hother
  · rw [nextTarget, hnew] at hother
    simp at hother

theorem WellFormed.ne_nextTarget (hindex : index.WellFormed) {key : PoolKey × Address}
    {position : ℕ} (hposition : index.byPoolToken.lookup key = some position) :
    position ≠ index.nextTarget := by
  rintro rfl
  obtain ⟨other, hother, hactive, _⟩ := hindex.located key.1 key.2 _ hposition
  rw [hindex.nextTarget_unused hother] at hactive
  cases hactive

theorem WellFormed.pushTargetWithBalance (hindex : index.WellFormed)
    (hnew : index.byPoolToken.lookup (pool, token) = none) :
    (index.pushTargetWithBalance pool token source balance).WellFormed := by
  refine ⟨⟨hindex.slots.store _, ?_, ?_, ?_, ?_⟩, ?_, ?_⟩
  · intro other otherToken position hposition
    rw [getElem?_pushTargetWithBalance hindex]
    rw [lookup_pushTargetWithBalance] at hposition
    split at hposition
    · rename_i hkey
      obtain rfl := Option.some.inj hposition
      rw [Prod.mk.injEq] at hkey
      exact ⟨_, if_pos rfl, rfl, hkey.2.symm⟩
    · rw [if_neg (hindex.ne_nextTarget hposition)]
      exact hindex.located other otherToken position hposition
  · intro key other position hkey hother
    rw [lookup_pushTargetWithBalance] at hkey hother
    split at hkey
    · rename_i hnewKey
      obtain rfl := Option.some.inj hkey
      split at hother
      · rename_i hnewOther
        exact hnewKey.trans hnewOther.symm
      · exact absurd rfl (hindex.ne_nextTarget hother)
    · split at hother
      · obtain rfl := Option.some.inj hother
        exact absurd rfl (hindex.ne_nextTarget hkey)
      · exact hindex.injective key other position hkey hother
  · intro position other hother hactive
    rw [getElem?_pushTargetWithBalance hindex] at hother
    split at hother
    · rename_i hposition
      obtain rfl := Option.some.inj hother
      exact ⟨pool, by rw [lookup_pushTargetWithBalance, if_pos rfl, hposition]⟩
    · obtain ⟨owner, howner⟩ := hindex.owned position other hother hactive
      refine ⟨owner, ?_⟩
      rw [lookup_pushTargetWithBalance, if_neg]
      · exact howner
      · intro hkey
        rw [hkey, hnew] at howner
        cases howner
  · intro position hposition other hother
    rw [getElem?_pushTargetWithBalance hindex, if_neg] at hother
    · exact hindex.released position ((List.dropLast_sublist _).subset hposition) other hother
    · rintro rfl
      exact hindex.slots.nextPosition_notMem hposition
  · intro other position
    change position ∈ ((pushIndex index.byPool pool index.nextTarget).lookup other).getD [] ↔ _
    rw [pushIndex, lookup_alter]
    simp only [lookup_pushTargetWithBalance, Prod.mk.injEq]
    by_cases hother : other = pool
    · subst hother
      rw [if_pos rfl, Option.getD_some, List.mem_append, List.mem_singleton,
        hindex.mem_byPool]
      constructor
      · rintro (⟨otherToken, hold⟩ | rfl)
        · refine ⟨otherToken, ?_⟩
          rw [if_neg]
          · exact hold
          · rintro ⟨_, rfl⟩
            rw [hnew] at hold
            cases hold
        · exact ⟨token, by simp⟩
      · rintro ⟨otherToken, hposition⟩
        split at hposition
        · exact Or.inr (Option.some.inj hposition).symm
        · exact Or.inl ⟨otherToken, hposition⟩
    · rw [if_neg hother, hindex.mem_byPool]
      simp [hother]
  · intro other
    change (((pushIndex index.byPool pool index.nextTarget).lookup other).getD []).Nodup
    rw [pushIndex, lookup_alter]
    split
    · rename_i hother
      rw [Option.getD_some]
      apply List.Nodup.append (hindex.nodup_byPool pool) (List.nodup_singleton _)
      intro position hposition hlast
      obtain ⟨otherToken, hold⟩ := (hindex.mem_byPool pool position).mp hposition
      exact hindex.ne_nextTarget hold (List.mem_singleton.mp hlast)
    · exact hindex.nodup_byPool other

theorem target_pushTargetWithBalance (hindex : index.WellFormed) (other : PoolKey)
    (otherToken : Address) :
    (index.pushTargetWithBalance pool token source balance).target other otherToken =
      if other = pool ∧ otherToken = token then some (source, balance)
      else index.target other otherToken := by
  unfold target
  rw [lookup_pushTargetWithBalance]
  simp only [Prod.mk.injEq]
  split
  · simp [getElem?_pushTargetWithBalance hindex]
  · cases hposition : index.byPoolToken.lookup (other, otherToken) with
    | none => rfl
    | some position =>
        simp only [Option.bind_some]
        rw [getElem?_pushTargetWithBalance hindex, if_neg (hindex.ne_nextTarget hposition)]

end Push

section Remove

variable {index : PoolLiquidityIndex} {pool : PoolKey}

/-- Releasing the position of a tracked pair. -/
theorem removeTarget_eq (hindex : index.Located) {token : Address} {position : ℕ}
    (hposition : index.byPoolToken.lookup (pool, token) = some position) :
    (removeTarget pool index position).byPoolToken = index.byPoolToken.erase (pool, token) ∧
      (removeTarget pool index position).byPool = index.byPool ∧
      (removeTarget pool index position).poolTokenCounts = index.poolTokenCounts ∧
      (removeTarget pool index position).freeTargets = index.freeTargets ++ [position] ∧
      ∃ target, index.targets[position]? = some target ∧
        (removeTarget pool index position).targets =
          index.targets.set position { target with active := false } := by
  obtain ⟨target, htarget, hactive, rfl⟩ := hindex.located pool token position hposition
  unfold removeTarget
  simp only [htarget, hactive, Bool.not_true, Bool.false_eq_true, if_false, true_and]
  exact ⟨target, rfl, rfl⟩

theorem Located.removeTarget (hindex : index.Located) {token : Address} {position : ℕ}
    (hposition : index.byPoolToken.lookup (pool, token) = some position) :
    (removeTarget pool index position).Located := by
  obtain ⟨hkeys, _, _, hfree, target, htarget, htargets⟩ := removeTarget_eq hindex hposition
  have hlt : position < index.targets.length := (List.getElem?_eq_some_iff.mp htarget).1
  have hused : position ∉ index.freeTargets := by
    intro hmem
    obtain ⟨other, hother, hactive, _⟩ := hindex.located pool token position hposition
    rw [hindex.released position hmem other hother] at hactive
    cases hactive
  have hget : ∀ other, (PoolLiquidityIndex.removeTarget pool index position).targets[other]? =
      if position = other then some { target with active := false }
      else index.targets[other]? := by
    intro other
    rw [htargets, List.getElem?_set]
    simp [hlt]
  refine ⟨?_, ?_, ?_, ?_, ?_⟩
  · rw [htargets, hfree]
    exact hindex.slots.release _ hlt hused
  · intro other otherToken found hfound
    rw [hkeys, lookup_erase_eq] at hfound
    split at hfound
    · cases hfound
    · rename_i hkey
      rw [hget, if_neg]
      · exact hindex.located other otherToken found hfound
      · rintro rfl
        exact hkey (hindex.injective _ _ _ hfound hposition)
  · intro key other found hkey hother
    rw [hkeys, lookup_erase_eq] at hkey hother
    split at hkey
    · cases hkey
    · split at hother
      · cases hother
      · exact hindex.injective key other found hkey hother
  · intro other found hfound hactive
    rw [hget] at hfound
    split at hfound
    · obtain rfl := Option.some.inj hfound
      cases hactive
    · rename_i hother
      obtain ⟨owner, howner⟩ := hindex.owned other found hfound hactive
      refine ⟨owner, ?_⟩
      rw [hkeys, lookup_erase_eq, if_neg]
      · exact howner
      · intro hkey
        rw [hkey, hposition, Option.some.injEq] at howner
        exact hother howner
  · intro other hother found hfound
    rw [hget] at hfound
    split at hfound
    · obtain rfl := Option.some.inj hfound
      rfl
    · rename_i hne
      rw [hfree] at hother
      obtain hold | hlast := List.mem_append.mp hother
      · exact hindex.released other hold found hfound
      · exact absurd (List.mem_singleton.mp hlast).symm hne

/-- Releasing positions of one pool. -/
theorem foldl_removeTarget (hindex : index.Located) {positions : List ℕ}
    (hnodup : positions.Nodup) (hpositions : ∀ position ∈ positions, ∃ token,
      index.byPoolToken.lookup (pool, token) = some position) :
    let removed := positions.foldl (removeTarget pool) index
    removed.Located ∧ removed.byPool = index.byPool ∧
      removed.poolTokenCounts = index.poolTokenCounts ∧
      (∀ key, removed.byPoolToken.lookup key =
        if key.1 = pool ∧ ∃ position ∈ positions, index.byPoolToken.lookup key = some position
        then none else index.byPoolToken.lookup key) ∧
      ∀ position, position ∉ positions →
        removed.targets[position]? = index.targets[position]? := by
  induction positions generalizing index with
  | nil => exact ⟨hindex, rfl, rfl, by simp, fun _ _ => rfl⟩
  | cons head rest ih =>
      obtain ⟨token, htoken⟩ := hpositions head List.mem_cons_self
      obtain ⟨hkeys, hpool, hcounts, _, target, _, htargets⟩ := removeTarget_eq hindex htoken
      rw [List.nodup_cons] at hnodup
      have hrest : ∀ position ∈ rest, ∃ token,
          (removeTarget pool index head).byPoolToken.lookup (pool, token) = some position := by
        intro position hposition
        obtain ⟨other, hother⟩ := hpositions position (List.mem_cons_of_mem head hposition)
        refine ⟨other, ?_⟩
        rw [hkeys, lookup_erase_eq, if_neg]
        · exact hother
        · intro hkey
          rw [hkey, htoken, Option.some.injEq] at hother
          exact hnodup.1 (hother ▸ hposition)
      obtain ⟨hlocated, hpool', hcounts', hlookup, hget⟩ :=
        ih (hindex.removeTarget htoken) hnodup.2 hrest
      refine ⟨hlocated, hpool'.trans hpool, hcounts'.trans hcounts, ?_, ?_⟩
      · intro key
        rw [List.foldl_cons, hlookup, hkeys, lookup_erase_eq]
        by_cases hkey : key = (pool, token)
        · subst hkey
          simp [htoken]
        · have hhead : index.byPoolToken.lookup key ≠ some head := fun hfound =>
            hkey (hindex.injective _ _ _ hfound htoken)
          simp [hkey, hhead]
      · intro position hposition
        rw [List.mem_cons, not_or] at hposition
        rw [List.foldl_cons, hget position hposition.2, htargets, List.getElem?_set,
          if_neg (Ne.symm hposition.1)]

theorem removePoolTargets_spec (hindex : index.WellFormed) (pool : PoolKey) :
    (index.removePoolTargets pool).WellFormed ∧
      (∀ other token, (index.removePoolTargets pool).target other token =
        if other = pool then none else index.target other token) ∧
      (index.removePoolTargets pool).poolTokenCounts = index.poolTokenCounts.erase pool := by
  unfold removePoolTargets
  split
  · rename_i hnone
    have hempty : ∀ token, index.byPoolToken.lookup (pool, token) = none := by
      intro token
      cases hposition : index.byPoolToken.lookup (pool, token) with
      | none => rfl
      | some position =>
          have hmem := (hindex.mem_byPool pool position).mpr ⟨token, hposition⟩
          rw [hnone] at hmem
          exact absurd hmem List.not_mem_nil
    refine ⟨⟨⟨hindex.slots, hindex.located, hindex.injective, hindex.owned,
      hindex.released⟩, hindex.mem_byPool, hindex.nodup_byPool⟩, ?_, rfl⟩
    intro other token
    by_cases hother : other = pool
    · subst hother
      simp [target, hempty]
    · rw [if_neg hother]
      rfl
  · rename_i positions hpositions
    let unfiled : PoolLiquidityIndex := { index with byPool := index.byPool.erase pool }
    have hmem : ∀ position, position ∈ positions ↔
        ∃ token, index.byPoolToken.lookup (pool, token) = some position := by
      intro position
      rw [← hindex.mem_byPool, hpositions, Option.getD_some]
    have hnodup : positions.Nodup := by
      have hnodup := hindex.nodup_byPool pool
      rwa [hpositions] at hnodup
    have hunfiled : unfiled.Located :=
      ⟨hindex.slots, hindex.located, hindex.injective, hindex.owned, hindex.released⟩
    obtain ⟨hlocated, hpool, hcounts, hlookup, hget⟩ := @foldl_removeTarget unfiled pool
      hunfiled positions hnodup fun position hposition => (hmem position).mp hposition
    have hkeys : ∀ key, (positions.foldl (removeTarget pool) unfiled).byPoolToken.lookup key =
        if key.1 = pool then none else index.byPoolToken.lookup key := by
      rintro ⟨other, token⟩
      rw [hlookup]
      change (if other = pool ∧ ∃ position ∈ positions,
        index.byPoolToken.lookup (other, token) = some position then none
        else index.byPoolToken.lookup (other, token)) = _
      by_cases hother : other = pool
      · subst hother
        cases hposition : index.byPoolToken.lookup (other, token) with
        | none => simp
        | some position => simp [(hmem position).mpr ⟨token, hposition⟩]
      · simp [hother]
    refine ⟨⟨⟨hlocated.slots, hlocated.located, hlocated.injective, hlocated.owned,
      hlocated.released⟩, ?_, ?_⟩, ?_, ?_⟩
    · intro other position
      change position ∈ ((positions.foldl (removeTarget pool) unfiled).byPool.lookup
        other).getD [] ↔ ∃ token, (positions.foldl (removeTarget pool)
          unfiled).byPoolToken.lookup (other, token) = some position
      rw [hpool]
      change position ∈ ((index.byPool.erase pool).lookup other).getD [] ↔ _
      simp only [hkeys, lookup_erase_eq]
      by_cases hother : other = pool
      · simp [hother]
      · simp only [hother, if_false]
        exact hindex.mem_byPool other position
    · intro other
      change (((positions.foldl (removeTarget pool) unfiled).byPool.lookup other).getD []).Nodup
      rw [hpool]
      change (((index.byPool.erase pool).lookup other).getD []).Nodup
      rw [lookup_erase_eq]
      split
      · exact List.nodup_nil
      · exact hindex.nodup_byPool other
    · intro other token
      unfold target
      change (((positions.foldl (removeTarget pool) unfiled).byPoolToken.lookup
        (other, token)).bind fun position => ((positions.foldl (removeTarget pool)
          unfiled).targets[position]?).map fun target => (target.source, target.balance)) = _
      rw [hkeys]
      by_cases hother : other = pool
      · simp [hother]
      · simp only [hother, if_false]
        cases hposition : index.byPoolToken.lookup (other, token) with
        | none => rfl
        | some position =>
            simp only [Option.bind_some]
            rw [hget]
            intro hremoved
            obtain ⟨otherToken, hfound⟩ := (hmem position).mp hremoved
            have hkey := hindex.injective _ _ _ hposition hfound
            exact hother (congrArg Prod.fst hkey)
    · change (positions.foldl (removeTarget pool) unfiled).poolTokenCounts.erase pool = _
      rw [hcounts]

end Remove

section Previous

variable {index : PoolLiquidityIndex} {pool : PoolKey} {token : Address}

/-- A well-formed index tracks a pair exactly when the pair has a position. -/
theorem WellFormed.target_eq_none (hindex : index.WellFormed) :
    index.target pool token = none ↔ index.byPoolToken.lookup (pool, token) = none := by
  unfold target
  cases hposition : index.byPoolToken.lookup (pool, token) with
  | none => simp
  | some position =>
      obtain ⟨found, hfound, _, _⟩ := hindex.located pool token position hposition
      simp [hfound]

theorem previousTargets_lookup (hindex : index.WellFormed) :
    (index.previousTargets pool).lookup token = index.target pool token := by
  let previous := (((index.byPool.lookup pool).getD []).filterMap fun position =>
    index.targets[position]?).filter PoolLiquidityTarget.active
  have hmem : ∀ found, found ∈ previous ↔ ∃ token position,
      index.byPoolToken.lookup (pool, token) = some position ∧
        index.targets[position]? = some found := by
    intro found
    rw [List.mem_filter, List.mem_filterMap]
    constructor
    · rintro ⟨⟨position, hposition, hfound⟩, _⟩
      obtain ⟨token, htoken⟩ := (hindex.mem_byPool pool position).mp hposition
      exact ⟨token, position, htoken, hfound⟩
    · rintro ⟨token, position, htoken, hfound⟩
      obtain ⟨other, hother, hactive, _⟩ := hindex.located pool token position htoken
      obtain rfl := Option.some.inj (hfound.symm.trans hother)
      exact ⟨⟨position, (hindex.mem_byPool pool position).mpr ⟨token, htoken⟩, hfound⟩,
        hactive⟩
  have htoken : ∀ found token position, index.byPoolToken.lookup (pool, token) =
      some position → index.targets[position]? = some found → found.token = token := by
    intro found token position hposition hfound
    obtain ⟨other, hother, _, rfl⟩ := hindex.located pool token position hposition
    rw [Option.some.inj (hfound.symm.trans hother)]
  have hsame : ∀ left ∈ previous, ∀ right ∈ previous, left.token = right.token →
      (left.source, left.balance) = (right.source, right.balance) := by
    intro left hleft right hright heq
    obtain ⟨_, position, hposition, hleft⟩ := (hmem left).mp hleft
    obtain ⟨_, position', hposition', hright⟩ := (hmem right).mp hright
    obtain rfl := htoken left _ _ hposition hleft
    obtain rfl := htoken right _ _ hposition' hright
    rw [heq, hposition', Option.some.injEq] at hposition
    subst hposition
    rw [Option.some.inj (hleft.symm.trans hright)]
  apply Option.ext
  intro found
  unfold previousTargets
  rw [lookup_foldl_insert_iff hsame]
  simp only [Finmap.lookup_empty, reduceCtorEq, and_false, or_false]
  unfold target
  constructor
  · rintro ⟨entry, hentry, rfl, rfl⟩
    obtain ⟨other, position, hposition, hfound⟩ := (hmem entry).mp hentry
    obtain rfl := htoken entry _ _ hposition hfound
    simp [hposition, hfound]
  · intro htarget
    obtain ⟨position, hposition, hfound⟩ := Option.bind_eq_some_iff.mp htarget
    obtain ⟨entry, hentry, rfl⟩ := Option.map_eq_some_iff.mp hfound
    exact ⟨entry, (hmem entry).mpr ⟨token, position, hposition, hentry⟩,
      htoken entry token position hposition hentry, rfl⟩

end Previous

section PushAll

variable {index : PoolLiquidityIndex} {pool : PoolKey}

/-- Push targets of one pool in order. -/
def pushTargets (index : PoolLiquidityIndex) (pool : PoolKey)
    (entries : List (Address × LiquiditySource × BalanceState)) : PoolLiquidityIndex :=
  entries.foldl (fun index entry =>
    index.pushTargetWithBalance pool entry.1 entry.2.1 entry.2.2) index

theorem pushTargets_spec (hindex : index.WellFormed)
    {entries : List (Address × LiquiditySource × BalanceState)}
    (hnodup : (entries.map Prod.fst).Nodup)
    (hnew : ∀ entry ∈ entries, index.target pool entry.1 = none) :
    (index.pushTargets pool entries).WellFormed ∧
      (index.pushTargets pool entries).poolTokenCounts = index.poolTokenCounts ∧
      ∀ other token, (index.pushTargets pool entries).target other token =
        if other = pool then (entries.lookup token).or (index.target other token)
        else index.target other token := by
  unfold pushTargets
  induction entries generalizing index with
  | nil => exact ⟨hindex, rfl, by simp⟩
  | cons head rest ih =>
      rw [List.map_cons, List.nodup_cons] at hnodup
      rw [List.forall_mem_cons] at hnew
      have hpushed : (index.pushTargetWithBalance pool head.1 head.2.1 head.2.2).WellFormed :=
        hindex.pushTargetWithBalance (hindex.target_eq_none.mp hnew.1)
      have hne : ∀ entry ∈ rest, entry.1 ≠ head.1 := by
        intro entry hentry heq
        exact hnodup.1 (heq ▸ List.mem_map_of_mem hentry)
      obtain ⟨hrest, hcounts, htarget⟩ := ih hpushed hnodup.2 (by
        intro entry hentry
        rw [target_pushTargetWithBalance hindex, if_neg fun hkey => hne entry hentry hkey.2]
        exact hnew.2 entry hentry)
      refine ⟨hrest, hcounts, ?_⟩
      intro other token
      rw [List.foldl_cons, htarget, target_pushTargetWithBalance hindex]
      by_cases hother : other = pool
      · subst hother
        obtain ⟨headToken, value⟩ := head
        simp only [if_true, true_and, List.lookup_cons]
        by_cases htoken : token = headToken
        · subst htoken
          have hnone : rest.lookup token = none := by
            rw [List.lookup_eq_none_iff]
            intro entry hentry
            simpa using Ne.symm (hne entry hentry)
          simp [hnone]
        · have hbeq : (token == headToken) = false := beq_eq_false_iff_ne.mpr htoken
          simp [htoken, hbeq]
      · simp [hother]

end PushAll

end PoolLiquidityIndex

end AmmSearch
