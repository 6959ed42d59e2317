/-
What holds of the shared quote cache in every interleaving.  The pool index files
exactly the cached keys, each under its own pool.  Without invalidations and
panics a key is absent, in flight for one call, or ready with the result of one.
-/
import AmmSearch.SharedQuoteCache

open FiniteMap

namespace AmmSearch

namespace SharedQuoteCache

/-- The keys in `entries` are the disjoint union of the sets in `keysByPool`. -/
structure Consistent (cache : SharedQuoteCache) : Prop where
  mem_entries : ∀ key, key ∈ cache.entries ↔
    ∃ pool keys, cache.keysByPool.lookup pool = some keys ∧ key ∈ keys
  disjoint : ∀ left right leftKeys rightKeys, left ≠ right →
    cache.keysByPool.lookup left = some leftKeys →
    cache.keysByPool.lookup right = some rightKeys → Disjoint leftKeys rightKeys
  logicalPool : ∀ pool keys, cache.keysByPool.lookup pool = some keys →
    ∀ key ∈ keys, key.logicalPool = pool
  nonempty : ∀ pool keys, cache.keysByPool.lookup pool = some keys → keys.Nonempty

/-- The keys filed under `pool`. -/
def filed (cache : SharedQuoteCache) (pool : PoolKey) : Finset HopQuoteKey :=
  (cache.keysByPool.lookup pool).getD ∅

/-- The form of consistency that the operations preserve. -/
structure Filed (cache : SharedQuoteCache) : Prop where
  mem_filed : ∀ pool key, key ∈ cache.filed pool ↔
    key ∈ cache.entries ∧ key.logicalPool = pool
  nonempty : ∀ pool, cache.keysByPool.lookup pool ≠ some ∅

theorem mem_filed_iff {cache : SharedQuoteCache} {pool : PoolKey} {key : HopQuoteKey} :
    key ∈ cache.filed pool ↔
      ∃ keys, cache.keysByPool.lookup pool = some keys ∧ key ∈ keys := by
  unfold filed
  cases cache.keysByPool.lookup pool with
  | none => simp
  | some keys => simp

theorem Filed.consistent {cache : SharedQuoteCache} (hfiled : cache.Filed) :
    cache.Consistent := by
  have hown : ∀ pool keys, cache.keysByPool.lookup pool = some keys →
      ∀ key ∈ keys, key.logicalPool = pool := by
    intro pool keys hkeys key hkey
    exact ((hfiled.mem_filed pool key).mp (mem_filed_iff.mpr ⟨keys, hkeys, hkey⟩)).2
  refine ⟨?_, ?_, hown, ?_⟩
  · intro key
    constructor
    · intro hkey
      have hmem := (hfiled.mem_filed key.logicalPool key).mpr ⟨hkey, rfl⟩
      exact ⟨key.logicalPool, mem_filed_iff.mp hmem⟩
    · rintro ⟨pool, hkeys⟩
      exact ((hfiled.mem_filed pool key).mp (mem_filed_iff.mpr hkeys)).1
  · intro left right leftKeys rightKeys hne hleft hright
    rw [Finset.disjoint_left]
    intro key hkeyLeft hkeyRight
    exact hne ((hown left leftKeys hleft key hkeyLeft).symm.trans
      (hown right rightKeys hright key hkeyRight))
  · intro pool keys hkeys
    rw [Finset.nonempty_iff_ne_empty]
    rintro rfl
    exact hfiled.nonempty pool hkeys

theorem filed_empty : empty.Filed where
  mem_filed := by
    intro pool key
    have habsent : key ∉ (∅ : Map HopQuoteKey QuoteCacheState) := Finmap.notMem_empty
    constructor
    · intro hkey
      cases hkey
    · intro hkey
      exact absurd hkey.1 habsent
  nonempty := by simp [empty]

theorem mem_insert_entries {entries : Map HopQuoteKey QuoteCacheState}
    {key other : HopQuoteKey} {state : QuoteCacheState} :
    other ∈ entries.insert key state ↔ other = key ∨ other ∈ entries :=
  Finmap.mem_insert

theorem Filed.poll {cache : SharedQuoteCache} (hfiled : cache.Filed)
    (key : HopQuoteKey) : (cache.poll key).2.Filed := by
  unfold SharedQuoteCache.poll
  split
  · exact ⟨hfiled.mem_filed, hfiled.nonempty⟩
  · exact ⟨hfiled.mem_filed, hfiled.nonempty⟩
  · refine ⟨?_, ?_⟩
    · intro pool other
      simp only [filed, lookup_alter, mem_insert_entries]
      by_cases hpool : pool = key.logicalPool
      · subst hpool
        have hother := hfiled.mem_filed key.logicalPool other
        unfold filed at hother
        rw [if_pos rfl, Option.getD_some, Finset.mem_insert, hother]
        constructor
        · rintro (rfl | ⟨hmem, hown⟩)
          · exact ⟨Or.inl rfl, rfl⟩
          · exact ⟨Or.inr hmem, hown⟩
        · rintro ⟨rfl | hmem, hown⟩
          · exact Or.inl rfl
          · exact Or.inr ⟨hmem, hown⟩
      · have hother := hfiled.mem_filed pool other
        unfold filed at hother
        rw [if_neg hpool, hother]
        constructor
        · rintro ⟨hmem, hown⟩
          exact ⟨Or.inr hmem, hown⟩
        · rintro ⟨rfl | hmem, hown⟩
          · exact absurd hown.symm hpool
          · exact ⟨hmem, hown⟩
    · intro pool
      rw [lookup_alter]
      split
      · simp
      · exact hfiled.nonempty pool

theorem Filed.store {cache : SharedQuoteCache} (hfiled : cache.Filed)
    (key : HopQuoteKey) (entry : Except Text U256) : (cache.store key entry).Filed := by
  unfold SharedQuoteCache.store
  split
  · rename_i hflight
    refine ⟨?_, hfiled.nonempty⟩
    intro pool other
    refine (hfiled.mem_filed pool other).trans ?_
    rw [mem_insert_entries]
    constructor
    · rintro ⟨hmem, hown⟩
      exact ⟨Or.inr hmem, hown⟩
    · rintro ⟨rfl | hmem, hown⟩
      · exact ⟨Finmap.mem_of_lookup_eq_some hflight, hown⟩
      · exact ⟨hmem, hown⟩
  · exact hfiled

theorem Filed.dropGuard {cache : SharedQuoteCache} (hfiled : cache.Filed)
    (key : HopQuoteKey) : (cache.dropGuard key).Filed := by
  refine ⟨?_, ?_⟩
  · intro pool other
    have hother := hfiled.mem_filed pool other
    simp only [SharedQuoteCache.dropGuard, removeQuoteKeyFromPoolIndex, filed, lookup_alter,
      Finmap.mem_erase] at hother ⊢
    by_cases hpool : pool = key.logicalPool
    · subst hpool
      rw [if_pos rfl]
      have hgetD : ((cache.keysByPool.lookup key.logicalPool).map
          (fun keys => keys.erase key) |>.filter (· ≠ ∅)).getD ∅ =
            ((cache.keysByPool.lookup key.logicalPool).getD ∅).erase key := by
        cases cache.keysByPool.lookup key.logicalPool with
        | none => simp
        | some keys =>
            by_cases hempty : keys.erase key = ∅
            · simp [Option.filter, hempty]
            · simp [Option.filter, hempty]
      rw [hgetD, Finset.mem_erase, hother, and_assoc]
    · rw [if_neg hpool, hother]
      constructor
      · rintro ⟨hmem, hown⟩
        refine ⟨⟨?_, hmem⟩, hown⟩
        rintro rfl
        exact hpool hown.symm
      · rintro ⟨⟨_, hmem⟩, hown⟩
        exact ⟨hmem, hown⟩
  · intro pool
    simp only [SharedQuoteCache.dropGuard, removeQuoteKeyFromPoolIndex, lookup_alter]
    split
    · simp [Option.filter_eq_some_iff]
    · exact hfiled.nonempty pool

theorem lookup_foldl_erase (keys : Multiset HopQuoteKey)
    (entries : Map HopQuoteKey QuoteCacheState) (key : HopQuoteKey) :
    (keys.foldl (fun entries key => entries.erase key) entries).lookup key =
      if key ∈ keys then none else entries.lookup key := by
  induction keys using Multiset.induction generalizing entries with
  | empty => simp
  | cons head rest ih =>
      rw [Multiset.foldl_cons, ih, lookup_erase_eq]
      by_cases hhead : key = head
      · simp [hhead]
      · simp [hhead]

theorem Filed.lookup_invalidatePool {cache : SharedQuoteCache} (hfiled : cache.Filed)
    (pool : PoolKey) (key : HopQuoteKey) :
    (cache.invalidatePool pool).entries.lookup key =
      if key.logicalPool = pool then none else cache.entries.lookup key := by
  have hkey := hfiled.mem_filed pool key
  rw [mem_filed_iff] at hkey
  unfold invalidatePool
  split
  · rename_i hnone
    split
    · rename_i hown
      rw [hnone] at hkey
      have habsent : key ∉ cache.entries := by
        intro hmem
        obtain ⟨keys, hkeys, _⟩ := hkey.mpr ⟨hmem, hown⟩
        cases hkeys
      exact Finmap.lookup_eq_none.mpr habsent
    · rfl
  · rename_i keys hkeys
    rw [lookup_foldl_erase]
    simp only [hkeys, Option.some.injEq, exists_eq_left', Finset.mem_val] at hkey ⊢
    by_cases hown : key.logicalPool = pool
    · rw [if_pos hown]
      split
      · rfl
      · rename_i habsent
        refine Finmap.lookup_eq_none.mpr fun hmem => habsent (hkey.mpr ⟨hmem, hown⟩)
    · rw [if_neg hown, if_neg fun hmem => hown (hkey.mp hmem).2]

theorem Filed.invalidatePool {cache : SharedQuoteCache} (hfiled : cache.Filed)
    (pool : PoolKey) : (cache.invalidatePool pool).Filed := by
  have hindex : ∀ other, (cache.invalidatePool pool).keysByPool.lookup other =
      if other = pool then none else cache.keysByPool.lookup other := by
    intro other
    unfold SharedQuoteCache.invalidatePool
    split
    · rename_i hnone
      split
      · rename_i hother
        rw [hother, hnone]
      · rfl
    · exact lookup_erase_eq _ _ _
  refine ⟨?_, ?_⟩
  · intro other key
    have hmem : key ∈ (cache.invalidatePool pool).entries ↔
        key.logicalPool ≠ pool ∧ key ∈ cache.entries := by
      rw [← Finmap.lookup_isSome, hfiled.lookup_invalidatePool, ← Finmap.lookup_isSome]
      split
      · rename_i hown
        simp [hown]
      · rename_i hown
        simp [hown]
    have hother := hfiled.mem_filed other key
    unfold filed at hother ⊢
    rw [hindex, hmem]
    split
    · rename_i heq
      subst heq
      simp
      tauto
    · rename_i hne
      rw [hother]
      constructor
      · rintro ⟨hentry, hown⟩
        exact ⟨⟨hown ▸ hne, hentry⟩, hown⟩
      · rintro ⟨⟨_, hentry⟩, hown⟩
        exact ⟨hentry, hown⟩
  · intro other
    rw [hindex]
    split
    · simp
    · exact hfiled.nonempty other

theorem Filed.invalidatePools {cache : SharedQuoteCache} (hfiled : cache.Filed)
    (pools : List PoolKey) :
    (cache.invalidatePools pools).Filed ∧ ∀ key,
      (cache.invalidatePools pools).entries.lookup key =
        if key.logicalPool ∈ pools then none else cache.entries.lookup key := by
  induction pools generalizing cache with
  | nil => exact ⟨hfiled, fun key => by simp [SharedQuoteCache.invalidatePools]⟩
  | cons pool rest ih =>
      obtain ⟨hrest, hlookup⟩ := ih (hfiled.invalidatePool pool)
      refine ⟨hrest, fun key => (hlookup key).trans ?_⟩
      rw [hfiled.lookup_invalidatePool]
      by_cases hown : key.logicalPool = pool
      · simp [hown]
      · simp [hown]

end SharedQuoteCache

namespace CacheRun

theorem Moves.filed {run next : CacheRun} {event : CacheEvent}
    (hmove : Moves run event next) (hfiled : run.cache.Filed) : next.cache.Filed := by
  cases hmove with
  | idle => exact hfiled
  | call => exact hfiled
  | hit => exact ⟨hfiled.mem_filed, hfiled.nonempty⟩
  | wait => exact ⟨hfiled.mem_filed, hfiled.nonempty⟩
  | begin => exact hfiled.poll _
  | quoted => exact ⟨hfiled.mem_filed, hfiled.nonempty⟩
  | @publish index call entry hcall hphase hflight =>
      have hstore := hfiled.store call.key entry
      rw [SharedQuoteCache.store, if_pos hflight] at hstore
      exact hstore
  | discard => exact hfiled
  | panic => exact hfiled.dropGuard _
  | invalidate pools => exact (hfiled.invalidatePools pools).1

theorem filed_run (events : List CacheEvent) : (run events).cache.Filed := by
  induction events using List.reverseRecOn with
  | nil => exact SharedQuoteCache.filed_empty
  | append_singleton events event ih =>
      rw [run_append_singleton]
      exact (moves_step _ event).filed ih

/-- The call has neither started a quote nor got an answer. -/
def Waiting (call : QuoteCall) : Prop :=
  call.phase = .polling ∧ call.miss = false

/-- The state of one key while nothing is invalidated and nothing panics: absent
and not yet polled, in flight for one call, or ready with the result of one. -/
inductive QuotedOnce (run : CacheRun) (key : HopQuoteKey) : Prop
  | absent (hlookup : run.cache.entries.lookup key = none)
      (hcalls : ∀ (index : ℕ) call, run.calls[index]? = some call → call.key = key →
        Waiting call)
  | inFlight (owner : ℕ) (call : QuoteCall)
      (hlookup : run.cache.entries.lookup key = some .inFlight)
      (hcall : run.calls[owner]? = some call) (hkey : call.key = key)
      (hmiss : call.miss = true)
      (hphase : call.phase = .quoting ∨ ∃ entry, call.phase = .storing entry)
      (hcalls : ∀ (index : ℕ) other, index ≠ owner → run.calls[index]? = some other →
        other.key = key → Waiting other)
  | ready (owner : ℕ) (call : QuoteCall) (entry : Except Text U256)
      (hlookup : run.cache.entries.lookup key = some (.ready entry))
      (howner : run.owner.lookup key = some owner)
      (hcall : run.calls[owner]? = some call) (hkey : call.key = key)
      (hmiss : call.miss = true) (hphase : call.phase = .returned entry owner)
      (hcalls : ∀ (index : ℕ) other, index ≠ owner → run.calls[index]? = some other →
        other.key = key →
        Waiting other ∨ (other.miss = false ∧ other.phase = .returned entry owner))

/-- The key keeps its state when its entry stays and only waiting calls join. -/
theorem QuotedOnce.frame {run next : CacheRun} {key : HopQuoteKey}
    (honce : run.QuotedOnce key)
    (hentry : next.cache.entries.lookup key = run.cache.entries.lookup key)
    (howner : next.owner.lookup key = run.owner.lookup key)
    (hkept : ∀ (index : ℕ) call, run.calls[index]? = some call → call.key = key →
      next.calls[index]? = some call)
    (hjoined : ∀ (index : ℕ) call, next.calls[index]? = some call → call.key = key →
      run.calls[index]? = some call ∨ Waiting call) : next.QuotedOnce key := by
  cases honce with
  | absent hlookup hcalls =>
      refine .absent (hentry.trans hlookup) ?_
      intro index call hcall hkey
      obtain hold | hwaiting := hjoined index call hcall hkey
      · exact hcalls index call hold hkey
      · exact hwaiting
  | inFlight owner call hlookup hcall hkey hmiss hphase hcalls =>
      refine .inFlight owner call (hentry.trans hlookup) (hkept owner call hcall hkey)
        hkey hmiss hphase ?_
      intro index other hne hother hotherKey
      obtain hold | hwaiting := hjoined index other hother hotherKey
      · exact hcalls index other hne hold hotherKey
      · exact hwaiting
  | ready owner call entry hlookup hown hcall hkey hmiss hphase hcalls =>
      refine .ready owner call entry (hentry.trans hlookup) (howner.trans hown)
        (hkept owner call hcall hkey) hkey hmiss hphase ?_
      intro index other hne hother hotherKey
      obtain hold | hwaiting := hjoined index other hother hotherKey
      · exact hcalls index other hne hold hotherKey
      · exact Or.inl hwaiting

theorem getElem?_update_self {run : CacheRun} {index : ℕ} {call : QuoteCall}
    (hcall : run.calls[index]? = some call) (updated : QuoteCall) :
    (run.update index updated).calls[index]? = some updated := by
  have hlt : index < run.calls.length := (List.getElem?_eq_some_iff.mp hcall).1
  exact List.getElem?_set_self hlt

theorem getElem?_update_ne (run : CacheRun) {index other : ℕ} (hne : other ≠ index)
    (updated : QuoteCall) :
    (run.update index updated).calls[other]? = run.calls[other]? :=
  List.getElem?_set_ne hne.symm

/-- Another key keeps its state when a call is replaced. -/
theorem QuotedOnce.update_of_ne {run : CacheRun} {key : HopQuoteKey} {index : ℕ}
    {call updated : QuoteCall} (honce : run.QuotedOnce key)
    (hcall : run.calls[index]? = some call) (hne : call.key ≠ key)
    (hkey : updated.key = call.key) : (run.update index updated).QuotedOnce key := by
  refine honce.frame rfl rfl ?_ ?_
  · intro other found hfound hfoundKey
    by_cases hother : other = index
    · rw [hother, hcall, Option.some.injEq] at hfound
      exact absurd (hfound ▸ hfoundKey) hne
    · rwa [getElem?_update_ne run hother]
  · intro other found hfound hfoundKey
    by_cases hother : other = index
    · rw [hother, getElem?_update_self hcall, Option.some.injEq] at hfound
      rw [← hfound, hkey] at hfoundKey
      exact absurd hfoundKey hne
    · rw [getElem?_update_ne run hother] at hfound
      exact Or.inl hfound

/-- A cache with the same entry for the key. -/
theorem QuotedOnce.of_cache {run : CacheRun} {key : HopQuoteKey}
    (honce : run.QuotedOnce key) {cache : SharedQuoteCache} {owner : Map HopQuoteKey ℕ}
    (hentry : cache.entries.lookup key = run.cache.entries.lookup key)
    (howner : owner.lookup key = run.owner.lookup key) :
    QuotedOnce { run with cache := cache, owner := owner } key :=
  honce.frame hentry howner (fun _ _ hcall _ => hcall) fun _ _ hcall _ => Or.inl hcall

/-- A call that has not started is the one the key's state treats as waiting. -/
theorem QuotedOnce.waiting {run : CacheRun} {key : HopQuoteKey}
    (honce : run.QuotedOnce key) {index : ℕ} {call : QuoteCall}
    (hcall : run.calls[index]? = some call) (hkey : call.key = key)
    (hphase : call.phase = .polling) : call.miss = false := by
  cases honce with
  | absent hlookup hcalls => exact (hcalls index call hcall hkey).2
  | inFlight owner started hlookup hstarted hstartedKey hmiss hstartedPhase hcalls =>
      by_cases hne : index = owner
      · rw [hne, hstarted, Option.some.injEq] at hcall
        rw [hcall, hphase] at hstartedPhase
        simp at hstartedPhase
      · exact (hcalls index call hne hcall hkey).2
  | ready owner started entry hlookup howner hstarted hstartedKey hmiss hstartedPhase hcalls =>
      by_cases hne : index = owner
      · rw [hne, hstarted, Option.some.injEq] at hcall
        rw [hcall, hphase] at hstartedPhase
        cases hstartedPhase
      · obtain hwaiting | ⟨hmiss, _⟩ := hcalls index call hne hcall hkey
        · exact hwaiting.2
        · exact hmiss

/-- The state of `key` under a step on a call of the same key, in the cases where
its entry changes. -/
theorem QuotedOnce.begin {run : CacheRun} {index : ℕ} {call : QuoteCall}
    (honce : run.QuotedOnce call.key) (hcall : run.calls[index]? = some call)
    (habsent : run.cache.entries.lookup call.key = none) :
    (update { run with cache := (run.cache.poll call.key).2 } index
      { call with phase := .quoting, miss := true }).QuotedOnce call.key := by
  cases honce with
  | inFlight owner _ hlookup => rw [habsent] at hlookup; cases hlookup
  | ready owner _ entry hlookup => rw [habsent] at hlookup; cases hlookup
  | absent hlookup hcalls =>
      apply QuotedOnce.inFlight index { call with phase := .quoting, miss := true }
      · simp [update, SharedQuoteCache.poll, habsent]
      · exact getElem?_update_self hcall _
      · rfl
      · rfl
      · exact Or.inl rfl
      · intro other found hne hfound hkey
        rw [getElem?_update_ne _ hne] at hfound
        exact hcalls other found hfound hkey

theorem QuotedOnce.hit {run : CacheRun} {index : ℕ} {call : QuoteCall}
    {entry : Except Text U256} (honce : run.QuotedOnce call.key)
    (hcall : run.calls[index]? = some call) (hphase : call.phase = .polling)
    (hready : run.cache.entries.lookup call.key = some (.ready entry)) :
    (run.update index { call with
      phase := .returned entry ((run.owner.lookup call.key).getD index) }).QuotedOnce
        call.key := by
  have hmiss := honce.waiting hcall rfl hphase
  cases honce with
  | absent hlookup => rw [hready] at hlookup; cases hlookup
  | inFlight owner _ hlookup => rw [hready] at hlookup; cases hlookup
  | ready owner started found hlookup howner hstarted hkey hstartedMiss hstartedPhase hcalls =>
      rw [hready, Option.some.injEq, QuoteCacheState.ready.injEq] at hlookup
      subst hlookup
      have hne : owner ≠ index := by
        rintro rfl
        rw [hstarted, Option.some.injEq] at hcall
        rw [hcall, hmiss] at hstartedMiss
        cases hstartedMiss
      apply QuotedOnce.ready owner started entry
      · exact hready
      · exact howner
      · rwa [getElem?_update_ne run hne]
      · exact hkey
      · exact hstartedMiss
      · exact hstartedPhase
      · intro other answered hother hanswered hansweredKey
        by_cases hsame : other = index
        · rw [hsame, getElem?_update_self hcall, Option.some.injEq] at hanswered
          rw [← hanswered, howner]
          exact Or.inr ⟨hmiss, rfl⟩
        · rw [getElem?_update_ne run hsame] at hanswered
          exact hcalls other answered hother hanswered hansweredKey

/-- Only the call that owns the mark is quoting or storing. -/
theorem QuotedOnce.owner_eq {run : CacheRun} {index : ℕ} {call : QuoteCall}
    (honce : run.QuotedOnce call.key) (hcall : run.calls[index]? = some call)
    (hphase : call.phase = .quoting ∨ ∃ entry, call.phase = .storing entry) :
    run.cache.entries.lookup call.key = some .inFlight ∧ call.miss = true ∧
      ∀ (other : ℕ) found, other ≠ index → run.calls[other]? = some found →
        found.key = call.key → Waiting found := by
  have hnotWaiting : ¬Waiting call := by
    rintro ⟨hpolling, _⟩
    rw [hpolling] at hphase
    simp at hphase
  cases honce with
  | absent hlookup hcalls => exact absurd (hcalls index call hcall rfl) hnotWaiting
  | inFlight owner started hlookup hstarted hkey hmiss hstartedPhase hcalls =>
      by_cases hne : index = owner
      · subst hne
        rw [hcall, Option.some.injEq] at hstarted
        subst hstarted
        exact ⟨hlookup, hmiss, hcalls⟩
      · exact absurd (hcalls index call hne hcall rfl) hnotWaiting
  | ready owner started entry hlookup howner hstarted hkey hmiss hstartedPhase hcalls =>
      have hreturned : ∀ entry source, call.phase ≠ .returned entry source := by
        intro entry source hreturned
        rw [hreturned] at hphase
        simp at hphase
      by_cases hne : index = owner
      · subst hne
        rw [hcall, Option.some.injEq] at hstarted
        exact absurd (hstarted ▸ hstartedPhase) (hreturned _ _)
      · obtain hwaiting | ⟨_, hanswered⟩ := hcalls index call hne hcall rfl
        · exact absurd hwaiting hnotWaiting
        · exact absurd hanswered (hreturned _ _)

/-- The event neither invalidates nor panics. -/
def Quiet : CacheEvent → Prop
  | .invalidate _ => False
  | .panic _ => False
  | _ => True

instance : DecidablePred Quiet := fun event => by
  cases event <;> simp only [Quiet] <;> infer_instance

theorem Moves.quotedOnce {run next : CacheRun} {event : CacheEvent}
    (hmove : Moves run event next) (hquiet : Quiet event)
    (honce : ∀ key, run.QuotedOnce key) (key : HopQuoteKey) : next.QuotedOnce key := by
  cases hmove with
  | idle => exact honce key
  | call newKey =>
      refine (honce key).frame rfl rfl ?_ ?_
      · intro index call hcall _
        have hlt : index < run.calls.length := (List.getElem?_eq_some_iff.mp hcall).1
        exact (List.getElem?_append_left hlt).trans hcall
      · intro index call hcall _
        simp only [List.getElem?_append] at hcall
        split at hcall
        · exact Or.inl hcall
        · have hnew := List.mem_of_getElem? hcall
          rw [List.mem_singleton] at hnew
          exact Or.inr (hnew ▸ ⟨rfl, rfl⟩)
  | @hit index call entry hcall hphase hready =>
      by_cases hkey : call.key = key
      · subst hkey
        refine QuotedOnce.hit ((honce call.key).of_cache ?_ ?_) hcall hphase hready
        · rfl
        · rfl
      · refine QuotedOnce.update_of_ne ((honce key).of_cache ?_ ?_) hcall hkey ?_
        · rfl
        · rfl
        · rfl
  | wait => exact (honce key).of_cache rfl rfl
  | @begin index call hcall hphase habsent =>
      by_cases hkey : call.key = key
      · subst hkey
        exact (honce call.key).begin hcall habsent
      · refine ((honce key).of_cache ?_ rfl).update_of_ne hcall hkey rfl
        simp [SharedQuoteCache.poll, habsent, Ne.symm hkey]
  | @quoted index call entry hcall hphase =>
      by_cases hkey : call.key = key
      · subst hkey
        obtain ⟨hflight, hmiss, hothers⟩ :=
          (honce call.key).owner_eq hcall (Or.inl hphase)
        apply QuotedOnce.inFlight index { call with phase := .storing entry }
        · exact hflight
        · exact getElem?_update_self hcall _
        · rfl
        · exact hmiss
        · exact Or.inr ⟨entry, rfl⟩
        · intro other found hne hfound hfoundKey
          rw [getElem?_update_ne _ hne] at hfound
          exact hothers other found hne hfound hfoundKey
      · refine QuotedOnce.update_of_ne ((honce key).of_cache ?_ ?_) hcall hkey ?_
        · rfl
        · rfl
        · rfl
  | @publish index call entry hcall hphase hflight =>
      by_cases hkey : call.key = key
      · subst hkey
        obtain ⟨_, hmiss, hothers⟩ :=
          (honce call.key).owner_eq hcall (Or.inr ⟨entry, hphase⟩)
        apply QuotedOnce.ready index { call with phase := .returned entry index } entry
        · simp [update]
        · simp [update]
        · exact getElem?_update_self hcall _
        · rfl
        · exact hmiss
        · rfl
        · intro other found hne hfound hfoundKey
          rw [getElem?_update_ne _ hne] at hfound
          exact Or.inl (hothers other found hne hfound hfoundKey)
      · refine ((honce key).of_cache ?_ ?_).update_of_ne hcall hkey rfl
        · simp [Ne.symm hkey]
        · simp [Ne.symm hkey]
  | @discard index call entry hcall hphase hflight =>
      exact absurd ((honce call.key).owner_eq hcall (Or.inr ⟨entry, hphase⟩)).1 hflight
  | panic => exact hquiet.elim
  | invalidate => exact hquiet.elim

theorem quotedOnce_run (events : List CacheEvent) (hquiet : ∀ event ∈ events, Quiet event)
    (key : HopQuoteKey) : (run events).QuotedOnce key := by
  induction events using List.reverseRecOn generalizing key with
  | nil => exact .absent rfl (by simp [run, initial])
  | append_singleton events event ih =>
      rw [run_append_singleton]
      have hbefore := ih fun earlier hearlier =>
        hquiet earlier (List.mem_append_left _ hearlier)
      exact (moves_step _ event).quotedOnce (hquiet event (by simp)) hbefore key

/-- The call got an answer another call had computed. -/
def hitOnly (call : QuoteCall) : Bool :=
  decide (call.phase ≠ .polling) && !call.miss

/-- Each call that has left the loop is counted once, as a miss when it quotes
the key itself and as a hit otherwise. -/
structure Counted (run : CacheRun) : Prop where
  misses : run.cache.stats.misses = run.calls.countP (·.miss)
  hits : run.cache.stats.hits = run.calls.countP hitOnly
  polling : ∀ call ∈ run.calls, call.phase = .polling → call.miss = false

theorem countP_update {calls : List QuoteCall} {index : ℕ} {call : QuoteCall}
    (hcall : calls[index]? = some call) (updated : QuoteCall) (p : QuoteCall → Bool) :
    (calls.set index updated).countP p + (p call).toNat =
      calls.countP p + (p updated).toNat := by
  obtain ⟨hlt, hget⟩ := List.getElem?_eq_some_iff.mp hcall
  have hset := List.countP_set hlt (p := p) (a := updated)
  rw [hget] at hset
  have hpos : p call = true → 0 < calls.countP p := fun hp =>
    List.countP_pos_iff.mpr ⟨call, List.mem_of_getElem? hcall, hp⟩
  rw [hset]
  cases hold : p call with
  | false => cases p updated <;> rfl
  | true =>
      have hle := hpos hold
      cases p updated <;> simp <;> omega

/-- Leaving the loop adds one call to the misses or to the hits. -/
theorem countP_leave {calls : List QuoteCall} {index : ℕ} {call : QuoteCall}
    (updated : QuoteCall) (hcall : calls[index]? = some call) (hmiss : call.miss = false)
    (hphase : call.phase = .polling) (hleft : updated.phase ≠ .polling) {miss : Bool}
    (hupdated : updated.miss = miss) :
    (calls.set index updated).countP (·.miss) = calls.countP (·.miss) + miss.toNat ∧
      (calls.set index updated).countP hitOnly =
        calls.countP hitOnly + (!miss).toNat := by
  subst hupdated
  have hmissCount := countP_update hcall updated (·.miss)
  have hhitCount := countP_update hcall updated hitOnly
  simp only [hmiss, Bool.toNat_false, Nat.add_zero] at hmissCount
  simp only [hitOnly, hphase, hleft, ne_eq, not_true_eq_false, decide_false,
    Bool.false_and, Bool.toNat_false, Nat.add_zero, not_false_eq_true, decide_true,
    Bool.true_and] at hhitCount
  exact ⟨hmissCount, hhitCount⟩

theorem mem_update {run : CacheRun} {index : ℕ} {updated call : QuoteCall}
    (hcall : call ∈ (run.update index updated).calls) : call ∈ run.calls ∨ call = updated :=
  List.mem_or_eq_of_mem_set hcall

/-- A call past its poll that moves on changes no count. -/
theorem Counted.update {run : CacheRun} (hcounted : run.Counted) {index : ℕ}
    {call updated : QuoteCall} (hcall : run.calls[index]? = some call)
    (hold : call.phase ≠ .polling) (hnew : updated.phase ≠ .polling)
    (hmiss : updated.miss = call.miss) : (run.update index updated).Counted := by
  have hmisses := countP_update hcall updated (·.miss)
  have hhits := countP_update hcall updated hitOnly
  simp only [hitOnly, hold, hnew, hmiss, ne_eq, not_false_eq_true, decide_true,
    Bool.true_and, Nat.add_right_cancel_iff] at hmisses hhits
  refine ⟨hcounted.misses.trans hmisses.symm, hcounted.hits.trans hhits.symm, ?_⟩
  intro found hfound hphase
  obtain hbefore | rfl := mem_update hfound
  · exact hcounted.polling found hbefore hphase
  · exact absurd hphase hnew

theorem Moves.counted {run next : CacheRun} {event : CacheEvent}
    (hmove : Moves run event next) (hcounted : run.Counted) : next.Counted := by
  obtain ⟨hmisses, hhits, hpolling⟩ := hcounted
  cases hmove with
  | idle => exact ⟨hmisses, hhits, hpolling⟩
  | call key =>
      refine ⟨?_, ?_, ?_⟩
      · simpa using hmisses
      · simpa [hitOnly] using hhits
      · intro call hcall hphase
        obtain hbefore | hnew := List.mem_append.mp hcall
        · exact hpolling call hbefore hphase
        · rw [List.mem_singleton] at hnew
          rw [hnew]
  | @hit index call entry hcall hphase hready =>
      have hmiss := hpolling call (List.mem_of_getElem? hcall) hphase
      have hleave := countP_leave
        { call with phase := .returned entry ((run.owner.lookup call.key).getD index) }
        hcall hmiss hphase (by simp) hmiss
      refine ⟨?_, ?_, ?_⟩
      · exact hmisses.trans hleave.1.symm
      · exact (congrArg (· + 1) hhits).trans hleave.2.symm
      · intro found hfound hfoundPhase
        obtain hbefore | rfl := mem_update hfound
        · exact hpolling found hbefore hfoundPhase
        · cases hfoundPhase
  | wait => exact ⟨hmisses, hhits, hpolling⟩
  | @begin index call hcall hphase habsent =>
      have hmiss := hpolling call (List.mem_of_getElem? hcall) hphase
      have hleave := countP_leave { call with phase := .quoting, miss := true }
        hcall hmiss hphase (by simp) rfl
      simp only [CacheRun.update, SharedQuoteCache.poll, habsent]
      refine ⟨?_, ?_, ?_⟩
      · exact (congrArg (· + 1) hmisses).trans hleave.1.symm
      · exact hhits.trans hleave.2.symm
      · intro found hfound hfoundPhase
        obtain hbefore | rfl := List.mem_or_eq_of_mem_set hfound
        · exact hpolling found hbefore hfoundPhase
        · cases hfoundPhase
  | @quoted index call entry hcall hphase =>
      refine Counted.update ?_ hcall ?_ ?_ ?_
      · exact ⟨hmisses, hhits, hpolling⟩
      · simp [hphase]
      · simp
      · rfl
  | @publish index call entry hcall hphase hflight =>
      refine Counted.update ?_ hcall ?_ ?_ ?_
      · exact ⟨hmisses, hhits, hpolling⟩
      · simp [hphase]
      · simp
      · rfl
  | @discard index call entry hcall hphase hflight =>
      refine Counted.update ?_ hcall ?_ ?_ ?_
      · exact ⟨hmisses, hhits, hpolling⟩
      · simp [hphase]
      · simp
      · rfl
  | @panic index call hcall hphase =>
      refine Counted.update ?_ hcall ?_ ?_ ?_
      · exact ⟨hmisses, hhits, hpolling⟩
      · simp [hphase]
      · simp
      · rfl
  | invalidate pools =>
      have hstats : ∀ (pools : List PoolKey) (cache : SharedQuoteCache),
          (cache.invalidatePools pools).stats = cache.stats := by
        intro pools
        induction pools with
        | nil => intro cache; rfl
        | cons pool rest ih =>
            intro cache
            refine (ih (cache.invalidatePool pool)).trans ?_
            unfold SharedQuoteCache.invalidatePool
            split <;> rfl
      refine ⟨?_, ?_, ?_⟩
      · simp only [hstats, hmisses, List.countP_map]
        rfl
      · simp only [hstats, hhits, List.countP_map]
        rfl
      · intro call hcall hphase
        obtain ⟨before, hbefore, rfl⟩ := List.mem_map.mp hcall
        exact hpolling before hbefore hphase

theorem counted_run (events : List CacheEvent) : (run events).Counted := by
  induction events using List.reverseRecOn with
  | nil => exact ⟨rfl, rfl, by simp [run, initial]⟩
  | append_singleton events event ih =>
      rw [run_append_singleton]
      exact (moves_step _ event).counted ih

/-- What a run without invalidations and panics has done for its calls: a key is
quoted by at most one call, an answered key by exactly one, and each answer is
that call's result. -/
structure AnsweredOnce (run : CacheRun) : Prop where
  unique : ∀ (left right : ℕ) leftCall rightCall, run.calls[left]? = some leftCall →
    run.calls[right]? = some rightCall → leftCall.key = rightCall.key →
    leftCall.miss = true → rightCall.miss = true → left = right
  source : ∀ (index : ℕ) call entry source, run.calls[index]? = some call →
    call.phase = .returned entry source →
    ∃ started, run.calls[source]? = some started ∧ started.key = call.key ∧
      started.miss = true ∧ started.phase = .returned entry source

theorem QuotedOnce.miss_eq {run : CacheRun} {key : HopQuoteKey}
    (honce : run.QuotedOnce key) {left right : ℕ} {leftCall rightCall : QuoteCall}
    (hleft : run.calls[left]? = some leftCall) (hright : run.calls[right]? = some rightCall)
    (hleftKey : leftCall.key = key) (hrightKey : rightCall.key = key)
    (hleftMiss : leftCall.miss = true) (hrightMiss : rightCall.miss = true) :
    left = right := by
  -- every call that has started a quote is the owner of the key
  have howner : ∃ owner, ∀ (index : ℕ) call, run.calls[index]? = some call →
      call.key = key → call.miss = true → index = owner := by
    cases honce with
    | absent hlookup hcalls =>
        refine ⟨0, fun index call hcall hkey hmiss => ?_⟩
        rw [(hcalls index call hcall hkey).2] at hmiss
        cases hmiss
    | inFlight owner started hlookup hstarted hkey hmiss hphase hcalls =>
        refine ⟨owner, fun index call hcall hkey hmiss => ?_⟩
        by_contra hne
        rw [(hcalls index call hne hcall hkey).2] at hmiss
        cases hmiss
    | ready owner started entry hlookup hown hstarted hkey hmiss hphase hcalls =>
        refine ⟨owner, fun index call hcall hkey hmiss => ?_⟩
        by_contra hne
        obtain hwaiting | ⟨hother, _⟩ := hcalls index call hne hcall hkey
        · rw [hwaiting.2] at hmiss
          cases hmiss
        · rw [hother] at hmiss
          cases hmiss
  obtain ⟨owner, howner⟩ := howner
  exact (howner left leftCall hleft hleftKey hleftMiss).trans
    (howner right rightCall hright hrightKey hrightMiss).symm

theorem QuotedOnce.source {run : CacheRun} {index : ℕ} {call : QuoteCall}
    (honce : run.QuotedOnce call.key) {entry : Except Text U256} {source : ℕ}
    (hcall : run.calls[index]? = some call) (hphase : call.phase = .returned entry source) :
    ∃ started, run.calls[source]? = some started ∧ started.key = call.key ∧
      started.miss = true ∧ started.phase = .returned entry source := by
  have hnotWaiting : ¬Waiting call := by
    rintro ⟨hpolling, _⟩
    rw [hpolling] at hphase
    cases hphase
  cases honce with
  | absent hlookup hcalls => exact absurd (hcalls index call hcall rfl) hnotWaiting
  | inFlight owner started hlookup hstarted hkey hmiss hstartedPhase hcalls =>
      by_cases hne : index = owner
      · rw [hne, hstarted, Option.some.injEq] at hcall
        rw [hcall, hphase] at hstartedPhase
        simp at hstartedPhase
      · exact absurd (hcalls index call hne hcall rfl) hnotWaiting
  | ready owner started found hlookup howner hstarted hkey hmiss hstartedPhase hcalls =>
      have hsame : call.phase = .returned found owner := by
        by_cases hne : index = owner
        · rw [hne, hstarted, Option.some.injEq] at hcall
          exact hcall ▸ hstartedPhase
        · obtain hwaiting | ⟨_, hanswered⟩ := hcalls index call hne hcall rfl
          · exact absurd hwaiting hnotWaiting
          · exact hanswered
      rw [hphase, CallPhase.returned.injEq] at hsame
      obtain ⟨rfl, rfl⟩ := hsame
      exact ⟨started, hstarted, hkey, hmiss, hstartedPhase⟩

theorem answeredOnce_run (events : List CacheEvent) (hquiet : ∀ event ∈ events, Quiet event) :
    (run events).AnsweredOnce := by
  have honce := quotedOnce_run events hquiet
  refine ⟨?_, ?_⟩
  · intro left right leftCall rightCall hleft hright hkey hleftMiss hrightMiss
    exact (honce rightCall.key).miss_eq hleft hright hkey rfl hleftMiss hrightMiss
  · intro index call entry source hcall hphase
    exact (honce call.key).source hcall hphase

end CacheRun

end AmmSearch
