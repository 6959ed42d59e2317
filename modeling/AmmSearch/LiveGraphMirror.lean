/-
The graph and the index of a live graph mirror each other: the pools of the
graph are the indexed pools, with their tokens.  The invariant only asks that
the three accessors of a snapshot's registry view agree.
-/
import AmmSearch.AmmGraphIncremental
import AmmSearch.LiveGraphCommits

open FiniteMap StableGraph

namespace AmmSearch

/-- The registered pools are the registrations of the active instances. -/
def AmmRegistryView.Coherent (view : AmmRegistryView) : Prop :=
  ∀ key registration, view.registry.pool key = some registration ↔
    ∃ instanceId, view.poolInstance key = some instanceId ∧
      view.pool instanceId = some registration

section Representation

variable {snapshot : AmmStateSnapshot} {options : GraphBuildOptions} {key : PoolKey}
  {entry : Option IndexedPool}

theorem indexedPool_ok {instanceId : PoolInstanceId}
    (hindexed : indexedPool snapshot instanceId options = .ok entry) :
    ∃ registration, snapshot.registry.pool instanceId = some registration ∧
      entry.map IndexedPool.tokens = AmmGraph.registeredEntry registration options ∧
      ∀ pool ∈ entry, pool.instanceId = instanceId ∧
        snapshot.poolRevision instanceId = some pool.revision := by
  unfold indexedPool at hindexed
  cases hpool : snapshot.registry.pool instanceId with
  | none =>
      rw [hpool] at hindexed
      cases hindexed
  | some registration =>
      refine ⟨registration, rfl, ?_⟩
      simp only [hpool] at hindexed
      unfold AmmGraph.registeredEntry indexedTokens
      split at hindexed
      · rename_i hstatus
        rw [if_pos hstatus]
        cases htokens : tokensForPool registration with
        | error reason =>
            rw [htokens] at hindexed
            cases hindexed
            exact ⟨rfl, fun pool hpool => by cases hpool⟩
        | ok tokens =>
            simp only [htokens] at hindexed
            cases hrevision : snapshot.poolRevision instanceId with
            | none =>
                rw [hrevision] at hindexed
                cases hindexed
            | some revision =>
                rw [hrevision] at hindexed
                cases hindexed
                refine ⟨rfl, fun pool hpool => ?_⟩
                cases hpool
                exact ⟨rfl, rfl⟩
      · rename_i hstatus
        rw [if_neg hstatus]
        cases hindexed
        exact ⟨rfl, fun pool hpool => by cases hpool⟩

/-- The tokens of an active pool are those it is registered under. -/
theorem tokens_of_activePool (hcoherent : snapshot.registry.Coherent)
    (hactive : activePool snapshot options key = .ok entry) :
    entry.map IndexedPool.tokens = (snapshot.registry.registry.pool key).bind
      (AmmGraph.registeredEntry · options) := by
  unfold activePool at hactive
  cases hinstance : snapshot.registry.poolInstance key with
  | none =>
      rw [hinstance] at hactive
      cases hactive
      cases hpool : snapshot.registry.registry.pool key with
      | none => rfl
      | some registration =>
          obtain ⟨instanceId, hother, _⟩ := (hcoherent key registration).mp hpool
          rw [hinstance] at hother
          cases hother
  | some instanceId =>
      simp only [hinstance] at hactive
      obtain ⟨registration, hregistration, htokens, _⟩ := indexedPool_ok hactive
      rw [(hcoherent key registration).mpr ⟨instanceId, hinstance, hregistration⟩]
      exact htokens

/-- The registration behind an active pool. -/
theorem registration_of_activePool (hcoherent : snapshot.registry.Coherent)
    {pool : IndexedPool} (hactive : activePool snapshot options key = .ok (some pool)) :
    ∃ registration, snapshot.registry.pool pool.instanceId = some registration ∧
      registration.key = key ∧
      AmmGraph.registeredEntry registration options = some pool.tokens := by
  unfold activePool at hactive
  cases hinstance : snapshot.registry.poolInstance key with
  | none =>
      rw [hinstance] at hactive
      cases hactive
  | some instanceId =>
      simp only [hinstance] at hactive
      obtain ⟨registration, hregistration, htokens, hpool⟩ := indexedPool_ok hactive
      obtain ⟨rfl, _⟩ := hpool pool rfl
      have hregistered := (hcoherent key registration).mpr ⟨_, hinstance, hregistration⟩
      rw [AdapterRegistry.pool_eq_some_iff] at hregistered
      exact ⟨registration, hregistration, hregistered.2, htokens.symm⟩

theorem lookup_indexPools {pools : List (PoolKey × PoolInstanceId)}
    {indexed indexed' : Map PoolKey IndexedPool} (hnodup : (pools.map Prod.fst).Nodup)
    (hindex : indexPools snapshot options pools indexed = .ok indexed') (key : PoolKey) :
    (∀ instanceId, (key, instanceId) ∈ pools →
      ∃ entry, indexedPool snapshot instanceId options = .ok entry ∧
        indexed'.lookup key = entry.or (indexed.lookup key)) ∧
    (key ∉ pools.map Prod.fst → indexed'.lookup key = indexed.lookup key) := by
  induction pools generalizing indexed with
  | nil =>
      cases hindex
      exact ⟨fun _ hmem => absurd hmem List.not_mem_nil, fun _ => rfl⟩
  | cons head rest ih =>
      obtain ⟨headKey, headInstance⟩ := head
      obtain ⟨hhead, hrest⟩ := List.nodup_cons.mp hnodup
      simp only [indexPools] at hindex
      cases hentry : indexedPool snapshot headInstance options with
      | error error =>
          rw [hentry] at hindex
          cases hindex
      | ok entry =>
          -- the rest of the list only meets other keys
          have hstep : ∃ next : Map PoolKey IndexedPool,
              indexPools snapshot options rest next = .ok indexed' ∧
              ∀ other, next.lookup other =
                if other = headKey then entry.or (indexed.lookup other)
                else indexed.lookup other := by
            rw [hentry] at hindex
            cases entry with
            | none =>
                refine ⟨indexed, hindex, fun other => ?_⟩
                split <;> rfl
            | some pool =>
                refine ⟨_, hindex, fun other => ?_⟩
                rw [lookup_insert_eq]
                rfl
          obtain ⟨next, hnext, hlookup⟩ := hstep
          obtain ⟨hlisted, hother⟩ := ih hrest hnext
          refine ⟨fun instanceId hmem => ?_, fun hkey => ?_⟩
          · rcases List.mem_cons.mp hmem with heq | hlater
            · obtain ⟨rfl, rfl⟩ := Prod.mk.inj heq
              refine ⟨entry, hentry, ?_⟩
              rw [hother hhead, hlookup, if_pos rfl]
            · obtain ⟨found, hfound, hvalue⟩ := hlisted instanceId hlater
              refine ⟨found, hfound, ?_⟩
              have hne : key ≠ headKey := by
                rintro rfl
                exact hhead (List.mem_map.mpr ⟨_, hlater, rfl⟩)
              rw [hvalue, hlookup, if_neg hne]
          · rw [List.map_cons, List.mem_cons, not_or] at hkey
            rw [hother hkey.2, hlookup, if_neg hkey.1]

/-- The index of a snapshot lists its active pools. -/
theorem activePool_of_indexedFromSnapshot {indexed : Map PoolKey IndexedPool}
    (hindex : indexedFromSnapshot snapshot options = .ok indexed) (key : PoolKey) :
    activePool snapshot options key = .ok (indexed.lookup key) := by
  obtain ⟨hlisted, hother⟩ := lookup_indexPools snapshot.registry.nodup_pools hindex key
  unfold activePool AmmRegistryView.poolInstance
  cases hfind : snapshot.registry.pools.find? fun entry => entry.1 = key with
  | none =>
      have habsent : key ∉ snapshot.registry.pools.map Prod.fst := by
        intro hmem
        obtain ⟨entry, hentry, hkey⟩ := List.mem_map.mp hmem
        have hnone := List.find?_eq_none.mp hfind entry hentry
        simp [hkey] at hnone
      rw [hother habsent]
      rfl
  | some found =>
      have hkey : found.1 = key := by simpa using List.find?_some hfind
      have hmem := List.mem_of_find?_eq_some hfind
      obtain ⟨foundKey, instanceId⟩ := found
      subst hkey
      obtain ⟨entry, hentry, hvalue⟩ := hlisted instanceId hmem
      rw [hvalue]
      simp only [Option.map_some, hentry]
      cases entry <;> rfl

end Representation

namespace LiveAmmGraph

variable {G : Type} [StableDiGraph G Address EdgeData]

/-- The graph holds the indexed pools under their tokens and nothing else. -/
structure Mirrors (live : LiveAmmGraph G) : Prop where
  valid : live.graph.Valid
  compact : live.graph.topology.Compact
  tokens : ∀ key, live.graph.poolTokens.lookup key =
    (live.indexed.lookup key).map IndexedPool.tokens

variable {live next : LiveAmmGraph G} {lineage : ℕ} {snapshot : AmmStateSnapshot}
  {options : GraphBuildOptions} {scope : LiquidityIndexScope} {request : Call}
  {delta : GraphDelta}

theorem mirrors_build (hcoherent : snapshot.registry.Coherent)
    {indexed : Map PoolKey IndexedPool}
    (hindex : indexedFromSnapshot snapshot options = .ok indexed) (key : PoolKey) :
    ((AmmGraph.fromRegistry lineage snapshot.registry.registry options).graph :
        AmmGraph G).poolTokens.lookup key =
      (indexed.lookup key).map IndexedPool.tokens := by
  rw [(AmmGraph.tracks_fromRegistry lineage snapshot.registry.registry options).lookup key,
    tokens_of_activePool hcoherent (activePool_of_indexedFromSnapshot hindex key)]

theorem Mirrors.fromSnapshot (hcoherent : snapshot.registry.Coherent)
    (hbuild : fromSnapshotWithLiquidityScope lineage snapshot options scope = .ok live) :
    live.Mirrors := by
  unfold fromSnapshotWithLiquidityScope at hbuild
  simp only at hbuild
  cases hindex : indexedFromSnapshot snapshot options with
  | error error =>
      rw [hindex] at hbuild
      cases hbuild
  | ok indexed =>
      rw [hindex] at hbuild
      cases hbuild
      have htracks := @AmmGraph.tracks_fromRegistry G _ lineage snapshot.registry.registry
        options
      exact ⟨htracks.valid, htracks.compact, mirrors_build hcoherent hindex⟩

/-- One listed change of the working copy is a command. -/
theorem applyPoolDeltas_cons {delta : GraphPoolDelta} {deltas : List GraphPoolDelta}
    {g g' : AmmGraph G}
    (happly : applyPoolDeltas snapshot options (delta :: deltas) g = some (.ok g')) :
    ∃ command : PoolCommand, ∃ mutation middle,
      command.run options g = some (mutation, middle) ∧
      applyPoolDeltas snapshot options deltas middle = some (.ok g') ∧
      ((∃ indexed registration, delta.after = some indexed ∧
          snapshot.registry.pool indexed.instanceId = some registration ∧
          command = .apply registration) ∨
        (delta.after = none ∧ command = .remove delta.pool)) := by
  simp only [applyPoolDeltas] at happly
  cases hafter : delta.after with
  | none =>
      simp only [hafter] at happly
      obtain ⟨⟨mutation, middle⟩, hremove, hrest⟩ := Option.bind_eq_some_iff.mp happly
      exact ⟨.remove delta.pool, mutation, middle, hremove, hrest, Or.inr ⟨rfl, rfl⟩⟩
  | some indexed =>
      simp only [hafter] at happly
      cases hpool : snapshot.registry.pool indexed.instanceId with
      | none =>
          rw [hpool] at happly
          cases happly
      | some registration =>
          simp only [hpool] at happly
          obtain ⟨⟨mutation, middle⟩, hrun, hrest⟩ := Option.bind_eq_some_iff.mp happly
          exact ⟨.apply registration, mutation, middle, hrun, hrest,
            Or.inl ⟨indexed, registration, rfl, hpool, rfl⟩⟩

/-- The listed changes give the changed pools their new tokens. -/
theorem mirrors_applyPoolDeltas (hcoherent : snapshot.registry.Coherent)
    {keys : List PoolKey} (hkeys : keys.Nodup) {before after : PoolKey → Option IndexedPool}
    (hactive : ∀ key ∈ keys, activePool snapshot options key = .ok (after key))
    {g g' : AmmGraph G} (hvalid : g.Valid) (hcompact : g.topology.Compact)
    (hbefore : ∀ key ∈ keys, g.poolTokens.lookup key =
      (before key).map IndexedPool.tokens)
    (happly : applyPoolDeltas snapshot options (changesBetween keys before after) g =
      some (.ok g')) :
    g'.Valid ∧ g'.topology.Compact ∧ ∀ key, g'.poolTokens.lookup key =
      if key ∈ keys then (after key).map IndexedPool.tokens
      else g.poolTokens.lookup key := by
  induction keys generalizing g with
  | nil =>
      cases happly
      exact ⟨hvalid, hcompact, fun key => by simp⟩
  | cons head rest ih =>
      obtain ⟨hhead, hrest⟩ := List.nodup_cons.mp hkeys
      have hmiddle : ∃ middle : AmmGraph G, middle.Valid ∧ middle.topology.Compact ∧
          applyPoolDeltas snapshot options (changesBetween rest before after) middle =
            some (.ok g') ∧
          ∀ key, middle.poolTokens.lookup key =
            if key = head then (after head).map IndexedPool.tokens
            else g.poolTokens.lookup key := by
        simp only [changesBetween, List.flatMap_cons, poolDeltas] at happly
        split at happly
        · obtain ⟨command, mutation, middle, hrun, hlater, hcommand⟩ :=
            applyPoolDeltas_cons happly
          refine ⟨middle, hvalid.run hrun, AmmGraph.compact_run hvalid hcompact hrun, hlater,
            fun key => ?_⟩
          rw [AmmGraph.lookup_run hvalid hrun]
          rcases hcommand with ⟨indexed, registration, hafter, hpool, rfl⟩ | ⟨hafter, rfl⟩
          · have hhere := hactive head List.mem_cons_self
            simp only at hafter
            rw [hafter] at hhere
            obtain ⟨other, hother, hkey, hentry⟩ := registration_of_activePool hcoherent hhere
            obtain rfl := Option.some.inj (hpool.symm.trans hother)
            simp only [PoolCommand.pool, PoolCommand.entry, hkey, hentry, hafter,
              Option.map_some]
          · simp only at hafter
            rw [hafter]
            rfl
        · rename_i hsame
          refine ⟨g, hvalid, hcompact, happly, fun key => ?_⟩
          split
          · rename_i heq
            rw [heq, hbefore head List.mem_cons_self, not_not.mp hsame]
          · rfl
      obtain ⟨middle, hvalid', hcompact', hlater, hlookup⟩ := hmiddle
      obtain ⟨hlast, hlastCompact, hlastLookup⟩ := ih hrest
        (fun key hkey => hactive key (List.mem_cons_of_mem head hkey)) hvalid' hcompact'
        (fun key hkey => by
          have hne : key ≠ head := fun heq => hhead (heq ▸ hkey)
          rw [hlookup, if_neg hne]
          exact hbefore key (List.mem_cons_of_mem head hkey)) hlater
      refine ⟨hlast, hlastCompact, fun key => ?_⟩
      rw [hlastLookup, hlookup]
      by_cases hkey : key = head
      · subst hkey
        simp [hhead]
      · simp [hkey]

/-- Accepted calls keep the mirror. -/
theorem Mirrors.accepts (hmirrors : live.Mirrors)
    (hcoherent : request.snapshot.registry.Coherent)
    (haccepts : live.Accepts lineage request (.ok delta, next)) : next.Mirrors := by
  generalize hresult : ((.ok delta, next) :
    Except LiveGraphError GraphDelta × LiveAmmGraph G) = result at haccepts
  cases haccepts with
  | @unchanged commit hknown hsame =>
      cases hresult
      refine ⟨hmirrors.valid, hmirrors.compact, fun key => ?_⟩
      simp only [lookup_commitChanges]
      rw [hmirrors.tokens key]
      split
      · rename_i hkey
        have htokens := congrArg (Option.map Prod.snd) (hsame key hkey)
        simp only [Option.map_map] at htokens
        exact htokens
      · rfl
  | @changed commit impact result hknown hother happly hok =>
      subst hresult
      obtain ⟨applied, version, happlied, _, _, _, _, _, _, rfl⟩ := applyChanged_ok happly
      obtain ⟨hvalid, hcompact, hlookup⟩ := mirrors_applyPoolDeltas hcoherent
        (nodup_ascending _) hknown hmirrors.valid hmirrors.compact
        (fun key _ => hmirrors.tokens key) happlied
      refine ⟨hvalid.of_version _, hcompact, fun key => ?_⟩
      simp only [lookup_commitChanges]
      rw [hlookup, hmirrors.tokens key]
      exact (apply_ite (Option.map IndexedPool.tokens) _ _ _).symm
  | @replaced _ nextIndexed hindexed hok =>
      obtain ⟨version, _, _, _, _, _, _, rfl⟩ := replaceFromSnapshot_ok hresult.symm
      have htracks := @AmmGraph.tracks_fromRegistry G _ lineage
        request.snapshot.registry.registry live.options
      exact ⟨htracks.valid.of_version _, htracks.compact,
        mirrors_build hcoherent hindexed⟩

end LiveAmmGraph

end AmmSearch
