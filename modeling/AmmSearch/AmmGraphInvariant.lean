/-
The representation invariant of the token graph: every index kept beside the
stable graph is determined by the pool-to-tokens map, for every graph that the
public operations can build.
-/
import AmmSearch.AmmGraphLinks

open FiniteMap StableGraph

namespace AmmSearch

namespace AmmGraph

variable {G : Type} [StableDiGraph G Address EdgeData]

section PairIndex

/-- The pair index lists, for each pair, exactly the pools that hold it. -/
def PairsIndexed (pairPools : Map (Address × Address) (Finset PoolKey))
    (poolTokens : Map PoolKey (List Address)) : Prop :=
  ∀ pair, pairPools.lookup pair ≠ some ∅ ∧
    ∀ pool, pool ∈ (pairPools.lookup pair).getD ∅ ↔
      ∃ tokens, poolTokens.lookup pool = some tokens ∧ pair ∈ tokenPairs tokens

theorem foldl_insert_pairPools (pool : PoolKey)
    (pairs : List (Address × Address))
    (pairPools : Map (Address × Address) (Finset PoolKey))
    (pair : Address × Address)
    (hne : pairPools.lookup pair ≠ some ∅) :
    let added := pairs.foldl (fun index pair =>
      alter index pair fun pools => some (insert pool (pools.getD ∅))) pairPools
    added.lookup pair ≠ some ∅ ∧
      ∀ other, other ∈ (added.lookup pair).getD ∅ ↔
        other ∈ (pairPools.lookup pair).getD ∅ ∨ (other = pool ∧ pair ∈ pairs) := by
  induction pairs generalizing pairPools with
  | nil => exact ⟨hne, by simp⟩
  | cons head tail ih =>
      simp only [List.foldl_cons]
      obtain ⟨htailNe, htail⟩ := ih
        (alter pairPools head fun pools => some (insert pool (pools.getD ∅)))
        (by
          rw [lookup_alter]
          split
          · simp
          · exact hne)
      refine ⟨htailNe, fun other => ?_⟩
      rw [htail, lookup_alter]
      by_cases hhead : pair = head
      · subst hhead
        simp only [if_pos, Option.getD_some, Finset.mem_insert, List.mem_cons,
          true_or, and_true]
        tauto
      · simp [hhead]

theorem foldl_erase_pairPools (pool : PoolKey)
    (pairs : List (Address × Address))
    (pairPools : Map (Address × Address) (Finset PoolKey))
    (pair : Address × Address)
    (hne : pairPools.lookup pair ≠ some ∅) :
    let removed := pairs.foldl (fun index pair =>
      alter index pair fun pools =>
        (pools.map fun pools => pools.erase pool).filter (· ≠ ∅)) pairPools
    removed.lookup pair ≠ some ∅ ∧
      ∀ other, other ∈ (removed.lookup pair).getD ∅ ↔
        other ∈ (pairPools.lookup pair).getD ∅ ∧ ¬ (other = pool ∧ pair ∈ pairs) := by
  induction pairs generalizing pairPools with
  | nil => exact ⟨hne, by simp⟩
  | cons head tail ih =>
      simp only [List.foldl_cons]
      obtain ⟨htailNe, htail⟩ := ih
        (alter pairPools head fun pools =>
          (pools.map fun pools => pools.erase pool).filter (· ≠ ∅))
        (by
          rw [lookup_alter]
          split
          · intro hsome
            have := Option.filter_eq_some_iff.mp hsome
            simp at this
          · exact hne)
      refine ⟨htailNe, fun other => ?_⟩
      rw [htail, lookup_alter]
      by_cases hhead : pair = head
      · subst hhead
        have herase : ∀ pools : Option (Finset PoolKey),
            other ∈ ((pools.map fun pools => pools.erase pool).filter
              (· ≠ ∅)).getD ∅ ↔ other ≠ pool ∧ other ∈ pools.getD ∅ := by
          intro pools
          cases pools with
          | none => simp
          | some pools =>
              by_cases hempty : pools.erase pool = ∅
              · rw [Option.getD_some, ← Finset.mem_erase, hempty]
                simp [Option.filter, hempty]
              · simp [Option.filter, hempty]
        rw [if_pos rfl, herase]
        simp only [List.mem_cons, true_or, and_true]
        tauto
      · simp [hhead]

theorem PairsIndexed.addPoolPairs
    {pairPools : Map (Address × Address) (Finset PoolKey)}
    {poolTokens : Map PoolKey (List Address)}
    (hindexed : PairsIndexed pairPools poolTokens) {pool : PoolKey}
    (hpool : poolTokens.lookup pool = none) (tokens : List Address) :
    PairsIndexed (AmmGraph.addPoolPairs pairPools pool tokens)
      (poolTokens.insert pool tokens) := by
  intro pair
  obtain ⟨hne, hmem⟩ := foldl_insert_pairPools pool (tokenPairs tokens) pairPools
    pair (hindexed pair).1
  refine ⟨hne, fun other => (hmem other).trans ?_⟩
  rw [(hindexed pair).2, lookup_insert_eq]
  by_cases hother : other = pool
  · subst hother
    simp [hpool]
  · simp [hother]

theorem PairsIndexed.removePoolPairs
    {pairPools : Map (Address × Address) (Finset PoolKey)}
    {poolTokens : Map PoolKey (List Address)}
    (hindexed : PairsIndexed pairPools poolTokens) (pool : PoolKey) :
    PairsIndexed
      (AmmGraph.removePoolPairs pairPools pool
        ((poolTokens.lookup pool).getD []))
      (poolTokens.erase pool) := by
  intro pair
  obtain ⟨hne, hmem⟩ := foldl_erase_pairPools pool
    (tokenPairs ((poolTokens.lookup pool).getD [])) pairPools pair
    (hindexed pair).1
  refine ⟨hne, fun other => (hmem other).trans ?_⟩
  rw [(hindexed pair).2, lookup_erase_eq]
  by_cases hother : other = pool
  · subst hother
    cases hlookup : poolTokens.lookup other <;> simp
  · simp [hother]

end PairIndex

/-- Every index is determined by the pool-to-tokens map. -/
structure Indexed (g : AmmGraph G) : Prop where
  linked : g.Linked g.HasPair
  tokens_valid : ∀ pool tokens, g.poolTokens.lookup pool = some tokens →
    tokens.Pairwise (· < ·) ∧ 2 ≤ tokens.length
  pairs : PairsIndexed g.pairPools g.poolTokens

/-- Every token node belongs to an indexed pool. -/
def Compact (g : AmmGraph G) : Prop :=
  ∀ token, (g.nodeMap.lookup token).isSome →
    ∃ pool tokens, g.poolTokens.lookup pool = some tokens ∧ token ∈ tokens

theorem nodup_of_pairwise_lt {tokens : List Address}
    (hsorted : tokens.Pairwise (· < ·)) : tokens.Nodup :=
  hsorted.imp fun hlt => ne_of_lt hlt

theorem compact_addPoolEdges {g : AmmGraph G} (hcompact : g.Compact)
    {pool : PoolKey} {tokens : List Address}
    (hpool : g.poolTokens.lookup pool = none) :
    (g.addPoolEdges pool tokens).Compact := by
  have hsame := (sameTokens_getOrCreateNodes g tokens).trans
    (sameTokens_foldl_addDirectedEdge pool
      (distinctPairs (g.getOrCreateNodes tokens).1) _).1
  have hnodes := (sameTokens_foldl_addDirectedEdge pool
    (distinctPairs (g.getOrCreateNodes tokens).1)
    (g.getOrCreateNodes tokens).2).2
  intro token htoken
  simp only [AmmGraph.addPoolEdges, hnodes, hsame.poolTokens] at htoken ⊢
  rcases ((nodeMap_getOrCreateNodes g tokens).2.1 token).mp htoken with hold | hnew
  · obtain ⟨other, found, hfound, hmem⟩ := hcompact token hold
    refine ⟨other, found, ?_, hmem⟩
    rw [lookup_insert_eq, if_neg]
    · exact hfound
    · rintro rfl
      rw [hpool] at hfound
      cases hfound
  · exact ⟨pool, tokens, by rw [lookup_insert_eq, if_pos rfl], hnew⟩

theorem version_addPoolEdges (g : AmmGraph G) (pool : PoolKey)
    (tokens : List Address) :
    (g.addPoolEdges pool tokens).version = g.version :=
  ((sameTokens_getOrCreateNodes g tokens).trans
    (sameTokens_foldl_addDirectedEdge pool
      (distinctPairs (g.getOrCreateNodes tokens).1) _).1).version

namespace Indexed

variable {g : AmmGraph G}

theorem new (lineage : ℕ) : (AmmGraph.new lineage : AmmGraph G).Indexed where
  linked := (Linked.new lineage).congr _ (by simp [HasPair, AmmGraph.new])
  tokens_valid pool tokens htokens := by simp [AmmGraph.new] at htokens
  pairs pair := by simp [AmmGraph.new]

/-- The invariant does not look at the version. -/
theorem of_version (hindexed : g.Indexed) (version : GraphVersion) :
    { g with version := version }.Indexed :=
  ⟨⟨hindexed.linked.node_iff, hindexed.linked.edge_pair,
      hindexed.linked.edge_exists, hindexed.linked.edge_unique,
      hindexed.linked.mem_edgeMap, hindexed.linked.edgeMap_ne_nil,
      hindexed.linked.cached⟩,
    hindexed.tokens_valid, hindexed.pairs⟩

theorem poolTokens_addPoolEdges (g : AmmGraph G) (pool : PoolKey)
    (tokens : List Address) :
    (g.addPoolEdges pool tokens).poolTokens = g.poolTokens.insert pool tokens ∧
      (g.addPoolEdges pool tokens).pairPools =
        AmmGraph.addPoolPairs g.pairPools pool tokens := by
  have hsame := (sameTokens_getOrCreateNodes g tokens).trans
    (sameTokens_foldl_addDirectedEdge pool
      (distinctPairs (g.getOrCreateNodes tokens).1) _).1
  simp only [AmmGraph.addPoolEdges, hsame.poolTokens, hsame.pairPools, and_self]

theorem addPoolEdges (hindexed : g.Indexed) {pool : PoolKey}
    {tokens : List Address} (hpool : g.poolTokens.lookup pool = none)
    (hsorted : tokens.Pairwise (· < ·)) (hlength : 2 ≤ tokens.length) :
    (g.addPoolEdges pool tokens).Indexed := by
  obtain ⟨htokens, hpairs⟩ := poolTokens_addPoolEdges g pool tokens
  refine ⟨linked_addPoolEdges hindexed.linked hpool
    (nodup_of_pairwise_lt hsorted), ?_, ?_⟩
  · intro other found hfound
    rw [htokens, lookup_insert_eq] at hfound
    split at hfound
    · obtain rfl := Option.some.inj hfound
      exact ⟨hsorted, hlength⟩
    · exact hindexed.tokens_valid other found hfound
  · rw [htokens, hpairs]
    exact hindexed.pairs.addPoolPairs hpool tokens

theorem poolTokens_removePoolEdges (g : AmmGraph G) (pool : PoolKey) :
    (g.removePoolEdges pool).2.poolTokens = g.poolTokens.erase pool ∧
      (g.removePoolEdges pool).2.pairPools =
        AmmGraph.removePoolPairs g.pairPools pool
          ((g.poolTokens.lookup pool).getD []) ∧
      (g.removePoolEdges pool).2.nodeMap = g.nodeMap := by
  unfold AmmGraph.removePoolEdges
  cases g.edgeMap.lookup pool with
  | none => exact ⟨rfl, rfl, rfl⟩
  | some edges =>
      have hframe := foldl_retainCachedEdges pool
        ((g.poolTokens.lookup pool).getD [])
        { g with
          poolTokens := g.poolTokens.erase pool
          pairPools := AmmGraph.removePoolPairs g.pairPools pool
            ((g.poolTokens.lookup pool).getD [])
          edgeMap := g.edgeMap.erase pool
          graph := edges.foldl StableDiGraph.removeEdge g.graph }
      exact ⟨hframe.1.poolTokens, hframe.1.pairPools, hframe.2.2.1⟩

theorem removePoolEdges (hindexed : g.Indexed) (pool : PoolKey) :
    (g.removePoolEdges pool).2.Indexed := by
  obtain ⟨htokens, hpairs, _⟩ := poolTokens_removePoolEdges g pool
  refine ⟨?_, ?_, ?_⟩
  · refine (hindexed.linked.removePoolEdges pool ?_).congr _ ?_
    · rintro tokenIn tokenOut ⟨tokens, hlookup, hin, _⟩
      rw [hlookup]
      exact hin
    · intro other tokenIn tokenOut
      simp only [HasPair, htokens, lookup_erase_eq]
      by_cases hother : other = pool <;> simp [hother]
  · intro other found hfound
    rw [htokens, lookup_erase_eq] at hfound
    split at hfound
    · cases hfound
    · exact hindexed.tokens_valid other found hfound
  · rw [htokens, hpairs]
    exact hindexed.pairs.removePoolPairs pool

theorem pruneOrphanTokens (hindexed : g.Indexed) (tokens : List Address) :
    (g.pruneOrphanTokens tokens).Indexed := by
  obtain ⟨hlinked, hsame, _⟩ := hindexed.linked.pruneOrphanTokens tokens
  refine ⟨hlinked.congr _ ?_, ?_, ?_⟩
  · intro pool tokenIn tokenOut
    simp only [HasPair, hsame.poolTokens]
  · rw [hsame.poolTokens]
    exact hindexed.tokens_valid
  · rw [hsame.poolTokens, hsame.pairPools]
    exact hindexed.pairs

theorem bumpVersion (hindexed : g.Indexed) {bumped : AmmGraph G}
    (hbump : g.bumpVersion = some bumped) : bumped.Indexed := by
  obtain ⟨version, _, rfl⟩ := Option.map_eq_some_iff.mp hbump
  exact hindexed.of_version version

theorem removePool (hindexed : g.Indexed) {pool : PoolKey} {removed : ℕ}
    {g' : AmmGraph G} (hremove : g.removePool pool = some (removed, g')) :
    g'.Indexed := by
  simp only [AmmGraph.removePool] at hremove
  split at hremove
  · obtain ⟨bumped, hbump, heq⟩ := Option.map_eq_some_iff.mp hremove
    cases heq
    exact (hindexed.removePoolEdges pool).bumpVersion hbump
  · cases hremove
    exact hindexed.removePoolEdges pool

theorem removePoolCompacting (hindexed : g.Indexed) {pool : PoolKey}
    {mutation : GraphPoolMutation} {g' : AmmGraph G}
    (hremove : g.removePoolCompacting pool = some (mutation, g')) :
    g'.Indexed := by
  simp only [AmmGraph.removePoolCompacting] at hremove
  split at hremove
  · cases hremove
    exact hindexed.removePoolEdges pool
  · obtain ⟨bumped, hbump, heq⟩ := Option.map_eq_some_iff.mp hremove
    cases heq
    exact ((hindexed.removePoolEdges pool).pruneOrphanTokens _).bumpVersion hbump

theorem removeOrSkip (hindexed : g.Indexed) {pool : PoolKey}
    {reason : SkippedPoolReason} {mutation : GraphPoolMutation}
    {g' : AmmGraph G}
    (hremove : g.removeOrSkip pool reason = some (mutation, g')) :
    g'.Indexed := by
  obtain ⟨⟨outcome, removed⟩, hcompact, heq⟩ := Option.map_eq_some_iff.mp hremove
  have hremoved := hindexed.removePoolCompacting hcompact
  cases outcome <;> cases heq <;> exact hremoved

theorem applyPool (hindexed : g.Indexed) {registration : PoolRegistration}
    {options : GraphBuildOptions} {mutation : GraphPoolMutation}
    {g' : AmmGraph G}
    (happly : g.applyPool registration options = some (mutation, g')) :
    g'.Indexed := by
  unfold AmmGraph.applyPool at happly
  cases htokens : indexedTokens registration options with
  | error reason =>
      simp only [htokens] at happly
      exact hindexed.removeOrSkip happly
  | ok tokens =>
      obtain ⟨hsorted, hlength⟩ := indexedTokens_valid htokens
      simp only [htokens] at happly
      cases hcurrent : g.poolTokens.lookup registration.key with
      | some current =>
          simp only [hcurrent] at happly
          split at happly
          · cases happly
            exact hindexed
          · obtain ⟨bumped, hbump, heq⟩ := Option.map_eq_some_iff.mp happly
            cases heq
            have hremoved := hindexed.removePoolEdges registration.key
            have hsame := (hremoved.linked.pruneOrphanTokens
              (g.removePoolEdges registration.key).1.2).2.1
            have habsent : ((g.removePoolEdges registration.key).2.pruneOrphanTokens
                (g.removePoolEdges registration.key).1.2).poolTokens.lookup
                  registration.key = none := by
              rw [hsame.poolTokens, (poolTokens_removePoolEdges g _).1,
                lookup_erase_eq, if_pos rfl]
            exact ((hremoved.pruneOrphanTokens _).addPoolEdges habsent hsorted
              hlength).bumpVersion hbump
      | none =>
          simp only [hcurrent] at happly
          obtain ⟨bumped, hbump, heq⟩ := Option.map_eq_some_iff.mp happly
          cases heq
          exact (hindexed.addPoolEdges hcurrent hsorted hlength).bumpVersion hbump

end Indexed

section FullBuild

variable {options : GraphBuildOptions}

/-- The tokens under which a full build indexes `key`. -/
def registeredTokens (registrations : List PoolRegistration)
    (options : GraphBuildOptions) (key : PoolKey) : Option (List Address) :=
  (registrations.find? fun registration => registration.key = key).bind
    fun registration => (indexedTokens registration options).toOption

/-- What a full build preserves while it runs through `registrations`. -/
theorem foldl_indexRegistration (registrations : List PoolRegistration)
    (hnodup : (registrations.map PoolRegistration.key).Nodup)
    (report : GraphBuildReport G) (hindexed : report.graph.Indexed)
    (hcompact : report.graph.Compact)
    (hnew : ∀ registration ∈ registrations,
      report.graph.poolTokens.lookup registration.key = none) :
    let built := (registrations.foldl (indexRegistration options) report).graph
    built.Indexed ∧ built.Compact ∧ built.version = report.graph.version ∧
      ∀ key, built.poolTokens.lookup key =
        (report.graph.poolTokens.lookup key).or
          (registeredTokens registrations options key) := by
  induction registrations generalizing report with
  | nil => exact ⟨hindexed, hcompact, rfl, fun key => by simp [registeredTokens]⟩
  | cons head tail ih =>
      simp only [List.map_cons, List.nodup_cons] at hnodup
      have htailNe : ∀ registration ∈ tail, registration.key ≠ head.key := by
        intro registration hmem heq
        exact hnodup.1 (heq ▸ List.mem_map_of_mem hmem)
      have hhead := hnew head List.mem_cons_self
      simp only [List.foldl_cons]
      cases htokens : indexedTokens head options with
      | error reason =>
          have hstep : (indexRegistration options report head).graph =
              report.graph := by
            simp [indexRegistration, htokens]
          obtain ⟨hbuilt, hdense, hversion, hlookup⟩ := ih hnodup.2
            (indexRegistration options report head) (hstep ▸ hindexed)
            (hstep ▸ hcompact) (fun registration hmem => by
              rw [hstep]
              exact hnew registration (List.mem_cons_of_mem head hmem))
          refine ⟨hbuilt, hdense, by rw [hversion, hstep], fun key => ?_⟩
          rw [hlookup, hstep]
          by_cases hkey : head.key = key
          · subst hkey
            have hnone : tail.find? (fun registration =>
                registration.key = head.key) = none :=
              List.find?_eq_none.mpr fun registration hmem => by
                simpa using htailNe registration hmem
            simp [registeredTokens, htokens, hhead, hnone, Except.toOption]
          · simp [registeredTokens, hkey]
      | ok tokens =>
          obtain ⟨hsorted, hlength⟩ := indexedTokens_valid htokens
          have hstep : (indexRegistration options report head).graph =
              report.graph.addPoolEdges head.key tokens := by
            simp [indexRegistration, htokens]
          have hpool := (Indexed.poolTokens_addPoolEdges report.graph head.key
            tokens).1
          have hadded := hindexed.addPoolEdges hhead hsorted hlength
          have hdenseAdded : (report.graph.addPoolEdges head.key tokens).Compact :=
            compact_addPoolEdges hcompact hhead
          obtain ⟨hbuilt, hdense, hversion, hlookup⟩ := ih hnodup.2
            (indexRegistration options report head) (hstep ▸ hadded)
            (hstep ▸ hdenseAdded) (fun registration hmem => by
              rw [hstep, hpool, lookup_insert_eq,
                if_neg (htailNe registration hmem)]
              exact hnew registration (List.mem_cons_of_mem head hmem))
          refine ⟨hbuilt, hdense, ?_, fun key => ?_⟩
          · rw [hversion, hstep]
            exact version_addPoolEdges report.graph head.key tokens
          · rw [hlookup, hstep, hpool, lookup_insert_eq]
            by_cases hkey : key = head.key
            · subst hkey
              simp [registeredTokens, htokens, hhead, Except.toOption]
            · simp [registeredTokens, hkey, Ne.symm hkey]

theorem find?_key_eq_some_iff {registrations : List PoolRegistration}
    (hnodup : (registrations.map PoolRegistration.key).Nodup) (key : PoolKey)
    (registration : PoolRegistration) :
    registrations.find? (fun entry => entry.key = key) = some registration ↔
      registration ∈ registrations ∧ registration.key = key :=
  AdapterRegistry.pool_eq_some_iff ⟨registrations, fun _ => none, hnodup⟩ key
    registration

/-- A full build indexes exactly the registered pools that are indexable. -/
theorem fromRegistry_spec (lineage : ℕ) (registry : AdapterRegistry)
    (options : GraphBuildOptions) :
    let built : AmmGraph G := (fromRegistry lineage registry options).graph
    built.Indexed ∧ built.Compact ∧ built.version = .initial lineage ∧
      ∀ key, built.poolTokens.lookup key =
        (registry.pool key).bind fun registration =>
          (indexedTokens registration options).toOption := by
  have hperm := List.perm_insertionSort
    (fun left right : PoolRegistration => left.key.debug ≤ right.key.debug)
    registry.pools
  have hnodup := (hperm.map PoolRegistration.key).nodup_iff.mpr registry.nodup_keys
  obtain ⟨hindexed, hcompact, hversion, hlookup⟩ :=
    @foldl_indexRegistration _ _ options _ hnodup
      (⟨new lineage, [], []⟩ : GraphBuildReport G) (Indexed.new lineage)
      (by intro token htoken; simp [new] at htoken)
      (by intro registration _; simp [new])
  refine ⟨hindexed, hcompact, hversion, fun key => (hlookup key).trans ?_⟩
  have hfind : (registry.pools.insertionSort fun left right =>
      left.key.debug ≤ right.key.debug).find? (fun entry => entry.key = key) =
        registry.pool key := by
    apply Option.ext
    intro registration
    rw [find?_key_eq_some_iff hnodup, registry.pool_eq_some_iff, hperm.mem_iff]
  simp only [new, Finmap.lookup_empty, Option.none_or, registeredTokens, hfind]

end FullBuild

/-- Graphs that the public operations can build. -/
inductive Built : AmmGraph G → Prop
  | new (lineage : ℕ) : Built (new lineage)
  | fromRegistry (lineage : ℕ) (registry : AdapterRegistry)
      (options : GraphBuildOptions) :
      Built (fromRegistry lineage registry options).graph
  | rebuildFromRegistry {g g' : AmmGraph G} (lineage : ℕ)
      (registry : AdapterRegistry) (options : GraphBuildOptions)
      {summary : GraphBuildSummary} (hbuilt : Built g)
      (hrebuild : g.rebuildFromRegistry lineage registry options =
        some (summary, g')) : Built g'
  | removePool {g g' : AmmGraph G} {pool : PoolKey} {removed : ℕ}
      (hbuilt : Built g) (hremove : g.removePool pool = some (removed, g')) :
      Built g'
  | applyPool {g g' : AmmGraph G} {registration : PoolRegistration}
      {options : GraphBuildOptions} {mutation : GraphPoolMutation}
      (hbuilt : Built g)
      (happly : g.applyPool registration options = some (mutation, g')) :
      Built g'
  | removePoolCompacting {g g' : AmmGraph G} {pool : PoolKey}
      {mutation : GraphPoolMutation} (hbuilt : Built g)
      (hremove : g.removePoolCompacting pool = some (mutation, g')) : Built g'

/-- The representation invariant holds of every graph that can be built. -/
theorem Built.indexed {g : AmmGraph G} (hbuilt : g.Built) : g.Indexed := by
  induction hbuilt with
  | new lineage => exact Indexed.new lineage
  | fromRegistry lineage registry options =>
      exact (fromRegistry_spec lineage registry options).1
  | rebuildFromRegistry lineage registry options _ hrebuild _ =>
      have hreport : (AmmGraph.fromRegistry lineage registry options :
          GraphBuildReport G).graph.Indexed :=
        (fromRegistry_spec lineage registry options).1
      simp only [AmmGraph.rebuildFromRegistry] at hrebuild
      split at hrebuild
      · cases hrebuild
        exact hreport.of_version _
      · obtain ⟨version, _, heq⟩ := Option.map_eq_some_iff.mp hrebuild
        cases heq
        exact hreport.of_version version
  | removePool _ hremove ih => exact ih.removePool hremove
  | applyPool _ happly ih => exact ih.applyPool happly
  | removePoolCompacting _ hremove ih => exact ih.removePoolCompacting hremove

end AmmGraph

end AmmSearch
