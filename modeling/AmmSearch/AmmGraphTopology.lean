/-
What the token graph is for: a set of pools with their token lists, and the
set of tokens that have a node.  Every public operation of the graph refines
an operation on this topology, and advances the version exactly when the
topology changes.
-/
import AmmSearch.AmmGraphRepresentation

open FiniteMap StableGraph

namespace AmmSearch

/-- The observable topology of a token graph. -/
structure Topology where
  pools : Map PoolKey (List Address)
  tokens : Finset Address
deriving DecidableEq

namespace Topology

/-- The tokens that some pool holds. -/
def usedTokens (pools : Map PoolKey (List Address)) : Finset Address :=
  pools.keys.biUnion fun pool => ((pools.lookup pool).getD []).toFinset

theorem mem_usedTokens (pools : Map PoolKey (List Address)) (token : Address) :
    token ∈ usedTokens pools ↔
      ∃ pool tokens, pools.lookup pool = some tokens ∧ token ∈ tokens := by
  simp only [usedTokens, Finset.mem_biUnion, Finmap.mem_keys, List.mem_toFinset]
  constructor
  · rintro ⟨pool, hpool, htoken⟩
    obtain ⟨tokens, htokens⟩ := Finmap.mem_iff.mp hpool
    refine ⟨pool, tokens, htokens, ?_⟩
    rwa [htokens] at htoken
  · rintro ⟨pool, tokens, htokens, htoken⟩
    refine ⟨pool, Finmap.mem_iff.mpr ⟨tokens, htokens⟩, ?_⟩
    rwa [htokens]

/-- Forget a pool and keep every token. -/
def drop (topology : Topology) (pool : PoolKey) : Topology :=
  { topology with pools := topology.pools.erase pool }

/-- Forget those of `tokens` that no pool holds. -/
def prune (topology : Topology) (tokens : List Address) : Topology :=
  { topology with
    tokens := topology.tokens \ (tokens.toFinset \ usedTokens topology.pools) }

/-- Forget a pool together with the tokens it leaves unused. -/
def retire (topology : Topology) (pool : PoolKey) : Topology :=
  (topology.drop pool).prune ((topology.pools.lookup pool).getD [])

def index (topology : Topology) (pool : PoolKey) (tokens : List Address) :
    Topology :=
  ⟨topology.pools.insert pool tokens, topology.tokens ∪ tokens.toFinset⟩

/-- The topology after one registration. -/
def apply (topology : Topology) (registration : PoolRegistration)
    (options : GraphBuildOptions) : Topology :=
  match indexedTokens registration options with
  | .error _ => topology.retire registration.key
  | .ok tokens =>
      if topology.pools.lookup registration.key = some tokens then topology
      else (topology.retire registration.key).index registration.key tokens

theorem erase_of_absent {pools : Map PoolKey (List Address)} {pool : PoolKey}
    (habsent : pools.lookup pool = none) : pools.erase pool = pools := by
  apply Finmap.ext_lookup
  intro other
  rw [lookup_erase_eq]
  split
  · rename_i heq
    rw [heq, habsent]
  · rfl

theorem retire_of_absent {topology : Topology} {pool : PoolKey}
    (habsent : topology.pools.lookup pool = none) :
    topology.retire pool = topology := by
  simp [retire, drop, prune, habsent, erase_of_absent habsent]

theorem pools_retire_ne {topology : Topology} {pool : PoolKey}
    {tokens : List Address} (hpresent : topology.pools.lookup pool = some tokens) :
    (topology.retire pool).pools ≠ topology.pools := by
  intro heq
  have hlookup := congrArg (Finmap.lookup pool) heq
  rw [hpresent] at hlookup
  change (topology.pools.erase pool).lookup pool = some tokens at hlookup
  rw [lookup_erase_eq, if_pos rfl] at hlookup
  cases hlookup

theorem pools_retire_index (topology : Topology) (pool : PoolKey)
    (tokens : List Address) :
    ((topology.retire pool).index pool tokens).pools =
      topology.pools.insert pool tokens := by
  apply Finmap.ext_lookup
  intro other
  change ((topology.pools.erase pool).insert pool tokens).lookup other = _
  rw [lookup_insert_eq, lookup_insert_eq, lookup_erase_eq]
  split <;> rfl

theorem pools_insert_ne {pools : Map PoolKey (List Address)} {pool : PoolKey}
    {tokens : List Address} (hne : pools.lookup pool ≠ some tokens) :
    pools.insert pool tokens ≠ pools := by
  intro heq
  apply hne
  rw [← heq, lookup_insert_eq, if_pos rfl]

/-- Every token belongs to a pool. -/
def Compact (topology : Topology) : Prop :=
  topology.tokens = usedTokens topology.pools

theorem usedTokens_erase_subset (pools : Map PoolKey (List Address))
    (pool : PoolKey) : usedTokens (pools.erase pool) ⊆ usedTokens pools := by
  intro token htoken
  rw [mem_usedTokens] at htoken ⊢
  obtain ⟨other, tokens, htokens, hmem⟩ := htoken
  rw [lookup_erase_eq] at htokens
  split at htokens
  · cases htokens
  · exact ⟨other, tokens, htokens, hmem⟩

theorem Compact.retire {topology : Topology} (hcompact : topology.Compact)
    (pool : PoolKey) : (topology.retire pool).Compact := by
  change topology.tokens \ (((topology.pools.lookup pool).getD []).toFinset \
      usedTokens (topology.pools.erase pool)) =
    usedTokens (topology.pools.erase pool)
  rw [hcompact]
  ext token
  simp only [Finset.mem_sdiff, List.mem_toFinset]
  constructor
  · rintro ⟨hused, hkept⟩
    by_contra hgone
    apply hkept
    refine ⟨?_, hgone⟩
    obtain ⟨other, tokens, htokens, hmem⟩ := (mem_usedTokens _ _).mp hused
    by_cases heq : other = pool
    · rw [← heq, htokens]
      exact hmem
    · exfalso
      apply hgone
      rw [mem_usedTokens]
      exact ⟨other, tokens, by rw [lookup_erase_eq, if_neg heq]; exact htokens, hmem⟩
  · intro hused
    exact ⟨usedTokens_erase_subset _ _ hused, fun hgone => hgone.2 hused⟩

theorem Compact.index {topology : Topology} (hcompact : topology.Compact)
    {pool : PoolKey} (habsent : topology.pools.lookup pool = none)
    (tokens : List Address) : (topology.index pool tokens).Compact := by
  change topology.tokens ∪ tokens.toFinset =
    usedTokens (topology.pools.insert pool tokens)
  rw [hcompact]
  ext token
  simp only [Finset.mem_union, List.mem_toFinset, mem_usedTokens, lookup_insert_eq]
  constructor
  · rintro (⟨other, found, hfound, hmem⟩ | hmem)
    · refine ⟨other, found, ?_, hmem⟩
      rw [if_neg]
      · exact hfound
      · rintro rfl
        rw [habsent] at hfound
        cases hfound
    · exact ⟨pool, tokens, by rw [if_pos rfl], hmem⟩
  · rintro ⟨other, found, hfound, hmem⟩
    split at hfound
    · obtain rfl := Option.some.inj hfound
      exact Or.inr hmem
    · exact Or.inl ⟨other, found, hfound, hmem⟩

theorem lookup_retire (topology : Topology) (pool other : PoolKey) :
    (topology.retire pool).pools.lookup other =
      if other = pool then none else topology.pools.lookup other :=
  lookup_erase_eq topology.pools pool other

end Topology

namespace AmmGraph

variable {G : Type} [StableDiGraph G Address EdgeData]

def topology (g : AmmGraph G) : Topology := ⟨g.poolTokens, g.nodeMap.keys⟩

omit [StableDiGraph G Address EdgeData] in
theorem mem_tokens (g : AmmGraph G) (token : Address) :
    token ∈ g.topology.tokens ↔ (g.nodeMap.lookup token).isSome := by
  rw [topology, Finmap.mem_keys, Finmap.mem_iff, Option.isSome_iff_exists]

section Primitives

variable {g : AmmGraph G}

theorem topology_removePoolEdges (g : AmmGraph G) (pool : PoolKey) :
    (g.removePoolEdges pool).2.topology = g.topology.drop pool := by
  obtain ⟨htokens, _, hnodes⟩ := Indexed.poolTokens_removePoolEdges g pool
  simp only [topology, Topology.drop, htokens, hnodes]

theorem topology_addPoolEdges (g : AmmGraph G) (pool : PoolKey)
    (tokens : List Address) :
    (g.addPoolEdges pool tokens).topology = g.topology.index pool tokens := by
  have htokens := (Indexed.poolTokens_addPoolEdges g pool tokens).1
  have hnodes := (sameTokens_foldl_addDirectedEdge pool
    (distinctPairs (g.getOrCreateNodes tokens).1)
    (g.getOrCreateNodes tokens).2).2
  have hkeys : (g.addPoolEdges pool tokens).nodeMap.keys =
      g.nodeMap.keys ∪ tokens.toFinset := by
    ext token
    rw [Finset.mem_union, List.mem_toFinset, Finmap.mem_keys, Finmap.mem_iff,
      Finmap.mem_keys, Finmap.mem_iff, ← Option.isSome_iff_exists,
      ← Option.isSome_iff_exists]
    simp only [addPoolEdges, hnodes]
    exact (nodeMap_getOrCreateNodes g tokens).2.1 token
  simp only [topology, Topology.index, htokens, hkeys]

theorem exists_other_token {tokens : List Address}
    (hsorted : tokens.Pairwise (· < ·)) (hlength : 2 ≤ tokens.length)
    (token : Address) : ∃ peer ∈ tokens, token ≠ peer := by
  by_contra hall
  simp only [not_exists, not_and, ne_eq, not_not] at hall
  have hsub : tokens ⊆ [token] := fun peer hpeer => by
    simp [hall peer hpeer]
  have hle := ((nodup_of_pairwise_lt hsorted).subperm hsub).length_le
  rw [List.length_singleton] at hle
  omega

/-- A pruned token had a node and no pool. -/
theorem nodeMap_pruneOrphanToken (hindexed : g.Indexed) (token other : Address) :
    ((g.pruneOrphanToken token).nodeMap.lookup other).isSome ↔
      (g.nodeMap.lookup other).isSome ∧
        ¬ (other = token ∧ other ∉ Topology.usedTokens g.poolTokens) := by
  constructor
  · intro hsome
    obtain ⟨node, hnode⟩ := Option.isSome_iff_exists.mp hsome
    obtain ⟨hold, hused⟩ := hindexed.linked.nodeMap_pruneOrphanToken token hnode
    refine ⟨Option.isSome_of_eq_some hold, ?_⟩
    rintro ⟨heq, hunused⟩
    apply hunused
    rw [Topology.mem_usedTokens]
    obtain ⟨pool, peer, hpair⟩ := hused heq
    rcases hpair with ⟨tokens, htokens, hin, _⟩ | ⟨tokens, htokens, _, hout, _⟩
    · exact ⟨pool, tokens, htokens, hin⟩
    · exact ⟨pool, tokens, htokens, hout⟩
  · rintro ⟨hsome, hkept⟩
    unfold pruneOrphanToken
    cases hlookup : g.nodeMap.lookup token with
    | none => exact hsome
    | some node =>
        by_cases horphan : StableDiGraph.outgoing g.graph node = [] ∧
            StableDiGraph.incoming g.graph node = []
        · simp only [if_pos horphan]
          rw [lookup_erase_eq, if_neg]
          · exact hsome
          · -- A used token has an outgoing edge, so its node is no orphan.
            intro heq
            apply hkept
            refine ⟨heq, fun hused => ?_⟩
            obtain ⟨pool, tokens, htokens, hmem⟩ :=
              (Topology.mem_usedTokens _ _).mp hused
            obtain ⟨hsorted, hlength⟩ := hindexed.tokens_valid pool tokens htokens
            obtain ⟨peer, hpeer, hne⟩ := exists_other_token hsorted hlength other
            obtain ⟨e, record, hrecord, _, hin, _⟩ :=
              hindexed.linked.edge_exists pool other peer
                ⟨tokens, htokens, hmem, hpeer, hne⟩
            rw [← heq] at hlookup
            have hnode := (hindexed.linked.node_iff other record.source).mpr hin
            have hsource := Option.some.inj (hlookup.symm.trans hnode)
            have hout := (StableDiGraph.mem_outgoing g.graph node e).mpr
              ⟨record, hrecord, hsource.symm⟩
            rw [horphan.1] at hout
            cases hout
        · simp only [if_neg horphan]
          exact hsome

theorem topology_pruneOrphanTokens (hindexed : g.Indexed)
    (tokens : List Address) :
    (g.pruneOrphanTokens tokens).topology = g.topology.prune tokens := by
  have hsame := (hindexed.linked.pruneOrphanTokens tokens).2.1
  have hkeys : ∀ token,
      ((g.pruneOrphanTokens tokens).nodeMap.lookup token).isSome ↔
        (g.nodeMap.lookup token).isSome ∧
          ¬ (token ∈ tokens ∧ token ∉ Topology.usedTokens g.poolTokens) := by
    clear hsame
    induction tokens generalizing g with
    | nil => simp [pruneOrphanTokens]
    | cons head tail ih =>
        intro token
        have hstep := sameTokens_pruneOrphanToken g head
        have hpruned : (g.pruneOrphanToken head).Indexed :=
          hindexed.pruneOrphanTokens [head]
        have htail := ih hpruned token
        rw [hstep.poolTokens, nodeMap_pruneOrphanToken hindexed] at htail
        rw [List.mem_cons]
        exact htail.trans (by tauto)
  have htokens : (g.pruneOrphanTokens tokens).nodeMap.keys =
      g.nodeMap.keys \ (tokens.toFinset \ Topology.usedTokens g.poolTokens) := by
    ext token
    rw [Finset.mem_sdiff, Finset.mem_sdiff, List.mem_toFinset]
    exact (mem_tokens (g.pruneOrphanTokens tokens) token).trans
      ((hkeys token).trans (and_congr_left fun _ => (mem_tokens g token).symm))
  simp only [topology, Topology.prune, htokens, hsame.poolTokens]

/-- Removing a pool that is not indexed changes nothing. -/
theorem removePoolEdges_of_absent (hindexed : g.Indexed) {pool : PoolKey}
    (habsent : g.poolTokens.lookup pool = none) :
    g.removePoolEdges pool = ((0, []), g) := by
  have hedges : g.edgeMap.lookup pool = none := by
    have hiff := hindexed.lookup_edgeMap_isSome pool
    rw [habsent] at hiff
    simpa using hiff
  simp only [removePoolEdges, hedges, habsent, Option.getD_none, removePoolPairs,
    tokenPairs, List.foldl_nil, Topology.erase_of_absent habsent]

/-- Removing an indexed pool reports its edges and its tokens. -/
theorem removePoolEdges_of_present (htidy : g.Tidy) (hindexed : g.Indexed)
    {pool : PoolKey} {tokens : List Address}
    (hpresent : g.poolTokens.lookup pool = some tokens) :
    (g.removePoolEdges pool).1 = (directedEdgeCount tokens.length, tokens) := by
  obtain ⟨edges, hedges⟩ := hindexed.exists_edges hpresent
  have hlength := htidy.length_edges hindexed hpresent hedges
  simp only [removePoolEdges, hedges, hpresent, Option.getD_some, hlength]

theorem directedEdgeCount_pos (hindexed : g.Indexed) {pool : PoolKey}
    {tokens : List Address} (hpresent : g.poolTokens.lookup pool = some tokens) :
    0 < directedEdgeCount tokens.length := by
  have hlength := (hindexed.tokens_valid pool tokens hpresent).2
  exact Nat.mul_pos (by omega) (by omega)

/-- Pool removal with compaction, before the version is advanced. -/
def retirePool (g : AmmGraph G) (pool : PoolKey) : AmmGraph G :=
  (g.removePoolEdges pool).2.pruneOrphanTokens (g.removePoolEdges pool).1.2

theorem topology_retirePool (htidy : g.Tidy) (hindexed : g.Indexed)
    (pool : PoolKey) : (g.retirePool pool).topology = g.topology.retire pool := by
  rw [retirePool, topology_pruneOrphanTokens (hindexed.removePoolEdges pool),
    topology_removePoolEdges, Topology.retire]
  cases hlookup : g.poolTokens.lookup pool with
  | none =>
      rw [removePoolEdges_of_absent hindexed hlookup]
      simp [topology, hlookup]
  | some tokens =>
      rw [removePoolEdges_of_present htidy hindexed hlookup]
      simp [topology, hlookup]

end Primitives

end AmmGraph

end AmmSearch
