/-
The representation invariant in the form a reader of the token graph relies
on: which edges a pool has, which pairs list it, and what the cached outgoing
edges of a node are.  The links and the pair index already follow the
pool-to-tokens map; what is left is that no edge is listed twice and that no
cached list outlives its node.
-/
import AmmSearch.AmmGraphInvariant

open FiniteMap StableGraph

namespace AmmSearch

section TokenLists

theorem length_distinctPairs {α : Type} [DecidableEq α] {entries : List α}
    (hnodup : entries.Nodup) :
    (distinctPairs entries).length = directedEdgeCount entries.length := by
  have hrow : ∀ source ∈ entries,
      ((entries.filter fun target => source ≠ target).map
        (Prod.mk source)).length = entries.length - 1 := by
    intro source hsource
    have hfilter : (entries.filter fun target => source ≠ target) =
        entries.erase source := by
      rw [hnodup.erase_eq_filter]
      apply List.filter_congr
      intro target _
      rw [Bool.eq_iff_iff, bne_iff_ne, decide_eq_true_iff]
      exact ne_comm
    rw [List.length_map, hfilter, List.length_erase_of_mem hsource]
  rw [distinctPairs_eq_of_nodup hnodup, List.length_flatMap,
    List.map_congr_left hrow, List.map_const', List.sum_replicate]
  rfl

/-- In a sorted list the listed pairs are the ordered pairs of its entries. -/
theorem mem_tokenPairs_iff {tokens : List Address}
    (hsorted : tokens.Pairwise (· < ·)) (pair : Address × Address) :
    pair ∈ tokenPairs tokens ↔
      pair.1 ∈ tokens ∧ pair.2 ∈ tokens ∧ pair.1 < pair.2 := by
  induction tokens with
  | nil => simp [tokenPairs]
  | cons head tail ih =>
      obtain ⟨hhead, htail⟩ := List.pairwise_cons.mp hsorted
      obtain ⟨left, right⟩ := pair
      simp only [tokenPairs, List.mem_append, List.mem_map, Prod.mk.injEq,
        ih htail, List.mem_cons]
      constructor
      · rintro (⟨other, hother, rfl, rfl⟩ | ⟨hleft, hright, hlt⟩)
        · exact ⟨Or.inl rfl, Or.inr hother, hhead other hother⟩
        · exact ⟨Or.inr hleft, Or.inr hright, hlt⟩
      · rintro ⟨rfl | hleft, rfl | hright, hlt⟩
        · exact absurd hlt (lt_irrefl _)
        · exact Or.inl ⟨right, hright, rfl, rfl⟩
        · exact absurd hlt (not_lt_of_gt (hhead left hleft))
        · exact Or.inr ⟨hleft, hright, hlt⟩

end TokenLists

namespace AmmGraph

variable {G : Type} [StableDiGraph G Address EdgeData]

/-- No pool lists an edge twice, and only live nodes have cached edges. -/
structure Tidy (g : AmmGraph G) : Prop where
  edges_once : ∀ pool edges, g.edgeMap.lookup pool = some edges → edges.Nodup
  cache_live : ∀ node, (g.outgoingCache.lookup node).isSome →
    (g.nodeToken node).isSome

/-- The edges listed for `pool` are live. -/
def ListsLive (g : AmmGraph G) (pool : PoolKey) : Prop :=
  ∀ e ∈ (g.edgeMap.lookup pool).getD [], (StableDiGraph.edge g.graph e).isSome

theorem Linked.listsLive {g : AmmGraph G}
    {pairs : PoolKey → Address → Address → Prop} (hlinked : g.Linked pairs)
    (pool : PoolKey) : g.ListsLive pool := by
  intro e he
  obtain ⟨record, hrecord, _⟩ := (hlinked.mem_edgeMap pool e).mp he
  exact Option.isSome_of_eq_some hrecord

namespace Tidy

variable {g : AmmGraph G}

theorem new (lineage : ℕ) : (AmmGraph.new lineage : AmmGraph G).Tidy where
  edges_once pool edges hedges := by simp [AmmGraph.new] at hedges
  cache_live node hnode := by simp [AmmGraph.new] at hnode

theorem of_version (htidy : g.Tidy) (version : GraphVersion) :
    { g with version := version }.Tidy :=
  ⟨htidy.edges_once, htidy.cache_live⟩

theorem getOrCreateNode (htidy : g.Tidy) (token : Address) :
    (g.getOrCreateNode token).2.Tidy := by
  unfold AmmGraph.getOrCreateNode
  cases g.nodeMap.lookup token with
  | some node => exact htidy
  | none =>
      refine ⟨htidy.edges_once, ?_⟩
      intro node hnode
      rw [nodeToken, StableDiGraph.nodeWeight_addNode]
      split
      · rfl
      · exact htidy.cache_live node hnode

theorem getOrCreateNodes (htidy : g.Tidy) (tokens : List Address) :
    (g.getOrCreateNodes tokens).2.Tidy := by
  induction tokens generalizing g with
  | nil => exact htidy
  | cons head tail ih => exact ih (htidy.getOrCreateNode head)

/-- The edge that is appended is not live yet, so it is not listed yet. -/
theorem addDirectedEdge (htidy : g.Tidy) {pool : PoolKey}
    (hlists : g.ListsLive pool)
    {ends : (NodeIndex × Address) × (NodeIndex × Address)}
    (hsource : g.nodeToken ends.1.1 = some ends.1.2)
    (htarget : g.nodeToken ends.2.1 = some ends.2.2) :
    (AmmGraph.addDirectedEdge pool g ends).Tidy ∧
      (AmmGraph.addDirectedEdge pool g ends).ListsLive pool := by
  have hfresh := StableDiGraph.addEdge_fresh g.graph ends.1.1 ends.2.1
    (EdgeData.mk pool)
  have hedge : ∀ e, StableDiGraph.edge
      (AmmGraph.addDirectedEdge pool g ends).graph e = _ :=
    fun e => StableDiGraph.edge_addEdge g.graph ends.1.1 ends.2.1
      (EdgeData.mk pool) e (Option.isSome_of_eq_some hsource)
      (Option.isSome_of_eq_some htarget)
  have hnode : ∀ node, (AmmGraph.addDirectedEdge pool g ends).nodeToken node =
      g.nodeToken node :=
    fun node => StableDiGraph.nodeWeight_addEdge g.graph ends.1.1 ends.2.1
      (EdgeData.mk pool) node
  have hlist : ∀ other,
      (AmmGraph.addDirectedEdge pool g ends).edgeMap.lookup other =
        if other = pool then
          some ((g.edgeMap.lookup pool).getD [] ++
            [(StableDiGraph.addEdge g.graph ends.1.1 ends.2.1
              (EdgeData.mk pool)).1])
        else g.edgeMap.lookup other :=
    fun other => lookup_alter g.edgeMap pool other _
  have holdNodup : ((g.edgeMap.lookup pool).getD []).Nodup := by
    cases hlookup : g.edgeMap.lookup pool with
    | none => exact List.nodup_nil
    | some edges => exact htidy.edges_once pool edges hlookup
  refine ⟨⟨?_, ?_⟩, ?_⟩
  · intro other edges hedges
    rw [hlist] at hedges
    split at hedges
    · obtain rfl := Option.some.inj hedges
      rw [← List.concat_eq_append, List.nodup_concat]
      refine ⟨fun hmem => ?_, holdNodup⟩
      have hlive := hlists _ hmem
      rw [hfresh] at hlive
      cases hlive
    · exact htidy.edges_once other edges hedges
  · intro node hcached
    rw [hnode]
    by_cases heq : node = ends.1.1
    · rw [heq, hsource]
      rfl
    · apply htidy.cache_live node
      change ((alter g.outgoingCache ends.1.1 _).lookup node).isSome at hcached
      rwa [lookup_alter, if_neg heq] at hcached
  · intro e he
    rw [hlist, if_pos rfl, Option.getD_some, List.mem_append,
      List.mem_singleton] at he
    rw [hedge]
    split
    · rfl
    · exact hlists e (he.resolve_right ‹_›)

theorem foldl_addDirectedEdge {pool : PoolKey}
    (ends : List ((NodeIndex × Address) × (NodeIndex × Address)))
    (htidy : g.Tidy) (hlists : g.ListsLive pool)
    (hlive : ∀ pair ∈ ends, g.nodeToken pair.1.1 = some pair.1.2 ∧
      g.nodeToken pair.2.1 = some pair.2.2) :
    (ends.foldl (AmmGraph.addDirectedEdge pool) g).Tidy := by
  induction ends generalizing g with
  | nil => exact htidy
  | cons head tail ih =>
      have hhead := hlive head List.mem_cons_self
      obtain ⟨hadded, hlisted⟩ :=
        htidy.addDirectedEdge hlists hhead.1 hhead.2
      apply ih hadded hlisted
      intro pair hpair
      have hold := hlive pair (List.mem_cons_of_mem _ hpair)
      simp only [nodeToken, AmmGraph.addDirectedEdge,
        StableDiGraph.nodeWeight_addEdge]
      exact hold

theorem addPoolEdges (htidy : g.Tidy) (hindexed : g.Indexed) (pool : PoolKey)
    {tokens : List Address} (hnodup : tokens.Nodup) :
    (g.addPoolEdges pool tokens).Tidy := by
  have hcreated := hindexed.linked.getOrCreateNodes tokens
  have hnodes := (nodeMap_getOrCreateNodes g tokens).2.2
  have hentries : (g.getOrCreateNodes tokens).1.Nodup := by
    apply List.Nodup.of_map Prod.snd
    rw [map_snd_getOrCreateNodes]
    exact hnodup
  have hlinked := (htidy.getOrCreateNodes tokens).foldl_addDirectedEdge
    (distinctPairs (g.getOrCreateNodes tokens).1) (hcreated.listsLive pool) (by
      rintro ⟨source, target⟩ hpair
      obtain ⟨hsource, htarget, _⟩ :=
        (mem_distinctPairs hentries source target).mp hpair
      exact ⟨(hcreated.node_iff _ _).mp (hnodes source hsource),
        (hcreated.node_iff _ _).mp (hnodes target htarget)⟩)
  exact ⟨hlinked.edges_once, hlinked.cache_live⟩

theorem retainCachedEdges (htidy : g.Tidy) (pool : PoolKey) (token : Address) :
    (AmmGraph.retainCachedEdges pool g token).Tidy := by
  unfold AmmGraph.retainCachedEdges
  cases g.nodeMap.lookup token with
  | none => exact htidy
  | some found =>
      refine ⟨htidy.edges_once, ?_⟩
      intro node hcached
      change ((alter g.outgoingCache found _).lookup node).isSome at hcached
      apply htidy.cache_live node
      rw [lookup_alter] at hcached
      by_cases heq : node = found
      · subst heq
        simpa using hcached
      · rwa [if_neg heq] at hcached

theorem removePoolEdges (htidy : g.Tidy) (pool : PoolKey) :
    (g.removePoolEdges pool).2.Tidy := by
  unfold AmmGraph.removePoolEdges
  cases g.edgeMap.lookup pool with
  | none => exact ⟨htidy.edges_once, htidy.cache_live⟩
  | some edges =>
      simp only
      generalize hcut : ({ g with
          poolTokens := g.poolTokens.erase pool
          pairPools := AmmGraph.removePoolPairs g.pairPools pool
            ((g.poolTokens.lookup pool).getD [])
          edgeMap := g.edgeMap.erase pool
          graph := edges.foldl StableDiGraph.removeEdge g.graph } :
        AmmGraph G) = cut
      have hcutTidy : cut.Tidy := by
        rw [← hcut]
        refine ⟨?_, ?_⟩
        · intro other listed hlisted
          change (g.edgeMap.erase pool).lookup other = some listed at hlisted
          rw [lookup_erase_eq] at hlisted
          split at hlisted
          · cases hlisted
          · exact htidy.edges_once other listed hlisted
        · intro node hcached
          rw [nodeToken, (foldl_removeEdge edges g.graph).1]
          exact htidy.cache_live node hcached
      generalize (g.poolTokens.lookup pool).getD [] = tokens
      clear hcut
      induction tokens generalizing cut with
      | nil => exact hcutTidy
      | cons head tail ih => exact ih _ (hcutTidy.retainCachedEdges pool head)

theorem pruneOrphanToken (htidy : g.Tidy) (token : Address) :
    (g.pruneOrphanToken token).Tidy := by
  unfold AmmGraph.pruneOrphanToken
  cases g.nodeMap.lookup token with
  | none => exact htidy
  | some found =>
      by_cases horphan : StableDiGraph.outgoing g.graph found = [] ∧
          StableDiGraph.incoming g.graph found = []
      · simp only [if_pos horphan]
        refine ⟨htidy.edges_once, ?_⟩
        intro node hcached
        change ((g.outgoingCache.erase found).lookup node).isSome at hcached
        rw [nodeToken, StableDiGraph.nodeWeight_removeNode g.graph found node
          horphan.1 horphan.2]
        rw [lookup_erase_eq] at hcached
        split at hcached
        · cases hcached
        · rw [if_neg ‹_›]
          exact htidy.cache_live node hcached
      · simp only [if_neg horphan]
        exact htidy

theorem pruneOrphanTokens (htidy : g.Tidy) (tokens : List Address) :
    (g.pruneOrphanTokens tokens).Tidy := by
  induction tokens generalizing g with
  | nil => exact htidy
  | cons head tail ih => exact ih (htidy.pruneOrphanToken head)

end Tidy

/-- Everything the readers of the graph rely on. -/
structure Represented (g : AmmGraph G) : Prop where
  node_bijection : ∀ token node,
    g.nodeMap.lookup token = some node ↔ g.nodeToken node = some token
  tokens_sorted : ∀ pool tokens, g.poolTokens.lookup pool = some tokens →
    tokens.Pairwise (· < ·) ∧ 2 ≤ tokens.length
  pool_edges : ∀ pool tokens, g.poolTokens.lookup pool = some tokens →
    ∃ edges, g.edgeMap.lookup pool = some edges ∧ edges.Nodup ∧
      edges.length = tokens.length * (tokens.length - 1) ∧
      (∀ e ∈ edges, ∃ tokenIn ∈ tokens, ∃ tokenOut ∈ tokens,
        tokenIn ≠ tokenOut ∧ g.HasEdge e pool tokenIn tokenOut) ∧
      ∀ tokenIn ∈ tokens, ∀ tokenOut ∈ tokens, tokenIn ≠ tokenOut →
        ∃! e, e ∈ edges ∧ g.HasEdge e pool tokenIn tokenOut
  edgeMap_pools : ∀ pool,
    (g.edgeMap.lookup pool).isSome ↔ (g.poolTokens.lookup pool).isSome
  no_other_edges : ∀ e, (StableDiGraph.edge g.graph e).isSome →
    ∃ pool edges, g.edgeMap.lookup pool = some edges ∧ e ∈ edges
  pairs_nonempty : ∀ pair, g.pairPools.lookup pair ≠ some ∅
  mem_pairs : ∀ pair pool, pool ∈ (g.pairPools.lookup pair).getD ∅ ↔
    ∃ tokens, g.poolTokens.lookup pool = some tokens ∧ pair.1 ∈ tokens ∧
      pair.2 ∈ tokens ∧ pair.1 < pair.2
  cached_edges : ∀ node token, g.nodeToken node = some token →
    List.Forall₂ (fun e view => ∃ record,
        StableDiGraph.edge g.graph e = some record ∧ record.source = node ∧
        record.target = view.target ∧ view.tokenIn = token ∧
        g.nodeToken record.target = some view.tokenOut ∧
        record.weight.pool = view.pool)
      (StableDiGraph.outgoing g.graph node) (g.outgoingEdges node)
  no_dead_cache : ∀ node, g.nodeToken node = none →
    g.outgoingCache.lookup node = none

section Edges

variable {g : AmmGraph G}

/-- Every indexed pool lists its edges, one for each directed pair. -/
theorem Indexed.exists_edges (hindexed : g.Indexed) {pool : PoolKey}
    {tokens : List Address} (htokens : g.poolTokens.lookup pool = some tokens) :
    ∃ edges, g.edgeMap.lookup pool = some edges := by
  obtain ⟨hsorted, hlength⟩ := hindexed.tokens_valid pool tokens htokens
  obtain ⟨first, second, rest, rfl⟩ : ∃ first second rest,
      tokens = first :: second :: rest := by
    match tokens, hlength with
    | first :: second :: rest, _ => exact ⟨first, second, rest, rfl⟩
  have hne : first ≠ second :=
    ne_of_lt ((List.pairwise_cons.mp hsorted).1 second List.mem_cons_self)
  obtain ⟨e, record, hrecord, hpool, _⟩ :=
    hindexed.linked.edge_exists pool first second
      ⟨_, htokens, by simp, by simp, hne⟩
  have hmem := (hindexed.linked.mem_edgeMap pool e).mpr ⟨record, hrecord, hpool⟩
  cases hlookup : g.edgeMap.lookup pool with
  | none => simp [hlookup] at hmem
  | some edges => exact ⟨edges, rfl⟩

/-- An edge listed for a pool swaps two distinct tokens of the pool. -/
theorem Indexed.hasEdge_of_mem (hindexed : g.Indexed) {pool : PoolKey}
    {tokens : List Address} (htokens : g.poolTokens.lookup pool = some tokens)
    {e : EdgeIndex} (he : e ∈ (g.edgeMap.lookup pool).getD []) :
    ∃ tokenIn ∈ tokens, ∃ tokenOut ∈ tokens,
      tokenIn ≠ tokenOut ∧ g.HasEdge e pool tokenIn tokenOut := by
  obtain ⟨record, hrecord, rfl⟩ := (hindexed.linked.mem_edgeMap pool e).mp he
  obtain ⟨tokenIn, tokenOut, hedge, found, hfound, hin, hout, hne⟩ :=
    hindexed.linked.edge_pair e record hrecord
  obtain rfl := Option.some.inj (htokens.symm.trans hfound)
  exact ⟨tokenIn, hin, tokenOut, hout, hne, hedge⟩

theorem HasEdge.mem_edgeMap (hindexed : g.Indexed) {e : EdgeIndex}
    {pool : PoolKey} {tokenIn tokenOut : Address}
    (hedge : g.HasEdge e pool tokenIn tokenOut) :
    e ∈ (g.edgeMap.lookup pool).getD [] := by
  obtain ⟨record, hrecord, hpool, _⟩ := hedge
  exact (hindexed.linked.mem_edgeMap pool e).mpr ⟨record, hrecord, hpool⟩

/-- The listed edges of a pool and its directed pairs are in bijection. -/
theorem Tidy.length_edges (htidy : g.Tidy) (hindexed : g.Indexed)
    {pool : PoolKey} {tokens : List Address} {edges : List EdgeIndex}
    (htokens : g.poolTokens.lookup pool = some tokens)
    (hedges : g.edgeMap.lookup pool = some edges) :
    edges.length = directedEdgeCount tokens.length := by
  have hnodup := nodup_of_pairwise_lt (hindexed.tokens_valid pool tokens htokens).1
  have hmem : ∀ e, e ∈ edges ↔ e ∈ (g.edgeMap.lookup pool).getD [] := by
    simp [hedges]
  rw [← length_distinctPairs hnodup,
    ← List.toFinset_card_of_nodup (htidy.edges_once pool edges hedges),
    ← List.toFinset_card_of_nodup (nodup_distinctPairs hnodup)]
  -- Each edge is sent to the one pair it swaps.
  have hends : ∀ e ∈ edges, ∃ pair ∈ distinctPairs tokens,
      g.HasEdge e pool pair.1 pair.2 := by
    intro e he
    obtain ⟨tokenIn, hin, tokenOut, hout, hne, hedge⟩ :=
      hindexed.hasEdge_of_mem htokens ((hmem e).mp he)
    exact ⟨(tokenIn, tokenOut),
      (mem_distinctPairs hnodup tokenIn tokenOut).mpr ⟨hin, hout, hne⟩, hedge⟩
  choose! ends hendsMem hendsEdge using hends
  apply Finset.card_bij fun e _ => ends e
  · intro e he
    exact List.mem_toFinset.mpr (hendsMem e (List.mem_toFinset.mp he))
  · intro e he other hother heq
    have hleft := hendsEdge e (List.mem_toFinset.mp he)
    have hright := hendsEdge other (List.mem_toFinset.mp hother)
    rw [← heq] at hright
    exact hindexed.linked.edge_unique e other _ _ _ hleft hright
  · intro pair hpair
    obtain ⟨hin, hout, hne⟩ := (mem_distinctPairs hnodup pair.1 pair.2).mp
      (List.mem_toFinset.mp hpair)
    obtain ⟨e, hedge⟩ := hindexed.linked.edge_exists pool pair.1 pair.2
      ⟨tokens, htokens, hin, hout, hne⟩
    have he := (hmem e).mpr (hedge.mem_edgeMap hindexed)
    obtain ⟨_, hfirst, hsecond⟩ := (hendsEdge e he).tokens_eq hedge
    exact ⟨e, List.mem_toFinset.mpr he, Prod.ext hfirst hsecond⟩

theorem Indexed.lookup_edgeMap_isSome (hindexed : g.Indexed) (pool : PoolKey) :
    (g.edgeMap.lookup pool).isSome ↔ (g.poolTokens.lookup pool).isSome := by
  constructor
  · intro hsome
    obtain ⟨edges, hedges⟩ := Option.isSome_iff_exists.mp hsome
    cases edges with
    | nil => exact absurd hedges (hindexed.linked.edgeMap_ne_nil pool)
    | cons e rest =>
        have hmem : e ∈ (g.edgeMap.lookup pool).getD [] := by simp [hedges]
        obtain ⟨record, hrecord, rfl⟩ :=
          (hindexed.linked.mem_edgeMap pool e).mp hmem
        obtain ⟨_, _, _, tokens, htokens, _⟩ :=
          hindexed.linked.edge_pair e record hrecord
        exact Option.isSome_of_eq_some htokens
  · intro hsome
    obtain ⟨tokens, htokens⟩ := Option.isSome_iff_exists.mp hsome
    obtain ⟨edges, hedges⟩ := hindexed.exists_edges htokens
    exact Option.isSome_of_eq_some hedges

/-- The cached edges of a node, one for each outgoing edge and in order. -/
theorem Indexed.cached_edges (hindexed : g.Indexed) {node : NodeIndex}
    {token : Address} (hnode : g.nodeToken node = some token) :
    List.Forall₂ (fun e view => ∃ record,
        StableDiGraph.edge g.graph e = some record ∧ record.source = node ∧
        record.target = view.target ∧ view.tokenIn = token ∧
        g.nodeToken record.target = some view.tokenOut ∧
        record.weight.pool = view.pool)
      (StableDiGraph.outgoing g.graph node) (g.outgoingEdges node) := by
  rw [hindexed.linked.cached node]
  have hlive : ∀ e ∈ StableDiGraph.outgoing g.graph node, ∃ record,
      StableDiGraph.edge g.graph e = some record ∧ record.source = node :=
    fun e he => Linked.edge_of_mem_outgoing he
  generalize StableDiGraph.outgoing g.graph node = edges at hlive
  induction edges with
  | nil => exact List.Forall₂.nil
  | cons head tail ih =>
      obtain ⟨record, hrecord, hsource⟩ := hlive head List.mem_cons_self
      obtain ⟨tokenIn, tokenOut, hin, hout, _⟩ :=
        hindexed.linked.endpoints hrecord
      have hview : g.cachedEdge head =
          some ⟨record.target, tokenIn, tokenOut, record.weight.pool⟩ := by
        simp [cachedEdge, hrecord, hin, hout]
      rw [hsource, hnode] at hin
      rw [List.filterMap_cons_some hview]
      apply List.Forall₂.cons
      · exact ⟨record, hrecord, hsource, rfl, (Option.some.inj hin).symm, hout, rfl⟩
      · exact ih fun e he => hlive e (List.mem_cons_of_mem head he)

/-- The two invariants together give the readers' view. -/
theorem Tidy.represented (htidy : g.Tidy) (hindexed : g.Indexed) :
    g.Represented where
  node_bijection := hindexed.linked.node_iff
  tokens_sorted := hindexed.tokens_valid
  pool_edges pool tokens htokens := by
    obtain ⟨edges, hedges⟩ := hindexed.exists_edges htokens
    have hmem : ∀ e, e ∈ edges ↔ e ∈ (g.edgeMap.lookup pool).getD [] := by
      simp [hedges]
    refine ⟨edges, hedges, htidy.edges_once pool edges hedges,
      htidy.length_edges hindexed htokens hedges, ?_, ?_⟩
    · intro e he
      exact hindexed.hasEdge_of_mem htokens ((hmem e).mp he)
    · intro tokenIn hin tokenOut hout hne
      obtain ⟨e, hedge⟩ := hindexed.linked.edge_exists pool tokenIn tokenOut
        ⟨tokens, htokens, hin, hout, hne⟩
      refine ⟨e, ⟨(hmem e).mpr (hedge.mem_edgeMap hindexed), hedge⟩, ?_⟩
      rintro other ⟨_, hother⟩
      exact hindexed.linked.edge_unique other e _ _ _ hother hedge
  edgeMap_pools := hindexed.lookup_edgeMap_isSome
  no_other_edges e he := by
    obtain ⟨record, hrecord⟩ := Option.isSome_iff_exists.mp he
    have hmem := (hindexed.linked.mem_edgeMap record.weight.pool e).mpr
      ⟨record, hrecord, rfl⟩
    cases hlookup : g.edgeMap.lookup record.weight.pool with
    | none => simp [hlookup] at hmem
    | some edges => exact ⟨record.weight.pool, edges, hlookup, by simpa [hlookup] using hmem⟩
  pairs_nonempty pair := (hindexed.pairs pair).1
  mem_pairs pair pool := by
    rw [(hindexed.pairs pair).2]
    apply exists_congr
    intro tokens
    apply and_congr_right
    intro htokens
    exact mem_tokenPairs_iff (hindexed.tokens_valid pool tokens htokens).1 pair
  cached_edges node token hnode := hindexed.cached_edges hnode
  no_dead_cache node hdead := by
    by_contra hcached
    have hlive := htidy.cache_live node (Option.isSome_iff_ne_none.mpr hcached)
    rw [hdead] at hlive
    cases hlive

end Edges

end AmmGraph

end AmmSearch
