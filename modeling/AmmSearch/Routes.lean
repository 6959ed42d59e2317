/-
The route universe of a request: the hop sequences over graph edges that a
search may return, and the partial paths that lead to them.
-/
import AmmSearch.AmmGraphInvariant
import AmmSearch.SearchConfig

open FiniteMap StableGraph

namespace AmmSearch

/-- `path` leads from `start` to `finish`. -/
def Connects : Address → RoutePath → Address → Prop
  | start, [], finish => start = finish
  | start, hop :: rest, finish =>
      hop.tokenIn = start ∧ Connects hop.tokenOut rest finish

/-- The token reached by `path` from `start`. -/
def endToken (start : Address) (path : RoutePath) : Address :=
  (path.getLast?.map Hop.tokenOut).getD start

@[simp] theorem endToken_nil (start : Address) : endToken start [] = start := rfl

@[simp] theorem endToken_append_singleton (start : Address) (path : RoutePath)
    (hop : Hop) : endToken start (path ++ [hop]) = hop.tokenOut := by
  simp [endToken]

theorem endToken_cons (start : Address) (hop : Hop) (rest : RoutePath) :
    endToken start (hop :: rest) = endToken hop.tokenOut rest := by
  cases rest with
  | nil => rfl
  | cons next rest =>
      simp only [endToken, List.getLast?_cons_cons]
      cases hlast : (next :: rest).getLast? with
      | none => simp at hlast
      | some last => rfl

theorem connects_iff_endToken {start finish : Address} {path : RoutePath} :
    Connects start path finish ↔
      Connects start path (endToken start path) ∧ endToken start path = finish := by
  induction path generalizing start with
  | nil => simp [Connects]
  | cons hop rest ih =>
      rw [Connects, Connects, endToken_cons, ih]
      tauto

theorem connects_append_singleton {start : Address} {path : RoutePath}
    {hop : Hop} {finish : Address} :
    Connects start (path ++ [hop]) finish ↔
      Connects start path hop.tokenIn ∧ hop.tokenOut = finish := by
  induction path generalizing start with
  | nil => simp [Connects, eq_comm]
  | cons head rest ih =>
      simp only [List.cons_append, Connects, ih]
      tauto

namespace AmmGraph

variable {G : Type} [StableDiGraph G Address EdgeData]

/-- The hop follows a live graph edge. -/
def IsHop (g : AmmGraph G) (hop : Hop) : Prop :=
  ∃ e, g.HasEdge e hop.pool hop.tokenIn hop.tokenOut

/-- The hop sequences that a request admits.  The last token of a cycle is
its first; every other token is visited once. -/
structure IsRoute (g : AmmGraph G) (config : SearchConfig)
    (tokenIn tokenOut : Address) (allowFinalSourceRevisit : Bool)
    (path : RoutePath) : Prop where
  edges : ∀ hop ∈ path, g.IsHop hop
  connects : Connects tokenIn path tokenOut
  minHops : config.minHops ≤ path.length
  maxHops : path.length ≤ config.maxHops
  pools : (path.map Hop.pool).Nodup
  tokens :
    if allowFinalSourceRevisit = true ∧ tokenIn = tokenOut then
      (tokenIn :: path.dropLast.map Hop.tokenOut).Nodup
    else (tokenIn :: path.map Hop.tokenOut).Nodup
  intermediates : ∀ hop ∈ path.dropLast, hop.tokenOut ≠ tokenOut ∧
    connectorAllowed hop.tokenOut tokenIn tokenOut config = true

/-- The partial paths that may still be extended. -/
structure IsPrefix (g : AmmGraph G) (config : SearchConfig)
    (tokenIn tokenOut : Address) (path : RoutePath) : Prop where
  edges : ∀ hop ∈ path, g.IsHop hop
  connects : Connects tokenIn path (endToken tokenIn path)
  pools : (path.map Hop.pool).Nodup
  tokens : (tokenIn :: path.map Hop.tokenOut).Nodup
  intermediates : ∀ hop ∈ path, hop.tokenOut ≠ tokenOut ∧
    connectorAllowed hop.tokenOut tokenIn tokenOut config = true

/-- The hop may be appended to `path` without reusing a pool. -/
structure Continues (g : AmmGraph G) (tokenIn : Address) (path : RoutePath)
    (hop : Hop) : Prop where
  edge : g.IsHop hop
  start : hop.tokenIn = endToken tokenIn path
  pool : hop.pool ∉ path.map Hop.pool

variable {g : AmmGraph G} {config : SearchConfig} {tokenIn tokenOut : Address}
  {allow : Bool} {path : RoutePath} {hop : Hop}

theorem isPrefix_nil : g.IsPrefix config tokenIn tokenOut [] :=
  ⟨by simp, rfl, List.nodup_nil, List.nodup_singleton _, by simp⟩

theorem isPrefix_append_singleton :
    g.IsPrefix config tokenIn tokenOut (path ++ [hop]) ↔
      g.IsPrefix config tokenIn tokenOut path ∧ g.Continues tokenIn path hop ∧
        hop.tokenOut ∉ tokenIn :: path.map Hop.tokenOut ∧
        hop.tokenOut ≠ tokenOut ∧
        connectorAllowed hop.tokenOut tokenIn tokenOut config = true := by
  constructor
  · rintro ⟨hedges, hconnects, hpools, htokens, hinter⟩
    simp only [List.mem_append, List.mem_singleton, or_imp, forall_and,
      forall_eq] at hedges hinter
    simp only [List.map_append, List.map_cons, List.map_nil,
      List.nodup_append_comm, List.singleton_append, List.nodup_cons] at hpools
    rw [List.map_append, List.map_singleton, ← List.cons_append,
      List.nodup_append_comm, List.singleton_append, List.nodup_cons] at htokens
    obtain ⟨hstart, _⟩ := connects_append_singleton.mp hconnects
    obtain ⟨hpath, hend⟩ := connects_iff_endToken.mp hstart
    exact ⟨⟨hedges.1, hpath, hpools.2, htokens.2,
        fun hop hmem => ⟨hinter.1.1 hop hmem, hinter.2.1 hop hmem⟩⟩,
      ⟨hedges.2, hend.symm, hpools.1⟩, htokens.1, hinter.1.2, hinter.2.2⟩
  · rintro ⟨⟨hedges, hconnects, hpools, htokens, hinter⟩,
      ⟨hedge, hstart, hpool⟩, htoken, htarget, hallowed⟩
    refine ⟨?_, ?_, ?_, ?_, ?_⟩
    · simp only [List.mem_append, List.mem_singleton, or_imp, forall_and,
        forall_eq]
      exact ⟨hedges, hedge⟩
    · rw [endToken_append_singleton]
      exact connects_append_singleton.mpr ⟨hstart ▸ hconnects, rfl⟩
    · rw [List.map_append, List.map_singleton, List.nodup_append_comm,
        List.singleton_append, List.nodup_cons]
      exact ⟨hpool, hpools⟩
    · rw [List.map_append, List.map_singleton, ← List.cons_append,
        List.nodup_append_comm, List.singleton_append, List.nodup_cons]
      exact ⟨htoken, htokens⟩
    · intro other hmem
      rcases List.mem_append.mp hmem with hold | hnew
      · exact hinter other hold
      · obtain rfl := List.mem_singleton.mp hnew
        exact ⟨htarget, hallowed⟩

/-- A route is a partial path closed by a hop into the target. -/
theorem isRoute_append_singleton :
    g.IsRoute config tokenIn tokenOut allow (path ++ [hop]) ↔
      g.IsPrefix config tokenIn tokenOut path ∧ g.Continues tokenIn path hop ∧
        hop.tokenOut = tokenOut ∧
        ((allow = true ∧ tokenIn = tokenOut) ∨ tokenIn ≠ tokenOut) ∧
        config.minHops ≤ path.length + 1 ∧ path.length + 1 ≤ config.maxHops := by
  constructor
  · rintro ⟨hedges, hconnects, hmin, hmax, hpools, htokens, hinter⟩
    rw [List.dropLast_concat] at hinter htokens
    simp only [List.mem_append, List.mem_singleton, or_imp, forall_and,
      forall_eq] at hedges
    rw [List.map_append, List.map_singleton, List.nodup_append_comm,
      List.singleton_append, List.nodup_cons] at hpools
    obtain ⟨hstart, hend⟩ := connects_append_singleton.mp hconnects
    obtain ⟨hpath, hlast⟩ := connects_iff_endToken.mp hstart
    rw [List.length_append, List.length_singleton] at hmin hmax
    have hnodup : (tokenIn :: path.map Hop.tokenOut).Nodup ∧
        ((allow = true ∧ tokenIn = tokenOut) ∨ tokenIn ≠ tokenOut) := by
      split at htokens
      · exact ⟨htokens, Or.inl ‹_›⟩
      · rw [List.map_append, List.map_singleton, ← List.cons_append,
          List.nodup_append_comm, List.singleton_append, List.nodup_cons] at htokens
        refine ⟨htokens.2, Or.inr ?_⟩
        rintro rfl
        exact htokens.1 (hend ▸ List.mem_cons_self)
    exact ⟨⟨hedges.1, hpath, hpools.2, hnodup.1, hinter⟩,
      ⟨hedges.2, hlast.symm, hpools.1⟩, hend, hnodup.2, hmin, hmax⟩
  · rintro ⟨⟨hedges, hconnects, hpools, htokens, hinter⟩,
      ⟨hedge, hstart, hpool⟩, hend, hmode, hmin, hmax⟩
    refine ⟨?_, ?_, ?_, ?_, ?_, ?_, ?_⟩
    · simp only [List.mem_append, List.mem_singleton, or_imp, forall_and,
        forall_eq]
      exact ⟨hedges, hedge⟩
    · exact connects_append_singleton.mpr ⟨hstart ▸ hconnects, hend⟩
    · rwa [List.length_append, List.length_singleton]
    · rwa [List.length_append, List.length_singleton]
    · rw [List.map_append, List.map_singleton, List.nodup_append_comm,
        List.singleton_append, List.nodup_cons]
      exact ⟨hpool, hpools⟩
    · rw [List.dropLast_concat]
      split
      · exact htokens
      · rename_i hroute
        have hne : tokenIn ≠ tokenOut := hmode.resolve_left hroute
        rw [List.map_append, List.map_singleton, ← List.cons_append,
          List.nodup_append_comm, List.singleton_append, List.nodup_cons]
        refine ⟨?_, htokens⟩
        rw [hend, List.mem_cons, not_or]
        refine ⟨hne.symm, fun hmem => ?_⟩
        obtain ⟨other, hother, heq⟩ := List.mem_map.mp hmem
        exact (hinter other hother).1 heq
    · rw [List.dropLast_concat]
      exact hinter

/-- Hops follow the token pairs of indexed pools. -/
theorem Indexed.isHop_iff (hindexed : g.Indexed) {hop : Hop} :
    g.IsHop hop ↔ g.HasPair hop.pool hop.tokenIn hop.tokenOut := by
  constructor
  · rintro ⟨e, hedge⟩
    exact hindexed.linked.pairs_of_hasEdge hedge
  · exact hindexed.linked.edge_exists _ _ _

theorem Indexed.tokens_ne (hindexed : g.Indexed) (hhop : g.IsHop hop) :
    hop.tokenIn ≠ hop.tokenOut := by
  obtain ⟨_, _, _, _, hne⟩ := hindexed.isHop_iff.mp hhop
  exact hne

/-- The cached edges at the node of `token`. -/
theorem Indexed.mem_outgoingEdges (hindexed : g.Indexed) {token : Address}
    {node : NodeIndex} (hnode : g.nodeIndex token = some node)
    (edge : CachedOutgoingEdge) :
    edge ∈ g.outgoingEdges node ↔
      edge.tokenIn = token ∧ g.nodeIndex edge.tokenOut = some edge.target ∧
        g.IsHop ⟨edge.pool, token, edge.tokenOut⟩ := by
  have hlinked := hindexed.linked
  have htoken := (hlinked.node_iff token node).mp hnode
  rw [hlinked.cached node, List.mem_filterMap]
  constructor
  · rintro ⟨e, he, hview⟩
    obtain ⟨record, hrecord, rfl⟩ := Linked.edge_of_mem_outgoing he
    obtain ⟨source, target, hin, hout, _⟩ := hlinked.endpoints hrecord
    obtain rfl := Option.some.inj (htoken.symm.trans hin)
    simp only [cachedEdge, hrecord, hin, hout, Option.bind_some,
      Option.map_some, Option.some.injEq] at hview
    subst hview
    exact ⟨rfl, (hlinked.node_iff _ _).mpr hout, e, record, hrecord, rfl, hin, hout⟩
  · rintro ⟨hin, htarget, e, record, hrecord, hpool, hsource, hout⟩
    have heq : record.source = node :=
      Option.some.inj (((hlinked.node_iff _ _).mpr hsource).symm.trans hnode)
    have htargetEq : record.target = edge.target :=
      Option.some.inj (((hlinked.node_iff _ _).mpr hout).symm.trans htarget)
    refine ⟨e, (StableDiGraph.mem_outgoing g.graph node e).mpr
      ⟨record, hrecord, heq⟩, ?_⟩
    simp only at hsource hout hpool
    obtain ⟨target, source, out, pool⟩ := edge
    simp_all [cachedEdge]

/-- No two cached edges of a node carry the same hop. -/
theorem Indexed.nodup_outgoingEdges (hindexed : g.Indexed) (node : NodeIndex) :
    ((g.outgoingEdges node).map fun edge => (edge.pool, edge.tokenOut)).Nodup := by
  have hlinked := hindexed.linked
  have hview : ∀ e ∈ StableDiGraph.outgoing g.graph node,
      ∀ edge, g.cachedEdge e = some edge → ∃ token,
        g.nodeToken node = some token ∧
          g.HasEdge e edge.pool token edge.tokenOut := by
    intro e he edge hedge
    obtain ⟨record, hrecord, rfl⟩ := Linked.edge_of_mem_outgoing he
    obtain ⟨source, target, hin, hout, _⟩ := hlinked.endpoints hrecord
    simp only [cachedEdge, hrecord, hin, hout, Option.bind_some,
      Option.map_some, Option.some.injEq] at hedge
    subst hedge
    exact ⟨source, hin, record, hrecord, rfl, hin, hout⟩
  rw [hlinked.cached node, List.Nodup, List.pairwise_map,
    List.pairwise_filterMap]
  refine (StableDiGraph.nodup_outgoing g.graph node).imp_of_mem ?_
  intro e other he hother hne edge hedge edge' hedge' heq
  obtain ⟨token, htoken, hhas⟩ := hview e he edge hedge
  obtain ⟨token', htoken', hhas'⟩ := hview other hother edge' hedge'
  obtain rfl := Option.some.inj (htoken.symm.trans htoken')
  simp only [Prod.mk.injEq] at heq
  rw [← heq.1, ← heq.2] at hhas'
  exact hne (hlinked.edge_unique e other _ _ _ hhas hhas')

end AmmGraph

end AmmSearch
