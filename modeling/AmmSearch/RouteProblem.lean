/-
What a route search is asked for, apart from how it searches: the prefixes and
routes of a request that can be quoted, the best of them, and the relations
between prefixes to the same token that decide which of them dominance drops.
-/
import AmmSearch.HeuristicExpansion

open FiniteMap StableGraph

namespace AmmSearch

/-- A route request with the connectors that its search uses. -/
structure RouteProblem where
  tokenIn : Address
  tokenOut : Address
  amountIn : U256
  minHops : ℕ
  maxHops : ℕ
  connectorTokens : Option (Finset Address)
  simConfig : SimConfig

/-- The bounds of the problem as search controls. -/
def RouteProblem.config (problem : RouteProblem) : SearchConfig :=
  { minHops := problem.minHops
    maxHops := problem.maxHops
    connectorTokens := problem.connectorTokens }

def HeuristicContext.problem (context : HeuristicContext) : RouteProblem where
  tokenIn := context.tokenIn
  tokenOut := context.tokenOut
  amountIn := context.amountIn
  minHops := context.config.minHops
  maxHops := context.config.maxHops
  connectorTokens := context.connectorTokens
  simConfig := context.simConfig

namespace AmmSearcher

variable {G : Type} [StableDiGraph G Address EdgeData] (searcher : AmmSearcher G)

/-- The problem that a heuristic request poses. -/
def routeProblem (request : RouteRequest) (heuristic : HeuristicSearchConfig) :
    RouteProblem where
  tokenIn := request.tokenIn
  tokenOut := request.tokenOut
  amountIn := request.amountIn
  minHops := request.config.minHops
  maxHops := request.config.maxHops
  connectorTokens := searcher.connectorTokensForHeuristic request.tokenIn
    request.tokenOut request.config heuristic
  simConfig := request.simConfig

/-- A larger input of a hop can still be quoted and yields no less. -/
def MonotoneQuotes (simConfig : SimConfig) : Prop :=
  ∀ hop, searcher.graph.IsHop hop → ∀ amount larger amountOut, amount ≤ larger →
    (searcher.quoteEnv simConfig).quoteHop searcher.quoteContext hop amount =
      .ok amountOut →
    ∃ largerOut, (searcher.quoteEnv simConfig).quoteHop searcher.quoteContext hop
      larger = .ok largerOut ∧ amountOut ≤ largerOut

variable (problem : RouteProblem)

/-- Quoting the whole path yields `amount`. -/
def Yields (path : RoutePath) (amount : U256) : Prop :=
  ∃ hopQuotes, (searcher.quoteEnv problem.simConfig).traceHops searcher.quoteContext
    path problem.amountIn = .ok (hopQuotes, amount)

/-- A nonempty prefix that can be quoted. -/
structure QuotedPrefix (path : RoutePath) (amount : U256) : Prop where
  isPrefix : searcher.graph.IsPrefix problem.config problem.tokenIn problem.tokenOut path
  nonempty : path ≠ []
  yields : searcher.Yields problem path amount

/-- A route that can be quoted. -/
structure QuotedRoute (path : RoutePath) (amount : U256) : Prop where
  isRoute : searcher.graph.IsRoute problem.config problem.tokenIn problem.tokenOut
    false path
  yields : searcher.Yields problem path amount

/-- No route yields more. -/
def BestRoute (path : RoutePath) (amount : U256) : Prop :=
  searcher.QuotedRoute problem path amount ∧
    ∀ other amount', searcher.QuotedRoute problem other amount' → amount' ≤ amount

/-- A used pool of the path also offers an admissible next hop. -/
def Blocks (path : RoutePath) (pool : PoolKey) : Prop :=
  pool ∈ path.map Hop.pool ∧ ∃ tokenOut,
    searcher.graph.IsHop ⟨pool, endToken problem.tokenIn path, tokenOut⟩ ∧
    (tokenOut = problem.tokenOut ∨
      tokenOut ∉ problem.tokenIn :: path.map Hop.tokenOut ∧
        connectorAllowed tokenOut problem.tokenIn problem.tokenOut problem.config = true)

/-- `path` leads to the same token as `other`, through some of its tokens, and
yields at least as much. -/
structure Outdoes (problem : RouteProblem) (path other : RoutePath)
    (amount amount' : U256) : Prop where
  token : endToken problem.tokenIn path = endToken problem.tokenIn other
  visited : visitedOf problem.tokenIn path ⊆ visitedOf problem.tokenIn other
  amount_le : amount' ≤ amount

/-- A proper prefix of the path is outdone by a strictly shorter one. -/
def OutdoneByShorter (path : RoutePath) : Prop :=
  ∃ part amount other amount', part <+: path ∧ part ≠ path ∧
    searcher.QuotedPrefix problem part amount ∧
    searcher.QuotedPrefix problem other amount' ∧
    Outdoes problem other part amount' amount ∧ other.length < part.length

/-- Dominance puts the prefix `other` in the place of `path`: it outdoes it and
blocks no other pools at their common token. -/
def Displaces (other path : RoutePath) : Prop :=
  ∃ amount' amount, searcher.QuotedPrefix problem other amount' ∧
    searcher.QuotedPrefix problem path amount ∧
    Outdoes problem other path amount' amount ∧
    ∀ pool, searcher.Blocks problem other pool → searcher.Blocks problem path pool

variable {searcher problem} {path : RoutePath} {hop : Hop} {amount : U256}

omit [StableDiGraph G Address EdgeData] in
theorem yields_nil : searcher.Yields problem [] problem.amountIn := ⟨[], rfl⟩

omit [StableDiGraph G Address EdgeData] in
theorem Yields.unique {other : U256} (hleft : searcher.Yields problem path amount)
    (hright : searcher.Yields problem path other) : amount = other := by
  obtain ⟨_, hleft⟩ := hleft
  obtain ⟨_, hright⟩ := hright
  have heq := hleft.symm.trans hright
  simp only [Except.ok.injEq, Prod.mk.injEq] at heq
  exact heq.2

omit [StableDiGraph G Address EdgeData] in
theorem yields_append_singleton :
    searcher.Yields problem (path ++ [hop]) amount ↔
      ∃ before, searcher.Yields problem path before ∧
        (searcher.quoteEnv problem.simConfig).quoteHop searcher.quoteContext hop before =
          .ok amount := by
  unfold Yields
  rw [QuoteEnv.traceHops_append_singleton]
  constructor
  · rintro ⟨hopQuotes, htrace⟩
    split at htrace
    · cases htrace
    · rename_i quotes before hpath
      split at htrace
      · cases htrace
      · rename_i amountOut hquote
        simp only [Except.ok.injEq, Prod.mk.injEq] at htrace
        exact ⟨before, ⟨quotes, hpath⟩, htrace.2 ▸ hquote⟩
  · rintro ⟨before, ⟨quotes, hpath⟩, hquote⟩
    refine ⟨quotes ++ [⟨hop, before, amount⟩], ?_⟩
    rw [hpath]
    simp only
    rw [hquote]

omit [StableDiGraph G Address EdgeData] in
/-- A prefix of a path that can be quoted can be quoted. -/
theorem Yields.of_isPrefix {whole : RoutePath}
    (hwhole : searcher.Yields problem whole amount) (hpre : path <+: whole) :
    ∃ before, searcher.Yields problem path before := by
  obtain ⟨rest, rfl⟩ := hpre
  induction rest using List.reverseRecOn generalizing amount with
  | nil => exact ⟨amount, by simpa using hwhole⟩
  | append_singleton rest last ih =>
      rw [← List.append_assoc] at hwhole
      obtain ⟨before, hbefore, _⟩ := yields_append_singleton.mp hwhole
      exact ih hbefore

theorem Displaces.length_le {other : RoutePath}
    (hdisplaces : searcher.Displaces problem other path) : other.length ≤ path.length := by
  obtain ⟨_, _, hother, hpath, houtdoes, _⟩ := hdisplaces
  have hcard := Finset.card_le_card houtdoes.visited
  unfold visitedOf at hcard
  rw [List.toFinset_card_of_nodup hother.isPrefix.tokens,
    List.toFinset_card_of_nodup hpath.isPrefix.tokens] at hcard
  simpa using hcard

theorem Displaces.trans {first second third : RoutePath}
    (hleft : searcher.Displaces problem first second)
    (hright : searcher.Displaces problem second third) :
    searcher.Displaces problem first third := by
  obtain ⟨amount, middle, hfirst, hsecond, houtdoes, hblocks⟩ := hleft
  obtain ⟨middle', least, hsecond', hthird, houtdoes', hblocks'⟩ := hright
  obtain rfl := hsecond.yields.unique hsecond'.yields
  exact ⟨amount, least, hfirst, hthird,
    ⟨houtdoes.token.trans houtdoes'.token, houtdoes.visited.trans houtdoes'.visited,
      houtdoes'.amount_le.trans houtdoes.amount_le⟩,
    fun pool hpool => hblocks' pool (hblocks pool hpool)⟩

section Contexts

variable {context : HeuristicContext} {state : HeuristicState}

theorem Sound.yields (hstate : searcher.Sound context state) :
    searcher.Yields context.problem state.path state.amount :=
  ⟨state.hopQuotes, hstate.trace⟩

/-- The open paths of a search are the prefixes of its problem. -/
theorem isOpen_iff : context.IsOpen searcher.graph path ↔
    searcher.graph.IsPrefix context.problem.config context.problem.tokenIn
      context.problem.tokenOut path := by
  constructor
  · rintro ⟨hedges, hconnects, hpools, htokens, hinter⟩
    exact ⟨hedges, hconnects, hpools, htokens, hinter⟩
  · rintro ⟨hedges, hconnects, hpools, htokens, hinter⟩
    exact ⟨hedges, hconnects, hpools, htokens, hinter⟩

theorem isRoute_iff (hallow : context.allowFinalSourceRevisit = false) :
    searcher.graph.IsRoute context.effective context.tokenIn context.tokenOut
        context.allowFinalSourceRevisit path ↔
      searcher.graph.IsRoute context.problem.config context.problem.tokenIn
        context.problem.tokenOut false path := by
  rw [hallow]
  constructor
  · rintro ⟨hedges, hconnects, hmin, hmax, hpools, htokens, hinter⟩
    exact ⟨hedges, hconnects, hmin, hmax, hpools, htokens, hinter⟩
  · rintro ⟨hedges, hconnects, hmin, hmax, hpools, htokens, hinter⟩
    exact ⟨hedges, hconnects, hmin, hmax, hpools, htokens, hinter⟩

/-- The blocked pools of a sound state, over tokens instead of nodes. -/
theorem mem_futureBlockedPools_iff (hresolved : context.Resolved searcher.graph)
    (hne : context.tokenIn ≠ context.tokenOut)
    (hstate : searcher.Sound context state) (pool : PoolKey) :
    pool ∈ searcher.futureBlockedPools context state.node state.visitedTokens
        state.usedPools ↔ searcher.Blocks context.problem state.path pool := by
  unfold futureBlockedPools
  rw [List.mem_toFinset, List.mem_map]
  simp only [List.mem_filter, decide_eq_true_eq, hstate.used, hstate.visited, mem_usedOf]
  constructor
  · rintro ⟨edge, ⟨hedge, hpool, hadmits⟩, rfl⟩
    obtain ⟨_, hout, hhop⟩ :=
      (hresolved.indexed.mem_outgoingEdges hstate.node edge).mp hedge
    refine ⟨hpool, edge.tokenOut, hhop, ?_⟩
    rcases (HeuristicContext.admits_iff hresolved hstate.isOpen hout).mp hadmits with
      ⟨htarget, _⟩ | ⟨_, hnew, hallowed⟩
    · exact Or.inl htarget
    · exact Or.inr ⟨hnew, hallowed⟩
  · rintro ⟨hpool, tokenOut, hhop, hcase⟩
    obtain ⟨e, record, _, _, _, hout⟩ := id hhop
    have hnode := (hresolved.indexed.linked.node_iff _ _).mpr hout
    refine ⟨⟨record.target, endToken context.tokenIn state.path, tokenOut, pool⟩,
      ⟨?_, hpool, ?_⟩, rfl⟩
    · exact (hresolved.indexed.mem_outgoingEdges hstate.node _).mpr ⟨rfl, hnode, hhop⟩
    · refine (@HeuristicContext.admits_iff G _ context searcher.graph state.path
        hresolved hstate.isOpen ⟨record.target, _, tokenOut, pool⟩ hnode).mpr ?_
      by_cases htarget : tokenOut = context.tokenOut
      · exact Or.inl ⟨htarget, Or.inr hne⟩
      · rcases hcase with heq | ⟨hnew, hallowed⟩
        · exact absurd heq htarget
        · exact Or.inr ⟨htarget, hnew, hallowed⟩

end Contexts

end AmmSearcher

end AmmSearch
