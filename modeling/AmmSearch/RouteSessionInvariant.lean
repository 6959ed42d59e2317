/-
What a route session keeps between refreshes.  Every pool that a cached quote can
depend on is filed in one of the two indexes, so a refresh that names the pool drops
the cached quote; every table entry is what quoting its path gives now.
-/
import AmmSearch.RouteSession

open FiniteMap StableGraph MemoTable

namespace AmmSearch

namespace PoolPathIndex

variable {index : PoolPathIndex} {pool other : PoolKey} {path found : RoutePath}

@[simp]
theorem mem_pathsOf_insertPath :
    found ∈ (index.insertPath pool path).pathsOf other ↔
      (other = pool ∧ found = path) ∨ found ∈ index.pathsOf other := by
  unfold pathsOf insertPath
  rw [lookup_alter]
  by_cases hpool : other = pool
  · subst hpool
    simp
  · simp [hpool]

end PoolPathIndex

theorem mem_pathsOf_indexRoutePath {index : PoolPathIndex} {pool : PoolKey}
    {path found : RoutePath} :
    found ∈ (indexRoutePath path index).pathsOf pool ↔
      (found = path ∧ ∃ hop ∈ path, hop.pool = pool) ∨ found ∈ index.pathsOf pool := by
  have hfold : ∀ hops : List Hop, ∀ index : PoolPathIndex,
      found ∈ (hops.foldl (fun index hop => index.insertPath hop.pool path) index).pathsOf
        pool ↔ (found = path ∧ ∃ hop ∈ hops, hop.pool = pool) ∨ found ∈ index.pathsOf pool := by
    intro hops
    induction hops with
    | nil => simp
    | cons hop rest ih =>
        intro index
        rw [List.foldl_cons, ih, PoolPathIndex.mem_pathsOf_insertPath, ← or_assoc]
        simp only [List.mem_cons, exists_eq_or_imp, and_or_left]
        rw [or_comm (a := found = path ∧ hop.pool = pool), eq_comm (a := pool),
          and_comm (a := hop.pool = pool)]
  exact hfold path index

section Probes

variable {index : PoolPathIndex} {pool : PoolKey} {path found : RoutePath} {hopIndex : ℕ}
  {hop : Hop}

theorem mem_pathsOf_indexProbeForEdge {edge : CachedOutgoingEdge} :
    found ∈ (indexProbeForEdge path hopIndex hop index edge).pathsOf pool ↔
      (probeForEdge path hopIndex hop edge = some found ∧
        (pool = hop.pool ∨ pool = edge.pool)) ∨ found ∈ index.pathsOf pool := by
  unfold indexProbeForEdge
  split
  · rename_i hnone
    simp [hnone]
  · rename_i probe hprobe
    rw [PoolPathIndex.mem_pathsOf_insertPath, PoolPathIndex.mem_pathsOf_insertPath, hprobe,
      Option.some.injEq]
    constructor
    · rintro (⟨hpool, rfl⟩ | ⟨hpool, rfl⟩ | hold)
      · exact Or.inl ⟨rfl, Or.inr hpool⟩
      · exact Or.inl ⟨rfl, Or.inl hpool⟩
      · exact Or.inr hold
    · rintro (⟨rfl, hpool | hpool⟩ | hold)
      · exact Or.inr (Or.inl ⟨hpool, rfl⟩)
      · exact Or.inl ⟨hpool, rfl⟩
      · exact Or.inr (Or.inr hold)

theorem mem_pathsOf_foldl_indexProbeForEdge {edges : List CachedOutgoingEdge} :
    found ∈ (edges.foldl (indexProbeForEdge path hopIndex hop) index).pathsOf pool ↔
      (∃ edge ∈ edges, probeForEdge path hopIndex hop edge = some found ∧
        (pool = hop.pool ∨ pool = edge.pool)) ∨ found ∈ index.pathsOf pool := by
  rw [or_comm]
  refine foldl_iff (fun index => found ∈ index.pathsOf pool) _ ?_ edges index
  intro index edge
  rw [mem_pathsOf_indexProbeForEdge, or_comm]

variable {G : Type} {searcher : AmmSearcher G}

/-- `found` replaces one hop of `path` by a parallel edge, and `pool` is one of the
two pools. -/
def AmmSearcher.IsProbe (searcher : AmmSearcher G) (path : RoutePath) (pool : PoolKey)
    (found : RoutePath) : Prop :=
  ∃ hopIndex hop node edge, path[hopIndex]? = some hop ∧
    searcher.graph.nodeIndex hop.tokenIn = some node ∧
    edge ∈ searcher.graph.outgoingEdges node ∧
    probeForEdge path hopIndex hop edge = some found ∧
    (pool = hop.pool ∨ pool = edge.pool)

theorem mem_pathsOf_indexProbePathsForRoute :
    found ∈ (searcher.indexProbePathsForRoute path index).pathsOf pool ↔
      searcher.IsProbe path pool found ∨ found ∈ index.pathsOf pool := by
  have hfold : found ∈ (searcher.indexProbePathsForRoute path index).pathsOf pool ↔
      found ∈ index.pathsOf pool ∨
        ∃ entry ∈ path.zipIdx, ∃ node, searcher.graph.nodeIndex entry.1.tokenIn = some node ∧
          ∃ edge ∈ searcher.graph.outgoingEdges node,
            probeForEdge path entry.2 entry.1 edge = some found ∧
              (pool = entry.1.pool ∨ pool = edge.pool) := by
    refine foldl_iff (fun index => found ∈ index.pathsOf pool) _ ?_ path.zipIdx index
    rintro index ⟨hop, hopIndex⟩
    dsimp only
    cases hnode : searcher.graph.nodeIndex hop.tokenIn with
    | none => simp
    | some node =>
        simp only [mem_pathsOf_foldl_indexProbeForEdge, Option.some.injEq, exists_eq_left']
        rw [or_comm]
  rw [hfold, or_comm]
  unfold AmmSearcher.IsProbe
  constructor
  · rintro (⟨⟨hop, hopIndex⟩, hentry, node, hnode, edge, hedge, hprobe⟩ | hold)
    · rw [List.mem_zipIdx_iff_getElem?] at hentry
      exact Or.inl ⟨hopIndex, hop, node, edge, hentry, hnode, hedge, hprobe⟩
    · exact Or.inr hold
  · rintro (⟨hopIndex, hop, node, edge, hentry, hnode, hedge, hprobe⟩ | hold)
    · refine Or.inl ⟨⟨hop, hopIndex⟩, ?_, node, hnode, edge, hedge, hprobe⟩
      rw [List.mem_zipIdx_iff_getElem?]
      exact hentry
    · exact Or.inr hold

/-- A probe only differs in the pool of one hop. -/
theorem probeForEdge_spec {edge : CachedOutgoingEdge}
    (hprobe : probeForEdge path hopIndex hop edge = some found) :
    edge.tokenOut = hop.tokenOut ∧
      found = path.set hopIndex ⟨edge.pool, hop.tokenIn, hop.tokenOut⟩ := by
  unfold probeForEdge at hprobe
  split at hprobe
  · cases hprobe
  · rename_i htoken
    split at hprobe
    · cases hprobe
    · split at hprobe
      · cases hprobe
      · exact ⟨not_not.mp htoken, (Option.some.inj hprobe).symm⟩

/-- An edge without a probe is used by the path. -/
theorem mem_of_probeForEdge_none {edge : CachedOutgoingEdge}
    (hhop : path[hopIndex]? = some hop) (htoken : edge.tokenOut = hop.tokenOut)
    (hnone : probeForEdge path hopIndex hop edge = none) :
    ∃ used ∈ path, used.pool = edge.pool := by
  unfold probeForEdge at hnone
  rw [if_neg (not_not.mpr htoken)] at hnone
  split at hnone
  · rename_i hpool
    exact ⟨hop, List.mem_of_getElem? hhop, hpool.symm⟩
  · split at hnone
    · rename_i hused
      rw [List.any_eq_true] at hused
      obtain ⟨⟨used, index⟩, hentry, htest⟩ := hused
      rw [List.mem_zipIdx_iff_getElem?] at hentry
      simp only [Bool.and_eq_true, decide_eq_true_eq] at htest
      exact ⟨used, List.mem_of_getElem? hentry, htest.2⟩
    · cases hnone

end Probes

/-- Two results that agree up to their errors. -/
theorem toOption_eq_cases {ε α : Type} {left right : Except ε α}
    (hsame : left.toOption = right.toOption) :
    (∃ value, left = .ok value ∧ right = .ok value) ∨
      ∃ error other, left = .error error ∧ right = .error other := by
  cases left with
  | ok value =>
      cases right with
      | ok found => exact Or.inl ⟨value, rfl, by rw [Option.some.inj hsame]⟩
      | error other => cases hsame
  | error error =>
      cases right with
      | ok found => cases hsame
      | error other => exact Or.inr ⟨error, other, rfl, rfl⟩

namespace QuoteEnv

variable {env other : QuoteEnv}

/-- The two states give the same amounts for every hop of the pool. -/
def Alike (env other : QuoteEnv) (pool : PoolKey) : Prop :=
  ∀ hop amount, hop.pool = pool →
    (env.simulateHop hop amount).toOption = (other.simulateHop hop amount).toOption

theorem toOption_quoteHopUncached (hop : Hop) (amount : U256) :
    (env.quoteHopUncached hop amount).toOption = (env.simulateHop hop amount).toOption := by
  unfold quoteHopUncached
  cases env.simulateHop hop amount <;> rfl

theorem toOption_quoteHops {path : RoutePath}
    (halike : ∀ hop ∈ path, env.Alike other hop.pool) (amount : U256) :
    (env.quoteHops path amount).toOption = (other.quoteHops path amount).toOption := by
  induction path generalizing amount with
  | nil => rfl
  | cons hop rest ih =>
      rw [List.forall_mem_cons] at halike
      rw [quoteHops, quoteHops]
      obtain ⟨amountOut, hleft, hright⟩ | ⟨_, _, hleft, hright⟩ :=
        toOption_eq_cases (halike.1 hop amount rfl)
      · simp only [hleft, hright]
        obtain ⟨result, hleft, hright⟩ | ⟨_, _, hleft, hright⟩ :=
          toOption_eq_cases (ih halike.2 amountOut)
        · rw [hleft, hright]
        · rw [hleft, hright]
          rfl
      · rw [hleft, hright]
        rfl

/-- A path is quoted alike when all its pools are. -/
theorem toOption_quotePathWithRegistry {path : RoutePath}
    (halike : ∀ hop ∈ path, env.Alike other hop.pool) (amountIn : U256) :
    (env.quotePathWithRegistry path amountIn).toOption =
      (other.quotePathWithRegistry path amountIn).toOption := by
  unfold quotePathWithRegistry
  split
  · rfl
  · obtain ⟨result, hleft, hright⟩ | ⟨_, _, hleft, hright⟩ :=
      toOption_eq_cases (toOption_quoteHops halike amountIn)
    · rw [hleft, hright]
    · rw [hleft, hright]
      rfl

theorem path_of_quotePathWithRegistry {path : RoutePath} {amountIn : U256}
    {quote : RouteQuote} (hquote : env.quotePathWithRegistry path amountIn = .ok quote) :
    quote.path = path ∧ path ≠ [] := by
  unfold quotePathWithRegistry at hquote
  split at hquote
  · cases hquote
  · rename_i hpath
    split at hquote
    · cases hquote
    · rw [← Except.ok.inj hquote]
      exact ⟨rfl, hpath⟩

/-- A key names its hop and its amount. -/
theorem quoteKey_spec {context : QuoteKeyContext} (hkeyed : context.Keyed) {hop : Hop}
    {amount : U256} {key : HopQuoteKey} (hkey : env.quoteKey context hop amount = .ok key) :
    (⟨key.logicalPool, key.tokenIn, key.tokenOut⟩ : Hop) = hop ∧ key.amountIn = amount := by
  unfold quoteKey at hkey
  split at hkey
  · cases hkey
  · rename_i scope hscope
    obtain rfl := Except.ok.inj hkey
    cases context with
    | static =>
        obtain rfl := Except.ok.inj hscope
        exact ⟨rfl, rfl⟩
    | live point poolInstance revisions =>
        simp only [QuoteKeyContext.poolScope] at hscope
        split at hscope
        · rename_i state hstate
          obtain rfl := Except.ok.inj hscope
          obtain ⟨instanceId, hinstance, hrevision⟩ := Option.bind_eq_some_iff.mp hstate
          obtain ⟨revision, _, rfl⟩ := Option.map_eq_some_iff.mp hrevision
          have hpool : instanceId.key = hop.pool := hkeyed hop.pool instanceId hinstance
          exact ⟨by simp only [HopQuoteKey.logicalPool, hpool], rfl⟩
        · cases hscope

/-- Every pool that can be quoted has a cache scope. -/
def Published (env : QuoteEnv) (context : QuoteKeyContext) : Prop :=
  ∀ hop amount amountOut, env.simulateHop hop amount = .ok amountOut →
    ∃ scope, context.poolScope hop.pool = .ok scope

/-- With a scope for every pool that can be quoted, tracing a path misses no quote. -/
theorem traceHops_of_quoteHops {context : QuoteKeyContext}
    (hpublished : env.Published context) {path : RoutePath} {amount amountOut : U256}
    {hops : List HopQuote} (hquote : env.quoteHops path amount = .ok (hops, amountOut)) :
    env.traceHops context path amount = .ok (hops, amountOut) := by
  induction path generalizing amount hops with
  | nil =>
      rw [quoteHops, Except.ok.injEq] at hquote
      rw [traceHops, hquote]
  | cons hop rest ih =>
      rw [quoteHops] at hquote
      cases hsimulate : env.simulateHop hop amount with
      | error error => simp [hsimulate] at hquote
      | ok next =>
          have hhop : env.quoteHop context hop amount = .ok next := by
            rw [quoteHop_of_scope (hpublished hop amount next hsimulate), quoteHopUncached,
              hsimulate]
          simp only [hsimulate] at hquote
          cases hrest : env.quoteHops rest next with
          | error error => simp [hrest] at hquote
          | ok result =>
              obtain ⟨hops', final⟩ := result
              simp only [hrest, Except.ok.injEq, Prod.mk.injEq] at hquote
              obtain ⟨rfl, rfl⟩ := hquote
              simp [traceHops, hhop, ih hrest]

end QuoteEnv

/-- The entry is what quoting its path gives. -/
def RouteSessionEntry.Truthful (env : QuoteEnv) (amountIn : U256) (path : RoutePath)
    (entry : RouteSessionEntry) : Prop :=
  match env.quotePathWithRegistry path amountIn with
  | .ok quote => entry = .quoted quote
  | .error _ => entry = .failed

theorem RouteSessionEntry.Truthful.of_alike {env other : QuoteEnv} {amountIn : U256}
    {path : RoutePath} {entry : RouteSessionEntry} (htrue : entry.Truthful env amountIn path)
    (halike : ∀ hop ∈ path, env.Alike other hop.pool) :
    entry.Truthful other amountIn path := by
  unfold Truthful at htrue ⊢
  obtain ⟨quote, hleft, hright⟩ | ⟨_, _, hleft, hright⟩ :=
    toOption_eq_cases (QuoteEnv.toOption_quotePathWithRegistry halike amountIn)
  · simpa [hleft, hright] using htrue
  · simpa [hleft, hright] using htrue

namespace RouteSearchSession

variable {G : Type} {searcher : AmmSearcher G} {session : RouteSearchSession}

/-- A table path has a hop from `tokenIn` to `tokenOut`. -/
def HasPair (session : RouteSearchSession) (tokenIn tokenOut : Address) : Prop :=
  ∃ path ∈ session.routeTable, ∃ hop ∈ path, hop.tokenIn = tokenIn ∧ hop.tokenOut = tokenOut

/-- A refresh that names the pool finds a path under it. -/
def Files (session : RouteSearchSession) (pool : PoolKey) : Prop :=
  ∃ path, path ∈ session.poolToRoutes.pathsOf pool ∨
    path ∈ session.parallelProbeIndex.pathsOf pool

/-- The hop is between tokens of a table path, and its pool is filed. -/
def Covers (session : RouteSearchSession) (hop : Hop) : Prop :=
  session.Files hop.pool ∧ session.HasPair hop.tokenIn hop.tokenOut

structure Indexed (session : RouteSearchSession) : Prop where
  routes : ∀ path ∈ session.routeTable, ∀ hop ∈ path,
    path ∈ session.poolToRoutes.pathsOf hop.pool
  tabled : ∀ pool path, path ∈ session.poolToRoutes.pathsOf pool →
    path ∈ session.routeTable
  probes : ∀ pool probe, probe ∈ session.parallelProbeIndex.pathsOf pool →
    ∀ hop ∈ probe, session.Covers hop

theorem Indexed.covers (hindexed : session.Indexed) {path : RoutePath}
    (hpath : path ∈ session.routeTable) {hop : Hop} (hhop : hop ∈ path) :
    session.Covers hop :=
  ⟨⟨path, Or.inl (hindexed.routes path hpath hop hhop)⟩, path, hpath, hop, hhop, rfl, rfl⟩

/-- What of the cache the session relies on: quotes between tokens of the table. -/
def Allowed (session : RouteSearchSession) (env : QuoteEnv) (key : HopQuoteKey)
    (entry : Except Text U256) : Prop :=
  session.HasPair key.tokenIn key.tokenOut →
    session.Files key.logicalPool ∧
      entry.toOption =
        (env.simulateHop ⟨key.logicalPool, key.tokenIn, key.tokenOut⟩ key.amountIn).toOption

/-- `best` has the largest output in the table, and is absent exactly when no entry has
a quote. -/
def BestOfTable (session : RouteSearchSession) : Prop :=
  match session.best with
  | none => ∀ path quote, session.routeTable.lookup path ≠ some (.quoted quote)
  | some best =>
      (∃ path, session.routeTable.lookup path = some (.quoted best)) ∧
        ∀ path quote, session.routeTable.lookup path = some (.quoted quote) →
          quote.amountOut ≤ best.amountOut

/-- Every table entry is what quoting its path gives now, and `best` is the best of
them. -/
structure Exact (session : RouteSearchSession) (env : QuoteEnv) : Prop where
  entries : ∀ path entry, session.routeTable.lookup path = some entry →
    entry.Truthful env session.request.amountIn path
  best : session.BestOfTable

/-- The invariant of a session between refreshes. -/
structure Current (session : RouteSearchSession) (env : QuoteEnv) : Prop where
  indexed : session.Indexed
  exact : session.Exact env
  filed : session.quoteCache.Filed
  settled : Settled SharedQuoteCache.table (session.Allowed env) session.quoteCache

section Insert

variable {quote : RouteQuote}

theorem mem_routeTable_insertQuote {path : RoutePath} :
    path ∈ (session.insertQuote searcher quote).routeTable ↔
      path = quote.path ∨ path ∈ session.routeTable :=
  Finmap.mem_insert

theorem HasPair.insertQuote {tokenIn tokenOut : Address}
    (hpair : session.HasPair tokenIn tokenOut) :
    (session.insertQuote searcher quote).HasPair tokenIn tokenOut := by
  obtain ⟨path, hpath, hhop⟩ := hpair
  exact ⟨path, mem_routeTable_insertQuote.mpr (Or.inr hpath), hhop⟩

theorem Files.insertQuote {pool : PoolKey} (hfiles : session.Files pool) :
    (session.insertQuote searcher quote).Files pool := by
  obtain ⟨path, hpath | hpath⟩ := hfiles
  · exact ⟨path, Or.inl (mem_pathsOf_indexRoutePath.mpr (Or.inr hpath))⟩
  · exact ⟨path, Or.inr (mem_pathsOf_indexProbePathsForRoute.mpr (Or.inr hpath))⟩

theorem Covers.insertQuote {hop : Hop} (hcovers : session.Covers hop) :
    (session.insertQuote searcher quote).Covers hop :=
  ⟨hcovers.1.insertQuote, hcovers.2.insertQuote⟩

theorem covers_insertQuote_self {hop : Hop} (hhop : hop ∈ quote.path) :
    (session.insertQuote searcher quote).Covers hop := by
  refine ⟨⟨quote.path, Or.inl ?_⟩, quote.path, ?_, hop, hhop, rfl, rfl⟩
  · exact mem_pathsOf_indexRoutePath.mpr (Or.inl ⟨rfl, hop, hhop, rfl⟩)
  · exact mem_routeTable_insertQuote.mpr (Or.inl rfl)

theorem Indexed.insertQuote (hindexed : session.Indexed) :
    (session.insertQuote searcher quote).Indexed := by
  constructor
  · intro path hpath hop hhop
    obtain rfl | hold := mem_routeTable_insertQuote.mp hpath
    · exact mem_pathsOf_indexRoutePath.mpr (Or.inl ⟨rfl, hop, hhop, rfl⟩)
    · exact mem_pathsOf_indexRoutePath.mpr (Or.inr (hindexed.routes path hold hop hhop))
  · intro pool path hpath
    obtain ⟨rfl, _⟩ | hold := mem_pathsOf_indexRoutePath.mp hpath
    · exact mem_routeTable_insertQuote.mpr (Or.inl rfl)
    · exact mem_routeTable_insertQuote.mpr (Or.inr (hindexed.tabled pool path hold))
  · intro pool probe hprobe hop hhop
    obtain hnew | hold := mem_pathsOf_indexProbePathsForRoute.mp hprobe
    · have hfiled : ∀ pool, searcher.IsProbe quote.path pool probe →
          (session.insertQuote searcher quote).Files pool := fun pool hpool =>
        ⟨probe, Or.inr (mem_pathsOf_indexProbePathsForRoute.mpr (Or.inl hpool))⟩
      obtain ⟨hopIndex, replaced, node, edge, hreplaced, hnode, hedge, hset, _⟩ := hnew
      obtain ⟨_, rfl⟩ := probeForEdge_spec hset
      obtain hkept | rfl := List.mem_or_eq_of_mem_set hhop
      · exact covers_insertQuote_self hkept
      · have hpair := (@covers_insertQuote_self G searcher session quote replaced
          (List.mem_of_getElem? hreplaced)).2
        refine ⟨hfiled edge.pool ?_, hpair⟩
        exact ⟨hopIndex, replaced, node, edge, hreplaced, hnode, hedge, hset, Or.inr rfl⟩
    · exact (hindexed.probes pool probe hold hop hhop).insertQuote

theorem HasPair.of_insertQuote {tokenIn tokenOut : Address}
    (hpair : (session.insertQuote searcher quote).HasPair tokenIn tokenOut) :
    session.HasPair tokenIn tokenOut ∨
      ∃ hop ∈ quote.path, hop.tokenIn = tokenIn ∧ hop.tokenOut = tokenOut := by
  obtain ⟨path, hpath, hhop⟩ := hpair
  obtain rfl | hold := mem_routeTable_insertQuote.mp hpath
  · exact Or.inr hhop
  · exact Or.inl ⟨path, hold, hhop⟩

end Insert

section InsertAll

variable (searcher) (session) (quotes : List RouteQuote)

def insertQuotes : RouteSearchSession := quotes.foldl (insertQuote searcher) session

variable {searcher} {session} {quotes}

@[simp]
theorem request_insertQuotes :
    (session.insertQuotes searcher quotes).request = session.request := by
  unfold insertQuotes
  induction quotes generalizing session with
  | nil => rfl
  | cons quote rest ih => exact ih

@[simp]
theorem graphVersion_insertQuotes :
    (session.insertQuotes searcher quotes).graphVersion = session.graphVersion := by
  unfold insertQuotes
  induction quotes generalizing session with
  | nil => rfl
  | cons quote rest ih => exact ih

@[simp]
theorem quoteCache_insertQuotes :
    (session.insertQuotes searcher quotes).quoteCache = session.quoteCache := by
  unfold insertQuotes
  induction quotes generalizing session with
  | nil => rfl
  | cons quote rest ih => exact ih

@[simp]
theorem best_insertQuotes :
    (session.insertQuotes searcher quotes).best = session.best := by
  unfold insertQuotes
  induction quotes generalizing session with
  | nil => rfl
  | cons quote rest ih => exact ih

theorem Indexed.insertQuotes (hindexed : session.Indexed) :
    (session.insertQuotes searcher quotes).Indexed := by
  unfold RouteSearchSession.insertQuotes
  induction quotes generalizing session with
  | nil => exact hindexed
  | cons quote rest ih => exact ih hindexed.insertQuote

theorem Files.insertQuotes {pool : PoolKey} (hfiles : session.Files pool) :
    (session.insertQuotes searcher quotes).Files pool := by
  unfold RouteSearchSession.insertQuotes
  induction quotes generalizing session with
  | nil => exact hfiles
  | cons quote rest ih => exact ih hfiles.insertQuote

theorem HasPair.insertQuotes {tokenIn tokenOut : Address}
    (hpair : session.HasPair tokenIn tokenOut) :
    (session.insertQuotes searcher quotes).HasPair tokenIn tokenOut := by
  unfold RouteSearchSession.insertQuotes
  induction quotes generalizing session with
  | nil => exact hpair
  | cons quote rest ih => exact ih hpair.insertQuote

theorem HasPair.of_insertQuotes {tokenIn tokenOut : Address}
    (hpair : (session.insertQuotes searcher quotes).HasPair tokenIn tokenOut) :
    session.HasPair tokenIn tokenOut ∨
      ∃ quote ∈ quotes, ∃ hop ∈ quote.path, hop.tokenIn = tokenIn ∧ hop.tokenOut = tokenOut := by
  unfold RouteSearchSession.insertQuotes at hpair
  induction quotes generalizing session with
  | nil => exact Or.inl hpair
  | cons quote rest ih =>
      obtain hrest | ⟨other, hother, hhop⟩ := ih hpair
      · obtain hold | hhop := hrest.of_insertQuote
        · exact Or.inl hold
        · exact Or.inr ⟨quote, List.mem_cons_self, hhop⟩
      · exact Or.inr ⟨other, List.mem_cons_of_mem quote hother, hhop⟩

/-- The table after a sequence of quotes: the last one of a path replaces its entry. -/
theorem lookup_insertQuotes (path : RoutePath) :
    (∃ quote ∈ quotes, quote.path = path ∧
        (session.insertQuotes searcher quotes).routeTable.lookup path =
          some (.quoted quote)) ∨
      ((∀ quote ∈ quotes, quote.path ≠ path) ∧
        (session.insertQuotes searcher quotes).routeTable.lookup path =
          session.routeTable.lookup path) := by
  unfold RouteSearchSession.insertQuotes
  induction quotes generalizing session with
  | nil => exact Or.inr ⟨by simp, rfl⟩
  | cons quote rest ih =>
      rw [List.foldl_cons]
      have hhead : (session.insertQuote searcher quote).routeTable.lookup path =
          if path = quote.path then some (.quoted quote)
          else session.routeTable.lookup path := lookup_insert_eq _ _ _ _
      obtain ⟨other, hother, hpath, hlookup⟩ | ⟨hnone, hlookup⟩ := @ih
        (session.insertQuote searcher quote)
      · exact Or.inl ⟨other, List.mem_cons_of_mem quote hother, hpath, hlookup⟩
      · by_cases hpath : path = quote.path
        · rw [hhead, if_pos hpath] at hlookup
          exact Or.inl ⟨quote, List.mem_cons_self, hpath.symm, hlookup⟩
        · rw [hhead, if_neg hpath] at hlookup
          refine Or.inr ⟨?_, hlookup⟩
          rw [List.forall_mem_cons]
          exact ⟨Ne.symm hpath, hnone⟩

end InsertAll

end RouteSearchSession

end AmmSearch
