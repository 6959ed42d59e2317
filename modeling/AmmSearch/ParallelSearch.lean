/-
Parallel search.  The paths of one request, or the requests of a batch, are dealt
out to workers that share one quote cache; the results are merged in worker order
and sorted again.  Whatever the interleaving of the workers, this is the
sequential search.
-/
import AmmSearch.HeuristicOutcome
import AmmSearch.QuoteProgram
import AmmSearch.StreamingWorkers

open FiniteMap StableGraph MemoTable

namespace AmmSearch

/-- Deal the items out in turn, with their positions, and drop the empty chunks. -/
def splitIndexedItems {α : Type} (items : List α) (workers : ℕ) : List (List (ℕ × α)) :=
  (items.zipIdx.foldl
    (fun chunks (item, index) => chunks.modify (index % workers) (· ++ [(index, item)]))
    (List.replicate workers [])).filter fun chunk => !chunk.isEmpty

/-- Put the results back into the order of their positions. -/
def collectOrderedResults {α : Type} (results : List (ℕ × α)) : List α :=
  (results.insertionSort fun left right => left.1 ≤ right.1).map Prod.snd

/-- Run one program a worker on a new cache, interleaved by `schedule` and then to
their end. -/
def runOnNewCache {ρ : Type} (programs : List (QuoteProgram ρ)) (schedule : List ℕ) :
    Option (List ρ) :=
  collect (settle SharedQuoteCache.table
    (run SharedQuoteCache.table ⟨.empty, programs.map Worker.asking⟩ schedule))

namespace AmmSearcher

variable {G : Type} [StableDiGraph G Address EdgeData] (searcher : AmmSearcher G)

/-- Quote `paths` on the workers and rank the quotes.  The result is absent while a
worker has not finished. -/
def quoteAndRankParallel (paths : List RoutePath) (amountIn : U256)
    (simConfig : SimConfig) (parallel : ParallelSearchConfig) (schedule : List ℕ) :
    Option (Except SearchError (List RouteQuote)) :=
  match parallel.validate with
  | .error error => some (.error error)
  | .ok () =>
      let quotePaths := fun chunk => quotePathsWithRegistryCached
        (searcher.quoteEnv simConfig) searcher.quoteContext chunk amountIn
      let workerCount := min parallel.workers (max paths.length 1)
      let chunks := splitPaths paths workerCount
      let reports :=
        if workerCount = 1 then runOnNewCache [quotePaths (chunks.headD [])] schedule
        else runOnNewCache (chunks.map quotePaths) schedule
      reports.map fun reports =>
        rankOrNoViable paths.length (reports.flatMap Prod.fst) (reports.flatMap Prod.snd)

def findRoutesParallel (request : RouteRequest) (parallel : ParallelSearchConfig)
    (schedule : List ℕ) : Option (Except SearchError (List RouteQuote)) :=
  match request.config.mode with
  | .heuristic _ =>
      match parallel.validate with
      | .error error => some (.error error)
      | .ok () => some (searcher.findRoutes request)
  | .exhaustive =>
      match searcher.graph.enumerateRoutesFiltered request.tokenIn request.tokenOut
          request.config false ∅ request.config.maxCandidates none with
      | .error error => some (.error error)
      | .ok enumeration =>
          searcher.quoteAndRankParallel enumeration.paths request.amountIn
            request.simConfig parallel schedule

/-- One request against a shared cache.  The heuristic search is taken with its hop
quotes answered at once. -/
def findRoutesWithQuoteCache (request : RouteRequest) :
    QuoteProgram (Except SearchError (List RouteQuote)) :=
  match request.config.mode with
  | .heuristic _ => .done (searcher.findRoutes request)
  | .exhaustive =>
      match searcher.graph.enumerateRoutesFiltered request.tokenIn request.tokenOut
          request.config false ∅ request.config.maxCandidates none with
      | .error error => .done (.error error)
      | .ok enumeration =>
          (quotePathsWithRegistryCached (searcher.quoteEnv request.simConfig)
            searcher.quoteContext enumeration.paths request.amountIn).bind fun report =>
              .done (rankOrNoViable enumeration.paths.length report.1 report.2)

/-- The requests of one worker, one after the other.  The cache keeps the context it
was created with. -/
def findRouteRequestChunk :
    List (ℕ × RouteRequest) →
      QuoteProgram (List (ℕ × Except SearchError (List RouteQuote)))
  | [] => .done []
  | (index, request) :: rest =>
      (searcher.findRoutesWithQuoteCache request).bind fun result =>
        (findRouteRequestChunk rest).bind fun results => .done ((index, result) :: results)

def findRoutesBatchParallel (requests : List RouteRequest)
    (parallel : ParallelSearchConfig) (schedule : List ℕ) :
    Option (Except SearchError (List (Except SearchError (List RouteQuote)))) :=
  match parallel.validate with
  | .error error => some (.error error)
  | .ok () =>
      if requests = [] then some (.ok [])
      else
        let workerCount := min parallel.workers requests.length
        let chunks := splitIndexedItems requests workerCount
        let results :=
          if workerCount = 1 then
            runOnNewCache [searcher.findRouteRequestChunk (chunks.headD [])] schedule
          else runOnNewCache (chunks.map searcher.findRouteRequestChunk) schedule
        results.map fun results => .ok (collectOrderedResults results.flatten)

end AmmSearcher

section Workers

variable {registry : AdapterRegistry} {debug : DebugText} {context : QuoteKeyContext}

/-- Programs on a new cache end with their own results. -/
theorem runOnNewCache_eq {ρ : Type} (hkeyed : context.Keyed) {programs : List (QuoteProgram ρ)}
    (hasks : ∀ program ∈ programs, program.Asks (AdapterAnswer registry debug context))
    (schedule : List ℕ) :
    runOnNewCache programs schedule = some (programs.map Program.eval) := by
  have hslot : ∀ key, SharedQuoteCache.table.slot .empty key = .absent := by
    intro key
    rfl
  have hsound : Sound SharedQuoteCache.table (AdapterAnswer registry debug context)
      ⟨.empty, programs.map Worker.asking⟩ := by
    refine ⟨?_, ?_, ?_⟩
    · intro key entry hready
      rw [hslot] at hready
      cases hready
    · intro worker hworker
      obtain ⟨program, hprogram, rfl⟩ := List.mem_map.mp hworker
      exact hasks program hprogram
    · intro key hflight
      rw [hslot] at hflight
      cases hflight
  obtain ⟨hcollect, _⟩ :=
    collect_settle_run (rightUnique_adapterAnswer hkeyed) hsound schedule
  rw [runOnNewCache, hcollect, List.map_map]
  rfl

end Workers

section Merge

/-- Results that carry their positions come back in the order of the items. -/
theorem collectOrderedResults_of_perm {α : Type} {results : List (ℕ × α)} {items : List α}
    (hperm : results.Perm (items.zipIdx.map Prod.swap)) :
    collectOrderedResults results = items := by
  have hordered : (items.zipIdx.map Prod.swap).Pairwise
      fun left right : ℕ × α => left.1 ≤ right.1 := by
    have hindices : ((items.zipIdx.map Prod.swap).map Prod.fst).Pairwise (· ≤ ·) := by
      have hfst : (items.zipIdx.map Prod.swap).map Prod.fst = List.range' 0 items.length := by
        rw [List.map_map]
        exact List.zipIdx_map_snd 0 items
      rw [hfst]
      exact List.pairwise_le_range'
    exact List.pairwise_map.mp hindices
  have : Std.Total fun left right : ℕ × α => left.1 ≤ right.1 :=
    ⟨fun left right => le_total left.1 right.1⟩
  have : IsTrans (ℕ × α) fun left right => left.1 ≤ right.1 :=
    ⟨fun _ _ _ hleft hright => hleft.trans hright⟩
  have hsorted := List.pairwise_insertionSort (fun left right : ℕ × α => left.1 ≤ right.1) results
  have hsame := (List.perm_insertionSort (fun left right : ℕ × α => left.1 ≤ right.1)
    results).trans hperm
  -- two results at one position are the same
  have hunique : ∀ left right, left ∈ items.zipIdx.map Prod.swap →
      right ∈ items.zipIdx.map Prod.swap → left.1 = right.1 → left = right := by
    intro left right hleft hright hindex
    obtain ⟨⟨item, index⟩, hitem, rfl⟩ := List.mem_map.mp hleft
    obtain ⟨⟨other, position⟩, hother, rfl⟩ := List.mem_map.mp hright
    rw [List.mem_zipIdx_iff_getElem?] at hitem hother
    simp only [Prod.fst_swap] at hindex hitem hother
    subst hindex
    rw [hitem, Option.some.injEq] at hother
    rw [hother]
  have heq : results.insertionSort (fun left right : ℕ × α => left.1 ≤ right.1) =
      items.zipIdx.map Prod.swap := by
    refine List.Perm.eq_of_pairwise ?_ hsorted hordered hsame
    intro left right hleft hright hle hge
    exact hunique left right (hsame.mem_iff.mp hleft) hright (le_antisymm hle hge)
  rw [collectOrderedResults, heq, List.map_map]
  exact List.zipIdx_map_fst 0 items

theorem perm_flatten_splitIndexedItems {α : Type} (items : List α) {workers : ℕ}
    (hworkers : 1 ≤ workers) :
    (splitIndexedItems items workers).flatten.Perm (items.zipIdx.map Prod.swap) := by
  have hdeal := @perm_flatten_deal α (ℕ × α) Prod.swap workers hworkers items.zipIdx
    (List.replicate workers []) List.length_replicate
  rw [splitIndexedItems, flatten_filter_ne_nil (by simp)]
  have hempty : (List.replicate workers ([] : List (ℕ × α))).flatten = [] := by simp
  rw [hempty, List.nil_append] at hdeal
  exact hdeal

theorem length_splitIndexedItems_le {α : Type} (items : List α) (workers : ℕ) :
    (splitIndexedItems items workers).length ≤ workers := by
  refine (List.length_filter_le _ _).trans (Nat.le_of_eq ?_)
  refine (length_foldl_modify Prod.swap workers items.zipIdx _).trans ?_
  exact List.length_replicate

variable {env : QuoteEnv} {context : QuoteKeyContext} {amountIn : U256}

/-- The outcomes of the chunks are the outcomes of the paths they were cut from. -/
theorem perm_outcomes_chunks {β : Type} (select : RouteQuote ⊕ PathFailure → Option β)
    (chunks : List (List RoutePath)) :
    (chunks.flatMap fun chunk =>
      ((quoteOrder chunk).map (env.pathOutcome context amountIn)).filterMap select).Perm
        ((chunks.flatten.map (env.pathOutcome context amountIn)).filterMap select) := by
  induction chunks with
  | nil => rfl
  | cons chunk rest ih =>
      rw [List.flatMap_cons, List.flatten_cons, List.map_append, List.filterMap_append]
      exact (((quoteOrder_perm chunk).map _).filterMap select).append ih

theorem perm_quotePathsWithRegistry_chunks {chunks : List (List RoutePath)}
    {paths : List RoutePath} (hchunks : chunks.flatten.Perm paths) :
    (chunks.flatMap fun chunk => (quotePathsWithRegistry env context chunk amountIn).1).Perm
        (quotePathsWithRegistry env context paths amountIn).1 ∧
      (chunks.flatMap fun chunk => (quotePathsWithRegistry env context chunk amountIn).2).Perm
        (quotePathsWithRegistry env context paths amountIn).2 := by
  have hpaths := hchunks.trans (quoteOrder_perm paths).symm
  simp only [quotePathsWithRegistry_eq]
  constructor
  · exact (perm_outcomes_chunks Sum.getLeft? chunks).trans
      ((hpaths.map _).filterMap Sum.getLeft?)
  · exact (perm_outcomes_chunks Sum.getRight? chunks).trans
      ((hpaths.map _).filterMap Sum.getRight?)

end Merge

/-- The same quotes in falling output, or the same error up to the order in which
the failures are listed. -/
inductive SameRoutes : Except SearchError (List RouteQuote) →
    Except SearchError (List RouteQuote) → Prop
  | quotes {quotes ranked : List RouteQuote} (hperm : ranked.Perm quotes)
      (hfalling : ranked.Pairwise fun left right => right.amountOut ≤ left.amountOut) :
      SameRoutes (.ok quotes) (.ok ranked)
  | error (error : SearchError) : SameRoutes (.error error) (.error error)
  | noViableRoute (candidates : ℕ) {failures merged : List PathFailure}
      (hperm : merged.Perm failures) :
      SameRoutes (.error (.noViableRoute candidates failures))
        (.error (.noViableRoute candidates merged))

theorem sameRoutes_rankOrNoViable (candidates : ℕ) {quotes merged : List RouteQuote}
    {failures mergedFailures : List PathFailure} (hquotes : merged.Perm quotes)
    (hfailures : mergedFailures.Perm failures) :
    SameRoutes (rankOrNoViable candidates quotes failures)
      (rankOrNoViable candidates merged mergedFailures) := by
  unfold rankOrNoViable
  by_cases hempty : quotes = []
  · have hmerged : merged = [] := List.perm_nil.mp (hempty ▸ hquotes)
    rw [if_pos hempty, if_pos hmerged]
    exact .noViableRoute candidates hfailures
  · have hmerged : merged ≠ [] := by
      rintro rfl
      exact hempty (List.nil_perm.mp hquotes)
    rw [if_neg hempty, if_neg hmerged]
    refine .quotes ?_ (sortByAmountOut_pairwise merged)
    exact (List.perm_insertionSort _ merged).trans
      (hquotes.trans (List.perm_insertionSort _ quotes).symm)

namespace AmmSearcher

variable {G : Type} {searcher : AmmSearcher G}

theorem validate_of_workers {parallel : ParallelSearchConfig} (hworkers : 1 ≤ parallel.workers) :
    parallel.validate = .ok () := by
  have hne : parallel.workers ≠ 0 := by omega
  simp [ParallelSearchConfig.validate, rejectWhen, hne]

/-- Ranking on workers quotes chunks that together are the paths. -/
theorem quoteAndRankParallel_eq (hkeyed : searcher.quoteContext.Keyed)
    {parallel : ParallelSearchConfig} (hworkers : 1 ≤ parallel.workers)
    (paths : List RoutePath) (amountIn : U256) (simConfig : SimConfig) (schedule : List ℕ) :
    ∃ chunks : List (List RoutePath), chunks.flatten.Perm paths ∧
      searcher.quoteAndRankParallel paths amountIn simConfig parallel schedule =
        some (rankOrNoViable paths.length
          (chunks.flatMap fun chunk => (quotePathsWithRegistry (searcher.quoteEnv simConfig)
            searcher.quoteContext chunk amountIn).1)
          (chunks.flatMap fun chunk => (quotePathsWithRegistry (searcher.quoteEnv simConfig)
            searcher.quoteContext chunk amountIn).2)) := by
  have hcount : 1 ≤ min parallel.workers (max paths.length 1) := by omega
  have hperm := perm_flatten_splitPaths paths hcount
  have hrun : ∀ chunks : List (List RoutePath),
      runOnNewCache (chunks.map fun chunk => quotePathsWithRegistryCached
        (searcher.quoteEnv simConfig) searcher.quoteContext chunk amountIn) schedule =
      some (chunks.map fun chunk => quotePathsWithRegistry (searcher.quoteEnv simConfig)
        searcher.quoteContext chunk amountIn) := by
    intro chunks
    have hasks : ∀ program ∈ chunks.map (fun chunk => quotePathsWithRegistryCached
        (searcher.quoteEnv simConfig) searcher.quoteContext chunk amountIn),
        program.Asks (AdapterAnswer searcher.registry searcher.debug
          searcher.quoteContext) := by
      intro program hprogram
      obtain ⟨chunk, _, rfl⟩ := List.mem_map.mp hprogram
      exact asks_quotePathsWithRegistryCached (searcher.quoteEnv simConfig) amountIn chunk
    rw [runOnNewCache_eq hkeyed hasks, List.map_map]
    congr 1
    exact List.map_congr_left fun chunk _ =>
      eval_quotePathsWithRegistryCached (searcher.quoteEnv simConfig) _ amountIn chunk
  simp only [quoteAndRankParallel, validate_of_workers hworkers]
  split
  · rename_i hone
    refine ⟨[(splitPaths paths (min parallel.workers (max paths.length 1))).headD []], ?_, ?_⟩
    · rw [List.flatten_singleton, ← flatten_eq_headD]
      · exact hperm
      · exact (length_splitPaths_le paths _).trans (le_of_eq hone)
    · have hsingle := hrun [(splitPaths paths
        (min parallel.workers (max paths.length 1))).headD []]
      rw [List.map_singleton] at hsingle
      rw [hsingle]
      rfl
  · refine ⟨splitPaths paths (min parallel.workers (max paths.length 1)), hperm, ?_⟩
    rw [hrun]
    simp only [Option.map_some, List.flatMap_map]

variable [StableDiGraph G Address EdgeData]

theorem sameRoutes_findRoutesParallel (hkeyed : searcher.quoteContext.Keyed)
    {parallel : ParallelSearchConfig} (hworkers : 1 ≤ parallel.workers)
    {request : RouteRequest} (hmode : request.config.mode = .exhaustive) (schedule : List ℕ) :
    ∃ result, searcher.findRoutesParallel request parallel schedule = some result ∧
      SameRoutes (searcher.findRoutes request) result := by
  simp only [findRoutesParallel, findRoutes, hmode]
  cases searcher.graph.enumerateRoutesFiltered request.tokenIn request.tokenOut
      request.config false ∅ request.config.maxCandidates none with
  | error error => exact ⟨.error error, rfl, .error error⟩
  | ok enumeration =>
      obtain ⟨chunks, hperm, hrank⟩ := quoteAndRankParallel_eq hkeyed hworkers
        enumeration.paths request.amountIn request.simConfig schedule
      obtain ⟨hquotes, hfailures⟩ := @perm_quotePathsWithRegistry_chunks
        (searcher.quoteEnv request.simConfig) searcher.quoteContext request.amountIn _ _ hperm
      exact ⟨_, hrank, sameRoutes_rankOrNoViable _ hquotes hfailures⟩

theorem eval_findRoutesWithQuoteCache (request : RouteRequest) :
    (searcher.findRoutesWithQuoteCache request).eval = searcher.findRoutes request := by
  unfold findRoutesWithQuoteCache
  split
  · rfl
  · rename_i hmode
    simp only [findRoutes, hmode]
    cases searcher.graph.enumerateRoutesFiltered request.tokenIn request.tokenOut
        request.config false ∅ request.config.maxCandidates none with
    | error error => rfl
    | ok enumeration =>
        simp only [Program.eval_bind, eval_quotePathsWithRegistryCached]
        rfl

theorem asks_findRoutesWithQuoteCache (request : RouteRequest) :
    (searcher.findRoutesWithQuoteCache request).Asks
      (AdapterAnswer searcher.registry searcher.debug searcher.quoteContext) := by
  unfold findRoutesWithQuoteCache
  split
  · trivial
  · split
    · trivial
    · refine Program.Asks.bind ?_ trivial
      exact asks_quotePathsWithRegistryCached (searcher.quoteEnv request.simConfig)
        request.amountIn _

/-- A worker answers each of its requests as a search of its own would. -/
theorem findRouteRequestChunk_spec (chunk : List (ℕ × RouteRequest)) :
    (searcher.findRouteRequestChunk chunk).eval =
        chunk.map (Prod.map id searcher.findRoutes) ∧
      (searcher.findRouteRequestChunk chunk).Asks
        (AdapterAnswer searcher.registry searcher.debug searcher.quoteContext) := by
  induction chunk with
  | nil => exact ⟨rfl, trivial⟩
  | cons entry rest ih =>
      obtain ⟨index, request⟩ := entry
      rw [findRouteRequestChunk]
      constructor
      · simp only [Program.eval_bind, eval_findRoutesWithQuoteCache, ih.1, Program.eval,
          List.map_cons, Prod.map_apply, id_eq]
      · exact (asks_findRoutesWithQuoteCache request).bind (ih.2.bind trivial)

theorem findRoutesBatchParallel_eq (hkeyed : searcher.quoteContext.Keyed)
    {parallel : ParallelSearchConfig} (hworkers : 1 ≤ parallel.workers)
    (requests : List RouteRequest) (schedule : List ℕ) :
    searcher.findRoutesBatchParallel requests parallel schedule =
      some (.ok (requests.map searcher.findRoutes)) := by
  simp only [findRoutesBatchParallel, validate_of_workers hworkers]
  split
  · rename_i hempty
    rw [hempty]
    rfl
  · rename_i hne
    have hlength : 1 ≤ requests.length := List.length_pos_iff.mpr hne
    have hcount : 1 ≤ min parallel.workers requests.length := by omega
    have hrun : ∀ chunks : List (List (ℕ × RouteRequest)),
        chunks.flatten.Perm (requests.zipIdx.map Prod.swap) →
        (runOnNewCache (chunks.map searcher.findRouteRequestChunk) schedule).map
          (fun results => Except.ok (ε := SearchError)
            (collectOrderedResults results.flatten)) =
          some (.ok (requests.map searcher.findRoutes)) := by
      intro chunks hchunks
      have hasks : ∀ program ∈ chunks.map searcher.findRouteRequestChunk,
          program.Asks (AdapterAnswer searcher.registry searcher.debug
            searcher.quoteContext) := by
        intro program hprogram
        obtain ⟨chunk, _, rfl⟩ := List.mem_map.mp hprogram
        exact (findRouteRequestChunk_spec chunk).2
      have hresults : ((chunks.map searcher.findRouteRequestChunk).map Program.eval).flatten =
          chunks.flatten.map (Prod.map id searcher.findRoutes) := by
        rw [List.map_map, List.map_flatten]
        congr 1
        exact List.map_congr_left fun chunk _ => (findRouteRequestChunk_spec chunk).1
      rw [runOnNewCache_eq hkeyed hasks, Option.map_some, hresults]
      congr 2
      apply collectOrderedResults_of_perm
      refine (hchunks.map _).trans (List.Perm.of_eq ?_)
      rw [List.zipIdx_map, List.map_map, List.map_map]
      rfl
    have hperm := perm_flatten_splitIndexedItems requests hcount
    split
    · rename_i hone
      refine hrun [(splitIndexedItems requests
        (min parallel.workers requests.length)).headD []] ?_
      rw [List.flatten_singleton, ← flatten_eq_headD]
      · exact hperm
      · exact (length_splitIndexedItems_le requests _).trans (le_of_eq hone)
    · exact hrun _ hperm

/-- For every interleaving of the workers, parallel search of exhaustive requests is
sequential search: of one request with its quotes ranked again, of a batch request by
request. -/
theorem findRoutes_parallel_and_batch (hkeyed : searcher.quoteContext.Keyed)
    {parallel : ParallelSearchConfig} (hworkers : 1 ≤ parallel.workers) :
    (∀ (request : RouteRequest) (schedule : List ℕ), request.config.mode = .exhaustive →
      ∃ result, searcher.findRoutesParallel request parallel schedule = some result ∧
        SameRoutes (searcher.findRoutes request) result) ∧
      ∀ (requests : List RouteRequest) (schedule : List ℕ),
        (∀ request ∈ requests, request.config.mode = .exhaustive) →
        searcher.findRoutesBatchParallel requests parallel schedule =
          some (.ok (requests.map searcher.findRoutes)) := by
  constructor
  · intro request schedule hmode
    exact sameRoutes_findRoutesParallel hkeyed hworkers hmode schedule
  · intro requests schedule _
    exact findRoutesBatchParallel_eq hkeyed hworkers requests schedule

end AmmSearcher

namespace RoundTripExample

/-- A request whose two routes are quoted by two workers. -/
def directRequest : RouteRequest :=
  { request 2 with config := { maxHops := 1 } }

theorem findRoutes_parallel_and_batch_direct :
    (searcher.findRoutes directRequest).toOption.map List.length = some 2 ∧
      (∃ result, searcher.findRoutesParallel directRequest ⟨2⟩ [1, 0, 1] = some result ∧
        SameRoutes (searcher.findRoutes directRequest) result) ∧
      searcher.findRoutesBatchParallel [directRequest, directRequest] ⟨2⟩ [1, 0, 0] =
        some (.ok [searcher.findRoutes directRequest, searcher.findRoutes directRequest]) := by
  obtain ⟨hsingle, hbatch⟩ := @AmmSearcher.findRoutes_parallel_and_batch _ searcher _ trivial
    ⟨2⟩ (by decide)
  refine ⟨by decide +kernel, hsingle directRequest [1, 0, 1] rfl, ?_⟩
  exact hbatch [directRequest, directRequest] [1, 0, 0] (by decide)

end RoundTripExample

end AmmSearch
