/-
A rule for the observers of a search.  What an observer keeps while it accepts
quotes holds at the end of every search that it has let run; a search whose
observer refuses a quote ends at once, stopped, in the state that the refusal
left.
-/
import AmmSearch.HeuristicInvariant
import AmmSearch.StreamingWorkers

open FiniteMap StableGraph

namespace AmmSearch

variable {σ : Type} {onQuote : σ → RouteQuote → σ × Bool} {good : RouteQuote → Prop}
  {holds refused : σ → Prop}

section Quoting

variable {env : QuoteEnv} {context : QuoteKeyContext} {amountIn : U256}

/-- The quotes of the paths that can be quoted are good. -/
def GoodQuotes (good : RouteQuote → Prop) (env : QuoteEnv) (context : QuoteKeyContext)
    (amountIn : U256) : Prop :=
  ∀ path quote, env.pathOutcome context amountIn path = .inl quote → good quote

/-- A quoting run that its observer has let run, or one that it has ended. -/
def WatchedQuotes (holds refused : σ → Prop) (run : QuoteRun σ) : Prop :=
  (run.stopped = false ∧ holds run.observed) ∨
    (run.stopped = true ∧ refused run.observed ∧ run.quotes ≠ [])

theorem watchedQuotes_push (hwatches : FanIn.Watches onQuote good holds refused)
    {run : QuoteRun σ} (hrun : WatchedQuotes holds refused run)
    {outcome : RouteQuote ⊕ PathFailure} (hgood : ∀ quote, outcome = .inl quote → good quote) :
    WatchedQuotes holds refused
      (QuoteObserver.push ⟨onQuote, fun observed _ => (observed, true)⟩ run outcome) := by
  rcases hrun with ⟨hrunning, hholds⟩ | hended
  · cases outcome with
    | inl quote =>
        simp only [QuoteObserver.push, QuoteObserver.pushQuote, hrunning,
          Bool.false_eq_true, if_false]
        cases hanswer : (onQuote run.observed quote).2 with
        | true => exact Or.inl ⟨by simp, hwatches.accepts _ _ (hgood quote rfl) hholds hanswer⟩
        | false =>
            exact Or.inr ⟨by simp, hwatches.refuses _ _ (hgood quote rfl) hholds hanswer,
              by simp⟩
    | inr failure =>
        simp only [QuoteObserver.push, QuoteObserver.pushFailure, hrunning,
          Bool.false_eq_true, if_false]
        exact Or.inl ⟨by simp, hholds⟩
  · rw [QuoteObserver.push_stopped hended.1]
    exact Or.inr hended

theorem watchedQuotes_foldl (hwatches : FanIn.Watches onQuote good holds refused)
    {outcomes : List (RouteQuote ⊕ PathFailure)}
    (hgood : ∀ quote, .inl quote ∈ outcomes → good quote) {run : QuoteRun σ}
    (hrun : WatchedQuotes holds refused run) :
    WatchedQuotes holds refused (outcomes.foldl
      (QuoteObserver.push ⟨onQuote, fun observed _ => (observed, true)⟩) run) := by
  induction outcomes generalizing run with
  | nil => exact hrun
  | cons outcome rest ih =>
      refine ih (fun quote hquote => hgood quote (List.mem_cons_of_mem _ hquote)) ?_
      apply watchedQuotes_push hwatches hrun
      rintro quote rfl
      exact hgood quote List.mem_cons_self

theorem quotePathsWithRegistryObserved_watched_of_mem
    (hwatches : FanIn.Watches onQuote good holds refused) {paths : List RoutePath}
    (hgood : ∀ path ∈ paths, ∀ quote, env.pathOutcome context amountIn path = .inl quote →
      good quote) {observed : σ} (hobserved : holds observed) :
    WatchedQuotes holds refused (quotePathsWithRegistryObserved
      ⟨onQuote, fun observed _ => (observed, true)⟩ env context amountIn paths
      observed) := by
  rw [quotePathsWithRegistryObserved_eq]
  refine watchedQuotes_foldl hwatches ?_ (Or.inl ⟨rfl, hobserved⟩)
  intro quote hquote
  obtain ⟨path, hpath, houtcome⟩ := List.mem_map.mp hquote
  exact hgood path ((quoteOrder_perm paths).mem_iff.mp hpath) quote houtcome

theorem quotePathsWithRegistryObserved_watched
    (hwatches : FanIn.Watches onQuote good holds refused)
    (hgood : GoodQuotes good env context amountIn) (paths : List RoutePath)
    {observed : σ} (hobserved : holds observed) :
    WatchedQuotes holds refused (quotePathsWithRegistryObserved
      ⟨onQuote, fun observed _ => (observed, true)⟩ env context amountIn paths
      observed) :=
  quotePathsWithRegistryObserved_watched_of_mem hwatches (fun path _ => hgood path) hobserved

theorem mem_of_mem_splitPaths {paths chunk : List RoutePath} {workers : ℕ}
    (hchunk : chunk ∈ splitPaths paths workers) {path : RoutePath} (hpath : path ∈ chunk) :
    path ∈ paths := by
  rcases Nat.eq_zero_or_pos workers with rfl | hworkers
  · have hnone := length_splitPaths_le paths 0
    rw [List.length_eq_zero_iff.mp (Nat.le_zero.mp hnone)] at hchunk
    cases hchunk
  · exact (perm_flatten_splitPaths paths hworkers).mem_iff.mp
      (List.mem_flatten.mpr ⟨chunk, hchunk, hpath⟩)

/-- The workers of the remainder under an observer. -/
theorem quoteAndStreamParallel_watched_of_mem
    (hwatches : FanIn.Watches onQuote good holds refused) {paths : List RoutePath}
    (hgood : ∀ path ∈ paths, ∀ quote, env.pathOutcome context amountIn path = .inl quote →
      good quote) {parallel : ParallelSearchConfig} (hparallel : parallel.validate = .ok ())
    (schedule : List FanIn.Event) {observed : σ} (hobserved : holds observed) :
    ∃ report, quoteAndStreamParallel env context amountIn parallel schedule onQuote
        paths observed = .ok report ∧
      ((report.stopped = false ∧ holds report.observed) ∨
        (report.stopped = true ∧ refused report.observed)) := by
  simp only [quoteAndStreamParallel, hparallel, bind, Except.bind]
  split
  · exact ⟨_, rfl, Or.inl ⟨rfl, hobserved⟩⟩
  · split
    · refine ⟨_, rfl, ?_⟩
      have hfirst : ∀ path ∈ (splitPaths paths (min parallel.workers paths.length)).headD [],
          path ∈ paths := by
        intro path hpath
        cases hchunks : splitPaths paths (min parallel.workers paths.length) with
        | nil =>
            rw [hchunks] at hpath
            cases hpath
        | cons chunk rest =>
            rw [hchunks] at hpath
            exact mem_of_mem_splitPaths (by rw [hchunks]; exact List.mem_cons_self) hpath
      rcases quotePathsWithRegistryObserved_watched_of_mem hwatches
        (fun path hpath => hgood path (hfirst path hpath)) hobserved with
        hrunning | ⟨hstopped, hrefused, _⟩
      · exact Or.inl hrunning
      · exact Or.inr ⟨hstopped, hrefused⟩
    · refine ⟨_, rfl, ?_⟩
      have hchunks : ∀ pending ∈ (splitPaths paths (min parallel.workers paths.length)).map
          (chunkOutcomes env context amountIn), ∀ quote ∈ FanIn.items pending, good quote := by
        intro pending hpending quote hquote
        obtain ⟨chunk, hchunk, rfl⟩ := List.mem_map.mp hpending
        rw [chunkOutcomes_eq] at hquote
        obtain ⟨_, houtcome, hleft⟩ := List.mem_filterMap.mp hquote
        obtain ⟨path, hpath, rfl⟩ := List.mem_map.mp houtcome
        have hmem := mem_of_mem_splitPaths hchunk ((quoteOrder_perm chunk).mem_iff.mp hpath)
        exact hgood path hmem quote (Sum.getLeft?_eq_some_iff.mp hleft)
      rcases FanIn.settle_watched hwatches hchunks hobserved schedule with
        haccepting | hrefusing
      · refine Or.inl ⟨?_, haccepting.holds⟩
        simp only [haccepting.cancelled, Bool.false_or, List.any_eq_false]
        intro worker hworker
        simp [haccepting.running worker hworker]
      · refine Or.inr ⟨?_, hrefusing.refused⟩
        simp only [hrefusing.cancelled, Bool.true_or]

theorem quoteAndStreamParallel_watched (hwatches : FanIn.Watches onQuote good holds refused)
    (hgood : GoodQuotes good env context amountIn) {parallel : ParallelSearchConfig}
    (hparallel : parallel.validate = .ok ())
    (schedule : List FanIn.Event) (paths : List RoutePath) {observed : σ}
    (hobserved : holds observed) :
    ∃ report, quoteAndStreamParallel env context amountIn parallel schedule onQuote
        paths observed = .ok report ∧
      ((report.stopped = false ∧ holds report.observed) ∨
        (report.stopped = true ∧ refused report.observed)) :=
  quoteAndStreamParallel_watched_of_mem hwatches (fun path _ => hgood path) hparallel schedule
    hobserved

end Quoting

namespace AmmSearcher

variable {G : Type} {searcher : AmmSearcher G} {context : HeuristicContext}

/-- A heuristic run that its observer has let run, or one that it has ended.  The
candidate limit may stop a run that was let run. -/
def WatchedRun (holds refused : σ → Prop) (run : HeuristicRun σ) : Prop :=
  holds run.observed ∨ (run.stopped = true ∧ refused run.observed ∧ run.quotes ≠ [])

theorem passInvariant_watched (hwatches : FanIn.Watches onQuote good holds refused)
    (hgood : ∀ quote, searcher.Traced context quote → good quote) :
    searcher.PassInvariant context onQuote (WatchedRun holds refused) where
  complete := by
    intro run quote htraced _ hrunning hrun
    have hgood := hgood quote htraced
    have hholds : holds run.observed := by
      rcases hrun with hholds | ⟨hstopped, _⟩
      · exact hholds
      · rw [hrunning] at hstopped
        cases hstopped
    unfold completePath
    split
    · exact Or.inl hholds
    · simp only
      cases hanswer : (onQuote run.observed quote).2 with
      | true => exact Or.inl (hwatches.accepts _ _ hgood hholds hanswer)
      | false => exact Or.inr ⟨rfl, hwatches.refuses _ _ hgood hholds hanswer, by simp⟩
  push := by
    intro run token state hrun
    unfold pushPrefix
    split
    · simp only
      split <;> exact hrun
    · exact hrun
  record := fun _ _ _ hrun => hrun
  restart := fun _ _ _ hrun => hrun

theorem watchedRun_acceptFastLane (config : SearchConfig) (quotes : List RouteQuote)
    {run : HeuristicRun σ} (hrun : WatchedRun holds refused run) :
    WatchedRun holds refused (acceptFastLane config quotes run) := by
  induction quotes generalizing run with
  | nil => exact hrun
  | cons quote rest ih =>
      have hnext : ∀ incumbent, WatchedRun holds refused
          { run with incumbentAmount := incumbent, quotes := run.quotes ++ [quote] } := by
        intro incumbent
        rcases hrun with hholds | ⟨hstopped, hrefused, _⟩
        · exact Or.inl hholds
        · exact Or.inr ⟨hstopped, hrefused, by simp⟩
      rw [acceptFastLane]
      simp only
      split
      · rcases hnext (raiseIncumbent run.incumbentAmount quote.amountOut) with
          hholds | ⟨_, hrefused, hquotes⟩
        · exact Or.inl hholds
        · exact Or.inr ⟨rfl, hrefused, hquotes⟩
      · exact ih (hnext _)

/-- Taking over quotes does not restart a stopped run, and keeps at least one of
them. -/
theorem watchedRun_acceptFastLane_stopped (config : SearchConfig)
    {quotes : List RouteQuote} (hquotes : quotes ≠ []) {run : HeuristicRun σ}
    (hstopped : run.stopped = true) (hrefused : refused run.observed) :
    WatchedRun holds refused (acceptFastLane config quotes run) := by
  cases quotes with
  | nil => exact absurd rfl hquotes
  | cons quote rest =>
      rw [acceptFastLane]
      simp only
      split
      · exact Or.inr ⟨rfl, hrefused, by simp⟩
      · apply watchedRun_acceptFastLane
        exact Or.inr ⟨hstopped, hrefused, by simp⟩

theorem finalists_ne_nil (hfinalists : 1 ≤ context.heuristic.maxFinalists)
    {quotes : List RouteQuote} (hquotes : quotes ≠ []) : finalists context quotes ≠ [] := by
  intro hempty
  have hlength : (finalists context quotes).length =
      min context.heuristic.maxFinalists quotes.length := by
    rw [finalists, List.length_take, sortByAmountOut, List.length_insertionSort]
  rw [hempty, List.length_nil] at hlength
  have hpositive := List.length_pos_iff.mpr hquotes
  omega

/-- Every outcome of a path carries the trace of that path. -/
theorem goodQuotes_of_traced (hgood : ∀ quote, searcher.Traced context quote → good quote) :
    GoodQuotes good (searcher.quoteEnv context.simConfig) searcher.quoteContext
      context.amountIn := by
  intro path quote houtcome
  unfold QuoteEnv.pathOutcome at houtcome
  split at houtcome
  · cases houtcome
  · rename_i hnonempty
    split at houtcome
    · rename_i hops amountOut htrace
      obtain rfl := Sum.inl.inj houtcome
      exact hgood _ ⟨hnonempty, rfl, htrace⟩
    · cases houtcome

variable [StableDiGraph G Address EdgeData]

theorem watchedRun_runFastLane (hwatches : FanIn.Watches onQuote good holds refused)
    (hgood : ∀ quote, searcher.Traced context quote → good quote) {start : σ}
    (hstart : holds start) :
    WatchedRun holds refused
      (searcher.runFastLane context onQuote { observed := start }) := by
  unfold runFastLane
  split
  · simp only
    split
    · exact Or.inl hstart
    · rcases quotePathsWithRegistryObserved_watched hwatches (goodQuotes_of_traced hgood)
        (searcher.fastLanePaths context.tokenIn context.tokenOut context.config
          context.heuristic context.connectorTokens) hstart with
        ⟨_, hholds⟩ | ⟨hstopped, hrefused, hquotes⟩
      · exact watchedRun_acceptFastLane _ _ (Or.inl hholds)
      · exact watchedRun_acceptFastLane_stopped _ hquotes hstopped hrefused
  · exact Or.inl hstart

/-- A search under an observer: it was let run, or it reports that it was
stopped. -/
theorem searchRoutes_watched (hwatches : FanIn.Watches onQuote good holds refused)
    (hgood : ∀ quote, searcher.Traced context quote → good quote)
    (hfinalists : 1 ≤ context.heuristic.maxFinalists) (runLimit : HeuristicRunLimit)
    {start : σ} (hstart : holds start) :
    let result := searcher.searchRoutes context onQuote runLimit start
    holds result.1 ∨
      (refused result.1 ∧ ∃ report, result.2 = .ok report ∧ report.stopped = true) := by
  intro result
  have hlane : WatchedRun holds refused
      (searcher.runFastLane context onQuote { observed := start }) :=
    watchedRun_runFastLane hwatches hgood hstart
  simp only [result, searchRoutes]
  split
  · rcases hlane with hholds | ⟨hstopped, hrefused, hquotes⟩
    · exact Or.inl hholds
    · refine Or.inr ⟨hrefused, ?_⟩
      simp only [finishFastLane]
      rw [if_neg (fun hempty => finalists_ne_nil hfinalists hquotes hempty.1)]
      exact ⟨_, rfl, hstopped⟩
  · rename_i hgoes
    have hrunning : (searcher.runFastLane context onQuote
        { observed := start }).stopped = false := by
      simpa using fun hstopped => hgoes (Or.inl hstopped)
    have hpasses : searcher.PassInvariant context onQuote (WatchedRun holds refused) :=
      passInvariant_watched hwatches hgood
    rcases hpasses.runPasses (heuristicPassModes context.heuristic) hlane hrunning with
      hholds | ⟨hstopped, hrefused, _⟩
    · exact Or.inl hholds
    · refine Or.inr ⟨hrefused, ?_⟩
      simp only [finishSearch, hstopped, if_true]
      exact ⟨_, rfl, rfl⟩

end AmmSearcher

end AmmSearch
