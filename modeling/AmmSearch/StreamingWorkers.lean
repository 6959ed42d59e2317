/-
Parallel quoting of the exhaustive remainder.  The paths are dealt out to
workers, each worker quotes its own chunk, and the coordinator hands the quotes
to the callback in the order in which they arrive.
-/
import AmmSearch.FanIn
import AmmSearch.QuotingExact
import AmmSearch.StreamingState
import Mathlib.Algebra.Order.BigOperators.Group.List
import Mathlib.Algebra.Order.Group.Nat

namespace AmmSearch

/-- Deal the paths out in turn and drop the empty chunks. -/
def splitPaths (paths : List RoutePath) (workers : ℕ) : List (List RoutePath) :=
  (paths.zipIdx.foldl
    (fun chunks (path, index) => chunks.modify (index % workers) (· ++ [path]))
    (List.replicate workers [])).filter (· ≠ [])

/-- An observer that notes every outcome. -/
def QuoteObserver.noting : QuoteObserver (List (RouteQuote ⊕ PathFailure)) where
  onQuote := fun outcomes quote => (outcomes ++ [.inl quote], true)
  onFailure := fun outcomes failure => (outcomes ++ [.inr failure], true)

section Workers

variable (env : QuoteEnv) (context : QuoteKeyContext) (amountIn : U256)

/-- What a worker reports for its chunk when nothing interrupts it. -/
def chunkOutcomes (chunk : List RoutePath) : List (RouteQuote ⊕ PathFailure) :=
  (quotePathsWithRegistryObserved .noting env context amountIn chunk []).observed

/-- Quote `paths` on worker threads whose steps are interleaved by `schedule`,
which is then run to its end. -/
def quoteAndStreamParallel {σ : Type} (parallel : ParallelSearchConfig)
    (schedule : List FanIn.Event) (onQuote : σ → RouteQuote → σ × Bool)
    (paths : List RoutePath) (observed : σ) : Except SearchError (QuoteRun σ) := do
  parallel.validate
  if paths = [] then .ok ⟨[], [], observed, false⟩
  else
    let workerCount := min parallel.workers paths.length
    let chunks := splitPaths paths workerCount
    if workerCount = 1 then
      .ok (quotePathsWithRegistryObserved ⟨onQuote, fun observed _ => (observed, true)⟩
        env context amountIn (chunks.headD []) observed)
    else
      let pool := FanIn.settle onQuote (FanIn.run onQuote
        (FanIn.begin (chunks.map (chunkOutcomes env context amountIn)) observed)
        schedule)
      .ok
        { quotes := pool.workers.flatMap FanIn.Worker.reported
          failures := pool.workers.flatMap FanIn.Worker.failed
          observed := pool.observed
          stopped := pool.cancelled || pool.workers.any FanIn.Worker.stopped }

end Workers

section Split

theorem perm_flatten_modify {α : Type} (chunks : List (List α)) {index : ℕ}
    (hindex : index < chunks.length) (item : α) :
    (chunks.modify index (· ++ [item])).flatten.Perm (chunks.flatten ++ [item]) := by
  induction chunks generalizing index with
  | nil => simp at hindex
  | cons head rest ih =>
      cases index with
      | zero =>
          rw [List.modify_zero_cons, List.flatten_cons, List.flatten_cons,
            List.append_assoc, List.append_assoc]
          exact List.perm_append_comm.append_left head
      | succ index =>
          rw [List.modify_succ_cons, List.flatten_cons, List.flatten_cons,
            List.append_assoc]
          exact (ih (Nat.lt_of_succ_lt_succ hindex)).append_left head

/-- Dealing out loses no item and repeats none. -/
theorem perm_flatten_deal {α β : Type} (deal : α × ℕ → β) {workers : ℕ}
    (hworkers : 1 ≤ workers) (indexed : List (α × ℕ)) {chunks : List (List β)}
    (hlength : chunks.length = workers) :
    (indexed.foldl (fun chunks entry => chunks.modify (entry.2 % workers) (· ++ [deal entry]))
      chunks).flatten.Perm (chunks.flatten ++ indexed.map deal) := by
  induction indexed generalizing chunks with
  | nil => simp
  | cons head rest ih =>
      have hindex : head.2 % workers < chunks.length := by
        rw [hlength]
        exact Nat.mod_lt _ hworkers
      rw [List.foldl_cons, List.map_cons]
      refine (ih ((List.length_modify _ _ _).trans hlength)).trans ?_
      refine ((perm_flatten_modify chunks hindex (deal head)).append_right _).trans ?_
      rw [List.append_assoc, List.singleton_append]

theorem flatten_filter_ne_nil {α : Type} {p : List α → Bool}
    (hp : ∀ chunk, p chunk = false → chunk = []) (chunks : List (List α)) :
    (chunks.filter p).flatten = chunks.flatten := by
  induction chunks with
  | nil => rfl
  | cons head rest ih =>
      cases hhead : p head with
      | false =>
          rw [List.filter_cons_of_neg (by simp [hhead]), ih, List.flatten_cons,
            hp head hhead, List.nil_append]
      | true => simp [hhead, ih]

theorem perm_flatten_splitPaths (paths : List RoutePath) {workers : ℕ}
    (hworkers : 1 ≤ workers) : (splitPaths paths workers).flatten.Perm paths := by
  have hdeal := @perm_flatten_deal RoutePath RoutePath Prod.fst workers hworkers paths.zipIdx
    (List.replicate workers []) List.length_replicate
  rw [splitPaths, flatten_filter_ne_nil (by simp)]
  simpa using hdeal

theorem length_foldl_modify {α β : Type} (deal : α × ℕ → β) (workers : ℕ)
    (indexed : List (α × ℕ)) (chunks : List (List β)) :
    (indexed.foldl (fun chunks entry => chunks.modify (entry.2 % workers) (· ++ [deal entry]))
      chunks).length = chunks.length := by
  induction indexed generalizing chunks with
  | nil => rfl
  | cons head rest ih => exact (ih _).trans (List.length_modify _ _ _)

theorem length_splitPaths_le (paths : List RoutePath) (workers : ℕ) :
    (splitPaths paths workers).length ≤ workers := by
  refine (List.length_filter_le _ _).trans (Nat.le_of_eq ?_)
  refine (length_foldl_modify Prod.fst workers paths.zipIdx _).trans ?_
  exact List.length_replicate

theorem flatten_eq_headD {α : Type} {chunks : List (List α)} (hlength : chunks.length ≤ 1) :
    chunks.flatten = chunks.headD [] := by
  rcases chunks with _ | ⟨head, _ | ⟨next, rest⟩⟩
  · rfl
  · simp
  · simp at hlength

end Split

section Outcomes

variable {env : QuoteEnv} {context : QuoteKeyContext} {amountIn : U256}

theorem chunkOutcomes_eq (chunk : List RoutePath) :
    chunkOutcomes env context amountIn chunk =
      (quoteOrder chunk).map (env.pathOutcome context amountIn) := by
  have hnotes : ∀ (outcomes : List (RouteQuote ⊕ PathFailure))
      (run : QuoteRun (List (RouteQuote ⊕ PathFailure))), run.stopped = false →
      (outcomes.foldl QuoteObserver.noting.push run).observed =
        run.observed ++ outcomes := by
    intro outcomes
    induction outcomes with
    | nil => simp
    | cons outcome rest ih =>
        intro run hrun
        rw [List.foldl_cons]
        cases outcome with
        | inl quote =>
            rw [ih _ (by simp [QuoteObserver.push, QuoteObserver.pushQuote, hrun,
              QuoteObserver.noting])]
            simp [QuoteObserver.push, QuoteObserver.pushQuote, hrun,
              QuoteObserver.noting]
        | inr failure =>
            rw [ih _ (by simp [QuoteObserver.push, QuoteObserver.pushFailure, hrun,
              QuoteObserver.noting])]
            simp [QuoteObserver.push, QuoteObserver.pushFailure, hrun,
              QuoteObserver.noting]
  rw [chunkOutcomes, quotePathsWithRegistryObserved_eq, hnotes _ _ rfl]
  rfl

/-- Quoting a chunk under any observer goes through its outcomes in order, so
a worker may be stepped outcome by outcome. -/
theorem quotePathsWithRegistryObserved_eq_foldl {σ : Type} (observer : QuoteObserver σ)
    (chunk : List RoutePath) (observed : σ) :
    quotePathsWithRegistryObserved observer env context amountIn chunk observed =
      (chunkOutcomes env context amountIn chunk).foldl observer.push
        ⟨[], [], observed, false⟩ := by
  rw [quotePathsWithRegistryObserved_eq, chunkOutcomes_eq]

theorem perm_flatMap_chunkOutcomes (chunks : List (List RoutePath)) :
    (chunks.flatMap (chunkOutcomes env context amountIn)).Perm
      (chunks.flatten.map (env.pathOutcome context amountIn)) := by
  induction chunks with
  | nil => exact List.Perm.refl _
  | cons chunk rest ih =>
      rw [List.flatMap_cons, List.flatten_cons, List.map_append, chunkOutcomes_eq]
      exact ((quoteOrder_perm chunk).map _).append ih

/-- Quoting in one thread when no quote is refused. -/
theorem quotePathsWithRegistryObserved_continues {σ : Type}
    {onQuote : σ → RouteQuote → σ × Bool}
    (hcontinue : ∀ observed quote, (onQuote observed quote).2 = true)
    (paths : List RoutePath) (observed : σ) :
    let report := quotePathsWithRegistryObserved
      ⟨onQuote, fun observed _ => (observed, true)⟩ env context amountIn paths observed
    report.stopped = false ∧
      report.quotes = quotedOutcomes ((quoteOrder paths).map
        (env.pathOutcome context amountIn)) ∧
      report.observed = reportAll onQuote observed report.quotes := by
  intro report
  have hreport : report = _ := quotePathsWithRegistryObserved_eq paths observed
  have hstopped : report.stopped = false := by
    rw [hreport]
    exact foldl_push_continues hcontinue _ rfl
  obtain ⟨reported, _, hquotes, hobserved, hall⟩ := foldl_push_spec onQuote
    ((quoteOrder paths).map (env.pathOutcome context amountIn)) ⟨[], [], observed, false⟩
  rw [← hreport] at hquotes hobserved hall
  rw [List.nil_append] at hquotes
  rw [hquotes]
  exact ⟨hstopped, hall hstopped, hobserved⟩

/-- Quoting in one thread, until a quote is refused. -/
theorem quotePathsWithRegistryObserved_settles {σ : Type}
    (onQuote : σ → RouteQuote → σ × Bool) (paths : List RoutePath) (observed : σ) :
    let report := quotePathsWithRegistryObserved
      ⟨onQuote, fun observed _ => (observed, true)⟩ env context amountIn paths observed
    report.stopped = true ∨
      report.observed = reportAll onQuote observed (quotedOutcomes ((quoteOrder paths).map
        (env.pathOutcome context amountIn))) ∧
      report.failures = failedOutcomes ((quoteOrder paths).map
        (env.pathOutcome context amountIn)) := by
  intro report
  have hreport : report = _ := quotePathsWithRegistryObserved_eq paths observed
  cases hstopped : report.stopped with
  | true => exact Or.inl rfl
  | false =>
      right
      obtain ⟨reported, _, hquotes, hobserved, hall⟩ := foldl_push_spec onQuote
        ((quoteOrder paths).map (env.pathOutcome context amountIn)) ⟨[], [], observed, false⟩
      have hfailures := foldl_push_failures onQuote
        ((quoteOrder paths).map (env.pathOutcome context amountIn)) ⟨[], [], observed, false⟩
      rw [← hreport] at hobserved hall hfailures
      rw [← hall hstopped]
      exact ⟨hobserved, (hfailures hstopped).trans (List.nil_append _)⟩

/-- What the workers report unless a quote is refused: the outcome of every path, in some
order. -/
theorem quoteAndStreamParallel_settles {σ : Type} {parallel : ParallelSearchConfig}
    (hparallel : parallel.validate = .ok ()) (schedule : List FanIn.Event)
    (onQuote : σ → RouteQuote → σ × Bool) (paths : List RoutePath) (observed : σ) :
    ∃ report, quoteAndStreamParallel env context amountIn parallel schedule onQuote
        paths observed = .ok report ∧
      (report.stopped = true ∨
        ∃ log, log.Perm (quotedOutcomes (paths.map (env.pathOutcome context amountIn))) ∧
          report.observed = reportAll onQuote observed log ∧
          report.failures.length =
            (failedOutcomes (paths.map (env.pathOutcome context amountIn))).length) := by
  have hworkers : 1 ≤ parallel.workers := by
    by_contra hzero
    have hzero : parallel.workers = 0 := by omega
    simp [ParallelSearchConfig.validate, rejectWhen, hzero] at hparallel
  simp only [quoteAndStreamParallel, hparallel, bind, Except.bind]
  split
  · rename_i hempty
    refine ⟨_, rfl, Or.inr ⟨[], ?_, rfl, ?_⟩⟩
    · simp [hempty, quotedOutcomes]
    · simp [hempty, failedOutcomes]
  · rename_i hpaths
    have hcount : 1 ≤ min parallel.workers paths.length :=
      le_min hworkers (List.length_pos_iff.mpr hpaths)
    have hsplit := perm_flatten_splitPaths paths hcount
    split
    · rename_i hone
      rw [hone] at hsplit ⊢
      rw [flatten_eq_headD (length_splitPaths_le paths 1)] at hsplit
      have hperm := ((quoteOrder_perm _).trans hsplit).map
        (env.pathOutcome context amountIn)
      refine ⟨_, rfl, ?_⟩
      apply (@quotePathsWithRegistryObserved_settles env context amountIn σ onQuote
        ((splitPaths paths 1).headD []) observed).imp_right
      rintro ⟨hobserved, hfailures⟩
      refine ⟨_, hperm.filterMap _, hobserved, ?_⟩
      rw [hfailures]
      exact (hperm.filterMap _).length_eq
    · generalize splitPaths paths (min parallel.workers paths.length) = chunks
        at hsplit
      refine ⟨_, rfl, ?_⟩
      rcases @FanIn.run_obliging _ _ _ onQuote
        (FanIn.begin (chunks.map (chunkOutcomes env context amountIn)) observed) schedule with
        hcancelled | hran
      · left
        simp only [FanIn.cancelled_settle hcancelled, Bool.true_or]
      · rcases @FanIn.settle_obliging _ _ _ onQuote (FanIn.run onQuote
          (FanIn.begin (chunks.map (chunkOutcomes env context amountIn)) observed)
          schedule) with hcancelled | hsettled
        · left
          simp only [hcancelled, Bool.true_or]
        · right
          simp only
          rw [hsettled, hran]
          obtain ⟨⟨log, hlog, hobserved⟩, hfailed, _⟩ :=
            @FanIn.settle_delivers _ _ _ (FanIn.obliging onQuote) (fun _ _ => rfl)
              (chunks.map (chunkOutcomes env context amountIn)) observed schedule
          have hperm := (@perm_flatMap_chunkOutcomes env context amountIn chunks).trans
            (hsplit.map _)
          refine ⟨log, ?_, hobserved, ?_⟩
          · refine hlog.trans ?_
            rw [List.flatMap_map]
            have hquotes := hperm.filterMap Sum.getLeft?
            rw [List.filterMap_flatMap] at hquotes
            exact hquotes
          · rw [hfailed.length_eq, List.flatMap_map]
            have hfailures := hperm.filterMap Sum.getRight?
            rw [List.filterMap_flatMap] at hfailures
            exact hfailures.length_eq

/-- No quote is refused: the outcome of every path is reported. -/
theorem quoteAndStreamParallel_continues {σ : Type} {parallel : ParallelSearchConfig}
    (hparallel : parallel.validate = .ok ()) (schedule : List FanIn.Event)
    {onQuote : σ → RouteQuote → σ × Bool}
    (hcontinue : ∀ observed quote, (onQuote observed quote).2 = true)
    (paths : List RoutePath) (observed : σ) :
    ∃ report, quoteAndStreamParallel env context amountIn parallel schedule onQuote
        paths observed = .ok report ∧ report.stopped = false ∧
      ∃ log, log.Perm (quotedOutcomes (paths.map (env.pathOutcome context amountIn))) ∧
        report.observed = reportAll onQuote observed log := by
  obtain ⟨report, hreport, hsettles⟩ := @quoteAndStreamParallel_settles env context amountIn
    σ parallel hparallel schedule onQuote paths observed
  have hstopped : report.stopped = false := by
    simp only [quoteAndStreamParallel, hparallel, bind, Except.bind] at hreport
    split at hreport
    · obtain rfl := Except.ok.inj hreport
      rfl
    · split at hreport
      · obtain rfl := Except.ok.inj hreport
        exact (@quotePathsWithRegistryObserved_continues env context amountIn σ onQuote
          hcontinue _ observed).1
      · obtain rfl := Except.ok.inj hreport
        obtain ⟨_, _, hcancelled, hrunning⟩ := FanIn.settle_delivers hcontinue
          ((splitPaths paths (min parallel.workers paths.length)).map
            (chunkOutcomes env context amountIn)) observed schedule
        simp only [hcancelled, Bool.false_or, List.any_eq_false]
        intro worker hworker
        simp [hrunning worker hworker]
  refine ⟨report, hreport, hstopped, ?_⟩
  rcases hsettles with htrue | ⟨log, hlog, hobserved, _⟩
  · rw [hstopped] at htrue
    cases htrue
  · exact ⟨log, hlog, hobserved⟩

theorem measure_quotePaths_le {σ : Type} {measure : σ → ℕ}
    {onQuote : σ → RouteQuote → σ × Bool}
    (hmeasure : ∀ observed quote, measure (onQuote observed quote).1 = measure observed + 1)
    (paths : List RoutePath) (observed : σ) :
    measure (quotePathsWithRegistryObserved ⟨onQuote, fun observed _ => (observed, true)⟩ env
        context amountIn paths observed).observed ≤ measure observed + paths.length := by
  obtain ⟨reported, hprefix, _, hobserved, _⟩ := foldl_push_spec onQuote
    ((quoteOrder paths).map (env.pathOutcome context amountIn)) ⟨[], [], observed, false⟩
  rw [quotePathsWithRegistryObserved_eq, hobserved, measure_reportAll hmeasure]
  apply Nat.add_le_add_left
  refine hprefix.length_le.trans ((List.length_filterMap_le _ _).trans ?_)
  rw [List.length_map, (quoteOrder_perm paths).length_eq]

/-- The callback sees no more quotes than there are paths. -/
theorem quoteAndStreamParallel_measure {σ : Type} {measure : σ → ℕ}
    {onQuote : σ → RouteQuote → σ × Bool}
    (hmeasure : ∀ observed quote, measure (onQuote observed quote).1 = measure observed + 1)
    {parallel : ParallelSearchConfig} (hparallel : parallel.validate = .ok ())
    (schedule : List FanIn.Event) (paths : List RoutePath) (observed : σ) :
    ∃ report, quoteAndStreamParallel env context amountIn parallel schedule onQuote
        paths observed = .ok report ∧
      measure report.observed ≤ measure observed + paths.length := by
  have hworkers : 1 ≤ parallel.workers := by
    by_contra hzero
    have hzero : parallel.workers = 0 := by omega
    simp [ParallelSearchConfig.validate, rejectWhen, hzero] at hparallel
  simp only [quoteAndStreamParallel, hparallel, bind, Except.bind]
  split
  · exact ⟨_, rfl, Nat.le_add_right _ _⟩
  · rename_i hpaths
    have hcount : 1 ≤ min parallel.workers paths.length :=
      le_min hworkers (List.length_pos_iff.mpr hpaths)
    have hsplit := perm_flatten_splitPaths paths hcount
    split
    · rename_i hone
      rw [hone] at hsplit ⊢
      rw [flatten_eq_headD (length_splitPaths_le paths 1)] at hsplit
      refine ⟨_, rfl, ?_⟩
      rw [← hsplit.length_eq]
      exact measure_quotePaths_le hmeasure _ _
    · generalize splitPaths paths (min parallel.workers paths.length) = chunks
        at hsplit
      refine ⟨_, rfl, ?_⟩
      refine (FanIn.measure_settle_le hmeasure _ observed schedule).trans ?_
      apply Nat.add_le_add_left
      rw [← hsplit.length_eq, List.length_flatten, List.map_map]
      apply List.sum_le_sum
      intro chunk _
      rw [Function.comp_apply, chunkOutcomes_eq]
      refine (List.length_filterMap_le _ _).trans ?_
      rw [List.length_map, (quoteOrder_perm chunk).length_eq]

end Outcomes

end AmmSearch
