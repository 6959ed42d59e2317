/-
The candidate limit of a request.  What the heuristic phase of a stream leaves of the limit
bounds the exhaustive one, so a request stays within its limit exactly when its heuristic
search does.
-/
import AmmSearch.SearchBudget
import AmmSearch.StreamingSteps

open FiniteMap StableGraph

namespace AmmSearch

/-- A stream that counts what it has observed and tracks the best of it. -/
structure StreamRun.Accounted {κ : Type} (run : StreamRun κ) : Prop where
  counted : run.observedQuotes.length ≤ run.session.state.routesObserved
  tracks : run.Tracks

theorem StreamRun.Accounted.observeHeuristic {κ : Type} {run : StreamRun κ}
    (hrun : run.Accounted) (streaming : StreamingSearchConfig) (onEvent : EventCallback κ)
    (quote : RouteQuote) :
    (StreamRun.observeHeuristic streaming onEvent run quote).1.Accounted := by
  constructor
  · have hobserved : (run.session.observeQuote streaming onEvent .heuristic
        quote).1.state.routesObserved = run.session.state.routesObserved + 1 :=
      (StreamingSession.observeQuote_emits run.session .heuristic quote).routesObserved
    have hlength : (StreamRun.observeHeuristic streaming onEvent run
        quote).1.observedQuotes.length = run.observedQuotes.length + 1 := List.length_append
    rw [hlength]
    exact (Nat.succ_le_succ hrun.counted).trans_eq hobserved.symm
  · unfold Tracks
    simp only [StreamRun.observeHeuristic]
    rw [StreamingSession.best_observeQuote]
    exact hrun.tracks.append_singleton quote

namespace AmmSearcher

variable {G : Type} {searcher : AmmSearcher G} {limit : ℕ} [StableDiGraph G Address EdgeData]

section Streams

variable {κ : Type} {onEvent : EventCallback κ} {request : RouteRequest}
  {streaming : StreamingSearchConfig} {shouldContinue : Option (ℕ → Bool)}
  {run : StreamRun κ} {heuristicError : Option SearchError} {result : StreamingRunReport}

omit [StableDiGraph G Address EdgeData] in
theorem quotes_finish {finality : SearchFinality} {emitCompleted : Bool}
    (hresult : (run.finish streaming onEvent finality emitCompleted).2 = .ok result) :
    result.quotes = run.observedQuotes := by
  obtain rfl := Except.ok.inj hresult
  rfl

omit [StableDiGraph G Address EdgeData] in
theorem quotes_completeStream (failures : List PathFailure)
    (hresult : (completeStream streaming onEvent run heuristicError failures).2 = .ok result) :
    result.quotes = run.observedQuotes := by
  unfold completeStream at hresult
  simp only at hresult
  have hquotes : (StreamRun.emit onEvent
      { run with session := run.session.markExhaustiveComplete }
      (.phaseCompleted .exhaustive run.session.markExhaustiveComplete.state.phaseStats)
        ).1.observedQuotes = run.observedQuotes := rfl
  generalize StreamRun.emit onEvent _ _ = emitted at hresult hquotes
  rw [← hquotes]
  split at hresult
  · exact quotes_finish hresult
  · split at hresult
    · split at hresult
      · cases hresult
      · cases hresult
    · exact quotes_finish hresult

omit [StableDiGraph G Address EdgeData] in
/-- The remainder observes no more quotes than it has paths. -/
theorem streamRemainder_quotes_le (hparallel : streaming.parallel.validate = .ok ())
    (schedule : List FanIn.Event) (paths : List RoutePath)
    (hresult : (searcher.streamRemainder request streaming schedule onEvent run
      heuristicError paths).2 = .ok result) :
    result.quotes.length ≤ run.observedQuotes.length + paths.length := by
  have hobserved : ∀ (run : StreamRun κ) quote,
      (StreamRun.observeExhaustive streaming onEvent run quote).1.observedQuotes.length =
        run.observedQuotes.length + 1 := by
    intro run quote
    exact List.length_append
  unfold streamRemainder at hresult
  split at hresult
  · rw [quotes_completeStream [] hresult]
    exact Nat.le_add_right _ _
  · obtain ⟨report, hreport, hmeasure⟩ := @quoteAndStreamParallel_measure
      (searcher.quoteEnv request.simConfig) searcher.quoteContext request.amountIn _
      (fun run : StreamRun κ => run.observedQuotes.length) _ hobserved _ hparallel schedule
      paths run
    simp only [hreport] at hresult
    split at hresult
    · rw [quotes_finish hresult]
      exact hmeasure
    · split at hresult
      · rw [quotes_finish hresult]
        exact hmeasure
      · rw [quotes_completeStream _ hresult]
        exact hmeasure

variable (hlimit : request.config.maxCandidates = some limit)
  (hparallel : streaming.parallel.validate = .ok ())

include hlimit hparallel

omit [StableDiGraph G Address EdgeData] in
/-- The exhaustive phase has what the heuristic phase has left of the limit. -/
theorem streamExhaustive_quotes_le (schedule : List FanIn.Event)
    (hcounted : run.observedQuotes.length ≤ run.session.state.routesObserved)
    (hwithin : run.observedQuotes.length ≤ limit)
    (hresult : (searcher.streamExhaustive request streaming schedule onEvent shouldContinue
      run heuristicError).2 = .ok result) :
    result.quotes.length ≤ limit := by
  unfold streamExhaustive at hresult
  simp only at hresult
  split at hresult
  · split at hresult
    · cases hresult
    · rw [quotes_finish hresult]
      exact hwithin
  · rename_i enumeration henumeration
    rw [hlimit, Option.map_some] at henumeration
    have hpaths := AmmGraph.length_enumerateRoutesFiltered_le henumeration
    split at hresult
    · rw [quotes_finish hresult]
      exact hwithin
    · split at hresult
      · rw [quotes_finish hresult]
        exact hwithin
      · refine (streamRemainder_quotes_le hparallel schedule _ hresult).trans ?_
        have hevaluated : run.session.state.routesObserved ≤
            run.session.state.candidatesEvaluated := Nat.le_add_right _ _
        change run.observedQuotes.length + enumeration.paths.length ≤ limit
        omega

omit [StableDiGraph G Address EdgeData] in
theorem finishHeuristic_quotes_le (schedule : List FanIn.Event)
    (hcounted : run.observedQuotes.length ≤ run.session.state.routesObserved)
    (hwithin : run.observedQuotes.length ≤ limit) {stopped : Bool}
    (hresult : (searcher.finishHeuristic request streaming schedule onEvent shouldContinue
      run stopped heuristicError).2 = .ok result) :
    result.quotes.length ≤ limit := by
  unfold finishHeuristic at hresult
  have hfinished : (if stopped then (run.session, false) else
      run.session.finishHeuristicPhase streaming onEvent).1.state.routesObserved =
        run.session.state.routesObserved := by
    split
    · rfl
    · exact (StreamingSession.finishHeuristicPhase_emits run.session).routesObserved
  generalize (if stopped then (run.session, false) else
    run.session.finishHeuristicPhase streaming onEvent) = finished at hresult hfinished
  simp only at hresult
  split at hresult
  · rw [quotes_finish hresult]
    exact hwithin
  · split at hresult
    · rw [quotes_finish hresult]
      exact hwithin
    · split at hresult
      · refine streamExhaustive_quotes_le hlimit hparallel schedule ?_ ?_ hresult
        · exact hcounted.trans_eq hfinished.symm
        · exact hwithin
      · split at hresult
        · cases hresult
        · rw [quotes_finish hresult]
          exact hwithin
      · split at hresult
        · cases hresult
        · rw [quotes_finish hresult]
          exact hwithin

end Streams

/-- The heuristic search of the request goes beyond the limit. -/
def Overflows (searcher : AmmSearcher G) (request : RouteRequest) (limit : ℕ) : Prop :=
  request.config.validate = .ok () ∧ ∃ source target,
    searcher.graph.nodeIndex request.tokenIn = some source ∧
    searcher.graph.nodeIndex request.tokenOut = some target ∧
    (searcher.LaneOverflows (searcher.requestContext (heuristicRequest request)
        request.config.mode.heuristicOrDefault source target) limit ∨
      searcher.RefinementOverflows (searcher.requestContext (heuristicRequest request)
        request.config.mode.heuristicOrDefault source target) limit)

/-- Whichever way the request is searched, it reports at most `limit` candidates. -/
structure WithinBudget (searcher : AmmSearcher G) (request : RouteRequest) (limit : ℕ) :
    Prop where
  found : ∀ quotes, searcher.findRoutes request = .ok quotes → quotes.length ≤ limit
  streamed : ∀ (κ : Type) (streaming : StreamingSearchConfig) (schedule : List FanIn.Event)
    (onEvent : EventCallback κ) (shouldContinue : Option (ℕ → Bool)) (callback : κ)
    (result : StreamingRunReport),
    (searcher.streamRoutesParallelWithCache request streaming schedule onEvent shouldContinue
      callback).2 = .ok result → result.quotes.length ≤ limit

section Requests

variable {request : RouteRequest} (hlimit : request.config.maxCandidates = some limit)

include hlimit

omit hlimit [StableDiGraph G Address EdgeData] in
/-- Quoting and ranking paths returns no more quotes than there are paths. -/
theorem length_quoteAndRankWithCache_le {paths : List RoutePath} {amountIn : U256}
    {simConfig : SimConfig} {quotes : List RouteQuote}
    (hquotes : searcher.quoteAndRankWithCache paths amountIn simConfig = .ok quotes) :
    quotes.length ≤ paths.length :=
  (length_rankOrNoViable hquotes).trans_le (length_quotePathsWithRegistry_le _ _ _ _)

/-- The quotes that a search without callbacks returns. -/
theorem length_findRoutes_le (hfits : ¬ searcher.Overflows request limit)
    {quotes : List RouteQuote} (hquotes : searcher.findRoutes request = .ok quotes) :
    quotes.length ≤ limit := by
  unfold findRoutes at hquotes
  cases hmode : request.config.mode with
  | exhaustive =>
      rw [hmode] at hquotes
      simp only [bind, Except.bind, hlimit] at hquotes
      split at hquotes
      · cases hquotes
      · rename_i enumeration henumeration
        exact (length_quoteAndRankWithCache_le hquotes).trans
          (AmmGraph.length_enumerateRoutesFiltered_le henumeration)
  | heuristic heuristic =>
      rw [hmode] at hquotes
      have hquotes : (searcher.observedSearch request heuristic silent .full ()).2.map
          HeuristicRoutesReport.quotes = .ok quotes := hquotes
      cases hvalid : request.config.validate with
      | error error =>
          simp only [observedSearch, findRoutesHeuristicWithCacheObserved, hvalid] at hquotes
          cases hquotes
      | ok valid =>
          rcases @observedSearch_resolved G _ searcher request heuristic hvalid Unit silent
            .full () with ⟨source, target, hsource, htarget⟩ | ⟨token, hmissing⟩
          · rw [observedSearch_eq hvalid hsource htarget] at hquotes
            have hsame : heuristicRequest request = request := by
              unfold heuristicRequest
              rw [hmode]
              simp only [SearchMode.heuristicOrDefault]
              rw [← hmode]
            have hrefined : ¬ searcher.RefinementOverflows
                (searcher.requestContext request heuristic source target) limit := by
              intro hover
              apply hfits
              refine ⟨hvalid, source, target, hsource, htarget, Or.inr ?_⟩
              rw [hsame, hmode]
              exact hover
            generalize hreport : (searcher.searchRoutes (searcher.requestContext request
              heuristic source target) silent .full ()).2 = outcome at hquotes
            cases outcome with
            | error error => cases hquotes
            | ok report =>
                obtain rfl := Except.ok.inj hquotes
                exact searchRoutes_withinLimit hlimit
                  (SearchConfig.maxCandidates_of_validate hvalid limit hlimit) hrefined .full ()
                  hreport
          · rw [hmissing] at hquotes
            cases hquotes

section Streams

variable {κ : Type} {onEvent : EventCallback κ} {streaming : StreamingSearchConfig}
  {shouldContinue : Option (ℕ → Bool)} {run : StreamRun κ} {result : StreamingRunReport}

omit hlimit in
/-- The heuristic phase of a stream counts and tracks what it observes. -/
theorem heuristicPhase_accounted (hvalid : request.config.validate = .ok ())
    (runLimit : HeuristicRunLimit) (hrun : run.Accounted) :
    (searcher.observedSearch (heuristicRequest request)
      request.config.mode.heuristicOrDefault (StreamRun.observeHeuristic streaming onEvent)
      runLimit run).1.Accounted := by
  have hvalid' := validate_heuristicRequest hvalid
  have hfinalists := HeuristicSearchConfig.maxFinalists_of_validate
    (SearchConfig.heuristic_of_validate rfl hvalid')
  have hwatches : FanIn.Watches (StreamRun.observeHeuristic streaming onEvent)
      (fun _ => True) StreamRun.Accounted StreamRun.Accounted :=
    ⟨fun _ quote _ hrun _ => hrun.observeHeuristic streaming onEvent quote,
      fun _ quote _ hrun _ => hrun.observeHeuristic streaming onEvent quote⟩
  rcases @observedSearch_resolved G _ searcher _ request.config.mode.heuristicOrDefault
    hvalid' _ (StreamRun.observeHeuristic streaming onEvent) runLimit run with
    ⟨source, target, hsource, htarget⟩ | ⟨token, hmissing⟩
  · rw [observedSearch_eq hvalid' hsource htarget]
    rcases @searchRoutes_watched _ _ _ _ _ G searcher (searcher.requestContext
      (heuristicRequest request) request.config.mode.heuristicOrDefault source target) _
      hwatches (fun _ _ => trivial) hfinalists runLimit run hrun with hheld | ⟨hheld, _⟩
    · exact hheld
    · exact hheld
  · rw [hmissing]
    exact hrun

/-- The quotes that the heuristic phase of a stream observes. -/
theorem heuristicPhase_quotes_le (hfits : ¬ searcher.Overflows request limit)
    (hvalid : request.config.validate = .ok ()) (runLimit : HeuristicRunLimit)
    (hfresh : run.observedQuotes = []) :
    (searcher.observedSearch (heuristicRequest request)
      request.config.mode.heuristicOrDefault (StreamRun.observeHeuristic streaming onEvent)
      runLimit run).1.observedQuotes.length ≤ limit := by
  have hvalid' := validate_heuristicRequest hvalid
  have hpositive := SearchConfig.maxCandidates_of_validate hvalid limit hlimit
  have hseen : ∀ (run : StreamRun κ) quote,
      (StreamRun.observeHeuristic streaming onEvent run quote).1.observedQuotes.length =
        run.observedQuotes.length + 1 := fun _ _ => List.length_append
  rcases @observedSearch_resolved G _ searcher _ request.config.mode.heuristicOrDefault
    hvalid' _ (StreamRun.observeHeuristic streaming onEvent) runLimit run with
    ⟨source, target, hsource, htarget⟩ | ⟨token, hmissing⟩
  · rw [observedSearch_eq hvalid' hsource htarget]
    refine @searchRoutes_seen_le (StreamRun κ) G searcher _ _ limit _ hlimit hpositive
      (fun run => run.observedQuotes.length) hseen ?_ ?_ runLimit run ?_
    · exact fun hover => hfits ⟨hvalid, source, target, hsource, htarget, Or.inl hover⟩
    · exact fun hover => hfits ⟨hvalid, source, target, hsource, htarget, Or.inr hover⟩
    · exact congrArg List.length hfresh
  · rw [hmissing, hfresh]
    exact Nat.zero_le _

/-- The quotes of both phases of a stream. -/
theorem streamHeuristic_quotes_le (hfits : ¬ searcher.Overflows request limit)
    (hparallel : streaming.parallel.validate = .ok ())
    (hvalid : request.config.validate = .ok ()) (schedule : List FanIn.Event)
    (hrun : run.Accounted) (hfresh : run.observedQuotes = [])
    (hresult : (searcher.streamHeuristic request streaming schedule onEvent shouldContinue
      run).2 = .ok result) : result.quotes.length ≤ limit := by
  have hwithin := @heuristicPhase_quotes_le G searcher limit _ request hlimit κ onEvent
    streaming run hfits hvalid
    (if streaming.completion = .fastLaneExhausted then .fastLaneOnly else .full) hfresh
  have haccounted := @heuristicPhase_accounted G searcher _ request κ onEvent streaming run
    hvalid (if streaming.completion = .fastLaneExhausted then .fastLaneOnly else .full) hrun
  unfold streamHeuristic at hresult
  simp only at hresult
  generalize hsearch : searcher.findRoutesHeuristicWithCacheObserved _ _ _ _ _ _ _ _ _ _ =
    searched at hresult
  rw [show searcher.observedSearch (heuristicRequest request)
    request.config.mode.heuristicOrDefault (StreamRun.observeHeuristic streaming onEvent)
    (if streaming.completion = .fastLaneExhausted then .fastLaneOnly else .full) run =
      searched from hsearch] at hwithin haccounted
  obtain ⟨after, outcome⟩ := searched
  simp only at hresult hwithin haccounted
  cases outcome with
  | ok report =>
      simp only at hresult
      refine finishHeuristic_quotes_le hlimit hparallel schedule ?_ ?_ hresult
      · refine haccounted.counted.trans_eq ?_
        exact (StreamingSession.observeFailedCandidates_emits after.session .heuristic
          report.failedCandidates).routesObserved.symm
      · exact hwithin
  | error error =>
      cases error with
      | invalidConfig reason => cases hresult
      | tokenNotFound token => cases hresult
      | _ =>
          exact finishHeuristic_quotes_le hlimit hparallel schedule haccounted.counted hwithin
            hresult

/-- No search of a request that fits goes beyond the limit. -/
theorem withinBudget_of_fits (hfits : ¬ searcher.Overflows request limit) :
    searcher.WithinBudget request limit where
  found := fun _ hquotes => length_findRoutes_le hlimit hfits hquotes
  streamed := by
    intro κ streaming schedule onEvent shouldContinue callback result hresult
    unfold streamRoutesParallelWithCache at hresult
    split at hresult
    · cases hresult
    · cases hresult
    · rename_i hstreaming hvalid
      have hstart : (StreamRun.emit onEvent ({ session := ⟨.new streaming, callback⟩ } :
          StreamRun κ) (.started streaming.completion)).1.Accounted := ⟨le_rfl, rfl⟩
      have hfresh : (StreamRun.emit onEvent ({ session := ⟨.new streaming, callback⟩ } :
          StreamRun κ) (.started streaming.completion)).1.observedQuotes = [] := rfl
      simp only at hresult
      generalize StreamRun.emit onEvent _ _ = emitted at hresult hstart hfresh
      split at hresult
      · obtain rfl := Except.ok.inj hresult
        rw [hfresh]
        exact Nat.zero_le _
      · exact streamHeuristic_quotes_le hlimit hfits (parallel_of_validate hstreaming) hvalid
          schedule hstart hfresh hresult

end Streams

section Overflows

omit hlimit [StableDiGraph G Address EdgeData] in
/-- A stream that is to end with the heuristic phase reports what it has observed. -/
theorem finishHeuristic_heuristicOnly {κ : Type} {onEvent : EventCallback κ}
    {streaming : StreamingSearchConfig} {shouldContinue : Option (ℕ → Bool)}
    (hcompletion : streaming.completion = .heuristicExhausted) (schedule : List FanIn.Event)
    {run : StreamRun κ} (hbest : run.session.state.best ≠ none) (stopped : Bool)
    (heuristicError : Option SearchError) :
    ∃ result, (searcher.finishHeuristic request streaming schedule onEvent shouldContinue run
      stopped heuristicError).2 = .ok result ∧ result.quotes = run.observedQuotes := by
  unfold finishHeuristic
  have hfinished : (if stopped then (run.session, false) else
      run.session.finishHeuristicPhase streaming onEvent).1.state.best ≠ none := by
    split
    · exact hbest
    · rw [(StreamingSession.finishHeuristicPhase_emits run.session).best]
      exact hbest
  generalize (if stopped then (run.session, false) else
    run.session.finishHeuristicPhase streaming onEvent) = finished at hfinished ⊢
  simp only
  split
  · exact ⟨_, rfl, rfl⟩
  · split
    · exact ⟨_, rfl, rfl⟩
    · rw [hcompletion]
      simp only
      split
      · rename_i hnone
        exact absurd hnone hfinished
      · exact ⟨_, rfl, rfl⟩

omit hlimit in
/-- A search that has resolved its inputs fails for want of routes only. -/
theorem searchRoutes_error {σ : Type} {context : HeuristicContext}
    {onQuote : σ → RouteQuote → σ × Bool} {runLimit : HeuristicRunLimit} {start : σ}
    {error : SearchError}
    (herror : (searcher.searchRoutes context onQuote runLimit start).2 = .error error) :
    (∃ candidates failures, error = .noViableRoute candidates failures) ∨
      error = .noPath context.tokenIn context.tokenOut := by
  unfold searchRoutes at herror
  simp only at herror
  split at herror
  · simp only [finishFastLane] at herror
    split at herror
    · exact Or.inl ⟨_, _, (Except.error.inj herror).symm⟩
    · cases herror
  · simp only [finishSearch] at herror
    split at herror
    · cases herror
    · split at herror
      · split at herror
        · exact Or.inr (Except.error.inj herror).symm
        · exact Or.inl ⟨_, _, (Except.error.inj herror).symm⟩
      · split at herror
        · cases herror
        · split at herror
          · rename_i failed hfailed
            obtain rfl := Except.error.inj herror
            unfold rankOrNoViable at hfailed
            split at hfailed
            · exact Or.inl ⟨_, _, (Except.error.inj hfailed).symm⟩
            · cases hfailed
          · cases herror

/-- The heuristic phase of an overflowing search that nobody stops observes more quotes
than the limit admits. -/
theorem heuristicPhase_overflows (hover : searcher.Overflows request limit)
    {run : StreamRun Unit} {streaming : StreamingSearchConfig}
    (hpolicy : streaming.stopPolicy = none) (hfresh : run.observedQuotes = []) :
    limit < (searcher.observedSearch (heuristicRequest request)
      request.config.mode.heuristicOrDefault
      (StreamRun.observeHeuristic streaming fun _ _ => ((), .continue)) .full
      run).1.observedQuotes.length := by
  obtain ⟨hvalid, source, target, hsource, htarget, hcases⟩ := hover
  have hvalid' := validate_heuristicRequest hvalid
  have hpositive := SearchConfig.maxCandidates_of_validate hvalid limit hlimit
  have hseen : ∀ (run : StreamRun Unit) quote,
      (StreamRun.observeHeuristic streaming (fun _ _ => ((), .continue)) run
        quote).1.observedQuotes.length = run.observedQuotes.length + 1 :=
    fun _ _ => List.length_append
  have hkeep := (@StreamRun.observes_observeHeuristic Unit (fun _ _ => ((), .continue))
    streaming (fun _ _ => rfl) hpolicy).keep
  rw [observedSearch_eq hvalid' hsource htarget]
  rcases hcases with hlane | hrefinement
  · exact @searchRoutes_laneOverflows (StreamRun Unit) G searcher _ _ limit _ hlimit hpositive
      (fun run => run.observedQuotes.length) hseen hkeep rfl hlane .full run
      (congrArg List.length hfresh)
  · exact @searchRoutes_refinementOverflows (StreamRun Unit) G searcher _ _ limit _ hlimit
      hpositive (fun run => run.observedQuotes.length) hseen hkeep rfl hrefinement run
      (congrArg List.length hfresh)

/-- A stream that ends with the heuristic phase of an overflowing search. -/
theorem streamHeuristic_overflows (hover : searcher.Overflows request limit)
    {run : StreamRun Unit} {streaming : StreamingSearchConfig}
    (hpolicy : streaming.stopPolicy = none)
    (hcompletion : streaming.completion = .heuristicExhausted) (hrun : run.Accounted)
    (hfresh : run.observedQuotes = []) :
    ∃ result, (searcher.streamHeuristic request streaming [] (fun _ _ => ((), .continue)) none
      run).2 = .ok result ∧ limit < result.quotes.length := by
  have hmore := heuristicPhase_overflows hlimit hover hpolicy hfresh
  have haccounted := @heuristicPhase_accounted G searcher _ request Unit
    (fun _ _ => ((), .continue)) streaming run hover.1 .full hrun
  obtain ⟨hvalid, source, target, hsource, htarget, _⟩ := hover
  have heq : searcher.observedSearch (heuristicRequest request)
      request.config.mode.heuristicOrDefault
      (StreamRun.observeHeuristic streaming fun _ _ => ((), .continue)) .full run = _ :=
    observedSearch_eq (validate_heuristicRequest hvalid) hsource htarget _ .full run
  unfold streamHeuristic
  rw [if_neg (by rw [hcompletion]; decide)]
  simp only
  generalize hsearch : searcher.findRoutesHeuristicWithCacheObserved _ _ _ _ _ _ _ _ _ _ =
    searched
  rw [show searcher.observedSearch (heuristicRequest request)
    request.config.mode.heuristicOrDefault
    (StreamRun.observeHeuristic streaming fun _ _ => ((), .continue)) .full run = searched
      from hsearch] at hmore haccounted heq
  obtain ⟨after, outcome⟩ := searched
  simp only at hmore haccounted ⊢
  have hbest : after.session.state.best ≠ none := by
    intro hnone
    have htracks := haccounted.tracks
    unfold StreamRun.Tracks at htracks
    rw [hnone] at htracks
    rw [show after.observedQuotes = [] from htracks] at hmore
    exact absurd hmore (Nat.not_lt_zero _)
  cases outcome with
  | ok report =>
      have hfailed := (@StreamingSession.observeFailedCandidates_emits Unit
        (fun _ _ => ((), .continue)) streaming after.session .heuristic
        report.failedCandidates).best
      obtain ⟨result, hresult, hquotes⟩ := @finishHeuristic_heuristicOnly G searcher request
        Unit (fun _ _ => ((), .continue)) streaming none hcompletion []
        { after with
          session := (after.session.observeFailedCandidates streaming
            (fun _ _ => ((), .continue)) .heuristic report.failedCandidates).1
          evaluatedPaths := after.evaluatedPaths ∪
            (report.quotes.map RouteQuote.path).toFinset }
        (fun hnone => hbest (hfailed.symm.trans hnone))
        (!(after.session.observeFailedCandidates streaming (fun _ _ => ((), .continue))
          .heuristic report.failedCandidates).2 || report.stopped) none
      refine ⟨result, hresult, ?_⟩
      rw [hquotes]
      exact hmore
  | error error =>
      obtain ⟨result, hresult, hquotes⟩ := @finishHeuristic_heuristicOnly G searcher request
        Unit (fun _ _ => ((), .continue)) streaming none hcompletion [] after hbest false
        (some error)
      rcases searchRoutes_error (congrArg Prod.snd heq).symm with
        ⟨candidates, failures, rfl⟩ | rfl
      · refine ⟨result, hresult, ?_⟩
        rw [hquotes]
        exact hmore
      · refine ⟨result, hresult, ?_⟩
        rw [hquotes]
        exact hmore

/-- A request reports at most `limit` candidates, however it is searched, exactly when
neither its fast lane nor its refinement pass goes beyond the limit. -/
theorem withinBudget_iff :
    searcher.WithinBudget request limit ↔ ¬ searcher.Overflows request limit := by
  constructor
  · intro hwithin hover
    have hbound := fun result => hwithin.streamed Unit
      { completion := .heuristicExhausted, parallel := ⟨1⟩ } []
      (fun _ _ => ((), .continue)) none () result
    unfold streamRoutesParallelWithCache at hbound
    rw [hover.1] at hbound
    have hstart : (StreamRun.emit (fun _ _ => ((), .continue))
        ({ session := ⟨.new { completion := .heuristicExhausted, parallel := ⟨1⟩ }, ()⟩ } :
          StreamRun Unit) (.started .heuristicExhausted)).1.Accounted := ⟨le_rfl, rfl⟩
    obtain ⟨result, hresult, hmore⟩ := @streamHeuristic_overflows G searcher limit _ request
      hlimit hover _ { completion := .heuristicExhausted, parallel := ⟨1⟩ } rfl rfl hstart rfl
    exact absurd (hbound result hresult) (not_le.mpr hmore)
  · exact withinBudget_of_fits hlimit

end Overflows

end Requests

end AmmSearcher

namespace RoundTripExample

/-- The request with one candidate has a fast lane of one path and no refinement pass. -/
theorem withinBudget_limitedRequest : searcher.WithinBudget limitedRequest 1 := by
  refine (AmmSearcher.withinBudget_iff rfl).mpr ?_
  rintro ⟨_, source, target, hsource, htarget, hlane | hrefinement⟩
  · have hnodes : searcher.graph.nodeIndex limitedRequest.tokenIn = some 0 ∧
        searcher.graph.nodeIndex limitedRequest.tokenOut = some 1 := by
      decide +kernel
    obtain rfl := Option.some.inj (hnodes.1.symm.trans hsource)
    obtain rfl := Option.some.inj (hnodes.2.symm.trans htarget)
    have hlength : (searcher.laneQuotes (searcher.requestContext
        (AmmSearcher.heuristicRequest limitedRequest)
        limitedRequest.config.mode.heuristicOrDefault 0 1)).length = 1 := by
      decide +kernel
    exact absurd hlane.2 (by rw [hlength]; decide)
  · have hmodes : .refinement ∉
        heuristicPassModes limitedRequest.config.mode.heuristicOrDefault := by
      decide
    exact hmodes hrefinement.refines

/-- Two direct pools in the fast lane, and one candidate. -/
def wideRequest : RouteRequest :=
  { request 2 with
    config :=
      { connectorTokens := some {2}
        maxCandidates := some 1
        mode := .heuristic { fastLane := { directEdgesPerPair := 2 } } } }

/-- Two pools for a shortlist of one, and one candidate. -/
def refinedRequest : RouteRequest :=
  { request 2 with
    config :=
      { connectorTokens := some {2}
        maxCandidates := some 1
        mode := .heuristic
          { fastLane := { enabled := false }
            edgeShortlist :=
              { enabled := true
                refineParallelEdges := true
                refinementEdgesPerPair := 2 } } } }

/-- A stream of the wide request observes two quotes, and so does the refined one, which is
also returned two. -/
theorem not_withinBudget :
    ¬ searcher.WithinBudget wideRequest 1 ∧ ¬ searcher.WithinBudget refinedRequest 1 := by
  constructor
  · intro hwithin
    have hstreamed : (searcher.streamRoutesParallelWithCache wideRequest streaming []
        (fun _ _ => ((), .continue)) none ()).2.toOption.map
          (fun result => result.quotes.length) = some 2 := by
      decide +kernel
    have hbound := hwithin.streamed Unit streaming [] (fun _ _ => ((), .continue)) none ()
    generalize (searcher.streamRoutesParallelWithCache wideRequest streaming []
      (fun _ _ => ((), .continue)) none ()).2 = outcome at hstreamed hbound
    cases outcome with
    | error error => cases hstreamed
    | ok result =>
        have hlength : result.quotes.length = 2 := Option.some.inj hstreamed
        have hle := hbound result rfl
        rw [hlength] at hle
        exact absurd hle (by decide)
  · intro hwithin
    have hfound : (searcher.findRoutes refinedRequest).toOption.map List.length = some 2 := by
      decide +kernel
    have hbound := hwithin.found
    generalize searcher.findRoutes refinedRequest = outcome at hfound hbound
    cases outcome with
    | error error => cases hfound
    | ok quotes =>
        have hlength : quotes.length = 2 := Option.some.inj hfound
        have hle := hbound quotes rfl
        rw [hlength] at hle
        exact absurd hle (by decide)

end RoundTripExample

end AmmSearch
