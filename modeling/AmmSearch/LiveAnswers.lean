/-
What a subscriber is told.  Each published end of a search is the end of an undisturbed
search for the spec of its subscription, on a published snapshot; and a route that is ready
is the best of the routes that a graph built from that snapshot has.
-/
import AmmSearch.LiveRouteWorkers

open FiniteMap StableGraph

namespace AmmSearch

variable {G : Type}

/-- A search of the subscription ended. -/
def RouteSubscriptionState.isEnd : RouteSubscriptionState → Bool
  | ready _ _ _ => true
  | failed _ _ => true
  | _ => false

theorem RouteSubscriptionState.concludes_of_isEnd {state : RouteSubscriptionState}
    (hend : state.isEnd = true) : state.concludes = true := by
  cases state with
  | ready => rfl
  | failed => rfl
  | _ => cases hend

/-- The environment of the quotes of a request on a snapshot. -/
def AmmStateSnapshot.quoteEnv (debug : DebugText) (snapshot : AmmStateSnapshot)
    (request : RouteRequest) : QuoteEnv :=
  ⟨snapshot.registry.registry, request.simConfig, debug⟩

section Graphs

variable [StableDiGraph G Address EdgeData]

/-- Routes are read off the edges of the pools alone. -/
theorem AmmGraph.isRoute_congr {g g' : AmmGraph G}
    (hedges : g.edgeMultiset = g'.edgeMultiset) {config : SearchConfig}
    {tokenIn tokenOut : Address} {allow : Bool} {path : RoutePath} :
    g.IsRoute config tokenIn tokenOut allow path ↔
      g'.IsRoute config tokenIn tokenOut allow path := by
  have hhop : ∀ hop, g.IsHop hop ↔ g'.IsHop hop := by
    intro hop
    rw [IsHop, IsHop, ← mem_edgeMultiset, ← mem_edgeMultiset, hedges]
  constructor
  · rintro ⟨hsteps, hconnects, hmin, hmax, hpools, htokens, hinter⟩
    exact ⟨fun hop hmem => (hhop hop).mp (hsteps hop hmem), hconnects, hmin, hmax, hpools,
      htokens, hinter⟩
  · rintro ⟨hsteps, hconnects, hmin, hmax, hpools, htokens, hinter⟩
    exact ⟨fun hop hmem => (hhop hop).mpr (hsteps hop hmem), hconnects, hmin, hmax, hpools,
      htokens, hinter⟩

/-- A report for a spec on a snapshot, against the routes of a graph: it ranks quotes of
routes, and a complete search names a route that none of them beats. -/
structure RouteSubscriptionSpec.Answered (debug : DebugText) (spec : RouteSubscriptionSpec)
    (snapshot : AmmStateSnapshot) (graph : AmmGraph G) (report : StreamingSearchReport) :
    Prop where
  ranked : ∃ quotes, IsFirstBest quotes report.best ∧
    report.topRoutes = bestRoutes spec.streaming.topK quotes ∧
    report.topRoutes.head? = report.best ∧
    ∀ quote ∈ quotes, graph.IsRoute spec.request.config spec.request.tokenIn
        spec.request.tokenOut false quote.path ∧
      (snapshot.quoteEnv debug spec.request).Gives spec.request.amountIn quote
  complete : spec.request.config.maxCandidates = none →
    spec.streaming.completion = .exhaustive → spec.streaming.stopPolicy = none →
    ∃ best ∈ report.best, ∀ path quote, graph.IsRoute spec.request.config
        spec.request.tokenIn spec.request.tokenOut false path →
      (snapshot.quoteEnv debug spec.request).pathOutcome (liveQuoteContext snapshot)
        spec.request.amountIn path = .inl quote → quote.amountOut ≤ best.amountOut

/-- The states in which a search leaves its subscription. -/
inductive RouteWorkerJob.Concludes (debug : DebugText) (job : RouteWorkerJob G) :
    RouteSubscriptionState → Prop
  | ready {turns : SearchTurns} {report : StreamingSearchReport}
      (undisturbed : turns.Undisturbed) (search : job.search debug turns = .ok report) :
      Concludes debug job (.ready job.stamp.source
        (report.best.map (VersionedRouteQuote.mk job.stamp.source)) report)
  | failed {turns : SearchTurns} {error : SearchError} (undisturbed : turns.Undisturbed)
      (search : job.search debug turns = .error error) :
      Concludes debug job (.failed job.stamp.source (searchFailure debug error))
  | panicked : Concludes debug job (.failed job.stamp.source routeWorkerPanicked)

theorem RouteWorkerJob.Returns.concludes {debug : DebugText} {job : RouteWorkerJob G}
    {stopped : Prop} {result : Except RouteSearchFailure StreamingSearchReport}
    (hreturns : job.Returns debug stopped result) (hrunning : ¬ stopped) :
    job.Concludes debug (LiveRouteActor.installedState job.stamp result) := by
  cases hreturns with
  | skipped noticed => exact absurd noticed hrunning
  | found undisturbed search => exact .ready (undisturbed hrunning) search
  | failed undisturbed search => exact .failed (undisturbed hrunning) search
  | panicked => exact .panicked

section Jobs

variable {publish : ℕ → AmmStateSnapshot} {options : GraphBuildOptions}
  {job : RouteWorkerJob G} {live : LiveAmmGraph G} {debug : DebugText} {turns : SearchTurns}
  {report : StreamingSearchReport} {spec : RouteSubscriptionSpec}

theorem RouteWorkerJob.exists_of_search (hsearch : job.search debug turns = .ok report) :
    ∃ result, ((job.view.searcher debug turns).streamRoutesParallelWithCache job.request
        job.streaming turns.schedule (logged turns.onEvent)
        (some fun count => !turns.cancelled count) (0, [])).2 = .ok result ∧
      result.report = report := by
  unfold RouteWorkerJob.search AmmSearcher.streamRoutesSnapshotCancellable at hsearch
  cases hresult : ((job.view.searcher debug turns).streamRoutesParallelWithCache job.request
      job.streaming turns.schedule (logged turns.onEvent)
      (some fun count => !turns.cancelled count) (0, [])).2 with
  | error error =>
      simp only [hresult] at hsearch
      cases hsearch
  | ok result =>
      simp only [hresult] at hsearch
      exact ⟨result, rfl, Except.ok.inj hsearch⟩

/-- A search of a pictured view answers its spec, over the routes of the view. -/
theorem RouteWorkerJob.MadeFor.answered (hmade : job.MadeFor spec)
    (hpictures : job.view.Pictures publish options live)
    (hne : spec.request.tokenIn ≠ spec.request.tokenOut) (hundisturbed : turns.Undisturbed)
    (hsearch : job.search debug turns = .ok report) :
    spec.Answered debug job.view.snapshot job.view.graph report := by
  have hindexed : (job.view.searcher debug turns).graph.Indexed := by
    rw [hpictures.eq]
    exact hpictures.represents.mirrors.valid.indexed
  obtain ⟨result, hresult, rfl⟩ := exists_of_search hsearch
  rw [hmade.request, hmade.streaming] at hresult
  obtain ⟨quotes, hbest, htop, hhead, hquotes⟩ :=
    (AmmSearcher.streamRoutes_answers hindexed hne _ 0 hresult).ranked
  refine ⟨⟨quotes, hbest, htop, hhead, hquotes⟩, fun hlimit hcompletion hpolicy => ?_⟩
  have hcontinue : ∀ callback event,
      (logged turns.onEvent callback event).2 = .continue := by
    intro callback event
    simp [logged, SearchTurns.onEvent, hundisturbed.refused]
  have hrunning : ∀ poll ∈ some fun count => !turns.cancelled count,
      ∀ count, poll count = true := by
    intro poll hpoll count
    obtain rfl := Option.some.inj hpoll
    simp [hundisturbed.cancelled]
  have hexhaustive : spec.workerStreaming.completion = .exhaustive := hcompletion
  have huniverse := AmmSearcher.streamRoutes_universe hindexed hne hlimit hexhaustive hpolicy
    hcontinue hrunning turns.schedule (0, []) hresult
  obtain ⟨best, -, hreported, hlargest⟩ := huniverse.best
  exact ⟨best, hreported, hlargest⟩

/-- The routes of a pictured view are those of any build from its snapshot. -/
theorem LiveSearchView.Pictures.rebuilt {view : LiveSearchView G}
    (hpublished : Published publish) (hpictures : view.Pictures publish options live)
    (lineage : ℕ) : ∃ rebuilt : LiveAmmGraph G,
      LiveAmmGraph.fromSnapshot lineage view.snapshot options = .ok rebuilt ∧
        view.graph.edgeMultiset = rebuilt.graph.edgeMultiset := by
  have hactive := hpictures.represents.active
  rw [hpictures.options] at hactive
  have hindex := indexedFromSnapshot_of_active hactive
  obtain ⟨rebuilt, hrebuilt⟩ : ∃ rebuilt : LiveAmmGraph G,
      LiveAmmGraph.fromSnapshot lineage (publish live.stateVersion) options =
        .ok rebuilt := by
    unfold LiveAmmGraph.fromSnapshot LiveAmmGraph.fromSnapshotWithLiquidityScope
    simp only [hindex]
    exact ⟨_, rfl⟩
  have hright := LiveAmmGraph.Represents.fromSnapshot hpublished hrebuilt
  obtain ⟨hversion, hoptions, hscope⟩ := LiveAmmGraph.stamped_fromSnapshot hrebuilt
  have hagrees := hpictures.represents.agrees hright
    (hversion.trans (hpublished.version _)).symm (hpictures.options.trans hoptions.symm)
    (hpictures.scope.trans hscope.symm)
  refine ⟨rebuilt, ?_, ?_⟩
  · rw [hpictures.eq]
    exact hrebuilt
  · rw [hpictures.eq]
    exact hagrees.edges

theorem RouteSubscriptionSpec.Answered.congr {snapshot : AmmStateSnapshot}
    {g g' : AmmGraph G} (hanswered : spec.Answered debug snapshot g report)
    (hedges : g.edgeMultiset = g'.edgeMultiset) : spec.Answered debug snapshot g' report := by
  obtain ⟨⟨quotes, hbest, htop, hhead, hquotes⟩, hcomplete⟩ := hanswered
  refine ⟨⟨quotes, hbest, htop, hhead, fun quote hquote => ?_⟩, ?_⟩
  · exact ⟨(AmmGraph.isRoute_congr hedges).mp (hquotes quote hquote).1, (hquotes quote hquote).2⟩
  · intro hlimit hcompletion hpolicy
    obtain ⟨best, hreported, hlargest⟩ := hcomplete hlimit hcompletion hpolicy
    exact ⟨best, hreported, fun path quote hroute houtcome =>
      hlargest path quote ((AmmGraph.isRoute_congr hedges).mpr hroute) houtcome⟩

end Jobs

end Graphs

namespace LiveRouteRuntime

variable [StableDiGraph G Address EdgeData] {debug : DebugText}
  {publish : ℕ → AmmStateSnapshot} {options : GraphBuildOptions}
  {start runtime next : LiveRouteRuntime G} {action : LiveRouteAction}
  {input : LiveRouteActorInput} {answers : List Bool} {received : LiveRouteRuntime G}
  {turn : LiveRouteTurn G}

/-- Nobody waits for the job any more. -/
def Stopped (runtime : LiveRouteRuntime G) (job : RouteWorkerJob G) : Prop :=
  runtime.isCancelled job = true ∨ runtime.closed = true

/-- Commits are published ones, and a search ends with what its worker returns. -/
def Faithful (debug : DebugText) (publish : ℕ → AmmStateSnapshot)
    (runtime : LiveRouteRuntime G) (action : LiveRouteAction) : Prop :=
  match action with
  | LiveRouteAction.turn input _ => input.Faithful publish
  | LiveRouteAction.finish index result => ∀ run, runtime.runs[index]? = some run →
      run.result = none → run.job.Returns debug (runtime.Stopped run.job) result
  | _ => True

/-- The actor is grounded, and each end of a search on its way is one that a worker can
send for a job that was submitted. -/
structure Answering (debug : DebugText) (publish : ℕ → AmmStateSnapshot)
    (options : GraphBuildOptions) (runtime : LiveRouteRuntime G) : Prop where
  grounded : runtime.actor.Grounded publish options
  runs : ∀ run ∈ runtime.runs, ∀ result, run.result = some result →
    run.job.Returns debug (runtime.Stopped run.job) result
  results : ∀ stamp result, .completed stamp result ∈ runtime.results →
    ∃ job ∈ runtime.actor.submitted, job.stamp = stamp ∧
      job.Returns debug (runtime.Stopped job) result

omit [StableDiGraph G Address EdgeData] in
/-- A job that nobody waits for is never waited for again. -/
theorem Stopped.later {job : RouteWorkerJob G}
    (hraised : runtime.actor.tokens.raised ⊆ next.actor.tokens.raised)
    (hclosed : runtime.closed = true → next.closed = true) (hstopped : runtime.Stopped job) :
    next.Stopped job :=
  hstopped.imp (isCancelled_of_subset hraised) hclosed

theorem Answering.later (hanswering : runtime.Answering debug publish options)
    (hgrounded : next.actor.Grounded publish options)
    (hgrows : runtime.actor.Grows next.actor)
    (hclosed : runtime.closed = true → next.closed = true) (hruns : next.runs ⊆ runtime.runs)
    (hresults : next.results ⊆ runtime.results) : next.Answering debug publish options := by
  refine ⟨hgrounded, ?_, ?_⟩
  · intro run hrun result hresult
    exact (hanswering.runs run (hruns hrun) result hresult).mono
      (Stopped.later hgrows.raised hclosed)
  · intro stamp result hmem
    obtain ⟨job, hjob, hstamp, hreturns⟩ := hanswering.results stamp result (hresults hmem)
    exact ⟨job, hgrows.submitted hjob, hstamp,
      hreturns.mono (Stopped.later hgrows.raised hclosed)⟩

theorem Answering.send (hanswering : runtime.Answering debug publish options)
    {message : RouteWorkerMessage}
    (hmessage : ∀ stamp result, message = .completed stamp result →
      ∃ job ∈ runtime.actor.submitted, job.stamp = stamp ∧
        job.Returns debug (runtime.Stopped job) result) :
    (runtime.send message).Answering debug publish options := by
  unfold LiveRouteRuntime.send
  split
  · exact hanswering
  · refine ⟨hanswering.grounded, hanswering.runs, ?_⟩
    intro stamp result hmem
    rcases List.mem_append.mp hmem with hold | hnew
    · exact hanswering.results stamp result hold
    · exact hmessage stamp result (List.mem_singleton.mp hnew).symm

theorem grows_of_turns
    (hturns : runtime.Turns input answers received turn next) :
    runtime.actor.Grows next.actor := by
  have hquiet := hturns.receives.quiet.1
  have hreceived := (LiveRouteActor.Handles.quiet hquiet).grows
  rw [hturns.actor]
  exact LiveRouteActor.kept_by_turn (fun actor => runtime.actor.Grows actor)
    (fun hbefore hhandles => hbefore.trans hhandles.grows)
    (fun message hbefore => hbefore.trans (LiveRouteActor.grows_message _ message))
    hturns.turns answers hreceived

theorem Answering.of_turns (hpublished : Published publish)
    (hanswering : runtime.Answering debug publish options) (hlogged : runtime.actor.Logged)
    (hinput : input.Faithful publish)
    (hturns : runtime.Turns input answers received turn next) :
    next.Answering debug publish options := by
  have hquiet := hturns.receives.quiet.1
  have hreceived := hanswering.grounded.stays (.quiet hquiet)
  have hended := hreceived.of_turn hpublished hinput hturns.turns
  have hlater : turn.actor.Logged := LiveRouteActor.kept_before_end _
    LiveRouteActor.Logged.handles (fun message hbefore => hbefore.message message) hturns.turns
    (hlogged.handles (.quiet hquiet))
  refine hanswering.later ?_ (grows_of_turns hturns) ?_ ?_ ?_
  · rw [hturns.actor]
    exact hended.endTurn hlater answers
  · intro hclosed
    cases hturns.isOpen.symm.trans hclosed
  · rw [hturns.runs]
    exact List.Subset.refl _
  · rw [hturns.results]
    rcases hturns.receives.results with ⟨_, _, _, hresults, _⟩ | ⟨_, hresults⟩
    · rw [hresults]
      exact List.subset_cons_self _ _
    · rw [hresults]
      exact List.Subset.refl _

/-- Steps that leave the actor but for its flags and its queue of jobs. -/
theorem Answering.of_same (hanswering : runtime.Answering debug publish options)
    (hsame : runtime.actor.Stays next.actor)
    (hraised : runtime.actor.tokens.raised ⊆ next.actor.tokens.raised)
    (hclosed : next.closed = runtime.closed) (hruns : next.runs ⊆ runtime.runs)
    (hresults : next.results ⊆ runtime.results) : next.Answering debug publish options :=
  hanswering.later (hanswering.grounded.stays hsame)
    ⟨by rw [hsame.submitted]; exact List.Subset.refl _, hraised⟩ hclosed.trans hruns hresults

theorem Answering.take (hanswering : runtime.Answering debug publish options)
    (htake : runtime.take = some next) : next.Answering debug publish options := by
  unfold LiveRouteRuntime.take at htake
  split at htake
  · cases htake
  rename_i job rest hjobs
  have htaken : Answering debug publish options
      { runtime with actor := { runtime.actor with jobs := rest } } :=
    hanswering.of_same ⟨⟨rfl, le_rfl, fun _ entry hentry => Or.inl ⟨entry, hentry, .refl entry⟩⟩,
      rfl, rfl⟩ (Finset.Subset.refl _) rfl (List.Subset.refl _) (List.Subset.refl _)
  simp only at htake
  split at htake
  · rename_i hcancelled
    cases htake
    refine ⟨htaken.grounded, ?_, htaken.results⟩
    intro run hrun result hresult
    rcases List.mem_append.mp hrun with hold | hnew
    · exact htaken.runs run hold result hresult
    · obtain rfl := List.mem_singleton.mp hnew
      obtain rfl := Option.some.inj hresult
      exact .skipped (Or.inl hcancelled)
  · cases htake
    refine ⟨htaken.grounded, ?_, htaken.results⟩
    intro run hrun result hresult
    rcases List.mem_append.mp hrun with hold | hnew
    · exact htaken.runs run hold result hresult
    · rw [List.mem_singleton.mp hnew] at hresult
      cases hresult

theorem Answering.finish (hanswering : runtime.Answering debug publish options)
    (htraced : runtime.Traced) {index : ℕ}
    {result : Except RouteSearchFailure StreamingSearchReport}
    (hfaithful : runtime.Faithful debug publish (.finish index result))
    (hfinish : runtime.finish index result = some next) :
    next.Answering debug publish options := by
  obtain ⟨run, hrun, rfl⟩ := Option.map_eq_some_iff.mp hfinish
  have hmem := List.mem_of_getElem? hrun
  have hreturns : run.job.Returns debug (runtime.Stopped run.job) (run.result.getD result) := by
    cases hresult : run.result with
    | none => exact hfaithful run hrun hresult
    | some ended => exact hanswering.runs run hmem ended hresult
  have hrest : Answering debug publish options
      { runtime with runs := runtime.runs.eraseIdx index } :=
    ⟨hanswering.grounded, fun other hother => hanswering.runs other
      (List.mem_of_mem_eraseIdx hother), hanswering.results⟩
  refine hrest.send ?_
  intro stamp ended hcompleted
  obtain ⟨rfl, rfl⟩ := RouteWorkerMessage.completed.inj hcompleted
  exact ⟨run.job, htraced.runs run hmem, rfl, hreturns⟩

theorem Answering.step (hpublished : Published publish)
    (hanswering : runtime.Answering debug publish options) (hlogged : runtime.actor.Logged)
    (htraced : runtime.Traced) (hfaithful : runtime.Faithful debug publish action)
    (hstep : runtime.step action = some next) : next.Answering debug publish options := by
  have howner : ∀ {subscription tokens}, runtime.actor.tokens.raised ⊆ tokens.raised →
      runtime.byOwner subscription tokens = some next →
      next.Answering debug publish options := by
    intro subscription tokens hraised hbyOwner
    unfold byOwner at hbyOwner
    split at hbyOwner
    · cases hbyOwner
      exact hanswering.of_same ⟨⟨rfl, le_rfl, fun _ entry hentry =>
        Or.inl ⟨entry, hentry, .refl entry⟩⟩, rfl, rfl⟩ hraised rfl (List.Subset.refl _)
        (List.Subset.refl _)
    · cases hbyOwner
  have hcut : ∀ job, (runtime.cut job).Answering debug publish options := fun job =>
    ⟨hanswering.grounded, hanswering.runs, hanswering.results⟩
  cases action with
  | turn input answers =>
      obtain ⟨received, turn, hturns⟩ := turns_of_turn hstep
      exact hanswering.of_turns hpublished hlogged hfaithful hturns
  | request subscription => exact howner (Finset.subset_insert _ _) hstep
  | cancel subscription => exact howner (Finset.subset_insert _ _) hstep
  | release subscription => exact howner (Finset.subset_insert _ _) hstep
  | take => exact hanswering.take hstep
  | poll index =>
      obtain ⟨run, hrun, rfl⟩ := Option.map_eq_some_iff.mp hstep
      split
      · exact hcut run.job
      · exact hanswering
  | emit index event =>
      obtain ⟨run, hrun, rfl⟩ := Option.map_eq_some_iff.mp hstep
      split
      · exact hcut run.job
      · exact hanswering.send fun stamp result hcompleted => by cases hcompleted
  | finish index result => exact hanswering.finish htraced hfaithful hstep

theorem answering_of_spawn (hpublished : Published publish) {lineage version : ℕ}
    {config : LiveRouteRuntimeConfig}
    (hspawn : spawn lineage (publish version) options config = .ok start) :
    start.Answering debug publish options := by
  unfold spawn LiveRouteActor.spawn at hspawn
  split at hspawn
  · cases hspawn
  rename_i actor hactor
  cases hspawn
  split at hactor
  · cases hactor
  split at hactor
  · cases hactor
  rename_i live hlive
  split at hactor
  · cases hactor
  rename_i view hview
  cases hactor
  obtain ⟨hversion, hoptions, hscope⟩ := LiveAmmGraph.stamped_fromSnapshot hlive
  have hpictures : view.Pictures publish options live := by
    refine ⟨.fromSnapshot hpublished hlive, hoptions, hscope, ?_⟩
    unfold liveSearchView LiveSearchView.new at hview
    cases hmatches : live.matchesSnapshot (publish version) with
    | false => simp [hmatches] at hview
    | true =>
        simp only [hmatches, if_true, Except.ok.injEq] at hview
        rw [← hview, hversion, hpublished.version]
  exact ⟨⟨hpictures, fun _ hjob => absurd hjob List.not_mem_nil,
    fun _ hjob => absurd hjob List.not_mem_nil, fun _ hjob => absurd hjob List.not_mem_nil⟩,
    fun _ hrun => absurd hrun List.not_mem_nil, fun _ _ hmem => absurd hmem List.not_mem_nil⟩

/-- The published end of a search of the runtime: an undisturbed search for the current spec
of the subscription ended so, on a published snapshot, or it panicked. -/
structure Concludes (debug : DebugText) (publish : ℕ → AmmStateSnapshot)
    (options : GraphBuildOptions) (runtime : LiveRouteRuntime G)
    (snapshot : RouteSubscriptionSnapshot G) (spec : RouteSubscriptionSpec)
    (job : RouteWorkerJob G) : Prop where
  subscribed : ∃ entry, runtime.actor.entries.lookup snapshot.id = some entry ∧
    entry.epoch = snapshot.epoch ∧ entry.spec = spec
  published : snapshot.view.snapshot = publish snapshot.view.snapshot.version
  submitted : job ∈ runtime.actor.submitted ∧ job.MadeFor spec ∧ job.view = snapshot.view
  concludes : job.Concludes debug snapshot.state
  answered : spec.request.tokenIn ≠ spec.request.tokenOut →
    ∀ source best report, snapshot.state = .ready source best report →
      best = report.best.map (VersionedRouteQuote.mk (.fromView snapshot.view)) ∧
      ∀ lineage, ∃ rebuilt : LiveAmmGraph G,
        LiveAmmGraph.fromSnapshot lineage snapshot.view.snapshot options = .ok rebuilt ∧
          spec.Answered debug snapshot.view.snapshot rebuilt.graph report

/-- What a conclusion says of a ready route. -/
theorem answered_of_concludes (hpublished : Published publish)
    {snapshot : RouteSubscriptionSnapshot G} {spec : RouteSubscriptionSpec}
    {job : RouteWorkerJob G} {live : LiveAmmGraph G}
    (hpictures : job.view.Pictures publish options live) (hmade : job.MadeFor spec)
    (hview : job.view = snapshot.view) (hsource : job.stamp.source = .fromView snapshot.view)
    (hconcludes : job.Concludes debug snapshot.state)
    (hne : spec.request.tokenIn ≠ spec.request.tokenOut) {source : RouteProvenance}
    {best : Option VersionedRouteQuote} {report : StreamingSearchReport}
    (hready : snapshot.state = .ready source best report) :
    best = report.best.map (VersionedRouteQuote.mk (.fromView snapshot.view)) ∧
      ∀ lineage, ∃ rebuilt : LiveAmmGraph G,
        LiveAmmGraph.fromSnapshot lineage snapshot.view.snapshot options = .ok rebuilt ∧
          spec.Answered debug snapshot.view.snapshot rebuilt.graph report := by
  rw [hready] at hconcludes
  cases hconcludes with
  | ready undisturbed search =>
      refine ⟨by rw [hsource], fun lineage => ?_⟩
      obtain ⟨rebuilt, hbuild, hedges⟩ := hpictures.rebuilt hpublished lineage
      have hanswered := (hmade.answered hpictures hne undisturbed search).congr hedges
      rw [hview] at hbuild hanswered
      exact ⟨rebuilt, hbuild, hanswered⟩

/-- Along a faithful run, each published end of a search concludes a search of its spec. -/
theorem concludes_of_step (hpublished : Published publish) {lineage version : ℕ}
    {config : LiveRouteRuntimeConfig} {earlier : List LiveRouteAction}
    (hspawn : spawn lineage (publish version) options config = .ok start)
    (hearlier : Transitions.Along step (Faithful debug publish) start earlier)
    (hrun : Transitions.run step start earlier = some runtime)
    (hfaithful : runtime.Faithful debug publish action)
    (hstep : runtime.step action = some next) :
    ∃ new, next.actor.published = runtime.actor.published ++ new ∧
      ∀ snapshot ∈ new, snapshot.state.isEnd = true →
        ∃ spec job, runtime.Concludes debug publish options snapshot spec job := by
  have hkeeps : ∀ {state after : LiveRouteRuntime G} {label},
      state.Working ∧ state.Traced ∧ state.Answering debug publish options →
      state.Faithful debug publish label → state.step label = some after →
      after.Working ∧ after.Traced ∧ after.Answering debug publish options := by
    rintro state after label ⟨hworking, htraced, hanswering⟩ hcondition hstepped
    exact ⟨hworking.step hstepped, htraced.step hstepped,
      hanswering.step hpublished hworking.logged.actor htraced hcondition hstepped⟩
  obtain ⟨hworking, htraced, hanswering⟩ := hearlier.preserves hkeeps hrun
    ⟨working_of_reaches hspawn (.refl start), traced_of_reaches hspawn (.refl start),
      answering_of_spawn hpublished hspawn⟩
  obtain ⟨⟨new, hnew, hshown⟩, -⟩ := fence_of_step hworking htraced hstep
  refine ⟨new, hnew, fun snapshot hsnapshot hend => ?_⟩
  obtain ⟨message, ready, answers, moment, job, entry, rfl, hhead, hmoment, -, hfenced⟩ :=
    hshown snapshot hsnapshot (RouteSubscriptionState.concludes_of_isEnd hend)
  obtain ⟨hsubmitted, old, hold, hepoch, hmade⟩ :=
    hanswering.grounded.madeFor hmoment hfenced.runs
  obtain ⟨live, hpictures⟩ := hanswering.grounded.jobs job hsubmitted
  obtain ⟨received, turn, hturns⟩ := turns_of_turn hstep
  have hrunning : ¬ runtime.Stopped job := by
    have hgrows : runtime.actor.Grows moment := by
      rcases hmoment with rfl | ⟨_, _, happly⟩
      · exact .refl _
      · exact LiveRouteActor.kept_by_steps (fun actor => runtime.actor.Grows actor)
          (fun hkept hhandles => hkept.trans hhandles.grows)
          (LiveRouteActor.applyCommit_handles happly) (.refl _)
    rintro (hcancelled | hclosed)
    · rcases isCancelled_iff.mp hcancelled with hflag | hflag
      · exact CancellationTokens.isCancelled_eq_false_iff.mp hfenced.runs.subscribed
          (hgrows.raised hflag)
      · exact CancellationTokens.isCancelled_eq_false_iff.mp hfenced.runs.running
          (hgrows.raised hflag)
    · cases hturns.isOpen.symm.trans hclosed
  have hconcludes : job.Concludes debug snapshot.state := by
    cases message with
    | event stamp event =>
        obtain ⟨previous, hstate⟩ := hfenced.shows
        obtain ⟨quote, -, hquote⟩ := Option.map_eq_some_iff.mp hstate
        rw [← hquote] at hend
        cases hend
    | completed stamp result =>
        obtain ⟨other, hother, hsame, hreturns⟩ :=
          hanswering.results stamp result (List.mem_of_mem_head? hhead)
        have hkey : other.key = job.key := by
          rw [RouteWorkerJob.key, RouteWorkerJob.key, hsame, hfenced.stamp]
          rfl
        obtain rfl : other = job := List.inj_on_of_nodup_map
          hworking.logged.actor.numbered.distinct hother hsubmitted hkey
        have hstate : snapshot.state = LiveRouteActor.installedState stamp result :=
          hfenced.shows
        rw [hstate, ← hsame]
        exact hreturns.concludes hrunning
  have hpicture : snapshot.view.snapshot = publish snapshot.view.snapshot.version := by
    rw [hfenced.view, hpictures.eq, hpublished.version]
  refine ⟨old.spec, job, ⟨old, ?_, ?_, rfl⟩, hpicture, ⟨hsubmitted, hmade, hfenced.view.symm⟩,
    hconcludes, fun hne source best report hready => ?_⟩
  · rw [hfenced.id]
    exact hold
  · rw [hfenced.epoch]
    exact hepoch.symm
  · exact answered_of_concludes hpublished hpictures hmade hfenced.view.symm hfenced.source
      hconcludes hne hready

end LiveRouteRuntime

namespace LiveRouteExample

/-- The published snapshots, with quoters that return their input. -/
def publishQuoted (version : ℕ) : AmmStateSnapshot :=
  let snapshot := TwoPoolGraph.publishTwin version
  { snapshot with
    registry :=
      { snapshot.registry with
        registry := { snapshot.registry.registry with
          adapter := fun _ => some RoundTripExample.adapter } } }

theorem published_quoted : Published publishQuoted :=
  ⟨TwoPoolGraph.published_twin.version, TwoPoolGraph.published_twin.coherent,
    TwoPoolGraph.published_twin.lists, TwoPoolGraph.published_twin.instances⟩

/-- Turns of one worker, which nothing disturbs. -/
def turns : SearchTurns where
  groupOrder := fun _ _ groups => groups
  groupOrder_perm := fun _ _ groups => List.Perm.refl groups
  schedule := []
  cancelled := fun _ => false
  refused := fun _ => false

def spawned : Except LiveRouteRuntimeError (LiveRouteRuntime (SlotGraph Address EdgeData)) :=
  LiveRouteRuntime.spawn 1 (publishQuoted 0) {} { workerThreads := 1 }

/-- A worker has taken the job of the first subscription. -/
def searching : Option (LiveRouteRuntime (SlotGraph Address EdgeData)) :=
  spawned.toOption.bind fun start => Transitions.run LiveRouteRuntime.step start
    [.turn (.command (some (.subscribe spec))) [true], .take]

/-- The report of that job. -/
def reported : Option StreamingSearchReport :=
  searching.bind fun runtime => runtime.runs.head?.bind fun run =>
    (run.job.search RoundTripExample.debug turns).toOption

/-- The end of the search reaches the actor. -/
def reportTurn (report : StreamingSearchReport) : LiveRouteAction :=
  .turn (.worker (some (.completed (stamp 0 0) (.ok report))) none) []

theorem search_of_reported {runtime : LiveRouteRuntime (SlotGraph Address EdgeData)}
    {report : StreamingSearchReport} (hsearching : searching = some runtime)
    (hreported : reported = some report)
    {run : RouteRun (SlotGraph Address EdgeData)} (hrun : runtime.runs[0]? = some run) :
    run.job.search RoundTripExample.debug turns = .ok report := by
  rw [reported, hsearching, Option.bind_some, List.head?_eq_getElem?, hrun, Option.bind_some]
    at hreported
  cases hsearch : run.job.search RoundTripExample.debug turns with
  | error error =>
      rw [hsearch] at hreported
      cases hreported
  | ok found =>
      rw [hsearch] at hreported
      rw [Option.some.inj hreported]

/-- A search finds a route of the two tokens, and its end is published. -/
theorem concludes_quoted :
    ∃ (runtime next : LiveRouteRuntime (SlotGraph Address EdgeData))
      (report : StreamingSearchReport),
      report.best.map RouteQuote.amountOut = some 100 ∧
      runtime.step (reportTurn report) = some next ∧
      next.actor.published.map (fun snapshot => snapshot.state.isEnd) = [false, false, true] ∧
      ∃ new, next.actor.published = runtime.actor.published ++ new ∧
        ∀ snapshot ∈ new, snapshot.state.isEnd = true → ∃ spec job,
          runtime.Concludes RoundTripExample.debug publishQuoted {} snapshot spec job := by
  have hrun : (spawned.toOption.bind fun start => searching.bind fun middle =>
      reported.bind fun report =>
      (Transitions.run LiveRouteRuntime.step middle [.finish 0 (.ok report)]).bind fun runtime =>
      (runtime.step (reportTurn report)).map fun next =>
        (report.best.map RouteQuote.amountOut,
          next.actor.published.map fun snapshot => snapshot.state.isEnd)) =
      some (some 100, [false, false, true]) := by
    decide +kernel
  obtain ⟨start, hstart, hrun⟩ := Option.bind_eq_some_iff.mp hrun
  obtain ⟨middle, hmiddle, hrun⟩ := Option.bind_eq_some_iff.mp hrun
  obtain ⟨report, hreport, hrun⟩ := Option.bind_eq_some_iff.mp hrun
  obtain ⟨runtime, hlater, hrun⟩ := Option.bind_eq_some_iff.mp hrun
  obtain ⟨next, hstep, hshown⟩ := Option.map_eq_some_iff.mp hrun
  obtain ⟨hbest, hends⟩ := Prod.mk.inj hshown
  refine ⟨runtime, next, report, hbest, hstep, hends, ?_⟩
  have hspawn : spawned = .ok start := by
    cases hspawned : spawned with
    | error error =>
        rw [hspawned] at hstart
        cases hstart
    | ok started =>
        rw [hspawned] at hstart
        rw [Option.some.inj hstart]
  have hfirst : Transitions.run LiveRouteRuntime.step start
      [.turn (.command (some (.subscribe spec))) [true], .take] = some middle := by
    rw [searching, hstart, Option.bind_some] at hmiddle
    exact hmiddle
  have hfaithful : Transitions.Along LiveRouteRuntime.step
      (LiveRouteRuntime.Faithful RoundTripExample.debug publishQuoted) start
      [.turn (.command (some (.subscribe spec))) [true], .take, .finish 0 (.ok report)] := by
    refine ⟨trivial, fun first hsubscribed => ⟨trivial, fun second htaken =>
      ⟨fun run hfound _ => ?_, fun _ _ => trivial⟩⟩⟩
    have hsecond : middle = second := by
      rw [Transitions.run_cons, hsubscribed, Option.bind_some, Transitions.run_cons, htaken]
        at hfirst
      exact (Option.some.inj hfirst).symm
    rw [← hsecond] at hfound
    exact .found (fun _ => ⟨fun _ => rfl, fun _ => rfl⟩)
      (search_of_reported hmiddle hreport hfound)
  have hearlier : Transitions.run LiveRouteRuntime.step start
      ([.turn (.command (some (.subscribe spec))) [true], .take] ++
        [.finish 0 (.ok report)]) = some runtime := by
    rw [Transitions.run_append, hfirst, Option.bind_some, hlater]
  have hlast : runtime.Faithful RoundTripExample.debug publishQuoted (reportTurn report) :=
    trivial
  exact LiveRouteRuntime.concludes_of_step published_quoted hspawn hfaithful hearlier hlast hstep

end LiveRouteExample

end AmmSearch
