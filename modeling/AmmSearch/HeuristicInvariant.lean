/-
A rule for invariants of heuristic search: what every update of a run keeps
holds after all passes.  A search without a candidate limit whose observer
never refuses is not stopped, and returns only paths that it has reported.
-/
import AmmSearch.HeuristicSoundness

open FiniteMap StableGraph

namespace AmmSearch

namespace AmmSearcher

variable {G : Type} (searcher : AmmSearcher G)
  (context : HeuristicContext) {σ : Type} (onQuote : σ → RouteQuote → σ × Bool)

/-- A quote that carries the trace of its path. -/
structure Traced (quote : RouteQuote) : Prop where
  nonempty : quote.path ≠ []
  amountIn : quote.amountIn = context.amountIn
  trace : searcher.trace context quote.path = .ok (quote.hops, quote.amountOut)

/-- Quotes of different paths, each with the trace of its path. -/
structure TracedQuotes (quotes : List RouteQuote) : Prop where
  nodup : (quotes.map RouteQuote.path).Nodup
  traced : ∀ quote ∈ quotes, searcher.Traced context quote

/-- Every update of a pass keeps `holds`.  A path is completed only while the
pass goes on, with the trace of its hops. -/
structure PassInvariant (holds : HeuristicRun σ → Prop) : Prop where
  complete : ∀ run quote, searcher.Traced context quote → run.halted = false →
    run.stopped = false → holds run → holds (completePath context onQuote run quote)
  push : ∀ run token state, holds run →
    holds (searcher.pushPrefix context run token state)
  record : ∀ run failures deferred, holds run →
    holds { run with failures := failures, deferredEdgesSeen := deferred }
  restart : ∀ run halted deferred, holds run →
    holds { run with nextFrontier := [], halted := halted, deferredEdgesSeen := deferred }

/-- Every update between two levels of one pass keeps `holds`. -/
structure LoopInvariant (holds : HeuristicRun σ → Prop) : Prop where
  complete : ∀ run quote, searcher.Traced context quote → run.halted = false →
    run.stopped = false → holds run → holds (completePath context onQuote run quote)
  push : ∀ run token state, holds run →
    holds (searcher.pushPrefix context run token state)
  record : ∀ run failures deferred, holds run →
    holds { run with failures := failures, deferredEdgesSeen := deferred }
  clear : ∀ run, holds run → holds { run with nextFrontier := [] }

/-- A frontier state carries the trace of its path. -/
def TracedState (state : HeuristicState) : Prop :=
  searcher.trace context state.path = .ok (state.hopQuotes, state.amount)

/-- Where a pass stands between two updates: a stopped pass has halted, and the
next frontier is traced. -/
structure MidPass (holds : HeuristicRun σ → Prop) (run : HeuristicRun σ) : Prop where
  holds : holds run
  halts : run.stopped = true → run.halted = true
  frontier : ∀ state ∈ run.nextFrontier, searcher.TracedState context state

variable {searcher context onQuote} {holds : HeuristicRun σ → Prop}

theorem completePath_halts {run : HeuristicRun σ}
    (hrun : run.stopped = true → run.halted = true) (quote : RouteQuote)
    (hstopped : (completePath context onQuote run quote).stopped = true) :
    (completePath context onQuote run quote).halted = true := by
  unfold completePath at hstopped ⊢
  split at hstopped
  · rename_i hknown
    rw [if_pos hknown]
    exact hrun hstopped
  · rename_i hnew
    rw [if_neg hnew]
    simp only [Bool.or_eq_true]
    exact Or.inl hstopped

theorem nextFrontier_completePath (run : HeuristicRun σ) (quote : RouteQuote) :
    (completePath context onQuote run quote).nextFrontier = run.nextFrontier := by
  unfold completePath
  split <;> rfl

theorem pushPrefix_flags (run : HeuristicRun σ) (token : Address)
    (state : HeuristicState) :
    (searcher.pushPrefix context run token state).stopped = run.stopped ∧
      (searcher.pushPrefix context run token state).halted = run.halted := by
  unfold pushPrefix
  split
  · simp only
    split <;> exact ⟨rfl, rfl⟩
  · exact ⟨rfl, rfl⟩

theorem mem_nextFrontier_pushPrefix {run : HeuristicRun σ} {token : Address}
    {state other : HeuristicState}
    (hother : other ∈ (searcher.pushPrefix context run token state).nextFrontier) :
    other ∈ run.nextFrontier ∨ other = state := by
  have hpushed : other ∈ run.nextFrontier ++ [state] →
      other ∈ run.nextFrontier ∨ other = state := by simp
  unfold pushPrefix at hother
  split at hother
  · simp only at hother
    split at hother
    · exact Or.inl hother
    · exact hpushed hother
  · exact hpushed hother

theorem TracedState.nextState {state : HeuristicState}
    (hstate : searcher.TracedState context state) {quoted : QuotedHeuristicHop}
    (hquote : searcher.quoteHop context quoted.hop state.amount = .ok quoted.amountOut)
    (node : NodeIndex) :
    searcher.TracedState context (AmmSearcher.nextState state node quoted) := by
  simp only [TracedState, AmmSearcher.nextState]
  rw [trace_append_singleton hstate, hquote]

namespace LoopInvariant

theorem expandQuoted (hinvariant : searcher.LoopInvariant context onQuote holds)
    {run : HeuristicRun σ} (hrun : searcher.MidPass context holds run)
    {state : HeuristicState} (hstate : searcher.TracedState context state)
    {quoted : QuotedHeuristicHop}
    (hquote : searcher.quoteHop context quoted.hop state.amount = .ok quoted.amountOut) :
    searcher.MidPass context holds
      (searcher.expandQuoted context onQuote state run quoted) := by
  unfold AmmSearcher.expandQuoted
  split
  · exact hrun
  · rename_i hhalted
    have hhalted : run.halted = false := by simpa using hhalted
    have hstopped : run.stopped = false := by
      by_contra hstopped
      have hhalts := hrun.halts (by simpa using hstopped)
      rw [hhalted] at hhalts
      cases hhalts
    split
    · exact hrun
    · rename_i node _
      have hnext := hstate.nextState hquote node
      simp only
      split
      · split
        · refine ⟨hinvariant.complete _ _ ⟨?_, rfl, hnext⟩ hhalted hstopped hrun.holds,
            completePath_halts hrun.halts _, ?_⟩
          · simp [AmmSearcher.nextState]
          · rw [nextFrontier_completePath]
            exact hrun.frontier
        · exact hrun
      · split
        · refine ⟨hinvariant.push _ _ _ hrun.holds, ?_, ?_⟩
          · intro hpushed
            rw [(pushPrefix_flags _ _ _).1] at hpushed
            rw [(pushPrefix_flags _ _ _).2]
            exact hrun.halts hpushed
          · intro other hother
            rcases mem_nextFrontier_pushPrefix hother with hold | rfl
            · exact hrun.frontier other hold
            · exact hnext
        · exact hrun

variable [StableDiGraph G Address EdgeData]

theorem expandGroup (hinvariant : searcher.LoopInvariant context onQuote holds)
    {run : HeuristicRun σ} (hrun : searcher.MidPass context holds run)
    {mode : HeuristicPassMode} {state : HeuristicState}
    (hstate : searcher.TracedState context state) {group : HeuristicHopGroup}
    (hgroup : group ∈ searcher.groupHeuristicHops context mode state) :
    searcher.MidPass context holds
      (searcher.expandGroup context onQuote mode state run group) := by
  unfold AmmSearcher.expandGroup
  split
  · exact hrun
  · refine List.foldlRecOn (searcher.keptQuotes context mode state group) _
      ⟨hinvariant.record _ _ _ hrun.holds, hrun.halts, hrun.frontier⟩ ?_
    intro run hrun quoted hquoted
    exact hinvariant.expandQuoted hrun hstate (offered_of_mem_keptQuotes hgroup hquoted).2.2

theorem expandState (hinvariant : searcher.LoopInvariant context onQuote holds)
    {run : HeuristicRun σ} (hrun : searcher.MidPass context holds run)
    (mode : HeuristicPassMode) {state : HeuristicState}
    (hstate : searcher.TracedState context state) :
    searcher.MidPass context holds
      (searcher.expandState context onQuote mode run state) := by
  unfold AmmSearcher.expandState
  split
  · exact hrun
  · split
    · exact hrun
    · refine List.foldlRecOn _ _ hrun ?_
      intro run hrun group hgroup
      exact hinvariant.expandGroup hrun hstate hgroup

theorem searchLoop (hinvariant : searcher.LoopInvariant context onQuote holds)
    (mode : HeuristicPassMode) (fuel : ℕ) {frontier : List HeuristicState}
    (hfrontier : ∀ state ∈ frontier, searcher.TracedState context state)
    {run : HeuristicRun σ} (hrun : searcher.MidPass context holds run) :
    holds (searcher.searchLoop context onQuote mode fuel frontier run) := by
  induction fuel generalizing frontier run with
  | zero => exact hrun.holds
  | succ fuel ih =>
      have hlevel : searcher.MidPass context holds (frontier.foldl
          (searcher.expandState context onQuote mode) { run with nextFrontier := [] }) := by
        refine List.foldlRecOn _ _ ⟨hinvariant.clear run hrun.holds, hrun.halts, by simp⟩ ?_
        intro run hrun state hstate
        exact hinvariant.expandState hrun mode (hfrontier state hstate)
      rw [AmmSearcher.searchLoop]
      split
      · exact hrun.holds
      · simp only
        split
        · exact hlevel.holds
        · refine ih ?_ hlevel
          intro state hstate
          exact hlevel.frontier state (nextLevel_subset _ state hstate)

/-- What every update of one pass keeps holds after it, whatever the passes before. -/
theorem runPass (hinvariant : searcher.LoopInvariant context onQuote holds)
    (mode : HeuristicPassMode) {run : HeuristicRun σ}
    (hrun : holds
      { run with nextFrontier := [], halted := false, deferredEdgesSeen := false })
    (hstopped : run.stopped = false) :
    holds (searcher.runPass context onQuote run mode) := by
  refine hinvariant.searchLoop mode _ ?_ ⟨hrun, ?_, by simp⟩
  · intro state hstate
    rw [List.mem_singleton.mp hstate]
    rfl
  · intro hrestarted
    rw [show run.stopped = true from hrestarted] at hstopped
    cases hstopped

end LoopInvariant

namespace PassInvariant

theorem loop (hinvariant : searcher.PassInvariant context onQuote holds) :
    searcher.LoopInvariant context onQuote holds where
  complete := hinvariant.complete
  push := hinvariant.push
  record := hinvariant.record
  clear := fun run hrun => hinvariant.restart run run.halted run.deferredEdgesSeen hrun

variable [StableDiGraph G Address EdgeData]

/-- The rule: what every update keeps holds after the passes. -/
theorem runPasses (hinvariant : searcher.PassInvariant context onQuote holds)
    (modes : List HeuristicPassMode) {run : HeuristicRun σ} (hrun : holds run)
    (hstopped : run.stopped = false) :
    holds (searcher.runPasses context onQuote modes run) := by
  induction modes generalizing run with
  | nil => exact hrun
  | cons mode rest ih =>
      have hpass : holds (searcher.runPass context onQuote run mode) :=
        hinvariant.loop.runPass mode (hinvariant.restart run false false hrun) hstopped
      rw [AmmSearcher.runPasses]
      split
      · exact hpass
      · rename_i hrunning
        split
        · exact hpass
        · exact ih hpass (by simpa using hrunning)

end PassInvariant

section Running

/-- A pass under an observer that never refuses is not stopped. -/
theorem passInvariant_running
    (hcontinue : ∀ observed quote, (onQuote observed quote).2 = true) :
    searcher.PassInvariant context onQuote fun run => run.stopped = false where
  complete := by
    intro run quote _ _ _ hrun
    unfold completePath
    split
    · exact hrun
    · simp [hcontinue]
  push := fun run token state hrun => (pushPrefix_flags run token state).1.trans hrun
  record := fun _ _ _ hrun => hrun
  restart := fun _ _ _ hrun => hrun

theorem stopped_acceptFastLane {config : SearchConfig}
    (hlimit : config.maxCandidates = none) (quotes : List RouteQuote)
    (run : HeuristicRun σ) :
    (acceptFastLane config quotes run).stopped = run.stopped := by
  induction quotes generalizing run with
  | nil => rfl
  | cons quote rest ih =>
      have hreached : ∀ count, maxCandidatesReached count config = false := by
        simp [maxCandidatesReached, hlimit]
      rw [acceptFastLane]
      simp only [hreached, Bool.false_eq_true, if_false]
      exact ih _

theorem running_runFastLane [StableDiGraph G Address EdgeData]
    (hcontinue : ∀ observed quote, (onQuote observed quote).2 = true)
    (hlimit : context.config.maxCandidates = none) (start : σ) :
    (searcher.runFastLane context onQuote { observed := start }).stopped = false := by
  unfold runFastLane
  split
  · simp only
    split
    · rfl
    · rw [stopped_acceptFastLane hlimit]
      obtain ⟨_, _, _, _, hrunning⟩ := quotePathsWithRegistryObserved_spec
        (searcher.quoteEnv context.simConfig) searcher.quoteContext context.amountIn
        onQuote (@nodup_fastLanePaths G _ searcher context.tokenIn context.tokenOut
          context.config context.heuristic context.connectorTokens) start
      exact hrunning hcontinue
  · rfl

end Running

section Quotes

theorem TracedQuotes.finalists {quotes : List RouteQuote}
    (hquotes : searcher.TracedQuotes context quotes) :
    searcher.TracedQuotes context (finalists context quotes) where
  nodup := by
    refine List.Nodup.sublist ((List.take_sublist _ _).map _) ?_
    exact ((List.perm_insertionSort _ _).map _).nodup_iff.mpr hquotes.nodup
  traced := fun quote hquote => hquotes.traced quote
    ((List.perm_insertionSort _ _).mem_iff.mp (List.mem_of_mem_take hquote))

/-- The passes add quotes of new paths with their traces. -/
theorem passInvariant_tracedQuotes :
    searcher.PassInvariant context onQuote fun run =>
      searcher.TracedQuotes context run.quotes ∧
        ∀ quote ∈ run.quotes, quote.path ∈ run.evaluatedPaths where
  complete := by
    rintro run quote htraced _ _ ⟨hquotes, hevaluated⟩
    unfold completePath
    split
    · exact ⟨hquotes, hevaluated⟩
    · rename_i hnew
      refine ⟨⟨?_, ?_⟩, ?_⟩
      · rw [List.map_append, List.map_singleton, List.nodup_append]
        refine ⟨hquotes.nodup, List.nodup_singleton _, ?_⟩
        intro path hpath other hother hsame
        obtain ⟨earlier, hearlier, rfl⟩ := List.mem_map.mp hpath
        obtain rfl := List.mem_singleton.mp hother
        exact hnew (hsame ▸ hevaluated earlier hearlier)
      · intro other hother
        rcases List.mem_append.mp hother with hold | hlast
        · exact hquotes.traced other hold
        · obtain rfl := List.mem_singleton.mp hlast
          exact htraced
      · intro other hother
        rcases List.mem_append.mp hother with hold | hlast
        · exact Finset.mem_insert_of_mem (hevaluated other hold)
        · obtain rfl := List.mem_singleton.mp hlast
          exact Finset.mem_insert_self _ _
  push := by
    intro run token state hrun
    unfold pushPrefix
    split
    · simp only
      split
      · exact hrun
      · exact hrun
    · exact hrun
  record := fun _ _ _ hrun => hrun
  restart := fun _ _ _ hrun => hrun

end Quotes

section Reported

/-- A report names only paths that the run has found. -/
def Reports (run : HeuristicRun σ) (report : HeuristicRoutesReport) : Prop :=
  ∀ quote ∈ report.quotes, quote.path ∈ run.quotes.map RouteQuote.path

theorem mem_of_mem_finalists {quotes : List RouteQuote} {quote : RouteQuote}
    (hquote : quote ∈ finalists context quotes) : quote ∈ quotes :=
  (List.perm_insertionSort _ _).mem_iff.mp (List.mem_of_mem_take hquote)

theorem reports_finishFastLane {run : HeuristicRun σ} {report : HeuristicRoutesReport}
    (hreport : finishFastLane context run = .ok report) :
    Reports run report ∧ report.stopped = run.stopped := by
  simp only [finishFastLane] at hreport
  split at hreport
  · cases hreport
  · obtain rfl := Except.ok.inj hreport
    exact ⟨fun quote hquote => List.mem_map_of_mem (mem_of_mem_finalists hquote), rfl⟩

theorem reports_finishSearch {run : HeuristicRun σ} {report : HeuristicRoutesReport}
    (hquotes : (run.quotes.map RouteQuote.path).Nodup)
    (hreport : searcher.finishSearch context run = .ok report) :
    Reports run report ∧ report.stopped = run.stopped := by
  have hfinalists : ∀ quote ∈ finalists context run.quotes,
      quote.path ∈ run.quotes.map RouteQuote.path := fun quote hquote =>
    List.mem_map_of_mem (mem_of_mem_finalists hquote)
  simp only [finishSearch] at hreport
  split at hreport
  · obtain rfl := Except.ok.inj hreport
    exact ⟨hfinalists, rfl⟩
  · rename_i hrunning
    have hrunning : run.stopped = false := by simpa using hrunning
    split at hreport
    · split at hreport <;> cases hreport
    · split at hreport
      · obtain rfl := Except.ok.inj hreport
        exact ⟨hfinalists, hrunning.symm⟩
      · split at hreport
        · cases hreport
        · rename_i ranked hranked
          obtain rfl := Except.ok.inj hreport
          unfold rankOrNoViable at hranked
          split at hranked
          · cases hranked
          · obtain rfl := Except.ok.inj hranked
            refine ⟨?_, hrunning.symm⟩
            intro quote hquote
            have hnodup : ((finalists context run.quotes).map RouteQuote.path).Nodup := by
              refine List.Nodup.sublist ((List.take_sublist _ _).map _) ?_
              exact ((List.perm_insertionSort _ _).map _).nodup_iff.mpr hquotes
            obtain ⟨_, _, hquoted, _⟩ := quotePathsWithRegistryObserved_spec
              (searcher.quoteEnv context.simConfig) searcher.quoteContext
              context.amountIn (fun _ _ => ((), true)) hnodup ()
            obtain ⟨hpath, _⟩ := hquoted quote
              ((List.perm_insertionSort _ _).mem_iff.mp hquote)
            obtain ⟨finalist, hfinalist, heq⟩ := List.mem_map.mp hpath
            exact heq ▸ hfinalists finalist hfinalist

/-- A search under an observer that never refuses, without a candidate limit,
reports sound quotes and is not stopped, and it has reported the paths that it
returns. -/
theorem searchRoutes_running [StableDiGraph G Address EdgeData]
    (hresolved : context.Resolved searcher.graph) {start : σ}
    (hfast : searcher.SoundRun context onQuote start
      (searcher.runFastLane context onQuote { observed := start }))
    (hcontinue : ∀ observed quote, (onQuote observed quote).2 = true)
    (hlimit : context.config.maxCandidates = none) (runLimit : HeuristicRunLimit) :
    ∃ log, (searcher.searchRoutes context onQuote runLimit start).1 =
        reportAll onQuote start log ∧ searcher.SoundQuotes context log ∧
      ∀ report, (searcher.searchRoutes context onQuote runLimit start).2 = .ok report →
        report.stopped = false ∧
          ∀ quote ∈ report.quotes, quote.path ∈ log.map RouteQuote.path := by
  have hlane : (searcher.runFastLane context onQuote { observed := start }).stopped =
      false := running_runFastLane hcontinue hlimit start
  have hreported : ∀ {log : List RouteQuote} {run : HeuristicRun σ}
      {report : HeuristicRoutesReport}, searcher.RunSound context onQuote start log run →
      run.stopped = false → (Reports run report ∧ report.stopped = run.stopped) →
      report.stopped = false ∧
        ∀ quote ∈ report.quotes, quote.path ∈ log.map RouteQuote.path := by
    intro log run report hsound hrunning hreport
    refine ⟨hreport.2.trans hrunning, fun quote hquote => ?_⟩
    exact (hsound.quotes.map RouteQuote.path).mem (hreport.1 quote hquote)
  unfold searchRoutes
  simp only
  split
  · obtain ⟨log, hlog⟩ := hfast
    refine ⟨log, hlog.observed, ⟨hlog.nodup, hlog.reportable⟩, fun report hreport => ?_⟩
    exact hreported hlog hlane (reports_finishFastLane hreport)
  · obtain ⟨log, hlog⟩ := hfast.runPasses hresolved
      (heuristicPassModes context.heuristic)
    refine ⟨log, hlog.observed, ⟨hlog.nodup, hlog.reportable⟩, fun report hreport => ?_⟩
    exact hreported hlog ((passInvariant_running hcontinue).runPasses _ hlane hlane)
      (reports_finishSearch hlog.soundQuotes.1 hreport)

end Reported

end AmmSearcher

end AmmSearch
