/-
What a heuristic search tries to quote.  The candidates of a search that nobody stops are
listed loop by loop; the search fails on those of them that cannot be quoted, and it finds
a route exactly when one of them is a route that can be quoted.
-/
import AmmSearch.HeuristicOutcome
import AmmSearch.SearchBudget

open FiniteMap StableGraph

namespace AmmSearch

/-- What the steps of a loop try, each in the state that it finds. -/
def triesOf {ρ α β : Type} (step : ρ → α → ρ) (tries : ρ → α → List β) :
    ρ → List α → List β
  | _, [] => []
  | run, item :: rest => tries run item ++ triesOf step tries (step run item) rest

/-- What a step preserves of its tries, the loop preserves of all of them. -/
theorem foldl_triesOf {ρ α β : Type} {step : ρ → α → ρ} {tries : ρ → α → List β}
    {Inv : List β → ρ → Prop} {items : List α}
    (hstep : ∀ tried run, ∀ item ∈ items, Inv tried run →
      Inv (tried ++ tries run item) (step run item))
    {tried : List β} {run : ρ} (hrun : Inv tried run) :
    Inv (tried ++ triesOf step tries run items) (items.foldl step run) := by
  induction items generalizing tried run with
  | nil =>
      rw [triesOf, List.append_nil]
      exact hrun
  | cons item rest ih =>
      rw [triesOf, ← List.append_assoc, List.foldl_cons]
      exact ih (fun tried run item hitem => hstep tried run item (List.mem_cons_of_mem _ hitem))
        (hstep tried run item List.mem_cons_self hrun)

theorem exists_of_mem_triesOf {ρ α β : Type} {step : ρ → α → ρ} {tries : ρ → α → List β}
    {items : List α} {run : ρ} {candidate : β}
    (hcandidate : candidate ∈ triesOf step tries run items) :
    ∃ item ∈ items, ∃ found, candidate ∈ tries found item := by
  induction items generalizing run with
  | nil => cases hcandidate
  | cons item rest ih =>
      rcases List.mem_append.mp hcandidate with hhead | hrest
      · exact ⟨item, List.mem_cons_self, run, hhead⟩
      · obtain ⟨other, hother, hfound⟩ := ih hrest
        exact ⟨other, List.mem_cons_of_mem _ hother, hfound⟩

namespace AmmSearcher

variable {G : Type} [StableDiGraph G Address EdgeData] (searcher : AmmSearcher G)
  (context : HeuristicContext)

section Tries

/-- The ranked hop is tried unless its liquidity prunes it. -/
def hopTries (state : HeuristicState) (closesTarget : Bool) (quotes : GroupQuotes)
    (ranked : LiquidityRankedHop) : List RoutePath :=
  if searcher.shouldPruneLiquidityHop context ranked quotes.bestQuotedOutput closesTarget then
    []
  else [state.path ++ [ranked.hop]]

/-- The candidates that the quoting loop of a group tries. -/
def groupTries (mode : HeuristicPassMode) (state : HeuristicState) (run : HeuristicRun Unit)
    (group : HeuristicHopGroup) : List RoutePath :=
  if run.halted then []
  else
    triesOf (searcher.quoteRankedHop context state group.closesTarget)
      (searcher.hopTries context state group.closesTarget) {}
      (shortlistedRankedHops context mode (searcher.liquidityRankedHops group.hops
        context.heuristic.edgeShortlist context.config.liquidityPruning))

/-- The candidates that the expansion of a popped state tries. -/
def stateTries (mode : HeuristicPassMode) (run : HeuristicRun Unit)
    (state : HeuristicState) : List RoutePath :=
  if run.halted then []
  else if searcher.skipsState context run state then []
  else
    triesOf (searcher.expandGroup context silent mode state)
      (searcher.groupTries context mode state) run
      (searcher.groupHeuristicHops context mode state)

/-- The candidates of the level loop. -/
def loopTries (mode : HeuristicPassMode) :
    ℕ → List HeuristicState → HeuristicRun Unit → List RoutePath
  | 0, _, _ => []
  | fuel + 1, frontier, run =>
      if frontier = [] then []
      else
        let level := frontier.foldl (searcher.expandState context silent mode)
          { run with nextFrontier := [] }
        triesOf (searcher.expandState context silent mode) (searcher.stateTries context mode)
            { run with nextFrontier := [] } frontier ++
          if level.halted then []
          else loopTries mode fuel (searcher.nextLevel context level) level

/-- The candidates of one pass. -/
def passTries (run : HeuristicRun Unit) (mode : HeuristicPassMode) : List RoutePath :=
  searcher.loopTries context mode (context.config.maxHops + 1) [context.rootState]
    { run with halted := false, deferredEdgesSeen := false, nextFrontier := [] }

/-- The candidates of the pass loop with its two early exits. -/
def passesTries : List HeuristicPassMode → HeuristicRun Unit → List RoutePath
  | [], _ => []
  | mode :: rest, run =>
      let after := searcher.runPass context silent run mode
      searcher.passTries context run mode ++
        if after.stopped then []
        else if mode = .initial ∧
            .refinement ∈ heuristicPassModes context.heuristic ∧
            after.deferredEdgesSeen = false then []
        else passesTries rest after

/-- The candidates of the fast lane. -/
def laneTries : List RoutePath :=
  if context.allowFinalSourceRevisit = false ∧
      context.heuristic.fastLane.enabled = true then
    searcher.fastLanePaths context.tokenIn context.tokenOut context.config
      context.heuristic context.connectorTokens
  else []

/-- The candidates of a search that nobody stops. -/
def searchTries : List RoutePath :=
  let lane := searcher.runFastLane context silent { observed := () }
  searcher.laneTries context ++
    if lane.stopped then []
    else searcher.passesTries context (heuristicPassModes context.heuristic) lane

/-- The path can be quoted. -/
def canQuote (path : RoutePath) : Bool :=
  (searcher.trace context path).isOk

end Tries

section Hops

/-- The quoting loop of a group has recorded what became of the candidates `tried`. -/
structure QuotesTried (state : HeuristicState) (tried : List RoutePath)
    (quotes : GroupQuotes) : Prop where
  failed : ∀ path, path ∈ quotes.failures.map PathFailure.path ↔
    path ∈ tried ∧ searcher.canQuote context path = false
  quoted : ∀ path ∈ tried, searcher.canQuote context path = true → quotes.quoted ≠ []
  tried : ∀ quoted ∈ quotes.quoted, state.path ++ [quoted.hop] ∈ tried

variable {searcher context} {state : HeuristicState}

omit [StableDiGraph G Address EdgeData] in
/-- A prefix with one more hop can be quoted when the hop can. -/
theorem canQuote_append_singleton (hstate : searcher.TracedState context state) (hop : Hop) :
    searcher.canQuote context (state.path ++ [hop]) =
      (searcher.quoteHop context hop state.amount).isOk := by
  unfold canQuote
  rw [trace_append_singleton hstate]
  cases searcher.quoteHop context hop state.amount with
  | ok amountOut => rfl
  | error reason => rfl

omit [StableDiGraph G Address EdgeData] in
/-- Quoting a ranked hop records what became of it. -/
theorem QuotesTried.quoteRankedHop (hstate : searcher.TracedState context state)
    {tried : List RoutePath} {quotes : GroupQuotes}
    (hquotes : searcher.QuotesTried context state tried quotes) (closesTarget : Bool)
    (ranked : LiquidityRankedHop) :
    searcher.QuotesTried context state
      (tried ++ searcher.hopTries context state closesTarget quotes ranked)
      (searcher.quoteRankedHop context state closesTarget quotes ranked) := by
  have htry := canQuote_append_singleton hstate ranked.hop
  unfold hopTries AmmSearcher.quoteRankedHop
  split
  · rw [List.append_nil]
    exact hquotes
  · cases hquote : searcher.quoteHop context ranked.hop state.amount with
    | ok amountOut =>
        rw [hquote] at htry
        refine ⟨?_, ?_, ?_⟩
        · intro path
          rw [hquotes.failed, List.mem_append, List.mem_singleton]
          constructor
          · rintro ⟨hpath, hfails⟩
            exact ⟨Or.inl hpath, hfails⟩
          · rintro ⟨hpath | rfl, hfails⟩
            · exact ⟨hpath, hfails⟩
            · rw [htry] at hfails
              cases hfails
        · intro path _ _
          simp
        · intro quoted hquoted
          rcases List.mem_append.mp hquoted with hold | hnew
          · exact List.mem_append_left _ (hquotes.tried quoted hold)
          · obtain rfl := List.mem_singleton.mp hnew
            exact List.mem_append_right _ (List.mem_singleton_self _)
    | error reason =>
        rw [hquote] at htry
        refine ⟨?_, ?_, ?_⟩
        · intro path
          simp only [List.map_append, List.map_singleton, List.mem_append, List.mem_singleton]
          rw [hquotes.failed]
          constructor
          · rintro (⟨hpath, hfails⟩ | rfl)
            · exact ⟨Or.inl hpath, hfails⟩
            · exact ⟨Or.inr rfl, htry⟩
          · rintro ⟨hpath | rfl, hfails⟩
            · exact Or.inl ⟨hpath, hfails⟩
            · exact Or.inr rfl
        · intro path hpath hquotable
          rcases List.mem_append.mp hpath with hold | hnew
          · exact hquotes.quoted path hold hquotable
          · rw [List.mem_singleton.mp hnew, htry] at hquotable
            cases hquotable
        · intro quoted hquoted
          exact List.mem_append_left _ (hquotes.tried quoted hquoted)

end Hops

section Runs

/-- The path has the hops of a candidate that ends at the target. -/
def Finishes (context : HeuristicContext) (path : RoutePath) : Prop :=
  context.config.minHops ≤ path.length ∧ endToken context.tokenIn path = context.tokenOut

/-- The run has recorded what became of the candidates `tried`. -/
structure Recorded (tried : List RoutePath) (run : HeuristicRun Unit) : Prop where
  nonempty : ∀ path ∈ tried, path ≠ []
  failed : ∀ path, path ∈ run.failures.map PathFailure.path ↔
    path ∈ tried ∧ searcher.canQuote context path = false
  found : ∀ quote ∈ run.quotes, quote.path ∈ tried
  evaluated : ∀ path ∈ run.evaluatedPaths, searcher.canQuote context path = true →
    run.quotes ≠ []
  halted : run.halted = false

/-- Moreover it has quoted a path if one of them finishes and can be quoted. -/
structure Answered (tried : List RoutePath) (run : HeuristicRun Unit) : Prop
    extends searcher.Recorded context tried run where
  finished : ∀ path ∈ tried, Finishes context path → searcher.canQuote context path = true →
    run.quotes ≠ []

variable {searcher context} {state : HeuristicState} {tried : List RoutePath}
  {run : HeuristicRun Unit}

omit [StableDiGraph G Address EdgeData] in
theorem quotes_ne_nil_of_le {before after : HeuristicRun Unit}
    (hgrows : before.quotes.length ≤ after.quotes.length) (hbefore : before.quotes ≠ []) :
    after.quotes ≠ [] := by
  intro hempty
  rw [hempty, List.length_nil, Nat.le_zero] at hgrows
  exact hbefore (List.length_eq_zero_iff.mp hgrows)

omit [StableDiGraph G Address EdgeData] in
theorem Recorded.completePath (hlimit : context.config.maxCandidates = none)
    (hrun : searcher.Recorded context tried run) {quote : RouteQuote}
    (hquote : quote.path ∈ tried) :
    searcher.Recorded context tried (completePath context silent run quote) := by
  unfold AmmSearcher.completePath
  split
  · exact hrun
  · refine ⟨hrun.nonempty, hrun.failed, ?_, ?_, ?_⟩
    · intro other hother
      rcases List.mem_append.mp hother with hold | hnew
      · exact hrun.found other hold
      · exact List.mem_singleton.mp hnew ▸ hquote
    · intro path _ _
      simp
    · simp [silent, maxCandidatesReached, hlimit]

omit [StableDiGraph G Address EdgeData] in
theorem Recorded.pushPrefix (hrun : searcher.Recorded context tried run) (token : Address)
    (next : HeuristicState) :
    searcher.Recorded context tried (searcher.pushPrefix context run token next) := by
  unfold AmmSearcher.pushPrefix
  split
  · simp only
    split
    · exact ⟨hrun.nonempty, hrun.failed, hrun.found, hrun.evaluated, hrun.halted⟩
    · exact ⟨hrun.nonempty, hrun.failed, hrun.found, hrun.evaluated, hrun.halted⟩
  · exact ⟨hrun.nonempty, hrun.failed, hrun.found, hrun.evaluated, hrun.halted⟩

omit [StableDiGraph G Address EdgeData] in
/-- Expanding a quoted hop whose path was tried. -/
theorem Recorded.expandQuoted (hlimit : context.config.maxCandidates = none)
    (hrun : searcher.Recorded context tried run) {quoted : QuotedHeuristicHop}
    (htried : state.path ++ [quoted.hop] ∈ tried) :
    searcher.Recorded context tried
      (searcher.expandQuoted context silent state run quoted) := by
  unfold AmmSearcher.expandQuoted
  split
  · exact hrun
  · split
    · exact hrun
    · simp only
      split
      · split
        · exact hrun.completePath hlimit htried
        · exact hrun
      · split
        · exact hrun.pushPrefix _ _
        · exact hrun

/-- Expanding a quoted hop that finishes leaves a quote. -/
theorem Recorded.expandQuoted_finishes (hresolved : context.Resolved searcher.graph)
    (hrun : searcher.Recorded context tried run) {quoted : QuotedHeuristicHop}
    (hfinishes : Finishes context (state.path ++ [quoted.hop]))
    (hquotable : searcher.canQuote context (state.path ++ [quoted.hop]) = true) :
    (searcher.expandQuoted context silent state run quoted).quotes ≠ [] := by
  obtain ⟨hmin, hout⟩ := hfinishes
  rw [endToken_append_singleton] at hout
  have hnode : searcher.graph.nodeIndex quoted.hop.tokenOut = some context.target := by
    rw [hout]
    exact hresolved.target
  unfold AmmSearcher.expandQuoted
  rw [if_neg (by simp [hrun.halted]), hnode]
  simp only [if_true]
  rw [if_pos (by simpa [nextState] using hmin)]
  unfold AmmSearcher.completePath
  split
  · rename_i hknown
    exact hrun.evaluated _ hknown hquotable
  · simp

/-- Expanding the kept hops of a group. -/
theorem Recorded.expandKept (hlimit : context.config.maxCandidates = none)
    (hresolved : context.Resolved searcher.graph) (kept : List QuotedHeuristicHop)
    (htried : ∀ quoted ∈ kept, state.path ++ [quoted.hop] ∈ tried)
    (hrun : searcher.Recorded context tried run) :
    let after := kept.foldl (searcher.expandQuoted context silent state) run
    searcher.Recorded context tried after ∧
      (run.quotes ≠ [] → after.quotes ≠ []) ∧
      ∀ quoted ∈ kept, Finishes context (state.path ++ [quoted.hop]) →
        searcher.canQuote context (state.path ++ [quoted.hop]) = true →
        after.quotes ≠ [] := by
  induction kept generalizing run with
  | nil => exact ⟨hrun, fun hquotes => hquotes, by simp⟩
  | cons head rest ih =>
      have hhead := hrun.expandQuoted hlimit (htried head List.mem_cons_self)
      obtain ⟨hafter, hkeeps, hfinished⟩ := ih
        (fun quoted hquoted => htried quoted (List.mem_cons_of_mem _ hquoted)) hhead
      refine ⟨hafter, ?_, ?_⟩
      · intro hquotes
        exact hkeeps (quotes_ne_nil_of_le (length_quotes_expandQuoted state run head) hquotes)
      · intro quoted hquoted hfinishes hquotable
        rcases List.mem_cons.mp hquoted with rfl | hrest
        · exact hkeeps (hrun.expandQuoted_finishes hresolved hfinishes hquotable)
        · exact hfinished quoted hrest hfinishes hquotable

/-- A group in which some hop was quoted keeps one. -/
theorem retainQuoted_ne_nil {mode : HeuristicPassMode}
    (hretains : 1 ≤ retainLimit context mode) {quotes : List QuotedHeuristicHop}
    (hquotes : quotes ≠ []) : retainQuoted context mode quotes ≠ [] := by
  unfold retainQuoted
  intro hempty
  have hlength := congrArg List.length hempty
  rw [List.length_take, (List.perm_insertionSort _ _).length_eq, List.length_nil] at hlength
  have hpositive := List.length_pos_iff.mpr hquotes
  omega

/-- The candidates of a group lead the prefix to the token of the group. -/
theorem mem_groupTries {mode : HeuristicPassMode} {group : HeuristicHopGroup}
    (hgroup : group ∈ searcher.groupHeuristicHops context mode state) {path : RoutePath}
    (hpath : path ∈ searcher.groupTries context mode state run group) :
    ∃ hop, path = state.path ++ [hop] ∧ hop.tokenOut = group.nextToken := by
  obtain ⟨_, hhops, _⟩ := (mem_groupHeuristicHops mode state group).mp hgroup
  unfold groupTries at hpath
  split at hpath
  · cases hpath
  · obtain ⟨ranked, hranked, quotes, htries⟩ := exists_of_mem_triesOf hpath
    unfold hopTries at htries
    split at htries
    · cases htries
    · refine ⟨ranked.hop, List.mem_singleton.mp htries, ?_⟩
      have hhop := (searcher.perm_liquidityRankedHops _ _ _).mem_iff.mp
        (((shortlistedRankedHops_sublist mode _).map _).mem (List.mem_map_of_mem hranked))
      rw [hhops, List.mem_filter, decide_eq_true_iff] at hhop
      exact hhop.2

omit [StableDiGraph G Address EdgeData] in
theorem quotesTried_empty : searcher.QuotesTried context state [] {} :=
  ⟨by simp, by simp, by simp⟩

omit [StableDiGraph G Address EdgeData] in
/-- The quoting loop of a group records what became of its candidates. -/
theorem quotesTried_group (hstate : searcher.TracedState context state)
    (mode : HeuristicPassMode) (hrunning : run.halted = false) (group : HeuristicHopGroup) :
    searcher.QuotesTried context state (searcher.groupTries context mode state run group)
      ((shortlistedRankedHops context mode (searcher.liquidityRankedHops group.hops
        context.heuristic.edgeShortlist context.config.liquidityPruning)).foldl
          (searcher.quoteRankedHop context state group.closesTarget) {}) := by
  unfold groupTries
  rw [if_neg (by simp [hrunning]), ← List.nil_append (triesOf _ _ _ _)]
  refine foldl_triesOf ?_ quotesTried_empty
  intro tried quotes ranked _ hquotes
  exact hquotes.quoteRankedHop hstate group.closesTarget ranked

/-- Expanding a group records what became of its candidates. -/
theorem Answered.expandGroup (hlimit : context.config.maxCandidates = none)
    (hresolved : context.Resolved searcher.graph) {mode : HeuristicPassMode}
    (hretains : 1 ≤ retainLimit context mode)
    (hstate : searcher.TracedState context state)
    (hrun : searcher.Answered context tried run) {group : HeuristicHopGroup}
    (hgroup : group ∈ searcher.groupHeuristicHops context mode state) :
    searcher.Answered context (tried ++ searcher.groupTries context mode state run group)
      (searcher.expandGroup context silent mode state run group) := by
  have hrunning : ¬ run.halted = true := by simp [hrun.halted]
  have hquotes := quotesTried_group hstate mode hrun.halted group
  have hkept : ∀ quoted ∈ searcher.keptQuotes context mode state group,
      state.path ++ [quoted.hop] ∈ tried ++ searcher.groupTries context mode state run group :=
    fun quoted hquoted =>
      List.mem_append_right _ (hquotes.tried quoted (mem_retainQuoted hquoted))
  unfold AmmSearcher.expandGroup
  rw [if_neg hrunning]
  simp only
  generalize decide (mode = .initial ∧ .refinement ∈ heuristicPassModes context.heuristic ∧
    context.heuristic.edgeShortlist.enabled = true ∧ mode.edgeLimit context.heuristic <
      (searcher.liquidityRankedHops group.hops context.heuristic.edgeShortlist
        context.config.liquidityPruning).length) = deferred
  have hrecorded : searcher.Recorded context
      (tried ++ searcher.groupTries context mode state run group)
      { run with
        failures := run.failures ++ ((shortlistedRankedHops context mode
          (searcher.liquidityRankedHops group.hops context.heuristic.edgeShortlist
            context.config.liquidityPruning)).foldl
              (searcher.quoteRankedHop context state group.closesTarget) {}).failures
        deferredEdgesSeen := run.deferredEdgesSeen || deferred } := by
    refine ⟨?_, ?_, ?_, hrun.evaluated, hrun.halted⟩
    · intro path hpath
      rcases List.mem_append.mp hpath with hold | hnew
      · exact hrun.nonempty path hold
      · obtain ⟨hop, rfl, _⟩ := mem_groupTries hgroup hnew
        simp
    · intro path
      simp only [List.map_append, List.mem_append]
      rw [hrun.failed, hquotes.failed, or_and_right]
    · intro quote hquote
      exact List.mem_append_left _ (hrun.found quote hquote)
  obtain ⟨hafter, hkeeps, hfinished⟩ := hrecorded.expandKept hlimit hresolved
    (searcher.keptQuotes context mode state group) hkept
  refine ⟨hafter, ?_⟩
  intro path hpath hfinishes hquotable
  rcases List.mem_append.mp hpath with hold | hnew
  · exact hkeeps (hrun.finished path hold hfinishes hquotable)
  · -- the kept hops of the group end at the same token as the candidate
    obtain ⟨hop, rfl, hout⟩ := mem_groupTries hgroup hnew
    obtain ⟨quoted, hquoted⟩ := List.exists_mem_of_ne_nil _
      (@retainQuoted_ne_nil context mode hretains _ (hquotes.quoted _ hnew hquotable))
    obtain ⟨_, hsame, hquote⟩ := offered_of_mem_keptQuotes hgroup hquoted
    refine hfinished quoted hquoted ⟨?_, ?_⟩ ?_
    · simpa using hfinishes.1
    · have hends := hfinishes.2
      rw [endToken_append_singleton] at hends ⊢
      rw [hsame, ← hout, hends]
    · rw [canQuote_append_singleton hstate, hquote]
      rfl

/-- Expanding a popped state records what became of its candidates. -/
theorem Answered.expandState (hlimit : context.config.maxCandidates = none)
    (hresolved : context.Resolved searcher.graph) {mode : HeuristicPassMode}
    (hretains : 1 ≤ retainLimit context mode)
    (hstate : searcher.TracedState context state)
    (hrun : searcher.Answered context tried run) :
    searcher.Answered context (tried ++ searcher.stateTries context mode run state)
      (searcher.expandState context silent mode run state) := by
  have hrunning : ¬ run.halted = true := by simp [hrun.halted]
  unfold AmmSearcher.expandState stateTries
  rw [if_neg hrunning, if_neg hrunning]
  split
  · rw [List.append_nil]
    exact hrun
  · refine foldl_triesOf ?_ hrun
    intro tried run group hgroup hrun
    exact hrun.expandGroup hlimit hresolved hretains hstate hgroup

/-- The level loop records what became of its candidates. -/
theorem Answered.searchLoop (hlimit : context.config.maxCandidates = none)
    (hresolved : context.Resolved searcher.graph) {mode : HeuristicPassMode}
    (hretains : 1 ≤ retainLimit context mode) (fuel : ℕ) {frontier : List HeuristicState}
    (hfrontier : ∀ state ∈ frontier, searcher.TracedState context state)
    (hrun : searcher.Answered context tried run) (hstopped : run.stopped = false) :
    searcher.Answered context (tried ++ searcher.loopTries context mode fuel frontier run)
      (searcher.searchLoop context silent mode fuel frontier run) := by
  induction fuel generalizing frontier run tried with
  | zero =>
      rw [loopTries, List.append_nil]
      exact hrun
  | succ fuel ih =>
      rw [loopTries, AmmSearcher.searchLoop]
      split
      · rw [List.append_nil]
        exact hrun
      · have hstart : searcher.Answered context tried { run with nextFrontier := [] } :=
          ⟨⟨hrun.nonempty, hrun.failed, hrun.found, hrun.evaluated, hrun.halted⟩, hrun.finished⟩
        have hmid : searcher.MidPass context (fun run => run.stopped = false)
            { run with nextFrontier := [] } :=
          ⟨hstopped, fun hended => by simp [hstopped] at hended, by simp⟩
        obtain ⟨hlevel, hafter⟩ := @foldl_triesOf _ _ _
          (searcher.expandState context silent mode) (searcher.stateTries context mode)
          (fun tried run => searcher.Answered context tried run ∧
            searcher.MidPass context (fun run => run.stopped = false) run) frontier
          (fun tried run state hstate hrun =>
            ⟨hrun.1.expandState hlimit hresolved hretains (hfrontier state hstate),
              (passInvariant_running fun _ _ => rfl).loop.expandState hrun.2 mode
                (hfrontier state hstate)⟩) tried _ ⟨hstart, hmid⟩
        have hrunning : ¬ (frontier.foldl (searcher.expandState context silent mode)
            { run with nextFrontier := [] }).halted = true := by simp [hlevel.halted]
        simp only
        rw [if_neg hrunning, if_neg hrunning, ← List.append_assoc]
        refine ih ?_ hlevel hafter.holds
        intro state hstate
        exact hafter.frontier state (nextLevel_subset _ state hstate)

/-- The passes record what became of their candidates. -/
theorem Answered.runPasses (hlimit : context.config.maxCandidates = none)
    (hresolved : context.Resolved searcher.graph)
    (hretains : ∀ mode, 1 ≤ retainLimit context mode) (modes : List HeuristicPassMode)
    (hrun : searcher.Answered context tried run) (hstopped : run.stopped = false) :
    searcher.Answered context (tried ++ searcher.passesTries context modes run)
      (searcher.runPasses context silent modes run) := by
  induction modes generalizing run tried with
  | nil =>
      rw [passesTries, List.append_nil]
      exact hrun
  | cons mode rest ih =>
      have hstart : searcher.Answered context tried
          { run with halted := false, deferredEdgesSeen := false, nextFrontier := [] } :=
        ⟨⟨hrun.nonempty, hrun.failed, hrun.found, hrun.evaluated, rfl⟩, hrun.finished⟩
      have hroot : ∀ state ∈ [context.rootState], searcher.TracedState context state := by
        intro state hstate
        rw [List.mem_singleton.mp hstate]
        rfl
      have hpass : searcher.Answered context (tried ++ searcher.passTries context run mode)
          (searcher.runPass context silent run mode) :=
        Answered.searchLoop hlimit hresolved (hretains mode) _ hroot hstart hstopped
      have hrunning : (searcher.runPass context silent run mode).stopped = false :=
        (passInvariant_running fun _ _ => rfl).loop.runPass mode hstopped hstopped
      have hgoes : ¬ (searcher.runPass context silent run mode).stopped = true := by
        simp [hrunning]
      rw [passesTries, AmmSearcher.runPasses]
      rw [if_neg hgoes, if_neg hgoes, ← List.append_assoc]
      split
      · rw [List.append_nil]
        exact hpass
      · exact ih hpass hrunning

end Runs

section Lane

variable {searcher context} {run : HeuristicRun Unit}

omit [StableDiGraph G Address EdgeData] in
/-- Quoting paths under an observer that never refuses fails on the paths that cannot be
quoted. -/
theorem mem_failures_quotePaths {σ : Type} {onQuote : σ → RouteQuote → σ × Bool}
    (hcontinue : ∀ observed quote, (onQuote observed quote).2 = true)
    {paths : List RoutePath} (hpaths : ∀ path ∈ paths, path ≠ []) (start : σ)
    (path : RoutePath) :
    path ∈ (quotePathsWithRegistryObserved ⟨onQuote, fun observed _ => (observed, true)⟩
        (searcher.quoteEnv context.simConfig) searcher.quoteContext context.amountIn paths
        start).failures.map PathFailure.path ↔
      path ∈ paths ∧ searcher.canQuote context path = false := by
  have hrunning := foldl_push_continues hcontinue
    ((quoteOrder paths).map ((searcher.quoteEnv context.simConfig).pathOutcome
      searcher.quoteContext context.amountIn)) (rfl : (⟨[], [], start, false⟩ :
        QuoteRun σ).stopped = false)
  rw [quotePathsWithRegistryObserved_eq, foldl_push_failures _ _ _ hrunning, List.nil_append]
  have houtcome : ∀ other ∈ paths, ((searcher.quoteEnv context.simConfig).pathOutcome
      searcher.quoteContext context.amountIn other).getRight?.map PathFailure.path =
        if searcher.canQuote context other then none else some other := by
    intro other hother
    unfold QuoteEnv.pathOutcome canQuote trace
    rw [if_neg (hpaths other hother)]
    cases (searcher.quoteEnv context.simConfig).traceHops searcher.quoteContext other
      context.amountIn with
    | ok result => rfl
    | error reason => rfl
  simp only [failedOutcomes, List.filterMap_map, List.map_filterMap, List.mem_filterMap,
    Function.comp]
  constructor
  · rintro ⟨other, hother, hfailed⟩
    have hmem := (quoteOrder_perm paths).mem_iff.mp hother
    rw [houtcome other hmem] at hfailed
    split at hfailed
    · cases hfailed
    · rename_i hfails
      obtain rfl := Option.some.inj hfailed
      exact ⟨hmem, by simpa using hfails⟩
  · rintro ⟨hmem, hfails⟩
    refine ⟨path, (quoteOrder_perm paths).mem_iff.mpr hmem, ?_⟩
    rw [houtcome path hmem, hfails]
    rfl

theorem mem_laneTries (path : RoutePath) :
    path ∈ searcher.laneTries context ↔ searcher.FastLanePath context path := by
  unfold laneTries FastLanePath
  split
  · rename_i henabled
    simp [henabled]
  · rename_i hdisabled
    simp [hdisabled]

/-- The fast lane fails on its candidates that cannot be quoted. -/
theorem mem_failures_runFastLane (hlimit : context.config.maxCandidates = none)
    (path : RoutePath) :
    path ∈ (searcher.runFastLane context silent { observed := () }).failures.map
        PathFailure.path ↔
      path ∈ searcher.laneTries context ∧ searcher.canQuote context path = false := by
  unfold runFastLane laneTries
  split
  · simp only
    split
    · rename_i hempty
      simp [hempty]
    · obtain ⟨incumbent, haccept⟩ := acceptFastLane_unlimited hlimit
        (quotePathsWithRegistryObserved ⟨silent, fun observed _ => (observed, true)⟩
          (searcher.quoteEnv context.simConfig) searcher.quoteContext context.amountIn
          (searcher.fastLanePaths context.tokenIn context.tokenOut context.config
            context.heuristic context.connectorTokens) ()).quotes _
      rw [haccept]
      simp only [List.nil_append]
      exact mem_failures_quotePaths (fun _ _ => rfl)
        (fun path hpath => ne_nil_of_mem_fastLanePaths hpath) () path
  · simp

theorem halted_runFastLane :
    (searcher.runFastLane context silent { observed := () }).halted = false := by
  unfold runFastLane
  split
  · simp only
    split
    · rfl
    · obtain ⟨_, _, _, _, haccept⟩ := acceptFastLane_spec context.config
        (quotePathsWithRegistryObserved ⟨silent, fun observed _ => (observed, true)⟩
          (searcher.quoteEnv context.simConfig) searcher.quoteContext context.amountIn
          (searcher.fastLanePaths context.tokenIn context.tokenOut context.config
            context.heuristic context.connectorTokens) ()).quotes _
      rw [haccept]
  · rfl

omit [StableDiGraph G Address EdgeData] in
theorem exists_trace_of_canQuote {path : RoutePath}
    (hquotable : searcher.canQuote context path = true) :
    ∃ result, searcher.trace context path = .ok result := by
  unfold canQuote at hquotable
  cases htrace : searcher.trace context path with
  | ok result => exact ⟨result, rfl⟩
  | error reason =>
      rw [htrace] at hquotable
      cases hquotable

/-- The fast lane records what became of its candidates. -/
theorem answered_runFastLane (hlimit : context.config.maxCandidates = none) :
    searcher.Answered context (searcher.laneTries context)
      (searcher.runFastLane context silent { observed := () }) := by
  have hlane := @fastLaneRun_runFastLane G _ searcher context Unit silent hlimit
    (fun _ _ => rfl) ()
  have hfound : ∀ path ∈ (searcher.runFastLane context silent { observed := () }).evaluatedPaths,
      searcher.canQuote context path = true →
        (searcher.runFastLane context silent { observed := () }).quotes ≠ [] := by
    intro path hpath hquotable
    obtain ⟨result, htrace⟩ := exists_trace_of_canQuote hquotable
    obtain ⟨quote, hquote, _⟩ := hlane.quoted path hpath result htrace
    exact List.ne_nil_of_mem hquote
  refine ⟨⟨?_, mem_failures_runFastLane hlimit, ?_, hfound, halted_runFastLane⟩, ?_⟩
  · intro path hpath
    exact ne_nil_of_mem_fastLanePaths ((mem_laneTries path).mp hpath).2
  · intro quote hquote
    exact (mem_laneTries _).mpr ((hlane.evaluated _).mp (hlane.origin quote hquote))
  · intro path hpath _ hquotable
    exact hfound path ((hlane.evaluated path).mpr ((mem_laneTries path).mp hpath)) hquotable

/-- A search that nobody stops has recorded what became of its candidates. -/
theorem answered_search (hlimit : context.config.maxCandidates = none)
    (hresolved : context.Resolved searcher.graph)
    (hretains : ∀ mode, 1 ≤ retainLimit context mode) :
    searcher.Answered context (searcher.searchTries context)
      (searcher.runPasses context silent (heuristicPassModes context.heuristic)
        (searcher.runFastLane context silent { observed := () })) := by
  have hrunning := @running_runFastLane G searcher context Unit silent _ (fun _ _ => rfl)
    hlimit ()
  unfold searchTries
  simp only
  rw [if_neg (by simp [hrunning])]
  exact (answered_runFastLane hlimit).runPasses hlimit hresolved hretains _ hrunning

end Lane

section Reports

/-- The failures that a search reports; a search that ends in an error reports none. -/
def reportedFailures : Except SearchError HeuristicRoutesReport → ℕ
  | .ok report => report.failedCandidates
  | .error _ => 0

variable {searcher context} {run : HeuristicRun Unit}

omit [StableDiGraph G Address EdgeData] in
/-- Finalists never fail when they are simulated again. -/
theorem failures_simulated {quotes : List RouteQuote}
    (hquotes : searcher.TracedQuotes context quotes) :
    (quotePathsWithRegistry (searcher.quoteEnv context.simConfig) searcher.quoteContext
      (quotes.map RouteQuote.path) context.amountIn).2 = [] := by
  apply List.eq_nil_iff_forall_not_mem.mpr
  intro failure hfailure
  have hnonempty : ∀ path ∈ quotes.map RouteQuote.path, path ≠ [] := by
    intro path hpath
    obtain ⟨quote, hquote, rfl⟩ := List.mem_map.mp hpath
    exact (hquotes.traced quote hquote).nonempty
  obtain ⟨hpath, hfails⟩ := (mem_failures_quotePaths (fun _ _ => rfl) hnonempty ()
    failure.path).mp (List.mem_map_of_mem hfailure)
  obtain ⟨quote, hquote, hsame⟩ := List.mem_map.mp hpath
  unfold canQuote at hfails
  rw [← hsame, (hquotes.traced quote hquote).trace] at hfails
  cases hfails

omit [StableDiGraph G Address EdgeData] in
theorem failedCandidates_finishSearch (hstopped : run.stopped = false)
    (hquotes : searcher.TracedQuotes context run.quotes) {report : HeuristicRoutesReport}
    (hreport : searcher.finishSearch context run = .ok report) :
    report.failedCandidates = run.failures.length := by
  simp only [finishSearch] at hreport
  rw [if_neg (by simp [hstopped])] at hreport
  split at hreport
  · split at hreport
    · cases hreport
    · cases hreport
  · split at hreport
    · obtain rfl := Except.ok.inj hreport
      rfl
    · rw [failures_simulated hquotes.finalists] at hreport
      split at hreport
      · cases hreport
      · obtain rfl := Except.ok.inj hreport
        rfl

omit [StableDiGraph G Address EdgeData] in
/-- A search that has found a quote returns a report. -/
theorem exists_report_finishSearch (hfinalists : 1 ≤ context.heuristic.maxFinalists)
    (hstopped : run.stopped = false)
    (hquotes : searcher.TracedQuotes context run.quotes) (hsome : run.quotes ≠ []) :
    ∃ report, searcher.finishSearch context run = .ok report := by
  have hbest := bestAmountOut_finishSearch hfinalists hstopped hquotes
  cases hresult : searcher.finishSearch context run with
  | ok report => exact ⟨report, rfl⟩
  | error error =>
      rw [hresult] at hbest
      exact absurd (bestOf_eq_none.mp hbest.symm) hsome

omit [StableDiGraph G Address EdgeData] in
theorem Recorded.failures_eq_nil_iff {tried : List RoutePath}
    (hrun : searcher.Recorded context tried run) :
    run.failures = [] ↔ ∀ path ∈ tried, searcher.canQuote context path = true := by
  constructor
  · intro hnone path hpath
    by_contra hfails
    have hfailed := (hrun.failed path).mpr ⟨hpath, by simpa using hfails⟩
    rw [hnone] at hfailed
    cases hfailed
  · intro hall
    apply List.eq_nil_iff_forall_not_mem.mpr
    intro failure hfailure
    obtain ⟨hpath, hfails⟩ := (hrun.failed failure.path).mp (List.mem_map_of_mem hfailure)
    rw [hall _ hpath] at hfails
    cases hfails

/-- The search finds nothing exactly when none of its candidates is a route that can be
quoted. -/
theorem Answered.quotes_eq_nil_iff {tried : List RoutePath} {log : List RouteQuote}
    (hrun : searcher.Answered context tried run)
    (hsound : searcher.RunSound context silent () log run) {isRoute : RoutePath → Prop}
    (hroutes : ∀ path, searcher.graph.IsRoute context.effective context.tokenIn
      context.tokenOut context.allowFinalSourceRevisit path → isRoute path)
    (hfinishes : ∀ path, isRoute path → Finishes context path) :
    run.quotes = [] ↔
      ∀ path ∈ tried, isRoute path → searcher.canQuote context path = false := by
  constructor
  · intro hnone path hpath hroute
    by_contra hquotable
    exact hrun.finished path hpath (hfinishes path hroute) (by simpa using hquotable) hnone
  · intro hall
    apply List.eq_nil_iff_forall_not_mem.mpr
    intro quote hquote
    have hreportable := hsound.reportable quote (hsound.quotes.mem hquote)
    have hfails := hall quote.path (hrun.found quote hquote) (hroutes _ hreportable.isRoute)
    unfold canQuote at hfails
    rw [hreportable.trace] at hfails
    cases hfails

/-- The search of a request reports no failure exactly when every candidate that it tries
can be quoted, or no route among them can be. -/
theorem reportedFailures_eq_zero_iff (hlimit : context.config.maxCandidates = none)
    (hresolved : context.Resolved searcher.graph)
    (hretains : ∀ mode, 1 ≤ retainLimit context mode)
    (hfinalists : 1 ≤ context.heuristic.maxFinalists) (hmin : 1 ≤ context.config.minHops)
    (hlane : searcher.SoundRun context silent ()
      (searcher.runFastLane context silent { observed := () }))
    {isRoute : RoutePath → Prop}
    (hroutes : ∀ path, searcher.graph.IsRoute context.effective context.tokenIn
      context.tokenOut context.allowFinalSourceRevisit path → isRoute path)
    (hfinishes : ∀ path, isRoute path → Finishes context path) :
    reportedFailures (searcher.searchRoutes context silent .full ()).2 = 0 ↔
      (∀ path ∈ searcher.searchTries context, searcher.canQuote context path = true) ∨
        ∀ path ∈ searcher.searchTries context, isRoute path →
          searcher.canQuote context path = false := by
  have hrunning := @running_runFastLane G searcher context Unit silent _ (fun _ _ => rfl)
    hlimit ()
  have hanswered := answered_search hlimit hresolved hretains
  obtain ⟨log, hsound⟩ := hlane.runPasses hresolved (heuristicPassModes context.heuristic)
  have hstopped := (@passInvariant_running G searcher context Unit silent
    fun _ _ => rfl).runPasses
    (heuristicPassModes context.heuristic) hrunning hrunning
  unfold searchRoutes
  simp only
  rw [if_neg (by simp [hrunning]), ← hanswered.failures_eq_nil_iff,
    ← hanswered.quotes_eq_nil_iff hsound hroutes hfinishes]
  have htraced := hsound.soundQuotes.traced hmin
  generalize searcher.runPasses context silent _ _ = run at hanswered hsound hstopped htraced ⊢
  cases hresult : searcher.finishSearch context run with
  | ok report =>
      have hsome := quotes_ne_nil_of_finishSearch hstopped hresult
      rw [reportedFailures, failedCandidates_finishSearch hstopped htraced hresult,
        List.length_eq_zero_iff]
      exact ⟨Or.inl, fun hcases => hcases.resolve_right hsome⟩
  | error error =>
      refine ⟨fun _ => Or.inr ?_, fun _ => rfl⟩
      by_contra hsome
      obtain ⟨report, hreport⟩ := exists_report_finishSearch hfinalists hstopped htraced hsome
      rw [hresult] at hreport
      cases hreport

end Reports

end AmmSearcher

end AmmSearch
