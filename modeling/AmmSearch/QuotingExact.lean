/-
Shared-prefix quoting is per-path quoting: the tree evaluation reports, in
some order of the given paths, the outcome of quoting each path hop by hop,
until an observer stops it.
-/
import AmmSearch.Quoting

namespace AmmSearch

namespace QuoteEnv

variable (env : QuoteEnv) (context : QuoteKeyContext)

/-- Quote `path` hop by hop with the keyed quotes of a search. -/
def traceHops : RoutePath → U256 → Except Text (List HopQuote × U256)
  | [], amount => .ok ([], amount)
  | hop :: rest, amount =>
      match env.quoteHop context hop amount with
      | .error reason => .error reason
      | .ok amountOut =>
          match traceHops rest amountOut with
          | .error reason => .error reason
          | .ok (hops, final) => .ok (⟨hop, amount, amountOut⟩ :: hops, final)

/-- What quoting one path reports. -/
def pathOutcome (amountIn : U256) (path : RoutePath) :
    RouteQuote ⊕ PathFailure :=
  if path = [] then .inr ⟨path, SearchError.emptyPath.display env.debug⟩
  else
    match env.traceHops context path amountIn with
    | .ok (hops, amountOut) => .inl ⟨path, amountIn, amountOut, hops⟩
    | .error reason => .inr ⟨path, reason⟩

variable {env context}

theorem simulateHop_of_quoteHop {hop : Hop} {amount amountOut : U256}
    (hquote : env.quoteHop context hop amount = .ok amountOut) :
    env.simulateHop hop amount = .ok amountOut := by
  unfold quoteHop at hquote
  split at hquote
  · cases hquote
  · unfold quoteHopUncached at hquote
    split at hquote
    · rename_i out hsimulate
      rw [hsimulate, Except.ok.inj hquote]
    · cases hquote

theorem quoteHops_of_traceHops {path : RoutePath} {amount amountOut : U256}
    {hops : List HopQuote}
    (htrace : env.traceHops context path amount = .ok (hops, amountOut)) :
    env.quoteHops path amount = .ok (hops, amountOut) := by
  induction path generalizing amount hops with
  | nil =>
      rw [traceHops, Except.ok.injEq] at htrace
      rw [quoteHops, htrace]
  | cons hop rest ih =>
      rw [traceHops] at htrace
      cases hquote : env.quoteHop context hop amount with
      | error reason => simp [hquote] at htrace
      | ok next =>
          simp only [hquote] at htrace
          cases hrest : env.traceHops context rest next with
          | error reason => simp [hrest] at htrace
          | ok result =>
              obtain ⟨hops', final⟩ := result
              simp only [hrest, Except.ok.injEq, Prod.mk.injEq] at htrace
              obtain ⟨rfl, rfl⟩ := htrace
              simp [quoteHops, simulateHop_of_quoteHop hquote, ih hrest]

/-- A traced nonempty path is quoted with the same hops and amounts. -/
theorem quotePathWithRegistry_of_traceHops {path : RoutePath}
    {amount amountOut : U256} {hops : List HopQuote} (hpath : path ≠ [])
    (htrace : env.traceHops context path amount = .ok (hops, amountOut)) :
    env.quotePathWithRegistry path amount =
      .ok ⟨path, amount, amountOut, hops⟩ := by
  simp [quotePathWithRegistry, hpath, quoteHops_of_traceHops htrace]

theorem traceHops_append_singleton (path : RoutePath) (hop : Hop)
    (amount : U256) :
    env.traceHops context (path ++ [hop]) amount =
      match env.traceHops context path amount with
      | .error reason => .error reason
      | .ok (hops, middle) =>
          match env.quoteHop context hop middle with
          | .error reason => .error reason
          | .ok amountOut => .ok (hops ++ [⟨hop, middle, amountOut⟩], amountOut) := by
  induction path generalizing amount with
  | nil => simp only [List.nil_append, traceHops]
  | cons head rest ih =>
      simp only [List.cons_append, traceHops]
      cases hhead : env.quoteHop context head amount with
      | error reason => rfl
      | ok next =>
          simp only [ih]
          cases hrest : env.traceHops context rest next with
          | error reason => rfl
          | ok result =>
              obtain ⟨hops, middle⟩ := result
              cases hhop : env.quoteHop context hop middle with
              | error reason => simp [hhop]
              | ok amountOut => simp [hhop]

/-- A failed prefix fails every path through it for the same reason. -/
theorem traceHops_error_of_isPrefix {start path : RoutePath} {amount : U256}
    {reason : Text} (hstart : start <+: path)
    (herror : env.traceHops context start amount = .error reason) :
    env.traceHops context path amount = .error reason := by
  induction start generalizing path amount with
  | nil => simp [traceHops] at herror
  | cons head start ih =>
      obtain ⟨rest, rfl⟩ := hstart
      rw [traceHops] at herror
      rw [List.cons_append, traceHops]
      cases hhead : env.quoteHop context head amount with
      | error reason' => simpa [hhead] using herror
      | ok next =>
          simp only [hhead] at herror
          cases hstart : env.traceHops context start next with
          | error reason' =>
              simp only [hstart, Except.error.injEq] at herror
              subst herror
              simp only [ih ⟨rest, rfl⟩ hstart]
          | ok result => simp [hstart] at herror

end QuoteEnv

section Tree

mutual

/-- Every path stored below the node reached by `start` leads through it. -/
def QuoteDagNode.Rooted (start : RoutePath) : QuoteDagNode → Prop
  | .mk children terminals =>
      (∀ path ∈ terminals, path = start) ∧ children.Rooted start

def QuoteDagChildren.Rooted (start : RoutePath) : QuoteDagChildren → Prop
  | .nil => True
  | .cons hop node rest =>
      node.Rooted (start ++ [hop]) ∧ rest.Rooted start

end

mutual

theorem QuoteDagNode.Rooted.isPrefix {start : RoutePath} :
    ∀ {node : QuoteDagNode}, node.Rooted start → ∀ path ∈ node.paths, start <+: path
  | .mk children terminals, hrooted, path, hpath => by
      rw [QuoteDagNode.Rooted] at hrooted
      rw [QuoteDagNode.paths, List.mem_append] at hpath
      rcases hpath with hterminal | hchild
      · rw [hrooted.1 path hterminal]
      · exact QuoteDagChildren.Rooted.isPrefix hrooted.2 path hchild

theorem QuoteDagChildren.Rooted.isPrefix {start : RoutePath} :
    ∀ {children : QuoteDagChildren}, children.Rooted start →
      ∀ path ∈ children.paths, start <+: path
  | .nil, _, path, hpath => by simp [QuoteDagChildren.paths] at hpath
  | .cons hop node rest, hrooted, path, hpath => by
      rw [QuoteDagChildren.Rooted] at hrooted
      rw [QuoteDagChildren.paths, List.mem_append] at hpath
      rcases hpath with hnode | hrest
      · exact (List.prefix_append start [hop]).trans
          (QuoteDagNode.Rooted.isPrefix hrooted.1 path hnode)
      · exact QuoteDagChildren.Rooted.isPrefix hrooted.2 path hrest

end

theorem QuoteDagNode.rooted_empty (start : RoutePath) :
    QuoteDagNode.empty.Rooted start := by
  simp [QuoteDagNode.empty, QuoteDagNode.Rooted, QuoteDagChildren.Rooted]

theorem QuoteDagChildren.rooted_childForHop {start : RoutePath} {hop : Hop}
    {change : QuoteDagNode → QuoteDagNode}
    (hchange : ∀ node : QuoteDagNode, node.Rooted (start ++ [hop]) →
      (change node).Rooted (start ++ [hop])) :
    ∀ children : QuoteDagChildren, children.Rooted start →
      (children.childForHop hop change).Rooted start
  | .nil, _ => by
      rw [childForHop, Rooted]
      exact ⟨hchange _ (QuoteDagNode.rooted_empty _), trivial⟩
  | .cons other node rest, hrooted => by
      rw [Rooted] at hrooted
      rw [childForHop]
      split
      · rename_i heq
        subst heq
        exact ⟨hchange node hrooted.1, hrooted.2⟩
      · exact ⟨hrooted.1, rooted_childForHop hchange rest hrooted.2⟩

theorem QuoteDagNode.rooted_insertAt {path : RoutePath} (hops : List Hop) :
    ∀ {start : RoutePath} (node : QuoteDagNode), path = start ++ hops →
      node.Rooted start → (node.insertAt path hops).Rooted start := by
  induction hops with
  | nil =>
      intro start node hpath hrooted
      obtain ⟨children, terminals⟩ := node
      rw [Rooted] at hrooted
      rw [insertAt, Rooted]
      refine ⟨?_, hrooted.2⟩
      intro other hother
      rcases List.mem_append.mp hother with hold | hnew
      · exact hrooted.1 other hold
      · simpa [hpath] using hnew
  | cons hop rest ih =>
      intro start node hpath hrooted
      obtain ⟨children, terminals⟩ := node
      rw [Rooted] at hrooted
      rw [insertAt, Rooted]
      refine ⟨hrooted.1, QuoteDagChildren.rooted_childForHop ?_ children hrooted.2⟩
      intro node hnode
      exact ih node (by simp [hpath]) hnode

theorem QuoteDagChildren.paths_childForHop {path : RoutePath} {hop : Hop}
    {change : QuoteDagNode → QuoteDagNode}
    (hchange : ∀ node : QuoteDagNode, (change node).paths.Perm (path :: node.paths)) :
    ∀ children : QuoteDagChildren,
      (children.childForHop hop change).paths.Perm (path :: children.paths)
  | .nil => by
      have hempty := hchange .empty
      simpa [childForHop, paths, QuoteDagNode.empty, QuoteDagNode.paths] using hempty
  | .cons other node rest => by
      rw [childForHop, paths]
      split
      · rw [paths]
        exact (hchange node).append_right rest.paths
      · rw [paths]
        exact ((paths_childForHop hchange rest).append_left node.paths).trans
          List.perm_middle

theorem QuoteDagNode.paths_insertAt {path : RoutePath} (hops : List Hop) :
    ∀ node : QuoteDagNode, (node.insertAt path hops).paths.Perm (path :: node.paths) := by
  induction hops with
  | nil =>
      rintro ⟨children, terminals⟩
      rw [insertAt, paths, paths, List.append_assoc]
      exact List.perm_middle
  | cons hop rest ih =>
      rintro ⟨children, terminals⟩
      rw [insertAt, paths, paths]
      exact ((QuoteDagChildren.paths_childForHop ih children).append_left
        terminals).trans List.perm_middle

end Tree

section Evaluate

variable {σ : Type} (observer : QuoteObserver σ) {env : QuoteEnv}
  {context : QuoteKeyContext} {amountIn : U256}

/-- Report one outcome; nothing is reported after a stop. -/
def QuoteObserver.push (run : QuoteRun σ) :
    RouteQuote ⊕ PathFailure → QuoteRun σ
  | .inl quote => observer.pushQuote run quote
  | .inr failure => observer.pushFailure run failure

variable {observer}

theorem QuoteObserver.push_stopped {run : QuoteRun σ} (hstopped : run.stopped = true)
    (outcome : RouteQuote ⊕ PathFailure) : observer.push run outcome = run := by
  cases outcome <;> simp [push, pushQuote, pushFailure, hstopped]

theorem QuoteObserver.foldl_push_stopped {run : QuoteRun σ}
    (hstopped : run.stopped = true) (outcomes : List (RouteQuote ⊕ PathFailure)) :
    outcomes.foldl observer.push run = run := by
  induction outcomes with
  | nil => rfl
  | cons outcome rest ih => rw [List.foldl_cons, push_stopped hstopped, ih]

theorem foldl_pushQuote_eq {start : RoutePath} {amount : U256}
    {hopQuotes : List HopQuote} (hstart : start ≠ [])
    (htrace : env.traceHops context start amountIn = .ok (hopQuotes, amount))
    {terminals : List RoutePath} (hterminals : ∀ path ∈ terminals, path = start)
    (run : QuoteRun σ) :
    terminals.foldl (fun run path =>
        observer.pushQuote run ⟨path, amountIn, amount, hopQuotes⟩) run =
      (terminals.map (env.pathOutcome context amountIn)).foldl observer.push run := by
  rw [List.foldl_map]
  refine List.foldl_ext _ _ run ?_
  intro run path hpath
  rw [hterminals path hpath]
  simp [QuoteEnv.pathOutcome, hstart, htrace, QuoteObserver.push]

theorem foldl_pushFailure_eq {start : RoutePath} {reason : Text}
    (hstart : start ≠ [])
    (herror : env.traceHops context start amountIn = .error reason)
    {node : QuoteDagNode} (hrooted : node.Rooted start) (run : QuoteRun σ) :
    (node.collectFailures reason).foldl observer.pushFailure run =
      (node.paths.map (env.pathOutcome context amountIn)).foldl observer.push run := by
  rw [QuoteDagNode.collectFailures, List.foldl_map, List.foldl_map]
  refine List.foldl_ext _ _ run ?_
  intro run path hpath
  have hpre := hrooted.isPrefix path hpath
  have hne : path ≠ [] := by
    rintro rfl
    exact hstart (List.prefix_nil.mp hpre)
  simp [QuoteEnv.pathOutcome, hne, QuoteObserver.push,
    QuoteEnv.traceHops_error_of_isPrefix hpre herror]

mutual

theorem QuoteDagNode.evaluate_eq : ∀ (node : QuoteDagNode) {start : RoutePath}
    {amount : U256} {hopQuotes : List HopQuote}, node.Rooted start →
    (start = [] → node.terminals = []) →
    env.traceHops context start amountIn = .ok (hopQuotes, amount) →
    ∀ run : QuoteRun σ,
      node.evaluate observer env context amountIn run amount hopQuotes =
        (node.paths.map (env.pathOutcome context amountIn)).foldl observer.push run
  | .mk children terminals, start, amount, hopQuotes, hrooted, hempty, htrace,
      run => by
      rw [QuoteDagNode.Rooted] at hrooted
      rw [QuoteDagNode.evaluate, QuoteDagNode.paths, List.map_append,
        List.foldl_append, QuoteDagChildren.evaluate_eq children hrooted.2 htrace]
      congr 1
      by_cases hstart : start = []
      · have hnone : terminals = [] := hempty hstart
        simp [hnone]
      · exact foldl_pushQuote_eq hstart htrace hrooted.1 run

theorem QuoteDagChildren.evaluate_eq : ∀ (children : QuoteDagChildren)
    {start : RoutePath} {amount : U256} {hopQuotes : List HopQuote},
    children.Rooted start →
    env.traceHops context start amountIn = .ok (hopQuotes, amount) →
    ∀ run : QuoteRun σ,
      children.evaluate observer env context amountIn run amount hopQuotes =
        (children.paths.map (env.pathOutcome context amountIn)).foldl observer.push run
  | .nil, _, _, _, _, _, run => by
      simp [QuoteDagChildren.evaluate, QuoteDagChildren.paths]
  | .cons hop node rest, start, amount, hopQuotes, hrooted, htrace, run => by
      rw [QuoteDagChildren.Rooted] at hrooted
      rw [QuoteDagChildren.evaluate, QuoteDagChildren.paths, List.map_append,
        List.foldl_append]
      split
      · rename_i hstopped
        rw [QuoteObserver.foldl_push_stopped hstopped,
          QuoteObserver.foldl_push_stopped hstopped]
      · have hnext :=
          @QuoteEnv.traceHops_append_singleton env context start hop amountIn
        rw [htrace] at hnext
        have hne : start ++ [hop] ≠ [] := by simp
        cases hquote : env.quoteHop context hop amount with
        | ok amountOut =>
            simp only [hquote] at hnext
            simp only
            rw [QuoteDagNode.evaluate_eq node hrooted.1 (fun h => absurd h hne) hnext,
              QuoteDagChildren.evaluate_eq rest hrooted.2 htrace]
        | error reason =>
            simp only [hquote] at hnext
            simp only
            rw [foldl_pushFailure_eq hne hnext hrooted.1,
              QuoteDagChildren.evaluate_eq rest hrooted.2 htrace]

end

/-- The tree of the nonempty paths. -/
def insertAll (paths : List RoutePath) (dag : QuoteDagNode) : QuoteDagNode :=
  (paths.filter (· ≠ [])).foldl QuoteDagNode.insert dag

theorem insertAll_spec (paths : List RoutePath) {dag : QuoteDagNode}
    (hrooted : dag.Rooted []) (hterminals : dag.terminals = []) :
    (insertAll paths dag).Rooted [] ∧ (insertAll paths dag).terminals = [] ∧
      (insertAll paths dag).paths.Perm (paths.filter (· ≠ []) ++ dag.paths) := by
  induction paths generalizing dag with
  | nil => exact ⟨hrooted, hterminals, List.Perm.refl _⟩
  | cons path rest ih =>
      by_cases hpath : path = []
      · simpa [insertAll, hpath] using ih hrooted hterminals
      · have hnone : (dag.insert path).terminals = [] := by
          obtain ⟨hop, hops, rfl⟩ := List.exists_cons_of_ne_nil hpath
          exact hterminals
        obtain ⟨hrooted', hterminals', hperm⟩ :=
          ih (QuoteDagNode.rooted_insertAt path dag rfl hrooted) hnone
        rw [insertAll, List.filter_cons_of_pos (by simpa using hpath)]
        refine ⟨hrooted', hterminals', hperm.trans ?_⟩
        exact ((QuoteDagNode.paths_insertAt path dag).append_left _).trans
          List.perm_middle

/-- The insertion loop reports the empty paths and stores the others. -/
theorem insertPaths_spec (paths : List RoutePath) (run : QuoteRun σ)
    (dag : QuoteDagNode) :
    (insertPaths observer env paths (run, dag)).1 =
        ((paths.filter (· = [])).map (env.pathOutcome context amountIn)).foldl
          observer.push run ∧
      ((insertPaths observer env paths (run, dag)).1.stopped = false →
        (insertPaths observer env paths (run, dag)).2 = insertAll paths dag) := by
  induction paths generalizing run dag with
  | nil => exact ⟨rfl, fun _ => rfl⟩
  | cons path rest ih =>
      by_cases hpath : path = []
      · have hpush : observer.pushFailure run
            ⟨path, SearchError.emptyPath.display env.debug⟩ =
              observer.push run (env.pathOutcome context amountIn path) := by
          simp [QuoteEnv.pathOutcome, hpath, QuoteObserver.push]
        have hinsert : insertAll (path :: rest) dag = insertAll rest dag := by
          simp [insertAll, hpath]
        rw [insertPaths, if_pos hpath, hpush, hinsert,
          List.filter_cons_of_pos (by simpa using hpath), List.map_cons,
          List.foldl_cons]
        simp only
        split
        · rename_i hstopped
          refine ⟨(QuoteObserver.foldl_push_stopped hstopped _).symm, ?_⟩
          intro hcontinue
          simp [hstopped] at hcontinue
        · exact ih _ dag
      · have hinsert : insertAll (path :: rest) dag =
            insertAll rest (dag.insert path) := by
          simp [insertAll, hpath]
        rw [insertPaths, if_neg hpath, hinsert,
          List.filter_cons_of_neg (by simpa using hpath)]
        exact ih run (dag.insert path)

/-- The order in which quoting many paths reports them. -/
def quoteOrder (paths : List RoutePath) : List RoutePath :=
  paths.filter (· = []) ++ (insertAll paths .empty).paths

theorem quoteOrder_perm (paths : List RoutePath) : (quoteOrder paths).Perm paths := by
  obtain ⟨_, _, hperm⟩ := @insertAll_spec paths .empty (QuoteDagNode.rooted_empty []) rfl
  rw [QuoteDagNode.empty, QuoteDagNode.paths, QuoteDagChildren.paths, List.append_nil,
    List.append_nil] at hperm
  refine (hperm.append_left _).trans ?_
  simpa using List.filter_append_perm (fun path : RoutePath => decide (path = [])) paths

/-- Quoting many paths reports the outcome of each of them, in a fixed order,
until the observer stops. -/
theorem quotePathsWithRegistryObserved_eq (paths : List RoutePath) (observed : σ) :
    quotePathsWithRegistryObserved observer env context amountIn paths observed =
      ((quoteOrder paths).map (env.pathOutcome context amountIn)).foldl observer.push
        ⟨[], [], observed, false⟩ := by
  obtain ⟨hrun, hdag⟩ := @insertPaths_spec σ observer env context amountIn paths
    ⟨[], [], observed, false⟩ .empty
  obtain ⟨hrooted, hterminals, _⟩ :=
    @insertAll_spec paths .empty (QuoteDagNode.rooted_empty []) rfl
  simp only [quotePathsWithRegistryObserved]
  rw [quoteOrder, List.map_append, List.foldl_append, ← hrun]
  split
  · rename_i hstopped
    exact (QuoteObserver.foldl_push_stopped hstopped _).symm
  · rename_i hcontinue
    rw [hdag (by simpa using hcontinue),
      QuoteDagNode.evaluate_eq _ hrooted (fun _ => hterminals) rfl]

/-- The quoted outcomes, in order. -/
def quotedOutcomes (outcomes : List (RouteQuote ⊕ PathFailure)) : List RouteQuote :=
  outcomes.filterMap Sum.getLeft?

/-- The callback state after a sequence of reported quotes. -/
def reportAll (onQuote : σ → RouteQuote → σ × Bool) (observed : σ)
    (quotes : List RouteQuote) : σ :=
  quotes.foldl (fun observed quote => (onQuote observed quote).1) observed

theorem measure_reportAll {measure : σ → ℕ} {onQuote : σ → RouteQuote → σ × Bool}
    (hmeasure : ∀ observed quote, measure (onQuote observed quote).1 = measure observed + 1)
    (observed : σ) (quotes : List RouteQuote) :
    measure (reportAll onQuote observed quotes) = measure observed + quotes.length := by
  induction quotes generalizing observed with
  | nil => rfl
  | cons quote rest ih =>
      refine (ih _).trans ?_
      rw [hmeasure, List.length_cons]
      omega

theorem reportAll_append (onQuote : σ → RouteQuote → σ × Bool) (observed : σ)
    (front back : List RouteQuote) :
    reportAll onQuote observed (front ++ back) =
      reportAll onQuote (reportAll onQuote observed front) back :=
  List.foldl_append

/-- A run without a failure callback reports an initial part of the quoted
outcomes, and all of them unless it is stopped. -/
theorem foldl_push_spec (onQuote : σ → RouteQuote → σ × Bool)
    (outcomes : List (RouteQuote ⊕ PathFailure)) (run : QuoteRun σ) :
    ∃ reported, reported <+: quotedOutcomes outcomes ∧
      (outcomes.foldl (QuoteObserver.push ⟨onQuote, fun observed _ =>
          (observed, true)⟩) run).quotes = run.quotes ++ reported ∧
      (outcomes.foldl (QuoteObserver.push ⟨onQuote, fun observed _ =>
          (observed, true)⟩) run).observed =
        reportAll onQuote run.observed reported ∧
      ((outcomes.foldl (QuoteObserver.push ⟨onQuote, fun observed _ =>
          (observed, true)⟩) run).stopped = false →
        reported = quotedOutcomes outcomes) := by
  induction outcomes generalizing run with
  | nil => exact ⟨[], List.prefix_refl _, by simp, rfl, fun _ => rfl⟩
  | cons outcome rest ih =>
      rw [List.foldl_cons]
      by_cases hstopped : run.stopped = true
      · rw [QuoteObserver.push_stopped hstopped,
          QuoteObserver.foldl_push_stopped hstopped]
        exact ⟨[], List.nil_prefix, by simp, rfl, fun hcontinue => by
          simp [hstopped] at hcontinue⟩
      · cases outcome with
        | inl quote =>
            obtain ⟨reported, hpre, hquotes, hobserved, hall⟩ :=
              ih (QuoteObserver.push ⟨onQuote, fun observed _ => (observed, true)⟩ run
                (.inl quote))
            refine ⟨quote :: reported, ?_, ?_, ?_, ?_⟩
            · simpa [quotedOutcomes] using hpre
            · rw [hquotes]
              simp [QuoteObserver.push, QuoteObserver.pushQuote, hstopped]
            · rw [hobserved]
              simp [QuoteObserver.push, QuoteObserver.pushQuote, hstopped, reportAll]
            · intro hcontinue
              rw [hall hcontinue]
              rfl
        | inr failure =>
            obtain ⟨reported, hpre, hquotes, hobserved, hall⟩ :=
              ih (QuoteObserver.push ⟨onQuote, fun observed _ => (observed, true)⟩ run
                (.inr failure))
            refine ⟨reported, hpre, ?_, ?_, hall⟩
            · rw [hquotes]
              simp [QuoteObserver.push, QuoteObserver.pushFailure, hstopped]
            · rw [hobserved]
              simp [QuoteObserver.push, QuoteObserver.pushFailure, hstopped]

/-- The failed outcomes, in order. -/
def failedOutcomes (outcomes : List (RouteQuote ⊕ PathFailure)) : List PathFailure :=
  outcomes.filterMap Sum.getRight?

@[simp]
theorem quotedOutcomes_inl (quote : RouteQuote) (rest : List (RouteQuote ⊕ PathFailure)) :
    quotedOutcomes (.inl quote :: rest) = quote :: quotedOutcomes rest := rfl

@[simp]
theorem quotedOutcomes_inr (failure : PathFailure) (rest : List (RouteQuote ⊕ PathFailure)) :
    quotedOutcomes (.inr failure :: rest) = quotedOutcomes rest := rfl

@[simp]
theorem failedOutcomes_inl (quote : RouteQuote) (rest : List (RouteQuote ⊕ PathFailure)) :
    failedOutcomes (.inl quote :: rest) = failedOutcomes rest := rfl

@[simp]
theorem failedOutcomes_inr (failure : PathFailure) (rest : List (RouteQuote ⊕ PathFailure)) :
    failedOutcomes (.inr failure :: rest) = failure :: failedOutcomes rest := rfl

/-- A run that is not stopped has kept every failure. -/
theorem foldl_push_failures (onQuote : σ → RouteQuote → σ × Bool)
    (outcomes : List (RouteQuote ⊕ PathFailure)) (run : QuoteRun σ)
    (hstopped : (outcomes.foldl (QuoteObserver.push ⟨onQuote, fun observed _ =>
      (observed, true)⟩) run).stopped = false) :
    (outcomes.foldl (QuoteObserver.push ⟨onQuote, fun observed _ =>
      (observed, true)⟩) run).failures = run.failures ++ failedOutcomes outcomes := by
  induction outcomes generalizing run with
  | nil => exact (List.append_nil _).symm
  | cons outcome rest ih =>
      rw [List.foldl_cons] at hstopped ⊢
      by_cases hended : run.stopped = true
      · rw [QuoteObserver.push_stopped hended,
          QuoteObserver.foldl_push_stopped hended, hended] at hstopped
        cases hstopped
      · rw [ih _ hstopped]
        cases outcome with
        | inl quote =>
            simp [QuoteObserver.push, QuoteObserver.pushQuote, hended]
        | inr failure =>
            simp [QuoteObserver.push, QuoteObserver.pushFailure, hended]

/-- An observer that never refuses does not stop the run. -/
theorem foldl_push_continues {onQuote : σ → RouteQuote → σ × Bool}
    (hcontinue : ∀ observed quote, (onQuote observed quote).2 = true)
    (outcomes : List (RouteQuote ⊕ PathFailure)) {run : QuoteRun σ}
    (hrun : run.stopped = false) :
    (outcomes.foldl (QuoteObserver.push ⟨onQuote, fun observed _ =>
      (observed, true)⟩) run).stopped = false := by
  induction outcomes generalizing run with
  | nil => exact hrun
  | cons outcome rest ih =>
      apply ih
      cases outcome <;>
        simp [QuoteObserver.push, QuoteObserver.pushQuote, QuoteObserver.pushFailure,
          hrun, hcontinue]

end Evaluate

namespace QuoteEnv

variable {env : QuoteEnv} {context : QuoteKeyContext} {amountIn : U256}

theorem mem_quotedOutcomes {paths : List RoutePath} {quote : RouteQuote} :
    quote ∈ quotedOutcomes (paths.map (env.pathOutcome context amountIn)) ↔
      quote.path ∈ paths ∧ quote.path ≠ [] ∧ quote.amountIn = amountIn ∧
        env.traceHops context quote.path amountIn =
          .ok (quote.hops, quote.amountOut) := by
  have houtcome : ∀ path, (env.pathOutcome context amountIn path).getLeft? =
      some quote ↔ path = quote.path ∧ path ≠ [] ∧ quote.amountIn = amountIn ∧
        env.traceHops context path amountIn = .ok (quote.hops, quote.amountOut) := by
    intro path
    obtain ⟨qpath, qin, qout, qhops⟩ := quote
    unfold pathOutcome
    split
    · rename_i hempty
      simp [hempty]
    · rename_i hne
      split
      · rename_i hops out htrace
        simp [hne, htrace, eq_comm, and_comm, and_left_comm]
      · rename_i reason htrace
        simp [htrace]
  simp only [quotedOutcomes, List.filterMap_map, List.mem_filterMap, Function.comp,
    houtcome]
  constructor
  · rintro ⟨path, hpath, rfl, hrest⟩
    exact ⟨hpath, hrest⟩
  · rintro ⟨hpath, hrest⟩
    exact ⟨quote.path, hpath, rfl, hrest⟩

/-- Distinct paths give quotes of distinct paths. -/
theorem nodup_quotedOutcomes {paths : List RoutePath} (hpaths : paths.Nodup) :
    ((quotedOutcomes (paths.map (env.pathOutcome context amountIn))).map
      RouteQuote.path).Nodup := by
  have hsublist : List.Sublist ((quotedOutcomes
      (paths.map (env.pathOutcome context amountIn))).map RouteQuote.path) paths := by
    clear hpaths
    induction paths with
    | nil => exact List.Sublist.refl _
    | cons path rest ih =>
        simp only [quotedOutcomes, List.map_cons] at ih ⊢
        cases houtcome : env.pathOutcome context amountIn path with
        | inr failure => exact List.Sublist.cons path ih
        | inl quote =>
            have hmem : quote ∈ quotedOutcomes
                ([path].map (env.pathOutcome context amountIn)) := by
              simp [quotedOutcomes, houtcome]
            have hpath := (mem_quotedOutcomes.mp hmem).1
            rw [List.mem_singleton] at hpath
            change List.Sublist (quote.path :: _) (path :: rest)
            rw [hpath]
            exact ih.cons_cons path
  exact hpaths.sublist hsublist

end QuoteEnv

/-- Quoting distinct paths reports each of them at most once, with the amounts
of its hops, and misses a path that can be quoted only when it is stopped. -/
theorem quotePathsWithRegistryObserved_spec {σ : Type} (env : QuoteEnv)
    (context : QuoteKeyContext) (amountIn : U256)
    (onQuote : σ → RouteQuote → σ × Bool) {paths : List RoutePath}
    (hpaths : paths.Nodup) (observed : σ) :
    let report := quotePathsWithRegistryObserved
      ⟨onQuote, fun observed _ => (observed, true)⟩ env context amountIn paths observed
    report.observed = reportAll onQuote observed report.quotes ∧
      (report.quotes.map RouteQuote.path).Nodup ∧
      (∀ quote ∈ report.quotes, quote.path ∈ paths ∧ quote.path ≠ [] ∧
        quote.amountIn = amountIn ∧ env.traceHops context quote.path amountIn =
          .ok (quote.hops, quote.amountOut)) ∧
      (report.stopped = false → ∀ quote : RouteQuote, quote.path ∈ paths →
        quote.path ≠ [] → quote.amountIn = amountIn →
        env.traceHops context quote.path amountIn = .ok (quote.hops, quote.amountOut) →
        quote ∈ report.quotes) ∧
      ((∀ observed quote, (onQuote observed quote).2 = true) →
        report.stopped = false) := by
  have hperm := quoteOrder_perm paths
  have heq := @quotePathsWithRegistryObserved_eq σ
    ⟨onQuote, fun observed _ => (observed, true)⟩ env context amountIn paths observed
  obtain ⟨reported, hpre, hquotes, hobserved, hall⟩ := foldl_push_spec onQuote
    ((quoteOrder paths).map (env.pathOutcome context amountIn)) ⟨[], [], observed, false⟩
  have hcontinues := fun hcontinue => @foldl_push_continues σ onQuote hcontinue
    ((quoteOrder paths).map (env.pathOutcome context amountIn)) ⟨[], [], observed, false⟩ rfl
  rw [← heq] at hquotes hobserved hall hcontinues
  rw [List.nil_append] at hquotes
  intro report
  have hsame : report.quotes = reported := hquotes
  refine ⟨hsame ▸ hobserved, ?_, ?_, ?_, hcontinues⟩
  · rw [hsame]
    exact (QuoteEnv.nodup_quotedOutcomes (hperm.nodup_iff.mpr hpaths)).sublist
      (hpre.sublist.map RouteQuote.path)
  · intro quote hquote
    rw [hsame] at hquote
    obtain ⟨hpath, hrest⟩ := QuoteEnv.mem_quotedOutcomes.mp (hpre.subset hquote)
    exact ⟨hperm.mem_iff.mp hpath, hrest⟩
  · intro hstopped quote hpath hne hamount htrace
    rw [hsame, hall hstopped]
    exact QuoteEnv.mem_quotedOutcomes.mpr
      ⟨hperm.mem_iff.mpr hpath, hne, hamount, htrace⟩

end AmmSearch
