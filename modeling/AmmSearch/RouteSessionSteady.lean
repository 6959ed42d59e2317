/-
Refreshes that change nothing.  The stream keeps the first of the routes with the largest
output, and a refresh takes the last one in the iteration order of the route table.  When
several routes tie, a refresh that quotes every route as before can therefore announce
another best route.
-/
import AmmSearch.RouteSessionStop

open FiniteMap StableGraph MemoTable

namespace AmmSearch

section Kept

variable {σ : Type}

/-- What reporting the outcomes of some paths keeps. -/
structure QuoteObserver.Keeps (observer : QuoteObserver σ) (paths : List RoutePath)
    (holds : QuoteRun σ → Prop) : Prop where
  quote : ∀ run quote, quote.path ∈ paths → holds run → holds (observer.pushQuote run quote)
  failure : ∀ run failure, failure.path ∈ paths → holds run →
    holds (observer.pushFailure run failure)

variable {observer : QuoteObserver σ} {paths : List RoutePath} {holds : QuoteRun σ → Prop}
  (hkeeps : observer.Keeps paths holds)

include hkeeps

theorem QuoteObserver.Keeps.foldl_pushQuote {terminals : List RoutePath}
    (hterminals : ∀ path ∈ terminals, path ∈ paths) {quote : RoutePath → RouteQuote}
    (hpath : ∀ path, (quote path).path = path) {run : QuoteRun σ} (hrun : holds run) :
    holds (terminals.foldl (fun run path => observer.pushQuote run (quote path)) run) := by
  induction terminals generalizing run with
  | nil => exact hrun
  | cons path rest ih =>
      rw [List.forall_mem_cons] at hterminals
      apply ih hterminals.2
      apply hkeeps.quote run (quote path) _ hrun
      rw [hpath]
      exact hterminals.1

theorem QuoteObserver.Keeps.foldl_pushFailure {failures : List PathFailure}
    (hfailures : ∀ failure ∈ failures, failure.path ∈ paths) {run : QuoteRun σ}
    (hrun : holds run) : holds (failures.foldl observer.pushFailure run) := by
  induction failures generalizing run with
  | nil => exact hrun
  | cons failure rest ih =>
      rw [List.forall_mem_cons] at hfailures
      exact ih hfailures.2 (hkeeps.failure run failure hfailures.1 hrun)

theorem QuoteObserver.Keeps.insertPaths {env : QuoteEnv} {given : List RoutePath}
    (hgiven : ∀ path ∈ given, path ∈ paths) {run : QuoteRun σ} (hrun : holds run)
    {dag : QuoteDagNode} (hdag : ∀ path ∈ dag.paths, path ∈ paths) :
    holds (AmmSearch.insertPaths observer env given (run, dag)).1 ∧
      ∀ path ∈ (AmmSearch.insertPaths observer env given (run, dag)).2.paths,
        path ∈ paths := by
  induction given generalizing run dag with
  | nil => exact ⟨hrun, hdag⟩
  | cons head rest ih =>
      rw [List.forall_mem_cons] at hgiven
      rw [AmmSearch.insertPaths]
      split
      · rename_i hempty
        have hpushed := hkeeps.failure run ⟨head, SearchError.emptyPath.display env.debug⟩
          hgiven.1 hrun
        simp only
        split
        · exact ⟨hpushed, hdag⟩
        · exact ih hgiven.2 hpushed hdag
      · apply ih hgiven.2 hrun
        intro path hpath
        have hperm := @QuoteDagNode.paths_insertAt head head dag
        rcases List.mem_cons.mp (hperm.mem_iff.mp hpath) with rfl | hold
        · exact hgiven.1
        · exact hdag path hold

variable (env : QuoteEnv) (context : QuoteKeyContext) (amountIn : U256)

mutual

theorem QuoteDagNode.keeps_evaluateCached : ∀ (node : QuoteDagNode),
    (∀ path ∈ node.paths, path ∈ paths) → ∀ {run : QuoteRun σ}, holds run →
    ∀ (amount : U256) (hopQuotes : List HopQuote),
    (node.evaluateCached observer env context amountIn run amount hopQuotes).Meets
      (fun _ _ => True) holds
  | .mk children terminals, hnode, run, hrun, amount, hopQuotes => by
      rw [QuoteDagNode.paths] at hnode
      rw [QuoteDagNode.evaluateCached]
      apply QuoteDagChildren.keeps_evaluateCached children
      · exact fun path hpath => hnode path (List.mem_append_right terminals hpath)
      · exact hkeeps.foldl_pushQuote
          (fun path hpath => hnode path (List.mem_append_left _ hpath)) (fun _ => rfl) hrun

theorem QuoteDagChildren.keeps_evaluateCached : ∀ (children : QuoteDagChildren),
    (∀ path ∈ children.paths, path ∈ paths) → ∀ {run : QuoteRun σ}, holds run →
    ∀ (amount : U256) (hopQuotes : List HopQuote),
    (children.evaluateCached observer env context amountIn run amount hopQuotes).Meets
      (fun _ _ => True) holds
  | .nil, _, run, hrun, amount, hopQuotes => by
      rw [QuoteDagChildren.evaluateCached]
      exact hrun
  | .cons hop node rest, hchildren, run, hrun, amount, hopQuotes => by
      rw [QuoteDagChildren.paths] at hchildren
      have hnode : ∀ path ∈ node.paths, path ∈ paths :=
        fun path hpath => hchildren path (List.mem_append_left _ hpath)
      have hrest : ∀ path ∈ rest.paths, path ∈ paths :=
        fun path hpath => hchildren path (List.mem_append_right _ hpath)
      have hhop : (quoteHopCached env context hop amount).Meets (fun _ _ => True)
          fun _ => True := by
        unfold quoteHopCached
        split
        · trivial
        · exact ⟨trivial, fun _ _ => trivial⟩
      rw [QuoteDagChildren.evaluateCached]
      split
      · exact hrun
      · apply hhop.bind
        intro entry _
        cases entry with
        | ok amountOut =>
            apply (QuoteDagNode.keeps_evaluateCached node hnode hrun amountOut _).bind
            intro run' hrun'
            exact QuoteDagChildren.keeps_evaluateCached rest hrest hrun' amount hopQuotes
        | error reason =>
            apply QuoteDagChildren.keeps_evaluateCached rest hrest
            apply hkeeps.foldl_pushFailure _ hrun
            intro failure hfailure
            obtain ⟨path, hpath, rfl⟩ := List.mem_map.mp hfailure
            exact hnode path hpath

end

theorem QuoteObserver.Keeps.quotePaths {observed : σ}
    (hstart : holds ⟨[], [], observed, false⟩) :
    (quotePathsWithRegistryObservedCached observer env context amountIn paths observed).Meets
      (fun _ _ => True) holds := by
  have hempty : ∀ path ∈ QuoteDagNode.empty.paths, path ∈ paths := by
    simp [QuoteDagNode.empty, QuoteDagNode.paths, QuoteDagChildren.paths]
  obtain ⟨hrun, hdag⟩ := @QuoteObserver.Keeps.insertPaths σ observer paths holds hkeeps env
    paths (fun _ hpath => hpath) _ hstart _ hempty
  simp only [quotePathsWithRegistryObservedCached]
  split
  · exact hrun
  · exact QuoteDagNode.keeps_evaluateCached hkeeps env context amountIn _ hdag hrun
      amountIn []

end Kept

/-- The event announces another best route. -/
def RouteUpdateEvent.changesBest : RouteUpdateEvent → Bool
  | .bestChanged _ _ => true
  | _ => false

/-- No event of the log announces another best route. -/
def UpdateLog.Quiet (log : UpdateLog) : Prop :=
  ∀ entry ∈ log, entry.1.changesBest = false

theorem UpdateLog.Quiet.concat {log : UpdateLog} (hquiet : log.Quiet)
    {event : RouteUpdateEvent} (hevent : event.changesBest = false) (answer : SearchControl) :
    UpdateLog.Quiet (log ++ [(event, answer)]) := by
  intro entry hentry
  rcases List.mem_append.mp hentry with hold | hlast
  · exact hquiet entry hold
  · rw [List.mem_singleton.mp hlast]
    exact hevent

/-- Events that announce no other best route keep the state of the callback in `holds`. -/
def KeepsQuiet {κ : Type} (onEvent : RouteUpdateCallback κ) (holds : κ → Prop) : Prop :=
  ∀ callback event, event.changesBest = false → holds callback →
    holds (onEvent callback event).1

theorem keepsQuiet_loggedUpdates {κ : Type} (onEvent : RouteUpdateCallback κ) :
    KeepsQuiet (loggedUpdates onEvent) fun callback => callback.2.Quiet :=
  fun _ _ hevent hquiet => hquiet.concat hevent _

namespace RouteSearchSession

variable {G : Type} {κ : Type} {session next : RouteSearchSession} {call : RefreshCall G}
  {onEvent : RouteUpdateCallback κ}

section Loops

variable {holds : κ → Prop} {paths : List RoutePath} {callback callback' : κ}

/-- What a quoting loop reports: outcomes of its own paths, and no other best route. -/
structure ReportsPaths (holds : κ → Prop) (paths : List RoutePath) (run : QuoteRun κ) :
    Prop where
  quotes : ∀ quote ∈ run.quotes, quote.path ∈ paths
  failures : ∀ failure ∈ run.failures, failure.path ∈ paths
  observed : holds run.observed

theorem quotePaths_reports (hkeeps : KeepsQuiet onEvent holds)
    {event : RouteQuote → RouteUpdateEvent}
    (hevent : ∀ quote, (event quote).changesBest = false) (hholds : holds callback)
    {report : QuoteRun κ} {quoteCache : SharedQuoteCache}
    (hrun : session.quotePaths call onEvent event paths callback =
      some (report, quoteCache)) : ReportsPaths holds paths report := by
  refine Program.Meets.of_perform (QuoteObserver.Keeps.quotePaths ?_ _ _ _ ?_) hrun
  · constructor
    · intro run quote hpath hreports
      unfold QuoteObserver.pushQuote
      split
      · exact hreports
      · refine ⟨?_, hreports.failures, hkeeps _ _ (hevent quote) hreports.observed⟩
        intro other hother
        rcases List.mem_append.mp hother with hold | hlast
        · exact hreports.quotes other hold
        · rw [List.mem_singleton.mp hlast]
          exact hpath
    · intro run failure hpath hreports
      unfold QuoteObserver.pushFailure
      split
      · exact hreports
      · refine ⟨hreports.quotes, ?_, hreports.observed⟩
        intro other hother
        rcases List.mem_append.mp hother with hold | hlast
        · exact hreports.failures other hold
        · rw [List.mem_singleton.mp hlast]
          exact hpath
  · exact ⟨fun _ hmem => absurd hmem List.not_mem_nil,
      fun _ hmem => absurd hmem List.not_mem_nil, hholds⟩

/-- The first loop changes entries of its own paths only. -/
theorem requoteRoutes_inserted (hkeeps : KeepsQuiet onEvent holds) (hholds : holds callback)
    {count : ℕ} (hrun : session.requoteRoutes call onEvent paths callback =
      some (next, callback', count)) :
    ∃ quoteCache failed quotes, next = session.inserted call.searcher quoteCache failed quotes ∧
      (∀ path ∈ failed, path ∈ paths) ∧ (∀ quote ∈ quotes, quote.path ∈ paths) ∧
      holds callback' := by
  unfold requoteRoutes at hrun
  split at hrun
  · simp only [Option.some.injEq, Prod.mk.injEq] at hrun
    obtain ⟨rfl, rfl, -⟩ := hrun
    exact ⟨session.quoteCache, [], [], rfl, by simp, by simp, hholds⟩
  · obtain ⟨⟨report, quoteCache⟩, hquoted, hresult⟩ := Option.map_eq_some_iff.mp hrun
    simp only [Prod.mk.injEq] at hresult
    obtain ⟨rfl, rfl, -⟩ := hresult
    have hreports := quotePaths_reports hkeeps (fun _ => rfl) hholds hquoted
    refine ⟨quoteCache, paths ++ report.failures.map PathFailure.path, report.quotes, ?_, ?_,
      hreports.quotes, hreports.observed⟩
    · unfold inserted insertFailures insertQuotes
      rw [List.foldl_append]
    · intro path hpath
      rcases List.mem_append.mp hpath with hgiven | hfailed
      · exact hgiven
      · obtain ⟨failure, hfailure, rfl⟩ := List.mem_map.mp hfailed
        exact hreports.failures failure hfailure

/-- The second loop inserts one quote for each one that it counts. -/
theorem quoteProbes_inserted (hkeeps : KeepsQuiet onEvent holds) (hholds : holds callback)
    {count : ℕ} (hrun : session.quoteProbes call onEvent paths callback =
      some (next, callback', count)) :
    ∃ quoteCache quotes, next = session.inserted call.searcher quoteCache [] quotes ∧
      quotes.length = count ∧ holds callback' := by
  unfold quoteProbes at hrun
  split at hrun
  · simp only [Option.some.injEq, Prod.mk.injEq] at hrun
    obtain ⟨rfl, rfl, rfl⟩ := hrun
    exact ⟨session.quoteCache, [], rfl, rfl, hholds⟩
  · obtain ⟨⟨report, quoteCache⟩, hquoted, hresult⟩ := Option.map_eq_some_iff.mp hrun
    simp only [Prod.mk.injEq] at hresult
    obtain ⟨rfl, rfl, rfl⟩ := hresult
    have hreports := quotePaths_reports hkeeps (fun _ => rfl) hholds hquoted
    exact ⟨quoteCache, report.quotes, rfl, rfl, hreports.observed⟩

/-- The loops of a refresh that quotes, and what they insert. -/
theorem requote_inserted (hkeeps : KeepsQuiet onEvent holds) (hholds : holds callback)
    {result : RouteSearchSession × κ × IncrementalRouteUpdateReport}
    (hrun : session.requote call onEvent callback = some result) :
    ∃ quoteCache failed quotes probeCache probes routesRequoted quoted,
      result = finishRefresh (((session.invalidated call).inserted call.searcher quoteCache
          failed quotes).inserted call.searcher probeCache [] probes) call onEvent
        session.best routesRequoted probes.length quoted ∧
      (∀ path ∈ failed, path ∈ session.materializedPaths call) ∧
      (∀ quote ∈ quotes, quote.path ∈ session.materializedPaths call) ∧
      holds quoted := by
  unfold requote at hrun
  simp only [bind, Option.bind_eq_some_iff, Option.some.injEq] at hrun
  obtain ⟨⟨requoted, middle, routesRequoted⟩, hroutes, ⟨probed, quoted, count⟩, hprobes,
    rfl⟩ := hrun
  obtain ⟨quoteCache, failed, quotes, rfl, hfailed, hquotes, hmiddle⟩ :=
    requoteRoutes_inserted hkeeps hholds hroutes
  obtain ⟨probeCache, probes, rfl, rfl, hquoted⟩ :=
    quoteProbes_inserted hkeeps hmiddle hprobes
  exact ⟨quoteCache, failed, quotes, probeCache, probes, routesRequoted, quoted, rfl,
    fun path hpath => mem_sortedPaths.mp (hfailed path hpath),
    fun quote hquote => mem_sortedPaths.mp (hquotes quote hquote), hquoted⟩

end Loops

section Last

variable {quotes : List RouteQuote} {best : RouteQuote}

/-- A quote that nothing after it equals is chosen. -/
theorem foldl_laterMax_of_split {before after : List RouteQuote}
    (hbefore : ∀ quote ∈ before, quote.amountOut ≤ best.amountOut)
    (hafter : ∀ quote ∈ after, quote.amountOut < best.amountOut) :
    (before ++ best :: after).foldl laterMax none = some best := by
  have hchosen : laterMax (before.foldl laterMax none) best = some best := by
    have hfirst := @isBest_foldl_laterMax [] none rfl before
    rw [List.nil_append] at hfirst
    cases hbest : before.foldl laterMax none with
    | none => rfl
    | some earlier =>
        rw [hbest] at hfirst
        exact if_neg (not_lt.mpr (hbefore earlier hfirst.1))
  rw [List.foldl_append, List.foldl_cons, hchosen]
  induction after with
  | nil => rfl
  | cons quote rest ih =>
      rw [List.forall_mem_cons] at hafter
      rw [List.foldl_cons, laterMax, if_pos hafter.1]
      exact ih hafter.2

/-- The chosen quote is the last of the largest ones. -/
theorem split_of_foldl_laterMax (hchosen : quotes.foldl laterMax none = some best) :
    ∃ before after, quotes = before ++ best :: after ∧
      ∀ quote ∈ after, quote.amountOut < best.amountOut := by
  induction quotes using List.reverseRecOn with
  | nil => cases hchosen
  | append_singleton init last ih =>
      rw [List.foldl_append, List.foldl_cons, List.foldl_nil] at hchosen
      cases hearlier : init.foldl laterMax none with
      | none =>
          rw [hearlier] at hchosen
          obtain rfl := Option.some.inj hchosen
          exact ⟨init, [], rfl, by simp⟩
      | some earlier =>
          rw [hearlier, laterMax] at hchosen
          split at hchosen
          · rename_i hsmaller
            obtain rfl := Option.some.inj hchosen
            obtain ⟨before, after, rfl, hafter⟩ := ih hearlier
            refine ⟨before, after ++ [last], by simp, ?_⟩
            intro quote hquote
            rcases List.mem_append.mp hquote with hold | hlast
            · exact hafter quote hold
            · rw [List.mem_singleton.mp hlast]
              exact hsmaller
          · obtain rfl := Option.some.inj hchosen
            exact ⟨init, [], rfl, by simp⟩

end Last

section Ranked

/-- What every session keeps: the quotes of the table are those of their paths, and `best`
is one of the largest. -/
structure Ranked (session : RouteSearchSession) : Prop where
  paths : ∀ path quote, session.routeTable.lookup path = some (.quoted quote) →
    quote.path = path
  best : session.BestOfTable

/-- In the iteration order of the table, no route that ties with the best one follows it. -/
def BestComesLast (session : RouteSearchSession) (order : HashOrder RoutePath) : Prop :=
  ∀ best before after, session.best = some best →
    order.list session.routeTable.keys = before ++ best.path :: after →
    ∀ path ∈ after, ∀ quote, session.routeTable.lookup path = some (.quoted quote) →
      quote.amountOut ≠ best.amountOut

/-- The quote that the table has for a path. -/
def tableQuote (session : RouteSearchSession) (path : RoutePath) : Option RouteQuote :=
  (session.routeTable.lookup path).bind RouteSessionEntry.quote

theorem tableQuote_eq_some {path : RoutePath} {quote : RouteQuote} :
    session.tableQuote path = some quote ↔
      session.routeTable.lookup path = some (.quoted quote) := by
  unfold tableQuote
  constructor
  · intro hquote
    obtain ⟨entry, hentry, hfound⟩ := Option.bind_eq_some_iff.mp hquote
    cases entry with
    | failed => cases hfound
    | quoted found => rw [hentry, Option.some.inj hfound]
  · intro hlookup
    rw [hlookup]
    rfl

theorem bestFromTable_eq (session : RouteSearchSession) (order : HashOrder RoutePath) :
    session.bestFromTable order =
      ((order.list session.routeTable.keys).filterMap session.tableQuote).foldl laterMax
        none :=
  rfl

/-- Choosing the best route again gives the same one exactly when it comes last. -/
theorem Ranked.bestFromTable_iff (hranked : session.Ranked) (order : HashOrder RoutePath) :
    session.bestFromTable order = session.best ↔ session.BestComesLast order := by
  rw [bestFromTable_eq]
  have hbest := hranked.best
  unfold BestOfTable at hbest
  cases hchosen : session.best with
  | none =>
      rw [hchosen] at hbest
      have hnone : (order.list session.routeTable.keys).filterMap session.tableQuote = [] := by
        rw [List.filterMap_eq_nil_iff]
        intro path _
        rw [Option.eq_none_iff_forall_ne_some]
        intro quote hquote
        exact hbest path quote (tableQuote_eq_some.mp hquote)
      rw [hnone]
      constructor
      · intro _ best before after hsome
        rw [hchosen] at hsome
        cases hsome
      · exact fun _ => rfl
  | some best =>
      rw [hchosen] at hbest
      obtain ⟨⟨path, hlookup⟩, hmax⟩ := hbest
      obtain rfl := hranked.paths path best hlookup
      have hmem : best.path ∈ order.list session.routeTable.keys :=
        (order.mem_list _ _).mpr (Finmap.mem_keys.mpr (Finmap.mem_of_lookup_eq_some hlookup))
      have hsplit : ∀ before after,
          order.list session.routeTable.keys = before ++ best.path :: after →
          (order.list session.routeTable.keys).filterMap session.tableQuote =
            before.filterMap session.tableQuote ++
              best :: after.filterMap session.tableQuote := by
        intro before after hlist
        rw [hlist, List.filterMap_append, List.filterMap_cons,
          tableQuote_eq_some.mpr hlookup]
      constructor
      · intro hsame found before after hfound hlist path hpath quote hquote htie
        obtain rfl := Option.some.inj (hchosen.symm.trans hfound)
        rw [hsplit before after hlist] at hsame
        obtain ⟨first, last, hfirst, hlast⟩ := split_of_foldl_laterMax hsame
        -- the paths of the list are distinct, so both splits are at the same place
        have hnodup := order.nodup_list session.routeTable.keys
        rw [hlist] at hnodup
        have hapart : ∀ part : List RoutePath, best.path ∉ part →
            best ∉ part.filterMap session.tableQuote := by
          intro part hpart hbestMem
          obtain ⟨other, hother, hquoted⟩ := List.mem_filterMap.mp hbestMem
          rw [hranked.paths other best (tableQuote_eq_some.mp hquoted)] at hpart
          exact hpart hother
        have hbefore : best.path ∉ before := by
          intro hmemBefore
          exact (List.nodup_append.mp hnodup).2.2 _ hmemBefore _ List.mem_cons_self rfl
        have hafter : best.path ∉ after :=
          (List.nodup_cons.mp (List.nodup_append.mp hnodup).2.1).1
        obtain ⟨_, _, rfl⟩ := (List.append_cons_inj_of_notMem (hapart _ hbefore)
          (hapart _ hafter)).mp hfirst
        exact absurd htie (hlast quote (List.mem_filterMap.mpr
          ⟨path, hpath, tableQuote_eq_some.mpr hquote⟩)).ne
      · intro hlast
        obtain ⟨before, after, hlist⟩ := List.append_of_mem hmem
        rw [hsplit before after hlist]
        apply foldl_laterMax_of_split
        · intro quote hquote
          obtain ⟨path, _, hquoted⟩ := List.mem_filterMap.mp hquote
          exact hmax path quote (tableQuote_eq_some.mp hquoted)
        · intro quote hquote
          obtain ⟨path, hpath, hquoted⟩ := List.mem_filterMap.mp hquote
          have hfound := tableQuote_eq_some.mp hquoted
          exact (hmax path quote hfound).lt_of_ne
            (hlast best before after hchosen hlist path hpath quote hfound)

end Ranked

section Refresh

variable {callback : κ} {callback' : κ} {log : UpdateLog}
  {report : IncrementalRouteUpdateReport}

/-- The affected pools name no path, or a new search is required. -/
def QuotesNothing (session : RouteSearchSession) (call : RefreshCall G) : Prop :=
  session.AsksForSearch call ∨
    (session.materializedPaths call = ∅ ∧ session.probePaths call = ∅)

theorem refreshAffected_of_no_paths {callback : κ}
    (hstarted : (onEvent callback (.started call.affected.pools)).2 = .continue)
    (hsearch : ¬session.AsksForSearch call)
    (hnone : session.materializedPaths call = ∅ ∧ session.probePaths call = ∅) :
    session.refreshAffected call onEvent callback =
      some (session.completeUnchanged onEvent call.affected.pools
        (onEvent callback (.started call.affected.pools)).1) := by
  unfold AsksForSearch at hsearch
  simp only [not_or, ne_eq, not_not, not_lt] at hsearch
  obtain ⟨hearly, hpools, _⟩ := hsearch
  unfold refreshAffected
  simp only [emitRouteUpdateEvent, hstarted, hearly, hpools, hnone, beq_self_eq_true,
    Bool.not_true, Bool.false_eq_true, if_false, and_self, if_true, ite_self]

theorem quotesNothing_of_unfiled (hunfiled : ∀ pool ∈ call.affected.pools,
    ¬session.Files pool) : session.QuotesNothing call := by
  right
  constructor
  · rw [Finset.eq_empty_iff_forall_notMem]
    intro path hpath
    obtain ⟨pool, hpool, hfiled⟩ := mem_materializedPaths.mp hpath
    exact hunfiled pool hpool ⟨path, Or.inl hfiled⟩
  · rw [Finset.eq_empty_iff_forall_notMem]
    intro path hpath
    obtain ⟨⟨pool, hpool, hfiled⟩, _⟩ := mem_probePaths.mp hpath
    exact hunfiled pool hpool ⟨path, Or.inr hfiled⟩

theorem quiet_started (callback : κ) :
    (loggedUpdates onEvent (callback, []) (.started call.affected.pools)).1.2.Quiet :=
  @UpdateLog.Quiet.concat [] (fun _ hentry => absurd hentry List.not_mem_nil) _ rfl _

/-- A refresh that quotes nothing keeps the best route. -/
theorem best_of_quotesNothing
    (hstarted : (onEvent callback (.started call.affected.pools)).2 = .continue)
    (hnothing : session.QuotesNothing call)
    (hrun : session.refreshAffected call (loggedUpdates onEvent) (callback, []) =
      some (next, (callback', log), report)) : next.best = session.best ∧ log.Quiet := by
  have hquiet := @quiet_started G κ call onEvent callback
  by_cases hsearch : session.AsksForSearch call
  · obtain ⟨_, reason, hresult⟩ | ⟨hnot, _⟩ | ⟨hnot, _⟩ :=
      @refreshAffected_cases G _ session call (loggedUpdates onEvent) (callback, []) hstarted
    · rw [hresult, Option.some.injEq] at hrun
      cases hrun
      exact ⟨rfl, (hquiet.concat rfl _).concat rfl _⟩
    · exact absurd hsearch hnot
    · exact absurd hsearch hnot
  · rw [@refreshAffected_of_no_paths G _ session call (loggedUpdates onEvent) (callback, [])
      hstarted hsearch (hnothing.resolve_left hsearch), Option.some.injEq] at hrun
    cases hrun
    exact ⟨rfl, hquiet.concat rfl _⟩

/-- Every route that is quoted again has the entry that it had before, and no probe
succeeds. -/
structure ChangesNothing (session : RouteSearchSession) (call : RefreshCall G)
    (next : RouteSearchSession) (report : IncrementalRouteUpdateReport) : Prop where
  routes : ∀ path ∈ session.materializedPaths call,
    next.routeTable.lookup path = session.routeTable.lookup path
  probes : report.probeRoutesQuoted = 0

theorem finishRefresh_quiet {previousBest : Option RouteQuote}
    (hsame : session.bestFromTable call.pathOrder = previousBest)
    {callback : κ × UpdateLog} (hquiet : callback.2.Quiet)
    (routesRequoted probeRoutesQuoted : ℕ) :
    (session.finishRefresh call (loggedUpdates onEvent) previousBest routesRequoted
      probeRoutesQuoted callback).2.1.2.Quiet := by
  have hunchanged :
      { session with best := session.bestFromTable call.pathOrder }.bestChanged previousBest =
        false :=
    decide_eq_false (not_not.mpr hsame)
  unfold finishRefresh
  simp only [hunchanged, Bool.false_eq_true, if_false]
  exact hquiet.concat rfl _

/-- A refresh that quotes and changes nothing chooses the best route again from the same
table, and announces the choice when it differs. -/
theorem best_of_requote
    (hstarted : (onEvent callback (.started call.affected.pools)).2 = .continue)
    (hquotes : ¬session.QuotesNothing call)
    (hrun : session.refreshAffected call (loggedUpdates onEvent) (callback, []) =
      some (next, (callback', log), report))
    (hnothing : session.ChangesNothing call next report) :
    next.best = session.bestFromTable call.pathOrder ∧
      (next.best = session.best → log.Quiet) := by
  obtain ⟨hsearch, _⟩ | ⟨_, hunfiled, _⟩ | ⟨_, hresult⟩ :=
    @refreshAffected_cases G _ session call (loggedUpdates onEvent) (callback, []) hstarted
  · exact absurd (Or.inl hsearch) hquotes
  · exact absurd (quotesNothing_of_unfiled hunfiled) hquotes
  · rw [hresult] at hrun
    obtain ⟨quoteCache, failed, quotes, probeCache, probes, count, quoted, hfinish, hfailed,
      hrequoted, hquiet⟩ := requote_inserted (keepsQuiet_loggedUpdates onEvent)
        (quiet_started callback) hrun
    have hprobes : probes = [] := by
      have hcount := congrArg (fun result => result.2.2.probeRoutesQuoted) hfinish
      rw [hnothing.probes] at hcount
      exact List.eq_nil_of_length_eq_zero hcount.symm
    subst hprobes
    have htable : ((session.invalidated call).inserted call.searcher quoteCache failed
        quotes).routeTable = session.routeTable := by
      apply Finmap.ext_lookup
      intro path
      by_cases hpath : path ∈ session.materializedPaths call
      · rw [← hnothing.routes path hpath]
        have hsame := congrArg (fun result => result.1.routeTable.lookup path) hfinish
        exact hsame.symm
      · obtain ⟨quote, hquote, rfl, _⟩ | ⟨_, hlookup⟩ := @lookup_inserted G
          (session.invalidated call) call quoteCache failed quotes path
        · exact absurd (hrequoted quote hquote) hpath
        · rw [if_neg fun hmem => hpath (hfailed path hmem)] at hlookup
          exact hlookup
    have hbest : next.best = session.bestFromTable call.pathOrder := by
      have hchosen := congrArg (fun result => result.1.best) hfinish
      rw [show next.best = _ from hchosen, bestFromTable, ← htable]
      rfl
    refine ⟨hbest, ?_⟩
    intro hsame
    have hlog := congrArg (fun result => result.2.1.2) hfinish
    rw [show log = _ from hlog]
    apply finishRefresh_quiet _ hquiet
    rw [← hsame]
    exact (congrArg (fun result => result.1.best) hfinish).symm

/-- A refresh that changes nothing keeps the best route exactly when it quotes nothing, or
no route that ties with the best one follows it in the table. -/
theorem Ranked.keepsBest_iff (hranked : session.Ranked)
    (hstarted : (onEvent callback (.started call.affected.pools)).2 = .continue)
    (hrun : session.refreshAffected call (loggedUpdates onEvent) (callback, []) =
      some (next, (callback', log), report))
    (hnothing : session.ChangesNothing call next report) :
    (next.best = session.best ∧ log.Quiet) ↔
      session.QuotesNothing call ∨ session.BestComesLast call.pathOrder := by
  by_cases hquotes : session.QuotesNothing call
  · simp only [hquotes, true_or, iff_true]
    exact best_of_quotesNothing hstarted hquotes hrun
  · obtain ⟨hbest, hquiet⟩ := best_of_requote hstarted hquotes hrun hnothing
    rw [← hranked.bestFromTable_iff, ← hbest]
    simp only [hquotes, false_or]
    exact ⟨And.left, fun hsame => ⟨hsame, hquiet hsame⟩⟩

end Refresh

section Keep

variable {callback callback' : κ} {report : IncrementalRouteUpdateReport}

theorem paths_inserted (hranked : ∀ path quote,
      session.routeTable.lookup path = some (.quoted quote) → quote.path = path)
    (quoteCache : SharedQuoteCache) (failed : List RoutePath) (quotes : List RouteQuote)
    (path : RoutePath) (quote : RouteQuote)
    (hlookup : (session.inserted call.searcher quoteCache failed quotes).routeTable.lookup
      path = some (.quoted quote)) : quote.path = path := by
  obtain ⟨other, _, hpath, hfound⟩ | ⟨_, hfound⟩ :=
    @lookup_inserted G session call quoteCache failed quotes path
  · rw [hlookup, Option.some.injEq, RouteSessionEntry.quoted.injEq] at hfound
    exact hfound ▸ hpath
  · rw [hlookup] at hfound
    split at hfound
    · cases hfound
    · exact hranked path quote hfound.symm

/-- Whatever its callback answers, a refresh leaves the best quote of its table. -/
theorem Ranked.refreshAffected (hranked : session.Ranked)
    (hrun : session.refreshAffected call onEvent callback = some (next, callback', report)) :
    next.Ranked := by
  cases hstarted : (onEvent callback (.started call.affected.pools)).2 with
  | stop =>
      rw [refreshAffected_refused hstarted, Option.some.injEq] at hrun
      cases hrun
      exact hranked
  | «continue» =>
      obtain ⟨_, reason, hresult⟩ | ⟨_, _, hresult⟩ | ⟨_, hresult⟩ :=
        @refreshAffected_cases G κ session call onEvent callback hstarted
      · rw [hresult, Option.some.injEq] at hrun
        cases hrun
        exact hranked
      · rw [hresult, Option.some.injEq] at hrun
        cases hrun
        exact hranked
      · rw [hresult] at hrun
        obtain ⟨quoteCache, failed, quotes, probeCache, probes, count, quoted, hfinish, _⟩ :=
          @requote_inserted G κ session call onEvent (fun _ => True) _
            (fun _ _ _ _ => trivial) trivial _ hrun
        have hnext := congrArg Prod.fst hfinish
        rw [show next = _ from hnext]
        constructor
        · apply paths_inserted (paths_inserted _ quoteCache failed quotes)
          exact hranked.paths
        · exact bestFromTable_spec _ call.pathOrder

end Keep

section Idle

variable {callback callback' : κ}

/-- Between refreshes no hop of the session is being quoted. -/
structure Idle (session : RouteSearchSession) : Prop where
  filed : session.quoteCache.Filed
  settled : Settled SharedQuoteCache.table (fun _ _ => True) session.quoteCache

theorem Idle.of_quoteCache (hidle : session.Idle)
    (hcache : next.quoteCache = session.quoteCache) : next.Idle :=
  ⟨hcache ▸ hidle.filed, hcache ▸ hidle.settled⟩

theorem Idle.invalidated (hidle : session.Idle) (call : RefreshCall G) :
    (session.invalidated call).Idle := by
  refine ⟨(hidle.filed.invalidatePools _).1, ?_, fun _ _ _ => trivial⟩
  intro key
  unfold RouteSearchSession.invalidated
  rw [slot_invalidatePools hidle.filed]
  split
  · simp
  · exact hidle.settled.idle key

/-- A quoting loop comes to its end and leaves no mark. -/
theorem Idle.quotePaths (hidle : session.Idle) (event : RouteQuote → RouteUpdateEvent)
    (paths : List RoutePath) (callback : κ) :
    ∃ report quoteCache, session.quotePaths call onEvent event paths callback =
        some (report, quoteCache) ∧
      Idle { session with quoteCache := quoteCache } := by
  obtain ⟨report, quoteCache, hrun, _, hsettled, hfiled⟩ :=
    SharedQuoteCache.runProgram_spec hidle.filed hidle.settled (Program.meets_true _)
  exact ⟨report, quoteCache, hrun, hfiled, hsettled⟩

theorem Idle.requoteRoutes (hidle : session.Idle) (paths : List RoutePath) (callback : κ) :
    ∃ requoted callback' count,
      session.requoteRoutes call onEvent paths callback = some (requoted, callback', count) ∧
      requoted.Idle := by
  unfold RouteSearchSession.requoteRoutes
  split
  · exact ⟨_, _, _, rfl, hidle⟩
  · obtain ⟨report, quoteCache, hrun, hafter⟩ :=
      @Idle.quotePaths G κ session call onEvent hidle .routeRequoted paths callback
    rw [hrun]
    refine ⟨_, _, _, rfl, hafter.of_quoteCache ?_⟩
    exact quoteCache_insertQuotes.trans
      (quoteCache_insertFailures.trans quoteCache_insertFailures)

theorem Idle.quoteProbes (hidle : session.Idle) (paths : List RoutePath) (callback : κ) :
    ∃ probed callback' count,
      session.quoteProbes call onEvent paths callback = some (probed, callback', count) ∧
      probed.Idle := by
  unfold RouteSearchSession.quoteProbes
  split
  · exact ⟨_, _, _, rfl, hidle⟩
  · obtain ⟨report, quoteCache, hrun, hafter⟩ :=
      @Idle.quotePaths G κ session call onEvent hidle .probeRouteFound paths callback
    rw [hrun]
    exact ⟨_, _, _, rfl, hafter.of_quoteCache quoteCache_insertQuotes⟩

/-- A refresh of an idle session has a result, and leaves it idle. -/
theorem Idle.refreshAffected (hidle : session.Idle) (call : RefreshCall G)
    (onEvent : RouteUpdateCallback κ) (callback : κ) :
    ∃ next callback' report, session.refreshAffected call onEvent callback =
        some (next, callback', report) ∧ next.Idle := by
  cases hstarted : (onEvent callback (.started call.affected.pools)).2 with
  | stop => exact ⟨_, _, _, refreshAffected_refused hstarted, hidle⟩
  | «continue» =>
      obtain ⟨_, reason, hrun⟩ | ⟨_, _, hrun⟩ | ⟨_, hrun⟩ :=
        @refreshAffected_cases G κ session call onEvent callback hstarted
      · exact ⟨_, _, _, hrun, hidle⟩
      · exact ⟨_, _, _, hrun, hidle⟩
      · obtain ⟨requoted, first, count, hroutes, hrequoted⟩ :=
          @Idle.requoteRoutes G κ _ call onEvent (hidle.invalidated call)
            (call.searcher.sortedPaths call.pathOrder (session.materializedPaths call))
            (onEvent callback (.started call.affected.pools)).1
        obtain ⟨probed, second, probes, hprobes, hprobed⟩ :=
          @Idle.quoteProbes G κ _ call onEvent hrequoted
            (call.searcher.sortedPaths call.pathOrder (session.probePaths call)) first
        have hrequote : session.requote call onEvent
            (onEvent callback (.started call.affected.pools)).1 =
            some (finishRefresh probed call onEvent session.best count probes second) := by
          unfold requote
          simp only [hroutes, bind, Option.bind, hprobes]
        exact ⟨_, _, _, hrun.trans hrequote, hprobed.of_quoteCache rfl⟩

end Idle

end RouteSearchSession

section Sessions

variable (G : Type) [StableDiGraph G Address EdgeData]

/-- The sessions of a run: new ones, and those that any refresh leaves. -/
inductive Held : RouteSearchSession → Prop
  | start {searcher : AmmSearcher G} {request : RouteRequest}
      {streaming : StreamingSearchConfig} {schedule : List FanIn.Event} {κ : Type}
      {onEvent : EventCallback κ} {quoteCache : SharedQuoteCache} {callback callback' : κ}
      {session : RouteSearchSession}
      (hstart : searcher.startRouteSession request streaming schedule onEvent quoteCache
        callback = (callback', .ok session)) : Held session
  | refresh {session next : RouteSearchSession} {call : RefreshCall G} {κ : Type}
      {onEvent : RouteUpdateCallback κ} {callback callback' : κ}
      {report : IncrementalRouteUpdateReport} (hsession : Held session)
      (hrefresh : session.refreshAffected call onEvent callback =
        some (next, callback', report)) : Held next

variable {G} {session : RouteSearchSession}

theorem ranked_startRouteSession {searcher : AmmSearcher G} {request : RouteRequest}
    {streaming : StreamingSearchConfig} {schedule : List FanIn.Event} {κ : Type}
    {onEvent : EventCallback κ} {quoteCache : SharedQuoteCache} {callback callback' : κ}
    (hstart : searcher.startRouteSession request streaming schedule onEvent quoteCache
      callback = (callback', .ok session)) : session.Ranked := by
  unfold AmmSearcher.startRouteSession at hstart
  rw [Prod.mk.injEq] at hstart
  obtain ⟨_, hresult⟩ := hstart
  cases hrun : (searcher.streamRoutesParallelWithCache request
      { streaming with emitAllViable := true } schedule onEvent none callback).2 with
  | error error =>
      rw [hrun] at hresult
      cases hresult
  | ok run =>
      rw [hrun] at hresult
      obtain rfl := Except.ok.inj hresult
      obtain ⟨hbest, hquotes⟩ := AmmSearcher.streamRoutes_reportsQuotes request
        { streaming with emitAllViable := true } schedule onEvent none callback run hrun
      have hexact := @exact_sessionFromRun G searcher request streaming quoteCache run hbest
        hquotes
      refine ⟨?_, hexact.best⟩
      intro path quote hlookup
      rw [sessionFromRun_eq hbest] at hlookup
      obtain ⟨found, _, hpath, hfound⟩ | ⟨_, hfound⟩ := @RouteSearchSession.lookup_insertQuotes
        G searcher (searcher.emptySession request streaming quoteCache run) run.quotes path
      · rw [hlookup, Option.some.injEq, RouteSessionEntry.quoted.injEq] at hfound
        exact hfound ▸ hpath
      · rw [hlookup, lookup_emptySession] at hfound
        cases hfound

theorem Held.ranked (hheld : Held G session) : session.Ranked := by
  induction hheld with
  | start hstart => exact ranked_startRouteSession hstart
  | refresh _ hrefresh ih => exact ih.refreshAffected hrefresh

/-- In every session, a refresh that always continues and changes nothing keeps the best
route and announces none exactly when it quotes nothing, or no route that ties with the best
one follows it in the iteration order of the table.  While no hop is being quoted, the refresh
has a result. -/
theorem held_keepsBest_iff (hheld : Held G session) {call : RefreshCall G} {κ : Type}
    {onEvent : RouteUpdateCallback κ}
    (hcontinue : ∀ callback event, (onEvent callback event).2 = .continue) (callback : κ) :
    (session.Idle → ∃ next logged report,
      session.refreshAffected call (loggedUpdates onEvent) (callback, []) =
        some (next, logged, report) ∧ next.Idle) ∧
    ∀ next callback' log report,
      session.refreshAffected call (loggedUpdates onEvent) (callback, []) =
        some (next, (callback', log), report) →
      session.ChangesNothing call next report →
      ((next.best = session.best ∧ log.Quiet) ↔
        session.QuotesNothing call ∨ session.BestComesLast call.pathOrder) :=
  ⟨fun hidle => hidle.refreshAffected call (loggedUpdates onEvent) (callback, []),
    fun _ _ _ _ hrun hnothing =>
      hheld.ranked.keepsBest_iff (hcontinue callback _) hrun hnothing⟩

end Sessions

namespace RoundTripExample

/-- A refresh that names both pools, although nothing has changed. -/
def steadyCall : RefreshCall (SlotGraph Address EdgeData) :=
  { bothPoolsCall with searcher := searcher }

/-- The same refresh over a table that is walked the other way. -/
def reversedCall : RefreshCall (SlotGraph Address EdgeData) :=
  { steadyCall with
    pathOrder :=
      { list := fun paths => (pathOrder.list paths).reverse
        mem_list := fun paths path => List.mem_reverse.trans (pathOrder.mem_list paths path)
        nodup_list := fun paths => List.nodup_reverse.mpr (pathOrder.nodup_list paths) } }

/-- What a refresh of the new session shows: the best paths before and after, whether the
entries are kept, whether the table gives the same best quote, whether another one is
announced, and the number of probes. -/
def steadyOutcome (call : RefreshCall (SlotGraph Address EdgeData)) :
    Option (Option RoutePath × Option RoutePath × Bool × Bool × Bool × ℕ) :=
  startedSession.2.toOption.bind fun start =>
    (start.refreshAffected call (loggedUpdates fun (_ : Unit) _ => ((), .continue))
      ((), [])).map fun (next, (_, log), report) =>
        (start.best.map RouteQuote.path, next.best.map RouteQuote.path,
          decide (∀ path ∈ start.materializedPaths call,
            next.routeTable.lookup path = start.routeTable.lookup path),
          decide (start.bestFromTable call.pathOrder = start.best),
          log.any fun entry => entry.1.changesBest, report.probeRoutesQuoted)

theorem changesNothing_of_steadyOutcome {call : RefreshCall (SlotGraph Address EdgeData)}
    {before after : Option RoutePath} {same changes : Bool}
    (houtcome : steadyOutcome call = some (before, after, true, same, changes, 0)) :
    ∃ start next callback log report, startedSession = ((), .ok start) ∧
      start.refreshAffected call (loggedUpdates fun (_ : Unit) _ => ((), .continue))
        ((), []) = some (next, (callback, log), report) ∧
      start.ChangesNothing call next report ∧ start.best.map RouteQuote.path = before ∧
      next.best.map RouteQuote.path = after ∧
      decide (start.bestFromTable call.pathOrder = start.best) = same ∧
      (log.any fun entry => entry.1.changesBest) = changes := by
  unfold steadyOutcome at houtcome
  cases hstart : startedSession with
  | mk callback outcome =>
      rw [hstart] at houtcome
      cases outcome with
      | error error => cases houtcome
      | ok start =>
          change (start.refreshAffected call _ _).map _ = _ at houtcome
          obtain ⟨⟨next, ⟨callback', log⟩, report⟩, hrefresh, hshown⟩ :=
            Option.map_eq_some_iff.mp houtcome
          simp only [Prod.mk.injEq] at hshown
          obtain ⟨hbefore, hafter, hroutes, hsame, hchanges, hprobes⟩ := hshown
          exact ⟨start, next, callback', log, report, rfl, hrefresh,
            ⟨of_decide_eq_true hroutes, hprobes⟩, hbefore, hafter, hsame, hchanges⟩

/-- When the second pool follows the first one, the refresh announces it. -/
theorem not_keepsBest_steadyCall :
    ∃ start next callback log report, startedSession = ((), .ok start) ∧
      start.refreshAffected steadyCall (loggedUpdates fun (_ : Unit) _ => ((), .continue))
        ((), []) = some (next, (callback, log), report) ∧
      start.ChangesNothing steadyCall next report ∧
      start.best.map RouteQuote.path = some [⟨firstPool, 1, 2⟩] ∧
      next.best.map RouteQuote.path = some secondPath ∧ ¬log.Quiet := by
  have houtcome : steadyOutcome steadyCall =
      some (some [⟨firstPool, 1, 2⟩], some secondPath, true, false, true, 0) := by
    decide +kernel
  obtain ⟨start, next, callback, log, report, hstart, hrefresh, hnothing, hbefore, hafter, _,
    hchanges⟩ := changesNothing_of_steadyOutcome houtcome
  refine ⟨start, next, callback, log, report, hstart, hrefresh, hnothing, hbefore, hafter, ?_⟩
  intro hquiet
  obtain ⟨entry, hentry, hannounces⟩ := List.any_eq_true.mp hchanges
  rw [hquiet entry hentry] at hannounces
  cases hannounces

/-- When the first pool comes last, the refresh keeps it. -/
theorem keepsBest_reversedCall :
    ∃ start next callback log report, startedSession = ((), .ok start) ∧
      start.refreshAffected reversedCall (loggedUpdates fun (_ : Unit) _ => ((), .continue))
        ((), []) = some (next, (callback, log), report) ∧
      start.ChangesNothing reversedCall next report ∧
      next.best = start.best ∧ log.Quiet := by
  have houtcome : steadyOutcome reversedCall =
      some (some [⟨firstPool, 1, 2⟩], some [⟨firstPool, 1, 2⟩], true, true, false, 0) := by
    decide +kernel
  obtain ⟨start, next, callback, log, report, hstart, hrefresh, hnothing, _, _, hsame, _⟩ :=
    changesNothing_of_steadyOutcome houtcome
  refine ⟨start, next, callback, log, report, hstart, hrefresh, hnothing, ?_⟩
  have hheld : Held (SlotGraph Address EdgeData) start :=
    @Held.start (SlotGraph Address EdgeData) _ searcher narrowRequest streaming
      [.work 1 true, .work 0 true, .receive] Unit (fun _ _ => ((), .continue))
      (streamCache directPrograms [0, 1, 0, 1]) () () start hstart
  have hlast : start.BestComesLast reversedCall.pathOrder :=
    (hheld.ranked.bestFromTable_iff _).mp (of_decide_eq_true hsame)
  exact ((@held_keepsBest_iff (SlotGraph Address EdgeData) _ start hheld reversedCall Unit
    (fun _ _ => ((), .continue)) (fun _ _ => rfl) ()).2 next callback log report hrefresh
    hnothing).mpr (Or.inr hlast)

end RoundTripExample

end AmmSearch
