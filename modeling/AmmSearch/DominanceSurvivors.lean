/-
Which prefixes survive dominance.  What displaces what, and the order in which
a pass comes to the prefixes, determine the survivors; the search with
dominance expands them and nothing else, so it keeps the best amount exactly
when the fast lane has a best route or a survivor closes one.
-/
import AmmSearch.HeuristicDominance
import AmmSearch.Pareto

open FiniteMap StableGraph

namespace AmmSearch

/-- Two elements of a list stand in one order or the other. -/
theorem sublist_or_of_mem {α : Type} {items : List α} {left right : α}
    (hleft : left ∈ items) (hright : right ∈ items) (hne : left ≠ right) :
    [left, right].Sublist items ∨ [right, left].Sublist items := by
  obtain ⟨front, back, rfl⟩ := List.append_of_mem hleft
  rcases List.mem_append.mp hright with hfront | hback
  · exact Or.inr ((List.singleton_sublist.mpr hfront).append
      (List.singleton_sublist.mpr List.mem_cons_self))
  · have hlater : right ∈ back := (List.mem_cons.mp hback).resolve_left hne.symm
    exact Or.inl (((List.singleton_sublist.mpr hlater).cons_cons left).trans
      (List.sublist_append_right front _))

namespace AmmSearcher

variable {G : Type} [StableDiGraph G Address EdgeData] (searcher : AmmSearcher G)
  (context : HeuristicContext)

/-- The initial pass comes to `other` before it comes to `path`. -/
def Sooner (other path : RoutePath) : Prop :=
  ∃ parent origin hop last, searcher.Sound context parent ∧
    searcher.Sound context origin ∧ other = parent.path ++ [hop] ∧
    path = origin.path ++ [last] ∧
    searcher.Precedes context .initial parent hop origin last

/-- A prefix that can be quoted and completed, one hop beyond a kept one. -/
structure Generated (kept : RoutePath → Prop) (path : RoutePath) : Prop where
  quoted : ∃ amount, searcher.QuotedPrefix context.problem path amount
  completable : searcher.Completable context path
  parent : ∃ part hop, path = part ++ [hop] ∧ (part = [] ∨ kept part)

/-- The prefixes that survive dominance. -/
def Survivors (kept : RoutePath → Prop) : Prop :=
  Pareto.Survivors (searcher.Generated context) (searcher.Displaces context.problem)
    (searcher.Sooner context) kept

/-- The sort keys tell the prefixes of the problem apart. -/
def DistinctKeys (problem : RouteProblem) : Prop :=
  ∀ path other amount amount', searcher.QuotedPrefix problem path amount →
    searcher.QuotedPrefix problem other amount' →
    searcher.routePathSortKey path = searcher.routePathSortKey other → path = other

variable {searcher context}

omit [StableDiGraph G Address EdgeData] in
theorem routePathSortKey_cons (hop : Hop) (rest : RoutePath) :
    searcher.routePathSortKey (hop :: rest) = searcher.hopSortKey hop ++
      if rest = [] then [] else '|' :: searcher.routePathSortKey rest := by
  cases rest with
  | nil => simp [routePathSortKey]
  | cons next rest => simp [routePathSortKey]

omit [StableDiGraph G Address EdgeData] in
/-- Hop keys of one length that tell hops apart tell paths apart. -/
theorem eq_of_routePathSortKey_eq {length : ℕ} (hpos : 0 < length) {path other : RoutePath}
    (hpath : ∀ hop ∈ path, (searcher.hopSortKey hop).length = length)
    (hother : ∀ hop ∈ other, (searcher.hopSortKey hop).length = length)
    (hinj : ∀ hop ∈ path, ∀ last ∈ other,
      searcher.hopSortKey hop = searcher.hopSortKey last → hop = last)
    (hkey : searcher.routePathSortKey path = searcher.routePathSortKey other) :
    path = other := by
  have hnonempty : ∀ hop rest, (searcher.hopSortKey hop).length = length →
      searcher.routePathSortKey (hop :: rest) ≠ searcher.routePathSortKey [] := by
    intro hop rest hlength hempty
    rw [routePathSortKey_cons] at hempty
    rw [(List.append_eq_nil_iff.mp hempty).1] at hlength
    exact hpos.ne hlength
  induction path generalizing other with
  | nil =>
      cases other with
      | nil => rfl
      | cons last others =>
          exact absurd hkey.symm (hnonempty last others (hother last List.mem_cons_self))
  | cons hop rest ih =>
      cases other with
      | nil => exact absurd hkey (hnonempty hop rest (hpath hop List.mem_cons_self))
      | cons last others =>
          rw [routePathSortKey_cons, routePathSortKey_cons] at hkey
          obtain ⟨hhead, htail⟩ := List.append_inj hkey
            ((hpath hop List.mem_cons_self).trans (hother last List.mem_cons_self).symm)
          obtain rfl := hinj hop List.mem_cons_self last List.mem_cons_self hhead
          have hrest : rest = others := by
            by_cases hempty : rest = []
            · by_cases hempty' : others = []
              · rw [hempty, hempty']
              · simp [hempty, hempty'] at htail
            · by_cases hempty' : others = []
              · simp [hempty, hempty'] at htail
              · rw [if_neg hempty, if_neg hempty'] at htail
                exact ih (fun hop hhop => hpath hop (List.mem_cons_of_mem _ hhop))
                  (fun hop hhop => hother hop (List.mem_cons_of_mem _ hhop))
                  (fun hop hhop last hlast => hinj hop (List.mem_cons_of_mem _ hhop) last
                    (List.mem_cons_of_mem _ hlast)) (List.cons.inj htail).2
          rw [hrest]

section Order

variable (hresolved : context.Resolved searcher.graph)

include hresolved

theorem not_rankedBefore {mode : HeuristicPassMode} {state : HeuristicState}
    {left right : Hop} (hbefore : searcher.RankedBefore context mode state left right) :
    ¬ searcher.RankedBefore context mode state right left := by
  rintro ⟨other, hother, hback⟩
  obtain ⟨group, hgroup, hranked⟩ := hbefore
  obtain rfl : other = group := group_eq_of_nextToken hother hgroup
    ((considers_nextToken hother (hback.mem (List.mem_cons_self : right ∈ _))).symm.trans
      (considers_nextToken hgroup (hranked.mem (by simp))))
  exact not_sublist_swap (nodup_consideredHops hresolved hgroup) hranked hback

theorem Sooner.asymm {left right : RoutePath} (hleft : searcher.Sooner context left right) :
    ¬ searcher.Sooner context right left := by
  rintro ⟨parent', origin', hop', last', hparent', horigin', hpath', hother', hback⟩
  obtain ⟨parent, origin, hop, last, hparent, horigin, rfl, rfl, hbefore⟩ := hleft
  obtain ⟨hpath, hlast⟩ := List.append_inj' hpath' rfl
  obtain ⟨hother, hhop⟩ := List.append_inj' hother' rfl
  obtain rfl := horigin.eq_of_path_eq hparent' hpath
  obtain rfl := hparent.eq_of_path_eq horigin' hother
  obtain rfl := List.singleton_inj.mp hlast
  obtain rfl := List.singleton_inj.mp hhop
  rcases hbefore with hahead | ⟨rfl, hranked⟩
  · rcases hback with hahead' | ⟨rfl, _⟩
    · rcases not_ahead_or parent origin with hfree | hfree
      · exact hfree hahead'
      · exact hfree hahead
    · exact not_ahead_self _ hahead
  · rcases hback with hahead | ⟨_, hranked'⟩
    · exact not_ahead_self _ hahead
    · exact not_rankedBefore hresolved hranked hranked'

/-- What survives dominance is determined. -/
theorem Survivors.unique {kept kept' : RoutePath → Prop}
    (hkept : searcher.Survivors context kept) (hkept' : searcher.Survivors context kept')
    (path : RoutePath) : kept path ↔ kept' path := by
  refine Pareto.Survivors.unique (fun _ _ h => h.length_le)
    (fun _ _ _ hleft hright => hleft.trans hright)
    (fun _ _ hleft => hleft.asymm hresolved) ?_ hkept hkept' path
  rintro kept kept' path hsmaller ⟨hquoted, hcompletable, part, hop, rfl, hpart⟩
  exact ⟨hquoted, hcompletable, part, hop, rfl, hpart.imp_right (hsmaller part (by simp))⟩

omit hresolved in
/-- A pass comes to one of two prefixes to the same token first. -/
theorem precedes_or (hkeys : searcher.DistinctKeys context.problem)
    {parent origin : HeuristicState} (hparent : searcher.Sound context parent)
    (horigin : searcher.Sound context origin)
    (hlength : parent.path.length = origin.path.length) {mode : HeuristicPassMode}
    {hop last : Hop} (hconsiders : searcher.Considers context mode parent hop)
    (hconsiders' : searcher.Considers context mode origin last)
    (htoken : hop.tokenOut = last.tokenOut)
    (hne : parent.path ++ [hop] ≠ origin.path ++ [last]) :
    searcher.Precedes context mode parent hop origin last ∨
      searcher.Precedes context mode origin last parent hop := by
  by_cases hsame : parent = origin
  · subst hsame
    obtain ⟨group, hgroup, hhop⟩ := hconsiders
    obtain ⟨other, hother, hlast⟩ := hconsiders'
    obtain rfl : other = group := by
      refine group_eq_of_nextToken hother hgroup ?_
      rw [← considers_nextToken hgroup hhop, ← considers_nextToken hother hlast, htoken]
    have hdifferent : hop ≠ last := by
      rintro rfl
      exact hne rfl
    rcases sublist_or_of_mem hhop hlast hdifferent with hranked | hranked
    · exact Or.inl (Or.inr ⟨rfl, other, hgroup, hranked⟩)
    · exact Or.inr (Or.inr ⟨rfl, other, hgroup, hranked⟩)
  · have hpaths : parent.path ≠ origin.path := fun hpath =>
      hsame (hparent.eq_of_path_eq horigin hpath)
    have hnonempty : parent.path ≠ [] := by
      intro hempty
      rw [hempty, List.length_nil] at hlength
      exact hpaths (hempty.trans (List.length_eq_zero_iff.mp hlength.symm).symm)
    have hnonempty' : origin.path ≠ [] := by
      intro hempty
      rw [hempty, List.length_nil] at hlength
      exact hnonempty (List.length_eq_zero_iff.mp hlength)
    have hkey : searcher.routePathSortKey parent.path ≠
        searcher.routePathSortKey origin.path := fun hkey =>
      hpaths (hkeys _ _ _ _ (hparent.quotedPrefix hnonempty)
        (horigin.quotedPrefix hnonempty') hkey)
    rcases lt_trichotomy parent.amount origin.amount with hless | heq | hmore
    · exact Or.inr (Or.inl (Or.inl hless))
    · rcases lt_or_gt_of_ne hkey with hfirst | hfirst
      · exact Or.inl (Or.inl (Or.inr ⟨heq, hfirst⟩))
      · exact Or.inr (Or.inl (Or.inr ⟨heq.symm, hfirst⟩))
    · exact Or.inl (Or.inl (Or.inl hmore))

end Order

section Pass

variable {σ : Type} {onQuote : σ → RouteQuote → σ × Bool}
  {start final : HeuristicRun σ} {expanded : HeuristicState → Prop}
  (hresolved : context.Resolved searcher.graph)
  (hne : context.tokenIn ≠ context.tokenOut)
  (hdom : context.heuristic.prefixDominance = true)
  (hstart : start.prefixDominance = .empty)
  (hshort : context.heuristic.edgeShortlist.enabled = false)
  (hkeys : searcher.DistinctKeys context.problem)
  (hpass : searcher.PassCovers context onQuote .initial 0 [context.rootState] start final
    expanded)

theorem not_mem_root {state : HeuristicState} (hpath : state.path ≠ []) :
    state ∉ [context.rootState] := by
  intro hroot
  obtain rfl := List.mem_singleton.mp hroot
  exact hpath rfl

include hpass

/-- An expanded prefix was generated from an expanded one. -/
theorem PassCovers.generates {state : HeuristicState} (hstate : expanded state)
    (hpath : state.path ≠ []) :
    ∃ parent, expanded parent ∧ ∃ hop, state.path = parent.path ++ [hop] ∧
      searcher.Generates context .initial parent hop state := by
  rcases hpass.parent state hstate with hroot | ⟨parent, hparent, hop, heq, hconsiders⟩
  · exact absurd hroot (not_mem_root hpath)
  · have hsound := hpass.sound state hstate
    have hparentSound := hpass.sound parent hparent
    have hopen := hsound.isOpen
    rw [heq] at hopen
    have hextends := (HeuristicContext.isOpen_append_singleton.mp hopen).2
    have hyields := hsound.yields
    rw [heq] at hyields
    obtain ⟨before, hbefore, hquote⟩ := yields_append_singleton.mp hyields
    rw [← hparentSound.yields.unique hbefore] at hquote
    have hnode := hsound.node
    rw [heq, endToken_append_singleton] at hnode
    have hroom := hpass.room state hstate
    rw [heq, List.length_append, List.length_singleton] at hroom
    have hnext : searcher.Sound context (nextState parent state.node ⟨hop, state.amount⟩) :=
      hparentSound.nextState hextends hquote hnode
    exact ⟨parent, hparent, hop, heq, hconsiders, hquote, hextends.2.2.1, hroom,
      state.node, hnode, hsound.eq_of_path_eq hnext heq⟩

include hresolved hne hdom hkeys

omit hne in
/-- An expanded prefix that has the label of another one came first. -/
theorem PassCovers.path_eq_of_label_eq {state other : HeuristicState}
    (hstate : expanded state) (hpath : state.path ≠ []) (hother : expanded other)
    (hpath' : other.path ≠ [])
    (hend : endToken context.tokenIn other.path = endToken context.tokenIn state.path)
    (hlabel : searcher.label context other = searcher.label context state) :
    other.path = state.path := by
  obtain ⟨parent, hparent, hop, hparentPath, hgenerates⟩ := hpass.generates hother hpath'
  obtain ⟨origin, horigin, last, horiginPath, hgenerates'⟩ := hpass.generates hstate hpath
  by_contra hdifferent
  rw [hparentPath, horiginPath] at hdifferent hend
  rw [endToken_append_singleton, endToken_append_singleton] at hend
  have hlength := hgenerates.length_eq hresolved (hpass.sound parent hparent)
    (hpass.sound other hother) rfl
  have hlength' := hgenerates.length_eq hresolved (hpass.sound parent hparent)
    (hpass.sound state hstate) hlabel
  have hlength'' := hgenerates'.length_eq hresolved (hpass.sound origin horigin)
    (hpass.sound state hstate) rfl
  rcases precedes_or hkeys (hpass.sound parent hparent)
      (hpass.sound origin horigin) (by omega) hgenerates.considers hgenerates'.considers hend
      hdifferent with hfirst | hfirst
  · exact hpass.first hdom state hstate (not_mem_root hpath) parent hparent hop other
      hgenerates hlabel (by rw [horiginPath, endToken_append_singleton, hend]) origin horigin
      last horiginPath hfirst
  · exact hpass.first hdom other hother (not_mem_root hpath') origin horigin last state
      hgenerates' hlabel.symm (by rw [hparentPath, endToken_append_singleton, hend]) parent
      hparent hop hparentPath hfirst

include hstart hshort

/-- The expanded prefixes survive dominance. -/
theorem PassCovers.survivors : searcher.Survivors context fun path =>
    path ≠ [] ∧ ∃ state, expanded state ∧ state.path = path where
  offered := by
    rintro path ⟨hpath, state, hstate, rfl⟩
    obtain ⟨parent, hparent, hop, heq, _⟩ := hpass.generates hstate hpath
    refine ⟨⟨_, (hpass.sound state hstate).quotedPrefix hpath⟩,
      hpass.completable hresolved hstate hpath, parent.path, hop, heq, ?_⟩
    by_cases hempty : parent.path = []
    · exact Or.inl hempty
    · exact Or.inr ⟨hempty, parent, hparent, rfl⟩
  covered := by
    rintro path ⟨⟨amount, hquoted⟩, hcompletable, part, hop, rfl, hpart⟩
    obtain ⟨state, hstate, rfl⟩ : ∃ state, expanded state ∧ state.path = part := by
      rcases hpart with rfl | ⟨_, hkept⟩
      · exact ⟨context.rootState, hpass.begins _ (List.mem_singleton_self _), rfl⟩
      · exact hkept
    have hsound := hpass.sound state hstate
    obtain ⟨_, hextends, hoffers, hroom⟩ := hcompletable.split
    obtain ⟨before, hbefore, hquote⟩ := yields_append_singleton.mp hquoted.yields
    rw [← hsound.yields.unique hbefore] at hquote
    obtain ⟨next, hgenerates, hpath, hlabel⟩ := hpass.exists_label hresolved hdom hstate
      (hpass.considers hresolved hshort hstate hoffers) hquote hextends hroom
    have hnext := hgenerates.sound hresolved hsound
    have hnextPath : next.path ≠ [] := by simp [hpath]
    rcases hlabel with ⟨label, hlabel, _⟩ | ⟨better, hbetter, hend, hdominates⟩
    · rw [hstart, PrefixDominanceIndex.labelsAt_empty] at hlabel
      cases hlabel
    · have hbetterSound := hpass.sound better hbetter
      have hbetterPath : better.path ≠ [] := by
        intro hempty
        rw [hempty, endToken_nil] at hend
        exact hextends.2.1 (hend ▸ List.mem_cons_self)
      have hsame : endToken context.tokenIn better.path =
          endToken context.tokenIn next.path := by
        rw [hend, hpath, endToken_append_singleton]
      refine ⟨better.path, ⟨hbetterPath, better, hbetter, rfl⟩, ?_, ?_⟩
      · rw [← hpath]
        exact (dominates_iff_displaces hresolved hne hnext hnextPath hbetterSound hbetterPath
          hsame).mp hdominates
      · intro hback
        rw [← hpath] at hback ⊢
        have hequal : searcher.label context next = searcher.label context better :=
          PrefixLabel.dominates_antisymm ((dominates_iff_displaces hresolved hne hbetterSound
            hbetterPath hnext hnextPath hsame.symm).mpr hback) hdominates
        by_cases heq : better.path = next.path
        · exact Or.inl heq
        · obtain ⟨origin, horigin, last, horiginPath, hgenerates'⟩ :=
            hpass.generates hbetter hbetterPath
          have horiginSound := hpass.sound origin horigin
          have hlength := hgenerates.length_eq hresolved hsound hbetterSound hequal
          have hlength' := hgenerates'.length_eq hresolved horiginSound hbetterSound rfl
          have htoken := hsame
          rw [horiginPath, hpath, endToken_append_singleton, endToken_append_singleton]
            at htoken
          refine Or.inr ⟨origin, state, last, hop, horiginSound, hsound, horiginPath, hpath,
            ?_⟩
          refine (precedes_or hkeys horiginSound hsound (by omega)
            hgenerates'.considers hgenerates.considers htoken ?_).resolve_right ?_
          · rw [← horiginPath, ← hpath]
            exact heq
          · exact hpass.first hdom better hbetter (not_mem_root hbetterPath) state hstate hop
              next hgenerates hequal hend.symm origin horigin last horiginPath
  free := by
    rintro path other ⟨hpath, state, hstate, rfl⟩ ⟨hpath', better, hbetter, rfl⟩ hdisplaces
    have hend : endToken context.tokenIn better.path =
        endToken context.tokenIn state.path := by
      obtain ⟨_, _, _, _, houtdoes, _⟩ := hdisplaces
      exact houtdoes.token
    have hdominates := (dominates_iff_displaces hresolved hne (hpass.sound state hstate)
      hpath (hpass.sound better hbetter) hpath' hend).mpr hdisplaces
    rcases Nat.lt_or_eq_of_le hdisplaces.length_le with hshorter | hlength
    · have hfree := hpass.order hdom state hstate (not_mem_root hpath) better hbetter hpath'
        hshorter hend
      rw [hdominates] at hfree
      cases hfree
    · exact hpass.path_eq_of_label_eq hresolved hdom hkeys hstate hpath hbetter hpath'
        hend (hpass.undominated hdom state hstate (not_mem_root hpath) better hbetter hlength
          hend hdominates)

end Pass

/-- Some best route is a candidate of the fast lane, or closes a direct hop or a
prefix that survives dominance. -/
def BestSurvives (searcher : AmmSearcher G) (request : RouteRequest)
    (heuristic : HeuristicSearchConfig) : Prop :=
  ∃ source target kept path amount,
    searcher.graph.nodeIndex request.tokenIn = some source ∧
    searcher.graph.nodeIndex request.tokenOut = some target ∧
    searcher.Survivors (searcher.dominanceContext request heuristic true source target)
      kept ∧
    searcher.BestRoute (searcher.routeProblem request heuristic) path amount ∧
    (searcher.FastLanePath
        (searcher.dominanceContext request heuristic true source target) path ∨
      ∃ part hop, path = part ++ [hop] ∧ (part = [] ∨ kept part))

variable {request : RouteRequest} {heuristic : HeuristicSearchConfig}
  {source target : NodeIndex}

section Requests

variable {start final : HeuristicRun Unit} {expanded : HeuristicState → Prop}
  (hne : request.tokenIn ≠ request.tokenOut)
  (hshort : heuristic.edgeShortlist.enabled = false)
  (hkeys : searcher.DistinctKeys (searcher.routeProblem request heuristic))
  (hpass : searcher.DominancePass request heuristic true source target start final expanded)

include hne hshort hkeys hpass

/-- What the search with dominance finds comes from the fast lane or closes a
survivor. -/
theorem DominancePass.exists_survivor {quote : RouteQuote} (hquote : quote ∈ final.quotes) :
    ∃ kept, searcher.Survivors
        (searcher.dominanceContext request heuristic true source target) kept ∧
      (searcher.FastLanePath
          (searcher.dominanceContext request heuristic true source target) quote.path ∨
        ∃ part hop, quote.path = part ++ [hop] ∧ (part = [] ∨ kept part)) := by
  refine ⟨_, hpass.covers.survivors hpass.resolved hne rfl hpass.index hshort hkeys, ?_⟩
  rcases hpass.covers.origin quote hquote with hlane | ⟨state, hstate, hop, hpath, _⟩
  · exact Or.inl (hpass.laneOrigin quote hlane)
  · refine Or.inr ⟨state.path, hop, hpath, ?_⟩
    by_cases hempty : state.path = []
    · exact Or.inl hempty
    · exact Or.inr ⟨hempty, state, hstate, rfl⟩

/-- A route of the fast lane and one that closes a survivor are found. -/
theorem DominancePass.exists_quote_of_survivor {kept : RoutePath → Prop}
    (hkept : searcher.Survivors
      (searcher.dominanceContext request heuristic true source target) kept)
    {path : RoutePath} {amount : U256}
    (hroute : searcher.QuotedRoute (searcher.routeProblem request heuristic) path amount)
    (hfrom : searcher.FastLanePath
        (searcher.dominanceContext request heuristic true source target) path ∨
      ∃ part hop, path = part ++ [hop] ∧ (part = [] ∨ kept part)) :
    ∃ quote ∈ final.quotes, quote.amountOut = amount := by
  rcases hfrom with hlane | ⟨part, hop, rfl, hpart⟩
  · obtain ⟨quote, hquote, rfl⟩ := hpass.lane path amount hlane hroute.yields
    have hmem := hpass.covers.keeps.mem_quotes hquote
    exact ⟨quote, hmem, (hpass.quotedRoute hmem).yields.unique hroute.yields⟩
  · obtain ⟨state, hstate, rfl⟩ : ∃ state, expanded state ∧ state.path = part := by
      rcases hpart with rfl | hpart
      · exact ⟨_, hpass.covers.begins _ (List.mem_singleton_self _), rfl⟩
      · exact ((Survivors.unique hpass.resolved hkept (hpass.covers.survivors hpass.resolved
          hne rfl hpass.index hshort hkeys) part).mp hpart).2
    have hisRoute := (@isRoute_iff G _ searcher _
      (searcher.dominanceContext request heuristic true source target) rfl).mpr
        hroute.isRoute
    obtain ⟨_, hoffers⟩ := completable_of_isRoute hisRoute
    obtain ⟨_, hcloses, hbound, _⟩ :=
      HeuristicContext.isRoute_effective_append_singleton.mp hisRoute
    obtain ⟨before, hbefore, hquote⟩ := yields_append_singleton.mp hroute.yields
    rw [← (hpass.covers.sound state hstate).yields.unique hbefore] at hquote
    obtain ⟨quote, hmem, _, hout⟩ := hpass.covers.exists_quote hpass.sound hstate
      (hpass.covers.considers hpass.resolved hshort hstate hoffers) hquote hcloses.2.1 hbound
    exact ⟨quote, hmem, hout⟩

end Requests

/-- Prefix dominance keeps the best amount exactly when there is no route, or
when some best route is left to the search. -/
theorem bestAmountOut_dominance_iff (hbuilt : searcher.graph.Built)
    (hvalid : (request.withDominance heuristic true).config.validate = .ok ())
    (hoff : searcher.ApproximationsOff request heuristic)
    (hne : request.tokenIn ≠ request.tokenOut)
    (hkeys : searcher.DistinctKeys (searcher.routeProblem request heuristic)) :
    bestAmountOut (searcher.findRoutes (request.withDominance heuristic true)) =
        bestAmountOut (searcher.findRoutes (request.withDominance heuristic false)) ↔
      (∀ path amount,
        ¬ searcher.QuotedRoute (searcher.routeProblem request heuristic) path amount) ∨
      searcher.BestSurvives request heuristic := by
  have hindexed := hbuilt.indexed
  constructor
  · intro hsame
    by_cases hsome : ∃ path amount,
      searcher.QuotedRoute (searcher.routeProblem request heuristic) path amount
    · obtain ⟨path, amount, hroute⟩ := hsome
      obtain ⟨source, target, startOn, on, expandedOn, startOff, off, expandedOff, best,
        bestAmount, hon, hoffPass, hbest, hbestOff⟩ :=
        exists_passes_of_quotedRoute hindexed hvalid hoff hne hroute
      have hbestOn : bestOf on.quotes = some bestAmount :=
        hon.returns.best.symm.trans (hsame.trans (hoffPass.returns.best.trans hbestOff))
      obtain ⟨⟨quote, hquote, rfl⟩, _⟩ := bestOf_eq_some.mp hbestOn
      obtain ⟨kept, hkept, hfrom⟩ := hon.exists_survivor hne hoff.shortlist hkeys hquote
      exact Or.inr ⟨source, target, kept, quote.path, quote.amountOut, hon.resolved.source,
        hon.resolved.target, hkept, ⟨hon.quotedRoute hquote, hbest.2⟩, hfrom⟩
    · exact Or.inl fun path amount hroute => hsome ⟨path, amount, hroute⟩
  · intro hcase
    refine DominanceKeepsBest.bestAmountOut_eq hindexed hvalid hoff hne
      (dominanceKeepsBest_of_found hindexed hvalid hoff hne ?_)
    intro source target start final expanded hpass best bestAmount hbest
    rcases hcase with hnone |
      ⟨source', target', kept, path, amount, hsource, htarget, hkept, hother, hfrom⟩
    · exact absurd hbest.1 (hnone best bestAmount)
    · obtain rfl := Option.some.inj (hsource.symm.trans hpass.resolved.source)
      obtain rfl := Option.some.inj (htarget.symm.trans hpass.resolved.target)
      obtain ⟨quote, hquote, hout⟩ := hpass.exists_quote_of_survivor hne hoff.shortlist hkeys
        hkept hother.1 hfrom
      exact ⟨quote, hquote, (hother.2 best bestAmount hbest.1).trans hout.ge⟩

end AmmSearcher

namespace PoolReuseExample

open CappedExample

/-- One pool with four tokens. -/
def wide : PoolRegistration where
  key := ⟨.curve, some 7, ['p']⟩
  status := .ready
  metadata := .curve ⟨[1, 2, 4, 5]⟩
  tokens := some [1, 2, 4, 5]

/-- The wide pool pays well into `5` from `4` only. -/
def cap (pool : PoolKey) (tokenIn tokenOut : Address) : U256 :=
  if pool.debug = ['p'] ∧ tokenOut = 5 ∧ tokenIn ≠ 4 then 10
  else if pool.debug = ['r'] then 90
  else if pool.debug = ['t'] then 50
  else 1000

def reuse : AdapterRegistry :=
  registry cap
    [wide, TwoPoolExample.pool ['r'] 1 2, TwoPoolExample.pool ['q'] 2 3,
      TwoPoolExample.pool ['t'] 3 5, TwoPoolExample.pool ['u'] 3 4] (by decide)

/-- Reaching `3` through the wide pool displaces the prefix that can still use
it from `4`. -/
theorem bestAmountOut_reuse_ne :
    (searcher reuse).graph.Built ∧
      ((request 5 {2, 3, 4} 1 4).withDominance heuristic true).config.validate =
        .ok () ∧
      (searcher reuse).ApproximationsOff (request 5 {2, 3, 4} 1 4) heuristic ∧
      (request 5 {2, 3, 4} 1 4).tokenIn ≠ (request 5 {2, 3, 4} 1 4).tokenOut ∧
      (request 5 {2, 3, 4} 1 4).config.minHops = 1 ∧
      (searcher reuse).MonotoneQuotes (request 5 {2, 3, 4} 1 4).simConfig ∧
      bestAmountOut ((searcher reuse).findRoutes
          ((request 5 {2, 3, 4} 1 4).withDominance heuristic true)) ≠
        bestAmountOut ((searcher reuse).findRoutes
          ((request 5 {2, 3, 4} 1 4).withDominance heuristic false)) := by
  refine ⟨.fromRegistry 1 reuse {}, by rfl, approximationsOff (by decide +kernel),
    by decide, rfl, monotoneQuotes _ _ _ _, ?_⟩
  decide +kernel

/-- The same pools, but `r` passes its whole input on. -/
def opened : AdapterRegistry :=
  registry (fun pool tokenIn tokenOut =>
      if pool.debug = ['r'] then 1000 else cap pool tokenIn tokenOut)
    [wide, TwoPoolExample.pool ['r'] 1 2, TwoPoolExample.pool ['q'] 2 3,
      TwoPoolExample.pool ['t'] 3 5, TwoPoolExample.pool ['u'] 3 4] (by decide)

/-- The hops between the tokens of the pools. -/
def hops : List Hop :=
  opened.pools.flatMap fun pool =>
    ((indexedTokens pool {}).toOption.getD []).flatMap fun tokenIn =>
      ((indexedTokens pool {}).toOption.getD []).map fun tokenOut =>
        ⟨pool.key, tokenIn, tokenOut⟩

theorem mem_hops {hop : Hop} (hhop : (searcher opened).graph.IsHop hop) : hop ∈ hops := by
  obtain ⟨tokens, htokens, hin, hout, _⟩ :=
    ((@AmmGraph.Built.fromRegistry (SlotGraph Address EdgeData) _ 1 opened
      {}).indexed.isHop_iff).mp hhop
  have hlookup := (@AmmGraph.fromRegistry_spec (SlotGraph Address EdgeData) _ 1 opened
    {}).2.2.2 hop.pool
  obtain ⟨pool, hpool, hindexed⟩ :=
    Option.bind_eq_some_iff.mp (hlookup.symm.trans htokens)
  obtain ⟨hmem, hkey⟩ := (opened.pool_eq_some_iff hop.pool pool).mp hpool
  refine List.mem_flatMap.mpr ⟨pool, hmem, List.mem_flatMap.mpr ⟨hop.tokenIn, ?_,
    List.mem_map.mpr ⟨hop.tokenOut, ?_, ?_⟩⟩⟩
  · simpa [hindexed] using hin
  · simpa [hindexed] using hout
  · rw [hkey]

/-- What is asked of the pools. -/
def problem : RouteProblem :=
  (searcher opened).routeProblem (request 5 {2, 3, 4} 1 4) heuristic

theorem distinctKeys_opened : (searcher opened).DistinctKeys problem := by
  have hkeys : ∀ hop ∈ hops, ((searcher opened).hopSortKey hop).length = 5 ∧
      ∀ other ∈ hops, (searcher opened).hopSortKey hop = (searcher opened).hopSortKey other →
        hop = other := by
    decide +kernel
  intro path other amount amount' hpath hother hkey
  have hpathHops : ∀ hop ∈ path, hop ∈ hops := fun hop hhop =>
    mem_hops (hpath.isPrefix.edges hop hhop)
  have hotherHops : ∀ hop ∈ other, hop ∈ hops := fun hop hhop =>
    mem_hops (hother.isPrefix.edges hop hhop)
  exact AmmSearcher.eq_of_routePathSortKey_eq (by decide : 0 < 5)
    (fun hop hhop => (hkeys hop (hpathHops hop hhop)).1)
    (fun hop hhop => (hkeys hop (hotherHops hop hhop)).1)
    (fun hop hhop last hlast => (hkeys hop (hpathHops hop hhop)).2 last
      (hotherHops last hlast)) hkey

/-- The wide pool from `1` to `2`. -/
def overWide : Hop := ⟨wide.key, 1, 2⟩

/-- The pool `r` from `1` to `2`. -/
def overDirect : Hop := ⟨(TwoPoolExample.pool ['r'] 1 2).key, 1, 2⟩

theorem isHop_opened {hop : Hop} (tokens : List Address)
    (htokens : (searcher opened).graph.poolTokens.lookup hop.pool = some tokens)
    (hin : hop.tokenIn ∈ tokens) (hout : hop.tokenOut ∈ tokens)
    (hne : hop.tokenIn ≠ hop.tokenOut) : (searcher opened).graph.IsHop hop :=
  ((@AmmGraph.Built.fromRegistry (SlotGraph Address EdgeData) _ 1 opened
    {}).indexed.isHop_iff).mpr ⟨tokens, htokens, hin, hout, hne⟩

theorem quotedPrefix_overDirect :
    (searcher opened).QuotedPrefix problem [overDirect] 100 where
  isPrefix :=
    { edges := by
        intro hop hhop
        obtain rfl := List.mem_singleton.mp hhop
        exact isHop_opened [1, 2] (by decide +kernel) (by decide) (by decide) (by decide)
      connects := ⟨rfl, rfl⟩
      pools := by decide
      tokens := by decide
      intermediates := by decide }
  nonempty := by decide
  yields := ⟨[⟨overDirect, 100, 100⟩], by decide +kernel⟩

theorem quotedPrefix_overWide :
    (searcher opened).QuotedPrefix problem [overWide] 100 where
  isPrefix :=
    { edges := by
        intro hop hhop
        obtain rfl := List.mem_singleton.mp hhop
        exact isHop_opened [1, 2, 4, 5] (by decide +kernel) (by decide) (by decide)
          (by decide)
      connects := ⟨rfl, rfl⟩
      pools := by decide
      tokens := by decide
      intermediates := by decide }
  nonempty := by decide
  yields := ⟨[⟨overWide, 100, 100⟩], by decide +kernel⟩

/-- Past `r` no pool is blocked, past the wide pool the wide pool is. -/
theorem displaces_overWide :
    (searcher opened).Displaces problem [overDirect] [overWide] ∧
      ¬ (searcher opened).Displaces problem [overWide] [overDirect] := by
  constructor
  · refine ⟨100, 100, quotedPrefix_overDirect, quotedPrefix_overWide,
      ⟨by decide, by decide, le_rfl⟩, ?_⟩
    rintro pool ⟨hpool, tokenOut, hhop, hcase⟩
    obtain rfl := List.mem_singleton.mp hpool
    have hback : ∀ hop ∈ hops, hop.pool = overDirect.pool →
        hop.tokenOut = 1 ∨ hop.tokenOut = 2 := by
      decide +kernel
    rcases hcase with rfl | ⟨hnew, _⟩
    · exact absurd (hback _ (mem_hops hhop) rfl) (by decide)
    · rcases hback _ (mem_hops hhop) rfl with rfl | rfl
      · exact absurd hnew (by decide)
      · exact absurd hnew (by decide)
  · rintro ⟨_, _, _, _, _, hblocks⟩
    have hwide : (searcher opened).Blocks problem [overWide] wide.key :=
      ⟨by decide, 5, isHop_opened [1, 2, 4, 5] (by decide +kernel) (by decide) (by decide)
        (by decide), Or.inl rfl⟩
    exact absurd (hblocks wide.key hwide).1 (by decide)

/-- Where `r` pays as much as the wide pool it displaces it, and the prefix that
would do harm at `3` is never extended. -/
theorem bestAmountOut_opened_eq :
    (request 5 {2, 3, 4} 1 4).config.minHops = 1 ∧
      (searcher opened).Displaces problem [overDirect] [overWide] ∧
      ¬ (searcher opened).Displaces problem [overWide] [overDirect] ∧
      bestAmountOut ((searcher opened).findRoutes
          ((request 5 {2, 3, 4} 1 4).withDominance heuristic true)) =
        bestAmountOut ((searcher opened).findRoutes
          ((request 5 {2, 3, 4} 1 4).withDominance heuristic false)) ∧
      (searcher opened).BestSurvives (request 5 {2, 3, 4} 1 4) heuristic := by
  have hne : (request 5 {2, 3, 4} 1 4).tokenIn ≠ (request 5 {2, 3, 4} 1 4).tokenOut := by
    decide
  have hoff : (searcher opened).ApproximationsOff (request 5 {2, 3, 4} 1 4) heuristic :=
    approximationsOff (by decide +kernel)
  have hsame : bestAmountOut ((searcher opened).findRoutes
      ((request 5 {2, 3, 4} 1 4).withDominance heuristic true)) =
        bestAmountOut ((searcher opened).findRoutes
          ((request 5 {2, 3, 4} 1 4).withDominance heuristic false)) := by
    decide +kernel
  refine ⟨rfl, displaces_overWide.1, displaces_overWide.2, hsame, ?_⟩
  rcases (AmmSearcher.bestAmountOut_dominance_iff (.fromRegistry 1 opened {}) (by rfl) hoff
    hne distinctKeys_opened).mp hsame with hnone | hbest
  · have hok : (searcher opened).findRoutes
        ((request 5 {2, 3, 4} 1 4).withDominance heuristic false) = .ok
          (((searcher opened).findRoutes
            ((request 5 {2, 3, 4} 1 4).withDominance heuristic false)).toOption.getD []) := by
      decide +kernel
    obtain ⟨path, amount, hroute⟩ := AmmSearcher.exists_quotedRoute_of_findRoutes
      (AmmGraph.Built.fromRegistry 1 opened {}).indexed (by rfl) hoff hne hok
    exact absurd hroute (hnone path amount)
  · exact hbest

end PoolReuseExample

end AmmSearch
