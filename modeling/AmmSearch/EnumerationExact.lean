/-
Exactness of route enumeration.  Without limits the queue loop visits partial
paths level by level; the states of a level are exactly the partial paths of
that length, so the emitted paths are exactly the route universe, in order of
length and without repetition.  A path limit truncates that list.
-/
import AmmSearch.Enumeration
import AmmSearch.LevelOrder
import AmmSearch.Routes

open FiniteMap StableGraph LevelOrder

namespace AmmSearch

section UnboundedRun

def EdgeStep.closed : EdgeStep → Option RoutePath
  | .close path => some path
  | .skip | .extend _ => none

def EdgeStep.extended : EdgeStep → Option SearchState
  | .extend state => some state
  | .skip | .close _ => none

/-- Accumulate closed paths and extensions into a run. -/
def EnumerationRun.absorb (context : EnumerationContext) (run : EnumerationRun)
    (closed : List RoutePath) (extended : List SearchState) : EnumerationRun :=
  { run with
    queue := run.queue ++ extended
    paths := run.paths ++ closed.filter (· ∉ context.excluded)
    duplicatesSkipped := run.duplicatesSkipped +
      (closed.filter (· ∈ context.excluded)).length
    foundPath := run.foundPath || !closed.isEmpty }

variable {context : EnumerationContext}

theorem EnumerationRun.poll_eq_self (hpoll : context.shouldContinue = none)
    (run : EnumerationRun) : run.poll context = run := by
  simp [poll, hpoll]

theorem EnumerationRun.scanEdges_eq_absorb (hpoll : context.shouldContinue = none)
    (hlimit : context.maxNewPaths = none) (state : SearchState)
    (edges : List CachedOutgoingEdge) (run : EnumerationRun)
    (hrun : run.halted = false) :
    scanEdges context state edges run =
      run.absorb context
        (edges.filterMap fun edge => (context.edgeStep state edge).closed)
        (edges.filterMap fun edge => (context.edgeStep state edge).extended) := by
  induction edges generalizing run with
  | nil => simp [scanEdges, absorb]
  | cons edge rest ih =>
      rw [scanEdges, poll_eq_self hpoll]
      simp only [hrun, Bool.false_eq_true, if_false]
      cases hstep : context.edgeStep state edge with
      | skip =>
          simp [applyStep, hrun, ih run hrun, hstep, EdgeStep.closed,
            EdgeStep.extended]
      | extend next =>
          simp only [applyStep, hrun, Bool.false_eq_true, if_false]
          rw [ih _ rfl]
          simp [absorb, hrun, hstep, EdgeStep.closed, EdgeStep.extended]
      | close path =>
          have hhalted : (run.recordPath context path).halted = false := by
            simp [recordPath, hlimit]
          simp only [applyStep, hhalted, Bool.false_eq_true, if_false]
          rw [ih _ hhalted]
          by_cases hexcluded : path ∈ context.excluded
          · simp [absorb, recordPath, hexcluded, hlimit, hrun, hstep,
              EdgeStep.closed, EdgeStep.extended]
            omega
          · simp [absorb, recordPath, hexcluded, hlimit, hrun, hstep,
              EdgeStep.closed, EdgeStep.extended]

end UnboundedRun

theorem isEmpty_append {α : Type} (front back : List α) :
    (front ++ back).isEmpty = (front.isEmpty && back.isEmpty) := by
  cases front <;> simp

namespace AmmGraph

variable {G : Type}

/-- The paths that a popped state closes. -/
def closings (g : AmmGraph G) (context : EnumerationContext)
    (state : SearchState) : List RoutePath :=
  if context.config.maxHops ≤ state.path.length then []
  else (g.outgoingEdges state.node).filterMap fun edge =>
    (context.edgeStep state edge).closed

/-- The states that a popped state adds to the queue. -/
def extensions (g : AmmGraph G) (context : EnumerationContext)
    (state : SearchState) : List SearchState :=
  if context.config.maxHops ≤ state.path.length then []
  else (g.outgoingEdges state.node).filterMap fun edge =>
    (context.edgeStep state edge).extended

section Loop

variable (g : AmmGraph G) {context : EnumerationContext}

/-- Without polls or a limit the loop accumulates the drained queue. -/
theorem enumerateLoop_eq_drain (hpoll : context.shouldContinue = none)
    (hlimit : context.maxNewPaths = none) (fuel : ℕ) (run : EnumerationRun)
    (hrun : run.halted = false) :
    ∃ queue, g.enumerateLoop context fuel run =
      { run.absorb context
          (drain (g.extensions context) (g.closings context) fuel run.queue) []
        with queue := queue } := by
  induction fuel generalizing run with
  | zero => exact ⟨run.queue, by simp [enumerateLoop, drain, EnumerationRun.absorb]⟩
  | succ fuel ih =>
      obtain ⟨queue, paths, duplicates, found, stopped, halted, polls⟩ := run
      simp only at hrun
      subst hrun
      cases queue with
      | nil => exact ⟨[], by simp [enumerateLoop, drain, EnumerationRun.absorb]⟩
      | cons state rest =>
          simp only [enumerateLoop, EnumerationRun.poll_eq_self hpoll,
            Bool.false_eq_true, if_false]
          by_cases hdepth : context.config.maxHops ≤ state.path.length
          · obtain ⟨queue, hqueue⟩ := ih
              ⟨rest, paths, duplicates, found, stopped, false, polls⟩ rfl
            refine ⟨queue, ?_⟩
            simp only [if_pos hdepth]
            rw [hqueue]
            simp [drain, closings, extensions, hdepth, EnumerationRun.absorb]
          · simp only [if_neg hdepth]
            rw [EnumerationRun.scanEdges_eq_absorb hpoll hlimit _ _ _ rfl]
            obtain ⟨queue, hqueue⟩ := ih
              (EnumerationRun.absorb context
                ⟨rest, paths, duplicates, found, stopped, false, polls⟩
                ((g.outgoingEdges state.node).filterMap fun edge =>
                  (context.edgeStep state edge).closed)
                ((g.outgoingEdges state.node).filterMap fun edge =>
                  (context.edgeStep state edge).extended)) rfl
            refine ⟨queue, ?_⟩
            rw [if_neg (by simp [EnumerationRun.absorb]), hqueue]
            simp [drain, closings, extensions, hdepth, EnumerationRun.absorb,
              Nat.add_assoc, Bool.or_assoc, isEmpty_append]

theorem length_outgoingEdges_le (node : NodeIndex) :
    (g.outgoingEdges node).length ≤ g.maxOutDegree := by
  by_cases hmem : node ∈ g.outgoingCache.keys
  · exact Finset.le_sup (f := fun node => (g.outgoingEdges node).length) hmem
  · have hnone : g.outgoingCache.lookup node = none := by
      rwa [Finmap.lookup_eq_none, ← Finmap.mem_keys]
    simp [outgoingEdges, hnone]

theorem length_extensions_le (state : SearchState) :
    (g.extensions context state).length ≤ g.maxOutDegree := by
  unfold extensions
  split
  · exact Nat.zero_le _
  · exact (List.length_filterMap_le _ _).trans (g.length_outgoingEdges_le _)

theorem path_of_edgeStep_extend {state next : SearchState}
    {edge : CachedOutgoingEdge}
    (hstep : context.edgeStep state edge = .extend next) :
    next.path = state.path ++ [⟨edge.pool, edge.tokenIn, edge.tokenOut⟩] ∧
      next.path.length < context.config.maxHops := by
  unfold EnumerationContext.edgeStep at hstep
  split at hstep
  · cases hstep
  split at hstep
  · cases hstep
  split at hstep
  · cases hstep
  simp only at hstep
  split at hstep
  · split at hstep <;> cases hstep
  split at hstep
  · rename_i hlength
    cases hstep
    exact ⟨rfl, hlength⟩
  · cases hstep

/-- The loop reaches the end of its queue: fuel is enough. -/
theorem drain_enumeration (root : SearchState) (hroot : root.path = []) :
    drain (g.extensions context) (g.closings context)
        (g.enumerationFuel context.config.maxHops) [root] =
      levelOrder (g.extensions context) (g.closings context)
        context.config.maxHops [root] := by
  refine drain_eq_levelOrder
    (fun state => context.config.maxHops - state.path.length) g.maxOutDegree
    ?_ ?_ g.length_extensions_le _ _ _ ?_ ?_
  · intro state child hchild
    unfold extensions at hchild
    split at hchild
    · cases hchild
    · obtain ⟨edge, _, hedge⟩ := List.mem_filterMap.mp hchild
      cases hstep : context.edgeStep state edge with
      | skip => rw [hstep] at hedge; cases hedge
      | close path => rw [hstep] at hedge; cases hedge
      | extend next =>
          rw [hstep] at hedge
          obtain rfl := Option.some.inj hedge
          obtain ⟨hpath, _⟩ := path_of_edgeStep_extend hstep
          rw [hpath, List.length_append, List.length_singleton]
          omega
  · intro state hzero
    unfold closings
    rw [if_pos (Nat.sub_eq_zero_iff_le.mp hzero)]
  · simp [potential, enumerationFuel, hroot]
  · simp

end Loop

section Levels

variable [StableDiGraph G Address EdgeData] {g : AmmGraph G}
  {context : EnumerationContext}

/-- The context names the nodes of its two tokens. -/
structure ContextNodes (g : AmmGraph G) (context : EnumerationContext) : Prop where
  source : g.nodeIndex context.tokenIn = some context.source
  target : g.nodeIndex context.tokenOut = some context.target

/-- A queue state carries the derived data of its partial path. -/
structure Represents (g : AmmGraph G) (context : EnumerationContext)
    (state : SearchState) : Prop where
  isPrefix : g.IsPrefix context.config context.tokenIn context.tokenOut state.path
  node : g.nodeIndex (endToken context.tokenIn state.path) = some state.node
  visited : state.visitedTokens =
    (context.tokenIn :: state.path.map Hop.tokenOut).toFinset
  used : state.usedPools = (state.path.map Hop.pool).toFinset

theorem Represents.eq_of_path_eq {left right : SearchState}
    (hleft : g.Represents context left) (hright : g.Represents context right)
    (hpath : left.path = right.path) : left = right := by
  obtain ⟨_, hnode, hvisited, hused⟩ := hleft
  obtain ⟨_, hnode', hvisited', hused'⟩ := hright
  obtain ⟨leftNode, leftPath, leftVisited, leftUsed⟩ := left
  obtain ⟨rightNode, rightPath, rightVisited, rightUsed⟩ := right
  simp only at hpath hnode hvisited hused hnode' hvisited' hused'
  subst hpath
  rw [hvisited, hused, hvisited', hused',
    Option.some.inj (hnode.symm.trans hnode')]

theorem nodeIndex_inj (hindexed : g.Indexed) {left right : Address}
    {node : NodeIndex} (hleft : g.nodeIndex left = some node)
    (hright : g.nodeIndex right = some node) : left = right := by
  have hleft' := (hindexed.linked.node_iff left node).mp hleft
  have hright' := (hindexed.linked.node_iff right node).mp hright
  exact Option.some.inj (hleft'.symm.trans hright')

/-- Node tests of the edge loop are token tests. -/
theorem target_eq_iff (hindexed : g.Indexed) {edge : CachedOutgoingEdge}
    {token : Address} {node : NodeIndex}
    (hedge : g.nodeIndex edge.tokenOut = some edge.target)
    (hnode : g.nodeIndex token = some node) :
    edge.target = node ↔ edge.tokenOut = token := by
  constructor
  · rintro rfl
    exact nodeIndex_inj hindexed hedge hnode
  · rintro rfl
    exact Option.some.inj (hedge.symm.trans hnode)

/-- The hop that a cached edge appends. -/
def edgeHop (edge : CachedOutgoingEdge) : Hop :=
  ⟨edge.pool, edge.tokenIn, edge.tokenOut⟩

theorem closesSourceCycle_iff (hindexed : g.Indexed)
    (hcontext : g.ContextNodes context) {edge : CachedOutgoingEdge}
    (hedge : g.nodeIndex edge.tokenOut = some edge.target) :
    context.closesSourceCycle edge.target = true ↔
      context.allowFinalSourceRevisit = true ∧
        context.tokenIn = context.tokenOut ∧ edge.tokenOut = context.tokenIn := by
  have hsource := target_eq_iff hindexed hedge hcontext.source
  have hends : context.source = context.target ↔
      context.tokenIn = context.tokenOut := by
    constructor
    · intro heq
      exact nodeIndex_inj hindexed hcontext.source (heq ▸ hcontext.target)
    · intro heq
      have := hcontext.source
      rw [heq, hcontext.target] at this
      exact (Option.some.inj this).symm
  simp only [EnumerationContext.closesSourceCycle, Bool.and_eq_true,
    beq_iff_eq, hends, hsource, and_assoc]

/-- When the edge loop closes a path, over tokens instead of nodes. -/
theorem edgeStep_eq_close_iff (hindexed : g.Indexed)
    (hcontext : g.ContextNodes context) {state : SearchState}
    (hstate : g.Represents context state) (edge : CachedOutgoingEdge)
    (hedge : g.nodeIndex edge.tokenOut = some edge.target) (path : RoutePath) :
    context.edgeStep state edge = .close path ↔
      path = state.path ++ [edgeHop edge] ∧
        context.config.minHops ≤ state.path.length + 1 ∧
        edge.pool ∉ state.path.map Hop.pool ∧
        edge.tokenOut = context.tokenOut ∧
        ((context.allowFinalSourceRevisit = true ∧
          context.tokenIn = context.tokenOut) ∨
          context.tokenIn ≠ context.tokenOut) := by
  have htarget := target_eq_iff hindexed hedge hcontext.target
  have hcycle := closesSourceCycle_iff hindexed hcontext hedge
  have hfresh : context.tokenOut ∉ state.path.map Hop.tokenOut := by
    intro hmem
    obtain ⟨hop, hhop, heq⟩ := List.mem_map.mp hmem
    exact (hstate.isPrefix.intermediates hop hhop).1 heq
  have hlength : (state.path ++ [edgeHop edge]).length =
      state.path.length + 1 := by simp
  have hused : edge.pool ∈ state.usedPools ↔
      edge.pool ∈ state.path.map Hop.pool := by
    rw [hstate.used, List.mem_toFinset]
  have hvisited : context.tokenOut ∈ state.visitedTokens ↔
      context.tokenOut = context.tokenIn := by
    rw [hstate.visited, List.mem_toFinset, List.mem_cons, or_iff_left hfresh]
  simp only [EnumerationContext.edgeStep]
  constructor
  · intro hstep
    split_ifs at hstep with hpool hrevisit hconnector hclose hmin
    cases hstep
    have hout := htarget.mp hclose
    refine ⟨rfl, hlength ▸ hmin, mt hused.mpr hpool, hout, ?_⟩
    by_cases hends : context.tokenIn = context.tokenOut
    · left
      rw [not_and, Bool.not_eq_false] at hrevisit
      have hallowed := hcycle.mp (hrevisit (hout ▸ hvisited.mpr hends.symm))
      exact ⟨hallowed.1, hends⟩
    · exact Or.inr hends
  · rintro ⟨rfl, hmin, hpool, hout, hmode⟩
    rw [if_neg (mt hused.mp hpool), if_neg, if_neg, if_pos (htarget.mpr hout),
      if_pos (hlength ▸ hmin)]
    · rfl
    · exact fun hboth => hboth.1 (htarget.mpr hout)
    · rintro ⟨hrevisit, hnot⟩
      rw [hout] at hrevisit
      have hends := hvisited.mp hrevisit
      rw [← Bool.not_eq_true, hcycle] at hnot
      rcases hmode with ⟨hallow, _⟩ | hne
      · exact hnot ⟨hallow, hends.symm, hout.trans hends⟩
      · exact hne hends.symm

/-- When the edge loop extends a path, over tokens instead of nodes. -/
theorem edgeStep_eq_extend_iff (hindexed : g.Indexed)
    (hcontext : g.ContextNodes context) {state : SearchState}
    (hstate : g.Represents context state) (edge : CachedOutgoingEdge)
    (hedge : g.nodeIndex edge.tokenOut = some edge.target) (next : SearchState) :
    context.edgeStep state edge = .extend next ↔
      next = ⟨edge.target, state.path ++ [edgeHop edge],
        insert edge.tokenOut state.visitedTokens,
        insert edge.pool state.usedPools⟩ ∧
        state.path.length + 1 < context.config.maxHops ∧
        edge.pool ∉ state.path.map Hop.pool ∧
        edge.tokenOut ∉ context.tokenIn :: state.path.map Hop.tokenOut ∧
        edge.tokenOut ≠ context.tokenOut ∧
        connectorAllowed edge.tokenOut context.tokenIn context.tokenOut
          context.config = true := by
  have htarget := target_eq_iff hindexed hedge hcontext.target
  have hcycle := closesSourceCycle_iff hindexed hcontext hedge
  have hlength : (state.path ++ [edgeHop edge]).length =
      state.path.length + 1 := by simp
  have hused : edge.pool ∈ state.usedPools ↔
      edge.pool ∈ state.path.map Hop.pool := by
    rw [hstate.used, List.mem_toFinset]
  have hvisited : edge.tokenOut ∈ state.visitedTokens ↔
      edge.tokenOut ∈ context.tokenIn :: state.path.map Hop.tokenOut := by
    rw [hstate.visited, List.mem_toFinset]
  simp only [EnumerationContext.edgeStep]
  constructor
  · intro hstep
    split_ifs at hstep with hpool hrevisit hconnector hclose _ hshort
    cases hstep
    have hout : edge.tokenOut ≠ context.tokenOut := mt htarget.mpr hclose
    refine ⟨rfl, hlength ▸ hshort, mt hused.mpr hpool, ?_, hout, ?_⟩
    · intro hmem
      rw [not_and, Bool.not_eq_false] at hrevisit
      obtain ⟨_, hends, heq⟩ := hcycle.mp (hrevisit (hvisited.mpr hmem))
      exact hout (heq.trans hends)
    · rw [not_and, Bool.not_eq_false] at hconnector
      exact hconnector hclose
  · rintro ⟨rfl, hshort, hpool, hmem, hout, hallowed⟩
    have hopen : ¬ edge.target = context.target := mt htarget.mp hout
    rw [if_neg (mt hused.mp hpool), if_neg, if_neg, if_neg hopen,
      if_pos (hlength ▸ hshort)]
    · rfl
    · rw [hallowed]
      simp
    · exact fun hboth => hmem (hvisited.mp hboth.1)

theorem represents_rootState (hcontext : g.ContextNodes context) :
    g.Represents context (rootState context) :=
  ⟨isPrefix_nil, hcontext.source, by simp [rootState], by simp [rootState]⟩

theorem outgoing_of_represents (hindexed : g.Indexed) {state : SearchState}
    (hstate : g.Represents context state) (edge : CachedOutgoingEdge) :
    edge ∈ g.outgoingEdges state.node ↔
      edge.tokenIn = endToken context.tokenIn state.path ∧
        g.nodeIndex edge.tokenOut = some edge.target ∧
        g.IsHop (edgeHop edge) := by
  rw [hindexed.mem_outgoingEdges hstate.node]
  refine and_congr_right fun htoken => ?_
  rw [edgeHop, htoken]

theorem mem_extensions_iff (hindexed : g.Indexed)
    (hcontext : g.ContextNodes context) {state : SearchState}
    (hstate : g.Represents context state) (next : SearchState) :
    next ∈ g.extensions context state ↔
      g.Represents context next ∧ next.path.length < context.config.maxHops ∧
        ∃ hop, next.path = state.path ++ [hop] := by
  constructor
  · intro hnext
    unfold extensions at hnext
    split at hnext
    · cases hnext
    obtain ⟨edge, hedge, hstep⟩ := List.mem_filterMap.mp hnext
    obtain ⟨hin, hout, hhop⟩ := (outgoing_of_represents hindexed hstate edge).mp hedge
    have hextend : context.edgeStep state edge = .extend next := by
      cases hcase : context.edgeStep state edge <;> rw [hcase] at hstep <;>
        simp_all [EdgeStep.extended]
    obtain ⟨rfl, hlength, hpool, htoken, htarget, hallowed⟩ :=
      (edgeStep_eq_extend_iff hindexed hcontext hstate edge hout next).mp hextend
    refine ⟨⟨?_, ?_, ?_, ?_⟩, by simpa using hlength, edgeHop edge, rfl⟩
    · exact isPrefix_append_singleton.mpr
        ⟨hstate.isPrefix, ⟨hhop, hin, hpool⟩, htoken, htarget, hallowed⟩
    · simpa [edgeHop] using hout
    · ext token
      simp [hstate.visited, edgeHop]
      tauto
    · ext pool
      simp [hstate.used, edgeHop]
  · rintro ⟨hnext, hlength, hop, hpath⟩
    have hpre := hnext.isPrefix
    rw [hpath, isPrefix_append_singleton] at hpre
    obtain ⟨_, ⟨hhop, hstart, hpool⟩, htoken, htarget, hallowed⟩ := hpre
    have hnode := hnext.node
    rw [hpath, endToken_append_singleton] at hnode
    rw [hpath, List.length_append, List.length_singleton] at hlength
    unfold extensions
    rw [if_neg (by omega), List.mem_filterMap]
    refine ⟨⟨next.node, hop.tokenIn, hop.tokenOut, hop.pool⟩, ?_, ?_⟩
    · exact (outgoing_of_represents hindexed hstate _).mpr ⟨hstart, hnode, hhop⟩
    · have hstep := (edgeStep_eq_extend_iff hindexed hcontext hstate
        ⟨next.node, hop.tokenIn, hop.tokenOut, hop.pool⟩ hnode next).mpr
        ⟨?_, hlength, hpool, htoken, htarget, hallowed⟩
      · rw [hstep]
        rfl
      · obtain ⟨node, path, visited, used⟩ := next
        obtain ⟨_, _, hvisited, hused⟩ := hnext
        simp only at hpath hvisited hused ⊢
        subst hpath hvisited hused
        simp only [SearchState.mk.injEq, true_and, hstate.visited, hstate.used,
          edgeHop]
        constructor
        · ext
          simp
          tauto
        · ext
          simp

theorem mem_closings_iff (hindexed : g.Indexed)
    (hcontext : g.ContextNodes context) {state : SearchState}
    (hstate : g.Represents context state) (path : RoutePath) :
    path ∈ g.closings context state ↔
      g.IsRoute context.config context.tokenIn context.tokenOut
          context.allowFinalSourceRevisit path ∧
        ∃ hop, path = state.path ++ [hop] := by
  constructor
  · intro hpath
    unfold closings at hpath
    split at hpath
    · cases hpath
    rename_i hdepth
    obtain ⟨edge, hedge, hstep⟩ := List.mem_filterMap.mp hpath
    obtain ⟨hin, hout, hhop⟩ := (outgoing_of_represents hindexed hstate edge).mp hedge
    have hclose : context.edgeStep state edge = .close path := by
      cases hcase : context.edgeStep state edge <;> rw [hcase] at hstep <;>
        simp_all [EdgeStep.closed]
    obtain ⟨rfl, hmin, hpool, htarget, hmode⟩ :=
      (edgeStep_eq_close_iff hindexed hcontext hstate edge hout path).mp hclose
    exact ⟨isRoute_append_singleton.mpr ⟨hstate.isPrefix, ⟨hhop, hin, hpool⟩,
      htarget, hmode, hmin, by omega⟩, edgeHop edge, rfl⟩
  · rintro ⟨hroute, hop, rfl⟩
    obtain ⟨_, ⟨hhop, hstart, hpool⟩, htarget, hmode, hmin, hmax⟩ :=
      isRoute_append_singleton.mp hroute
    have hnode : g.nodeIndex hop.tokenOut = some context.target := by
      rw [htarget]
      exact hcontext.target
    unfold closings
    rw [if_neg (by omega), List.mem_filterMap]
    refine ⟨⟨context.target, hop.tokenIn, hop.tokenOut, hop.pool⟩, ?_, ?_⟩
    · exact (outgoing_of_represents hindexed hstate _).mpr ⟨hstart, hnode, hhop⟩
    · rw [(edgeStep_eq_close_iff hindexed hcontext hstate
        ⟨context.target, hop.tokenIn, hop.tokenOut, hop.pool⟩ hnode _).mpr
        ⟨rfl, hmin, hpool, htarget, hmode⟩]
      rfl

/-- Distinct outputs of the edge loop come from distinct hops. -/
theorem nodup_filterMap_outgoingEdges (hindexed : g.Indexed) {β : Type}
    (node : NodeIndex) {view : CachedOutgoingEdge → Option β}
    (hview : ∀ left right output, view left = some output →
      view right = some output →
      (left.pool, left.tokenOut) = (right.pool, right.tokenOut)) :
    ((g.outgoingEdges node).filterMap view).Nodup := by
  have hnodup := hindexed.nodup_outgoingEdges node
  rw [List.Nodup, List.pairwise_map] at hnodup
  rw [List.Nodup, List.pairwise_filterMap]
  refine hnodup.imp ?_
  rintro left right hne output hleft _ hright rfl
  exact hne (hview left right output hleft hright)

theorem nodup_extensions (hindexed : g.Indexed) (state : SearchState) :
    (g.extensions context state).Nodup := by
  unfold extensions
  split
  · exact List.nodup_nil
  apply nodup_filterMap_outgoingEdges hindexed
  intro left right next hleft hright
  have hextend : ∀ edge, (context.edgeStep state edge).extended = some next →
      next.path = state.path ++ [edgeHop edge] := by
    intro edge hedge
    cases hcase : context.edgeStep state edge with
    | skip => rw [hcase] at hedge; cases hedge
    | close path => rw [hcase] at hedge; cases hedge
    | extend found =>
        rw [hcase] at hedge
        obtain rfl := Option.some.inj hedge
        exact (path_of_edgeStep_extend hcase).1
  have heq := (hextend left hleft).symm.trans (hextend right hright)
  have hhop := (List.append_inj' heq rfl).2
  simp only [edgeHop, List.cons.injEq, Hop.mk.injEq, and_true] at hhop
  rw [hhop.1, hhop.2.2]

theorem nodup_closings (hindexed : g.Indexed) (state : SearchState) :
    (g.closings context state).Nodup := by
  unfold closings
  split
  · exact List.nodup_nil
  apply nodup_filterMap_outgoingEdges hindexed
  intro left right path hleft hright
  have hclose : ∀ edge, (context.edgeStep state edge).closed = some path →
      path = state.path ++ [edgeHop edge] := by
    intro edge hedge
    cases hcase : context.edgeStep state edge with
    | skip => rw [hcase] at hedge; cases hedge
    | extend found => rw [hcase] at hedge; cases hedge
    | close found =>
        rw [hcase] at hedge
        obtain rfl := Option.some.inj hedge
        simp only [EnumerationContext.edgeStep] at hcase
        split_ifs at hcase
        cases hcase
        rfl
  have heq := (hclose left hleft).symm.trans (hclose right hright)
  have hhop := (List.append_inj' heq rfl).2
  simp only [edgeHop, List.cons.injEq, Hop.mk.injEq, and_true] at hhop
  rw [hhop.1, hhop.2.2]

/-- The node of the last token of a nonempty partial path exists. -/
theorem IsPrefix.exists_represents (hindexed : g.Indexed)
    (hcontext : g.ContextNodes context) {path : RoutePath}
    (hpre : g.IsPrefix context.config context.tokenIn context.tokenOut path) :
    ∃ state, g.Represents context state ∧ state.path = path := by
  have hnode : ∃ node, g.nodeIndex (endToken context.tokenIn path) = some node := by
    rcases List.eq_nil_or_concat path with rfl | ⟨front, hop, rfl⟩
    · exact ⟨_, hcontext.source⟩
    · rw [List.concat_eq_append] at hpre ⊢
      obtain ⟨e, record, _, _, _, hout⟩ :=
        (isPrefix_append_singleton.mp hpre).2.1.edge
      rw [endToken_append_singleton]
      exact ⟨_, (hindexed.linked.node_iff _ _).mpr hout⟩
  obtain ⟨node, hnode⟩ := hnode
  exact ⟨⟨node, path, (context.tokenIn :: path.map Hop.tokenOut).toFinset,
    (path.map Hop.pool).toFinset⟩, ⟨hpre, hnode, rfl, rfl⟩, rfl⟩

/-- A level of the queue is exactly the partial paths of one length. -/
theorem mem_level_iff (hindexed : g.Indexed) (hcontext : g.ContextNodes context)
    (depth : ℕ) (state : SearchState) :
    state ∈ level (g.extensions context) depth [rootState context] ↔
      g.Represents context state ∧ state.path.length = depth ∧
        (depth = 0 ∨ depth < context.config.maxHops) := by
  induction depth generalizing state with
  | zero =>
      simp only [level, List.mem_singleton, true_or, and_true]
      constructor
      · rintro rfl
        exact ⟨represents_rootState hcontext, rfl⟩
      · rintro ⟨hstate, hlength⟩
        exact hstate.eq_of_path_eq (represents_rootState hcontext)
          (List.length_eq_zero_iff.mp hlength)
  | succ depth ih =>
      rw [level_succ, List.mem_flatMap]
      constructor
      · rintro ⟨previous, hprevious, hstate⟩
        obtain ⟨hprevious, hdepth, _⟩ := (ih previous).mp hprevious
        obtain ⟨hstate, hlength, hop, hpath⟩ :=
          (mem_extensions_iff hindexed hcontext hprevious state).mp hstate
        have hsucc : state.path.length = depth + 1 := by
          rw [hpath, List.length_append, List.length_singleton, hdepth]
        exact ⟨hstate, hsucc, Or.inr (hsucc ▸ hlength)⟩
      · rintro ⟨hstate, hlength, hbound⟩
        have hmax : depth + 1 < context.config.maxHops :=
          hbound.resolve_left (Nat.succ_ne_zero depth)
        rcases List.eq_nil_or_concat state.path with hnil | ⟨front, hop, hpath⟩
        · rw [hnil] at hlength
          cases hlength
        rw [List.concat_eq_append] at hpath
        have hfront := hstate.isPrefix
        rw [hpath, isPrefix_append_singleton] at hfront
        obtain ⟨previous, hprevious, rfl⟩ :=
          hfront.1.exists_represents hindexed hcontext
        rw [hpath, List.length_append, List.length_singleton] at hlength
        refine ⟨previous, (ih previous).mpr ⟨hprevious, by omega, by omega⟩, ?_⟩
        refine (mem_extensions_iff hindexed hcontext hprevious state).mpr
          ⟨hstate, ?_, hop, hpath⟩
        rw [hpath, List.length_append, List.length_singleton]
        omega

/-- Outputs of distinct states of a level are distinct. -/
theorem nodup_flatMap_level (hindexed : g.Indexed)
    (hcontext : g.ContextNodes context) {β : Type}
    {outputs : SearchState → List β} (pathOf : β → RoutePath) (depth : ℕ)
    (hlevel : (level (g.extensions context) depth [rootState context]).Nodup)
    (hnodup : ∀ state, (outputs state).Nodup)
    (hpath : ∀ state, g.Represents context state → ∀ output ∈ outputs state,
      ∃ hop, pathOf output = state.path ++ [hop]) :
    ((level (g.extensions context) depth [rootState context]).flatMap
      outputs).Nodup := by
  rw [List.nodup_flatMap]
  refine ⟨fun state _ => hnodup state, ?_⟩
  refine hlevel.imp_of_mem ?_
  intro left right hleft hright hne output hout hout'
  have hleft := ((mem_level_iff hindexed hcontext depth left).mp hleft).1
  have hright := ((mem_level_iff hindexed hcontext depth right).mp hright).1
  obtain ⟨hop, heq⟩ := hpath left hleft output hout
  obtain ⟨hop', heq'⟩ := hpath right hright output hout'
  exact hne (hleft.eq_of_path_eq hright
    (List.append_inj' (heq.symm.trans heq') rfl).1)

theorem nodup_level (hindexed : g.Indexed) (hcontext : g.ContextNodes context)
    (depth : ℕ) :
    (level (g.extensions context) depth [rootState context]).Nodup := by
  induction depth with
  | zero => exact List.nodup_singleton _
  | succ depth ih =>
      rw [level_succ]
      refine nodup_flatMap_level hindexed hcontext SearchState.path
        depth ih (nodup_extensions hindexed) ?_
      intro state hstate next hnext
      exact ((mem_extensions_iff hindexed hcontext hstate next).mp hnext).2.2

/-- The closed paths in the order of the queue loop. -/
def routeList (g : AmmGraph G) (context : EnumerationContext) : List RoutePath :=
  levelOrder (g.extensions context) (g.closings context) context.config.maxHops
    [rootState context]

theorem length_of_mem_closings (hindexed : g.Indexed)
    (hcontext : g.ContextNodes context) (depth : ℕ) :
    ∀ state ∈ level (g.extensions context) depth [rootState context],
      ∀ path ∈ g.closings context state, path.length = 1 + depth := by
  intro state hstate path hpath
  obtain ⟨hstate, hdepth, _⟩ := (mem_level_iff hindexed hcontext depth state).mp hstate
  obtain ⟨_, hop, rfl⟩ := (mem_closings_iff hindexed hcontext hstate path).mp hpath
  rw [List.length_append, List.length_singleton, hdepth, Nat.add_comm]

theorem nodup_routeList (hindexed : g.Indexed)
    (hcontext : g.ContextNodes context) : (g.routeList context).Nodup := by
  refine nodup_levelOrder _ _ List.length 1 _ _
    (length_of_mem_closings hindexed hcontext) fun depth => ?_
  refine nodup_flatMap_level hindexed hcontext id depth
    (nodup_level hindexed hcontext depth) (nodup_closings hindexed) ?_
  intro state hstate path hpath
  exact ((mem_closings_iff hindexed hcontext hstate path).mp hpath).2

theorem pairwise_length_routeList (hindexed : g.Indexed)
    (hcontext : g.ContextNodes context) :
    (g.routeList context).Pairwise fun left right => left.length ≤ right.length :=
  pairwise_levelOrder _ _ List.length 1 _ _
    (length_of_mem_closings hindexed hcontext)

theorem mem_routeList_iff (hindexed : g.Indexed)
    (hcontext : g.ContextNodes context) (hmin : 1 ≤ context.config.minHops)
    (path : RoutePath) :
    path ∈ g.routeList context ↔
      g.IsRoute context.config context.tokenIn context.tokenOut
        context.allowFinalSourceRevisit path := by
  rw [routeList, mem_levelOrder]
  constructor
  · rintro ⟨depth, _, state, hstate, hpath⟩
    have hstate := ((mem_level_iff hindexed hcontext depth state).mp hstate).1
    exact ((mem_closings_iff hindexed hcontext hstate path).mp hpath).1
  · intro hroute
    rcases List.eq_nil_or_concat path with rfl | ⟨front, hop, rfl⟩
    · have := hroute.minHops
      simp only [List.length_nil] at this
      omega
    rw [List.concat_eq_append] at hroute ⊢
    obtain ⟨hpre, _, _, _, _, hmax⟩ := isRoute_append_singleton.mp hroute
    obtain ⟨state, hstate, rfl⟩ := hpre.exists_represents hindexed hcontext
    refine ⟨state.path.length, by omega, state, ?_, ?_⟩
    · exact (mem_level_iff hindexed hcontext _ state).mpr ⟨hstate, rfl, by omega⟩
    · exact (mem_closings_iff hindexed hcontext hstate _).mpr ⟨hroute, hop, rfl⟩

end Levels

section Limited

variable (g : AmmGraph G) {context : EnumerationContext}

/-- How a run with a path limit relates to the run without it: they agree
until the limit is reached, where the limited one stops. -/
def Truncates (limit : ℕ) (limited unlimited : EnumerationRun) : Prop :=
  (limited = unlimited ∧ limited.halted = false ∧ limited.paths.length < limit) ∨
    (limited.halted = true ∧ limited.paths.length = limit ∧
      limited.paths <+: unlimited.paths ∧ limited.foundPath = true ∧
      unlimited.foundPath = true ∧ limited.stopped = unlimited.stopped)

theorem absorb_prefix (run : EnumerationRun) (closed : List RoutePath)
    (extended : List SearchState) :
    run.paths <+: (run.absorb context closed extended).paths :=
  List.prefix_append run.paths _

variable {limited : EnumerationContext} {limit : ℕ}
  (hlimited : limited = { context with maxNewPaths := some limit })

include hlimited

theorem recordPath_limited (run : EnumerationRun) (path : RoutePath) :
    run.recordPath limited path =
      { run.recordPath context path with
        halted := limit ≤ (run.recordPath context path).paths.length } := by
  subst hlimited
  by_cases hexcluded : path ∈ context.excluded <;>
    simp [EnumerationRun.recordPath, hexcluded]

theorem scanEdges_truncates (hpoll : context.shouldContinue = none)
    (hunlimited : context.maxNewPaths = none) (state : SearchState)
    (edges : List CachedOutgoingEdge) (run : EnumerationRun)
    (hrun : run.halted = false) (hlength : run.paths.length < limit) :
    Truncates limit (EnumerationRun.scanEdges limited state edges run)
      (EnumerationRun.scanEdges context state edges run) := by
  have hpollLimited : limited.shouldContinue = none := by rw [hlimited, hpoll]
  have hsame : ∀ edge, limited.edgeStep state edge = context.edgeStep state edge := by
    intro edge
    rw [hlimited]
    rfl
  induction edges generalizing run with
  | nil => exact Or.inl ⟨rfl, hrun, hlength⟩
  | cons edge rest ih =>
      rw [EnumerationRun.scanEdges, EnumerationRun.scanEdges,
        EnumerationRun.poll_eq_self hpollLimited run,
        EnumerationRun.poll_eq_self hpoll run, hsame]
      simp only [hrun, Bool.false_eq_true, if_false]
      cases hstep : context.edgeStep state edge with
      | skip =>
          simp only [EnumerationRun.applyStep, hrun, Bool.false_eq_true, if_false]
          exact ih run hrun hlength
      | extend next =>
          simp only [EnumerationRun.applyStep, hrun, Bool.false_eq_true, if_false]
          exact ih _ rfl hlength
      | close path =>
          have hcapped := recordPath_limited hlimited run path
          have hhalted : (run.recordPath context path).halted = false := by
            simp [EnumerationRun.recordPath, hunlimited]
          have hfound : (run.recordPath context path).foundPath = true := by
            simp only [EnumerationRun.recordPath]
            split <;> rfl
          have hle : (run.recordPath context path).paths.length ≤
              run.paths.length + 1 := by
            simp only [EnumerationRun.recordPath]
            split
            · exact Nat.le_succ _
            · simp
          change Truncates limit
            (if (run.recordPath limited path).halted then
              run.recordPath limited path
            else EnumerationRun.scanEdges limited state rest
              (run.recordPath limited path))
            (if (run.recordPath context path).halted then
              run.recordPath context path
            else EnumerationRun.scanEdges context state rest
              (run.recordPath context path))
          generalize run.recordPath limited path = capped at hcapped ⊢
          generalize run.recordPath context path = recorded at *
          have hcontinue : (if recorded.halted then recorded
              else EnumerationRun.scanEdges context state rest recorded) =
                EnumerationRun.scanEdges context state rest recorded :=
            if_neg (by simp [hhalted])
          rw [hcontinue]
          by_cases hreached : limit ≤ recorded.paths.length
          · rw [decide_eq_true hreached] at hcapped
            subst hcapped
            rw [if_pos rfl,
              EnumerationRun.scanEdges_eq_absorb hpoll hunlimited _ _ _ hhalted]
            refine Or.inr ⟨rfl, Nat.le_antisymm (hle.trans hlength) hreached,
              absorb_prefix recorded _ _, hfound, ?_, rfl⟩
            simp [EnumerationRun.absorb, hfound]
          · rw [decide_eq_false hreached, ← hhalted] at hcapped
            subst hcapped
            rw [if_neg (by simp [hhalted])]
            exact ih recorded hhalted (Nat.lt_of_not_le hreached)

theorem enumerateLoop_truncates (hpoll : context.shouldContinue = none)
    (hunlimited : context.maxNewPaths = none) (fuel : ℕ)
    (run : EnumerationRun) (hrun : run.halted = false)
    (hlength : run.paths.length < limit) :
    Truncates limit (g.enumerateLoop limited fuel run)
      (g.enumerateLoop context fuel run) := by
  have hpollLimited : limited.shouldContinue = none := by rw [hlimited, hpoll]
  have hconfig : limited.config = context.config := by rw [hlimited]
  induction fuel generalizing run with
  | zero => exact Or.inl ⟨rfl, hrun, hlength⟩
  | succ fuel ih =>
      rw [enumerateLoop, enumerateLoop]
      cases hqueue : run.queue with
      | nil => exact Or.inl ⟨rfl, hrun, hlength⟩
      | cons state rest =>
          simp only [EnumerationRun.poll_eq_self hpollLimited,
            EnumerationRun.poll_eq_self hpoll, hrun, hconfig,
            Bool.false_eq_true, if_false]
          by_cases hdepth : context.config.maxHops ≤ state.path.length
          · simp only [if_pos hdepth]
            exact ih _ rfl hlength
          · simp only [if_neg hdepth]
            set popped : EnumerationRun :=
              ⟨rest, run.paths, run.duplicatesSkipped, run.foundPath, run.stopped,
                false, run.polls⟩ with hpopped
            have hunhalted := EnumerationRun.scanEdges_eq_absorb hpoll hunlimited
              state (g.outgoingEdges state.node) popped rfl
            rcases scanEdges_truncates hlimited hpoll hunlimited state
              (g.outgoingEdges state.node) popped rfl hlength with
              ⟨heq, hhalted, hshort⟩ |
              ⟨hhalted, hfull, hpre, hfound, hfound', hstopped⟩
            · rw [← heq, if_neg (by simp [hhalted]), if_neg (by simp [hhalted])]
              exact ih _ hhalted hshort
            · have hfree : (EnumerationRun.scanEdges context state
                  (g.outgoingEdges state.node) popped).halted = false := by
                rw [hunhalted]
                rfl
              rw [if_pos hhalted, if_neg (by simp [hfree])]
              obtain ⟨queue, hloop⟩ := enumerateLoop_eq_drain g hpoll hunlimited fuel
                (EnumerationRun.scanEdges context state (g.outgoingEdges state.node)
                  popped) hfree
              rw [hloop]
              refine Or.inr ⟨hhalted, hfull, hpre.trans ?_, hfound, ?_, hstopped⟩
              · exact absorb_prefix _ _ []
              simp [EnumerationRun.absorb, hfound']

end Limited

/-- Nothing is skipped when nothing is excluded. -/
theorem duplicatesSkipped_scanEdges {context : EnumerationContext}
    (hexcluded : context.excluded = ∅) (state : SearchState)
    (edges : List CachedOutgoingEdge) (run : EnumerationRun) :
    (EnumerationRun.scanEdges context state edges run).duplicatesSkipped =
      run.duplicatesSkipped := by
  have hpoll : ∀ run : EnumerationRun,
      (run.poll context).duplicatesSkipped = run.duplicatesSkipped := by
    intro run
    unfold EnumerationRun.poll
    split
    · rfl
    · split <;> rfl
  induction edges generalizing run with
  | nil => rfl
  | cons edge rest ih =>
      rw [EnumerationRun.scanEdges]
      simp only
      have hstep : ∀ step, ((run.poll context).applyStep context
          step).duplicatesSkipped = run.duplicatesSkipped := by
        intro step
        cases step with
        | skip => exact hpoll run
        | extend next => exact hpoll run
        | close path =>
            simp [EnumerationRun.applyStep, EnumerationRun.recordPath, hexcluded,
              hpoll run]
      split
      · exact hpoll run
      · split
        · exact hstep _
        · rw [ih]
          exact hstep _

theorem duplicatesSkipped_enumerateLoop (g : AmmGraph G)
    {context : EnumerationContext} (hexcluded : context.excluded = ∅) (fuel : ℕ)
    (run : EnumerationRun) :
    (g.enumerateLoop context fuel run).duplicatesSkipped =
      run.duplicatesSkipped := by
  have hpoll : ∀ run : EnumerationRun,
      (run.poll context).duplicatesSkipped = run.duplicatesSkipped := by
    intro run
    unfold EnumerationRun.poll
    split
    · rfl
    · split <;> rfl
  induction fuel generalizing run with
  | zero => rfl
  | succ fuel ih =>
      rw [enumerateLoop]
      split
      · rfl
      · simp only
        split
        · exact hpoll _
        · split
          · rw [ih, hpoll]
          · split
            · rw [duplicatesSkipped_scanEdges hexcluded, hpoll]
            · rw [ih, duplicatesSkipped_scanEdges hexcluded, hpoll]

section Uninterrupted

variable {context : EnumerationContext}

/-- The run apart from its poll counter. -/
def unpolled (run : EnumerationRun) : EnumerationRun :=
  { run with polls := 0 }

theorem halted_of_unpolled {left right : EnumerationRun}
    (heq : unpolled left = right) : left.halted = right.halted :=
  heq ▸ rfl

/-- The cancellation callback has refused. -/
structure CutShort (run : EnumerationRun) : Prop where
  stopped : run.stopped = true
  halted : run.halted = true

theorem unpolled_poll (run : EnumerationRun) :
    CutShort (run.poll context) ∨ unpolled (run.poll context) = unpolled run := by
  unfold EnumerationRun.poll
  split
  · exact Or.inr rfl
  · split
    · exact Or.inr rfl
    · exact Or.inl ⟨rfl, rfl⟩

theorem unpolled_applyStep (run : EnumerationRun) (edgeStep : EdgeStep) :
    unpolled (run.applyStep context edgeStep) =
      (unpolled run).applyStep { context with shouldContinue := none } edgeStep := by
  cases edgeStep with
  | skip => rfl
  | extend state => rfl
  | close path =>
      simp only [EnumerationRun.applyStep, EnumerationRun.recordPath]
      split <;> rfl

theorem unpolled_scanEdges (state : SearchState) (edges : List CachedOutgoingEdge)
    (run : EnumerationRun) :
    CutShort (EnumerationRun.scanEdges context state edges run) ∨
      unpolled (EnumerationRun.scanEdges context state edges run) =
        EnumerationRun.scanEdges { context with shouldContinue := none } state edges
          (unpolled run) := by
  induction edges generalizing run with
  | nil => exact Or.inr rfl
  | cons edge rest ih =>
      rw [EnumerationRun.scanEdges, EnumerationRun.scanEdges,
        @EnumerationRun.poll_eq_self { context with shouldContinue := none } rfl,
        show EnumerationContext.edgeStep { context with shouldContinue := none } state
          edge = context.edgeStep state edge from rfl]
      simp only
      rcases @unpolled_poll context run with hcut | hpolled
      · rw [if_pos hcut.halted]
        exact Or.inl hcut
      · have hhalted : (run.poll context).halted = (unpolled run).halted :=
          halted_of_unpolled hpolled
        have hstep := @unpolled_applyStep context (run.poll context)
          (context.edgeStep state edge)
        rw [hpolled] at hstep
        have hstopped := halted_of_unpolled hstep
        by_cases hrun : (unpolled run).halted = true
        · rw [if_pos (hhalted.trans hrun), if_pos hrun]
          exact Or.inr hpolled
        · rw [if_neg (fun h => hrun (hhalted.symm.trans h)), if_neg hrun]
          by_cases hnext : ((run.poll context).applyStep context
              (context.edgeStep state edge)).halted = true
          · rw [if_pos hnext, if_pos (hstopped.symm.trans hnext)]
            exact Or.inr hstep
          · rw [if_neg hnext, if_neg (fun h => hnext (hstopped.trans h)), ← hstep]
            exact ih _

/-- A cancellation callback cuts the loop short, or it changes nothing but the poll
counter. -/
theorem unpolled_enumerateLoop (g : AmmGraph G) (fuel : ℕ) (run : EnumerationRun) :
    CutShort (g.enumerateLoop context fuel run) ∨
      unpolled (g.enumerateLoop context fuel run) =
        g.enumerateLoop { context with shouldContinue := none } fuel (unpolled run) := by
  induction fuel generalizing run with
  | zero => exact Or.inr rfl
  | succ fuel ih =>
      obtain ⟨queue, paths, duplicates, found, stopped, halted, polls⟩ := run
      cases queue with
      | nil => exact Or.inr rfl
      | cons state rest =>
          have hpolled := @unpolled_poll context
            ⟨rest, paths, duplicates, found, stopped, halted, polls⟩
          rw [show unpolled ⟨state :: rest, paths, duplicates, found, stopped, halted,
            polls⟩ = ⟨state :: rest, paths, duplicates, found, stopped, halted, 0⟩ from rfl]
          simp only [enumerateLoop]
          rw [@EnumerationRun.poll_eq_self { context with shouldContinue := none } rfl]
          generalize EnumerationRun.poll context
            ⟨rest, paths, duplicates, found, stopped, halted, polls⟩ = polled at hpolled ⊢
          rcases hpolled with hcut | hpolled
          · rw [if_pos hcut.halted]
            exact Or.inl hcut
          · have hpolled : unpolled polled =
                ⟨rest, paths, duplicates, found, stopped, halted, 0⟩ := hpolled
            have hhalted : polled.halted = halted := halted_of_unpolled hpolled
            by_cases hrun : halted = true
            · rw [if_pos (hhalted.trans hrun), if_pos hrun]
              exact Or.inr hpolled
            · rw [if_neg (fun h => hrun (hhalted.symm.trans h)), if_neg hrun]
              by_cases hdepth : context.config.maxHops ≤ state.path.length
              · rw [if_pos hdepth, if_pos hdepth, ← hpolled]
                exact ih polled
              · rw [if_neg hdepth, if_neg hdepth]
                rcases @unpolled_scanEdges context state (g.outgoingEdges state.node)
                  polled with hcut | hscan
                · rw [if_pos hcut.halted]
                  exact Or.inl hcut
                · rw [hpolled] at hscan
                  have hscanned := halted_of_unpolled hscan
                  by_cases hnext : (EnumerationRun.scanEdges context state
                      (g.outgoingEdges state.node) polled).halted = true
                  · rw [if_pos hnext, if_pos (hscanned.symm.trans hnext)]
                    exact Or.inr hscan
                  · rw [if_neg hnext, if_neg (fun h => hnext (hscanned.trans h)), ← hscan]
                    exact ih _

theorem stopped_poll (hpoll : ∀ poll ∈ context.shouldContinue, ∀ count, poll count = true)
    (run : EnumerationRun) : (run.poll context).stopped = run.stopped := by
  unfold EnumerationRun.poll
  split
  · rfl
  · rename_i poll hsome
    rw [if_pos (hpoll poll hsome _)]

theorem stopped_scanEdges
    (hpoll : ∀ poll ∈ context.shouldContinue, ∀ count, poll count = true)
    (state : SearchState) (edges : List CachedOutgoingEdge) (run : EnumerationRun) :
    (EnumerationRun.scanEdges context state edges run).stopped = run.stopped := by
  have hstep : ∀ (run : EnumerationRun) (edgeStep : EdgeStep),
      (run.applyStep context edgeStep).stopped = run.stopped := by
    intro run edgeStep
    cases edgeStep with
    | skip => rfl
    | extend state => rfl
    | close path =>
        simp only [EnumerationRun.applyStep, EnumerationRun.recordPath]
        split <;> rfl
  induction edges generalizing run with
  | nil => rfl
  | cons edge rest ih =>
      have hpolled := (hstep (run.poll context) (context.edgeStep state edge)).trans
        (stopped_poll hpoll run)
      rw [EnumerationRun.scanEdges]
      simp only
      split
      · exact stopped_poll hpoll run
      · split
        · exact hpolled
        · exact (ih _).trans hpolled

theorem stopped_enumerateLoop (g : AmmGraph G)
    (hpoll : ∀ poll ∈ context.shouldContinue, ∀ count, poll count = true)
    (fuel : ℕ) (run : EnumerationRun) :
    (g.enumerateLoop context fuel run).stopped = run.stopped := by
  induction fuel generalizing run with
  | zero => rfl
  | succ fuel ih =>
      rw [enumerateLoop]
      split
      · rfl
      · rename_i state rest _
        have hpolled := stopped_poll hpoll { run with queue := rest }
        simp only
        split
        · exact hpolled
        · split
          · exact (ih _).trans hpolled
          · have hscanned := (stopped_scanEdges hpoll state (g.outgoingEdges state.node)
              (EnumerationRun.poll context { run with queue := rest })).trans hpolled
            split
            · exact hscanned
            · exact (ih _).trans hscanned

/-- A cancellation callback cuts an enumeration short, or it changes nothing. -/
theorem enumerateRoutesFiltered_cases (g : AmmGraph G) (tokenIn tokenOut : Address)
    (config : SearchConfig) (allow : Bool) (excluded : Finset RoutePath)
    (maxNewPaths : Option ℕ) (shouldContinue : Option (ℕ → Bool)) :
    (∃ enumeration, g.enumerateRoutesFiltered tokenIn tokenOut config allow excluded
        maxNewPaths shouldContinue = .ok enumeration ∧ enumeration.stopped = true) ∨
      g.enumerateRoutesFiltered tokenIn tokenOut config allow excluded maxNewPaths
          shouldContinue =
        g.enumerateRoutesFiltered tokenIn tokenOut config allow excluded maxNewPaths
          none := by
  unfold enumerateRoutesFiltered
  cases config.validate with
  | error error => exact Or.inr rfl
  | ok validated =>
      cases g.nodeIndex tokenIn with
      | none => exact Or.inr rfl
      | some source =>
          cases g.nodeIndex tokenOut with
          | none => exact Or.inr rfl
          | some target =>
              simp only [bind, Except.bind]
              split
              · exact Or.inr rfl
              · rcases @unpolled_enumerateLoop _ ⟨source, target, tokenIn, tokenOut, config,
                  allow, excluded, maxNewPaths, shouldContinue⟩ g
                  (g.enumerationFuel config.maxHops)
                  { queue := [rootState ⟨source, target, tokenIn, tokenOut, config, allow,
                    excluded, maxNewPaths, shouldContinue⟩] } with hcut | hrun
                · left
                  unfold finishEnumeration
                  rw [hcut.stopped, Bool.not_true, Bool.and_false, if_neg Bool.false_ne_true]
                  exact ⟨_, rfl, rfl⟩
                · right
                  have hfinish := congrArg (finishEnumeration tokenIn tokenOut) hrun
                  exact hfinish

/-- A cancellation callback that never fires does not cut an enumeration short. -/
theorem stopped_enumerateRoutesFiltered {g : AmmGraph G} {tokenIn tokenOut : Address}
    {config : SearchConfig} {allow : Bool} {excluded : Finset RoutePath}
    {maxNewPaths : Option ℕ} {shouldContinue : Option (ℕ → Bool)}
    (hpoll : ∀ poll ∈ shouldContinue, ∀ count, poll count = true)
    {enumeration : RouteEnumeration}
    (henumeration : g.enumerateRoutesFiltered tokenIn tokenOut config allow excluded
      maxNewPaths shouldContinue = .ok enumeration) : enumeration.stopped = false := by
  simp only [enumerateRoutesFiltered, bind, Except.bind] at henumeration
  split at henumeration
  · cases henumeration
  · split at henumeration
    · split at henumeration
      · split at henumeration
        · obtain rfl := Except.ok.inj henumeration
          rfl
        · unfold finishEnumeration at henumeration
          split at henumeration
          · cases henumeration
          · obtain rfl := Except.ok.inj henumeration
            exact stopped_enumerateLoop g hpoll _ _
      · cases henumeration
    · cases henumeration

theorem enumerateRoutesFiltered_uninterrupted (g : AmmGraph G)
    (tokenIn tokenOut : Address) (config : SearchConfig) (allow : Bool)
    (excluded : Finset RoutePath) (maxNewPaths : Option ℕ)
    {shouldContinue : Option (ℕ → Bool)}
    (hpoll : ∀ poll ∈ shouldContinue, ∀ count, poll count = true) :
    g.enumerateRoutesFiltered tokenIn tokenOut config allow excluded maxNewPaths
        shouldContinue =
      g.enumerateRoutesFiltered tokenIn tokenOut config allow excluded maxNewPaths
        none := by
  rcases g.enumerateRoutesFiltered_cases tokenIn tokenOut config allow excluded maxNewPaths
    shouldContinue with ⟨enumeration, henumeration, hstopped⟩ | hsame
  · rw [stopped_enumerateRoutesFiltered hpoll henumeration] at hstopped
    cases hstopped
  · exact hsame

end Uninterrupted

section Fits

variable {context : EnumerationContext} {limit : ℕ}

/-- A run within its path limit, with room for one more path while it goes on. -/
structure Fits (limit : ℕ) (run : EnumerationRun) : Prop where
  length : run.paths.length ≤ limit
  room : run.halted = false → run.paths.length < limit

theorem Fits.poll {run : EnumerationRun} (hrun : Fits limit run) :
    Fits limit (run.poll context) := by
  unfold EnumerationRun.poll
  split
  · exact hrun
  · split
    · exact ⟨hrun.length, hrun.room⟩
    · exact ⟨hrun.length, fun hgoes => by cases hgoes⟩

theorem Fits.applyStep (hlimit : context.maxNewPaths = some limit) {run : EnumerationRun}
    (hrun : Fits limit run) (hgoes : run.halted = false) (edgeStep : EdgeStep) :
    Fits limit (run.applyStep context edgeStep) := by
  cases edgeStep with
  | skip => exact hrun
  | extend state => exact ⟨hrun.length, hrun.room⟩
  | close path =>
      have hroom := hrun.room hgoes
      simp only [EnumerationRun.applyStep, EnumerationRun.recordPath, hlimit, Option.any_some]
      split
      · refine ⟨hrun.length, fun hgoes => ?_⟩
        simpa using hgoes
      · constructor
        · rw [List.length_append, List.length_singleton]
          exact hroom
        · intro hgoes
          simpa using hgoes

theorem Fits.scanEdges (hlimit : context.maxNewPaths = some limit) (state : SearchState)
    (edges : List CachedOutgoingEdge) {run : EnumerationRun} (hrun : Fits limit run) :
    Fits limit (EnumerationRun.scanEdges context state edges run) := by
  induction edges generalizing run with
  | nil => exact hrun
  | cons edge rest ih =>
      have hpolled := @Fits.poll context limit run hrun
      rw [EnumerationRun.scanEdges]
      simp only
      split
      · exact hpolled
      · rename_i hgoes
        have hstepped := hpolled.applyStep hlimit (by simpa using hgoes)
          (context.edgeStep state edge)
        split
        · exact hstepped
        · exact ih hstepped

theorem Fits.enumerateLoop (g : AmmGraph G) (hlimit : context.maxNewPaths = some limit)
    (fuel : ℕ) {run : EnumerationRun} (hrun : Fits limit run) :
    Fits limit (g.enumerateLoop context fuel run) := by
  induction fuel generalizing run with
  | zero => exact hrun
  | succ fuel ih =>
      rw [AmmGraph.enumerateLoop]
      split
      · exact hrun
      · rename_i state rest _
        have hpolled : Fits limit (EnumerationRun.poll context { run with queue := rest }) :=
          Fits.poll ⟨hrun.length, hrun.room⟩
        simp only
        split
        · exact hpolled
        · split
          · exact ih hpolled
          · have hscanned := hpolled.scanEdges hlimit state (g.outgoingEdges state.node)
            split
            · exact hscanned
            · exact ih hscanned

/-- An enumeration lists no more paths than its limit. -/
theorem length_enumerateRoutesFiltered_le {g : AmmGraph G} {tokenIn tokenOut : Address}
    {config : SearchConfig} {allow : Bool} {excluded : Finset RoutePath}
    {shouldContinue : Option (ℕ → Bool)} {enumeration : RouteEnumeration}
    (henumeration : g.enumerateRoutesFiltered tokenIn tokenOut config allow excluded
      (some limit) shouldContinue = .ok enumeration) : enumeration.paths.length ≤ limit := by
  simp only [enumerateRoutesFiltered, bind, Except.bind] at henumeration
  split at henumeration
  · cases henumeration
  · split at henumeration
    · split at henumeration
      · split at henumeration
        · obtain rfl := Except.ok.inj henumeration
          exact Nat.zero_le _
        · rename_i source _ target _ hpositive
          unfold finishEnumeration at henumeration
          split at henumeration
          · cases henumeration
          · obtain rfl := Except.ok.inj henumeration
            apply Fits.length
            apply Fits.enumerateLoop g rfl
            refine ⟨Nat.zero_le _, fun _ => ?_⟩
            have hne : limit ≠ 0 := fun hzero => hpositive (by rw [hzero])
            exact Nat.pos_of_ne_zero hne
      · cases henumeration
    · cases henumeration

end Fits

section Enumerate

variable {g : AmmGraph G} {tokenIn tokenOut : Address}
  {config : SearchConfig} {source target : NodeIndex}

/-- The context of an uninterrupted enumeration. -/
def requestContext (source target : NodeIndex) (tokenIn tokenOut : Address)
    (config : SearchConfig) (allowFinalSourceRevisit : Bool)
    (excluded : Finset RoutePath) (maxNewPaths : Option ℕ) :
    EnumerationContext where
  source := source
  target := target
  tokenIn := tokenIn
  tokenOut := tokenOut
  config := config
  allowFinalSourceRevisit := allowFinalSourceRevisit
  excluded := excluded
  maxNewPaths := maxNewPaths
  shouldContinue := none

/-- The routes of a request in enumeration order. -/
def requestRoutes (g : AmmGraph G) (source target : NodeIndex)
    (tokenIn tokenOut : Address) (config : SearchConfig)
    (allowFinalSourceRevisit : Bool) : List RoutePath :=
  g.routeList (requestContext source target tokenIn tokenOut config
    allowFinalSourceRevisit ∅ none)

/-- The unlimited loop accumulates the route list, skipping excluded paths. -/
theorem enumerateLoop_full (allow : Bool) (excluded : Finset RoutePath) :
    let context :=
      requestContext source target tokenIn tokenOut config allow excluded none
    let routes := g.requestRoutes source target tokenIn tokenOut config allow
    let run := g.enumerateLoop context (g.enumerationFuel config.maxHops)
      { queue := [rootState context] }
    run.paths = routes.filter (· ∉ excluded) ∧
      run.duplicatesSkipped = (routes.filter (· ∈ excluded)).length ∧
      run.foundPath = !routes.isEmpty ∧ run.stopped = false := by
  intro context routes run
  obtain ⟨queue, hloop⟩ := @enumerateLoop_eq_drain _ g context rfl rfl
    (g.enumerationFuel config.maxHops) { queue := [rootState context] } rfl
  have hdrain := @drain_enumeration _ g context (rootState context) rfl
  have hrun : run = { EnumerationRun.absorb context
      { queue := [rootState context] } routes [] with queue := queue } := by
    simp only [run, hloop]
    rw [show routes = _ from hdrain.symm]
    rfl
  rw [hrun]
  simp [EnumerationRun.absorb, context, requestContext]

/-- Once the request is resolved, enumeration is the queue loop. -/
theorem enumerateRoutesFiltered_eq (hvalid : config.validate = .ok ())
    (hsource : g.nodeIndex tokenIn = some source)
    (htarget : g.nodeIndex tokenOut = some target) (allow : Bool)
    (excluded : Finset RoutePath) {maxNewPaths : Option ℕ}
    (hlimit : maxNewPaths ≠ some 0) :
    g.enumerateRoutesFiltered tokenIn tokenOut config allow excluded maxNewPaths
        none =
      finishEnumeration tokenIn tokenOut
        (g.enumerateLoop
          (requestContext source target tokenIn tokenOut config allow excluded
            maxNewPaths)
          (g.enumerationFuel config.maxHops)
          { queue := [rootState (requestContext source target tokenIn tokenOut
            config allow excluded maxNewPaths)] }) := by
  unfold enumerateRoutesFiltered
  rw [hvalid, hsource, htarget]
  exact if_neg hlimit

theorem enumerateRoutesFiltered_full (hvalid : config.validate = .ok ())
    (hsource : g.nodeIndex tokenIn = some source)
    (htarget : g.nodeIndex tokenOut = some target) (allow : Bool)
    (excluded : Finset RoutePath) :
    let routes := g.requestRoutes source target tokenIn tokenOut config allow
    g.enumerateRoutesFiltered tokenIn tokenOut config allow excluded none none =
      if routes = [] then .error (.noPath tokenIn tokenOut)
      else .ok
        { paths := routes.filter (· ∉ excluded)
          duplicatesSkipped := (routes.filter (· ∈ excluded)).length
          stopped := false } := by
  intro routes
  obtain ⟨hpaths, hduplicates, hfound, hstopped⟩ :=
    @enumerateLoop_full _ g tokenIn tokenOut config source target allow excluded
  rw [enumerateRoutesFiltered_eq hvalid hsource htarget allow excluded (by simp)]
  unfold finishEnumeration
  rw [hpaths, hduplicates, hfound, hstopped]
  by_cases hempty : routes = []
  · simp [routes] at hempty
    simp [hempty, routes]
  · simp [routes] at hempty
    simp [hempty, routes]

/-- With a path limit, enumeration returns the first paths of the same list. -/
theorem enumerateRoutesFiltered_limited (hvalid : config.validate = .ok ())
    (hsource : g.nodeIndex tokenIn = some source)
    (htarget : g.nodeIndex tokenOut = some target) (allow : Bool) {limit : ℕ}
    (hlimit : 1 ≤ limit) :
    let routes := g.requestRoutes source target tokenIn tokenOut config allow
    g.enumerateRoutesFiltered tokenIn tokenOut config allow ∅ (some limit) none =
      if routes = [] then .error (.noPath tokenIn tokenOut)
      else .ok
        { paths := routes.take limit, duplicatesSkipped := 0, stopped := false } := by
  intro routes
  obtain ⟨hpaths, _, hfound, hstopped⟩ :=
    @enumerateLoop_full _ g tokenIn tokenOut config source target allow ∅
  have htruncates := @enumerateLoop_truncates _ g
    (requestContext source target tokenIn tokenOut config allow ∅ none)
    (requestContext source target tokenIn tokenOut config allow ∅ (some limit))
    limit rfl rfl rfl
    (g.enumerationFuel config.maxHops)
    { queue := [rootState (requestContext source target tokenIn tokenOut config
      allow ∅ (some limit))] } rfl hlimit
  have hduplicates := @duplicatesSkipped_enumerateLoop _ g
    (requestContext source target tokenIn tokenOut config allow ∅ (some limit)) rfl
    (g.enumerationFuel config.maxHops)
    { queue := [rootState (requestContext source target tokenIn tokenOut config
      allow ∅ (some limit))] }
  rw [enumerateRoutesFiltered_eq hvalid hsource htarget allow ∅
    (by simpa using Nat.one_le_iff_ne_zero.mp hlimit)]
  generalize g.enumerateLoop (requestContext source target tokenIn tokenOut config
    allow ∅ (some limit)) _ _ = limited at htruncates hduplicates ⊢
  change Truncates limit limited (g.enumerateLoop _ _
    { queue := [rootState (requestContext source target tokenIn tokenOut config
      allow ∅ none)] }) at htruncates
  generalize g.enumerateLoop _ _ _ = unlimited at hpaths hfound hstopped htruncates
  have hroutes : unlimited.paths = routes := by
    rw [hpaths]
    simp [routes]
  have hresult : limited.paths = routes.take limit ∧
      limited.foundPath = !routes.isEmpty ∧ limited.stopped = false := by
    rcases htruncates with ⟨rfl, _, hshort⟩ |
      ⟨_, hlength, hpre, hlimitedFound, hunlimitedFound, hsame⟩
    · refine ⟨?_, hfound, hstopped⟩
      rw [hroutes] at hshort ⊢
      exact (List.take_of_length_le hshort.le).symm
    · refine ⟨?_, ?_, hsame.trans hstopped⟩
      · rw [← hroutes, ← hlength]
        exact List.prefix_iff_eq_take.mp hpre
      · exact hlimitedFound.trans (hunlimitedFound.symm.trans hfound)
  unfold finishEnumeration
  rw [hresult.1, hresult.2.1, hresult.2.2, hduplicates]
  by_cases hempty : routes = []
  · simp [hempty]
  · simp [hempty]

end Enumerate

section Exactness

variable [StableDiGraph G Address EdgeData] {g : AmmGraph G}
  {tokenIn tokenOut : Address} {config : SearchConfig}

/-- The routes of a request are its universe, in order of length. -/
theorem requestRoutes_spec (hindexed : g.Indexed)
    (hvalid : config.validate = .ok ()) {source target : NodeIndex}
    (hsource : g.nodeIndex tokenIn = some source)
    (htarget : g.nodeIndex tokenOut = some target) (allow : Bool) :
    let routes := g.requestRoutes source target tokenIn tokenOut config allow
    routes.Nodup ∧
      (∀ path, path ∈ routes ↔ g.IsRoute config tokenIn tokenOut allow path) ∧
      routes.Pairwise fun left right => left.length ≤ right.length := by
  have hcontext : g.ContextNodes (requestContext source target tokenIn tokenOut
      config allow ∅ none) := ⟨hsource, htarget⟩
  exact ⟨nodup_routeList hindexed hcontext,
    mem_routeList_iff hindexed hcontext (SearchConfig.hops_of_validate hvalid).1,
    pairwise_length_routeList hindexed hcontext⟩

/-- Enumeration returns exactly the route universe of the request, shortest
paths first, and a path limit truncates that list. -/
theorem enumerateRoutesFiltered_exact (hbuilt : g.Built)
    (hvalid : config.validate = .ok ()) (hin : (g.nodeIndex tokenIn).isSome)
    (hout : (g.nodeIndex tokenOut).isSome) (allowFinalSourceRevisit : Bool) :
    ∃ routes : List RoutePath,
      routes.Nodup ∧
      (∀ path, path ∈ routes ↔
        g.IsRoute config tokenIn tokenOut allowFinalSourceRevisit path) ∧
      (routes.Pairwise fun left right => left.length ≤ right.length) ∧
      g.enumerateRoutesFiltered tokenIn tokenOut config allowFinalSourceRevisit ∅
          none none =
        (if routes = [] then .error (.noPath tokenIn tokenOut)
        else .ok
          { paths := routes, duplicatesSkipped := 0, stopped := false }) ∧
      ∀ limit, 1 ≤ limit →
        g.enumerateRoutesFiltered tokenIn tokenOut config allowFinalSourceRevisit
            ∅ (some limit) none =
          if routes = [] then .error (.noPath tokenIn tokenOut)
          else .ok
            { paths := routes.take limit
              duplicatesSkipped := 0
              stopped := false } := by
  obtain ⟨source, hsource⟩ := Option.isSome_iff_exists.mp hin
  obtain ⟨target, htarget⟩ := Option.isSome_iff_exists.mp hout
  obtain ⟨hnodup, hmem, hsorted⟩ := requestRoutes_spec hbuilt.indexed hvalid
    hsource htarget allowFinalSourceRevisit
  refine ⟨g.requestRoutes source target tokenIn tokenOut config
    allowFinalSourceRevisit, hnodup, hmem, hsorted, ?_, ?_⟩
  · have hfull := enumerateRoutesFiltered_full hvalid hsource htarget
      allowFinalSourceRevisit ∅
    simpa using hfull
  · intro limit hlimit
    exact enumerateRoutesFiltered_limited hvalid hsource htarget
      allowFinalSourceRevisit hlimit

end Exactness

end AmmGraph

namespace TwoPoolExample

/-- The address is that of the first letter of the name. -/
def pool (name : Text) (token0 token1 : Address) : PoolRegistration where
  key := ⟨.uniswapV2, name.head?.map fun letter => Fin.ofNat (2 ^ 160) letter.toNat, name⟩
  status := .ready
  metadata := .uniswapV2 ⟨some token0, some token1, some 30⟩
  tokens := some [token0, token1]

def registry : AdapterRegistry where
  pools := [pool ['b'] 2 3, pool ['a'] 1 2]
  adapter := fun _ => none
  nodup_keys := by decide

def graph : AmmGraph (SlotGraph Address EdgeData) :=
  (AmmGraph.fromRegistry 1 registry {}).graph

/-- The chain `1 → 2 → 3` has one route. -/
theorem enumerate_one_three :
    (∃ routes : List RoutePath, routes ≠ [] ∧
      graph.enumerateRoutesFiltered 1 3 {} false ∅ none none =
        .ok { paths := routes, duplicatesSkipped := 0, stopped := false }) ∧
      [⟨(pool ['a'] 1 2).key, 1, 2⟩, ⟨(pool ['b'] 2 3).key, 2, 3⟩] ∈
        ((graph.enumerateRoutesFiltered 1 3 {} false ∅ none none).toOption.map
          RouteEnumeration.paths).getD [] := by
  obtain ⟨routes, _, _, _, hfull, _⟩ :=
    @AmmGraph.enumerateRoutesFiltered_exact _ _ graph 1 3 {} (.fromRegistry 1 registry {}) (by rfl)
      (by decide) (by decide) false
  refine ⟨⟨routes, ?_, ?_⟩, by decide⟩
  · rintro rfl
    rw [if_pos rfl] at hfull
    exact absurd hfull (by decide)
  · rw [hfull, if_neg]
    rintro rfl
    rw [if_pos rfl] at hfull
    exact absurd hfull (by decide)

end TwoPoolExample

end AmmSearch
