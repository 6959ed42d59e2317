/-
The edge guards of heuristic search over tokens instead of nodes, and the
exactness of its static reachability search: a prefix passes iff some
completion within the hop bound exists.
-/
import AmmSearch.EnumerationExact
import AmmSearch.HeuristicSearch

open FiniteMap StableGraph

namespace AmmSearch

/-- The tokens on a path. -/
def visitedOf (start : Address) (path : RoutePath) : Finset Address :=
  (start :: path.map Hop.tokenOut).toFinset

/-- The pools on a path. -/
def usedOf (path : RoutePath) : Finset PoolKey :=
  (path.map Hop.pool).toFinset

theorem visitedOf_append_singleton (start : Address) (path : RoutePath) (hop : Hop) :
    visitedOf start (path ++ [hop]) = insert hop.tokenOut (visitedOf start path) := by
  ext token
  simp only [visitedOf, List.map_append, List.map_singleton, List.mem_toFinset,
    List.mem_cons, List.mem_append, Finset.mem_insert, List.not_mem_nil, or_false]
  tauto

theorem usedOf_append_singleton (path : RoutePath) (hop : Hop) :
    usedOf (path ++ [hop]) = insert hop.pool (usedOf path) := by
  ext pool
  simp [usedOf]

@[simp] theorem mem_visitedOf {start token : Address} {path : RoutePath} :
    token ∈ visitedOf start path ↔ token ∈ start :: path.map Hop.tokenOut :=
  List.mem_toFinset

@[simp] theorem mem_usedOf {pool : PoolKey} {path : RoutePath} :
    pool ∈ usedOf path ↔ pool ∈ path.map Hop.pool :=
  List.mem_toFinset

namespace HeuristicContext

variable {G : Type} [StableDiGraph G Address EdgeData]

/-- The configuration with the connectors that the search really uses. -/
def effective (context : HeuristicContext) : SearchConfig :=
  { context.config with connectorTokens := context.connectorTokens }

/-- The context names the nodes of its two tokens in a consistent graph. -/
structure Resolved (context : HeuristicContext) (g : AmmGraph G) : Prop where
  indexed : g.Indexed
  source : g.nodeIndex context.tokenIn = some context.source
  target : g.nodeIndex context.tokenOut = some context.target

/-- The prefixes of this search. -/
def IsOpen (context : HeuristicContext) (g : AmmGraph G) (path : RoutePath) : Prop :=
  g.IsPrefix context.effective context.tokenIn context.tokenOut path

/-- A route may end where this search ends. -/
def MayClose (context : HeuristicContext) : Prop :=
  (context.allowFinalSourceRevisit = true ∧ context.tokenIn = context.tokenOut) ∨
    context.tokenIn ≠ context.tokenOut

/-- The hop closes `path` at the target. -/
def Closes (context : HeuristicContext) (g : AmmGraph G) (path : RoutePath)
    (hop : Hop) : Prop :=
  g.Continues context.tokenIn path hop ∧ hop.tokenOut = context.tokenOut ∧
    context.MayClose

/-- The hop extends `path` to a longer prefix. -/
def Extends (context : HeuristicContext) (g : AmmGraph G) (path : RoutePath)
    (hop : Hop) : Prop :=
  g.Continues context.tokenIn path hop ∧
    hop.tokenOut ∉ context.tokenIn :: path.map Hop.tokenOut ∧
    hop.tokenOut ≠ context.tokenOut ∧
    connectorAllowed hop.tokenOut context.tokenIn context.tokenOut
      context.effective = true

/-- Some completion of `path` reaches the target in at most `hops` hops. -/
def Completes (context : HeuristicContext) (g : AmmGraph G) (path : RoutePath)
    (hops : ℕ) : Prop :=
  ∃ whole hop, path <+: whole ∧ context.IsOpen g whole ∧
    context.Closes g whole hop ∧ whole.length + 1 ≤ path.length + hops

variable {context : HeuristicContext} {g : AmmGraph G} {path : RoutePath} {hop : Hop}

theorem isOpen_nil : context.IsOpen g [] :=
  AmmGraph.isPrefix_nil

theorem isOpen_append_singleton :
    context.IsOpen g (path ++ [hop]) ↔
      context.IsOpen g path ∧ context.Extends g path hop :=
  AmmGraph.isPrefix_append_singleton

theorem IsOpen.of_isPrefix {whole : RoutePath} (hwhole : context.IsOpen g whole)
    (hpre : path <+: whole) : context.IsOpen g path := by
  obtain ⟨rest, rfl⟩ := hpre
  induction rest using List.reverseRecOn with
  | nil => simpa using hwhole
  | append_singleton rest last ih =>
      rw [← List.append_assoc, isOpen_append_singleton] at hwhole
      exact ih hwhole.1

theorem isRoute_effective_append_singleton :
    g.IsRoute context.effective context.tokenIn context.tokenOut
        context.allowFinalSourceRevisit (path ++ [hop]) ↔
      context.IsOpen g path ∧ context.Closes g path hop ∧
        context.config.minHops ≤ path.length + 1 ∧
        path.length + 1 ≤ context.config.maxHops := by
  rw [AmmGraph.isRoute_append_singleton]
  constructor
  · rintro ⟨hpre, hcontinues, hout, hmode, hmin, hmax⟩
    exact ⟨hpre, ⟨hcontinues, hout, hmode⟩, hmin, hmax⟩
  · rintro ⟨hpre, ⟨hcontinues, hout, hmode⟩, hmin, hmax⟩
    exact ⟨hpre, hcontinues, hout, hmode, hmin, hmax⟩

theorem closesSourceCycle_iff (hresolved : context.Resolved g)
    {edge : CachedOutgoingEdge}
    (hedge : g.nodeIndex edge.tokenOut = some edge.target) :
    context.closesSourceCycle edge.target = true ↔
      context.allowFinalSourceRevisit = true ∧
        context.tokenIn = context.tokenOut ∧ edge.tokenOut = context.tokenIn := by
  have hsource := AmmGraph.target_eq_iff hresolved.indexed hedge hresolved.source
  have hends : context.source = context.target ↔
      context.tokenIn = context.tokenOut := by
    constructor
    · intro heq
      exact AmmGraph.nodeIndex_inj hresolved.indexed hresolved.source
        (heq ▸ hresolved.target)
    · intro heq
      have hsame := hresolved.source
      rw [heq, hresolved.target] at hsame
      exact (Option.some.inj hsame).symm
  simp only [closesSourceCycle, Bool.and_eq_true, beq_iff_eq, hends, hsource,
    and_assoc]

theorem admits_eq_true_iff {visited : Finset Address} {edge : CachedOutgoingEdge} :
    context.admits visited edge = true ↔
      (edge.tokenOut ∈ visited → context.closesSourceCycle edge.target = true) ∧
        (edge.target ≠ context.target →
          connectorAllowed edge.tokenOut context.tokenIn context.tokenOut
            context.effective = true) := by
  change (if _ then _ else if edge.target ≠ context.target ∧
    connectorAllowed edge.tokenOut context.tokenIn context.tokenOut
      context.effective = false then _ else _) = _ ↔ _
  split_ifs with hvisited hconnector
  · simp only [false_iff, not_and]
    intro hcycle
    rw [hcycle hvisited.1] at hvisited
    exact absurd hvisited.2 (by simp)
  · simp only [false_iff, not_and]
    intro _ hallowed
    rw [hallowed hconnector.1] at hconnector
    exact absurd hconnector.2 (by simp)
  · simpa only [not_and, Bool.not_eq_false, true_iff] using
      And.intro hvisited hconnector

/-- The shared edge guards, over tokens instead of nodes. -/
theorem admits_iff (hresolved : context.Resolved g) (hopen : context.IsOpen g path)
    {edge : CachedOutgoingEdge}
    (hedge : g.nodeIndex edge.tokenOut = some edge.target) :
    context.admits (visitedOf context.tokenIn path) edge = true ↔
      (edge.tokenOut = context.tokenOut ∧ context.MayClose) ∨
        (edge.tokenOut ≠ context.tokenOut ∧
          edge.tokenOut ∉ context.tokenIn :: path.map Hop.tokenOut ∧
          connectorAllowed edge.tokenOut context.tokenIn context.tokenOut
            context.effective = true) := by
  have htarget := AmmGraph.target_eq_iff hresolved.indexed hedge hresolved.target
  have hcycle := closesSourceCycle_iff hresolved hedge
  have hfresh : context.tokenOut ∉ path.map Hop.tokenOut := by
    intro hmem
    obtain ⟨other, hother, heq⟩ := List.mem_map.mp hmem
    exact (hopen.intermediates other hother).1 heq
  rw [admits_eq_true_iff, mem_visitedOf, hcycle, ne_eq, htarget]
  by_cases hout : edge.tokenOut = context.tokenOut
  · have hvisited : edge.tokenOut ∈ context.tokenIn :: path.map Hop.tokenOut ↔
        context.tokenIn = context.tokenOut := by
      rw [hout, List.mem_cons, or_iff_left hfresh, eq_comm]
    rw [hvisited, hout, MayClose, @eq_comm _ context.tokenOut context.tokenIn]
    tauto
  · constructor
    · rintro ⟨hvisited, hallowed⟩
      refine Or.inr ⟨hout, ?_, hallowed hout⟩
      intro hmem
      obtain ⟨_, hends, hsource⟩ := hvisited hmem
      exact hout (hsource.trans hends)
    · rintro (⟨heq, _⟩ | ⟨_, hnew, hallowed⟩)
      · exact absurd heq hout
      · exact ⟨fun hmem => absurd hmem hnew, fun _ => hallowed⟩

section Edges

variable {node : NodeIndex}
  (hresolved : context.Resolved g) (hopen : context.IsOpen g path)
  (hnode : g.nodeIndex (endToken context.tokenIn path) = some node)

include hresolved hopen hnode

/-- An outgoing edge passes the guards iff its hop closes or extends the path. -/
theorem outgoing_admitted_iff (hop : Hop) :
    (∃ edge ∈ g.outgoingEdges node, edge.pool ∉ usedOf path ∧
        context.admits (visitedOf context.tokenIn path) edge = true ∧
        AmmGraph.edgeHop edge = hop) ↔
      context.Closes g path hop ∨ context.Extends g path hop := by
  constructor
  · rintro ⟨edge, hedge, hpool, hadmits, rfl⟩
    obtain ⟨hin, hout, hhop⟩ := (hresolved.indexed.mem_outgoingEdges hnode edge).mp hedge
    have hcontinues : g.Continues context.tokenIn path (AmmGraph.edgeHop edge) :=
      ⟨by simpa only [AmmGraph.edgeHop, hin] using hhop, hin, mt mem_usedOf.mpr hpool⟩
    rcases (admits_iff hresolved hopen hout).mp hadmits with
      ⟨htarget, hmode⟩ | ⟨htarget, hnew, hallowed⟩
    · exact Or.inl ⟨hcontinues, htarget, hmode⟩
    · exact Or.inr ⟨hcontinues, hnew, htarget, hallowed⟩
  · intro hcase
    have hcontinues : g.Continues context.tokenIn path hop := by
      rcases hcase with hcloses | hextends
      · exact hcloses.1
      · exact hextends.1
    obtain ⟨hedge, hstart, hpool⟩ := hcontinues
    obtain ⟨out, hout⟩ : ∃ out, g.nodeIndex hop.tokenOut = some out := by
      obtain ⟨e, record, _, _, _, hout⟩ := hedge
      exact ⟨_, (hresolved.indexed.linked.node_iff _ _).mpr hout⟩
    refine ⟨⟨out, hop.tokenIn, hop.tokenOut, hop.pool⟩, ?_, mt mem_usedOf.mp hpool,
      ?_, rfl⟩
    · refine (hresolved.indexed.mem_outgoingEdges hnode _).mpr ⟨hstart, hout, ?_⟩
      simpa only [← hstart] using hedge
    · refine (admits_iff hresolved hopen hout).mpr ?_
      rcases hcase with ⟨_, htarget, hmode⟩ | ⟨_, hnew, htarget, hallowed⟩
      · exact Or.inl ⟨htarget, hmode⟩
      · exact Or.inr ⟨htarget, hnew, hallowed⟩

/-- An admitted edge away from the target extends the path. -/
theorem extends_of_admitted {edge : CachedOutgoingEdge}
    (hedge : edge ∈ g.outgoingEdges node) (hpool : edge.pool ∉ usedOf path)
    (hadmits : context.admits (visitedOf context.tokenIn path) edge = true)
    (htarget : edge.target ≠ context.target) :
    context.Extends g path (AmmGraph.edgeHop edge) ∧
      g.nodeIndex edge.tokenOut = some edge.target := by
  obtain ⟨_, hout, _⟩ := (hresolved.indexed.mem_outgoingEdges hnode edge).mp hedge
  refine ⟨?_, hout⟩
  rcases (outgoing_admitted_iff hresolved hopen hnode _).mp
    ⟨edge, hedge, hpool, hadmits, rfl⟩ with hcloses | hextends
  · exact absurd ((AmmGraph.target_eq_iff hresolved.indexed hout
      hresolved.target).mpr hcloses.2.1) htarget
  · exact hextends

/-- An admitted edge into the target closes the path. -/
theorem closes_of_admitted {edge : CachedOutgoingEdge}
    (hedge : edge ∈ g.outgoingEdges node) (hpool : edge.pool ∉ usedOf path)
    (hadmits : context.admits (visitedOf context.tokenIn path) edge = true)
    (htarget : edge.target = context.target) :
    context.Closes g path (AmmGraph.edgeHop edge) := by
  obtain ⟨_, hout, _⟩ := (hresolved.indexed.mem_outgoingEdges hnode edge).mp hedge
  rcases (outgoing_admitted_iff hresolved hopen hnode _).mp
    ⟨edge, hedge, hpool, hadmits, rfl⟩ with hcloses | hextends
  · exact hcloses
  · exact absurd ((AmmGraph.target_eq_iff hresolved.indexed hout
      hresolved.target).mp htarget) hextends.2.2.1

end Edges

/-- A completion starts with a closing hop or with an extension. -/
theorem completes_succ (hopen : context.IsOpen g path) (hops : ℕ) :
    context.Completes g path (hops + 1) ↔
      (∃ hop, context.Closes g path hop) ∨
        ∃ hop, context.Extends g path hop ∧
          context.Completes g (path ++ [hop]) hops := by
  constructor
  · rintro ⟨whole, last, ⟨rest, rfl⟩, hwhole, hcloses, hlength⟩
    cases rest with
    | nil => exact Or.inl ⟨last, by simpa using hcloses⟩
    | cons hop rest =>
        have hpre : path ++ [hop] <+: path ++ hop :: rest := ⟨rest, by simp⟩
        have hextends := (isOpen_append_singleton.mp (hwhole.of_isPrefix hpre)).2
        refine Or.inr ⟨hop, hextends, path ++ hop :: rest, last, hpre, hwhole,
          hcloses, ?_⟩
        simp only [List.length_append, List.length_cons, List.length_nil] at hlength ⊢
        omega
  · rintro (⟨hop, hcloses⟩ | ⟨hop, hextends, whole, last, hpre, hwhole, hcloses,
      hlength⟩)
    · exact ⟨path, hop, List.prefix_refl path, hopen, hcloses, by omega⟩
    · refine ⟨whole, last, (List.prefix_append path [hop]).trans hpre, hwhole,
        hcloses, ?_⟩
      simp only [List.length_append, List.length_singleton] at hlength
      omega

theorem not_completes_zero : ¬ context.Completes g path 0 := by
  rintro ⟨whole, _, hpre, _, _, hlength⟩
  have := hpre.length_le
  omega

end HeuristicContext

namespace AmmSearcher

section StaticScan

variable {context : HeuristicContext}

/-- The edge loop restores its sets and finds a closing edge or a successful
recursive call. -/
theorem staticScan_spec {remaining : ℕ}
    {recurse : NodeIndex → StaticSets → Bool × StaticSets}
    {edges : List CachedOutgoingEdge} {sets : StaticSets}
    (hrestore : 1 < remaining → ∀ edge ∈ edges, edge.pool ∉ sets.usedPools →
      context.admits sets.visitedTokens edge = true → edge.target ≠ context.target →
      edge.tokenOut ∉ sets.visitedTokens ∧
        (recurse edge.target ⟨insert edge.tokenOut sets.visitedTokens,
          insert edge.pool sets.usedPools⟩).2 =
            ⟨insert edge.tokenOut sets.visitedTokens,
              insert edge.pool sets.usedPools⟩) :
    (staticScan context remaining recurse edges sets).2 = sets ∧
      ((staticScan context remaining recurse edges sets).1 = true ↔
        ∃ edge ∈ edges, edge.pool ∉ sets.usedPools ∧
          context.admits sets.visitedTokens edge = true ∧
          (edge.target = context.target ∨ edge.target ≠ context.target ∧
            1 < remaining ∧
            (recurse edge.target ⟨insert edge.tokenOut sets.visitedTokens,
              insert edge.pool sets.usedPools⟩).1 = true)) := by
  induction edges with
  | nil => simp [staticScan]
  | cons edge rest ih =>
      obtain ⟨hsets, hfound⟩ := ih fun hlt other hother =>
        hrestore hlt other (List.mem_cons_of_mem edge hother)
      rw [staticScan]
      simp only [List.mem_cons, exists_eq_or_imp]
      split
      · rename_i hused
        simp [hsets, hfound, hused]
      · rename_i hused
        split
        · rename_i hrefused
          simp [hsets, hfound, hrefused]
        · rename_i hadmits
          rw [Bool.not_eq_false] at hadmits
          split
          · rename_i htarget
            simp [hused, hadmits, htarget]
          · rename_i htarget
            split
            · rename_i hremaining
              simp [hsets, hfound, htarget, Nat.not_lt.mpr hremaining]
            · rename_i hremaining
              obtain ⟨hnew, hback⟩ := hrestore (Nat.not_le.mp hremaining) edge
                List.mem_cons_self hused hadmits htarget
              have hsame : (⟨(insert edge.tokenOut sets.visitedTokens).erase
                  edge.tokenOut, (insert edge.pool sets.usedPools).erase edge.pool⟩ :
                  StaticSets) = sets := by
                rw [Finset.erase_insert hnew, Finset.erase_insert hused]
              simp only [hback, if_neg hnew, hsame]
              split
              · rename_i hrecurse
                simp [hused, hadmits, htarget, Nat.not_le.mp hremaining, hrecurse]
              · rename_i hrecurse
                simp [hsets, hfound, htarget, hrecurse]

end StaticScan

section Static

variable {G : Type} [StableDiGraph G Address EdgeData] {searcher : AmmSearcher G}
  {context : HeuristicContext} {path : RoutePath}

/-- What the search decides at the node of an open path. -/
def StaticExact (searcher : AmmSearcher G) (context : HeuristicContext)
    (hops : ℕ) (path : RoutePath) (node : NodeIndex) : Prop :=
  (searcher.hasStaticRouteToTargetDfs context hops node
      ⟨visitedOf context.tokenIn path, usedOf path⟩).2 =
        ⟨visitedOf context.tokenIn path, usedOf path⟩ ∧
    ((searcher.hasStaticRouteToTargetDfs context hops node
      ⟨visitedOf context.tokenIn path, usedOf path⟩).1 = true ↔
        context.Completes searcher.graph path hops)

theorem staticExact_step (hresolved : context.Resolved searcher.graph) {hops : ℕ}
    {node : NodeIndex} (hopen : context.IsOpen searcher.graph path)
    (hnode : searcher.graph.nodeIndex (endToken context.tokenIn path) = some node)
    (hrecurse : 1 < hops + 1 → ∀ hop out,
      context.Extends searcher.graph path hop →
      searcher.graph.nodeIndex hop.tokenOut = some out →
      StaticExact searcher context hops (path ++ [hop]) out) :
    StaticExact searcher context (hops + 1) path node := by
  have hedge : 1 < hops + 1 → ∀ edge ∈ searcher.graph.outgoingEdges node,
      edge.pool ∉ usedOf path →
      context.admits (visitedOf context.tokenIn path) edge = true →
      edge.target ≠ context.target →
      context.Extends searcher.graph path (AmmGraph.edgeHop edge) ∧
        StaticExact searcher context hops (path ++ [AmmGraph.edgeHop edge])
          edge.target := by
    intro hlt edge hmem hpool hadmits htarget
    obtain ⟨hextends, hout⟩ := HeuristicContext.extends_of_admitted hresolved hopen
      hnode hmem hpool hadmits htarget
    exact ⟨hextends, hrecurse hlt _ _ hextends hout⟩
  have hsets : ∀ edge : CachedOutgoingEdge,
      (⟨visitedOf context.tokenIn (path ++ [AmmGraph.edgeHop edge]),
        usedOf (path ++ [AmmGraph.edgeHop edge])⟩ : StaticSets) =
      ⟨insert edge.tokenOut (visitedOf context.tokenIn path),
        insert edge.pool (usedOf path)⟩ := by
    intro edge
    rw [visitedOf_append_singleton, usedOf_append_singleton]
    rfl
  obtain ⟨hback, hfound⟩ := @staticScan_spec context (hops + 1)
    (searcher.hasStaticRouteToTargetDfs context hops)
    (searcher.graph.outgoingEdges node)
    ⟨visitedOf context.tokenIn path, usedOf path⟩ (by
      intro hlt edge hmem hpool hadmits htarget
      obtain ⟨hextends, hexact, _⟩ := hedge hlt edge hmem hpool hadmits htarget
      rw [hsets] at hexact
      exact ⟨mt mem_visitedOf.mp hextends.2.1, hexact⟩)
  refine ⟨hback, hfound.trans ?_⟩
  rw [HeuristicContext.completes_succ hopen]
  constructor
  · rintro ⟨edge, hmem, hpool, hadmits, htarget | ⟨htarget, hlt, hrest⟩⟩
    · exact Or.inl ⟨_, HeuristicContext.closes_of_admitted hresolved hopen hnode
        hmem hpool hadmits htarget⟩
    · obtain ⟨hextends, _, hexact⟩ := hedge hlt edge hmem hpool hadmits htarget
      rw [hsets] at hexact
      exact Or.inr ⟨_, hextends, hexact.mp hrest⟩
  · rintro (⟨hop, hcloses⟩ | ⟨hop, hextends, hrest⟩)
    · obtain ⟨edge, hmem, hpool, hadmits, rfl⟩ :=
        (HeuristicContext.outgoing_admitted_iff hresolved hopen hnode hop).mpr
          (Or.inl hcloses)
      obtain ⟨_, hout, _⟩ :=
        (hresolved.indexed.mem_outgoingEdges hnode edge).mp hmem
      exact ⟨edge, hmem, hpool, hadmits, Or.inl ((AmmGraph.target_eq_iff
        hresolved.indexed hout hresolved.target).mpr hcloses.2.1)⟩
    · obtain ⟨edge, hmem, hpool, hadmits, rfl⟩ :=
        (HeuristicContext.outgoing_admitted_iff hresolved hopen hnode hop).mpr
          (Or.inr hextends)
      obtain ⟨_, hout, _⟩ :=
        (hresolved.indexed.mem_outgoingEdges hnode edge).mp hmem
      have htarget : edge.target ≠ context.target := fun heq =>
        hextends.2.2.1 ((AmmGraph.target_eq_iff hresolved.indexed hout
          hresolved.target).mp heq)
      have hlt : 1 < hops + 1 := by
        cases hops with
        | zero => exact absurd hrest HeuristicContext.not_completes_zero
        | succ hops => omega
      obtain ⟨_, _, hexact⟩ := hedge hlt edge hmem hpool hadmits htarget
      rw [hsets] at hexact
      exact ⟨edge, hmem, hpool, hadmits,
        Or.inr ⟨htarget, hlt, hexact.mpr hrest⟩⟩

/-- The depth-first search is exact and restores its sets. -/
theorem hasStaticRouteToTargetDfs_spec
    (hresolved : context.Resolved searcher.graph) (hops : ℕ) {node : NodeIndex}
    (hopen : context.IsOpen searcher.graph path)
    (hnode : searcher.graph.nodeIndex (endToken context.tokenIn path) = some node) :
    StaticExact searcher context (hops + 1) path node := by
  induction hops generalizing path node with
  | zero =>
      exact staticExact_step hresolved hopen hnode fun hlt =>
        absurd hlt (lt_irrefl 1)
  | succ hops ih =>
      refine staticExact_step hresolved hopen hnode ?_
      intro _ hop out hextends hout
      exact ih (HeuristicContext.isOpen_append_singleton.mpr ⟨hopen, hextends⟩)
        (by simpa using hout)

/-- A hop away from the target passes the static filter iff the remaining hops
can complete it. -/
theorem hasStaticRouteToTarget_iff (hresolved : context.Resolved searcher.graph)
    {node : NodeIndex} (hopen : context.IsOpen searcher.graph path)
    (hnode : searcher.graph.nodeIndex (endToken context.tokenIn path) = some node)
    (htarget : node ≠ context.target) (hops : ℕ) :
    searcher.hasStaticRouteToTarget context node (visitedOf context.tokenIn path)
        (usedOf path) hops = true ↔
      context.Completes searcher.graph path hops := by
  unfold hasStaticRouteToTarget
  rw [if_neg htarget]
  cases hops with
  | zero => simp [HeuristicContext.not_completes_zero]
  | succ hops =>
      rw [if_neg (Nat.succ_ne_zero hops)]
      exact (hasStaticRouteToTargetDfs_spec hresolved hops hopen hnode).2

end Static

end AmmSearcher

end AmmSearch
