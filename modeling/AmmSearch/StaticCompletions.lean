/-
What static reachability decides for any visited tokens and used pools: the search finds a
route exactly when the edges of some completion lead to the target, and it gives back the
sets it was given.
-/
import AmmSearch.StaticReachability

open FiniteMap StableGraph

namespace AmmSearch

/-- The edges lead from the first node to the last one. -/
def AmmGraph.Walks {G : Type} (g : AmmGraph G) :
    NodeIndex → List CachedOutgoingEdge → NodeIndex → Prop
  | node, [], last => node = last
  | node, edge :: rest, last => edge ∈ g.outgoingEdges node ∧ g.Walks edge.target rest last

namespace HeuristicContext

variable {G : Type} {context : HeuristicContext} {g : AmmGraph G} {visited : Finset Address}
  {used : Finset PoolKey} {node : NodeIndex} {edge : CachedOutgoingEdge}
  {rest edges : List CachedOutgoingEdge}

/-- The search is for a cycle, whose last edge may return to its source. -/
def SeeksCycle (context : HeuristicContext) : Prop :=
  context.allowFinalSourceRevisit = true ∧ context.source = context.target

instance (context : HeuristicContext) : Decidable context.SeeksCycle :=
  inferInstanceAs (Decidable (_ ∧ _))

/-- The tokens that a completion must visit for the first time: all of them, or all but the
closing token of a cycle. -/
def firstVisits (context : HeuristicContext) (edges : List CachedOutgoingEdge) :
    List Address :=
  (if context.SeeksCycle then edges.dropLast else edges).map CachedOutgoingEdge.tokenOut

/-- The edges complete a route from the node to the target. -/
structure Completion (context : HeuristicContext) (g : AmmGraph G) (visited : Finset Address)
    (used : Finset PoolKey) (node : NodeIndex) (edges : List CachedOutgoingEdge) : Prop where
  walk : g.Walks node edges context.target
  pools : (edges.map CachedOutgoingEdge.pool).Nodup
  unused : ∀ edge ∈ edges, edge.pool ∉ used
  tokens : (context.firstVisits edges).Nodup
  unvisited : ∀ token ∈ context.firstVisits edges, token ∉ visited
  connectors : ∀ edge ∈ edges.dropLast,
    connectorAllowedWithTokens edge.tokenOut context.tokenIn context.tokenOut
      context.connectorTokens = true

theorem closesSourceCycle_of_target (htarget : node = context.target) :
    context.closesSourceCycle node = true ↔ context.SeeksCycle := by
  subst htarget
  unfold closesSourceCycle SeeksCycle
  simp only [Bool.and_eq_true, beq_iff_eq]
  constructor
  · rintro ⟨⟨hallow, hsource⟩, _⟩
    exact ⟨hallow, hsource⟩
  · rintro ⟨hallow, hsource⟩
    exact ⟨⟨hallow, hsource⟩, hsource.symm⟩

/-- Only an edge into the target closes a cycle. -/
theorem closesSourceCycle_eq_false (htarget : node ≠ context.target) :
    context.closesSourceCycle node = false := by
  unfold closesSourceCycle
  rw [← Bool.not_eq_true]
  simp only [Bool.and_eq_true, beq_iff_eq]
  rintro ⟨⟨_, hsource⟩, hnode⟩
  exact htarget (hnode.trans hsource)

/-- The guards admit a closing edge. -/
theorem admits_closing_iff (htarget : edge.target = context.target) :
    context.admits visited edge = true ↔ context.SeeksCycle ∨ edge.tokenOut ∉ visited := by
  rw [admits_eq_true_iff, closesSourceCycle_of_target htarget]
  constructor
  · rintro ⟨hvisited, _⟩
    by_cases hmem : edge.tokenOut ∈ visited
    · exact Or.inl (hvisited hmem)
    · exact Or.inr hmem
  · intro hcloses
    refine ⟨fun hmem => hcloses.resolve_right (not_not.mpr hmem), ?_⟩
    intro hne
    exact absurd htarget hne

/-- The guards admit an edge to another node. -/
theorem admits_open_iff (htarget : edge.target ≠ context.target) :
    context.admits visited edge = true ↔ edge.tokenOut ∉ visited ∧
      connectorAllowedWithTokens edge.tokenOut context.tokenIn context.tokenOut
        context.connectorTokens = true := by
  rw [admits_eq_true_iff, closesSourceCycle_eq_false htarget]
  constructor
  · rintro ⟨hvisited, hconnector⟩
    exact ⟨fun hmem => Bool.false_ne_true (hvisited hmem), hconnector htarget⟩
  · rintro ⟨hvisited, hconnector⟩
    exact ⟨fun hmem => absurd hmem hvisited, fun _ => hconnector⟩

/-- A completion by one edge. -/
theorem completion_singleton_iff :
    context.Completion g visited used node [edge] ↔
      edge ∈ g.outgoingEdges node ∧ edge.target = context.target ∧ edge.pool ∉ used ∧
        (context.SeeksCycle ∨ edge.tokenOut ∉ visited) := by
  by_cases hcycle : context.SeeksCycle
  · constructor
    · intro hcompletion
      exact ⟨hcompletion.walk.1, hcompletion.walk.2,
        hcompletion.unused edge List.mem_cons_self, Or.inl hcycle⟩
    · rintro ⟨hedge, htarget, hpool, _⟩
      exact ⟨⟨hedge, htarget⟩, by simp, by simpa using hpool, by simp [firstVisits, hcycle],
        by simp [firstVisits, hcycle], by simp⟩
  · constructor
    · intro hcompletion
      refine ⟨hcompletion.walk.1, hcompletion.walk.2,
        hcompletion.unused edge List.mem_cons_self, Or.inr ?_⟩
      apply hcompletion.unvisited
      simp [firstVisits, hcycle]
    · rintro ⟨hedge, htarget, hpool, hopen⟩
      have hnew := hopen.resolve_left hcycle
      exact ⟨⟨hedge, htarget⟩, by simp, by simpa using hpool, by simp [firstVisits, hcycle],
        by simpa [firstVisits, hcycle] using hnew, by simp⟩

theorem firstVisits_cons (hrest : rest ≠ []) :
    context.firstVisits (edge :: rest) = edge.tokenOut :: context.firstVisits rest := by
  unfold firstVisits
  split
  · rw [List.dropLast_cons_of_ne_nil hrest, List.map_cons]
  · rfl

/-- A longer completion is one edge and a completion with its token and its pool used. -/
theorem completion_cons_iff (hrest : rest ≠ []) :
    context.Completion g visited used node (edge :: rest) ↔
      edge ∈ g.outgoingEdges node ∧ edge.pool ∉ used ∧ edge.tokenOut ∉ visited ∧
        connectorAllowedWithTokens edge.tokenOut context.tokenIn context.tokenOut
          context.connectorTokens = true ∧
        context.Completion g (insert edge.tokenOut visited) (insert edge.pool used) edge.target
          rest := by
  constructor
  · rintro ⟨⟨hedge, hwalk⟩, hpools, hunused, htokens, hunvisited, hconnectors⟩
    rw [firstVisits_cons hrest, List.nodup_cons] at htokens
    rw [firstVisits_cons hrest, List.forall_mem_cons] at hunvisited
    rw [List.dropLast_cons_of_ne_nil hrest, List.forall_mem_cons] at hconnectors
    rw [List.map_cons, List.nodup_cons] at hpools
    rw [List.forall_mem_cons] at hunused
    refine ⟨hedge, hunused.1, hunvisited.1, hconnectors.1, hwalk, hpools.2, ?_, htokens.2, ?_,
      hconnectors.2⟩
    · intro other hother hmem
      rw [Finset.mem_insert] at hmem
      rcases hmem with heq | hmem
      · exact hpools.1 (heq ▸ List.mem_map_of_mem hother)
      · exact hunused.2 other hother hmem
    · intro token htoken hmem
      rw [Finset.mem_insert] at hmem
      rcases hmem with rfl | hmem
      · exact htokens.1 htoken
      · exact hunvisited.2 token htoken hmem
  · rintro ⟨hedge, hpool, htoken, hconnector, hcompletion⟩
    have hpools : ∀ other ∈ rest, other.pool ≠ edge.pool ∧ other.pool ∉ used := by
      intro other hother
      have hnew := hcompletion.unused other hother
      rw [Finset.mem_insert, not_or] at hnew
      exact hnew
    have htokens : ∀ token ∈ context.firstVisits rest,
        token ≠ edge.tokenOut ∧ token ∉ visited := by
      intro token hmem
      have hnew := hcompletion.unvisited token hmem
      rw [Finset.mem_insert, not_or] at hnew
      exact hnew
    refine ⟨⟨hedge, hcompletion.walk⟩, ?_, ?_, ?_, ?_, ?_⟩
    · rw [List.map_cons, List.nodup_cons]
      refine ⟨?_, hcompletion.pools⟩
      intro hmem
      obtain ⟨other, hother, heq⟩ := List.mem_map.mp hmem
      exact (hpools other hother).1 heq
    · rw [List.forall_mem_cons]
      exact ⟨hpool, fun other hother => (hpools other hother).2⟩
    · rw [firstVisits_cons hrest, List.nodup_cons]
      exact ⟨fun hmem => (htokens _ hmem).1 rfl, hcompletion.tokens⟩
    · rw [firstVisits_cons hrest, List.forall_mem_cons]
      exact ⟨htoken, fun token hmem => (htokens token hmem).2⟩
    · rw [List.dropLast_cons_of_ne_nil hrest, List.forall_mem_cons]
      exact ⟨hconnector, hcompletion.connectors⟩

end HeuristicContext

namespace AmmSearcher

variable {G : Type} {searcher : AmmSearcher G} {context : HeuristicContext}

/-- The search gives back the sets that it was given. -/
theorem hasStaticRouteToTargetDfs_restores (hops : ℕ) (node : NodeIndex)
    (sets : StaticSets) :
    (searcher.hasStaticRouteToTargetDfs context hops node sets).2 = sets := by
  induction hops generalizing node sets with
  | zero =>
      apply (staticScan_spec _).1
      intro hlt
      exact absurd hlt (Nat.not_lt_zero 1)
  | succ hops ih =>
      apply (staticScan_spec _).1
      intro _ edge _ _ hadmits htarget
      exact ⟨((HeuristicContext.admits_open_iff htarget).mp hadmits).1, ih _ _⟩

/-- The search with at least one hop finds a route exactly when there is a completion. -/
theorem hasStaticRouteToTargetDfs_iff (hops : ℕ) (node : NodeIndex)
    (visited : Finset Address) (used : Finset PoolKey) :
    (searcher.hasStaticRouteToTargetDfs context (hops + 1) node ⟨visited, used⟩).1 = true ↔
      ∃ edges ≠ [], edges.length ≤ hops + 1 ∧
        context.Completion searcher.graph visited used node edges := by
  induction hops generalizing node visited used with
  | zero =>
      refine (staticScan_spec fun hlt => absurd hlt (lt_irrefl 1)).2.trans ?_
      constructor
      · rintro ⟨edge, hedge, hpool, hadmits, htarget | ⟨_, hlt, _⟩⟩
        · refine ⟨[edge], List.cons_ne_nil edge [], le_rfl, ?_⟩
          exact HeuristicContext.completion_singleton_iff.mpr
            ⟨hedge, htarget, hpool, (HeuristicContext.admits_closing_iff htarget).mp hadmits⟩
        · exact absurd hlt (lt_irrefl 1)
      · rintro ⟨edges, hedges, hlength, hcompletion⟩
        obtain ⟨edge, rfl⟩ : ∃ edge, edges = [edge] := by
          apply List.length_eq_one_iff.mp
          have hpos := List.length_pos_iff.mpr hedges
          omega
        obtain ⟨hedge, htarget, hpool, hcloses⟩ :=
          HeuristicContext.completion_singleton_iff.mp hcompletion
        exact ⟨edge, hedge, hpool,
          (HeuristicContext.admits_closing_iff htarget).mpr hcloses, Or.inl htarget⟩
  | succ hops ih =>
      refine (staticScan_spec ?_).2.trans ?_
      · intro _ edge _ _ hadmits htarget
        exact ⟨((HeuristicContext.admits_open_iff htarget).mp hadmits).1,
          hasStaticRouteToTargetDfs_restores _ _ _⟩
      · constructor
        · rintro ⟨edge, hedge, hpool, hadmits, htarget | ⟨htarget, _, hfound⟩⟩
          · refine ⟨[edge], List.cons_ne_nil edge [], by simp, ?_⟩
            exact HeuristicContext.completion_singleton_iff.mpr
              ⟨hedge, htarget, hpool, (HeuristicContext.admits_closing_iff htarget).mp hadmits⟩
          · obtain ⟨rest, hrest, hlength, hcompletion⟩ := (ih _ _ _).mp hfound
            obtain ⟨htoken, hconnector⟩ :=
              (HeuristicContext.admits_open_iff htarget).mp hadmits
            refine ⟨edge :: rest, List.cons_ne_nil edge rest, Nat.succ_le_succ hlength, ?_⟩
            exact (HeuristicContext.completion_cons_iff hrest).mpr
              ⟨hedge, hpool, htoken, hconnector, hcompletion⟩
        · rintro ⟨edges, hedges, hlength, hcompletion⟩
          cases edges with
          | nil => exact absurd rfl hedges
          | cons edge rest =>
              by_cases hrest : rest = []
              · subst hrest
                obtain ⟨hedge, htarget, hpool, hcloses⟩ :=
                  HeuristicContext.completion_singleton_iff.mp hcompletion
                exact ⟨edge, hedge, hpool,
                  (HeuristicContext.admits_closing_iff htarget).mpr hcloses, Or.inl htarget⟩
              · obtain ⟨hedge, hpool, htoken, hconnector, hlater⟩ :=
                  (HeuristicContext.completion_cons_iff hrest).mp hcompletion
                -- an intermediate edge into the target already closes
                by_cases htarget : edge.target = context.target
                · exact ⟨edge, hedge, hpool,
                    (HeuristicContext.admits_closing_iff htarget).mpr (Or.inr htoken),
                    Or.inl htarget⟩
                · refine ⟨edge, hedge, hpool,
                    (HeuristicContext.admits_open_iff htarget).mpr ⟨htoken, hconnector⟩,
                    Or.inr ⟨htarget, by omega, ?_⟩⟩
                  exact (ih _ _ _).mpr
                    ⟨rest, hrest, Nat.le_of_succ_le_succ hlength, hlater⟩

/-- Static reachability is exact, for any tokens and pools that are already used. -/
theorem hasStaticRouteToTarget_exact (searcher : AmmSearcher G) (context : HeuristicContext)
    (start : NodeIndex) (visited : Finset Address) (used : Finset PoolKey) (maxHops : ℕ) :
    (searcher.hasStaticRouteToTarget context start visited used maxHops = true ↔
        ∃ edges, edges.length ≤ maxHops ∧
          context.Completion searcher.graph visited used start edges) ∧
      ∀ remaining node sets,
        (searcher.hasStaticRouteToTargetDfs context remaining node sets).2 = sets := by
  refine ⟨?_, hasStaticRouteToTargetDfs_restores⟩
  unfold hasStaticRouteToTarget
  split
  · rename_i htarget
    refine iff_of_true rfl ⟨[], Nat.zero_le _, htarget, ?_, ?_, ?_, ?_, ?_⟩ <;>
      simp [HeuristicContext.firstVisits]
  · rename_i htarget
    have hnonempty : ∀ edges, context.Completion searcher.graph visited used start edges →
        edges ≠ [] := by
      rintro edges hcompletion rfl
      exact htarget hcompletion.walk
    cases maxHops with
    | zero =>
        rw [if_pos rfl]
        refine iff_of_false Bool.false_ne_true ?_
        rintro ⟨edges, hlength, hcompletion⟩
        exact hnonempty edges hcompletion (List.length_eq_zero_iff.mp (Nat.le_zero.mp hlength))
    | succ hops =>
        rw [if_neg (Nat.succ_ne_zero hops), hasStaticRouteToTargetDfs_iff]
        constructor
        · rintro ⟨edges, _, hlength, hcompletion⟩
          exact ⟨edges, hlength, hcompletion⟩
        · rintro ⟨edges, hlength, hcompletion⟩
          exact ⟨edges, hnonempty edges hcompletion, hlength, hcompletion⟩

end AmmSearcher

end AmmSearch
