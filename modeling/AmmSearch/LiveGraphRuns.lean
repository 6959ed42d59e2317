/-
Runs of a live graph: commits and recovery snapshots, accepted or rejected,
mixed with the updates of its liquidity sidecar.  State versions only grow, and
they grow with every accepted call, so a version names one search universe.
-/
import AmmSearch.LiveGraphMirror

open FiniteMap StableGraph

namespace AmmSearch

namespace LiveAmmGraph

variable {G : Type} [StableDiGraph G Address EdgeData]

/-- One public operation of a live graph. -/
inductive Operation
  | call (lineage : ℕ) (request : Call)
  | setErc20LiquiditySlot (token holder : Address) (slot : U256)
  | markLiquidityStale (pool : PoolKey) (token : Address)
  | refreshLiquidityFromSnapshot (snapshot : AmmStateSnapshot)

/-- The snapshots that are given to the graph have coherent registry views. -/
def Operation.Coherent : Operation → Prop
  | call _ request => request.snapshot.registry.Coherent
  | _ => True

/-- An operation with the delta that it emits. -/
def execute (live : LiveAmmGraph G) : Operation → Option (Option GraphDelta × LiveAmmGraph G)
  | .call lineage request =>
      (live.call lineage request).map fun result => (result.1.toOption, result.2)
  | .setErc20LiquiditySlot token holder slot =>
      some (none, (live.setErc20LiquiditySlot token holder slot).2)
  | .markLiquidityStale pool token => some (none, (live.markLiquidityStale pool token).2)
  | .refreshLiquidityFromSnapshot snapshot =>
      some (none, (live.refreshLiquidityFromSnapshot snapshot).2)

/-- The deltas that a run emits and the states that it visits. -/
def history (live : LiveAmmGraph G) :
    List Operation → Option (List GraphDelta × List (LiveAmmGraph G))
  | [] => some ([], [live])
  | operation :: rest =>
      (live.execute operation).bind fun step =>
        (step.2.history rest).map fun later => (step.1.toList ++ later.1, live :: later.2)

variable {live next : LiveAmmGraph G} {operation : Operation} {operations : List Operation}
  {emitted : Option GraphDelta} {delta : GraphDelta} {deltas : List GraphDelta}
  {states : List (LiveAmmGraph G)}

/-- An operation changes the liquidity sidecar at most, or it is an accepted
call. -/
theorem execute_cases (hexecute : live.execute operation = some (emitted, next)) :
    (emitted = none ∧ next = { live with liquidity := next.liquidity }) ∨
    ∃ lineage request delta, operation = .call lineage request ∧ emitted = some delta ∧
      live.stateVersion < request.snapshot.version ∧
      live.Accepts lineage request (.ok delta, next) := by
  cases operation with
  | call lineage request =>
      obtain ⟨⟨outcome, after⟩, hcall, heq⟩ := Option.map_eq_some_iff.mp hexecute
      obtain ⟨rfl, rfl⟩ := Prod.mk.inj heq
      rcases outcome_call hcall with ⟨error, hresult⟩ | ⟨_, hnewer, haccepts⟩
      · cases hresult
        exact Or.inl ⟨rfl, rfl⟩
      · obtain ⟨delta, hok⟩ := haccepts.exists_delta
        simp only at hok
        subst hok
        exact Or.inr ⟨lineage, request, delta, rfl, rfl, hnewer, haccepts⟩
  | setErc20LiquiditySlot token holder slot =>
      cases hexecute
      exact Or.inl ⟨rfl, rfl⟩
  | markLiquidityStale pool token =>
      cases hexecute
      refine Or.inl ⟨rfl, ?_⟩
      unfold markLiquidityStale
      split <;> rfl
  | refreshLiquidityFromSnapshot snapshot =>
      cases hexecute
      refine Or.inl ⟨rfl, ?_⟩
      unfold refreshLiquidityFromSnapshot
      split <;> rfl

theorem Mirrors.execute (hmirrors : live.Mirrors) (hcoherent : operation.Coherent)
    (hexecute : live.execute operation = some (emitted, next)) : next.Mirrors := by
  rcases execute_cases hexecute with ⟨_, hnext⟩ | ⟨lineage, request, delta, rfl, _, _, haccepts⟩
  · rw [hnext]
    exact ⟨hmirrors.valid, hmirrors.compact, hmirrors.tokens⟩
  · exact hmirrors.accepts hcoherent haccepts

/-- A run splits at its first operation. -/
theorem history_cons {rest : List Operation}
    (hhistory : live.history (operation :: rest) = some (deltas, states)) :
    ∃ emitted next laterDeltas laterStates,
      live.execute operation = some (emitted, next) ∧
      next.history rest = some (laterDeltas, laterStates) ∧
      deltas = emitted.toList ++ laterDeltas ∧ states = live :: laterStates := by
  obtain ⟨⟨emitted, next⟩, hexecute, hlater⟩ := Option.bind_eq_some_iff.mp hhistory
  obtain ⟨⟨laterDeltas, laterStates⟩, hrest, heq⟩ := Option.map_eq_some_iff.mp hlater
  obtain ⟨rfl, rfl⟩ := Prod.mk.inj heq
  exact ⟨emitted, next, laterDeltas, laterStates, hexecute, hrest, rfl, rfl⟩

/-- The states of a run are not older than its start, and those of its version
have its graph and its index. -/
theorem history_versions (hhistory : live.history operations = some (deltas, states)) :
    ∀ reached ∈ states, live.stateVersion ≤ reached.stateVersion ∧
      (reached.stateVersion = live.stateVersion →
        reached.graph = live.graph ∧ reached.indexed = live.indexed) := by
  induction operations generalizing live deltas states with
  | nil =>
      cases hhistory
      intro reached hreached
      rw [List.mem_singleton.mp hreached]
      exact ⟨le_rfl, fun _ => ⟨rfl, rfl⟩⟩
  | cons operation rest ih =>
      obtain ⟨emitted, next, laterDeltas, laterStates, hexecute, hrest, _, rfl⟩ :=
        history_cons hhistory
      intro reached hreached
      rcases List.mem_cons.mp hreached with rfl | hlater
      · exact ⟨le_rfl, fun _ => ⟨rfl, rfl⟩⟩
      · obtain ⟨hle, hsame⟩ := ih hrest reached hlater
        rcases execute_cases hexecute with
          ⟨_, hnext⟩ | ⟨lineage, request, delta, _, _, hnewer, haccepts⟩
        · have hversion : next.stateVersion = live.stateVersion := by rw [hnext]
          have hgraph : next.graph = live.graph := by rw [hnext]
          have hindexed : next.indexed = live.indexed := by rw [hnext]
          rw [hversion] at hle hsame
          rw [hgraph, hindexed] at hsame
          exact ⟨hle, hsame⟩
        · have hversion := haccepts.committed.state.1
          rw [hversion] at hle
          exact ⟨(hnewer.trans_le hle).le, fun heq => absurd heq (hnewer.trans_le hle).ne'⟩

theorem history_mirrors (hmirrors : live.Mirrors)
    (hcoherent : ∀ operation ∈ operations, operation.Coherent)
    (hhistory : live.history operations = some (deltas, states)) :
    ∀ reached ∈ states, reached.Mirrors := by
  induction operations generalizing live deltas states with
  | nil =>
      cases hhistory
      intro reached hreached
      rw [List.mem_singleton.mp hreached]
      exact hmirrors
  | cons operation rest ih =>
      obtain ⟨emitted, next, laterDeltas, laterStates, hexecute, hrest, _, rfl⟩ :=
        history_cons hhistory
      intro reached hreached
      rcases List.mem_cons.mp hreached with rfl | hlater
      · exact hmirrors
      · exact ih (hmirrors.execute (hcoherent operation List.mem_cons_self) hexecute)
          (fun other hother => hcoherent other (List.mem_cons_of_mem operation hother)) hrest
          reached hlater

/-- Two states of a run with one version have one graph and one index. -/
theorem history_unique (hhistory : live.history operations = some (deltas, states))
    {first second : LiveAmmGraph G} (hfirst : first ∈ states) (hsecond : second ∈ states)
    (hversion : first.stateVersion = second.stateVersion) :
    first.graph = second.graph ∧ first.indexed = second.indexed := by
  induction operations generalizing live deltas states with
  | nil =>
      cases hhistory
      rw [List.mem_singleton.mp hfirst, List.mem_singleton.mp hsecond]
      exact ⟨rfl, rfl⟩
  | cons operation rest ih =>
      have hversions := history_versions hhistory
      obtain ⟨emitted, next, laterDeltas, laterStates, _, hrest, _, rfl⟩ :=
        history_cons hhistory
      rcases List.mem_cons.mp hfirst with rfl | hfirstLater
      · obtain ⟨hgraph, hindexed⟩ := (hversions second hsecond).2 hversion.symm
        exact ⟨hgraph.symm, hindexed.symm⟩
      · rcases List.mem_cons.mp hsecond with rfl | hsecondLater
        · exact (hversions first hfirst).2 hversion
        · exact ih hrest hfirstLater hsecondLater

/-- A delta of a run leads from one visited state to the next newer one. -/
theorem history_delta (hhistory : live.history operations = some (deltas, states))
    (hdelta : delta ∈ deltas) :
    ∃ before ∈ states, ∃ after ∈ states, ∃ snapshot,
      before.Committed snapshot delta after ∧ before.stateVersion < after.stateVersion ∧
      ∀ reached ∈ states, reached.stateVersion ≤ before.stateVersion ∨
        after.stateVersion ≤ reached.stateVersion := by
  induction operations generalizing live deltas states with
  | nil =>
      cases hhistory
      exact absurd hdelta List.not_mem_nil
  | cons operation rest ih =>
      have hversions := history_versions hhistory
      obtain ⟨emitted, next, laterDeltas, laterStates, hexecute, hrest, rfl, rfl⟩ :=
        history_cons hhistory
      rcases List.mem_append.mp hdelta with hhere | hlater
      · rcases execute_cases hexecute with
          ⟨hnone, _⟩ | ⟨lineage, request, found, _, hfound, hnewer, haccepts⟩
        · rw [hnone] at hhere
          exact absurd hhere List.not_mem_nil
        · rw [hfound] at hhere
          obtain rfl := List.mem_singleton.mp hhere
          have hcommitted := haccepts.committed
          have hstart : next ∈ laterStates := by
            cases rest with
            | nil =>
                cases hrest
                exact List.mem_singleton_self _
            | cons operation rest =>
                obtain ⟨_, _, _, _, _, _, _, rfl⟩ := history_cons hrest
                exact List.mem_cons_self
          refine ⟨live, List.mem_cons_self, next, List.mem_cons_of_mem _ hstart,
            request.snapshot, hcommitted, ?_, fun reached hreached => ?_⟩
          · rw [hcommitted.state.1]
            exact hnewer
          · rcases List.mem_cons.mp hreached with rfl | hreached
            · exact Or.inl le_rfl
            · exact Or.inr (history_versions hrest reached hreached).1
      · obtain ⟨before, hbefore, after, hafter, snapshot, hcommitted, hlt, hbetween⟩ :=
          ih hrest hlater
        refine ⟨before, List.mem_cons_of_mem _ hbefore, after, List.mem_cons_of_mem _ hafter,
          snapshot, hcommitted, hlt, fun reached hreached => ?_⟩
        rcases List.mem_cons.mp hreached with rfl | hreached
        · exact Or.inl (hversions before (List.mem_cons_of_mem _ hbefore)).1
        · exact hbetween reached hreached

end LiveAmmGraph

end AmmSearch
