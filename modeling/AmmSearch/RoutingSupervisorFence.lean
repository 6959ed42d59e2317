/-
The generation fence of quotes.  Whoever changes the node that serves a
generation has to advance the generation first or is about to do so, hence two
readiness calls that agree on a generation enclose only reads of its node.
-/
import AmmSearch.RoutingSupervisor

namespace AmmSearch

/-- The task has not invalidated the generation that is published. -/
def SupervisorTask.Serving {N : Type} : SupervisorTask N → Prop
  | .supervising | .inspecting | .taking _ | .invalidating _ | .stopped => True
  | _ => False

namespace SupervisorSystem

variable {N ι : Type} {system next later : SupervisorSystem N ι}

/-- The node was published under the generation, and no other node was. -/
def InstalledFor (system : SupervisorSystem N ι) (generation : ℕ) (node : N) : Prop :=
  (generation, node) ∈ system.installed ∧
    ∀ other, (generation, other) ∈ system.installed → other = node

/-- What the two locks show together between any two steps. -/
structure Coherent (system : SupervisorSystem N ι) : Prop where
  serving : system.phase = .ready → system.task.Serving ∧
    ∀ node, system.supervisor.active = some node →
      (system.generation, node) ∈ system.installed
  publishing : ∀ node endpointIndex, system.task = .publishing node endpointIndex →
    ∀ active, system.supervisor.active = some active → active = node
  bounded : ∀ entry ∈ system.installed, entry.1 ≤ system.generation
  unique : ∀ generation < u64Max, ∀ node, (generation, node) ∈ system.installed →
    ∀ other, (generation, other) ∈ system.installed → other = node

/-- While the generation stays, the published node stays served. -/
structure Advances (system next : SupervisorSystem N ι) : Prop where
  installed : system.installed ⊆ next.installed
  generation : (next.generation = system.generation ∧
      (system.phase = .ready → next.phase = .ready)) ∨
    next.generation = saturatingNext system.generation

theorem Advances.le (hadvances : Advances system next) :
    system.generation ≤ next.generation := by
  rcases hadvances.generation with ⟨hsame, _⟩ | hnext
  · exact hsame.ge
  · rw [hnext]
    exact le_saturatingNext _

/-- The shared state is untouched. -/
theorem Advances.of_eq (hsupervisor : next.supervisor = system.supervisor)
    (hinstalled : next.installed = system.installed) : Advances system next := by
  refine ⟨hinstalled ▸ List.Subset.refl _, Or.inl ⟨?_, fun hready => ?_⟩⟩
  · exact congrArg (fun shared => shared.state.generation) hsupervisor
  · exact (congrArg (fun shared => shared.state.phase) hsupervisor).trans hready

theorem coherent_bootstrap (node : N) (endpointIndex : ℕ) :
    (bootstrap node endpointIndex : SupervisorSystem N ι).Coherent where
  serving := by
    intro _
    refine ⟨trivial, fun active hactive => ?_⟩
    cases hactive
    exact List.mem_singleton_self _
  publishing := by
    intro _ _ htask
    cases htask
  bounded := by
    intro entry hentry
    rw [List.mem_singleton.mp hentry]
    exact le_rfl
  unique := by
    intro generation _ node' hnode other hother
    cases List.mem_singleton.mp hnode
    cases List.mem_singleton.mp hother
    rfl

namespace Coherent

/-- The task moves on without a write. -/
theorem goTo (hcoherent : system.Coherent) {task : SupervisorTask N}
    (hserving : system.phase = .ready → task.Serving)
    (hpublishing : ∀ node endpointIndex, task ≠ .publishing node endpointIndex) :
    (system.goTo task).Coherent where
  serving := fun hready => ⟨hserving hready, (hcoherent.serving hready).2⟩
  publishing := fun node endpointIndex htask => absurd htask (hpublishing node endpointIndex)
  bounded := hcoherent.bounded
  unique := hcoherent.unique

theorem writeActive_none (hcoherent : system.Coherent) :
    (system.writeActive none).Coherent where
  serving := by
    intro hready
    refine ⟨(hcoherent.serving hready).1, fun node hnode => ?_⟩
    cases hnode
  publishing := by
    intro node endpointIndex _ active hactive
    cases hactive
  bounded := hcoherent.bounded
  unique := hcoherent.unique

/-- The new state is not ready, or differs in neither phase nor generation. -/
theorem writeState (hcoherent : system.Coherent) (state : SupervisorState)
    (hgeneration : system.generation ≤ state.generation)
    (hphase : state.phase ≠ .ready ∨
      (state.phase = system.phase ∧ state.generation = system.generation)) :
    (system.writeState state).Coherent where
  serving := by
    intro hready
    rcases hphase with hother | ⟨hphase, hsame⟩
    · exact absurd hready hother
    · obtain ⟨htask, hactive⟩ := hcoherent.serving (hphase.symm.trans hready)
      refine ⟨htask, fun node hnode => ?_⟩
      change (state.generation, node) ∈ system.installed
      rw [hsame]
      exact hactive node hnode
  publishing := hcoherent.publishing
  bounded := fun entry hentry => (hcoherent.bounded entry hentry).trans hgeneration
  unique := hcoherent.unique

/-- A new node is put in place before its generation is announced. -/
theorem install (hcoherent : system.Coherent) (hserving : ¬ system.task.Serving) (node : N)
    (endpointIndex : ℕ) :
    ((system.writeActive (some node)).goTo (.publishing node endpointIndex)).Coherent where
  serving := fun hready => absurd (hcoherent.serving hready).1 hserving
  publishing := by
    intro published index htask active hactive
    cases htask
    cases hactive
    rfl
  bounded := hcoherent.bounded
  unique := hcoherent.unique

/-- The announcement: the next generation is that of the node in place. -/
theorem publish (hcoherent : system.Coherent) {node : N} {endpointIndex : ℕ}
    (htask : system.task = .publishing node endpointIndex) {state : SupervisorState}
    (hgeneration : state.generation = saturatingNext system.generation) :
    ({ (system.writeState state).goTo .supervising with
        installed := (saturatingNext system.generation, node) :: system.installed } :
      SupervisorSystem N ι).Coherent where
  serving := by
    intro _
    refine ⟨trivial, fun active hactive => ?_⟩
    rw [hcoherent.publishing node endpointIndex htask active hactive]
    change (state.generation, node) ∈ _
    rw [hgeneration]
    exact List.mem_cons_self
  publishing := by
    intro _ _ hother
    cases hother
  bounded := by
    intro entry hentry
    change entry.1 ≤ state.generation
    rw [hgeneration]
    rcases List.mem_cons.mp hentry with rfl | hold
    · exact le_rfl
    · exact (hcoherent.bounded entry hold).trans (le_saturatingNext _)
  unique := by
    intro generation hbound first hfirst other hother
    -- an older entry of this generation is bounded by the one before
    have hold : ∀ {node}, (generation, node) ∈ system.installed →
        generation < saturatingNext system.generation :=
      fun hmem => lt_saturatingNext (hcoherent.bounded _ hmem) hbound
    rcases List.mem_cons.mp hfirst with hnew | hfirst
    · rcases List.mem_cons.mp hother with hnew' | hother
      · rw [(Prod.mk.inj hnew).2, (Prod.mk.inj hnew').2]
      · exact absurd (Prod.mk.inj hnew).1 (hold hother).ne
    · rcases List.mem_cons.mp hother with hnew' | hother
      · exact absurd (Prod.mk.inj hnew').1 (hold hfirst).ne
      · exact hcoherent.unique generation hbound first hfirst other hother

variable {config : SupervisorConfig}

/-- The supervising task keeps the locks coherent. -/
theorem stepTask (hcoherent : system.Coherent) {event : TaskEvent N}
    (hstep : system.stepTask config event = some next) :
    next.Coherent ∧ Advances system next := by
  have hmove : ∀ {task}, (system.phase = .ready → task.Serving) →
      (∀ node endpointIndex, task ≠ .publishing node endpointIndex) →
      (system.goTo task).Coherent ∧ Advances system (system.goTo task) :=
    fun hserving hpublishing =>
      ⟨hcoherent.goTo hserving hpublishing, Advances.of_eq rfl rfl⟩
  -- a task past the invalidation does not meet a ready phase
  have hidle : ¬ system.task.Serving → system.phase ≠ .ready :=
    fun hserving hready => hserving (hcoherent.serving hready).1
  have hwaits : ∀ {task}, ¬ system.task.Serving →
      (∀ node endpointIndex, task ≠ .publishing node endpointIndex) →
      (system.goTo task).Coherent ∧ Advances system (system.goTo task) :=
    fun hserving => hmove fun hready => absurd hready (hidle hserving)
  have hwrites : ∀ {state : SupervisorState} {task}, ¬ system.task.Serving →
      state.generation = system.generation →
      (state.phase ≠ .ready ∨ state.phase = system.phase) →
      (∀ node endpointIndex, task ≠ .publishing node endpointIndex) →
      ((system.writeState state).goTo task).Coherent ∧
        Advances system ((system.writeState state).goTo task) := by
    intro state task hserving hgeneration hphase hpublishing
    have hother : state.phase ≠ .ready := by
      rcases hphase with hother | hsame
      · exact hother
      · rw [hsame]
        exact hidle hserving
    have hwritten := hcoherent.writeState state hgeneration.ge (Or.inl hother)
    refine ⟨hwritten.goTo (fun hready => absurd hready hother) hpublishing,
      ⟨List.Subset.refl _, Or.inl ⟨hgeneration, fun hready => ?_⟩⟩⟩
    exact absurd hready (hidle hserving)
  unfold SupervisorSystem.stepTask at hstep
  simp only at hstep
  split at hstep
  case h_1 _ _ htask =>
      cases hstep
      apply hmove <;> split <;> simp [SupervisorTask.Serving]
  case h_2 _ _ htask =>
      cases hstep
      apply hmove <;> simp [SupervisorTask.Serving]
  case h_3 _ _ reason htask =>
      cases hstep
      apply hmove <;> simp [SupervisorTask.Serving]
  case h_4 _ _ reason htask =>
      cases hstep
      refine ⟨hcoherent.writeActive_none.goTo ?_ ?_,
        ⟨List.Subset.refl _, Or.inl ⟨rfl, fun hready => hready⟩⟩⟩
      · exact fun _ => trivial
      · simp
  case h_5 _ _ reason htask =>
      cases hstep
      have hwritten := hcoherent.writeState
        { system.supervisor.state with
          phase := .untrusted
          generation := saturatingNext system.generation
          lastError := some reason } (le_saturatingNext _) (Or.inl (by simp))
      refine ⟨hwritten.goTo ?_ ?_, ⟨List.Subset.refl _, Or.inr rfl⟩⟩
      · intro hready
        cases hready
      · simp
  case h_6 _ _ htask =>
      cases hstep
      apply hwaits
      · simp [htask, SupervisorTask.Serving]
      · split <;> simp
  case h_7 _ _ htask =>
      cases hstep
      apply hwrites <;> simp [htask, SupervisorTask.Serving]
  case h_8 _ _ htask =>
      cases hstep
      apply hwaits <;> simp [htask, SupervisorTask.Serving]
  case h_9 _ _ initialIndex attempt htask =>
      cases hstep
      apply hwaits
      · simp [htask, SupervisorTask.Serving]
      · split <;> simp
  case h_10 _ _ initialIndex attempt htask =>
      cases hstep
      apply hwrites <;> simp [htask, SupervisorTask.Serving]
  case h_11 _ _ initialIndex attempt node _ htask =>
      cases hstep
      apply hwaits <;> simp [htask, SupervisorTask.Serving]
  case h_12 _ _ initialIndex attempt node error htask =>
      cases hstep
      apply hwaits <;> simp [htask, SupervisorTask.Serving]
  case h_13 _ _ initialIndex attempt htask =>
      cases hstep
      apply hwaits <;> simp [htask, SupervisorTask.Serving]
  case h_14 _ _ initialIndex attempt htask =>
      cases hstep
      apply hwaits <;> simp [htask, SupervisorTask.Serving]
  case h_15 _ _ initialIndex attempt htask =>
      split at hstep
      · cases hstep
        apply hwaits <;> simp [htask, SupervisorTask.Serving]
      · cases hstep
  case h_16 _ _ message initialIndex attempt htask =>
      cases hstep
      apply hwrites <;> simp [htask, SupervisorTask.Serving]
  case h_17 _ _ initialIndex attempt htask =>
      cases hstep
      apply hwaits <;> simp [htask, SupervisorTask.Serving]
  case h_18 _ _ initialIndex attempt htask =>
      split at hstep
      · cases hstep
        apply hwaits <;> simp [htask, SupervisorTask.Serving]
      · cases hstep
  case h_19 _ _ node endpointIndex htask =>
      cases hstep
      have hserving : ¬ system.task.Serving := by simp [htask, SupervisorTask.Serving]
      refine ⟨hcoherent.install hserving node endpointIndex,
        ⟨List.Subset.refl _, Or.inl ⟨rfl, fun hready => hready⟩⟩⟩
  case h_20 _ _ node endpointIndex htask =>
      cases hstep
      exact ⟨hcoherent.publish htask rfl, ⟨List.subset_cons_self _ _, Or.inr rfl⟩⟩
  case h_21 => cases hstep

theorem callShutdown (hcoherent : system.Coherent) : system.callShutdown.Coherent := by
  unfold SupervisorSystem.callShutdown
  split
  · exact hcoherent
  · exact ⟨hcoherent.serving, hcoherent.publishing, hcoherent.bounded, hcoherent.unique⟩

theorem stepShutdown (hcoherent : system.Coherent)
    (hstep : system.stepShutdown = some next) : next.Coherent ∧ Advances system next := by
  unfold SupervisorSystem.stepShutdown at hstep
  simp only at hstep
  split at hstep
  · cases hstep
    have hwritten := hcoherent.writeState
      { system.supervisor.state with
        phase := .shuttingDown
        generation := saturatingNext system.generation } (le_saturatingNext _)
      (Or.inl (by simp))
    exact ⟨⟨hwritten.serving, hwritten.publishing, hwritten.bounded, hwritten.unique⟩,
      ⟨List.Subset.refl _, Or.inr rfl⟩⟩
  · cases hstep
    exact ⟨⟨hcoherent.serving, hcoherent.publishing, hcoherent.bounded, hcoherent.unique⟩,
      Advances.of_eq rfl rfl⟩
  · cases hstep
    have hwritten := hcoherent.writeActive_none
    exact ⟨⟨hwritten.serving, hwritten.publishing, hwritten.bounded, hwritten.unique⟩,
      ⟨List.Subset.refl _, Or.inl ⟨rfl, fun hready => hready⟩⟩⟩
  · cases hstep
  · cases hstep

end Coherent

theorem advances_callShutdown (system : SupervisorSystem N ι) :
    Advances system system.callShutdown := by
  unfold callShutdown
  split
  · exact Advances.of_eq rfl rfl
  · exact ⟨List.Subset.refl _, Or.inl ⟨rfl, fun hready => hready⟩⟩

theorem handlers_stepTask {config : SupervisorConfig} {event : TaskEvent N}
    (hstep : system.stepTask config event = some next) :
    next.handlers = system.handlers ∧
      next.supervisor.shuttingDown = system.supervisor.shuttingDown := by
  unfold stepTask at hstep
  simp only at hstep
  split at hstep
  all_goals first
    | cases hstep
      exact ⟨rfl, rfl⟩
    | split at hstep
      · cases hstep
        exact ⟨rfl, rfl⟩
      · cases hstep
    | cases hstep

theorem handlers_stepShutdown (hstep : system.stepShutdown = some next) :
    next.handlers = system.handlers ∧
      next.supervisor.shuttingDown = system.supervisor.shuttingDown := by
  unfold stepShutdown at hstep
  simp only at hstep
  split at hstep
  all_goals first
    | cases hstep
      exact ⟨rfl, rfl⟩
    | cases hstep

section Handlers

variable {config : SupervisorConfig} {observation : Observation}

/-- What holds of the reads of a handler. -/
def Fenced (system : SupervisorSystem N ι) : QuoteHandler N → Prop
  | .arriving _ => True
  | .routing generation nodes | .confirming generation nodes _ =>
      generation ≤ system.generation ∧ (generation < u64Max →
        system.generation = generation → system.phase = .ready ∧
          ∀ node ∈ nodes, (generation, node) ∈ system.installed)
  | .answered generation nodes =>
      generation < u64Max → ∀ node ∈ nodes, (generation, node) ∈ system.installed
  | .refused _ _ => True

theorem Fenced.advances {handler : QuoteHandler N} (hfenced : system.Fenced handler)
    (hadvances : Advances system next) : next.Fenced handler := by
  have hreads : ∀ {generation : ℕ} {nodes : List N},
      generation ≤ system.generation ∧ (generation < u64Max →
        system.generation = generation → system.phase = .ready ∧
          ∀ node ∈ nodes, (generation, node) ∈ system.installed) →
      generation ≤ next.generation ∧ (generation < u64Max →
        next.generation = generation → next.phase = .ready ∧
          ∀ node ∈ nodes, (generation, node) ∈ next.installed) := by
    intro generation nodes hold
    refine ⟨hold.1.trans hadvances.le, fun hbound heq => ?_⟩
    rcases hadvances.generation with ⟨hsame, hready⟩ | hnext
    · obtain ⟨hphase, hnodes⟩ := hold.2 hbound (hsame.symm.trans heq)
      exact ⟨hready hphase, fun node hnode => hadvances.installed (hnodes node hnode)⟩
    · -- an advanced generation is not the one the handler started with
      have hlt := lt_saturatingNext hold.1 hbound
      rw [← hnext, heq] at hlt
      exact absurd hlt (lt_irrefl _)
  cases handler with
  | arriving call => trivial
  | routing generation nodes => exact hreads hfenced
  | confirming generation nodes call => exact hreads hfenced
  | answered generation nodes =>
      exact fun hbound node hnode => hadvances.installed (hfenced hbound node hnode)
  | refused granted error => trivial

theorem phase_of_readiness_ok {state : SupervisorState} {ageMs generation : ℕ}
    (hready : state.readiness config ageMs = .ok generation) :
    state.phase = .ready ∧ state.generation = generation := by
  unfold SupervisorState.readiness at hready
  split at hready
  case h_1 hphase =>
      split at hready
      · cases hready
      · exact ⟨hphase, Except.ok.inj hready⟩
  all_goals cases hready

/-- A readiness call returns the generation of a ready state. -/
theorem phase_of_quoteReadiness_ok {supervisor : RoutingSupervisor N}
    {call : ReadinessCall N} {generation : ℕ}
    (hready : supervisor.quoteReadiness config observation call = .inr (.ok generation)) :
    supervisor.state.phase = .ready ∧ supervisor.state.generation = generation := by
  cases call with
  | checkFlag =>
      simp only [RoutingSupervisor.quoteReadiness] at hready
      split at hready <;> cases hready
  | readActive =>
      simp only [RoutingSupervisor.quoteReadiness] at hready
      split at hready <;> cases hready
  | askNode node =>
      simp only [RoutingSupervisor.quoteReadiness] at hready
      split at hready <;> cases hready
  | readState => exact phase_of_readiness_ok (Sum.inr.inj hready)

theorem fenced_arrive {outcome : ReadinessCall N ⊕ Except QuoteReadinessError ℕ}
    (houtcome : ∀ generation, outcome = .inr (.ok generation) →
      system.phase = .ready ∧ system.generation = generation) :
    system.Fenced (.arrive outcome) := by
  rcases outcome with call | error | generation
  · trivial
  · trivial
  · obtain ⟨hphase, hgeneration⟩ := houtcome generation rfl
    exact ⟨hgeneration.ge, fun _ _ => ⟨hphase, fun node hnode =>
      absurd hnode List.not_mem_nil⟩⟩

theorem Fenced.ensure {generation : ℕ} {nodes : List N} {call : ReadinessCall N}
    (hfenced : system.Fenced (.confirming generation nodes call))
    {outcome : ReadinessCall N ⊕ Except QuoteReadinessError ℕ}
    (houtcome : ∀ actual, outcome = .inr (.ok actual) →
      system.phase = .ready ∧ system.generation = actual) :
    system.Fenced (.ensure generation nodes outcome) := by
  rcases outcome with call | error | actual
  · exact hfenced
  · trivial
  · obtain ⟨_, hgeneration⟩ := houtcome actual rfl
    unfold QuoteHandler.ensure
    simp only
    split
    · trivial
    · rename_i hsame
      exact fun hbound =>
        (hfenced.2 hbound (hgeneration.trans (not_not.mp hsame))).2

theorem Fenced.move {handler handler' : QuoteHandler N} {move : QuoteHandler.Move}
    (hcoherent : system.Coherent) (hfenced : system.Fenced handler)
    (hnext : handler.next config system.supervisor observation move = some handler') :
    system.Fenced handler' := by
  cases handler with
  | arriving call =>
      cases hnext
      exact fenced_arrive fun generation houtcome => phase_of_quoteReadiness_ok houtcome
  | routing generation nodes =>
      cases move with
      | activeNode =>
          cases hnext
          refine ⟨hfenced.1, fun hbound heq => ?_⟩
          obtain ⟨hphase, hnodes⟩ := hfenced.2 hbound heq
          refine ⟨hphase, fun node hnode => ?_⟩
          rcases List.mem_append.mp hnode with hold | hread
          · exact hnodes node hold
          · rw [← heq]
            exact (hcoherent.serving hphase).2 node (Option.mem_toList.mp hread)
      | confirm =>
          cases hnext
          exact hfenced
  | confirming generation nodes call =>
      cases hnext
      exact hfenced.ensure fun actual houtcome => phase_of_quoteReadiness_ok houtcome
  | answered generation nodes => cases hnext
  | refused granted error => cases hnext

/-- With the flag set, a handler whose call has not loaded it gets no `Ok`. -/
theorem resting_next {handler handler' : QuoteHandler N} {move : QuoteHandler.Move}
    {supervisor : RoutingSupervisor N} (hflag : supervisor.shuttingDown = true)
    (hresting : handler.Resting)
    (hnext : handler.next config supervisor observation move = some handler') :
    handler'.Resting ∧ handler'.granted = handler.granted := by
  have hcheck : supervisor.quoteReadiness config observation .checkFlag =
      .inr (.error .shuttingDown) := by
    simp [RoutingSupervisor.quoteReadiness, hflag]
  cases handler with
  | arriving call =>
      cases call with
      | checkFlag =>
          simp only [QuoteHandler.next, hcheck, Option.some.injEq] at hnext
          subst hnext
          exact ⟨trivial, rfl⟩
      | readActive => exact hresting.elim
      | askNode node => exact hresting.elim
      | readState => exact hresting.elim
  | routing generation nodes =>
      cases move with
      | activeNode =>
          cases hnext
          exact ⟨trivial, rfl⟩
      | confirm =>
          cases hnext
          exact ⟨trivial, rfl⟩
  | confirming generation nodes call =>
      cases call with
      | checkFlag =>
          simp only [QuoteHandler.next, hcheck, Option.some.injEq] at hnext
          subst hnext
          exact ⟨trivial, rfl⟩
      | readActive => exact hresting.elim
      | askNode node => exact hresting.elim
      | readState => exact hresting.elim
  | answered generation nodes => cases hnext
  | refused granted error => cases hnext

end Handlers

section Runs

variable [DecidableEq ι] {config : SupervisorConfig}

/-- The invariant of a run. -/
structure Guarded (system : SupervisorSystem N ι) : Prop where
  coherent : system.Coherent
  fenced : ∀ id, system.Fenced (system.handlers id)

theorem Guarded.step (hguarded : system.Guarded) {action : Action N ι}
    (hstep : system.step config action = some next) :
    next.Guarded ∧ Advances system next := by
  cases action with
  | task event =>
      obtain ⟨hcoherent, hadvances⟩ := hguarded.coherent.stepTask hstep
      refine ⟨⟨hcoherent, fun id => ?_⟩, hadvances⟩
      rw [(handlers_stepTask hstep).1]
      exact (hguarded.fenced id).advances hadvances
  | callShutdown =>
      cases hstep
      have hadvances := advances_callShutdown system
      refine ⟨⟨hguarded.coherent.callShutdown, fun id => ?_⟩, hadvances⟩
      have hhandlers : system.callShutdown.handlers = system.handlers := by
        unfold callShutdown
        split <;> rfl
      rw [hhandlers]
      exact (hguarded.fenced id).advances hadvances
  | shutdown =>
      obtain ⟨hcoherent, hadvances⟩ := hguarded.coherent.stepShutdown hstep
      refine ⟨⟨hcoherent, fun id => ?_⟩, hadvances⟩
      rw [(handlers_stepShutdown hstep).1]
      exact (hguarded.fenced id).advances hadvances
  | handler id observation move =>
      obtain ⟨handler, hnext, rfl⟩ := Option.map_eq_some_iff.mp hstep
      have hadvances : Advances system
          { system with handlers := Function.update system.handlers id handler } :=
        Advances.of_eq rfl rfl
      have hcoherent := hguarded.coherent
      refine ⟨⟨⟨hcoherent.serving, hcoherent.publishing, hcoherent.bounded,
        hcoherent.unique⟩, fun other => ?_⟩, hadvances⟩
      by_cases hother : other = id
      · subst hother
        simp only [Function.update_self]
        exact (Fenced.move hcoherent (hguarded.fenced other) hnext).advances hadvances
      · simp only [Function.update_of_ne hother]
        exact (hguarded.fenced other).advances hadvances

omit [DecidableEq ι] in
theorem guarded_bootstrap (node : N) (endpointIndex : ℕ) :
    (bootstrap node endpointIndex : SupervisorSystem N ι).Guarded :=
  ⟨coherent_bootstrap node endpointIndex, fun _ => trivial⟩

theorem Guarded.reaches (hguarded : system.Guarded)
    (hreaches : Transitions.Reaches (SupervisorSystem.step config) system next) : next.Guarded :=
  hreaches.preserves (fun hstate hstep => (hstate.step hstep).1) hguarded

/-- Generations never decrease along a run. -/
theorem Guarded.generation_le (hguarded : system.Guarded)
    (hreaches : Transitions.Reaches (SupervisorSystem.step config) system next) :
    system.generation ≤ next.generation := by
  have hpreserved : next.Guarded ∧ system.generation ≤ next.generation := by
    apply @Transitions.Reaches.preserves _ _ _ _ _
      (fun state : SupervisorSystem N ι =>
        state.Guarded ∧ system.generation ≤ state.generation) _ hreaches
    · exact ⟨hguarded, le_rfl⟩
    · intro state action after hstate hstep
      obtain ⟨hafter, hadvances⟩ := hstate.1.step hstep
      exact ⟨hafter, hstate.2.trans hadvances.le⟩
  exact hpreserved.2

/-- The flag stays set, and handlers whose calls did not load it before get no
`Ok`. -/
theorem resting_step {id : ι} {granted : List ℕ} {action : Action N ι}
    (hstate : system.supervisor.shuttingDown = true ∧ (system.handlers id).Resting ∧
      (system.handlers id).granted = granted)
    (hstep : system.step config action = some next) :
    next.supervisor.shuttingDown = true ∧ (next.handlers id).Resting ∧
      (next.handlers id).granted = granted := by
  cases action with
  | task event =>
      obtain ⟨hhandlers, hflag⟩ := handlers_stepTask hstep
      rw [hhandlers, hflag]
      exact hstate
  | callShutdown =>
      cases hstep
      unfold callShutdown
      rw [if_pos hstate.1]
      exact hstate
  | shutdown =>
      obtain ⟨hhandlers, hflag⟩ := handlers_stepShutdown hstep
      rw [hhandlers, hflag]
      exact hstate
  | handler other observation move =>
      obtain ⟨handler, hnext, rfl⟩ := Option.map_eq_some_iff.mp hstep
      refine ⟨hstate.1, ?_⟩
      by_cases hother : id = other
      · subst hother
        simp only [Function.update_self]
        obtain ⟨hresting, hgranted⟩ := resting_next hstate.1 hstate.2.1 hnext
        exact ⟨hresting, hgranted.trans hstate.2.2⟩
      · simp only [Function.update_of_ne hother]
        exact hstate.2

theorem granted_of_shuttingDown {id : ι}
    (hreaches : Transitions.Reaches (SupervisorSystem.step config) system next)
    (hflag : system.supervisor.shuttingDown = true)
    (hresting : (system.handlers id).Resting) :
    (next.handlers id).granted = (system.handlers id).granted := by
  have hpreserved := @Transitions.Reaches.preserves _ _ _ _ _
    (fun state : SupervisorSystem N ι => state.supervisor.shuttingDown = true ∧
      (state.handlers id).Resting ∧
      (state.handlers id).granted = (system.handlers id).granted)
    (fun hstate hstep => resting_step hstate hstep) hreaches ⟨hflag, hresting, rfl⟩
  exact hpreserved.2.2

/-- Quotes that are answered were read from the node of their generation,
generations never decrease, and a readiness call that starts after the shutdown
flag was set does not return `Ok`. -/
theorem quoteGeneration_fenced {node : N} {endpointIndex : ℕ}
    (hreached : Transitions.Reaches (step config) (bootstrap node endpointIndex) system) :
    (∀ id generation nodes, system.handlers id = .answered generation nodes →
      generation < u64Max → ∀ read ∈ nodes, system.InstalledFor generation read) ∧
    (∀ later, Transitions.Reaches (step config) system later →
      system.generation ≤ later.generation) ∧
    (∀ later id, Transitions.Reaches (step config) system later →
      system.supervisor.shuttingDown = true → (system.handlers id).Resting →
      (later.handlers id).granted = (system.handlers id).granted) := by
  have hguarded := (guarded_bootstrap node endpointIndex).reaches hreached
  refine ⟨?_, ?_, ?_⟩
  · intro id generation nodes hanswered hbound read hread
    have hfenced := hguarded.fenced id
    rw [hanswered] at hfenced
    have hinstalled := hfenced hbound read hread
    exact ⟨hinstalled, hguarded.coherent.unique generation hbound read hinstalled⟩
  · intro later hlater
    exact hguarded.generation_le hlater
  · intro later id hlater hflag hresting
    exact granted_of_shuttingDown hlater hflag hresting

end Runs

end SupervisorSystem

namespace SupervisorExample

def config : SupervisorConfig := ⟨1, 1000, 1000⟩

/-- A healthy node at a fresh block. -/
def observation : Observation := ⟨.healthy, .running, 0⟩

/-- The only handler makes a step. -/
def handlerStep (move : QuoteHandler.Move) : SupervisorSystem.Action ℕ Unit :=
  .handler () observation move

/-- Two readiness calls around one read of the active node. -/
def quotedRun : List (SupervisorSystem.Action ℕ Unit) :=
  List.replicate 4 (handlerStep .confirm) ++ [handlerStep .activeNode] ++
    List.replicate 5 (handlerStep .confirm)

theorem quotedRun_fenced :
    ∃ system : SupervisorSystem ℕ Unit,
      Transitions.run (SupervisorSystem.step config) (.bootstrap 7 0) quotedRun = some system ∧
        system.handlers () = .answered 1 [7] ∧ system.InstalledFor 1 7 := by
  refine ⟨_, rfl, rfl, ?_⟩
  have hfenced := @SupervisorSystem.quoteGeneration_fenced ℕ Unit _ _ config 7 0
    ⟨quotedRun, rfl⟩
  exact hfenced.1 () 1 [7] rfl (by decide) 7 (List.mem_singleton_self 7)

/-- The readiness call has loaded the flag when the shutdown sets it. -/
theorem not_refused_after_shutdown :
    ∃ system later : SupervisorSystem ℕ Unit,
      Transitions.run (SupervisorSystem.step config) (.bootstrap 7 0)
          [handlerStep .confirm, .callShutdown] = some system ∧
        system.supervisor.shuttingDown = true ∧
        Transitions.run (SupervisorSystem.step config) system
          (List.replicate 3 (handlerStep .confirm)) = some later ∧
        (system.handlers ()).granted = [] ∧ (later.handlers ()).granted = [1] :=
  ⟨_, _, rfl, rfl, rfl, rfl, rfl⟩

end SupervisorExample

end AmmSearch
