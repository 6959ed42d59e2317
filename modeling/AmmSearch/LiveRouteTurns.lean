/-
A turn of the live route actor as a sequence of small steps: what commits,
commands, the schedule and the closing loop do one entry at a time, with at most
one worker message among them.
-/
import Mathlib.Logic.Relation
import AmmSearch.LiveGraphCommits
import AmmSearch.LiveRouteHandlers

open FiniteMap StableGraph

namespace AmmSearch

open Relation (ReflTransGen)

namespace LiveRouteActor

section Steps

variable {G : Type}

/-- Nothing changes but the queue, the events, new flags and announcements. -/
structure Quiet (before after : LiveRouteActor G) : Prop where
  live : after.live = before.live
  view : after.view = before.view
  entries : after.entries = before.entries
  nextSubscription : after.nextSubscription = before.nextSubscription
  published : after.published = before.published
  sequence : before.sequence ≤ after.sequence
  raised : after.tokens.raised = before.tokens.raised
  next : before.tokens.next ≤ after.tokens.next
  jobs : after.jobs = before.jobs
  submitted : after.submitted = before.submitted

/-- One small step of the actor that is not the handling of a worker message. -/
inductive Handles (before : LiveRouteActor G) : LiveRouteActor G → Prop
  | quiet {after : LiveRouteActor G} (same : before.Quiet after) : Handles before after
  | advance {commit : AmmStateCommit} {delta : GraphDelta} {live : LiveAmmGraph G}
      {view : LiveSearchView G} (newer : before.live.stateVersion < view.snapshot.version)
      (version : live.stateVersion = view.snapshot.version) :
      Handles before (before.advance commit delta live view)
  | invalidate {id : RouteSubscriptionId} {entry : RouteEntry G}
      (found : before.entries.lookup id = some entry) : Handles before (before.invalidate id)
  | replace {after : LiveRouteActor G} {id : RouteSubscriptionId} {entry : RouteEntry G}
      {spec : RouteSubscriptionSpec}
      (leaves : before.Leaves after id entry (before.replacedEntry id entry spec)
        (some (.pending before.current entry.lastReady)) [])
      (tokens : after.tokens = before.tokens.cancelActive entry.active) : Handles before after
  | submit {id : RouteSubscriptionId} {entry : RouteEntry G} {job : RouteWorkerJob G} {next : ℕ}
      (found : before.entries.lookup id = some entry) (waits : entry.active = none)
      (prepared : before.Prepared id entry job next) :
      Handles before (before.submit id entry job next)
  | remove {after : LiveRouteActor G} {id : RouteSubscriptionId} {old : RouteEntry G}
      {state : RouteSubscriptionState} (removes : before.Removes after id old state)
      (terminal : state.source = none) : Handles before after
  | accept {after : LiveRouteActor G} {spec : RouteSubscriptionSpec}
      (accepts : before.Accepts after spec) : Handles before after

variable {actor before after : LiveRouteActor G} {id : RouteSubscriptionId}

theorem quiet_event (actor : LiveRouteActor G) (subscription : Option RouteSubscriptionId)
    (stamp : Option RouteJobStamp) (kind : LiveRouteRuntimeEventKind) :
    actor.Quiet (actor.publishEvent subscription stamp kind) :=
  ⟨rfl, rfl, rfl, rfl, rfl, le_saturatingNext _, rfl, le_rfl, rfl, rfl⟩

theorem quiet_fail (actor : LiveRouteActor G) (error : LiveRouteRuntimeError) :
    actor.Quiet (actor.fail error) :=
  ⟨rfl, rfl, rfl, rfl, rfl, le_rfl, rfl, le_rfl, rfl, rfl⟩

theorem quiet_enqueue (actor : LiveRouteActor G) (id : RouteSubscriptionId) :
    actor.Quiet (actor.enqueuePending id) := by
  unfold enqueuePending
  split
  · exact ⟨rfl, rfl, rfl, rfl, rfl, le_rfl, rfl, le_rfl, rfl, rfl⟩
  · exact ⟨rfl, rfl, rfl, rfl, rfl, le_rfl, rfl, le_rfl, rfl, rfl⟩

theorem invalidate_handles (actor : LiveRouteActor G) (id : RouteSubscriptionId) :
    actor.Handles (actor.invalidate id) := by
  cases hfound : actor.entries.lookup id with
  | none =>
      apply Handles.quiet
      simp only [invalidate, publishSnapshot, hfound]
      exact ⟨rfl, rfl, rfl, rfl, rfl, le_saturatingNext _, rfl, le_rfl, rfl, rfl⟩
  | some entry => exact .invalidate hfound

theorem foldl_handles {body : LiveRouteActor G → RouteSubscriptionId → LiveRouteActor G}
    (hbody : ∀ actor id, ReflTransGen Handles actor (body actor id))
    (ids : List RouteSubscriptionId) (actor : LiveRouteActor G) :
    ReflTransGen Handles actor (ids.foldl body actor) := by
  induction ids generalizing actor with
  | nil => exact .refl
  | cons id rest ih => exact (hbody actor id).trans (ih (body actor id))

theorem addSubscription_handles (actor : LiveRouteActor G) (spec : RouteSubscriptionSpec) :
    ReflTransGen Handles actor (actor.addSubscription spec).2 := by
  rcases addSubscription_cases actor spec with ⟨hsame, _⟩ | ⟨haccepts, _⟩
  · rw [hsame]
  · exact .single (.accept haccepts)

theorem cancelSubscription_handles (actor : LiveRouteActor G) (id : RouteSubscriptionId) :
    ReflTransGen Handles actor (actor.cancelSubscription id).2 := by
  rcases cancelSubscription_cases actor id with hsame | ⟨old, hremoves⟩
  · rw [hsame]
  · exact .single (.remove hremoves rfl)

theorem replaceSubscription_handles (actor : LiveRouteActor G) (id : RouteSubscriptionId)
    (spec : RouteSubscriptionSpec) :
    ReflTransGen Handles actor (actor.replaceSubscription id spec).2 := by
  rcases replaceSubscription_cases actor id spec with hsame | ⟨entry, hleaves, htokens, _⟩
  · rw [hsame]
  · exact .single (.replace hleaves htokens)

theorem closedState_source (actor : LiveRouteActor G) : actor.closedState.source = none := by
  unfold closedState
  split <;> rfl

theorem closeEntry_handles (actor : LiveRouteActor G) (id : RouteSubscriptionId) :
    ReflTransGen Handles actor (actor.closeEntry id) := by
  rcases closeEntry_cases actor id with ⟨_, hsame⟩ | ⟨old, hremoves⟩
  · rw [hsame]
  · exact .single (.remove hremoves actor.closedState_source)

theorem close_handles (actor : LiveRouteActor G) : ReflTransGen Handles actor actor.close := by
  have hclosed := foldl_handles closeEntry_handles (ascending actor.entries.keys) actor
  unfold close
  split
  · exact hclosed
  · exact hclosed.tail (.quiet (quiet_event _ _ _ _))

theorem scheduleLoop_handles (ids : List RouteSubscriptionId) (answers : List Bool)
    (actor : LiveRouteActor G) :
    ReflTransGen Handles actor (scheduleLoop ids answers actor) := by
  induction ids generalizing answers actor with
  | nil => exact .refl
  | cons id rest ih =>
      have hpopped : actor.Handles
          { actor with pending := rest, pendingSet := actor.pendingSet.erase id } :=
        .quiet ⟨rfl, rfl, rfl, rfl, rfl, le_rfl, rfl, le_rfl, rfl, rfl⟩
      refine ReflTransGen.head hpopped ?_
      simp only [scheduleLoop]
      split
      · exact ih answers _
      rename_i entry hstartable
      split
      · exact ih answers _
      rename_i job next hprepared
      split
      · obtain ⟨hfound, hwaits⟩ := Option.filter_eq_some_iff.mp hstartable
        simp only [Bool.and_eq_true, Option.isNone_iff_eq_none] at hwaits
        exact (ih answers.tail _).head (.submit hfound hwaits.2 (prepared_of_nextJob hprepared))
      · refine ReflTransGen.head (.quiet ?_) (.single (.quiet (quiet_enqueue _ id)))
        exact ⟨rfl, rfl, rfl, rfl, rfl, le_rfl, rfl, Nat.le_succ _, rfl, rfl⟩

theorem schedulePending_handles (actor : LiveRouteActor G) (answers : List Bool) :
    ReflTransGen Handles actor (actor.schedulePending answers) :=
  scheduleLoop_handles actor.pending answers actor

theorem handleCommand_handles (actor : LiveRouteActor G) (command : RouteCommand) :
    ReflTransGen Handles actor (actor.handleCommand command).actor := by
  cases command with
  | subscribe spec => exact addSubscription_handles actor spec
  | cancel id => exact cancelSubscription_handles actor id
  | replace id spec => exact replaceSubscription_handles actor id spec
  | shutdown => exact .refl

theorem endTurn_handles (turn : LiveRouteTurn G) (answers : List Bool) :
    ReflTransGen Handles turn.actor (endTurn turn answers) := by
  unfold endTurn
  split
  · exact schedulePending_handles turn.actor answers
  · exact close_handles turn.actor

/-- What small steps keep, sequences of them keep. -/
theorem kept_by_steps (invariant : LiveRouteActor G → Prop)
    (hhandles : ∀ {before after}, invariant before → Handles before after → invariant after)
    (hsteps : ReflTransGen Handles before after) (hstart : invariant before) :
    invariant after := by
  induction hsteps with
  | refl => exact hstart
  | tail _ hlast ih => exact hhandles ih hlast

end Steps

section Turns

variable {G : Type} [StableDiGraph G Address EdgeData] {actor next : LiveRouteActor G}
  {lineage : ℕ} {commit : AmmStateCommit} {result : Except LiveRouteRuntimeError Unit}
  {input : LiveRouteActorInput} {turn : LiveRouteTurn G}

/-- A commit is rejected and changes nothing, or its newer snapshot becomes the
view and every entry is invalidated. -/
theorem applyCommit_cases (happly : actor.applyCommit lineage commit = some (result, next)) :
    ((∃ error, result = .error error) ∧ next = actor) ∨
    (result = .ok () ∧ ∃ delta live view,
      actor.live.stateVersion < view.snapshot.version ∧
      live.stateVersion = view.snapshot.version ∧
      next = (ascending actor.entries.keys).foldl invalidate
        (actor.advance commit delta live view)) := by
  unfold applyCommit at happly
  cases hcommit : actor.live.applyCommit lineage commit with
  | none => simp [hcommit] at happly
  | some outcome =>
      have houtcome : actor.live.Outcome lineage (.applyCommit commit) outcome :=
        LiveAmmGraph.outcome_call hcommit
      rcases houtcome with ⟨error, rfl⟩ | ⟨hruntime, hnewer, haccepts⟩
      · rw [hcommit] at happly
        cases happly
        exact Or.inl ⟨⟨_, rfl⟩, rfl⟩
      · obtain ⟨outcome, live⟩ := outcome
        obtain ⟨delta, hok⟩ := haccepts.exists_delta
        simp only at hok
        subst hok
        have hcommitted := haccepts.committed
        have hmatches : live.matchesSnapshot commit.snapshot = true := by
          simp only [LiveAmmGraph.matchesSnapshot, decide_eq_true_eq]
          exact ⟨hcommitted.kept.1.trans hruntime.symm, hcommitted.state⟩
        simp only [hcommit, liveSearchView, LiveSearchView.new, hmatches, if_true] at happly
        cases happly
        exact Or.inr ⟨rfl, delta, live, ⟨commit.snapshot, live.graph, live.liquidity⟩, hnewer,
          hcommitted.state.1, rfl⟩

theorem applyCommit_handles
    (happly : actor.applyCommit lineage commit = some (result, next)) :
    ReflTransGen Handles actor next := by
  rcases applyCommit_cases happly with
    ⟨_, rfl⟩ | ⟨_, delta, live, view, hnewer, hversion, rfl⟩
  · exact .refl
  · exact (foldl_handles (fun actor id => .single (invalidate_handles actor id)) _ _).head
      (.advance hnewer hversion)

theorem applyCommit_of_applyOrFail {commit : DrawnCommit} {applied : Bool × LiveRouteActor G}
    (happly : actor.applyOrFail commit = some applied) (hgoes : applied.1 = true) :
    actor.applyCommit commit.1 commit.2 = some (.ok (), applied.2) := by
  obtain ⟨⟨result, next⟩, hcommit, rfl⟩ := Option.map_eq_some_iff.mp happly
  cases result with
  | ok _ => exact hcommit
  | error error => cases hgoes

theorem applyOrFail_handles {commit : DrawnCommit} {applied : Bool × LiveRouteActor G}
    (happly : actor.applyOrFail commit = some applied) :
    ReflTransGen Handles actor applied.2 := by
  obtain ⟨⟨result, next⟩, hcommit, rfl⟩ := Option.map_eq_some_iff.mp happly
  have hnext := applyCommit_handles hcommit
  cases result with
  | ok _ => exact hnext
  | error error => exact hnext.tail (.quiet (quiet_fail next error))

/-- What a turn does up to `schedule_pending`: small steps, or the handling of
its worker message after the commit that was ready, if any. -/
theorem turn_cases (hturn : actor.turn input = some turn) :
    (ReflTransGen Handles actor turn.actor ∧
      (turn.goesOn = true → ∀ message ready, input ≠ .worker (some message) ready)) ∨
    ∃ message ready middle, input = .worker (some message) ready ∧
      (middle = actor ∨ ∃ lineage commit,
        actor.applyCommit lineage commit = some (.ok (), middle)) ∧
      turn.actor = middle.handleWorkerMessage message ∧ turn.goesOn = true := by
  unfold LiveRouteActor.turn at hturn
  split at hturn
  · cases hturn
    exact Or.inl ⟨.refl, nofun⟩
  · obtain ⟨applied, happly, rfl⟩ := Option.map_eq_some_iff.mp hturn
    exact Or.inl ⟨applyOrFail_handles happly, fun _ _ _ => nofun⟩
  · cases hturn
    exact Or.inl ⟨.refl, nofun⟩
  · cases hturn
    exact Or.inl ⟨handleCommand_handles actor _, fun _ _ _ => nofun⟩
  · cases hturn
    exact Or.inl ⟨.refl, fun _ _ _ => nofun⟩
  · cases hturn
    exact Or.inl ⟨cancelSubscription_handles actor _, fun _ _ _ => nofun⟩
  · cases hturn
    exact Or.inl ⟨.refl, nofun⟩
  · cases hturn
    exact Or.inr ⟨_, none, actor, rfl, Or.inl rfl, rfl, rfl⟩
  · rename_i message commit
    obtain ⟨applied, happly, rfl⟩ := Option.map_eq_some_iff.mp hturn
    cases hgoes : applied.1 with
    | false =>
        simp only [Bool.false_eq_true, if_false]
        exact Or.inl ⟨applyOrFail_handles happly, nofun⟩
    | true =>
        simp only [if_true]
        exact Or.inr ⟨message, some commit, applied.2, rfl,
          Or.inr ⟨_, _, applyCommit_of_applyOrFail happly hgoes⟩, rfl, trivial⟩

/-- A subscription is handed out by the command that was accepted. -/
theorem turn_subscribed (hturn : actor.turn input = some turn) :
    turn.subscribed = none ∨ ∃ spec, actor.Accepts turn.actor spec ∧
      turn.subscribed = some ⟨actor.nextSubscription, (actor.initialEntry spec).cancellation⟩ := by
  unfold LiveRouteActor.turn at hturn
  split at hturn
  · cases hturn
    exact Or.inl rfl
  · obtain ⟨applied, _, rfl⟩ := Option.map_eq_some_iff.mp hturn
    exact Or.inl rfl
  · cases hturn
    exact Or.inl rfl
  · rename_i command
    cases hturn
    cases command with
    | subscribe spec =>
        rcases addSubscription_cases actor spec with ⟨_, hnone⟩ | ⟨haccepts, hsome⟩
        · exact Or.inl hnone
        · exact Or.inr ⟨spec, haccepts, hsome⟩
    | cancel id => exact Or.inl rfl
    | replace id spec => exact Or.inl rfl
    | shutdown => exact Or.inl rfl
  · cases hturn
    exact Or.inl rfl
  · cases hturn
    exact Or.inl rfl
  · cases hturn
    exact Or.inl rfl
  · cases hturn
    exact Or.inl rfl
  · obtain ⟨applied, _, rfl⟩ := Option.map_eq_some_iff.mp hturn
    split
    · exact Or.inl rfl
    · exact Or.inl rfl

/-- What small steps and worker messages keep holds when the schedule runs. -/
theorem kept_before_end (invariant : LiveRouteActor G → Prop)
    (hhandles : ∀ {before after}, invariant before → Handles before after → invariant after)
    (hmessage : ∀ {before} message, invariant before →
      invariant (before.handleWorkerMessage message))
    (hturn : actor.turn input = some turn) (hstart : invariant actor) :
    invariant turn.actor := by
  rcases turn_cases hturn with ⟨hsteps, _⟩ | ⟨message, _, middle, _, hmiddle, hactor, _⟩
  · exact kept_by_steps invariant hhandles hsteps hstart
  · rw [hactor]
    rcases hmiddle with rfl | ⟨_, _, happly⟩
    · exact hmessage message hstart
    · exact hmessage message
        (kept_by_steps invariant hhandles (applyCommit_handles happly) hstart)

/-- What small steps and worker messages keep, turns keep. -/
theorem kept_by_turn (invariant : LiveRouteActor G → Prop)
    (hhandles : ∀ {before after}, invariant before → Handles before after → invariant after)
    (hmessage : ∀ {before} message, invariant before →
      invariant (before.handleWorkerMessage message))
    (hturn : actor.turn input = some turn) (answers : List Bool) (hstart : invariant actor) :
    invariant (endTurn turn answers) :=
  kept_by_steps invariant hhandles (endTurn_handles turn answers)
    (kept_before_end invariant hhandles hmessage hturn hstart)

end Turns

end LiveRouteActor

namespace LiveRouteRuntime

variable {G : Type} [StableDiGraph G Address EdgeData] {runtime next : LiveRouteRuntime G}
  {action : LiveRouteAction}

/-- An input was taken from its channel. -/
structure Receives (runtime : LiveRouteRuntime G) (input : LiveRouteActorInput)
    (received : LiveRouteRuntime G) : Prop where
  actor : received.actor = runtime.actor.withTokens
    { runtime.actor.tokens with cleanup := received.actor.tokens.cleanup }
  subscriptions : received.subscriptions = runtime.subscriptions
  runs : received.runs = runtime.runs
  cutShort : received.cutShort = runtime.cutShort
  results : (∃ message ready, input = .worker (some message) ready ∧
      runtime.results = message :: received.results ∧ received.actor = runtime.actor) ∨
    ((∀ message ready, input ≠ .worker (some message) ready) ∧
      received.results = runtime.results)

/-- A turn of the actor on the input that it received. -/
structure Turns (runtime : LiveRouteRuntime G) (input : LiveRouteActorInput)
    (answers : List Bool) (received : LiveRouteRuntime G) (turn : LiveRouteTurn G)
    (next : LiveRouteRuntime G) : Prop where
  isOpen : runtime.closed = false
  receives : runtime.Receives input received
  turns : received.actor.turn input = some turn
  actor : next.actor = LiveRouteActor.endTurn turn answers
  closed : next.closed = !turn.goesOn
  subscriptions : next.subscriptions = runtime.subscriptions ++ turn.subscribed.toList
  runs : next.runs = runtime.runs
  results : next.results = received.results
  cutShort : next.cutShort = runtime.cutShort

/-- An owner raised the flag of its subscription. -/
structure Raises (runtime : LiveRouteRuntime G) (subscription : LiveRouteSubscription)
    (next : LiveRouteRuntime G) : Prop where
  owned : subscription ∈ runtime.subscriptions
  raised : next.actor.tokens.raised =
    insert subscription.cancellation.flag runtime.actor.tokens.raised
  fresh : next.actor.tokens.next = runtime.actor.tokens.next
  same : next = runtime.withTokens next.actor.tokens

/-- A worker took a job or went on with its search. -/
inductive Works (runtime : LiveRouteRuntime G) : LiveRouteRuntime G → Prop
  | skips {job : RouteWorkerJob G} {rest : List (RouteWorkerJob G)}
      (queued : runtime.actor.jobs = job :: rest) (cancelled : runtime.isCancelled job = true) :
      Works runtime (cut
        { runtime with
          actor := { runtime.actor with jobs := rest }
          runs := runtime.runs ++ [⟨job, some (.error cancelledBeforeExecution)⟩] } job)
  | starts {job : RouteWorkerJob G} {rest : List (RouteWorkerJob G)}
      (queued : runtime.actor.jobs = job :: rest) (running : runtime.isCancelled job = false) :
      Works runtime
        { runtime with
          actor := { runtime.actor with jobs := rest }
          runs := runtime.runs ++ [⟨job, none⟩] }
  | stops {run : RouteRun G} (runs : run ∈ runtime.runs)
      (cancelled : runtime.isCancelled run.job = true) : Works runtime (runtime.cut run.job)
  | shows {run : RouteRun G} (runs : run ∈ runtime.runs) (event : RouteSearchEvent) :
      Works runtime (runtime.send (.event run.job.stamp event))
  | ends {index : ℕ} {run : RouteRun G} (runs : runtime.runs[index]? = some run)
      (result : Except RouteSearchFailure StreamingSearchReport) :
      Works runtime (send { runtime with runs := runtime.runs.eraseIdx index }
        (.completed run.job.stamp result))
  | rests : Works runtime runtime

omit [StableDiGraph G Address EdgeData] in
theorem receives_of_receive {input : LiveRouteActorInput} {received : LiveRouteRuntime G}
    (hreceive : runtime.receive input = some received) : runtime.Receives input received := by
  unfold receive at hreceive
  split at hreceive
  · split at hreceive
    · cases hreceive
      exact ⟨rfl, rfl, rfl, rfl, Or.inr ⟨fun _ _ => nofun, rfl⟩⟩
    · cases hreceive
  · rename_i message ready
    split at hreceive
    · cases hreceive
    · rename_i next rest hresults
      split at hreceive
      · rename_i hnext
        cases hreceive
        exact ⟨rfl, rfl, rfl, rfl, Or.inl ⟨message, ready, rfl, by rw [hresults, hnext], rfl⟩⟩
      · cases hreceive
  · rename_i hother
    cases hreceive
    exact ⟨rfl, rfl, rfl, rfl, Or.inr ⟨hother, rfl⟩⟩

theorem turns_of_turn {input : LiveRouteActorInput} {answers : List Bool}
    (hturn : runtime.turn input answers = some next) :
    ∃ received turn, runtime.Turns input answers received turn next := by
  unfold LiveRouteRuntime.turn at hturn
  split at hturn
  · cases hturn
  rename_i hopen
  obtain ⟨received, hreceive, hrest⟩ := Option.bind_eq_some_iff.mp hturn
  obtain ⟨turn, hactor, rfl⟩ := Option.map_eq_some_iff.mp hrest
  have hreceives := receives_of_receive hreceive
  refine ⟨received, turn, by simpa using hopen, hreceives, hactor, rfl, rfl, ?_,
    hreceives.runs, rfl, hreceives.cutShort⟩
  simp only [hreceives.subscriptions]

omit [StableDiGraph G Address EdgeData] in
theorem works_of_take (htake : runtime.take = some next) : runtime.Works next := by
  unfold take at htake
  split at htake
  · cases htake
  rename_i job rest hqueued
  simp only at htake
  split at htake
  · rename_i hcancelled
    cases htake
    exact .skips hqueued hcancelled
  · rename_i hrunning
    cases htake
    exact .starts hqueued (by simpa using hrunning)

omit [StableDiGraph G Address EdgeData] in
theorem works_of_poll {index : ℕ} (hpoll : runtime.poll index = some next) :
    runtime.Works next := by
  obtain ⟨run, hrun, hnext⟩ := Option.map_eq_some_iff.mp hpoll
  split at hnext
  · rename_i hcancelled
    rw [← hnext]
    exact .stops (List.mem_of_getElem? hrun) hcancelled
  · rw [← hnext]
    exact .rests

omit [StableDiGraph G Address EdgeData] in
theorem works_of_emit {index : ℕ} {event : RouteSearchEvent}
    (hemit : runtime.emit index event = some next) : runtime.Works next := by
  obtain ⟨run, hfilter, hnext⟩ := Option.map_eq_some_iff.mp hemit
  have hrun := List.mem_of_getElem? (Option.filter_eq_some_iff.mp hfilter).1
  split at hnext
  · rename_i hcancelled
    rw [← hnext]
    exact .stops hrun hcancelled
  · rw [← hnext]
    exact .shows hrun event

omit [StableDiGraph G Address EdgeData] in
theorem works_of_finish {index : ℕ} {result : Except RouteSearchFailure StreamingSearchReport}
    (hfinish : runtime.finish index result = some next) : runtime.Works next := by
  obtain ⟨run, hrun, rfl⟩ := Option.map_eq_some_iff.mp hfinish
  exact .ends hrun _

omit [StableDiGraph G Address EdgeData] in
theorem raises_of_byOwner {subscription : LiveRouteSubscription} (tokens : CancellationTokens)
    (hraised : tokens.raised =
      insert subscription.cancellation.flag runtime.actor.tokens.raised)
    (hfresh : tokens.next = runtime.actor.tokens.next)
    (howner : runtime.byOwner subscription tokens = some next) :
    runtime.Raises subscription next := by
  unfold byOwner at howner
  split at howner
  · rename_i howned
    cases howner
    exact ⟨howned, hraised, hfresh, rfl⟩
  · cases howner

/-- Every step is a turn of the actor, a raised flag, or a step of a worker. -/
theorem step_cases (hstep : runtime.step action = some next) :
    (∃ input answers received turn, action = .turn input answers ∧
      runtime.Turns input answers received turn next) ∨
    (∃ subscription, runtime.Raises subscription next) ∨ runtime.Works next := by
  cases action with
  | turn input answers =>
      obtain ⟨received, turn, hturns⟩ := turns_of_turn hstep
      exact Or.inl ⟨input, answers, received, turn, rfl, hturns⟩
  | request subscription =>
      exact Or.inr (Or.inl ⟨subscription,
        raises_of_byOwner (runtime.actor.tokens.request subscription.cancellation) rfl rfl hstep⟩)
  | cancel subscription =>
      exact Or.inr (Or.inl ⟨subscription,
        raises_of_byOwner (runtime.actor.tokens.cancel subscription.cancellation) rfl rfl hstep⟩)
  | release subscription =>
      exact Or.inr (Or.inl ⟨subscription,
        raises_of_byOwner (release runtime.actor.tokens subscription) rfl rfl hstep⟩)
  | take => exact Or.inr (Or.inr (works_of_take hstep))
  | poll index => exact Or.inr (Or.inr (works_of_poll hstep))
  | emit index event => exact Or.inr (Or.inr (works_of_emit hstep))
  | finish index result => exact Or.inr (Or.inr (works_of_finish hstep))

omit [StableDiGraph G Address EdgeData] in
/-- A worker takes jobs from the queue and touches nothing else of the actor. -/
theorem Works.actor (hworks : runtime.Works next) :
    next.actor = { runtime.actor with jobs := next.actor.jobs } ∧
      next.subscriptions = runtime.subscriptions ∧ next.closed = runtime.closed := by
  cases hworks with
  | skips queued cancelled => exact ⟨rfl, rfl, rfl⟩
  | starts queued running => exact ⟨rfl, rfl, rfl⟩
  | stops runs cancelled => exact ⟨rfl, rfl, rfl⟩
  | shows runs event =>
      unfold send
      split
      · exact ⟨rfl, rfl, rfl⟩
      · exact ⟨rfl, rfl, rfl⟩
  | ends runs result =>
      unfold send
      split
      · exact ⟨rfl, rfl, rfl⟩
      · exact ⟨rfl, rfl, rfl⟩
  | rests => exact ⟨rfl, rfl, rfl⟩

/-- The runtime on a first view, before its first input. -/
def started (live : LiveAmmGraph G) (view : LiveSearchView G) (maxSubscriptions : ℕ) :
    LiveRouteRuntime G :=
  ⟨⟨live, view, ∅, [], ∅, 0, 0, maxSubscriptions, none, ⟨∅, 0, []⟩, [], [], [], []⟩, false, [],
    [], [], []⟩

theorem started_of_spawn {lineage : ℕ} {snapshot : AmmStateSnapshot}
    {options : GraphBuildOptions} {config : LiveRouteRuntimeConfig}
    (hspawn : spawn lineage snapshot options config = .ok runtime) :
    ∃ live view maxSubscriptions, runtime = started live view maxSubscriptions ∧
      live.stateVersion = view.snapshot.version := by
  unfold spawn LiveRouteActor.spawn at hspawn
  split at hspawn
  · cases hspawn
  rename_i actor hactor
  split at hactor
  · cases hactor
  split at hactor
  · cases hactor
  rename_i live _
  split at hactor
  · cases hactor
  rename_i view hview
  cases hactor
  cases hspawn
  refine ⟨live, view, _, rfl, ?_⟩
  unfold liveSearchView LiveSearchView.new at hview
  cases hmatches : live.matchesSnapshot snapshot with
  | false => simp [hmatches] at hview
  | true =>
      simp only [hmatches, if_true, Except.ok.injEq] at hview
      simp only [LiveAmmGraph.matchesSnapshot, decide_eq_true_eq] at hmatches
      rw [← hview]
      exact hmatches.2.1

end LiveRouteRuntime

end AmmSearch
