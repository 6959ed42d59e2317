/-
The live route runtime drains.  When no commit, request or shutdown arrives, every search
that a worker takes, every search that ends and every message that the actor handles uses
up some of a bounded amount of work, and when none of these is left to do every live
subscription shows a result of the current view.
-/
import AmmSearch.FiniteMapTotals
import AmmSearch.LiveRouteRuns

open FiniteMap StableGraph

namespace AmmSearch

/-- A dirty entry is searched once more: the job is taken, searched and handled. -/
def RouteEntry.workLeft {G : Type} (entry : RouteEntry G) : ℕ :=
  if entry.dirty then 4 else 0

/-- A worker message without a commit, or an announced cancellation. -/
def LiveRouteActorInput.Undisturbed : LiveRouteActorInput → Prop
  | .worker (some _) none | .cleanup _ => True
  | .worker none _ | .worker (some _) (some _) | .commit _ | .command _ => False

namespace LiveRouteAction

/-- No commit, no command of a client and no shutdown. -/
def Undisturbed : LiveRouteAction → Prop
  | .turn input _ => input.Undisturbed
  | .request _ | .cancel _ | .release _ | .take | .poll _ | .emit _ _ | .finish _ _ => True

/-- A worker takes a job or ends a search, or the actor handles a message. -/
def works : LiveRouteAction → Bool
  | .turn (.worker (some _) _) _ | .take | .finish _ _ => true
  | _ => false

/-- A search shows an event. -/
def emits : LiveRouteAction → Bool
  | .emit _ _ => true
  | _ => false

end LiveRouteAction

namespace LiveRouteActor

variable {G : Type} {actor before after : LiveRouteActor G} {id : RouteSubscriptionId}
  {old entry : RouteEntry G} {shown : Option RouteSubscriptionState}
  {added : List (RouteWorkerJob G)}

/-- The steps that queued jobs and dirty entries still need. -/
def workLeft (actor : LiveRouteActor G) : ℕ :=
  total RouteEntry.workLeft actor.entries + 3 * actor.jobs.length

theorem Leaves.workLeft (hleaves : before.Leaves after id old entry shown added) :
    after.workLeft + old.workLeft = before.workLeft + entry.workLeft + 3 * added.length := by
  have hothers : ∀ other ≠ id, after.entries.lookup other = before.entries.lookup other :=
    fun other hne => by rw [hleaves.lookup, if_neg hne]
  have htotal := total_replace RouteEntry.workLeft hothers
  rw [hleaves.lookup_self, hleaves.found] at htotal
  simp only [LiveRouteActor.workLeft, hleaves.jobs, List.length_append, Option.elim_some]
    at htotal ⊢
  omega

theorem Removes.workLeft_le {state : RouteSubscriptionState}
    (hremoves : before.Removes after id old state) : after.workLeft ≤ before.workLeft := by
  have hothers : ∀ other ≠ id, after.entries.lookup other = before.entries.lookup other :=
    fun other hne => by rw [hremoves.lookup, if_neg hne]
  have htotal := total_replace RouteEntry.workLeft hothers
  rw [hremoves.lookup, if_pos rfl] at htotal
  simp only [LiveRouteActor.workLeft, hremoves.jobs, Option.elim_none] at htotal ⊢
  omega

/-- A job for a dirty entry leaves less work than the entry. -/
theorem workLeft_submit (hfound : actor.entries.lookup id = some entry)
    (hdirty : entry.dirty = true) (job : RouteWorkerJob G) (next : ℕ) :
    (actor.submit id entry job next).workLeft < actor.workLeft := by
  have hleaves := (leaves_submit hfound job next).workLeft
  have hold : entry.workLeft = 4 := if_pos hdirty
  have hnew : (actor.submittedEntry id entry job next).workLeft = 0 := rfl
  rw [hold, hnew, List.length_singleton] at hleaves
  omega

/-- The queue keeps its ids only when the pool has no room for them. -/
theorem scheduleLoop_room {ids : List RouteSubscriptionId} (hpending : actor.pending = ids)
    {answers : List Bool} {room : ℕ} (hroom : List.replicate room true <+: answers) :
    (scheduleLoop ids answers actor).view = actor.view ∧
      (scheduleLoop ids answers actor).workLeft ≤ actor.workLeft ∧
      ((scheduleLoop ids answers actor).pending ≠ [] →
        actor.jobs.length + room ≤ (scheduleLoop ids answers actor).jobs.length) := by
  induction ids generalizing answers actor room with
  | nil => exact ⟨rfl, le_rfl, fun hqueued => absurd hpending hqueued⟩
  | cons id rest ih =>
      rw [scheduleLoop_cons]
      cases hstartable : (actor.pop id rest).startable id with
      | none => exact ih rfl hroom
      | some entry =>
          obtain ⟨hfound, hwaits⟩ := Option.filter_eq_some_iff.mp hstartable
          simp only
          cases hnext : (actor.pop id rest).nextJob id entry with
          | none => exact ih rfl hroom
          | some prepared =>
              obtain ⟨job, next⟩ := prepared
              simp only
              split
              · rename_i htaken
                have hqueue : ((actor.pop id rest).submit id entry job next).pending = rest :=
                  congrArg PendingQueue.pending (submit_queue job next)
                have hroom' : List.replicate (room - 1) true <+: answers.tail := by
                  cases room with
                  | zero => exact List.nil_prefix
                  | succ room =>
                      obtain ⟨others, rfl⟩ := hroom
                      exact ⟨others, rfl⟩
                obtain ⟨hview, hwork, hjobs⟩ := ih hqueue hroom'
                have hsubmitted := workLeft_submit hfound
                  (Bool.and_eq_true_iff.mp hwaits).1 job next
                have hlength := congrArg List.length (leaves_submit hfound job next).jobs
                rw [List.length_append, List.length_singleton] at hlength
                have hpopped : (actor.pop id rest).workLeft = actor.workLeft := rfl
                have hsame : (actor.pop id rest).jobs.length = actor.jobs.length := rfl
                refine ⟨hview.trans (leaves_submit hfound job next).view, by omega,
                  fun hqueued => ?_⟩
                have hlater := hjobs hqueued
                omega
              · rename_i hrefused
                have hquiet := quiet_enqueue
                  ((actor.pop id rest).withTokens (actor.tokens.allocate none).2) id
                have hfull : room = 0 := by
                  by_contra hne
                  obtain ⟨room, rfl⟩ := Nat.exists_eq_succ_of_ne_zero hne
                  obtain ⟨others, rfl⟩ := hroom
                  exact hrefused rfl
                refine ⟨hquiet.view, ?_, fun _ => ?_⟩
                · rw [workLeft, hquiet.entries, hquiet.jobs]
                  exact le_rfl
                · rw [hfull, hquiet.jobs]
                  exact le_rfl

theorem schedulePending_room (actor : LiveRouteActor G) {answers : List Bool} {room : ℕ}
    (hroom : List.replicate room true <+: answers) :
    (actor.schedulePending answers).view = actor.view ∧
      (actor.schedulePending answers).workLeft ≤ actor.workLeft ∧
      ((actor.schedulePending answers).pending ≠ [] →
        actor.jobs.length + room ≤ (actor.schedulePending answers).jobs.length) :=
  scheduleLoop_room rfl hroom

theorem handleCompleted_eq {stamp : RouteJobStamp} {active : ActiveRouteJob}
    (hruns : actor.Runs stamp entry active)
    (result : Except RouteSearchFailure StreamingSearchReport) :
    actor.handleCompleted stamp result =
      if stamp.source ≠ actor.current ∨ entry.epoch ≠ stamp.epoch ∨
          actor.tokens.isCancelled entry.cancellation then
        actor.rejectStale stamp entry
      else actor.install stamp entry result := by
  simp [handleCompleted, hruns.found, hruns.running, hruns.names]

/-- The job of a clean entry is dropped only when its subscription is cancelled. -/
theorem Served.workLeft_reject {stamp : RouteJobStamp} {active : ActiveRouteJob}
    (hserved : actor.Served) (hruns : actor.Runs stamp entry active)
    (hreject : stamp.source ≠ actor.current ∨ entry.epoch ≠ stamp.epoch ∨
      actor.tokens.isCancelled entry.cancellation = true) :
    RouteEntry.workLeft
        { entry with
          active := none
          dirty := !actor.tokens.isCancelled entry.cancellation } ≤ entry.workLeft := by
  obtain ⟨job, hbusy⟩ := (hserved.entries _ entry hruns.found).busy active hruns.running
  have hstamp : job.stamp = stamp := hbusy.stamp.trans hruns.names
  rcases hbusy.standing with hfresh | hstale
  · have hsource : stamp.source = actor.current := by
      rw [← hstamp, hbusy.source, hfresh.view]
      rfl
    have hepoch : entry.epoch = stamp.epoch := by rw [← hstamp, hfresh.epoch]
    simp only [hsource, hepoch, ne_eq, not_true_eq_false, false_or] at hreject
    simp [RouteEntry.workLeft, hreject]
  · unfold RouteEntry.workLeft
    rw [if_pos hstale.dirty]
    split <;> omega

/-- A handled message leaves no more work: a job that is dropped because its source is
outdated was already counted for its dirty entry. -/
theorem Served.workLeft_message (hserved : actor.Served) (message : RouteWorkerMessage) :
    (actor.handleWorkerMessage message).workLeft ≤ actor.workLeft := by
  cases message with
  | event stamp event =>
      rcases handleEvent_cases actor stamp event with hsame | ⟨entry, _, _, _, hleaves, _, _⟩
      · rw [handleWorkerMessage, hsame]
      · have hwork := hleaves.workLeft
        have hshown : (actor.shownEntry stamp.subscription entry
            (eventState stamp event entry.lastReady)).workLeft = entry.workLeft := rfl
        rw [hshown, List.length_nil] at hwork
        rw [handleWorkerMessage]
        omega
  | completed stamp result =>
      rw [handleWorkerMessage]
      rcases handleCompleted_cases actor stamp result with
        ⟨hsame, _⟩ | ⟨entry, active, hruns, _, _⟩
      · rw [hsame]
      · rw [handleCompleted_eq hruns]
        split
        · rename_i hreject
          have hwork := (leaves_rejectStale hruns.found).1.workLeft
          have hdirty := hserved.workLeft_reject hruns hreject
          rw [List.length_nil] at hwork
          omega
        · have hwork := (leaves_install hruns.found result).workLeft
          have hinstalled : (actor.installedEntry stamp entry result).workLeft =
              entry.workLeft := rfl
          rw [hinstalled, List.length_nil] at hwork
          omega

theorem view_handleWorkerMessage (actor : LiveRouteActor G) (message : RouteWorkerMessage) :
    (actor.handleWorkerMessage message).view = actor.view := by
  cases message with
  | event stamp event =>
      rcases handleEvent_cases actor stamp event with hsame | ⟨_, _, _, _, hleaves, _, _⟩
      · rw [handleWorkerMessage, hsame]
      · exact hleaves.view
  | completed stamp result =>
      rcases handleCompleted_cases actor stamp result with
        ⟨hsame, _⟩ | ⟨_, _, _, _, ⟨hleaves, _⟩ | ⟨_, hleaves, _⟩⟩
      · rw [handleWorkerMessage, hsame]
      · exact hleaves.view
      · exact hleaves.view

theorem jobs_handleWorkerMessage (actor : LiveRouteActor G) (message : RouteWorkerMessage) :
    (actor.handleWorkerMessage message).jobs.length = actor.jobs.length := by
  cases message with
  | event stamp event =>
      rcases handleEvent_cases actor stamp event with hsame | ⟨_, _, _, _, hleaves, _, _⟩
      · rw [handleWorkerMessage, hsame]
      · rw [handleWorkerMessage, hleaves.jobs, List.append_nil]
  | completed stamp result =>
      rcases handleCompleted_cases actor stamp result with
        ⟨hsame, _⟩ | ⟨_, _, _, _, ⟨hleaves, _⟩ | ⟨_, hleaves, _⟩⟩
      · rw [handleWorkerMessage, hsame]
      · rw [handleWorkerMessage, hleaves.jobs, List.append_nil]
      · rw [handleWorkerMessage, hleaves.jobs, List.append_nil]

theorem Handles.jobs_le (hhandles : before.Handles after) :
    before.jobs.length ≤ after.jobs.length := by
  cases hhandles with
  | quiet same => rw [same.jobs]
  | advance newer version => exact le_rfl
  | invalidate found => simp [(leaves_invalidate found).jobs]
  | replace leaves tokens => simp [leaves.jobs]
  | submit found waits prepared => simp [(leaves_submit found _ _).jobs]
  | remove removes terminal => rw [removes.jobs]
  | accept accepts => rw [accepts.jobs]

end LiveRouteActor

namespace LiveRouteRuntime

variable {G : Type} [StableDiGraph G Address EdgeData] {start runtime next : LiveRouteRuntime G}
  {action : LiveRouteAction} {input : LiveRouteActorInput} {answers : List Bool}
  {received : LiveRouteRuntime G} {turn : LiveRouteTurn G} {capacity : ℕ}

/-- The steps that are left until nothing is queued, searched or unread: a queued job is
taken, searched and handled. -/
def workLeft (runtime : LiveRouteRuntime G) : ℕ :=
  runtime.actor.workLeft + 2 * runtime.runs.length + runtime.results.length

/-- The pool takes every job that its queue has room for. -/
def Roomy (capacity : ℕ) (runtime : LiveRouteRuntime G) : LiveRouteAction → Prop
  | .turn _ answers => List.replicate (capacity - runtime.actor.jobs.length) true <+: answers
  | _ => True

/-- Every subscription that is not cancelled shows a result of the current view. -/
def Answered (runtime : LiveRouteRuntime G) : Prop :=
  ∀ id entry, runtime.actor.entries.lookup id = some entry → entry.nextJob < u64Max →
    runtime.actor.tokens.isCancelled entry.cancellation = false → runtime.actor.Shows entry

/-- What a step leaves of a state in which no commit and no command arrives. -/
structure Spends (runtime : LiveRouteRuntime G) (action : LiveRouteAction)
    (next : LiveRouteRuntime G) : Prop where
  isOpen : next.closed = runtime.closed
  view : next.actor.view = runtime.actor.view
  work : next.workLeft + (if action.works then 1 else 0) ≤
    runtime.workLeft + if action.emits then 1 else 0

/-- A turn that goes on and whose input leaves no more work. -/
theorem Turns.spends (hturns : runtime.Turns input answers received turn next)
    (hgoes : turn.goesOn = true) (hview : turn.actor.view = runtime.actor.view)
    (hwork : turn.actor.workLeft ≤ runtime.actor.workLeft)
    (hresults : received.results.length +
      (if LiveRouteAction.works (.turn input answers) then 1 else 0) ≤ runtime.results.length) :
    runtime.Spends (.turn input answers) next := by
  have hnext : next.actor = turn.actor.schedulePending answers := by
    rw [hturns.actor, LiveRouteActor.endTurn, if_pos hgoes]
  obtain ⟨hsame, hless, _⟩ := turn.actor.schedulePending_room
    (show List.replicate 0 true <+: answers from List.nil_prefix)
  refine ⟨by rw [hturns.closed, hgoes, hturns.isOpen]; rfl, ?_, ?_⟩
  · rw [hnext]
    exact hsame.trans hview
  · have hemits : LiveRouteAction.emits (.turn input answers) = false := rfl
    rw [workLeft, workLeft, hnext, hturns.runs, hturns.results, hemits]
    simp only [Bool.false_eq_true, if_false]
    omega

theorem Working.spends_turn (hworking : runtime.Working)
    (hundisturbed : input.Undisturbed) (hturns : runtime.Turns input answers received turn next) :
    runtime.Spends (.turn input answers) next := by
  have hturn := hturns.turns
  unfold LiveRouteActorInput.Undisturbed at hundisturbed
  split at hundisturbed
  · rename_i message
    cases hturn
    rcases hturns.receives.results with ⟨found, ready, hinput, hresults, hactor⟩ | ⟨hother, _⟩
    · cases hinput
      rw [hactor] at hturns
      refine hturns.spends rfl ?_ (hworking.served.workLeft_message message) ?_
      · exact LiveRouteActor.view_handleWorkerMessage _ _
      · rw [hresults]
        simp [LiveRouteAction.works]
    · exact absurd rfl (hother message none)
  · rename_i id
    have hsame : received.actor.view = runtime.actor.view ∧
        received.actor.workLeft = runtime.actor.workLeft := by
      rw [hturns.receives.actor]
      exact ⟨rfl, rfl⟩
    have hresults : received.results = runtime.results := by
      rcases hturns.receives.results with ⟨message, ready, hinput, _⟩ | ⟨_, hresults⟩
      · cases hinput
      · exact hresults
    cases id with
    | none =>
        cases hturn
        exact hturns.spends rfl hsame.1 hsame.2.le (by rw [hresults]; exact le_rfl)
    | some id =>
        cases hturn
        refine hturns.spends rfl ?_ ?_ (by rw [hresults]; exact le_rfl)
        · rcases received.actor.cancelSubscription_cases id with hnone | ⟨old, hremoves⟩
          · simp only [hnone, hsame.1]
          · exact hremoves.view.trans hsame.1
        · rcases received.actor.cancelSubscription_cases id with hnone | ⟨old, hremoves⟩
          · simp only [hnone, hsame.2, le_refl]
          · exact hremoves.workLeft_le.trans hsame.2.le
  all_goals exact hundisturbed.elim

omit [StableDiGraph G Address EdgeData] in
theorem spends_send (runtime : LiveRouteRuntime G) (message : RouteWorkerMessage) :
    (runtime.send message).workLeft ≤ runtime.workLeft + 1 ∧
      (runtime.send message).closed = runtime.closed ∧
      (runtime.send message).actor = runtime.actor := by
  unfold send
  split
  · exact ⟨Nat.le_succ _, rfl, rfl⟩
  · exact ⟨by simp [workLeft, Nat.add_assoc], rfl, rfl⟩

theorem Working.spends (hworking : runtime.Working) (hundisturbed : action.Undisturbed)
    (hstep : runtime.step action = some next) : runtime.Spends action next := by
  cases action with
  | turn input answers =>
      obtain ⟨received, turn, hturns⟩ := turns_of_turn hstep
      exact hworking.spends_turn hundisturbed hturns
  | request subscription =>
      have hsame := (raises_of_byOwner (runtime.actor.tokens.request subscription.cancellation)
        rfl rfl hstep).same
      rw [hsame]
      exact ⟨rfl, rfl, le_rfl⟩
  | cancel subscription =>
      have hsame := (raises_of_byOwner (runtime.actor.tokens.cancel subscription.cancellation)
        rfl rfl hstep).same
      rw [hsame]
      exact ⟨rfl, rfl, le_rfl⟩
  | release subscription =>
      have hsame := (raises_of_byOwner (release runtime.actor.tokens subscription)
        rfl rfl hstep).same
      rw [hsame]
      exact ⟨rfl, rfl, le_rfl⟩
  | take =>
      have htake : runtime.take = some next := hstep
      unfold take at htake
      split at htake
      · cases htake
      · rename_i job rest hjobs
        simp only at htake
        split at htake
        all_goals
          cases htake
          refine ⟨rfl, rfl, ?_⟩
          simp only [workLeft, cut, LiveRouteActor.workLeft, hjobs, List.length_cons,
            List.length_append, List.length_nil, LiveRouteAction.works, LiveRouteAction.emits]
          simp
          omega
  | poll index =>
      obtain ⟨run, _, hnext⟩ := Option.map_eq_some_iff.mp hstep
      rw [← hnext]
      split
      · exact ⟨rfl, rfl, le_rfl⟩
      · exact ⟨rfl, rfl, le_rfl⟩
  | emit index event =>
      obtain ⟨run, _, hnext⟩ := Option.map_eq_some_iff.mp hstep
      rw [← hnext]
      split
      · exact ⟨rfl, rfl, Nat.le_succ _⟩
      · obtain ⟨hwork, hclosed, hactor⟩ := runtime.spends_send (.event run.job.stamp event)
        exact ⟨hclosed, by rw [hactor], hwork⟩
  | finish index result =>
      obtain ⟨run, hrun, hnext⟩ := Option.map_eq_some_iff.mp hstep
      obtain ⟨hwork, hclosed, hactor⟩ := spends_send
        { runtime with runs := runtime.runs.eraseIdx index }
        (.completed run.job.stamp (run.result.getD result))
      have hindex := (List.getElem?_eq_some_iff.mp hrun).1
      rw [← hnext]
      refine ⟨hclosed, by rw [hactor], ?_⟩
      have herased := List.length_eraseIdx_add_one hindex
      simp only [workLeft] at hwork ⊢
      simp only [LiveRouteAction.works, LiveRouteAction.emits, if_true, Bool.false_eq_true,
        if_false]
      omega

/-- A subscription that waits for a job does so while another job is on its way. -/
def Backed (runtime : LiveRouteRuntime G) : Prop :=
  runtime.closed = false → runtime.actor.pending ≠ [] → runtime.inFlight ≠ 0

omit [StableDiGraph G Address EdgeData] in
theorem jobs_le_card_inFlight (runtime : LiveRouteRuntime G) :
    runtime.actor.jobs.length ≤ runtime.inFlight.card := by
  rw [inFlight, LiveRouteActor.inFlight, Multiset.card_add, Multiset.coe_card, List.length_map]
  exact Nat.le_add_right _ _

/-- Before the schedule runs no job leaves the queue. -/
theorem jobs_le_turn {actor : LiveRouteActor G} (hturn : actor.turn input = some turn) :
    actor.jobs.length ≤ turn.actor.jobs.length :=
  LiveRouteActor.kept_before_end (fun after => actor.jobs.length ≤ after.jobs.length)
    (fun hbefore hhandles => hbefore.trans hhandles.jobs_le)
    (fun message hbefore => hbefore.trans (LiveRouteActor.jobs_handleWorkerMessage _ message).ge)
    hturn le_rfl

theorem Backed.step (hbacked : runtime.Backed) (hcapacity : 0 < capacity)
    (hroomy : Roomy capacity runtime action) (hstep : runtime.step action = some next) :
    next.Backed := by
  intro hopen hqueued
  rcases step_cases hstep with
    ⟨input, answers, received, turn, rfl, hturns⟩ | ⟨subscription, hraises⟩ | hworks
  · have hgoes : turn.goesOn = true := by
      rw [hturns.closed] at hopen
      simpa using hopen
    have hnext : next.actor = turn.actor.schedulePending answers := by
      rw [hturns.actor, LiveRouteActor.endTurn, if_pos hgoes]
    have hjobs : runtime.actor.jobs.length ≤ turn.actor.jobs.length := by
      have hturn := jobs_le_turn hturns.turns
      rwa [hturns.receives.actor] at hturn
    obtain ⟨_, _, hfull⟩ := turn.actor.schedulePending_room hroomy
    rw [← hnext] at hfull
    have hlength := hfull hqueued
    intro hnone
    have hcard := next.jobs_le_card_inFlight
    rw [hnone, Multiset.card_zero] at hcard
    omega
  · have hsame := hraises.same
    generalize next.actor.tokens = tokens at hsame
    subst hsame
    exact hbacked hopen hqueued
  · obtain ⟨hactor, _, hclosed⟩ := hworks.actor
    rw [hclosed] at hopen
    rw [hactor] at hqueued
    rw [hworks.inFlight hopen]
    exact hbacked hopen hqueued

omit [StableDiGraph G Address EdgeData] in
/-- With nothing queued, searched or unread every subscription is answered. -/
theorem Working.answered (hworking : runtime.Working) (hopen : runtime.closed = false)
    (hbacked : runtime.Backed) (hjobs : runtime.actor.jobs = []) (hruns : runtime.runs = [])
    (hresults : runtime.results = []) : runtime.Answered := by
  have hflight : runtime.inFlight = 0 := by
    simp [inFlight, LiveRouteActor.inFlight, elsewhere, hjobs, hruns, hresults]
  have hpending : runtime.actor.pending = [] := by
    by_contra hqueued
    exact hbacked hopen hqueued hflight
  intro id entry hfound hcounter hcancelled
  rcases (hworking.noLostWork hopen).serves id entry hfound hcounter hcancelled with
    hshows | ⟨active, _, hstamps⟩ | hqueued
  · exact hshows
  · rw [hflight] at hstamps
    simp [stampsOf] at hstamps
  · rw [hpending] at hqueued
    cases hqueued

/-- Something queued, searched or unread lets a worker or the actor go on. -/
theorem exists_work (hopen : runtime.closed = false)
    (hbusy : runtime.actor.jobs ≠ [] ∨ runtime.runs ≠ [] ∨ runtime.results ≠ []) :
    ∃ action : LiveRouteAction, action.works = true ∧ action.Undisturbed ∧
      Roomy capacity runtime action ∧ (runtime.step action).isSome := by
  rcases hbusy with hjobs | hruns | hresults
  · refine ⟨.take, rfl, trivial, trivial, ?_⟩
    obtain ⟨job, rest, hqueued⟩ := List.exists_cons_of_ne_nil hjobs
    simp only [step, take, hqueued]
    split <;> rfl
  · refine ⟨.finish 0 (.error cancelledBeforeExecution), rfl, trivial, trivial, ?_⟩
    obtain ⟨run, rest, hsearched⟩ := List.exists_cons_of_ne_nil hruns
    simp [step, finish, hsearched]
  · obtain ⟨message, rest, hunread⟩ := List.exists_cons_of_ne_nil hresults
    refine ⟨.turn (.worker (some message) none)
      (List.replicate (capacity - runtime.actor.jobs.length) true), rfl, trivial,
      List.prefix_rfl, ?_⟩
    simp [step, LiveRouteRuntime.turn, receive, hunread, hopen, LiveRouteActor.turn]

/-- The job queue of a runtime has room for a job. -/
theorem capacity_of_spawn {lineage : ℕ} {snapshot : AmmStateSnapshot}
    {options : GraphBuildOptions} {config : LiveRouteRuntimeConfig}
    (hspawn : spawn lineage snapshot options config = .ok start) :
    0 < config.jobQueueCapacity := by
  by_contra hzero
  simp [spawn, LiveRouteActor.spawn, LiveRouteRuntimeConfig.validate,
    Nat.eq_zero_of_not_pos hzero] at hspawn

/-- From any state that the runtime reaches, while no commit, command or shutdown arrives,
the view stays, the number of jobs taken, searches ended and messages handled is bounded by
the work that was left and the events shown, and until every subscription that is not
cancelled shows a result of the view there is such a step to take. -/
theorem drains {lineage : ℕ} {snapshot : AmmStateSnapshot} {options : GraphBuildOptions}
    {config : LiveRouteRuntimeConfig} {earlier actions : List LiveRouteAction}
    (hspawn : spawn lineage snapshot options config = .ok start)
    (hearlier : Transitions.run step start earlier = some runtime)
    (hopen : runtime.closed = false)
    (hrun : Transitions.run step runtime actions = some next)
    (hroomy : Transitions.Along step (Roomy config.jobQueueCapacity) start
      (earlier ++ actions))
    (hundisturbed : ∀ action ∈ actions, action.Undisturbed) :
    next.closed = false ∧ next.actor.view = runtime.actor.view ∧
      actions.countP LiveRouteAction.works ≤
        runtime.workLeft + actions.countP LiveRouteAction.emits ∧
      (next.Answered ∨ ∃ action : LiveRouteAction, action.works = true ∧ action.Undisturbed ∧
        Roomy config.jobQueueCapacity next action ∧ (next.step action).isSome) := by
  have hworking := working_of_reaches hspawn ⟨earlier, hearlier⟩
  obtain ⟨⟨hnext, hclosed, hview⟩, hcount⟩ := Transitions.countP_add_le
    (fun state : LiveRouteRuntime G =>
      state.Working ∧ state.closed = false ∧ state.actor.view = runtime.actor.view)
    workLeft LiveRouteAction.works LiveRouteAction.emits
    (fun hstate hundisturbed hstep => by
      have hspends := hstate.1.spends hundisturbed hstep
      exact ⟨⟨hstate.1.step hstep, hspends.isOpen.trans hstate.2.1,
        hspends.view.trans hstate.2.2⟩, hspends.work⟩)
    hundisturbed hrun ⟨hworking, hopen, rfl⟩
  have hwhole : Transitions.run step start (earlier ++ actions) = some next := by
    rw [Transitions.run_append, hearlier, Option.bind_some, hrun]
  have hbacked : next.Backed := hroomy.preserves
    (fun hstate hroom hstep => hstate.step (capacity_of_spawn hspawn) hroom hstep) hwhole
    (by
      obtain ⟨live, view, maxSubscriptions, rfl, _⟩ := started_of_spawn hspawn
      intro _ hqueued
      exact absurd rfl hqueued)
  refine ⟨hclosed, hview, by omega, ?_⟩
  by_cases hbusy : next.actor.jobs ≠ [] ∨ next.runs ≠ [] ∨ next.results ≠ []
  · exact Or.inr (exists_work hclosed hbusy)
  · simp only [not_or, ne_eq, not_not] at hbusy
    exact Or.inl (hnext.answered hclosed hbacked hbusy.1 hbusy.2.1 hbusy.2.2)

end LiveRouteRuntime

namespace LiveRouteExample

/-- The first search is outdated by a commit while it runs. -/
def outdated : List LiveRouteAction :=
  [.turn (.command (some (.subscribe spec))) [true], .take,
    .turn (.commit (some (2, TwoPoolGraph.addRight))) [true]]

/-- Both searches end, and their results are handled. -/
def drained : List LiveRouteAction :=
  [.finish 0 (.error failure),
    .turn (.worker (some (.completed (stamp 0 0) (.error failure))) none) [true], .take,
    .finish 0 (.error failure),
    .turn (.worker (some (.completed (stamp 1 1) (.error failure))) none) [true]]

theorem drains_outdated :
    ∃ start runtime next : LiveRouteRuntime (SlotGraph Address EdgeData),
      LiveRouteRuntime.spawn 1 (TwoPoolGraph.snapshot 0 [TwoPoolGraph.left] (by decide)) {}
        { workerThreads := 1, jobQueueCapacity := 1 } = .ok start ∧
      Transitions.run LiveRouteRuntime.step start outdated = some runtime ∧
      Transitions.run LiveRouteRuntime.step runtime drained = some next ∧
      runtime.workLeft = 6 ∧ drained.countP LiveRouteAction.works = 5 ∧
      (next.Answered ∨ ∃ action : LiveRouteAction, action.works = true ∧ action.Undisturbed ∧
        LiveRouteRuntime.Roomy 1 next action ∧ (next.step action).isSome) := by
  have hruns : ∃ start runtime next : LiveRouteRuntime (SlotGraph Address EdgeData),
      LiveRouteRuntime.spawn 1 (TwoPoolGraph.snapshot 0 [TwoPoolGraph.left] (by decide)) {}
        { workerThreads := 1, jobQueueCapacity := 1 } = .ok start ∧
      Transitions.run LiveRouteRuntime.step start outdated = some runtime ∧
      Transitions.run LiveRouteRuntime.step runtime drained = some next ∧
      runtime.workLeft = 6 ∧ runtime.closed = false :=
    ⟨_, _, _, rfl, rfl, rfl, by decide +kernel, rfl⟩
  obtain ⟨start, runtime, next, hspawn, hearlier, hrun, hwork, hopen⟩ := hruns
  have hroomy : ∀ action ∈ outdated ++ drained,
      ∀ state : LiveRouteRuntime (SlotGraph Address EdgeData), state.Roomy 1 action := by
    intro action haction state
    have hroom : List.replicate (1 - state.actor.jobs.length) true <+: [true] :=
      List.prefix_replicate_iff (n := 1) |>.mpr (by simp)
    simp only [outdated, drained, List.cons_append, List.nil_append, List.mem_cons,
      List.not_mem_nil, or_false] at haction
    rcases haction with rfl | rfl | rfl | rfl | rfl | rfl | rfl | rfl
    all_goals first | exact hroom | trivial
  exact ⟨start, runtime, next, hspawn, hearlier, hrun, hwork, rfl,
    (LiveRouteRuntime.drains hspawn hearlier hopen hrun
      (Transitions.along_of_forall hroomy) (by
        simp [drained, LiveRouteAction.Undisturbed, LiveRouteActorInput.Undisturbed])).2.2.2⟩

end LiveRouteExample

end AmmSearch
