/-
The publication fence of the live route runtime.  A quote or a failure is shown
only when a message of the current job is handled: that job searched the current
view for the current request and epoch, and nobody has cancelled it.
-/
import AmmSearch.LiveRouteRuns

open FiniteMap StableGraph

namespace AmmSearch

open Relation (ReflTransGen)

variable {G : Type}

/-- The state carries a quote or a failure of a search. -/
def RouteSubscriptionState.concludes : RouteSubscriptionState → Bool
  | ready _ _ _ => true
  | failed _ _ => true
  | searching _ provisional _ => provisional.isSome
  | _ => false

/-- The stamp of the job that a message comes from. -/
def RouteWorkerMessage.stamp : RouteWorkerMessage → RouteJobStamp
  | .event stamp _ => stamp
  | .completed stamp _ => stamp

/-- The state that a message shows. -/
def RouteWorkerMessage.ShowsState (message : RouteWorkerMessage) (state : RouteSubscriptionState) :
    Prop :=
  match message with
  | RouteWorkerMessage.event stamp shown =>
      ∃ previous, LiveRouteActor.eventState stamp shown previous = some state
  | RouteWorkerMessage.completed stamp result =>
      state = LiveRouteActor.installedState stamp result

namespace LiveRouteActor

/-- Only states without a result were published. -/
def Silent (before after : LiveRouteActor G) : Prop :=
  ∃ new, after.published = before.published ++ new ∧
    ∀ snapshot ∈ new, snapshot.state.concludes = false

/-- Jobs and raised flags are only added. -/
structure Grows (before after : LiveRouteActor G) : Prop where
  submitted : before.submitted ⊆ after.submitted
  raised : before.tokens.raised ⊆ after.tokens.raised

variable {actor before after middle : LiveRouteActor G} {id : RouteSubscriptionId}
  {old entry : RouteEntry G} {shown : Option RouteSubscriptionState}
  {added : List (RouteWorkerJob G)} {active : ActiveRouteJob}

theorem Silent.of_eq (hpublished : after.published = before.published) : before.Silent after :=
  ⟨[], hpublished.trans (List.append_nil _).symm, fun _ hmem => absurd hmem List.not_mem_nil⟩

theorem Silent.trans (hfirst : before.Silent middle) (hsecond : middle.Silent after) :
    before.Silent after := by
  obtain ⟨first, hmiddle, hquiet⟩ := hfirst
  obtain ⟨second, hafter, hlater⟩ := hsecond
  refine ⟨first ++ second, by rw [hafter, hmiddle, List.append_assoc], ?_⟩
  intro snapshot hsnapshot
  rcases List.mem_append.mp hsnapshot with hmem | hmem
  · exact hquiet snapshot hmem
  · exact hlater snapshot hmem

theorem Silent.leaves (hleaves : before.Leaves after id old entry shown added)
    (hshown : ∀ state, shown = some state → state.concludes = false) : before.Silent after := by
  refine ⟨_, hleaves.published, ?_⟩
  intro snapshot hsnapshot
  obtain ⟨state, hstate, rfl⟩ := Option.map_eq_some_iff.mp (Option.mem_toList.mp hsnapshot)
  exact hshown state hstate

theorem Handles.silent (hhandles : before.Handles after) : before.Silent after := by
  cases hhandles with
  | quiet same => exact .of_eq same.published
  | advance newer version => exact .of_eq rfl
  | invalidate found => exact .leaves (leaves_invalidate found) (by rintro state ⟨⟩; rfl)
  | replace leaves tokens => exact .leaves leaves (by rintro state ⟨⟩; rfl)
  | submit found waits prepared =>
      exact .leaves (leaves_submit found _ _) (by rintro state ⟨⟩; rfl)
  | remove removes terminal =>
      refine ⟨_, removes.published, ?_⟩
      intro snapshot hsnapshot
      rw [List.mem_singleton.mp hsnapshot]
      rename_i state
      cases state <;> first | rfl | cases terminal
  | accept accepts =>
      refine ⟨_, accepts.published, ?_⟩
      intro snapshot hsnapshot
      rw [List.mem_singleton.mp hsnapshot]
      rfl

theorem silent_of_steps (hsteps : ReflTransGen Handles before after) : before.Silent after := by
  induction hsteps with
  | refl => exact .of_eq rfl
  | tail _ hlast ih => exact ih.trans hlast.silent

theorem Grows.refl (actor : LiveRouteActor G) : actor.Grows actor :=
  ⟨List.Subset.refl _, Finset.Subset.refl _⟩

theorem Grows.trans (hfirst : before.Grows middle) (hsecond : middle.Grows after) :
    before.Grows after :=
  ⟨List.Subset.trans hfirst.submitted hsecond.submitted,
    Finset.Subset.trans hfirst.raised hsecond.raised⟩

theorem Grows.leaves (hleaves : before.Leaves after id old entry shown added)
    (hraised : before.tokens.raised ⊆ after.tokens.raised) : before.Grows after :=
  ⟨by rw [hleaves.submitted]; exact List.subset_append_left _ _, hraised⟩

theorem raised_cancelActive (tokens : CancellationTokens) (active : Option ActiveRouteJob) :
    tokens.raised ⊆ (tokens.cancelActive active).raised :=
  fun _ hflag => CancellationTokens.mem_cancelActive_iff.mpr (Or.inr hflag)

theorem Handles.grows (hhandles : before.Handles after) : before.Grows after := by
  cases hhandles with
  | quiet same => exact ⟨by rw [same.submitted]; exact List.Subset.refl _, by rw [same.raised]⟩
  | advance newer version => exact ⟨List.Subset.refl _, Finset.Subset.refl _⟩
  | invalidate found =>
      exact .leaves (leaves_invalidate found)
        (by rw [invalidate_tokens found]; exact raised_cancelActive _ _)
  | replace leaves tokens =>
      exact .leaves leaves (by rw [tokens]; exact raised_cancelActive _ _)
  | submit found waits prepared =>
      exact .leaves (leaves_submit found _ _) (by rw [submit_tokens]; exact Finset.Subset.refl _)
  | remove removes terminal =>
      refine ⟨by rw [removes.submitted]; exact List.Subset.refl _, ?_⟩
      rw [removes.tokens]
      intro flag hflag
      exact raised_cancelActive _ _ (CancellationTokens.mem_cancel_iff.mpr (Or.inr hflag))
  | accept accepts =>
      exact ⟨by rw [accepts.submitted]; exact List.Subset.refl _, by rw [accepts.tokens]⟩

theorem grows_message (actor : LiveRouteActor G) (message : RouteWorkerMessage) :
    actor.Grows (actor.handleWorkerMessage message) := by
  cases message with
  | event stamp event =>
      rcases handleEvent_cases actor stamp event with
        hsame | ⟨_, _, _, _, hleaves, htokens, _⟩
      · rw [handleWorkerMessage, hsame]
        exact .refl actor
      · exact .leaves hleaves (by rw [handleWorkerMessage, htokens])
  | completed stamp result =>
      rcases handleCompleted_cases actor stamp result with
        ⟨hsame, _⟩ | ⟨_, _, _, htokens, ⟨hleaves, _⟩ | ⟨_, hleaves, _⟩⟩
      · rw [handleWorkerMessage, hsame]
        exact .refl actor
      · exact .leaves hleaves (by rw [handleWorkerMessage, htokens])
      · exact .leaves hleaves (by rw [handleWorkerMessage, htokens])

/-- What a message publishes, if anything: a state of its own job, which is
current. -/
theorem message_publishes (actor : LiveRouteActor G) (message : RouteWorkerMessage) :
    (actor.handleWorkerMessage message).published = actor.published ∨
    ∃ entry active state, actor.Current message.stamp entry active ∧
      message.ShowsState state ∧
      (actor.handleWorkerMessage message).published = actor.published ++
        [actor.nextSnapshot message.stamp.subscription entry.epoch state] := by
  cases message with
  | event stamp event =>
      rcases handleEvent_cases actor stamp event with
        hsame | ⟨entry, active, hcurrent, _, hleaves, _⟩
      · rw [handleWorkerMessage, hsame]
        exact Or.inl rfl
      · have hpublished := hleaves.published
        cases hstate : eventState stamp event entry.lastReady with
        | none =>
            rw [hstate] at hpublished
            exact Or.inl (hpublished.trans (List.append_nil _))
        | some state =>
            rw [hstate] at hpublished
            exact Or.inr ⟨entry, active, state, hcurrent, ⟨_, hstate⟩, hpublished⟩
  | completed stamp result =>
      rcases handleCompleted_cases actor stamp result with
        ⟨hsame, _⟩ | ⟨entry, active, _, _, ⟨hleaves, _⟩ | ⟨hcurrent, hleaves, _⟩⟩
      · rw [handleWorkerMessage, hsame]
        exact Or.inl rfl
      · exact Or.inl (hleaves.published.trans (List.append_nil _))
      · exact Or.inr ⟨entry, active, _, hcurrent, rfl, hleaves.published⟩

/-- Queued jobs were submitted, and a quote that an entry accepted was published as
ready. -/
structure Kept (actor : LiveRouteActor G) : Prop where
  jobs : actor.jobs ⊆ actor.submitted
  quotes : ∀ id entry, actor.entries.lookup id = some entry → entry.lastReady = none ∨
    ∃ snapshot ∈ actor.published, snapshot.id = id ∧
      ∃ source report, snapshot.state = .ready source entry.lastReady report

/-- Accepted quotes stay, and publications are only added. -/
theorem Kept.quiet (hkept : before.Kept) (hjobs : after.jobs ⊆ after.submitted)
    (hpublished : before.published ⊆ after.published)
    (hentries : ∀ id entry, after.entries.lookup id = some entry → entry.lastReady = none ∨
      ∃ old, before.entries.lookup id = some old ∧ entry.lastReady = old.lastReady) :
    after.Kept := by
  refine ⟨hjobs, ?_⟩
  intro id entry hentry
  rcases hentries id entry hentry with hnone | ⟨old, hold, hsame⟩
  · exact Or.inl hnone
  · rw [hsame]
    exact (hkept.quotes id old hold).imp_right fun ⟨snapshot, hmem, hshown⟩ =>
      ⟨snapshot, hpublished hmem, hshown⟩

theorem Kept.jobs_append (hkept : before.Kept) (hjobs : after.jobs = before.jobs ++ added)
    (hsubmitted : after.submitted = before.submitted ++ added) :
    after.jobs ⊆ after.submitted := by
  rw [hjobs, hsubmitted]
  intro job hjob
  rcases List.mem_append.mp hjob with hold | hnew
  · exact List.mem_append_left _ (hkept.jobs hold)
  · exact List.mem_append_right _ hnew

theorem Kept.leaves (hkept : before.Kept)
    (hleaves : before.Leaves after id old entry shown added)
    (hquote : entry.lastReady = old.lastReady) : after.Kept := by
  refine hkept.quiet (hkept.jobs_append hleaves.jobs hleaves.submitted) ?_ ?_
  · rw [hleaves.published]
    exact List.subset_append_left _ _
  · intro other found hfound
    rcases hleaves.entry_cases hfound with ⟨rfl, rfl⟩ | ⟨_, hold⟩
    · exact Or.inr ⟨old, hleaves.found, hquote⟩
    · exact Or.inr ⟨found, hold, rfl⟩

theorem Kept.handles (hkept : before.Kept) (hhandles : before.Handles after) : after.Kept := by
  cases hhandles with
  | quiet same =>
      refine hkept.quiet (by rw [same.jobs, same.submitted]; exact hkept.jobs)
        (by rw [same.published]; exact List.Subset.refl _) ?_
      intro id entry hentry
      rw [same.entries] at hentry
      exact Or.inr ⟨entry, hentry, rfl⟩
  | advance newer version =>
      exact hkept.quiet hkept.jobs (List.Subset.refl _)
        fun id entry hentry => Or.inr ⟨entry, hentry, rfl⟩
  | invalidate found => exact hkept.leaves (leaves_invalidate found) rfl
  | replace leaves tokens => exact hkept.leaves leaves rfl
  | submit found waits prepared => exact hkept.leaves (leaves_submit found _ _) rfl
  | remove removes terminal =>
      refine hkept.quiet (by rw [removes.jobs, removes.submitted]; exact hkept.jobs)
        (by rw [removes.published]; exact List.subset_append_left _ _) ?_
      intro other found hfound
      rw [removes.lookup] at hfound
      split at hfound
      · cases hfound
      · exact Or.inr ⟨found, hfound, rfl⟩
  | accept accepts =>
      refine hkept.quiet (by rw [accepts.jobs, accepts.submitted]; exact hkept.jobs)
        (by rw [accepts.published]; exact List.subset_append_left _ _) ?_
      intro other found hfound
      rw [accepts.lookup] at hfound
      split at hfound
      · cases hfound
        exact Or.inl rfl
      · exact Or.inr ⟨found, hfound, rfl⟩

/-- A completion with a report publishes the quote that it leaves. -/
theorem Kept.install {stamp : RouteJobStamp}
    {result : Except RouteSearchFailure StreamingSearchReport} (hkept : before.Kept)
    (hleaves : before.Leaves after stamp.subscription old
      (before.installedEntry stamp old result) (some (installedState stamp result)) []) :
    after.Kept := by
  cases result with
  | error failure => exact hkept.leaves hleaves rfl
  | ok report =>
      refine ⟨hkept.jobs_append hleaves.jobs hleaves.submitted, ?_⟩
      have hpublished := hleaves.published
      intro other found hfound
      rcases hleaves.entry_cases hfound with ⟨rfl, rfl⟩ | ⟨_, hold⟩
      · refine Or.inr ⟨before.nextSnapshot stamp.subscription old.epoch
          (installedState stamp (.ok report)), ?_, rfl, stamp.source, report, rfl⟩
        rw [hpublished]
        exact List.mem_append_right _ (List.mem_singleton_self _)
      · rw [hpublished]
        exact (hkept.quotes other found hold).imp_right fun ⟨snapshot, hmem, hshown⟩ =>
          ⟨snapshot, List.mem_append_left _ hmem, hshown⟩

theorem Kept.message (hkept : before.Kept) (message : RouteWorkerMessage) :
    (before.handleWorkerMessage message).Kept := by
  cases message with
  | event stamp event =>
      rcases handleEvent_cases before stamp event with hsame | ⟨_, _, _, _, hleaves, _⟩
      · rw [handleWorkerMessage, hsame]
        exact hkept
      · exact hkept.leaves hleaves rfl
  | completed stamp result =>
      rcases handleCompleted_cases before stamp result with
        ⟨hsame, _⟩ | ⟨_, _, _, _, ⟨hleaves, _⟩ | ⟨_, hleaves, _⟩⟩
      · rw [handleWorkerMessage, hsame]
        exact hkept
      · exact hkept.leaves hleaves rfl
      · exact hkept.install hleaves

/-- A job of the subscription of a current stamp, and the entry that it runs for. -/
structure RunsFor (actor : LiveRouteActor G) (job : RouteWorkerJob G) (entry : RouteEntry G) :
    Prop where
  found : actor.entries.lookup job.stamp.subscription = some entry
  submitted : job ∈ actor.submitted
  active : entry.active = some ⟨job.stamp, job.cancellation⟩
  source : job.stamp.source = actor.current
  epoch : job.stamp.epoch = entry.epoch
  view : job.view = actor.view
  request : job.request = entry.spec.request
  subscribed : actor.tokens.isCancelled job.subscriptionCancel = false
  running : actor.tokens.isCancelled job.cancellation = false

/-- A current stamp is the one of a job for the current view, epoch and request
that nobody cancelled. -/
theorem runsFor_of_current {stamp : RouteJobStamp} (hserved : actor.Served)
    (hcurrent : actor.Current stamp entry active) :
    ∃ job, job.stamp = stamp ∧ actor.RunsFor job entry := by
  obtain ⟨job, hbusy, hfresh⟩ := hserved.fresh_of_current hcurrent
  have hstamp : job.stamp = stamp := hbusy.stamp.trans hcurrent.names
  refine ⟨job, hstamp, ?_, hbusy.submitted, ?_, ?_, hfresh.epoch, hfresh.view, hfresh.request,
    ?_, ?_⟩
  · rw [hstamp]
    exact hcurrent.found
  · rw [hcurrent.running, hbusy.stamp, hbusy.cancellation]
  · rw [hstamp]
    exact hcurrent.source
  · rw [hbusy.subscriptionCancel]
    exact hcurrent.subscribed
  · exact CancellationTokens.isCancelled_eq_false_iff.mpr hfresh.running

end LiveRouteActor

namespace LiveRouteRuntime

/-- The jobs of the workers were submitted, and a search that was cut short had
one of its flags raised. -/
structure Traced (runtime : LiveRouteRuntime G) : Prop where
  kept : runtime.actor.Kept
  runs : ∀ run ∈ runtime.runs, run.job ∈ runtime.actor.submitted
  cut : ∀ stamp ∈ runtime.cutShort, ∃ job ∈ runtime.actor.submitted,
    job.stamp = stamp ∧ runtime.isCancelled job = true

variable {start runtime next received : LiveRouteRuntime G} {action : LiveRouteAction}
  {input : LiveRouteActorInput} {answers : List Bool} {turn : LiveRouteTurn G}
  {job : RouteWorkerJob G}

theorem isCancelled_iff : runtime.isCancelled job = true ↔
    job.subscriptionCancel.flag ∈ runtime.actor.tokens.raised ∨
      job.cancellation.flag ∈ runtime.actor.tokens.raised := by
  simp [isCancelled, CancellationTokens.isCancelled_iff]

/-- Cancelled jobs stay cancelled. -/
theorem isCancelled_of_subset
    (hraised : runtime.actor.tokens.raised ⊆ next.actor.tokens.raised)
    (hcancelled : runtime.isCancelled job = true) : next.isCancelled job = true :=
  isCancelled_iff.mpr ((isCancelled_iff.mp hcancelled).imp (fun hflag => hraised hflag)
    fun hflag => hraised hflag)

theorem Traced.later (htraced : runtime.Traced) (hkept : next.actor.Kept)
    (hgrows : runtime.actor.Grows next.actor) (hruns : next.runs = runtime.runs)
    (hcut : next.cutShort = runtime.cutShort) : next.Traced := by
  refine ⟨hkept, ?_, ?_⟩
  · rw [hruns]
    exact fun run hrun => hgrows.submitted (htraced.runs run hrun)
  · rw [hcut]
    intro stamp hstamp
    obtain ⟨job, hjob, hsame, hcancelled⟩ := htraced.cut stamp hstamp
    exact ⟨job, hgrows.submitted hjob, hsame, isCancelled_of_subset hgrows.raised hcancelled⟩

theorem Traced.of_raise {subscription : LiveRouteSubscription} (htraced : runtime.Traced)
    (hraises : runtime.Raises subscription next) : next.Traced := by
  have hsame := hraises.same
  refine htraced.later ?_ ⟨?_, ?_⟩ (by rw [hsame]; rfl) (by rw [hsame]; rfl)
  · rw [hsame]
    exact ⟨htraced.kept.jobs, htraced.kept.quotes⟩
  · rw [hsame]
    exact List.Subset.refl _
  · rw [hraises.raised]
    exact Finset.subset_insert _ _

theorem Traced.cutJob (htraced : runtime.Traced) (hjob : job ∈ runtime.actor.submitted)
    (hcancelled : runtime.isCancelled job = true) : (runtime.cut job).Traced := by
  refine ⟨htraced.kept, htraced.runs, ?_⟩
  intro stamp hstamp
  rcases List.mem_append.mp hstamp with hold | hnew
  · exact htraced.cut stamp hold
  · exact ⟨job, hjob, (List.mem_singleton.mp hnew).symm, hcancelled⟩

theorem Traced.of_take (htraced : runtime.Traced) {rest : List (RouteWorkerJob G)}
    (hqueued : runtime.actor.jobs = job :: rest)
    (result : Option (Except RouteSearchFailure StreamingSearchReport)) :
    Traced
      { runtime with
        actor := { runtime.actor with jobs := rest }
        runs := runtime.runs ++ [⟨job, result⟩] } := by
  have hjobs := htraced.kept.jobs
  rw [hqueued] at hjobs
  obtain ⟨hjob, hrest⟩ := List.cons_subset.mp hjobs
  refine ⟨⟨hrest, htraced.kept.quotes⟩, ?_, htraced.cut⟩
  intro run hrun
  rcases List.mem_append.mp hrun with hold | hnew
  · exact htraced.runs run hold
  · rw [List.mem_singleton.mp hnew]
    exact hjob

theorem Traced.send (htraced : runtime.Traced) (message : RouteWorkerMessage) :
    (runtime.send message).Traced := by
  unfold LiveRouteRuntime.send
  split
  · exact htraced
  · exact ⟨htraced.kept, htraced.runs, htraced.cut⟩

theorem Traced.of_work (htraced : runtime.Traced) (hworks : runtime.Works next) :
    next.Traced := by
  cases hworks with
  | skips queued cancelled =>
      refine (htraced.of_take queued _).cutJob ?_ cancelled
      exact htraced.kept.jobs (by rw [queued]; exact List.mem_cons_self)
  | starts queued running => exact htraced.of_take queued none
  | stops runs cancelled => exact htraced.cutJob (htraced.runs _ runs) cancelled
  | shows runs event => exact htraced.send _
  | ends runs result =>
      rename_i index run
      have hrest : Traced { runtime with runs := runtime.runs.eraseIdx index } :=
        ⟨htraced.kept, fun run hrun => htraced.runs run (List.mem_of_mem_eraseIdx hrun),
          htraced.cut⟩
      exact hrest.send _
  | rests => exact htraced

theorem traced_started (live : LiveAmmGraph G) (view : LiveSearchView G)
    (maxSubscriptions : ℕ) : (started live view maxSubscriptions).Traced := by
  refine ⟨⟨List.Subset.refl _, ?_⟩, ?_, ?_⟩
  · intro id entry hentry
    cases (Finmap.lookup_empty id).symm.trans hentry
  · simp [started]
  · simp [started]

variable [StableDiGraph G Address EdgeData]

theorem Traced.of_turn (htraced : runtime.Traced)
    (hturns : runtime.Turns input answers received turn next) : next.Traced := by
  have hquiet := hturns.receives.quiet.1
  have hreceived : received.actor.Kept := htraced.kept.handles (.quiet hquiet)
  have hgrows : runtime.actor.Grows received.actor := (LiveRouteActor.Handles.quiet hquiet).grows
  refine htraced.later ?_ ?_ hturns.runs hturns.cutShort
  · rw [hturns.actor]
    exact LiveRouteActor.kept_by_turn _ LiveRouteActor.Kept.handles
      (fun message hbefore => hbefore.message message) hturns.turns answers hreceived
  · rw [hturns.actor]
    exact LiveRouteActor.kept_by_turn (fun actor => runtime.actor.Grows actor)
      (fun hbefore hhandles => hbefore.trans hhandles.grows)
      (fun message hbefore => hbefore.trans (LiveRouteActor.grows_message _ message))
      hturns.turns answers hgrows

theorem Traced.step (htraced : runtime.Traced) (hstep : runtime.step action = some next) :
    next.Traced := by
  rcases step_cases hstep with
    ⟨input, answers, received, turn, _, hturns⟩ | ⟨subscription, hraises⟩ | hworks
  · exact htraced.of_turn hturns
  · exact htraced.of_raise hraises
  · exact htraced.of_work hworks

/-- A snapshot shows what a message of a job brings, and the job runs for its
subscription: it searched the current view for the current request and epoch, and
nobody cut it short. -/
structure Fenced (runtime : LiveRouteRuntime G) (moment : LiveRouteActor G)
    (message : RouteWorkerMessage) (snapshot : RouteSubscriptionSnapshot G)
    (job : RouteWorkerJob G) (entry : RouteEntry G) : Prop where
  stamp : job.stamp = message.stamp
  runs : moment.RunsFor job entry
  shows : message.ShowsState snapshot.state
  id : snapshot.id = job.stamp.subscription
  epoch : snapshot.epoch = job.stamp.epoch
  view : snapshot.view = job.view
  source : job.stamp.source = .fromView snapshot.view
  whole : job.stamp ∉ runtime.cutShort

omit [StableDiGraph G Address EdgeData] in
/-- What a message publishes at a moment when its runtime is traced is fenced. -/
theorem fenced_message {moment : LiveRouteActor G} (message : RouteWorkerMessage)
    (htraced : runtime.Traced) (hgrows : runtime.actor.Grows moment) (hserved : moment.Served)
    (hnumbered : moment.Numbered) :
    (moment.handleWorkerMessage message).published = moment.published ∨
    ∃ snapshot job entry, runtime.Fenced moment message snapshot job entry ∧
      (moment.handleWorkerMessage message).published = moment.published ++ [snapshot] := by
  rcases moment.message_publishes message with
    hsame | ⟨entry, active, state, hcurrent, hshows, hpublished⟩
  · exact Or.inl hsame
  obtain ⟨job, hstamp, hruns⟩ := LiveRouteActor.runsFor_of_current hserved hcurrent
  refine Or.inr ⟨moment.nextSnapshot message.stamp.subscription entry.epoch state, job, entry,
    ⟨hstamp, hruns, hshows, ?_, hruns.epoch.symm, hruns.view.symm, hruns.source, ?_⟩, hpublished⟩
  · rw [hstamp]
    rfl
  · intro hcut
    obtain ⟨other, hother, hsame, hcancelled⟩ := htraced.cut job.stamp hcut
    -- names of jobs are distinct, so the search that was cut short is this one
    have hkey : other.key = job.key := by
      rw [RouteWorkerJob.key, RouteWorkerJob.key, hsame]
    obtain rfl : other = job := List.inj_on_of_nodup_map hnumbered.distinct
      (hgrows.submitted hother) hruns.submitted hkey
    rcases isCancelled_iff.mp hcancelled with hflag | hflag
    · exact CancellationTokens.isCancelled_eq_false_iff.mp hruns.subscribed
        (hgrows.raised hflag)
    · exact CancellationTokens.isCancelled_eq_false_iff.mp hruns.running (hgrows.raised hflag)

/-- The fence of one step.  A snapshot with a result is published by the turn that
handles a message of a job that runs for it; and the quotes that the entries keep were
published as ready. -/
structure Fence (runtime : LiveRouteRuntime G) (action : LiveRouteAction)
    (next : LiveRouteRuntime G) : Prop where
  published : ∃ new, next.actor.published = runtime.actor.published ++ new ∧
    ∀ snapshot ∈ new, snapshot.state.concludes = true →
      ∃ message ready answers moment job entry,
        action = .turn (.worker (some message) ready) answers ∧
        runtime.results.head? = some message ∧
        (moment = runtime.actor ∨ ∃ lineage commit,
          runtime.actor.applyCommit lineage commit = some (.ok (), moment)) ∧
        next.actor = (moment.handleWorkerMessage message).schedulePending answers ∧
        runtime.Fenced moment message snapshot job entry
  quotes : ∀ id entry, next.actor.entries.lookup id = some entry → entry.lastReady = none ∨
    ∃ snapshot ∈ next.actor.published, snapshot.id = id ∧
      ∃ source report, snapshot.state = .ready source entry.lastReady report

/-- A step that publishes no result is fenced. -/
theorem fence_of_silent (hsilent : runtime.actor.Silent next.actor) (htraced : next.Traced) :
    runtime.Fence action next := by
  obtain ⟨new, hpublished, hquiet⟩ := hsilent
  refine ⟨⟨new, hpublished, ?_⟩, htraced.kept.quotes⟩
  intro snapshot hsnapshot hconcludes
  cases (hquiet snapshot hsnapshot).symm.trans hconcludes

theorem fence_of_turn (hworking : runtime.Working) (htraced : runtime.Traced)
    (hturns : runtime.Turns input answers received turn next) :
    runtime.Fence (.turn input answers) next := by
  have hnext := htraced.of_turn hturns
  have hend := LiveRouteActor.silent_of_steps (LiveRouteActor.endTurn_handles turn answers)
  rw [← hturns.actor] at hend
  have hreceived := (LiveRouteActor.Handles.quiet hturns.receives.quiet.1).silent
  rcases LiveRouteActor.turn_cases hturns.turns with
    ⟨hsteps, _⟩ | ⟨message, ready, moment, rfl, hmoment, hactor, hgoes⟩
  · exact fence_of_silent (hreceived.trans ((LiveRouteActor.silent_of_steps hsteps).trans hend))
      hnext
  rcases hturns.receives.results with ⟨handled, commit, hworker, hresults, hsame⟩ | ⟨hnone, _⟩
  · cases hworker
    rw [hsame] at hmoment
    have hbefore : runtime.actor.Silent moment ∧ runtime.actor.Grows moment ∧
        moment.Served ∧ moment.Logged := by
      rcases hmoment with rfl | ⟨lineage, commit, happly⟩
      · exact ⟨.of_eq rfl, .refl _, hworking.served, hworking.logged.actor⟩
      · have hsteps := LiveRouteActor.applyCommit_handles happly
        refine ⟨LiveRouteActor.silent_of_steps hsteps, ?_,
          hworking.served.of_applyCommit hworking.logged.actor happly,
          LiveRouteActor.kept_by_steps _ LiveRouteActor.Logged.handles hsteps
            hworking.logged.actor⟩
        exact LiveRouteActor.kept_by_steps (fun actor => runtime.actor.Grows actor)
          (fun hkept hhandles => hkept.trans hhandles.grows) hsteps (.refl _)
    obtain ⟨hsilent, hgrows, hserved, hlogged⟩ := hbefore
    rcases fenced_message message htraced hgrows hserved hlogged.numbered with
      hquiet | ⟨snapshot, job, entry, hfenced, hshown⟩
    · refine fence_of_silent (hsilent.trans (LiveRouteActor.Silent.trans ?_ hend)) hnext
      rw [hactor]
      exact .of_eq hquiet
    · obtain ⟨first, hfirst, hfirstQuiet⟩ := hsilent
      obtain ⟨last, hlast, hlastQuiet⟩ := hend
      rw [hactor, hshown, hfirst, List.append_assoc, List.append_assoc] at hlast
      refine ⟨⟨_, hlast, ?_⟩, hnext.kept.quotes⟩
      intro shown hmem hconcludes
      rcases List.mem_append.mp hmem with hmem | hmem
      · cases (hfirstQuiet shown hmem).symm.trans hconcludes
      rcases List.mem_append.mp hmem with hmem | hmem
      · rw [List.mem_singleton.mp hmem]
        refine ⟨message, ready, answers, moment, job, entry, rfl, by rw [hresults]; rfl, hmoment,
          ?_, hfenced⟩
        rw [hturns.actor, LiveRouteActor.endTurn, if_pos hgoes, hactor]
      · cases (hlastQuiet shown hmem).symm.trans hconcludes
  · exact absurd rfl (hnone message ready)

theorem fence_of_step (hworking : runtime.Working) (htraced : runtime.Traced)
    (hstep : runtime.step action = some next) : runtime.Fence action next := by
  have hnext := htraced.step hstep
  rcases step_cases hstep with
    ⟨input, answers, received, turn, rfl, hturns⟩ | ⟨subscription, hraises⟩ | hworks
  · exact fence_of_turn hworking htraced hturns
  · refine fence_of_silent (.of_eq ?_) hnext
    rw [hraises.same]
    rfl
  · refine fence_of_silent (.of_eq ?_) hnext
    rw [hworks.actor.1]

theorem traced_of_reaches {lineage : ℕ} {snapshot : AmmStateSnapshot}
    {options : GraphBuildOptions} {config : LiveRouteRuntimeConfig}
    (hspawn : spawn lineage snapshot options config = .ok start)
    (hreaches : Transitions.Reaches step start runtime) : runtime.Traced := by
  obtain ⟨live, view, maxSubscriptions, rfl, _⟩ := started_of_spawn hspawn
  exact hreaches.preserves (fun hbefore hstep => Traced.step hbefore hstep)
    (traced_started live view maxSubscriptions)

theorem publication_fence {lineage : ℕ} {snapshot : AmmStateSnapshot}
    {options : GraphBuildOptions} {config : LiveRouteRuntimeConfig}
    (hspawn : spawn lineage snapshot options config = .ok start)
    (hreaches : Transitions.Reaches step start runtime)
    (hstep : runtime.step action = some next) : runtime.Fence action next :=
  fence_of_step (working_of_reaches hspawn hreaches) (traced_of_reaches hspawn hreaches) hstep

end LiveRouteRuntime

namespace LiveRouteExample

/-- The message of the second search arrives when the first one was cancelled. -/
def lastTurn : LiveRouteAction :=
  .turn (.worker (some (.completed (stamp 1 1) (.error failure))) none) []

theorem publication_fence_actions :
    ∃ start runtime next : LiveRouteRuntime (SlotGraph Address EdgeData),
      LiveRouteRuntime.spawn 1 (TwoPoolGraph.snapshot 0 [TwoPoolGraph.left] (by decide)) {}
        { workerThreads := 1 } = .ok start ∧
      Transitions.run LiveRouteRuntime.step start actions.dropLast = some runtime ∧
      runtime.step lastTurn = some next ∧
      runtime.cutShort = [stamp 0 0] ∧
      next.actor.published.map (fun snapshot => snapshot.state.concludes) =
        [false, false, false, false, true] ∧
      runtime.Fence lastTurn next := by
  have hrun : ∃ start runtime next : LiveRouteRuntime (SlotGraph Address EdgeData),
      LiveRouteRuntime.spawn 1 (TwoPoolGraph.snapshot 0 [TwoPoolGraph.left] (by decide)) {}
        { workerThreads := 1 } = .ok start ∧
      Transitions.run LiveRouteRuntime.step start actions.dropLast = some runtime ∧
      runtime.step lastTurn = some next ∧
      runtime.cutShort = [stamp 0 0] ∧
      next.actor.published.map (fun snapshot => snapshot.state.concludes) =
        [false, false, false, false, true] :=
    ⟨_, _, _, rfl, rfl, rfl, rfl, rfl⟩
  obtain ⟨start, runtime, next, hspawn, hruns, hstep, hcut, hconcludes⟩ := hrun
  exact ⟨start, runtime, next, hspawn, hruns, hstep, hcut, hconcludes,
    LiveRouteRuntime.publication_fence hspawn ⟨_, hruns⟩ hstep⟩

end LiveRouteExample

end AmmSearch
