/-
Runs of the live route runtime.  Between two turns no subscription is forgotten:
it shows a result of the current view, or a single job is on its way for it, or it
waits in the queue.
-/
import AmmSearch.LiveRouteWork

open FiniteMap StableGraph

namespace AmmSearch

variable {G : Type}

/-- The stamp of the job that a message completes. -/
def RouteWorkerMessage.completes : RouteWorkerMessage → Option RouteJobStamp
  | .event _ _ => none
  | .completed stamp _ => some stamp

/-- The stamps of one subscription. -/
def stampsOf (stamps : Multiset RouteJobStamp) (id : RouteSubscriptionId) :
    Multiset RouteJobStamp :=
  stamps.filter fun stamp => stamp.subscription = id

section Stamps

variable {stamps : Multiset RouteJobStamp} {stamp : RouteJobStamp} {id : RouteSubscriptionId}

theorem stampsOf_cons_self :
    stampsOf (stamp ::ₘ stamps) stamp.subscription =
      stamp ::ₘ stampsOf stamps stamp.subscription :=
  Multiset.filter_cons_of_pos _ rfl

theorem stampsOf_cons_of_ne (hne : id ≠ stamp.subscription) :
    stampsOf (stamp ::ₘ stamps) id = stampsOf stamps id :=
  Multiset.filter_cons_of_neg _ hne.symm

theorem stampsOf_eq_zero (hnone : ∀ stamp ∈ stamps, stamp.subscription ≠ id) :
    stampsOf stamps id = 0 :=
  Multiset.filter_eq_nil.mpr hnone

end Stamps

namespace LiveRouteActor

/-- The queued jobs together with those elsewhere. -/
def inFlight (actor : LiveRouteActor G) (elsewhere : Multiset RouteJobStamp) :
    Multiset RouteJobStamp :=
  (actor.jobs.map RouteWorkerJob.stamp : List RouteJobStamp) + elsewhere

/-- The jobs on their way for each entry are its active job or none. -/
structure Tracked (actor : LiveRouteActor G) (elsewhere : Multiset RouteJobStamp) : Prop where
  entries : ∀ id entry, actor.entries.lookup id = some entry →
    stampsOf (actor.inFlight elsewhere) id =
      (entry.active.map ActiveRouteJob.stamp).toList
  below : ∀ stamp ∈ actor.inFlight elsewhere, stamp.subscription < actor.nextSubscription

variable {actor before after : LiveRouteActor G} {id : RouteSubscriptionId}
  {old entry : RouteEntry G} {shown : Option RouteSubscriptionState}
  {elsewhere : Multiset RouteJobStamp} {stamp : RouteJobStamp}

/-- No job is added, and every entry keeps its active job. -/
theorem Tracked.quiet (htracked : before.Tracked elsewhere) (hjobs : after.jobs = before.jobs)
    (hnext : before.nextSubscription ≤ after.nextSubscription)
    (hentries : ∀ id entry, after.entries.lookup id = some entry →
      (∃ old, before.entries.lookup id = some old ∧ entry.active = old.active) ∨
        (before.nextSubscription ≤ id ∧ entry.active = none)) : after.Tracked elsewhere := by
  have hsame : after.inFlight elsewhere = before.inFlight elsewhere := by
    rw [inFlight, inFlight, hjobs]
  refine ⟨?_, ?_⟩
  · intro id entry hentry
    rw [hsame]
    rcases hentries id entry hentry with ⟨old, hold, hactive⟩ | ⟨hnew, hactive⟩
    · rw [hactive]
      exact htracked.entries id old hold
    · rw [hactive]
      refine stampsOf_eq_zero ?_
      intro stamp hstamp hid
      exact absurd (htracked.below stamp hstamp) (not_lt.mpr (hid ▸ hnew))
  · rw [hsame]
    intro stamp hstamp
    exact (htracked.below stamp hstamp).trans_le hnext

theorem Tracked.leaves (htracked : before.Tracked elsewhere)
    (hleaves : before.Leaves after id old entry shown []) (hactive : entry.active = old.active) :
    after.Tracked elsewhere := by
  refine htracked.quiet (hleaves.jobs.trans (List.append_nil _)) hleaves.nextSubscription.ge ?_
  intro other found hfound
  rcases hleaves.entry_cases hfound with ⟨rfl, rfl⟩ | ⟨_, hold⟩
  · exact Or.inl ⟨old, hleaves.found, hactive⟩
  · exact Or.inl ⟨found, hold, rfl⟩

/-- The job that is added is the active job of its entry. -/
theorem Tracked.submit {job : RouteWorkerJob G} {next : ℕ} (htracked : before.Tracked elsewhere)
    (hid : id < before.nextSubscription) (hfound : before.entries.lookup id = some entry)
    (hwaits : entry.active = none) (hprepared : before.Prepared id entry job next) :
    (before.submit id entry job next).Tracked elsewhere := by
  have hleaves := leaves_submit hfound job next
  have hsubscription : job.stamp.subscription = id := by rw [hprepared.stamp]
  have hflight : (before.submit id entry job next).inFlight elsewhere =
      job.stamp ::ₘ before.inFlight elsewhere := by
    rw [inFlight, inFlight, hleaves.jobs, List.map_append, ← Multiset.coe_add,
      List.map_singleton, Multiset.coe_singleton, add_right_comm, ← Multiset.singleton_add]
    exact add_comm _ _
  refine ⟨?_, ?_⟩
  · intro other found hafter
    rw [hflight]
    rcases hleaves.entry_cases hafter with ⟨rfl, rfl⟩ | ⟨hne, hbefore⟩
    · have hnone := htracked.entries other entry hfound
      rw [hwaits] at hnone
      rw [← hsubscription, stampsOf_cons_self, hsubscription, hnone]
      rfl
    · rw [stampsOf_cons_of_ne (by rw [hsubscription]; exact hne)]
      exact htracked.entries other found hbefore
  · rw [hflight, hleaves.nextSubscription]
    intro stamp hstamp
    rcases Multiset.mem_cons.mp hstamp with rfl | hold
    · rw [hsubscription]
      exact hid
    · exact htracked.below stamp hold

theorem Tracked.handles (htracked : before.Tracked elsewhere) (hrecorded : before.Recorded)
    (hhandles : before.Handles after) : after.Tracked elsewhere := by
  cases hhandles with
  | quiet same =>
      refine htracked.quiet same.jobs same.nextSubscription.ge ?_
      intro id entry hentry
      rw [same.entries] at hentry
      exact Or.inl ⟨entry, hentry, rfl⟩
  | advance newer version =>
      exact htracked.quiet rfl le_rfl fun id entry hentry => Or.inl ⟨entry, hentry, rfl⟩
  | invalidate found => exact htracked.leaves (leaves_invalidate found) rfl
  | replace leaves tokens => exact htracked.leaves leaves rfl
  | submit found waits prepared =>
      exact htracked.submit (hrecorded.entries _ _ found) found waits prepared
  | remove removes terminal =>
      refine htracked.quiet removes.jobs removes.nextSubscription.ge ?_
      intro other found hfound
      rw [removes.lookup] at hfound
      split at hfound
      · cases hfound
      · exact Or.inl ⟨found, hfound, rfl⟩
  | accept accepts =>
      refine htracked.quiet accepts.jobs (by rw [accepts.nextSubscription]; exact Nat.le_succ _) ?_
      intro other found hfound
      rw [accepts.lookup] at hfound
      split at hfound
      · rename_i hnew
        cases hfound
        exact Or.inr ⟨hnew.ge, rfl⟩
      · exact Or.inl ⟨found, hfound, rfl⟩

/-- The stamps that are left when a message is handled. -/
theorem Tracked.event (htracked : actor.Tracked elsewhere) (stamp : RouteJobStamp)
    (event : RouteSearchEvent) : (actor.handleEvent stamp event).Tracked elsewhere := by
  rcases handleEvent_cases actor stamp event with hsame | ⟨_, _, _, _, hleaves, _⟩
  · rw [hsame]
    exact htracked
  · exact htracked.leaves hleaves rfl

/-- A completed job is no longer on its way, and no longer active. -/
theorem Tracked.completed (htracked : actor.Tracked (stamp ::ₘ elsewhere))
    (result : Except RouteSearchFailure StreamingSearchReport) :
    (actor.handleCompleted stamp result).Tracked elsewhere := by
  have hflight : actor.inFlight (stamp ::ₘ elsewhere) = stamp ::ₘ actor.inFlight elsewhere := by
    rw [inFlight, inFlight, Multiset.add_cons]
  have hothers : ∀ other entry, actor.entries.lookup other = some entry →
      other ≠ stamp.subscription → stampsOf (actor.inFlight elsewhere) other =
        (entry.active.map ActiveRouteJob.stamp).toList := by
    intro other entry hentry hne
    have hentries := htracked.entries other entry hentry
    rwa [hflight, stampsOf_cons_of_ne hne] at hentries
  have hbelow : ∀ other ∈ actor.inFlight elsewhere,
      other.subscription < actor.nextSubscription := by
    intro other hother
    refine htracked.below other ?_
    rw [hflight]
    exact Multiset.mem_cons_of_mem hother
  have hself : ∀ entry, actor.entries.lookup stamp.subscription = some entry →
      (∃ active, actor.Runs stamp entry active) ∧
        stampsOf (actor.inFlight elsewhere) stamp.subscription = 0 := by
    intro entry hentry
    have hentries := htracked.entries _ entry hentry
    rw [hflight, stampsOf_cons_self] at hentries
    cases hactive : entry.active with
    | none => simp [hactive] at hentries
    | some active =>
        simp only [hactive, Option.map_some, Option.toList_some, Multiset.coe_singleton]
          at hentries
        obtain ⟨hnames, hrest⟩ := Multiset.singleton_eq_cons_iff _ |>.mp hentries.symm
        exact ⟨⟨active, hentry, hactive, hnames⟩, hrest⟩
  have hdone : ∀ {after : LiveRouteActor G} {entry next : RouteEntry G}
      {shown : Option RouteSubscriptionState},
      actor.Leaves after stamp.subscription entry next shown [] → next.active = none →
        after.Tracked elsewhere := by
    intro after entry next shown hleaves hnone
    have hsame : after.inFlight elsewhere = actor.inFlight elsewhere := by
      rw [inFlight, inFlight, hleaves.jobs, List.append_nil]
    refine ⟨?_, by rw [hsame, hleaves.nextSubscription]; exact hbelow⟩
    intro other found hfound
    rw [hsame]
    rcases hleaves.entry_cases hfound with ⟨rfl, rfl⟩ | ⟨hne, hold⟩
    · rw [(hself entry hleaves.found).2, hnone]
      rfl
    · exact hothers other found hold hne
  rcases handleCompleted_cases actor stamp result with
    ⟨hsame, hidle⟩ | ⟨entry, active, _, _, ⟨hleaves, _⟩ | ⟨_, hleaves, _⟩⟩
  · rw [hsame]
    refine ⟨?_, hbelow⟩
    intro other entry hentry
    by_cases hother : other = stamp.subscription
    · rw [hother] at hentry
      obtain ⟨⟨active, hruns⟩, _⟩ := hself entry hentry
      exact absurd hruns (hidle entry active)
    · exact hothers other entry hentry hother
  · exact hdone hleaves rfl
  · exact hdone hleaves rfl

end LiveRouteActor

namespace LiveRouteRuntime

/-- The stamps of the jobs that workers search and of the messages that complete
one. -/
def elsewhere (runtime : LiveRouteRuntime G) : Multiset RouteJobStamp :=
  (runtime.runs.map (fun run => run.job.stamp) : List RouteJobStamp) +
    (runtime.results.filterMap RouteWorkerMessage.completes : List RouteJobStamp)

/-- The stamps of all jobs on their way: queued, searched, or completed by a
message that was not handled yet. -/
def inFlight (runtime : LiveRouteRuntime G) : Multiset RouteJobStamp :=
  runtime.actor.inFlight runtime.elsewhere

structure Working (runtime : LiveRouteRuntime G) : Prop where
  logged : runtime.Logged
  flags : runtime.actor.Flags
  served : runtime.actor.Served
  owned : ∀ subscription ∈ runtime.subscriptions,
    runtime.actor.Apart subscription.cancellation.flag
  tracked : runtime.closed = false → runtime.actor.Tracked runtime.elsewhere

variable [StableDiGraph G Address EdgeData] {start runtime next received : LiveRouteRuntime G}
  {action : LiveRouteAction} {input : LiveRouteActorInput} {answers : List Bool}
  {turn : LiveRouteTurn G}

omit [StableDiGraph G Address EdgeData] in
theorem Receives.quiet (hreceives : runtime.Receives input received) :
    runtime.actor.Quiet received.actor ∧ received.actor.queue = runtime.actor.queue := by
  rw [hreceives.actor]
  exact ⟨⟨rfl, rfl, rfl, rfl, rfl, le_rfl, rfl, le_rfl, rfl, rfl⟩, rfl⟩

omit [StableDiGraph G Address EdgeData] in
/-- A handled message takes its job from those that are on their way. -/
theorem tracked_message {actor : LiveRouteActor G} {message : RouteWorkerMessage}
    (htracked : actor.Tracked runtime.elsewhere)
    (hresults : runtime.results = message :: received.results)
    (hruns : received.runs = runtime.runs) :
    (actor.handleWorkerMessage message).Tracked received.elsewhere := by
  unfold elsewhere at htracked ⊢
  rw [hresults] at htracked
  rw [hruns]
  cases message with
  | event stamp event =>
      rw [List.filterMap_cons_none (by rfl)] at htracked
      exact htracked.event stamp event
  | completed stamp result =>
      rw [List.filterMap_cons_some (by rfl), ← Multiset.cons_coe, Multiset.add_cons] at htracked
      exact htracked.completed result

/-- The jobs on their way after a turn are those that are tracked. -/
theorem tracked_turn (htracked : runtime.actor.Tracked runtime.elsewhere)
    (hlogged : runtime.actor.Logged)
    (hturns : runtime.Turns input answers received turn next) (hopen : next.closed = false) :
    next.actor.Tracked next.elsewhere := by
  have hgoes : turn.goesOn = true := by
    rw [hturns.closed] at hopen
    simpa using hopen
  have hquiet := hturns.receives.quiet.1
  have hreceived : received.actor.Logged := hlogged.handles (.quiet hquiet)
  have hstart : received.actor.Tracked runtime.elsewhere :=
    htracked.handles hlogged.recorded (.quiet hquiet)
  have hsteps : ∀ {before after : LiveRouteActor G} {elsewhere : Multiset RouteJobStamp},
      Relation.ReflTransGen LiveRouteActor.Handles before after →
      before.Logged ∧ before.Tracked elsewhere → after.Logged ∧ after.Tracked elsewhere :=
    fun hrun => LiveRouteActor.kept_by_steps
      (fun actor => actor.Logged ∧ actor.Tracked _)
      (fun hbefore hhandles => ⟨hbefore.1.handles hhandles,
        hbefore.2.handles hbefore.1.recorded hhandles⟩) hrun
  have hend := LiveRouteActor.endTurn_handles turn answers
  have helsewhere : next.elsewhere = received.elsewhere := by
    rw [elsewhere, elsewhere, hturns.runs, hturns.results, hturns.receives.runs]
  rw [hturns.actor, helsewhere]
  rcases LiveRouteActor.turn_cases hturns.turns with
    ⟨hrun, hother⟩ | ⟨message, ready, middle, hinput, hmiddle, hactor, _⟩
  · rcases hturns.receives.results with ⟨message, ready, hworker, _⟩ | ⟨_, hresults⟩
    · exact absurd hworker (hother hgoes message ready)
    · have hsame : received.elsewhere = runtime.elsewhere := by
        rw [elsewhere, elsewhere, hresults, hturns.receives.runs]
      rw [hsame]
      exact (hsteps (hrun.trans hend) ⟨hreceived, hstart⟩).2
  · rcases hturns.receives.results with ⟨handled, commit, hworker, hresults, _⟩ | ⟨hnone, _⟩
    · obtain ⟨rfl, rfl⟩ : message = handled ∧ ready = commit := by
        cases hinput.symm.trans hworker
        exact ⟨rfl, rfl⟩
      have hbefore : middle.Logged ∧ middle.Tracked runtime.elsewhere := by
        rcases hmiddle with rfl | ⟨_, _, happly⟩
        · exact ⟨hreceived, hstart⟩
        · exact hsteps (LiveRouteActor.applyCommit_handles happly) ⟨hreceived, hstart⟩
      have hafter := tracked_message hbefore.2 hresults hturns.receives.runs
      rw [← hactor] at hafter
      have hlater : turn.actor.Logged := by
        rw [hactor]
        exact hbefore.1.message message
      exact (hsteps hend ⟨hlater, hafter⟩).2
    · exact absurd hinput (hnone message ready)

theorem Working.of_turn (hworking : runtime.Working)
    (hturns : runtime.Turns input answers received turn next) : next.Working := by
  obtain ⟨hlogged, hflags, hserved, howned, htracked⟩ := hworking
  obtain ⟨hquiet, hqueue⟩ := hturns.receives.quiet
  have hreceived : received.actor.Flags := hflags.handles (.quiet hquiet)
  have hlog : received.actor.Logged := hlogged.actor.handles (.quiet hquiet)
  have hbefore : turn.actor.Flags :=
    LiveRouteActor.kept_before_end _ LiveRouteActor.Flags.handles
      (fun message hbefore => hbefore.message message) hturns.turns hreceived
  have hsteps := LiveRouteActor.endTurn_handles turn answers
  refine ⟨hlogged.turn hturns, ?_, ?_, ?_, tracked_turn (htracked hturns.isOpen) hlogged.actor
    hturns⟩
  · rw [hturns.actor]
    exact LiveRouteActor.kept_by_steps _ LiveRouteActor.Flags.handles hsteps hbefore
  · rw [hturns.actor]
    exact ((hserved.quiet hquiet hqueue).of_turn hlog hreceived hturns.turns).endTurn hbefore
      answers
  · rw [hturns.subscriptions, hturns.actor]
    intro subscription hmem
    rcases List.mem_append.mp hmem with hold | hnew
    · exact LiveRouteActor.kept_by_turn
        (fun actor => actor.Apart subscription.cancellation.flag)
        LiveRouteActor.Apart.handles (fun message hbefore => hbefore.message message)
        hturns.turns answers ((howned subscription hold).handles (.quiet hquiet))
    · rcases LiveRouteActor.turn_subscribed hturns.turns with hnone | ⟨spec, haccepts, hsome⟩
      · simp [hnone] at hnew
      · simp only [hsome, Option.toList_some, List.mem_singleton] at hnew
        have hentry : turn.actor.entries.lookup received.actor.nextSubscription =
            some (received.actor.initialEntry spec) := by
          rw [haccepts.lookup, if_pos rfl]
        have hapart := hbefore.entries _ _ hentry
        rw [hnew]
        exact LiveRouteActor.kept_by_steps
          (fun actor => actor.Apart (received.actor.initialEntry spec).cancellation.flag)
          LiveRouteActor.Apart.handles hsteps hapart

omit [StableDiGraph G Address EdgeData] in
/-- The owner of a subscription raises its flag, which no job has. -/
theorem Working.of_raise {subscription : LiveRouteSubscription} (hworking : runtime.Working)
    (hraises : runtime.Raises subscription next) : next.Working := by
  obtain ⟨hlogged, hflags, hserved, howned, htracked⟩ := hworking
  obtain ⟨howner, hraised, hfresh, hsame⟩ := hraises
  obtain ⟨hlt, hapart⟩ := howned subscription howner
  generalize next.actor.tokens = tokens at hraised hfresh hsame
  subst hsame
  have hnext : runtime.actor.tokens.next ≤ tokens.next := hfresh.ge
  refine ⟨⟨hlogged.actor.shared tokens _, hlogged.below, hlogged.distinct⟩, ?_, ⟨hserved.queue, ?_⟩,
    fun other hother => (howned other hother).later hnext rfl,
    fun hopen => ⟨(htracked hopen).entries, (htracked hopen).below⟩⟩
  · refine hflags.quiet ?_ hnext rfl fun id entry hentry => ⟨entry, hentry, rfl, Or.inl rfl⟩
    intro flag hflag
    rcases Finset.mem_insert.mp (hraised ▸ hflag) with rfl | hold
    · exact hlt
    · exact hflags.raised flag hold
  · intro id entry hentry
    refine (hserved.entries id entry hentry).mono rfl (fun hmem => hmem) ?_ ?_
      (List.Subset.refl _)
    · intro flag hflag
      exact hraised ▸ Finset.mem_insert_of_mem hflag
    · intro job hjob _ hrunning hflag
      rcases Finset.mem_insert.mp (hraised ▸ hflag) with hsame | hold
      · exact hapart job hjob hsame
      · exact hrunning hold

omit [StableDiGraph G Address EdgeData] in
/-- The jobs on their way do not change while a worker handles them. -/
theorem Works.inFlight (hworks : runtime.Works next) (hopen : runtime.closed = false) :
    next.inFlight = runtime.inFlight := by
  cases hworks with
  | skips queued cancelled =>
      simp only [inFlight, LiveRouteActor.inFlight, elsewhere, cut, queued, List.map_append,
        List.map_cons, List.map_nil, ← Multiset.coe_add, ← Multiset.cons_coe,
        ← Multiset.singleton_add, Multiset.coe_nil, add_zero]
      ac_rfl
  | starts queued running =>
      simp only [inFlight, LiveRouteActor.inFlight, elsewhere, queued, List.map_append,
        List.map_cons, List.map_nil, ← Multiset.coe_add, ← Multiset.cons_coe,
        ← Multiset.singleton_add, Multiset.coe_nil, add_zero]
      ac_rfl
  | stops runs cancelled => rfl
  | shows runs event =>
      simp only [inFlight, LiveRouteActor.inFlight, elsewhere, send, hopen, Bool.false_eq_true,
        if_false, List.filterMap_append, List.filterMap_cons, List.filterMap_nil,
        RouteWorkerMessage.completes, List.append_nil]
  | ends runs result =>
      rename_i index run
      obtain ⟨hindex, hrun⟩ := List.getElem?_eq_some_iff.mp runs
      have herase : (runtime.runs.map (fun run => run.job.stamp) : Multiset RouteJobStamp) =
          run.job.stamp ::ₘ
            (runtime.runs.eraseIdx index).map (fun run => run.job.stamp) := by
        refine Quotient.sound ?_
        have hperm := (List.getElem_cons_eraseIdx_perm hindex).symm.map
          fun run : RouteRun G => run.job.stamp
        rwa [List.map_cons, hrun] at hperm
      simp only [inFlight, LiveRouteActor.inFlight, elsewhere, send, hopen, Bool.false_eq_true,
        if_false, List.filterMap_append, List.filterMap_cons, List.filterMap_nil,
        RouteWorkerMessage.completes, herase, ← Multiset.coe_add, ← Multiset.cons_coe,
        ← Multiset.singleton_add, Multiset.coe_nil, add_zero]
      ac_rfl
  | rests => rfl

omit [StableDiGraph G Address EdgeData] in
theorem Working.of_work (hworking : runtime.Working) (hworks : runtime.Works next) :
    next.Working := by
  obtain ⟨hlogged, hflags, hserved, howned, htracked⟩ := hworking
  obtain ⟨hactor, hsubscriptions, hclosed⟩ := hworks.actor
  have hquiet : ∀ flag, runtime.actor.Apart flag → next.actor.Apart flag := by
    rw [hactor]
    exact fun flag hapart => hapart.later le_rfl rfl
  refine ⟨⟨?_, ?_, ?_⟩, ?_, ⟨?_, ?_⟩, ?_, ?_⟩
  · rw [hactor]
    exact hlogged.actor.shared _ _
  · rw [hsubscriptions, hactor]
    exact hlogged.below
  · rw [hsubscriptions]
    exact hlogged.distinct
  · rw [hactor]
    exact hflags.quiet hflags.raised le_rfl rfl
      fun id entry hentry => ⟨entry, hentry, rfl, Or.inl rfl⟩
  · rw [hactor]
    exact hserved.queue
  · rw [hactor]
    intro id entry hentry
    exact (hserved.entries id entry hentry).mono rfl (fun hmem => hmem) (Finset.Subset.refl _)
      (fun _ _ _ hrunning => hrunning) (List.Subset.refl _)
  · rw [hsubscriptions]
    exact fun subscription hmem => hquiet _ (howned subscription hmem)
  · intro hopen
    rw [hclosed] at hopen
    have hflight := hworks.inFlight hopen
    obtain ⟨hentries, hbelow⟩ := htracked hopen
    unfold inFlight at hflight
    refine ⟨?_, ?_⟩
    · rw [hflight, hactor]
      exact hentries
    · rw [hflight, hactor]
      exact hbelow

theorem Working.step (hworking : runtime.Working) (hstep : runtime.step action = some next) :
    next.Working := by
  rcases step_cases hstep with
    ⟨input, answers, received, turn, _, hturns⟩ | ⟨subscription, hraises⟩ | hworks
  · exact hworking.of_turn hturns
  · exact hworking.of_raise hraises
  · exact hworking.of_work hworks

omit [StableDiGraph G Address EdgeData] in
theorem working_started {live : LiveAmmGraph G} {view : LiveSearchView G}
    {maxSubscriptions : ℕ} (hversion : live.stateVersion = view.snapshot.version) :
    (started live view maxSubscriptions).Working := by
  have hentries : ∀ id, (started live view maxSubscriptions).actor.entries.lookup id = none :=
    fun id => Finmap.lookup_empty id
  have hnone : ∀ {motive : Prop} {id entry},
      (started live view maxSubscriptions).actor.entries.lookup id = some entry → motive := by
    intro motive id entry hentry
    cases (hentries id).symm.trans hentry
  refine ⟨logged_started hversion, ⟨?_, ?_, ?_, ?_, ?_⟩, ⟨⟨rfl, List.nodup_nil⟩, ?_⟩, ?_,
    fun _ => ⟨?_, ?_⟩⟩
  · simp [started]
  · simp [started]
  · simp [started]
  · exact fun id entry hentry => hnone hentry
  · exact fun id entry job hentry => hnone hentry
  · exact fun id entry hentry => hnone hentry
  · simp [started]
  · exact fun id entry hentry => hnone hentry
  · simp [started, LiveRouteActor.inFlight, elsewhere]

theorem working_of_reaches {lineage : ℕ} {snapshot : AmmStateSnapshot}
    {options : GraphBuildOptions} {config : LiveRouteRuntimeConfig}
    (hspawn : spawn lineage snapshot options config = .ok start)
    (hreaches : Transitions.Reaches step start runtime) : runtime.Working := by
  obtain ⟨live, view, maxSubscriptions, rfl, hversion⟩ := started_of_spawn hspawn
  exact hreaches.preserves (fun hbefore hstep => Working.step hbefore hstep)
    (working_started hversion)

/-- No subscription is forgotten: one that is not cancelled shows a result of the
current view and epoch, or exactly one job is on its way for it, or it is queued.
The queue and its set agree, and a dirty entry without a job is queued. -/
structure NoLostWork (runtime : LiveRouteRuntime G) : Prop where
  pendingSet : ∀ id, id ∈ runtime.actor.pendingSet ↔ id ∈ runtime.actor.pending
  nodup : runtime.actor.pending.Nodup
  serves : ∀ id entry, runtime.actor.entries.lookup id = some entry →
    entry.nextJob < u64Max → runtime.actor.tokens.isCancelled entry.cancellation = false →
    runtime.actor.Shows entry ∨
    (∃ active, entry.active = some active ∧
      stampsOf runtime.inFlight id = {active.stamp}) ∨
    id ∈ runtime.actor.pending
  queues : ∀ id entry, runtime.actor.entries.lookup id = some entry →
    entry.nextJob < u64Max → entry.dirty = true → entry.active = none →
    id ∈ runtime.actor.pending

omit [StableDiGraph G Address EdgeData] in
theorem Working.noLostWork (hworking : runtime.Working) (hopen : runtime.closed = false) :
    runtime.NoLostWork := by
  obtain ⟨_, _, ⟨⟨hset, hnodup⟩, hentries⟩, _, htracked⟩ := hworking
  have hpending : ∀ id, id ∈ runtime.actor.pendingSet ↔ id ∈ runtime.actor.pending := by
    intro id
    have hqueue : runtime.actor.pendingSet = runtime.actor.pending.toFinset := hset
    rw [hqueue, List.mem_toFinset]
  have hqueues : ∀ id entry, runtime.actor.entries.lookup id = some entry →
      entry.nextJob < u64Max → entry.dirty = true → entry.active = none →
      id ∈ runtime.actor.pending := by
    intro id entry hfound hcounter hdirty hactive
    rcases (hentries id entry hfound).queued hactive hdirty with hqueued | hfull
    · exact (hpending id).mp hqueued
    · exact absurd hcounter (not_lt.mpr hfull)
  refine ⟨hpending, hnodup, ?_, hqueues⟩
  intro id entry hfound hcounter hcancelled
  cases hactive : entry.active with
  | some active =>
      refine Or.inr (Or.inl ⟨active, rfl, ?_⟩)
      have hflight := (htracked hopen).entries id entry hfound
      rw [hactive] at hflight
      exact hflight
  | none =>
      cases hdirty : entry.dirty with
      | true => exact Or.inr (Or.inr (hqueues id entry hfound hcounter hdirty hactive))
      | false =>
          exact Or.inl ((hentries id entry hfound).shows hactive hdirty
            (CancellationTokens.isCancelled_eq_false_iff.mp hcancelled))

theorem no_lost_work {lineage : ℕ} {snapshot : AmmStateSnapshot}
    {options : GraphBuildOptions} {config : LiveRouteRuntimeConfig}
    (hspawn : spawn lineage snapshot options config = .ok start)
    (hreaches : Transitions.Reaches step start runtime) (hopen : runtime.closed = false) :
    runtime.NoLostWork :=
  (working_of_reaches hspawn hreaches).noLostWork hopen

end LiveRouteRuntime

namespace LiveRouteExample

/-- The pool refuses the first job. -/
theorem no_lost_work_refused :
    ∃ start runtime : LiveRouteRuntime (SlotGraph Address EdgeData),
      LiveRouteRuntime.spawn 1 (TwoPoolGraph.snapshot 0 [TwoPoolGraph.left] (by decide)) {}
        { workerThreads := 1 } = .ok start ∧
      Transitions.run LiveRouteRuntime.step start
        [.turn (.command (some (.subscribe spec))) []] = some runtime ∧
      runtime.actor.pending = [0] ∧ runtime.NoLostWork := by
  have hrun : ∃ start runtime : LiveRouteRuntime (SlotGraph Address EdgeData),
      LiveRouteRuntime.spawn 1 (TwoPoolGraph.snapshot 0 [TwoPoolGraph.left] (by decide)) {}
        { workerThreads := 1 } = .ok start ∧
      Transitions.run LiveRouteRuntime.step start
        [.turn (.command (some (.subscribe spec))) []] = some runtime ∧
      runtime.actor.pending = [0] ∧ runtime.closed = false :=
    ⟨_, _, rfl, rfl, rfl, rfl⟩
  obtain ⟨start, runtime, hspawn, hruns, hpending, hopen⟩ := hrun
  exact ⟨start, runtime, hspawn, hruns, hpending,
    LiveRouteRuntime.no_lost_work hspawn ⟨_, hruns⟩ hopen⟩

end LiveRouteExample

end AmmSearch
