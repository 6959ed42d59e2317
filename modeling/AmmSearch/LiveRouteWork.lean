/-
The work of the live route actor.  An entry either shows a result of the current
view and epoch, or it waits in the queue, or one job runs for it; a job that is
no longer current leaves its entry dirty, so that its completion queues the entry
again.
-/
import AmmSearch.LiveRouteFlags
import AmmSearch.LiveRouteLog

open FiniteMap StableGraph

namespace AmmSearch

variable {G : Type}

namespace PendingQueue

variable {queue : PendingQueue} {id other : RouteSubscriptionId}

/-- The set of the queue holds its ids, and each is queued once. -/
structure Exact (queue : PendingQueue) : Prop where
  set_eq : queue.pendingSet = queue.pending.toFinset
  nodup : queue.pending.Nodup

@[simp] theorem mem_enqueue_iff :
    other ∈ (queue.enqueue id).pendingSet ↔ other = id ∨ other ∈ queue.pendingSet := by
  unfold enqueue
  split
  · rename_i hqueued
    constructor
    · exact Or.inr
    · rintro (rfl | hother)
      · exact hqueued
      · exact hother
  · exact Finset.mem_insert

theorem Exact.enqueue (hexact : queue.Exact) (id : RouteSubscriptionId) :
    (queue.enqueue id).Exact := by
  unfold PendingQueue.enqueue
  split
  · exact hexact
  · rename_i hnew
    rw [hexact.set_eq, List.mem_toFinset] at hnew
    refine ⟨?_, ?_⟩
    · ext other
      simp [hexact.set_eq]
    · rw [List.nodup_append]
      refine ⟨hexact.nodup, List.nodup_singleton id, ?_⟩
      intro first hfirst last hlast heq
      rw [heq, List.mem_singleton.mp hlast] at hfirst
      exact hnew hfirst

/-- The head of the queue is taken from both. -/
theorem Exact.pop {rest : List RouteSubscriptionId} {pendingSet : Finset RouteSubscriptionId}
    (hexact : Exact ⟨id :: rest, pendingSet⟩) : Exact ⟨rest, pendingSet.erase id⟩ := by
  obtain ⟨hset, hnodup⟩ := hexact
  obtain ⟨hid, hrest⟩ := List.nodup_cons.mp hnodup
  refine ⟨?_, hrest⟩
  simp only at hset
  rw [hset, List.toFinset_cons, Finset.erase_insert (by rwa [List.mem_toFinset])]

end PendingQueue

namespace LiveRouteActor

/-- An entry shows a result of the current view and of its epoch. -/
structure Shows (actor : LiveRouteActor G) (entry : RouteEntry G) : Prop where
  epoch : entry.snapshots.epoch = entry.epoch
  state : (∃ best report, entry.snapshots.state = .ready actor.current best report) ∨
    ∃ failure, entry.snapshots.state = .failed actor.current failure

/-- The job of an entry is for the current view, epoch and request. -/
structure Fresh (actor : LiveRouteActor G) (entry : RouteEntry G) (job : RouteWorkerJob G) :
    Prop where
  clean : entry.dirty = false
  view : job.view = actor.view
  epoch : job.stamp.epoch = entry.epoch
  request : job.request = entry.spec.request
  running : job.cancellation.flag ∉ actor.tokens.raised

/-- The job of an entry is for an older view or epoch, and the entry knows. -/
structure Stale (actor : LiveRouteActor G) (entry : RouteEntry G) (job : RouteWorkerJob G) :
    Prop where
  dirty : entry.dirty = true
  older : job.view.snapshot.version < actor.view.snapshot.version ∨
    job.stamp.epoch < entry.epoch

/-- The active job of an entry. -/
structure Busy (actor : LiveRouteActor G) (id : RouteSubscriptionId) (entry : RouteEntry G)
    (active : ActiveRouteJob) (job : RouteWorkerJob G) : Prop where
  submitted : job ∈ actor.submitted
  stamp : job.stamp = active.stamp
  cancellation : job.cancellation = active.cancellation
  subscriptionCancel : job.subscriptionCancel = entry.cancellation
  subscription : job.stamp.subscription = id
  source : job.stamp.source = .fromView job.view
  standing : actor.Fresh entry job ∨ actor.Stale entry job

/-- What one entry has while the actor runs; a job counter that is used up
queues it no more. -/
structure EntryServed (actor : LiveRouteActor G) (id : RouteSubscriptionId)
    (entry : RouteEntry G) : Prop where
  queued : entry.active = none → entry.dirty = true →
    id ∈ actor.queue.pendingSet ∨ u64Max ≤ entry.nextJob
  shows : entry.active = none → entry.dirty = false →
    entry.cancellation.flag ∉ actor.tokens.raised → actor.Shows entry
  busy : ∀ active, entry.active = some active → ∃ job, actor.Busy id entry active job

structure Served (actor : LiveRouteActor G) : Prop where
  queue : actor.queue.Exact
  entries : ∀ id entry, actor.entries.lookup id = some entry → actor.EntryServed id entry

variable {actor before after : LiveRouteActor G} {id : RouteSubscriptionId}
  {old entry : RouteEntry G} {shown : Option RouteSubscriptionState}
  {added : List (RouteWorkerJob G)} {job : RouteWorkerJob G} {active : ActiveRouteJob}

/-- A stale job is not for the current view and epoch. -/
theorem Stale.not_current (hstale : actor.Stale entry job)
    (hsource : job.stamp.source = .fromView job.view) :
    ¬ (job.stamp.source = actor.current ∧ entry.epoch = job.stamp.epoch) := by
  rintro ⟨hcurrent, hepoch⟩
  rcases hstale.older with hversion | hlt
  · have hsame := congrArg RouteProvenance.stateVersion (hsource.symm.trans hcurrent)
    exact absurd hsame hversion.ne
  · exact absurd hepoch hlt.ne'

/-- The active job of an entry that keeps its request, epoch and mark. -/
theorem Busy.carry (hbusy : before.Busy id old active job) (hview : after.view = before.view)
    (hsubmitted : before.submitted ⊆ after.submitted)
    (hrunning : job.cancellation.flag ∉ before.tokens.raised →
      job.cancellation.flag ∉ after.tokens.raised)
    (hdirty : entry.dirty = old.dirty) (hepoch : entry.epoch = old.epoch)
    (hspec : entry.spec = old.spec) (hcancellation : entry.cancellation = old.cancellation) :
    after.Busy id entry active job := by
  refine ⟨hsubmitted hbusy.submitted, hbusy.stamp, hbusy.cancellation,
    hbusy.subscriptionCancel.trans hcancellation.symm, hbusy.subscription, hbusy.source, ?_⟩
  rcases hbusy.standing with hfresh | hstale
  · exact Or.inl ⟨hdirty.trans hfresh.clean, hfresh.view.trans hview.symm,
      hfresh.epoch.trans hepoch.symm, by rw [hspec]; exact hfresh.request,
      hrunning hfresh.running⟩
  · exact Or.inr ⟨hdirty.trans hstale.dirty, by rw [hview, hepoch]; exact hstale.older⟩

/-- Nothing that concerns an entry changes but other flags and other ids. -/
theorem EntryServed.mono (hserved : before.EntryServed id entry)
    (hview : after.view = before.view)
    (hqueue : id ∈ before.queue.pendingSet → id ∈ after.queue.pendingSet)
    (hraised : before.tokens.raised ⊆ after.tokens.raised)
    (hrunning : ∀ job ∈ before.submitted, job.stamp.subscription = id →
      job.cancellation.flag ∉ before.tokens.raised →
      job.cancellation.flag ∉ after.tokens.raised)
    (hsubmitted : before.submitted ⊆ after.submitted) : after.EntryServed id entry := by
  refine ⟨?_, ?_, ?_⟩
  · intro hactive hdirty
    exact (hserved.queued hactive hdirty).imp hqueue fun hfull => hfull
  · intro hactive hdirty hflag
    obtain ⟨hepoch, hstate⟩ := hserved.shows hactive hdirty fun hmem => hflag (hraised hmem)
    rw [show before.current = after.current by rw [current, current, hview]] at hstate
    exact ⟨hepoch, hstate⟩
  · intro active hactive
    obtain ⟨job, hbusy⟩ := hserved.busy active hactive
    exact ⟨job, hbusy.carry hview hsubmitted (hrunning job hbusy.submitted hbusy.subscription)
      rfl rfl rfl rfl⟩

/-- The flag of a job of one subscription is not raised by cancelling the job of
another one. -/
theorem Served.running_cancelActive (hserved : before.Served) (hflags : before.Flags)
    (hfound : before.entries.lookup id = some old) (hjob : job ∈ before.submitted)
    (hother : job.stamp.subscription ≠ id)
    (hrunning : job.cancellation.flag ∉ before.tokens.raised) :
    job.cancellation.flag ∉ (before.tokens.cancelActive old.active).raised := by
  intro hmem
  rcases CancellationTokens.mem_cancelActive_iff.mp hmem with ⟨active, hactive, hflag⟩ | hraised
  · obtain ⟨running, hbusy⟩ := (hserved.entries id old hfound).busy active hactive
    rw [← hbusy.cancellation] at hflag
    rw [hflags.distinct job hjob running hbusy.submitted hflag, hbusy.subscription] at hother
    exact hother rfl
  · exact hrunning hraised

/-- Every entry but one is served. -/
structure ServedBut (actor : LiveRouteActor G) (id : RouteSubscriptionId) : Prop where
  queue : actor.queue.Exact
  others : ∀ other entry, actor.entries.lookup other = some entry → other ≠ id →
    actor.EntryServed other entry

theorem Served.but (hserved : actor.Served) (id : RouteSubscriptionId) : actor.ServedBut id :=
  ⟨hserved.queue, fun other entry hfound _ => hserved.entries other entry hfound⟩

/-- A handler that raises no flag serves its entry. -/
theorem ServedBut.leaves (hserved : before.ServedBut id)
    (hleaves : before.Leaves after id old entry shown added)
    (hraised : after.tokens.raised = before.tokens.raised) (hexact : after.queue.Exact)
    (hqueue : before.queue.pendingSet ⊆ after.queue.pendingSet)
    (hself : after.EntryServed id entry) : after.Served := by
  refine ⟨hexact, ?_⟩
  intro other found hfound
  rcases hleaves.entry_cases hfound with ⟨rfl, rfl⟩ | ⟨hne, hbefore⟩
  · exact hself
  refine (hserved.others other found hbefore hne).mono hleaves.view (fun hmem => hqueue hmem)
    (by rw [hraised]) (fun _ _ _ hrunning => by rwa [hraised]) ?_
  rw [hleaves.submitted]
  exact List.subset_append_left _ _

/-- A handler that cancels the job of its entry serves the entry. -/
theorem Served.leaves (hserved : before.Served) (hflags : before.Flags)
    (hleaves : before.Leaves after id old entry shown added)
    (htokens : after.tokens = before.tokens.cancelActive old.active)
    (hexact : after.queue.Exact)
    (hqueue : before.queue.pendingSet ⊆ after.queue.pendingSet)
    (hself : after.EntryServed id entry) : after.Served := by
  refine ⟨hexact, ?_⟩
  intro other found hfound
  rcases hleaves.entry_cases hfound with ⟨rfl, rfl⟩ | ⟨hne, hbefore⟩
  · exact hself
  refine (hserved.entries other found hbefore).mono hleaves.view (fun hmem => hqueue hmem) ?_ ?_ ?_
  · rw [htokens]
    intro flag hflag
    exact CancellationTokens.mem_cancelActive_iff.mpr (Or.inr hflag)
  · intro job hjob hsubscription hrunning
    rw [htokens]
    exact hserved.running_cancelActive hflags hleaves.found hjob (by rwa [hsubscription])
      hrunning
  · rw [hleaves.submitted]
    exact List.subset_append_left _ _

/-- The job of an entry that was cancelled in favour of a later epoch. -/
theorem Busy.stale (hbusy : before.Busy id old active job) (hview : after.view = before.view)
    (hsubmitted : before.submitted ⊆ after.submitted) (hdirty : entry.dirty = true)
    (hepoch : old.epoch < entry.epoch) (hcancellation : entry.cancellation = old.cancellation) :
    after.Busy id entry active job := by
  refine ⟨hsubmitted hbusy.submitted, hbusy.stamp, hbusy.cancellation,
    hbusy.subscriptionCancel.trans hcancellation.symm, hbusy.subscription, hbusy.source,
    Or.inr ⟨hdirty, ?_⟩⟩
  rcases hbusy.standing with hfresh | hstale
  · exact Or.inr (hfresh.epoch.trans_lt hepoch)
  · rw [hview]
    exact hstale.older.imp (fun hversion => hversion) fun hlt => hlt.trans hepoch

theorem Served.replace (hserved : before.Served) (hflags : before.Flags)
    (spec : RouteSubscriptionSpec) : (before.replaceSubscription id spec).2.Served := by
  rcases replaceSubscription_cases before id spec with
    hsame | ⟨entry, hleaves, htokens, hqueue⟩
  · rw [hsame]
    exact hserved
  have hentry := hserved.entries id entry hleaves.found
  have hexact : (before.replaceSubscription id spec).2.queue.Exact := by
    rw [hqueue]
    split
    · exact hserved.queue.enqueue id
    · exact hserved.queue
  refine hserved.leaves hflags hleaves htokens hexact ?_ ⟨?_, ?_, ?_⟩
  · rw [hqueue]
    split
    · intro other hother
      exact PendingQueue.mem_enqueue_iff.mpr (Or.inr hother)
    · exact Finset.Subset.refl _
  · intro hactive _
    have hidle : entry.active.isNone = true := Option.isNone_iff_eq_none.mpr hactive
    rw [hqueue, if_pos hidle]
    exact Or.inl (PendingQueue.mem_enqueue_iff.mpr (Or.inl rfl))
  · intro _ hdirty
    cases hdirty
  · intro active hactive
    obtain ⟨job, hbusy⟩ := hentry.busy active hactive
    exact ⟨job, hbusy.stale hleaves.view
      (by rw [hleaves.submitted, List.append_nil]; exact List.Subset.refl _)
      rfl (Nat.lt_succ_self _) rfl⟩

theorem ServedBut.submit {next : ℕ} (hserved : before.ServedBut id) (hflags : before.Flags)
    (hfound : before.entries.lookup id = some entry)
    (hprepared : before.Prepared id entry job next) :
    (before.submit id entry job next).Served := by
  have hleaves := leaves_submit hfound job next
  have htokens : (before.submit id entry job next).tokens = (before.tokens.allocate none).2 :=
    submit_tokens job next
  have hqueue : (before.submit id entry job next).queue = before.queue := submit_queue job next
  refine hserved.leaves hleaves (by rw [htokens]; rfl) (by rw [hqueue]; exact hserved.queue)
    (by rw [hqueue]) ⟨nofun, nofun, ?_⟩
  intro active hactive
  obtain rfl := Option.some.inj hactive
  refine ⟨job, ?_, rfl, rfl, hprepared.subscriptionCancel, by rw [hprepared.stamp],
    by rw [hprepared.stamp, hprepared.view]; rfl, Or.inl ⟨rfl, ?_, by rw [hprepared.stamp]; rfl,
    hprepared.request, ?_⟩⟩
  · rw [hleaves.submitted]
    exact List.mem_append_right _ (List.mem_singleton_self job)
  · rw [hprepared.view, hleaves.view]
  · rw [htokens, hprepared.cancellation]
    intro hmem
    exact absurd (hflags.raised _ hmem) (lt_irrefl _)

theorem Served.event (hserved : before.Served) (stamp : RouteJobStamp)
    (event : RouteSearchEvent) : (before.handleEvent stamp event).Served := by
  rcases handleEvent_cases before stamp event with
    hsame | ⟨entry, active, hcurrent, _, hleaves, htokens, hqueue⟩
  · rw [hsame]
    exact hserved
  have hentry := hserved.entries _ entry hcurrent.found
  refine (hserved.but _).leaves hleaves (by rw [htokens]) (by rw [hqueue]; exact hserved.queue)
    (by rw [hqueue]) ⟨?_, ?_, ?_⟩
  · intro hactive
    cases hactive.symm.trans hcurrent.running
  · intro hactive
    cases hactive.symm.trans hcurrent.running
  · intro other hactive
    obtain ⟨job, hbusy⟩ := hentry.busy other hactive
    exact ⟨job, hbusy.carry hleaves.view
      (by rw [hleaves.submitted]; exact List.subset_append_left _ _)
      (by rw [htokens]; exact fun hrunning => hrunning) rfl rfl rfl rfl⟩

/-- A current job is fresh. -/
theorem Served.fresh_of_current {stamp : RouteJobStamp} (hserved : actor.Served)
    (hcurrent : actor.Current stamp entry active) :
    ∃ job, actor.Busy stamp.subscription entry active job ∧ actor.Fresh entry job := by
  obtain ⟨job, hbusy⟩ := (hserved.entries _ entry hcurrent.found).busy active hcurrent.running
  refine ⟨job, hbusy, ?_⟩
  rcases hbusy.standing with hfresh | hstale
  · exact hfresh
  · have hstamp : job.stamp = stamp := hbusy.stamp.trans hcurrent.names
    refine absurd ⟨?_, ?_⟩ (hstale.not_current hbusy.source)
    · rw [hstamp]
      exact hcurrent.source
    · rw [hstamp]
      exact hcurrent.epoch

theorem Served.completed (hserved : before.Served) (stamp : RouteJobStamp)
    (result : Except RouteSearchFailure StreamingSearchReport) :
    (before.handleCompleted stamp result).Served := by
  rcases handleCompleted_cases before stamp result with
    ⟨hsame, _⟩ | ⟨entry, active, hruns, htokens, ⟨hleaves, hqueue⟩ | ⟨hcurrent, hleaves, hqueue⟩⟩
  · rw [hsame]
    exact hserved
  · have hexact : (before.handleCompleted stamp result).queue.Exact := by
      rw [hqueue]
      split
      · exact hserved.queue.enqueue _
      · exact hserved.queue
    refine (hserved.but _).leaves hleaves (by rw [htokens]) hexact ?_ ⟨?_, ?_, nofun⟩
    · rw [hqueue]
      split
      · intro other hother
        exact PendingQueue.mem_enqueue_iff.mpr (Or.inr hother)
      · exact Finset.Subset.refl _
    · intro _ hdirty
      rw [hqueue, if_pos hdirty]
      exact Or.inl (PendingQueue.mem_enqueue_iff.mpr (Or.inl rfl))
    · intro _ hdirty hflag
      rw [htokens, ← CancellationTokens.isCancelled_eq_false_iff] at hflag
      simp [hflag] at hdirty
  · obtain ⟨job, _, hfresh⟩ := hserved.fresh_of_current hcurrent
    refine (hserved.but _).leaves hleaves (by rw [htokens])
      (by rw [hqueue]; exact hserved.queue) (by rw [hqueue]) ⟨?_, ?_, nofun⟩
    · intro _ hdirty
      cases hdirty.symm.trans hfresh.clean
    · intro _ _ _
      refine ⟨rfl, ?_⟩
      rw [hleaves.current, ← hcurrent.source]
      cases result with
      | ok report => exact Or.inl ⟨_, _, rfl⟩
      | error failure => exact Or.inr ⟨_, rfl⟩

theorem Served.removes {state : RouteSubscriptionState} (hserved : before.Served)
    (hflags : before.Flags) (hremoves : before.Removes after id old state) : after.Served := by
  refine ⟨by rw [hremoves.queue]; exact hserved.queue, ?_⟩
  intro other found hfound
  rw [hremoves.lookup] at hfound
  split at hfound
  · cases hfound
  rename_i hne
  refine (hserved.entries other found hfound).mono hremoves.view
    (by rw [hremoves.queue]; exact fun hmem => hmem) ?_ ?_
    (by rw [hremoves.submitted]; exact List.Subset.refl _)
  · rw [hremoves.tokens]
    intro flag hflag
    exact CancellationTokens.mem_cancelActive_iff.mpr
      (Or.inr (CancellationTokens.mem_cancel_iff.mpr (Or.inr hflag)))
  · intro job hjob hsubscription hrunning hmem
    rw [hremoves.tokens] at hmem
    rcases CancellationTokens.mem_cancelActive_iff.mp hmem with ⟨active, hactive, hflag⟩ | hrest
    · refine hserved.running_cancelActive hflags hremoves.found hjob (by rwa [hsubscription])
        hrunning (CancellationTokens.mem_cancelActive_iff.mpr (Or.inl ⟨active, hactive, hflag⟩))
    · rcases CancellationTokens.mem_cancel_iff.mp hrest with hflag | hraised
      · exact (hflags.entries id old hremoves.found).2 job hjob hflag
      · exact hrunning hraised

theorem Served.accepts {spec : RouteSubscriptionSpec} (hserved : before.Served)
    (haccepts : before.Accepts after spec) : after.Served := by
  refine ⟨by rw [haccepts.queue]; exact hserved.queue.enqueue _, ?_⟩
  intro other found hfound
  rw [haccepts.lookup] at hfound
  split at hfound
  · rename_i hnew
    cases hfound
    refine ⟨?_, nofun, nofun⟩
    intro _ _
    rw [haccepts.queue]
    exact Or.inl (PendingQueue.mem_enqueue_iff.mpr (Or.inl hnew))
  · refine (hserved.entries other found hfound).mono haccepts.view ?_ ?_ ?_ ?_
    · rw [haccepts.queue]
      exact fun hmem => PendingQueue.mem_enqueue_iff.mpr (Or.inr hmem)
    · rw [haccepts.tokens]
    · rw [haccepts.tokens]
      exact fun _ _ _ hrunning => hrunning
    · rw [haccepts.submitted]
      exact List.Subset.refl _

/-- The loop of a commit has invalidated the entries of some ids. -/
structure Invalidated (before after : LiveRouteActor G) (ids : List RouteSubscriptionId) :
    Prop where
  view : after.view = before.view
  submitted : after.submitted = before.submitted
  exact : before.queue.Exact → after.queue.Exact
  queue : before.queue.pendingSet ⊆ after.queue.pendingSet
  others : ∀ id ∉ ids, after.entries.lookup id = before.entries.lookup id
  each : ∀ id ∈ ids, ∀ entry, after.entries.lookup id = some entry →
    ∃ old, before.entries.lookup id = some old ∧ entry.dirty = true ∧
      entry.active = old.active ∧ entry.epoch = old.epoch ∧
      entry.cancellation = old.cancellation ∧
      (old.active = none → id ∈ after.queue.pendingSet)

theorem invalidated_single (actor : LiveRouteActor G) (id : RouteSubscriptionId) :
    actor.Invalidated (actor.invalidate id) [id] := by
  cases hfound : actor.entries.lookup id with
  | none =>
      simp only [invalidate, publishSnapshot, hfound]
      refine ⟨rfl, rfl, fun hexact => hexact, Finset.Subset.refl _, fun _ _ => rfl, ?_⟩
      intro other hother entry hentry
      rw [List.mem_singleton.mp hother] at hentry
      cases hfound.symm.trans hentry
  | some entry =>
      have hleaves := leaves_invalidate hfound
      have hqueue := invalidate_queue hfound
      refine ⟨hleaves.view, hleaves.submitted.trans (List.append_nil _), ?_, ?_, ?_, ?_⟩
      · rw [hqueue]
        intro hexact
        split
        · exact hexact.enqueue id
        · exact hexact
      · rw [hqueue]
        split
        · intro other hother
          exact PendingQueue.mem_enqueue_iff.mpr (Or.inr hother)
        · exact Finset.Subset.refl _
      · intro other hother
        rw [hleaves.lookup, if_neg (fun heq => hother (List.mem_singleton.mpr heq))]
      · intro other hother found hafter
        obtain rfl := List.mem_singleton.mp hother
        obtain rfl := Option.some.inj (hleaves.lookup_self.symm.trans hafter)
        refine ⟨entry, hfound, rfl, rfl, rfl, rfl, ?_⟩
        intro hactive
        have hidle : entry.active.isNone = true := Option.isNone_iff_eq_none.mpr hactive
        rw [hqueue, if_pos hidle]
        exact PendingQueue.mem_enqueue_iff.mpr (Or.inl rfl)

theorem invalidated_foldl {ids : List RouteSubscriptionId} (hnodup : ids.Nodup)
    (actor : LiveRouteActor G) : actor.Invalidated (ids.foldl invalidate actor) ids := by
  induction ids generalizing actor with
  | nil =>
      exact ⟨rfl, rfl, fun hexact => hexact, Finset.Subset.refl _, fun _ _ => rfl, nofun⟩
  | cons head rest ih =>
      obtain ⟨hhead, hrest⟩ := List.nodup_cons.mp hnodup
      have hfirst := invalidated_single actor head
      have hlater := ih hrest (actor.invalidate head)
      refine ⟨hlater.view.trans hfirst.view, hlater.submitted.trans hfirst.submitted,
        fun hexact => hlater.exact (hfirst.exact hexact), hfirst.queue.trans hlater.queue, ?_, ?_⟩
      · intro id hid
        obtain ⟨hne, hnot⟩ := not_or.mp (List.mem_cons.not.mp hid)
        rw [List.foldl_cons, hlater.others id hnot,
          hfirst.others id (fun hmem => hne (List.mem_singleton.mp hmem))]
      · intro id hid entry hentry
        rw [List.foldl_cons] at hentry ⊢
        rcases List.mem_cons.mp hid with rfl | hmem
        · rw [hlater.others id hhead] at hentry
          obtain ⟨old, hold, hdirty, hactive, hepoch, hcancellation, hqueued⟩ :=
            hfirst.each id (List.mem_singleton_self id) entry hentry
          exact ⟨old, hold, hdirty, hactive, hepoch, hcancellation,
            fun hidle => hlater.queue (hqueued hidle)⟩
        · obtain ⟨old, hold, hmore⟩ := hlater.each id hmem entry hentry
          have hne : id ∉ [head] := fun hsame => hhead (List.mem_singleton.mp hsame ▸ hmem)
          rw [hfirst.others id hne] at hold
          exact ⟨old, hold, hmore⟩

/-- A new view makes every job stale, and its entry dirty. -/
theorem Served.advance {commit : AmmStateCommit} {delta : GraphDelta} {live : LiveAmmGraph G}
    {view : LiveSearchView G} (hserved : actor.Served)
    (hnewer : actor.view.snapshot.version < view.snapshot.version) :
    ((ascending actor.entries.keys).foldl invalidate
      (actor.advance commit delta live view)).Served := by
  have hinvalidated := invalidated_foldl (nodup_ascending actor.entries.keys)
    (actor.advance commit delta live view)
  refine ⟨hinvalidated.exact hserved.queue, ?_⟩
  intro id entry hentry
  have hid : id ∈ ascending actor.entries.keys := by
    by_contra hnot
    have hnone := hinvalidated.others id hnot
    rw [hentry] at hnone
    rw [mem_ascending, Finmap.mem_keys, Finmap.mem_iff] at hnot
    exact hnot ⟨entry, hnone.symm⟩
  obtain ⟨old, hold, hdirty, hactive, hepoch, hcancellation, hqueued⟩ :=
    hinvalidated.each id hid entry hentry
  have hbefore := hserved.entries id old hold
  refine ⟨?_, ?_, ?_⟩
  · intro hidle _
    exact Or.inl (hqueued (hactive.symm.trans hidle))
  · intro _ hclean
    cases hdirty.symm.trans hclean
  · intro active hrunning
    obtain ⟨job, hbusy⟩ := hbefore.busy active (hactive.symm.trans hrunning)
    refine ⟨job, ?_, hbusy.stamp, hbusy.cancellation,
      hbusy.subscriptionCancel.trans hcancellation.symm, hbusy.subscription, hbusy.source,
      Or.inr ⟨hdirty, ?_⟩⟩
    · rw [hinvalidated.submitted]
      exact hbusy.submitted
    · rw [hinvalidated.view, hepoch]
      rcases hbusy.standing with hfresh | hstale
      · left
        rw [hfresh.view]
        exact hnewer
      · exact hstale.older.imp (fun hlt => hlt.trans hnewer) fun hlt => hlt

/-- The head of the queue is taken out. -/
def pop (actor : LiveRouteActor G) (id : RouteSubscriptionId)
    (rest : List RouteSubscriptionId) : LiveRouteActor G :=
  { actor with pending := rest, pendingSet := actor.pendingSet.erase id }

theorem Served.pop {rest : List RouteSubscriptionId} (hserved : actor.Served)
    (hpending : actor.pending = id :: rest) : (actor.pop id rest).ServedBut id := by
  have hqueue : PendingQueue.Exact ⟨id :: rest, actor.pendingSet⟩ := by
    have hexact : PendingQueue.Exact ⟨actor.pending, actor.pendingSet⟩ := hserved.queue
    rwa [hpending] at hexact
  refine ⟨hqueue.pop, ?_⟩
  intro other entry hfound hne
  refine (hserved.entries other entry hfound).mono rfl ?_ (Finset.Subset.refl _)
    (fun _ _ _ hrunning => hrunning) (List.Subset.refl _)
  exact fun hmem => Finset.mem_erase.mpr ⟨hne, hmem⟩

/-- An id that needs no job leaves the queue. -/
theorem Served.skip {rest : List RouteSubscriptionId} (hserved : actor.Served)
    (hpending : actor.pending = id :: rest)
    (hskip : ∀ entry, actor.entries.lookup id = some entry → entry.active = none →
      entry.dirty = true → u64Max ≤ entry.nextJob) : (actor.pop id rest).Served := by
  have hbut := hserved.pop hpending
  refine ⟨hbut.queue, ?_⟩
  intro other entry hfound
  by_cases hother : other = id
  · have hentry := hserved.entries other entry hfound
    refine ⟨?_, ?_, ?_⟩
    · intro hactive hdirty
      rw [hother] at hfound
      exact Or.inr (hskip entry hfound hactive hdirty)
    · intro hactive hdirty hflag
      obtain ⟨hepoch, hstate⟩ := hentry.shows hactive hdirty hflag
      exact ⟨hepoch, hstate⟩
    · intro active hactive
      obtain ⟨job, hbusy⟩ := hentry.busy active hactive
      exact ⟨job, hbusy.carry rfl (List.Subset.refl _) (fun hrunning => hrunning) rfl rfl rfl
        rfl⟩
  · exact hbut.others other entry hfound hother

/-- An id whose job is refused goes back to the end of the queue. -/
theorem Served.refuse {rest : List RouteSubscriptionId} {tokens : CancellationTokens}
    (hserved : actor.Served) (hpending : actor.pending = id :: rest)
    (hraised : tokens.raised = actor.tokens.raised) :
    (((actor.pop id rest).withTokens tokens).enqueuePending id).Served := by
  have hqueue : (((actor.pop id rest).withTokens tokens).enqueuePending id).queue =
      (actor.pop id rest).queue.enqueue id := by
    rw [enqueuePending_queue]
    rfl
  have hquiet := quiet_enqueue ((actor.pop id rest).withTokens tokens) id
  refine ⟨by rw [hqueue]; exact (hserved.pop hpending).queue.enqueue id, ?_⟩
  intro other entry hfound
  rw [hquiet.entries] at hfound
  refine (hserved.entries other entry hfound).mono hquiet.view ?_ ?_ ?_ ?_
  · rw [hqueue]
    intro hmem
    rw [PendingQueue.mem_enqueue_iff]
    by_cases hother : other = id
    · exact Or.inl hother
    · exact Or.inr (Finset.mem_erase.mpr ⟨hother, hmem⟩)
  · rw [hquiet.raised]
    exact hraised.ge
  · intro _ _ _ hrunning
    rw [hquiet.raised]
    exact hraised ▸ hrunning
  · rw [hquiet.submitted]
    exact List.Subset.refl _

theorem scheduleLoop_cons (id : RouteSubscriptionId) (rest : List RouteSubscriptionId)
    (answers : List Bool) (actor : LiveRouteActor G) :
    scheduleLoop (id :: rest) answers actor =
      match (actor.pop id rest).startable id with
      | none => scheduleLoop rest answers (actor.pop id rest)
      | some entry =>
          match (actor.pop id rest).nextJob id entry with
          | none => scheduleLoop rest answers (actor.pop id rest)
          | some (job, next) =>
              if answers.headD false then
                scheduleLoop rest answers.tail ((actor.pop id rest).submit id entry job next)
              else
                ((actor.pop id rest).withTokens (actor.tokens.allocate none).2).enqueuePending
                  id :=
  rfl

/-- The loop of the schedule serves every entry. -/
theorem Served.scheduleLoop {ids : List RouteSubscriptionId} (hserved : actor.Served)
    (hpending : actor.pending = ids) (hflags : actor.Flags) (answers : List Bool) :
    (scheduleLoop ids answers actor).Served := by
  induction ids generalizing answers actor with
  | nil => exact hserved
  | cons id rest ih =>
      have hpopped : (actor.pop id rest).Flags :=
        hflags.handles (.quiet ⟨rfl, rfl, rfl, rfl, rfl, le_rfl, rfl, le_rfl, rfl, rfl⟩)
      rw [scheduleLoop_cons]
      cases hstartable : (actor.pop id rest).startable id with
      | none =>
          refine ih (hserved.skip hpending ?_) rfl hpopped answers
          intro entry hfound hactive hdirty
          have hpop : (actor.pop id rest).entries.lookup id = some entry := hfound
          simp [startable, hpop, hactive, hdirty] at hstartable
      | some entry =>
          obtain ⟨hfound, hwaits⟩ := Option.filter_eq_some_iff.mp hstartable
          simp only
          cases hnext : (actor.pop id rest).nextJob id entry with
          | none =>
              refine ih (hserved.skip hpending ?_) rfl hpopped answers
              intro found hsame _ _
              obtain rfl : entry = found := Option.some.inj (hfound.symm.trans hsame)
              unfold nextJob checkedNext at hnext
              split at hnext
              · cases hnext
              · rename_i hfull
                exact not_lt.mp hfull
          | some prepared =>
              obtain ⟨job, next⟩ := prepared
              have hprepared := prepared_of_nextJob hnext
              simp only
              split
              · have hsubmitted := (hserved.pop hpending).submit hpopped hfound hprepared
                refine ih hsubmitted ?_ (hpopped.submit hfound hprepared) answers.tail
                have hqueue : ((actor.pop id rest).submit id entry job next).queue =
                    (actor.pop id rest).queue := submit_queue job next
                exact congrArg PendingQueue.pending hqueue
              · exact Served.refuse hserved hpending rfl

/-- Nothing that concerns the entries or the queue changes. -/
theorem Served.quiet (hserved : before.Served) (same : before.Quiet after)
    (hqueue : after.queue = before.queue) : after.Served := by
  refine ⟨by rw [hqueue]; exact hserved.queue, ?_⟩
  intro id entry hfound
  rw [same.entries] at hfound
  refine (hserved.entries id entry hfound).mono same.view (by rw [hqueue]; exact fun hmem => hmem)
    (by rw [same.raised]) (fun _ _ _ hrunning => by rwa [same.raised]) ?_
  rw [same.submitted]
  exact List.Subset.refl _

theorem Served.closeLoop (ids : List RouteSubscriptionId) (hserved : actor.Served)
    (hflags : actor.Flags) : (ids.foldl closeEntry actor).Served := by
  induction ids generalizing actor with
  | nil => exact hserved
  | cons id rest ih =>
      rw [List.foldl_cons]
      rcases closeEntry_cases actor id with ⟨_, hsame⟩ | ⟨old, hremoves⟩
      · rw [hsame]
        exact ih hserved hflags
      · exact ih (hserved.removes hflags hremoves) (hflags.removes hremoves)

theorem Served.close (hserved : actor.Served) (hflags : actor.Flags) : actor.close.Served := by
  have hclosed := hserved.closeLoop (ascending actor.entries.keys) hflags
  unfold LiveRouteActor.close
  split
  · exact hclosed
  · exact hclosed.quiet (quiet_event _ _ _ _) (publishEvent_queue _ _ _ _)

theorem Served.message (hserved : actor.Served) (message : RouteWorkerMessage) :
    (actor.handleWorkerMessage message).Served := by
  cases message with
  | event stamp event => exact hserved.event stamp event
  | completed stamp result => exact hserved.completed stamp result

theorem Served.cancel (hserved : actor.Served) (hflags : actor.Flags)
    (id : RouteSubscriptionId) : (actor.cancelSubscription id).2.Served := by
  rcases cancelSubscription_cases actor id with hsame | ⟨old, hremoves⟩
  · rw [hsame]
    exact hserved
  · exact hserved.removes hflags hremoves

theorem Served.command (hserved : actor.Served) (hflags : actor.Flags)
    (command : RouteCommand) : (actor.handleCommand command).actor.Served := by
  cases command with
  | subscribe spec =>
      rcases addSubscription_cases actor spec with ⟨hsame, _⟩ | ⟨haccepts, _⟩
      · rw [handleCommand, hsame]
        exact hserved
      · exact hserved.accepts haccepts
  | cancel id => exact hserved.cancel hflags id
  | replace id spec => exact hserved.replace hflags spec
  | shutdown => exact hserved

section Turns

variable [StableDiGraph G Address EdgeData] {next : LiveRouteActor G} {lineage : ℕ}
  {commit : AmmStateCommit} {result : Except LiveRouteRuntimeError Unit}
  {input : LiveRouteActorInput} {turn : LiveRouteTurn G}

theorem Served.of_applyCommit (hserved : actor.Served) (hlogged : actor.Logged)
    (happly : actor.applyCommit lineage commit = some (result, next)) : next.Served := by
  rcases applyCommit_cases happly with
    ⟨_, rfl⟩ | ⟨_, delta, live, view, hnewer, _, rfl⟩
  · exact hserved
  · exact hserved.advance (hlogged.version.trans_lt hnewer)

theorem Served.of_applyOrFail {commit : DrawnCommit} {applied : Bool × LiveRouteActor G}
    (hserved : actor.Served) (hlogged : actor.Logged)
    (happly : actor.applyOrFail commit = some applied) : applied.2.Served := by
  obtain ⟨⟨result, next⟩, hcommit, rfl⟩ := Option.map_eq_some_iff.mp happly
  have hnext := hserved.of_applyCommit hlogged hcommit
  cases result with
  | ok _ => exact hnext
  | error error => exact hnext.quiet (quiet_fail next error) rfl

theorem Served.of_turn (hserved : actor.Served) (hlogged : actor.Logged) (hflags : actor.Flags)
    (hturn : actor.turn input = some turn) : turn.actor.Served := by
  unfold LiveRouteActor.turn at hturn
  split at hturn
  · cases hturn
    exact hserved
  · obtain ⟨applied, happly, rfl⟩ := Option.map_eq_some_iff.mp hturn
    exact hserved.of_applyOrFail hlogged happly
  · cases hturn
    exact hserved
  · cases hturn
    exact hserved.command hflags _
  · cases hturn
    exact hserved
  · cases hturn
    exact hserved.cancel hflags _
  · cases hturn
    exact hserved
  · cases hturn
    exact hserved.message _
  · obtain ⟨applied, happly, rfl⟩ := Option.map_eq_some_iff.mp hturn
    have happlied := hserved.of_applyOrFail hlogged happly
    split
    · exact happlied.message _
    · exact happlied

omit [StableDiGraph G Address EdgeData] in
theorem Served.endTurn (hserved : turn.actor.Served) (hflags : turn.actor.Flags)
    (answers : List Bool) : (endTurn turn answers).Served := by
  unfold LiveRouteActor.endTurn
  split
  · exact hserved.scheduleLoop rfl hflags answers
  · exact hserved.close hflags

end Turns

end LiveRouteActor

end AmmSearch
