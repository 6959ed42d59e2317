/-
What each handler of the live route actor does: the entry it leaves behind, the
state it publishes, the flags it raises and the ids it queues.
-/
import AmmSearch.LiveRouteRuntime

open FiniteMap StableGraph

namespace AmmSearch

variable {G : Type}

/-- The part of an actor that a handler of one subscription leaves alone. -/
structure ActorFrame (G : Type) where
  live : LiveAmmGraph G
  view : LiveSearchView G
  nextSubscription : ℕ
  maxSubscriptions : ℕ
  terminalFailure : Option LiveRouteRuntimeFailure

/-- The ids that wait for a job, as a queue and as a set. -/
structure PendingQueue where
  pending : List RouteSubscriptionId
  pendingSet : Finset RouteSubscriptionId

def PendingQueue.enqueue (queue : PendingQueue) (id : RouteSubscriptionId) : PendingQueue :=
  if id ∈ queue.pendingSet then queue
  else ⟨queue.pending ++ [id], insert id queue.pendingSet⟩

def CancellationTokens.cancelActive (tokens : CancellationTokens)
    (active : Option ActiveRouteJob) : CancellationTokens :=
  match active with
  | none => tokens
  | some active => tokens.cancel active.cancellation

/-- The snapshot that an entry shows after it published a state, if it did. -/
def RouteEntry.latest (entry : RouteEntry G)
    (shown : Option (RouteSubscriptionSnapshot G)) : RouteSubscriptionSnapshot G :=
  shown.getD entry.snapshots

namespace LiveRouteActor

def frame (actor : LiveRouteActor G) : ActorFrame G where
  live := actor.live
  view := actor.view
  nextSubscription := actor.nextSubscription
  maxSubscriptions := actor.maxSubscriptions
  terminalFailure := actor.terminalFailure

def queue (actor : LiveRouteActor G) : PendingQueue := ⟨actor.pending, actor.pendingSet⟩

def withTokens (actor : LiveRouteActor G) (tokens : CancellationTokens) : LiveRouteActor G :=
  { actor with tokens := tokens }

/-- A handler turned the entry of one subscription into another one, and
published a state of it or none. -/
structure Leaves (before after : LiveRouteActor G) (id : RouteSubscriptionId)
    (old entry : RouteEntry G) (shown : Option RouteSubscriptionState)
    (added : List (RouteWorkerJob G)) : Prop where
  found : before.entries.lookup id = some old
  lookup : ∀ other, after.entries.lookup other =
    if other = id then some entry else before.entries.lookup other
  shows : entry.snapshots = old.latest (shown.map (before.nextSnapshot id entry.epoch))
  published : after.published =
    before.published ++ (shown.map (before.nextSnapshot id entry.epoch)).toList
  sequence : (if shown.isSome then saturatingNext before.sequence else before.sequence) ≤
    after.sequence
  jobs : after.jobs = before.jobs ++ added
  submitted : after.submitted = before.submitted ++ added
  frame : after.frame = before.frame

variable {actor before after : LiveRouteActor G} {id : RouteSubscriptionId}
  {old entry : RouteEntry G} {shown : Option RouteSubscriptionState}
  {added : List (RouteWorkerJob G)}

theorem Leaves.view (hleaves : before.Leaves after id old entry shown added) :
    after.view = before.view :=
  congrArg ActorFrame.view hleaves.frame

theorem Leaves.live (hleaves : before.Leaves after id old entry shown added) :
    after.live = before.live :=
  congrArg ActorFrame.live hleaves.frame

theorem Leaves.current (hleaves : before.Leaves after id old entry shown added) :
    after.current = before.current :=
  congrArg RouteProvenance.fromView hleaves.view

theorem Leaves.nextSubscription (hleaves : before.Leaves after id old entry shown added) :
    after.nextSubscription = before.nextSubscription :=
  congrArg ActorFrame.nextSubscription hleaves.frame

theorem Leaves.lookup_self (hleaves : before.Leaves after id old entry shown added) :
    after.entries.lookup id = some entry := by
  rw [hleaves.lookup, if_pos rfl]

/-- An entry after a handler is the one it left, or an entry from before. -/
theorem Leaves.entry_cases (hleaves : before.Leaves after id old entry shown added)
    {other : RouteSubscriptionId} {found : RouteEntry G}
    (hfound : after.entries.lookup other = some found) :
    (other = id ∧ found = entry) ∨ (other ≠ id ∧ before.entries.lookup other = some found) := by
  rw [hleaves.lookup] at hfound
  split at hfound
  · rename_i heq
    exact Or.inl ⟨heq, (Option.some.inj hfound).symm⟩
  · rename_i hne
    exact Or.inr ⟨hne, hfound⟩

/-- Events and the queue are not part of what a handler leaves. -/
theorem Leaves.event (hleaves : before.Leaves after id old entry shown added)
    (subscription : Option RouteSubscriptionId) (stamp : Option RouteJobStamp)
    (kind : LiveRouteRuntimeEventKind) :
    before.Leaves (after.publishEvent subscription stamp kind) id old entry shown added where
  found := hleaves.found
  lookup := hleaves.lookup
  shows := hleaves.shows
  published := hleaves.published
  sequence := hleaves.sequence.trans (le_saturatingNext _)
  jobs := hleaves.jobs
  submitted := hleaves.submitted
  frame := hleaves.frame

theorem Leaves.invalidated (hleaves : before.Leaves after id old entry shown added)
    (subscription : RouteSubscriptionId) (previous : Option RouteProvenance)
    (reason : RouteInvalidationReason) :
    before.Leaves (after.publishInvalidated subscription previous reason) id old entry shown
      added := by
  cases previous with
  | none => exact hleaves
  | some previous => exact hleaves.event _ _ _

theorem Leaves.enqueue (hleaves : before.Leaves after id old entry shown added)
    (queued : RouteSubscriptionId) :
    before.Leaves (after.enqueuePending queued) id old entry shown added := by
  unfold enqueuePending
  split
  · exact hleaves
  · exact ⟨hleaves.found, hleaves.lookup, hleaves.shows, hleaves.published, hleaves.sequence,
      hleaves.jobs, hleaves.submitted, hleaves.frame⟩

/-- An entry is replaced and its new state published. -/
theorem leaves_publish (before : LiveRouteActor G) (hfound : before.entries.lookup id = some old)
    (state : RouteSubscriptionState) (entry : RouteEntry G) :
    before.Leaves ((before.setEntry id entry).publishSnapshot id state) id old
      { entry with snapshots := before.nextSnapshot id entry.epoch state } (some state) [] := by
  have hset : (before.setEntry id entry).entries.lookup id = some entry := by
    simp [setEntry]
  unfold publishSnapshot
  rw [hset]
  refine ⟨hfound, ?_, rfl, rfl, le_rfl, (List.append_nil _).symm, (List.append_nil _).symm, rfl⟩
  intro other
  simp only [setEntry, lookup_insert_eq]
  split <;> rfl

/-- The new state of an entry is published. -/
theorem leaves_show (hfound : before.entries.lookup id = some entry)
    (state : RouteSubscriptionState) :
    before.Leaves (before.publishSnapshot id state) id entry
      { entry with snapshots := before.nextSnapshot id entry.epoch state } (some state) [] := by
  unfold publishSnapshot
  rw [hfound]
  refine ⟨hfound, ?_, rfl, rfl, le_rfl, (List.append_nil _).symm, (List.append_nil _).symm, rfl⟩
  intro other
  simp only [lookup_insert_eq]

/-- Nothing is done to an entry. -/
theorem leaves_nothing (hfound : before.entries.lookup id = some entry) :
    before.Leaves before id entry entry none [] := by
  refine ⟨hfound, ?_, rfl, (List.append_nil _).symm, le_rfl, (List.append_nil _).symm,
    (List.append_nil _).symm, rfl⟩
  intro other
  split
  · rename_i heq
    rw [heq, hfound]
  · rfl

/-- An entry is replaced. -/
theorem leaves_setEntry (hfound : before.entries.lookup id = some old) (entry : RouteEntry G)
    (hshows : entry.snapshots = old.snapshots) :
    before.Leaves (before.setEntry id entry) id old entry none [] := by
  refine ⟨hfound, ?_, hshows, (List.append_nil _).symm, le_rfl, (List.append_nil _).symm,
    (List.append_nil _).symm, rfl⟩
  intro other
  exact lookup_insert_eq _ _ _ _

/-- Flags are not part of what a handler leaves. -/
theorem Leaves.of_tokens {tokens : CancellationTokens}
    (hleaves : (before.withTokens tokens).Leaves after id old entry shown added) :
    before.Leaves after id old entry shown added :=
  ⟨hleaves.found, hleaves.lookup, hleaves.shows, hleaves.published, hleaves.sequence,
    hleaves.jobs, hleaves.submitted, hleaves.frame⟩

theorem cancelActive_eq (active : Option ActiveRouteJob) :
    actor.cancelActive active = actor.withTokens (actor.tokens.cancelActive active) := by
  cases active with
  | none => rfl
  | some active => rfl

theorem leaves_await (before : LiveRouteActor G) (hfound : before.entries.lookup id = some old)
    (entry : RouteEntry G)
    (reason : RouteInvalidationReason) :
    before.Leaves ((before.setEntry id entry).await id entry reason) id old
      { entry with
        snapshots := before.nextSnapshot id entry.epoch
          (.pending before.current entry.lastReady) }
      (some (.pending before.current entry.lastReady)) [] := by
  have hshown := (leaves_publish before hfound (.pending before.current entry.lastReady)
    entry).invalidated id (entryPublishedSource entry) reason
  unfold await
  split
  · exact hshown.enqueue id
  · exact hshown

/-- The entry that a commit leaves. -/
def invalidatedEntry (actor : LiveRouteActor G) (id : RouteSubscriptionId)
    (entry : RouteEntry G) : RouteEntry G :=
  { entry with
    dirty := true
    trigger := .ammCommit
    snapshots := actor.nextSnapshot id entry.epoch (.pending actor.current entry.lastReady) }

theorem leaves_invalidate (hfound : actor.entries.lookup id = some entry) :
    actor.Leaves (actor.invalidate id) id entry (actor.invalidatedEntry id entry)
      (some (.pending actor.current entry.lastReady)) [] := by
  unfold invalidate
  rw [hfound]
  simp only [cancelActive_eq]
  exact Leaves.of_tokens
    (leaves_await (actor.withTokens (actor.tokens.cancelActive entry.active)) hfound
      { entry with dirty := true, trigger := .ammCommit } .ammStateAdvanced)

/-- The entry that an accepted replacement leaves. -/
def replacedEntry (actor : LiveRouteActor G) (id : RouteSubscriptionId) (entry : RouteEntry G)
    (spec : RouteSubscriptionSpec) : RouteEntry G :=
  { entry with
    spec := spec
    epoch := entry.epoch + 1
    dirty := true
    trigger := .requestChanged
    snapshots := actor.nextSnapshot id (entry.epoch + 1)
      (.pending actor.current entry.lastReady) }

section Shared

variable (actor) (active : Option ActiveRouteJob) (stamp : Option RouteJobStamp)
  (subscription : Option RouteSubscriptionId) (kind : LiveRouteRuntimeEventKind)
  (state : RouteSubscriptionState) (previous : Option RouteProvenance)
  (reason : RouteInvalidationReason)

@[simp] theorem publishEvent_tokens :
    (actor.publishEvent subscription stamp kind).tokens = actor.tokens := rfl

@[simp] theorem publishEvent_queue :
    (actor.publishEvent subscription stamp kind).queue = actor.queue := rfl

@[simp] theorem publishInvalidated_tokens :
    (actor.publishInvalidated id previous reason).tokens = actor.tokens := by
  cases previous <;> rfl

@[simp] theorem publishInvalidated_queue :
    (actor.publishInvalidated id previous reason).queue = actor.queue := by
  cases previous <;> rfl

@[simp] theorem publishSnapshot_tokens :
    (actor.publishSnapshot id state).tokens = actor.tokens := by
  unfold publishSnapshot
  split <;> rfl

@[simp] theorem publishSnapshot_queue :
    (actor.publishSnapshot id state).queue = actor.queue := by
  unfold publishSnapshot
  split <;> rfl

@[simp] theorem setEntry_tokens : (actor.setEntry id entry).tokens = actor.tokens := rfl

@[simp] theorem setEntry_queue : (actor.setEntry id entry).queue = actor.queue := rfl

@[simp] theorem enqueuePending_tokens : (actor.enqueuePending id).tokens = actor.tokens := by
  unfold enqueuePending
  split <;> rfl

@[simp] theorem enqueuePending_queue :
    (actor.enqueuePending id).queue = actor.queue.enqueue id := by
  unfold enqueuePending PendingQueue.enqueue queue
  split <;> rfl

@[simp] theorem cancelActive_tokens :
    (actor.cancelActive active).tokens = actor.tokens.cancelActive active := by
  cases active <;> rfl

@[simp] theorem cancelActive_queue : (actor.cancelActive active).queue = actor.queue := by
  cases active <;> rfl

@[simp] theorem await_tokens : (actor.await id entry reason).tokens = actor.tokens := by
  unfold await
  split <;> simp

@[simp] theorem await_queue :
    (actor.await id entry reason).queue =
      if entry.active.isNone then actor.queue.enqueue id else actor.queue := by
  unfold await
  split <;> simp

end Shared

theorem invalidate_tokens (hfound : actor.entries.lookup id = some entry) :
    (actor.invalidate id).tokens = actor.tokens.cancelActive entry.active := by
  simp [invalidate, hfound]

theorem invalidate_queue (hfound : actor.entries.lookup id = some entry) :
    (actor.invalidate id).queue =
      if entry.active.isNone then actor.queue.enqueue id else actor.queue := by
  simp [invalidate, hfound]

/-- A replacement is refused, or it begins the next epoch. -/
theorem replaceSubscription_cases (actor : LiveRouteActor G) (id : RouteSubscriptionId)
    (spec : RouteSubscriptionSpec) :
    (actor.replaceSubscription id spec).2 = actor ∨
    ∃ entry, actor.Leaves (actor.replaceSubscription id spec).2 id entry
        (actor.replacedEntry id entry spec) (some (.pending actor.current entry.lastReady)) [] ∧
      (actor.replaceSubscription id spec).2.tokens =
        actor.tokens.cancelActive entry.active ∧
      (actor.replaceSubscription id spec).2.queue =
        if entry.active.isNone then actor.queue.enqueue id else actor.queue := by
  unfold replaceSubscription
  cases hfound : actor.entries.lookup id with
  | none => exact Or.inl rfl
  | some entry =>
      simp only
      cases hnext : checkedNext entry.epoch with
      | none => exact Or.inl rfl
      | some next =>
          obtain rfl : next = entry.epoch + 1 := eq_succ_of_checkedNext hnext
          refine Or.inr ⟨entry, ?_, by simp, by simp⟩
          simp only [cancelActive_eq]
          exact Leaves.of_tokens
            (leaves_await (actor.withTokens (actor.tokens.cancelActive entry.active)) hfound
            { entry with
              spec := spec
              epoch := entry.epoch + 1
              dirty := true
              trigger := .requestChanged } .requestChanged)

/-- A job for an entry: it is stamped with the next number, the epoch and the
current source, and has a new flag. -/
structure Prepared (actor : LiveRouteActor G) (id : RouteSubscriptionId) (entry : RouteEntry G)
    (job : RouteWorkerJob G) (next : ℕ) : Prop where
  stamp : job.stamp = ⟨id, entry.epoch, entry.nextJob, actor.current⟩
  view : job.view = actor.view
  request : job.request = entry.spec.request
  subscriptionCancel : job.subscriptionCancel = entry.cancellation
  cancellation : job.cancellation = ⟨actor.tokens.next, none⟩
  next : next = entry.nextJob + 1

theorem prepared_of_nextJob {job : RouteWorkerJob G} {next : ℕ}
    (hnext : actor.nextJob id entry = some (job, next)) : actor.Prepared id entry job next := by
  obtain ⟨counter, hcounter, hjob⟩ := Option.map_eq_some_iff.mp hnext
  obtain ⟨rfl, rfl⟩ := Prod.mk.inj hjob
  exact ⟨rfl, rfl, rfl, rfl, rfl, eq_succ_of_checkedNext hcounter⟩

/-- The entry of a job that the pool took. -/
def submittedEntry (actor : LiveRouteActor G) (id : RouteSubscriptionId) (entry : RouteEntry G)
    (job : RouteWorkerJob G) (next : ℕ) : RouteEntry G :=
  { entry with
    nextJob := next
    active := some ⟨job.stamp, job.cancellation⟩
    dirty := false
    snapshots := actor.nextSnapshot id entry.epoch (.searching job.stamp none entry.lastReady) }

/-- The actor at the moment the pool takes a job. -/
def withJob (actor : LiveRouteActor G) (job : RouteWorkerJob G) : LiveRouteActor G :=
  { actor with
    tokens := (actor.tokens.allocate none).2
    jobs := actor.jobs ++ [job]
    submitted := actor.submitted ++ [job] }

theorem leaves_submit (hfound : actor.entries.lookup id = some entry) (job : RouteWorkerJob G)
    (next : ℕ) :
    actor.Leaves (actor.submit id entry job next) id entry
      (actor.submittedEntry id entry job next)
      (some (.searching job.stamp none entry.lastReady)) [job] := by
  have hshown := (leaves_publish (actor.withJob job) hfound
    (.searching job.stamp none entry.lastReady)
    { entry with
      nextJob := next
      active := some ⟨job.stamp, job.cancellation⟩
      dirty := false }).event (some id) (some job.stamp) (.searchScheduled entry.trigger)
  exact ⟨hfound, hshown.lookup, hshown.shows, hshown.published, hshown.sequence,
    hshown.jobs.trans (List.append_nil _), hshown.submitted.trans (List.append_nil _),
    hshown.frame⟩

theorem submit_tokens (job : RouteWorkerJob G) (next : ℕ) :
    (actor.submit id entry job next).tokens = (actor.tokens.allocate none).2 := by
  simp [submit]

theorem submit_queue (job : RouteWorkerJob G) (next : ℕ) :
    (actor.submit id entry job next).queue = actor.queue := by
  simp only [submit, publishEvent_queue, publishSnapshot_queue, setEntry_queue]
  rfl

/-- A stamp is the one of the active job of its subscription. -/
structure Runs (actor : LiveRouteActor G) (stamp : RouteJobStamp) (entry : RouteEntry G)
    (active : ActiveRouteJob) : Prop where
  found : actor.entries.lookup stamp.subscription = some entry
  running : entry.active = some active
  names : active.stamp = stamp

/-- A stamp is current: it runs for the current view and epoch, and its
subscription is not cancelled. -/
structure Current (actor : LiveRouteActor G) (stamp : RouteJobStamp) (entry : RouteEntry G)
    (active : ActiveRouteJob) : Prop extends Runs actor stamp entry active where
  source : stamp.source = actor.current
  epoch : entry.epoch = stamp.epoch
  subscribed : actor.tokens.isCancelled entry.cancellation = false

theorem current_of_accepts {stamp : RouteJobStamp} (haccepts : actor.accepts stamp = true) :
    ∃ entry active, actor.Current stamp entry active ∧
      actor.tokens.isCancelled active.cancellation = false := by
  unfold accepts at haccepts
  cases hfound : actor.entries.lookup stamp.subscription with
  | none => simp [hfound] at haccepts
  | some entry =>
      cases hactive : entry.active with
      | none => simp [hfound, hactive] at haccepts
      | some active =>
          simp only [hfound, hactive, Option.any_some, Bool.and_eq_true, decide_eq_true_eq,
            Bool.not_eq_true'] at haccepts
          obtain ⟨⟨⟨hsource, hepoch⟩, hsubscribed⟩, hstamp, hrunning⟩ := haccepts
          exact ⟨entry, active, ⟨⟨hfound, hactive, hstamp⟩, hsource, hepoch, hsubscribed⟩,
            hrunning⟩

/-- The state that an event of a job shows. -/
def eventState (stamp : RouteJobStamp) (event : RouteSearchEvent)
    (previous : Option VersionedRouteQuote) : Option RouteSubscriptionState :=
  (eventBest event).map fun quote =>
    .searching stamp (some ⟨stamp.source, quote⟩) previous

/-- The entry after it published a state, if it did. -/
def shownEntry (actor : LiveRouteActor G) (id : RouteSubscriptionId) (entry : RouteEntry G)
    (shown : Option RouteSubscriptionState) : RouteEntry G :=
  { entry with snapshots := entry.latest (shown.map (actor.nextSnapshot id entry.epoch)) }

/-- An event is ignored, or it comes from a current job. -/
theorem handleEvent_cases (actor : LiveRouteActor G) (stamp : RouteJobStamp)
    (event : RouteSearchEvent) :
    actor.handleEvent stamp event = actor ∨
    ∃ entry active, actor.Current stamp entry active ∧
      actor.tokens.isCancelled active.cancellation = false ∧
      actor.Leaves (actor.handleEvent stamp event) stamp.subscription entry
        (actor.shownEntry stamp.subscription entry (eventState stamp event entry.lastReady))
        (eventState stamp event entry.lastReady) [] ∧
      (actor.handleEvent stamp event).tokens = actor.tokens ∧
      (actor.handleEvent stamp event).queue = actor.queue := by
  unfold handleEvent
  split
  · rename_i haccepts
    obtain ⟨entry, active, hcurrent, hrunning⟩ := current_of_accepts haccepts
    refine Or.inr ⟨entry, active, hcurrent, hrunning, ?_, ?_, ?_⟩
    · apply Leaves.event
      unfold eventState shownEntry
      cases eventBest event with
      | none => exact leaves_nothing hcurrent.found
      | some quote =>
          simp only [hcurrent.found, Option.bind_some, Option.map_some]
          exact leaves_show hcurrent.found _
    · cases eventBest event <;> simp
    · cases eventBest event <;> simp
  · exact Or.inl rfl

/-- The state that a completion installs. -/
def installedState (stamp : RouteJobStamp)
    (result : Except RouteSearchFailure StreamingSearchReport) : RouteSubscriptionState :=
  match result with
  | .ok report =>
      .ready stamp.source (report.best.map (VersionedRouteQuote.mk stamp.source)) report
  | .error failure => .failed stamp.source failure

/-- The entry that a current completion leaves. -/
def installedEntry (actor : LiveRouteActor G) (stamp : RouteJobStamp) (entry : RouteEntry G)
    (result : Except RouteSearchFailure StreamingSearchReport) : RouteEntry G :=
  { entry with
    active := none
    lastReady :=
      match result with
      | .ok report => report.best.map (VersionedRouteQuote.mk stamp.source)
      | .error _ => entry.lastReady
    snapshots := actor.nextSnapshot stamp.subscription entry.epoch
      (installedState stamp result) }

theorem leaves_rejectStale {stamp : RouteJobStamp}
    (hfound : actor.entries.lookup stamp.subscription = some entry) :
    actor.Leaves (actor.rejectStale stamp entry) stamp.subscription entry
        { entry with active := none, dirty := !actor.tokens.isCancelled entry.cancellation }
        none [] ∧
      (actor.rejectStale stamp entry).queue =
        if !actor.tokens.isCancelled entry.cancellation then
          actor.queue.enqueue stamp.subscription
        else actor.queue := by
  have hset := leaves_setEntry hfound
    { entry with active := none, dirty := !actor.tokens.isCancelled entry.cancellation } rfl
  have hevent := hset.event (some stamp.subscription) (some stamp)
    (.staleResultRejected stamp.source actor.current)
  cases hcancelled : actor.tokens.isCancelled entry.cancellation with
  | false =>
      rw [hcancelled] at hevent
      simp only [rejectStale, hcancelled, Bool.not_false, if_true]
      exact ⟨hevent.enqueue stamp.subscription, by simp⟩
  | true =>
      rw [hcancelled] at hevent
      simp only [rejectStale, hcancelled, Bool.not_true, Bool.false_eq_true, if_false]
      exact ⟨hevent, by simp⟩

theorem rejectStale_tokens (stamp : RouteJobStamp) :
    (actor.rejectStale stamp entry).tokens = actor.tokens := by
  cases hcancelled : actor.tokens.isCancelled entry.cancellation <;>
    simp [rejectStale, hcancelled]

theorem leaves_install {stamp : RouteJobStamp}
    (hfound : actor.entries.lookup stamp.subscription = some entry)
    (result : Except RouteSearchFailure StreamingSearchReport) :
    actor.Leaves (actor.install stamp entry result) stamp.subscription entry
      (actor.installedEntry stamp entry result) (some (installedState stamp result)) [] := by
  cases result with
  | ok report => exact (leaves_publish actor hfound _ _).event _ _ _
  | error failure => exact (leaves_publish actor hfound _ _).event _ _ _

theorem install_tokens (stamp : RouteJobStamp) (entry : RouteEntry G)
    (result : Except RouteSearchFailure StreamingSearchReport) :
    (actor.install stamp entry result).tokens = actor.tokens := by
  cases result <;> simp [install]

theorem install_queue (stamp : RouteJobStamp) (entry : RouteEntry G)
    (result : Except RouteSearchFailure StreamingSearchReport) :
    (actor.install stamp entry result).queue = actor.queue := by
  cases result <;> simp [install]

/-- A completion is ignored, or its job was active.  Then it is rejected, or it
is current and installed. -/
theorem handleCompleted_cases (actor : LiveRouteActor G) (stamp : RouteJobStamp)
    (result : Except RouteSearchFailure StreamingSearchReport) :
    (actor.handleCompleted stamp result = actor ∧
      ∀ entry active, ¬ actor.Runs stamp entry active) ∨
    ∃ entry active, actor.Runs stamp entry active ∧
      (actor.handleCompleted stamp result).tokens = actor.tokens ∧
      ((actor.Leaves (actor.handleCompleted stamp result) stamp.subscription entry
          { entry with
            active := none
            dirty := !actor.tokens.isCancelled entry.cancellation } none [] ∧
        (actor.handleCompleted stamp result).queue =
          if !actor.tokens.isCancelled entry.cancellation then
            actor.queue.enqueue stamp.subscription
          else actor.queue) ∨
      (actor.Current stamp entry active ∧
        actor.Leaves (actor.handleCompleted stamp result) stamp.subscription entry
          (actor.installedEntry stamp entry result) (some (installedState stamp result)) [] ∧
        (actor.handleCompleted stamp result).queue = actor.queue)) := by
  cases hfound : actor.entries.lookup stamp.subscription with
  | none =>
      refine Or.inl ⟨by simp [handleCompleted, hfound], ?_⟩
      intro entry active hruns
      cases hruns.found.symm.trans hfound
  | some entry =>
      by_cases hactive : entry.active.any fun active => active.stamp = stamp
      · obtain ⟨active, hrunning, hnames⟩ := (Option.any_eq_true _ _).mp hactive
        have hruns : actor.Runs stamp entry active :=
          ⟨hfound, hrunning, of_decide_eq_true hnames⟩
        refine Or.inr ⟨entry, active, hruns, ?_⟩
        unfold handleCompleted
        simp only [hfound, hactive, if_true]
        split
        · exact ⟨by simp [rejectStale_tokens], Or.inl (leaves_rejectStale hfound)⟩
        · rename_i hcurrent
          simp only [not_or, ne_eq, not_not, Bool.not_eq_true] at hcurrent
          obtain ⟨hsource, hepoch, hsubscribed⟩ := hcurrent
          exact ⟨install_tokens stamp entry result, Or.inr
            ⟨⟨hruns, hsource, hepoch, hsubscribed⟩, leaves_install hfound result,
              install_queue stamp entry result⟩⟩
      · refine Or.inl ⟨by simp [handleCompleted, hfound, hactive], ?_⟩
        intro other active hruns
        obtain rfl : other = entry := Option.some.inj (hruns.found.symm.trans hfound)
        simp [hruns.running, hruns.names] at hactive

/-- A handler removed a subscription and published its last state. -/
structure Removes (before after : LiveRouteActor G) (id : RouteSubscriptionId)
    (old : RouteEntry G) (state : RouteSubscriptionState) : Prop where
  found : before.entries.lookup id = some old
  lookup : ∀ other, after.entries.lookup other =
    if other = id then none else before.entries.lookup other
  published : after.published = before.published ++ [before.nextSnapshot id old.epoch state]
  sequence : saturatingNext before.sequence ≤ after.sequence
  tokens : after.tokens =
    (before.tokens.cancel old.cancellation).cancelActive old.active
  queue : after.queue = before.queue
  jobs : after.jobs = before.jobs
  submitted : after.submitted = before.submitted
  frame : after.frame = before.frame

theorem Removes.view {state : RouteSubscriptionState}
    (hremoves : before.Removes after id old state) : after.view = before.view :=
  congrArg ActorFrame.view hremoves.frame

theorem Removes.live {state : RouteSubscriptionState}
    (hremoves : before.Removes after id old state) : after.live = before.live :=
  congrArg ActorFrame.live hremoves.frame

theorem Removes.nextSubscription {state : RouteSubscriptionState}
    (hremoves : before.Removes after id old state) :
    after.nextSubscription = before.nextSubscription :=
  congrArg ActorFrame.nextSubscription hremoves.frame

theorem Removes.event {state : RouteSubscriptionState}
    (hremoves : before.Removes after id old state) (subscription : Option RouteSubscriptionId)
    (stamp : Option RouteJobStamp) (kind : LiveRouteRuntimeEventKind) :
    before.Removes (after.publishEvent subscription stamp kind) id old state where
  found := hremoves.found
  lookup := hremoves.lookup
  published := hremoves.published
  sequence := hremoves.sequence.trans (le_saturatingNext _)
  tokens := hremoves.tokens
  queue := hremoves.queue
  jobs := hremoves.jobs
  submitted := hremoves.submitted
  frame := hremoves.frame

theorem removes_removeEntry (hfound : before.entries.lookup id = some old)
    (state : RouteSubscriptionState) :
    before.Removes (before.removeEntry id old state) id old state := by
  unfold removeEntry
  simp only [cancelActive_eq]
  exact ⟨hfound, lookup_erase_eq _ _, rfl, le_rfl, rfl, rfl, rfl, rfl, rfl⟩

/-- A cancellation finds no subscription, or removes it. -/
theorem cancelSubscription_cases (actor : LiveRouteActor G) (id : RouteSubscriptionId) :
    (actor.cancelSubscription id).2 = actor ∨
    ∃ old, actor.Removes (actor.cancelSubscription id).2 id old .cancelled := by
  unfold cancelSubscription
  cases hfound : actor.entries.lookup id with
  | none => exact Or.inl rfl
  | some old => exact Or.inr ⟨old, (removes_removeEntry hfound .cancelled).event _ _ _⟩

/-- The body of the closing loop finds no subscription, or removes it. -/
theorem closeEntry_cases (actor : LiveRouteActor G) (id : RouteSubscriptionId) :
    (actor.entries.lookup id = none ∧ actor.closeEntry id = actor) ∨
    ∃ old, actor.Removes (actor.closeEntry id) id old actor.closedState := by
  unfold closeEntry
  cases hfound : actor.entries.lookup id with
  | none => exact Or.inl ⟨rfl, rfl⟩
  | some old =>
      have hremoved := removes_removeEntry hfound actor.closedState
      refine Or.inr ⟨old, ?_⟩
      simp only
      split
      · exact hremoved.event _ _ _
      · exact hremoved

/-- The entry of a new subscription. -/
def initialEntry (actor : LiveRouteActor G) (spec : RouteSubscriptionSpec) : RouteEntry G where
  spec := spec
  epoch := 0
  nextJob := 0
  active := none
  dirty := true
  trigger := .initial
  lastReady := none
  snapshots := actor.nextSnapshot actor.nextSubscription 0 (.pending actor.current none)
  cancellation := ⟨actor.tokens.next, some actor.nextSubscription⟩

/-- A new subscription was accepted. -/
structure Accepts (before after : LiveRouteActor G) (spec : RouteSubscriptionSpec) : Prop where
  lookup : ∀ other, after.entries.lookup other =
    if other = before.nextSubscription then some (before.initialEntry spec)
    else before.entries.lookup other
  published : after.published = before.published ++ [(before.initialEntry spec).snapshots]
  sequence : saturatingNext before.sequence ≤ after.sequence
  tokens : after.tokens = { before.tokens with next := before.tokens.next + 1 }
  queue : after.queue = before.queue.enqueue before.nextSubscription
  jobs : after.jobs = before.jobs
  submitted : after.submitted = before.submitted
  view : after.view = before.view
  live : after.live = before.live
  nextSubscription : after.nextSubscription = before.nextSubscription + 1

/-- A subscription is refused, or it is accepted under the next id. -/
theorem addSubscription_cases (actor : LiveRouteActor G) (spec : RouteSubscriptionSpec) :
    ((actor.addSubscription spec).2 = actor ∧
      (actor.addSubscription spec).1.toOption = none) ∨
    (actor.Accepts (actor.addSubscription spec).2 spec ∧
      (actor.addSubscription spec).1.toOption =
        some ⟨actor.nextSubscription, (actor.initialEntry spec).cancellation⟩) := by
  unfold addSubscription
  split
  · exact Or.inl ⟨rfl, rfl⟩
  · simp only
    cases hnext : checkedNext actor.nextSubscription with
    | none => exact Or.inl ⟨rfl, rfl⟩
    | some next =>
        obtain rfl : next = actor.nextSubscription + 1 := eq_succ_of_checkedNext hnext
        refine Or.inr ⟨?_, rfl⟩
        simp only [enqueuePending]
        split
        · rename_i hqueued
          refine ⟨fun other => lookup_insert_eq _ _ other _, rfl, le_saturatingNext _, rfl, ?_,
            rfl, rfl, rfl, rfl, rfl⟩
          exact (if_pos hqueued).symm
        · rename_i hqueued
          refine ⟨fun other => lookup_insert_eq _ _ other _, rfl, le_saturatingNext _, rfl, ?_,
            rfl, rfl, rfl, rfl, rfl⟩
          exact (if_neg hqueued).symm

end LiveRouteActor

end AmmSearch
