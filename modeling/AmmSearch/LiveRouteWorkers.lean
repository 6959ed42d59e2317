/-
The searches of the live route workers, and what they search.  A job carries the view of a
published snapshot and the spec of its subscription, through every handler of the actor.
-/
import AmmSearch.LiveGraphRebuild
import AmmSearch.LiveRouteFence
import AmmSearch.StreamedRoutes

open FiniteMap StableGraph

namespace AmmSearch

variable {G : Type}

/-- What the environment decides for one search: the ties of its hash maps, the turns of its
threads, the polls that find its job cancelled, and the events that its callback refuses. -/
structure SearchTurns where
  groupOrder :
    HeuristicPassMode → RoutePath → List HeuristicHopGroup → List HeuristicHopGroup
  groupOrder_perm : ∀ mode path groups, (groupOrder mode path groups).Perm groups
  schedule : List FanIn.Event
  cancelled : ℕ → Bool
  refused : ℕ → Bool

/-- Neither the job nor its subscription is cancelled, and the actor takes every event. -/
structure SearchTurns.Undisturbed (turns : SearchTurns) : Prop where
  cancelled : ∀ count, turns.cancelled count = false
  refused : ∀ count, turns.refused count = false

/-- The callback of a worker, on the number of its calls. -/
def SearchTurns.onEvent (turns : SearchTurns) : EventCallback ℕ :=
  fun count _ => (count + 1, if turns.refused count then .stop else .continue)

def liveQuoteContext (snapshot : AmmStateSnapshot) : QuoteKeyContext :=
  .live snapshot.point snapshot.registry.poolInstance snapshot.poolRevision

/-- A searcher of the view, without rebuilding its quote scope. -/
def LiveSearchView.searcher (debug : DebugText) (turns : SearchTurns)
    (view : LiveSearchView G) : AmmSearcher G where
  registry := view.snapshot.registry.registry
  graph := view.graph
  liquidityIndex := some view.liquidity
  quoteContext := liveQuoteContext view.snapshot
  debug := debug
  groupOrder := turns.groupOrder
  groupOrder_perm := turns.groupOrder_perm

def routeSearchFailureMessage (debug : DebugText) (error : SearchError) : Text :=
  match error with
  | .noViableRoute candidates failures =>
      "no viable route among ".toList ++ (Nat.repr candidates).toList ++
        " candidates: ".toList ++
        (failures.head?.map PathFailure.reason).getD "all candidates failed".toList
  | error => error.display debug

/-- The failure of a search that ended with an error. -/
def searchFailure (debug : DebugText) (error : SearchError) : RouteSearchFailure where
  message := String.ofList (routeSearchFailureMessage debug error)
  workerPanicked := false

def routeWorkerPanicked : RouteSearchFailure where
  message := "route worker panicked"
  workerPanicked := true

/-- The streaming controls of a worker: it searches with one thread. -/
def RouteSubscriptionSpec.workerStreaming (spec : RouteSubscriptionSpec) :
    StreamingSearchConfig :=
  { spec.streaming with parallel := { spec.streaming.parallel with workers := 1 } }

/-- The job searches for what the spec asks. -/
structure RouteWorkerJob.MadeFor (job : RouteWorkerJob G) (spec : RouteSubscriptionSpec) :
    Prop where
  request : job.request = spec.request
  streaming : job.streaming = spec.workerStreaming

/-- The graph and the liquidity of a view are those of a live graph that stands for its
snapshot. -/
structure LiveSearchView.Pictures [StableDiGraph G Address EdgeData]
    (publish : ℕ → AmmStateSnapshot) (options : GraphBuildOptions) (live : LiveAmmGraph G)
    (view : LiveSearchView G) : Prop where
  represents : live.Represents publish
  options : live.options = options
  scope : live.liquidityScope = .parallelEdgeOutputs
  eq : view = ⟨publish live.stateVersion, live.graph, live.liquidity⟩

section Searching

variable [StableDiGraph G Address EdgeData]

/-- Search one snapshot while its runtime may interrupt it. -/
def AmmSearcher.streamRoutesSnapshotCancellable {κ : Type} (searcher : AmmSearcher G)
    (request : RouteRequest) (streaming : StreamingSearchConfig) (schedule : List FanIn.Event)
    (isCancelled : ℕ → Bool) (onEvent : EventCallback κ) (callback : κ) :
    κ × Except SearchError StreamingSearchReport :=
  let result := searcher.streamRoutesParallelWithCache request streaming schedule onEvent
    (some fun count => !isCancelled count) callback
  (result.1, result.2.map StreamingRunReport.report)

/-- The search of `route_worker`.  Its callback keeps the events that it was given. -/
def RouteWorkerJob.search (debug : DebugText) (job : RouteWorkerJob G)
    (turns : SearchTurns) : Except SearchError StreamingSearchReport :=
  ((job.view.searcher debug turns).streamRoutesSnapshotCancellable job.request job.streaming
    turns.schedule turns.cancelled (logged turns.onEvent) (0, [])).2

/-- What `route_worker` can send when a job ends: it skips a job that is stopped already, a
search returns or panics, and nothing disturbs a search whose job is not stopped. -/
inductive RouteWorkerJob.Returns (debug : DebugText) (job : RouteWorkerJob G)
    (stopped : Prop) : Except RouteSearchFailure StreamingSearchReport → Prop
  | skipped (noticed : stopped) : Returns debug job stopped (.error cancelledBeforeExecution)
  | found {turns : SearchTurns} {report : StreamingSearchReport}
      (undisturbed : ¬ stopped → turns.Undisturbed)
      (search : job.search debug turns = .ok report) : Returns debug job stopped (.ok report)
  | failed {turns : SearchTurns} {error : SearchError}
      (undisturbed : ¬ stopped → turns.Undisturbed)
      (search : job.search debug turns = .error error) :
      Returns debug job stopped (.error (searchFailure debug error))
  | panicked : Returns debug job stopped (.error routeWorkerPanicked)

theorem RouteWorkerJob.Returns.mono {debug : DebugText} {job : RouteWorkerJob G}
    {stopped later : Prop} {result : Except RouteSearchFailure StreamingSearchReport}
    (hreturns : job.Returns debug stopped result) (hlater : stopped → later) :
    job.Returns debug later result := by
  cases hreturns with
  | skipped noticed => exact .skipped (hlater noticed)
  | found undisturbed search =>
      exact .found (fun hrunning => undisturbed fun hstopped => hrunning (hlater hstopped)) search
  | failed undisturbed search =>
      exact .failed (fun hrunning => undisturbed fun hstopped => hrunning (hlater hstopped)) search
  | panicked => exact .panicked

end Searching

/-- The commit of an input, if any, is a published one. -/
def LiveRouteActorInput.Faithful (publish : ℕ → AmmStateSnapshot)
    (input : LiveRouteActorInput) : Prop :=
  match input with
  | LiveRouteActorInput.commit (some drawn) =>
      LiveAmmGraph.Call.Published publish (.applyCommit drawn.2)
  | LiveRouteActorInput.worker _ (some drawn) =>
      LiveAmmGraph.Call.Published publish (.applyCommit drawn.2)
  | _ => True

namespace LiveRouteActor

variable [StableDiGraph G Address EdgeData] {publish : ℕ → AmmStateSnapshot}
  {options : GraphBuildOptions} {actor before after : LiveRouteActor G}
  {id : RouteSubscriptionId} {old entry : RouteEntry G} {lineage : ℕ}
  {shown : Option RouteSubscriptionState}

/-- The view pictures the live graph, the views of all jobs pictured one when they were
made, and the jobs of the current epoch of an entry are made for its spec. -/
structure Grounded (publish : ℕ → AmmStateSnapshot) (options : GraphBuildOptions)
    (actor : LiveRouteActor G) : Prop where
  view : actor.view.Pictures publish options actor.live
  jobs : ∀ job ∈ actor.submitted, ∃ live, job.view.Pictures publish options live
  subscriptions : ∀ job ∈ actor.submitted, job.stamp.subscription < actor.nextSubscription
  epochs : ∀ job ∈ actor.submitted, ∀ entry,
    actor.entries.lookup job.stamp.subscription = some entry →
      job.stamp.epoch ≤ entry.epoch ∧
        (job.stamp.epoch = entry.epoch → job.MadeFor entry.spec)

/-- An entry asks for the same, or it began a later epoch. -/
def Continues (old entry : RouteEntry G) : Prop :=
  (entry.epoch = old.epoch ∧ entry.spec = old.spec) ∨ old.epoch < entry.epoch

/-- No job is added, and every entry continues one or is new. -/
structure Keeps (before after : LiveRouteActor G) : Prop where
  submitted : after.submitted = before.submitted
  nextSubscription : before.nextSubscription ≤ after.nextSubscription
  entries : ∀ id entry, after.entries.lookup id = some entry →
    (∃ old, before.entries.lookup id = some old ∧ Continues old entry) ∨
      before.nextSubscription ≤ id

/-- Besides, the live graph and the view stay. -/
structure Stays (before after : LiveRouteActor G) : Prop extends Keeps before after where
  live : after.live = before.live
  view : after.view = before.view

section Stays

omit [StableDiGraph G Address EdgeData]

theorem Continues.refl (entry : RouteEntry G) : Continues entry entry :=
  Or.inl ⟨rfl, rfl⟩

theorem Continues.trans {last : RouteEntry G} (hfirst : Continues old entry)
    (hsecond : Continues entry last) : Continues old last := by
  rcases hfirst with ⟨hepoch, hspec⟩ | hlater
  · rcases hsecond with ⟨hsame, hkept⟩ | hlast
    · exact Or.inl ⟨hsame.trans hepoch, hkept.trans hspec⟩
    · exact Or.inr (hepoch ▸ hlast)
  · rcases hsecond with ⟨hsame, _⟩ | hlast
    · exact Or.inr (hsame ▸ hlater)
    · exact Or.inr (hlater.trans hlast)

theorem Stays.quiet (same : before.Quiet after) : before.Stays after := by
  refine ⟨⟨same.submitted, same.nextSubscription.ge, ?_⟩, same.live, same.view⟩
  intro id entry hentry
  rw [same.entries] at hentry
  exact Or.inl ⟨entry, hentry, .refl entry⟩

theorem Stays.refl (actor : LiveRouteActor G) : actor.Stays actor :=
  .quiet ⟨rfl, rfl, rfl, rfl, rfl, le_rfl, rfl, le_rfl, rfl, rfl⟩

theorem Stays.trans (hfirst : before.Stays actor) (hsecond : actor.Stays after) :
    before.Stays after := by
  refine ⟨⟨hsecond.submitted.trans hfirst.submitted,
    hfirst.nextSubscription.trans hsecond.nextSubscription, ?_⟩,
    hsecond.live.trans hfirst.live, hsecond.view.trans hfirst.view⟩
  intro id entry hentry
  rcases hsecond.entries id entry hentry with ⟨middle, hmiddle, hlater⟩ | hnew
  · exact (hfirst.entries id middle hmiddle).imp_left fun ⟨old, hold, hcontinues⟩ =>
      ⟨old, hold, hcontinues.trans hlater⟩
  · exact Or.inr (hfirst.nextSubscription.trans hnew)

theorem Stays.leaves (hleaves : before.Leaves after id old entry shown [])
    (hcontinues : Continues old entry) : before.Stays after := by
  refine ⟨⟨hleaves.submitted.trans (List.append_nil _), hleaves.nextSubscription.ge, ?_⟩,
    hleaves.live, hleaves.view⟩
  intro other found hfound
  rcases hleaves.entry_cases hfound with ⟨rfl, rfl⟩ | ⟨_, hold⟩
  · exact Or.inl ⟨old, hleaves.found, hcontinues⟩
  · exact Or.inl ⟨found, hold, .refl found⟩

theorem Stays.removes {state : RouteSubscriptionState}
    (hremoves : before.Removes after id old state) : before.Stays after := by
  refine ⟨⟨hremoves.submitted, hremoves.nextSubscription.ge, ?_⟩, hremoves.live, hremoves.view⟩
  intro other found hfound
  rw [hremoves.lookup] at hfound
  split at hfound
  · cases hfound
  · exact Or.inl ⟨found, hfound, .refl found⟩

theorem Stays.accepts {spec : RouteSubscriptionSpec} (haccepts : before.Accepts after spec) :
    before.Stays after := by
  refine ⟨⟨haccepts.submitted, (Nat.le_succ _).trans haccepts.nextSubscription.ge, ?_⟩,
    haccepts.live, haccepts.view⟩
  intro other found hfound
  rw [haccepts.lookup] at hfound
  split at hfound
  · rename_i hnew
    exact Or.inr hnew.ge
  · exact Or.inl ⟨found, hfound, .refl found⟩

theorem stays_handleWorkerMessage (actor : LiveRouteActor G) (message : RouteWorkerMessage) :
    actor.Stays (actor.handleWorkerMessage message) := by
  cases message with
  | event stamp event =>
      rcases handleEvent_cases actor stamp event with hsame | ⟨_, _, _, _, hleaves, _⟩
      · rw [handleWorkerMessage, hsame]
        exact .refl actor
      · exact .leaves hleaves (Or.inl ⟨rfl, rfl⟩)
  | completed stamp result =>
      rcases handleCompleted_cases actor stamp result with
        ⟨hsame, _⟩ | ⟨_, _, _, _, ⟨hleaves, _⟩ | ⟨_, hleaves, _⟩⟩
      · rw [handleWorkerMessage, hsame]
        exact .refl actor
      · exact .leaves hleaves (Or.inl ⟨rfl, rfl⟩)
      · exact .leaves hleaves (Or.inl ⟨rfl, rfl⟩)

theorem stays_cancelSubscription (actor : LiveRouteActor G) (id : RouteSubscriptionId) :
    actor.Stays (actor.cancelSubscription id).2 := by
  rcases cancelSubscription_cases actor id with hsame | ⟨_, hremoves⟩
  · rw [hsame]
    exact .refl actor
  · exact .removes hremoves

theorem stays_invalidate (actor : LiveRouteActor G) (id : RouteSubscriptionId) :
    actor.Stays (actor.invalidate id) := by
  cases hfound : actor.entries.lookup id with
  | none =>
      simp only [invalidate, publishSnapshot, hfound]
      exact .quiet ⟨rfl, rfl, rfl, rfl, rfl, le_saturatingNext _, rfl, le_rfl, rfl, rfl⟩
  | some entry => exact .leaves (leaves_invalidate hfound) (Or.inl ⟨rfl, rfl⟩)

theorem stays_closeEntry (actor : LiveRouteActor G) (id : RouteSubscriptionId) :
    actor.Stays (actor.closeEntry id) := by
  rcases closeEntry_cases actor id with ⟨_, hsame⟩ | ⟨_, hremoves⟩
  · rw [hsame]
    exact .refl actor
  · exact .removes hremoves

theorem stays_foldl {body : LiveRouteActor G → RouteSubscriptionId → LiveRouteActor G}
    (hbody : ∀ (actor : LiveRouteActor G) (id : RouteSubscriptionId),
      actor.Stays (body actor id)) (ids : List RouteSubscriptionId)
    (actor : LiveRouteActor G) : actor.Stays (ids.foldl body actor) := by
  induction ids generalizing actor with
  | nil => exact .refl actor
  | cons id rest ih => exact (hbody actor id).trans (ih (body actor id))

theorem stays_handleCommand (actor : LiveRouteActor G) (command : RouteCommand) :
    actor.Stays (actor.handleCommand command).actor := by
  cases command with
  | subscribe spec =>
      rcases addSubscription_cases actor spec with ⟨hsame, _⟩ | ⟨haccepts, _⟩
      · rw [handleCommand, hsame]
        exact .refl actor
      · exact .accepts haccepts
  | cancel id => exact stays_cancelSubscription actor id
  | replace id spec =>
      rcases replaceSubscription_cases actor id spec with hsame | ⟨_, hleaves, _⟩
      · rw [handleCommand, hsame]
        exact .refl actor
      · exact .leaves hleaves (Or.inr (Nat.lt_succ_self _))
  | shutdown => exact .refl actor

theorem stays_close (actor : LiveRouteActor G) : actor.Stays actor.close := by
  have hclosed := stays_foldl stays_closeEntry (ascending actor.entries.keys) actor
  unfold close
  split
  · exact hclosed
  · exact hclosed.trans (.quiet (quiet_event _ _ _ _))

end Stays

/-- What a view pictures may change; the jobs and the entries are kept. -/
theorem Grounded.keeps (hgrounded : before.Grounded publish options)
    (hkeeps : before.Keeps after) (hview : after.view.Pictures publish options after.live) :
    after.Grounded publish options := by
  refine ⟨hview, ?_, ?_, ?_⟩
  · rw [hkeeps.submitted]
    exact hgrounded.jobs
  · rw [hkeeps.submitted]
    exact fun job hjob => (hgrounded.subscriptions job hjob).trans_le hkeeps.nextSubscription
  · rw [hkeeps.submitted]
    intro job hjob entry hentry
    rcases hkeeps.entries _ entry hentry with ⟨old, hold, hcontinues⟩ | hnew
    · obtain ⟨hepoch, hmade⟩ := hgrounded.epochs job hjob old hold
      rcases hcontinues with ⟨hsame, hspec⟩ | hlater
      · rw [hsame, hspec]
        exact ⟨hepoch, hmade⟩
      · exact ⟨hepoch.trans hlater.le, fun heq => absurd (heq ▸ hepoch) (not_le.mpr hlater)⟩
    · exact absurd (hgrounded.subscriptions job hjob) (not_lt.mpr hnew)

theorem Grounded.stays (hgrounded : before.Grounded publish options)
    (hstays : before.Stays after) : after.Grounded publish options := by
  refine hgrounded.keeps hstays.toKeeps ?_
  rw [hstays.live, hstays.view]
  exact hgrounded.view

/-- The job of an entry has the view of the actor and the spec of the entry. -/
theorem Grounded.submit {job : RouteWorkerJob G} {next : ℕ}
    (hgrounded : actor.Grounded publish options) (hrecorded : id < actor.nextSubscription)
    (hfound : actor.entries.lookup id = some entry)
    (hnext : actor.nextJob id entry = some (job, next)) :
    (actor.submit id entry job next).Grounded publish options := by
  have hprepared := prepared_of_nextJob hnext
  have hleaves := leaves_submit hfound job next
  have hmade : job.MadeFor entry.spec := by
    obtain ⟨counter, -, hjob⟩ := Option.map_eq_some_iff.mp hnext
    obtain ⟨rfl, -⟩ := Prod.mk.inj hjob
    exact ⟨rfl, rfl⟩
  have hsubscription : job.stamp.subscription = id := by rw [hprepared.stamp]
  have hepoch : job.stamp.epoch = entry.epoch := by rw [hprepared.stamp]
  refine ⟨?_, ?_, ?_, ?_⟩
  · rw [hleaves.live, hleaves.view]
    exact hgrounded.view
  · rw [hleaves.submitted]
    intro other hother
    rcases List.mem_append.mp hother with hold | hnew
    · exact hgrounded.jobs other hold
    · rw [List.mem_singleton.mp hnew, hprepared.view]
      exact ⟨_, hgrounded.view⟩
  · rw [hleaves.submitted, hleaves.nextSubscription]
    intro other hother
    rcases List.mem_append.mp hother with hold | hnew
    · exact hgrounded.subscriptions other hold
    · rw [List.mem_singleton.mp hnew, hsubscription]
      exact hrecorded
  · rw [hleaves.submitted]
    intro other hother found hafter
    rcases List.mem_append.mp hother with hold | hnew
    · rcases hleaves.entry_cases hafter with ⟨hid, rfl⟩ | ⟨_, hbefore⟩
      · rw [hid] at hafter
        exact hgrounded.epochs other hold entry (by rw [hid]; exact hfound)
      · exact hgrounded.epochs other hold found hbefore
    · obtain rfl := List.mem_singleton.mp hnew
      rw [hsubscription, hleaves.lookup_self] at hafter
      obtain rfl := Option.some.inj hafter
      exact ⟨hepoch.le, fun _ => hmade⟩

theorem Grounded.scheduleLoop {ids : List RouteSubscriptionId}
    (hgrounded : actor.Grounded publish options) (hlogged : actor.Logged)
    (answers : List Bool) : (scheduleLoop ids answers actor).Grounded publish options := by
  induction ids generalizing answers actor with
  | nil => exact hgrounded
  | cons id rest ih =>
      have hquiet : actor.Quiet (actor.pop id rest) :=
        ⟨rfl, rfl, rfl, rfl, rfl, le_rfl, rfl, le_rfl, rfl, rfl⟩
      have hpopped := hgrounded.stays (.quiet hquiet)
      have hkept : (actor.pop id rest).Logged := hlogged.handles (.quiet hquiet)
      rw [scheduleLoop_cons]
      cases hstartable : (actor.pop id rest).startable id with
      | none => exact ih hpopped hkept answers
      | some entry =>
          obtain ⟨hfound, hwaits⟩ := Option.filter_eq_some_iff.mp hstartable
          simp only
          cases hnext : (actor.pop id rest).nextJob id entry with
          | none => exact ih hpopped hkept answers
          | some prepared =>
              obtain ⟨job, next⟩ := prepared
              simp only
              split
              · have hwaits : entry.active = none := by
                  simpa using (Bool.and_eq_true_iff.mp hwaits).2
                exact ih (hpopped.submit (hkept.recorded.entries id entry hfound) hfound hnext)
                  (hkept.handles (.submit hfound hwaits (prepared_of_nextJob hnext))) _
              · have hrefused : (actor.pop id rest).Quiet
                    ((actor.pop id rest).withTokens (actor.tokens.allocate none).2) :=
                  ⟨rfl, rfl, rfl, rfl, rfl, le_rfl, rfl, Nat.le_succ _, rfl, rfl⟩
                exact (hpopped.stays (.quiet hrefused)).stays (.quiet (quiet_enqueue _ id))

/-- An accepted commit makes a published snapshot the view. -/
theorem applyCommit_pictures (hpublished : Published publish)
    (hgrounded : actor.Grounded publish options) {commit : AmmStateCommit}
    (hcommit : LiveAmmGraph.Call.Published publish (.applyCommit commit))
    {result : Except LiveRouteRuntimeError Unit}
    (happly : actor.applyCommit lineage commit = some (result, after)) :
    after = actor ∨ ∃ delta live view, view.Pictures publish options live ∧
      (actor.advance commit delta live view).Stays after := by
  unfold applyCommit at happly
  cases hcall : actor.live.applyCommit lineage commit with
  | none => simp [hcall] at happly
  | some outcome =>
      obtain ⟨outcome, live⟩ := outcome
      have hrequest : actor.live.call lineage (.applyCommit commit) = some (outcome, live) :=
        hcall
      have hrepresents := hgrounded.view.represents.call hpublished hcommit hrequest
      rcases LiveAmmGraph.outcome_call hrequest with
        ⟨error, hresult⟩ | ⟨hruntime, _, haccepts⟩
      · obtain ⟨rfl, rfl⟩ := Prod.mk.inj hresult
        rw [hcall] at happly
        cases happly
        exact Or.inl rfl
      · obtain ⟨delta, hok⟩ := haccepts.exists_delta
        simp only at hok
        subst hok
        have hcommitted := haccepts.committed
        have hmatches : live.matchesSnapshot commit.snapshot = true := by
          simp only [LiveAmmGraph.matchesSnapshot, decide_eq_true_eq]
          exact ⟨hcommitted.kept.1.trans hruntime.symm, hcommitted.state⟩
        simp only [hcall, liveSearchView, LiveSearchView.new, hmatches, if_true] at happly
        cases happly
        refine Or.inr ⟨delta, live, _, ⟨hrepresents, ?_, ?_, ?_⟩, stays_foldl stays_invalidate _ _⟩
        · rw [hcommitted.kept.2.1, hgrounded.view.options]
        · rw [hcommitted.kept.2.2, hgrounded.view.scope]
        · have hsnapshot : commit.snapshot = publish live.stateVersion := by
            rw [hcommitted.state.1]
            exact hcommit.1
          rw [hsnapshot]

theorem Grounded.applyCommit (hpublished : Published publish)
    (hgrounded : actor.Grounded publish options) {commit : AmmStateCommit}
    (hcommit : LiveAmmGraph.Call.Published publish (.applyCommit commit))
    {result : Except LiveRouteRuntimeError Unit}
    (happly : actor.applyCommit lineage commit = some (result, after)) :
    after.Grounded publish options := by
  rcases applyCommit_pictures hpublished hgrounded hcommit happly with
    rfl | ⟨delta, live, view, hpictures, hstays⟩
  · exact hgrounded
  · have hadvanced : (actor.advance commit delta live view).Grounded publish options :=
      hgrounded.keeps ⟨rfl, le_rfl, fun _ entry hentry => Or.inl ⟨entry, hentry, .refl entry⟩⟩
        hpictures
    exact hadvanced.stays hstays

theorem Grounded.applyOrFail (hpublished : Published publish)
    (hgrounded : actor.Grounded publish options) {commit : DrawnCommit}
    (hcommit : LiveAmmGraph.Call.Published publish (.applyCommit commit.2))
    {applied : Bool × LiveRouteActor G} (happly : actor.applyOrFail commit = some applied) :
    applied.2.Grounded publish options := by
  obtain ⟨⟨result, next⟩, hcommitted, rfl⟩ := Option.map_eq_some_iff.mp happly
  have hnext := hgrounded.applyCommit hpublished hcommit hcommitted
  cases result with
  | ok _ => exact hnext
  | error error => exact hnext.stays (.quiet (quiet_fail next error))

/-- Turns on published commits keep the actor grounded. -/
theorem Grounded.of_turn (hpublished : Published publish)
    (hgrounded : actor.Grounded publish options) {input : LiveRouteActorInput}
    (hinput : input.Faithful publish) {ended : LiveRouteTurn G}
    (hturn : actor.turn input = some ended) : ended.actor.Grounded publish options := by
  unfold LiveRouteActor.turn at hturn
  split at hturn
  · cases hturn
    exact hgrounded
  · obtain ⟨applied, happly, rfl⟩ := Option.map_eq_some_iff.mp hturn
    exact hgrounded.applyOrFail hpublished hinput happly
  · cases hturn
    exact hgrounded
  · cases hturn
    exact hgrounded.stays (stays_handleCommand actor _)
  · cases hturn
    exact hgrounded
  · cases hturn
    exact hgrounded.stays (stays_cancelSubscription actor _)
  · cases hturn
    exact hgrounded
  · cases hturn
    exact hgrounded.stays (stays_handleWorkerMessage actor _)
  · obtain ⟨applied, happly, rfl⟩ := Option.map_eq_some_iff.mp hturn
    have happlied := hgrounded.applyOrFail hpublished hinput happly
    split
    · exact happlied.stays (stays_handleWorkerMessage applied.2 _)
    · exact happlied

theorem Grounded.endTurn {ended : LiveRouteTurn G}
    (hgrounded : ended.actor.Grounded publish options) (hlogged : ended.actor.Logged)
    (answers : List Bool) : (endTurn ended answers).Grounded publish options := by
  unfold LiveRouteActor.endTurn
  split
  · exact hgrounded.scheduleLoop hlogged answers
  · exact hgrounded.stays (stays_close ended.actor)

/-- A job that runs for an entry is made for the spec of the entry, whether or not a commit
came before. -/
theorem Grounded.madeFor {job : RouteWorkerJob G} (hgrounded : actor.Grounded publish options)
    {moment : LiveRouteActor G}
    (hmoment : moment = actor ∨ ∃ lineage commit,
      actor.applyCommit lineage commit = some (.ok (), moment))
    (hruns : moment.RunsFor job entry) :
    job ∈ actor.submitted ∧ ∃ old, actor.entries.lookup job.stamp.subscription = some old ∧
      job.stamp.epoch = old.epoch ∧ job.MadeFor old.spec := by
  have hkeeps : actor.Keeps moment := by
    rcases hmoment with rfl | ⟨lineage, commit, happly⟩
    · exact (Stays.refl _).toKeeps
    · rcases applyCommit_cases happly with
        ⟨⟨_, herror⟩, _⟩ | ⟨_, delta, live, view, _, _, rfl⟩
      · cases herror
      · have hstays := stays_foldl stays_invalidate (ascending actor.entries.keys)
          (actor.advance commit delta live view)
        exact ⟨hstays.submitted, hstays.nextSubscription, hstays.entries⟩
  have hsubmitted : job ∈ actor.submitted := hkeeps.submitted ▸ hruns.submitted
  refine ⟨hsubmitted, ?_⟩
  rcases hkeeps.entries _ entry hruns.found with ⟨old, hold, hcontinues⟩ | hnew
  · obtain ⟨hepoch, hmade⟩ := hgrounded.epochs job hsubmitted old hold
    rcases hcontinues with ⟨hsame, -⟩ | hlater
    · have hcurrent : job.stamp.epoch = old.epoch := hruns.epoch.trans hsame
      exact ⟨old, hold, hcurrent, hmade hcurrent⟩
    · exact absurd (hruns.epoch ▸ hepoch) (not_le.mpr hlater)
  · exact absurd (hgrounded.subscriptions job hsubmitted) (not_lt.mpr hnew)

end LiveRouteActor

end AmmSearch
