/-
The live route actor.  It owns the live search universe and the route
subscriptions, hands search jobs to a pool of workers, and decides which of
their messages become the published state of a subscription.
-/
import AmmSearch.LiveGraph
import AmmSearch.StreamingState

open FiniteMap StableGraph

namespace AmmSearch

abbrev RouteSubscriptionId := ℕ

abbrev RouteSearchJobId := ℕ

/-- An immutable view of one state for the workers. -/
structure LiveSearchView (G : Type) where
  snapshot : AmmStateSnapshot
  graph : AmmGraph G
  liquidity : PoolLiquidityIndex

/-- Complete AMM/search provenance represented by a route result. -/
structure RouteProvenance where
  runtimeId : ℕ
  stateVersion : ℕ
  point : AmmStatePoint
  graphVersion : GraphVersion
deriving DecidableEq

/-- The fence carried by one worker search and every progressive result. -/
structure RouteJobStamp where
  subscription : RouteSubscriptionId
  epoch : ℕ
  job : RouteSearchJobId
  source : RouteProvenance
deriving DecidableEq

structure VersionedRouteQuote where
  source : RouteProvenance
  quote : RouteQuote
deriving DecidableEq

/-- A shared flag.  The flag of a subscription announces it to the actor when
it is raised. -/
structure RouteCancellationToken where
  flag : ℕ
  cleanup : Option RouteSubscriptionId
deriving DecidableEq

/-- The flags that exist, and the ids announced to the actor. -/
structure CancellationTokens where
  raised : Finset ℕ
  next : ℕ
  cleanup : List RouteSubscriptionId

namespace CancellationTokens

def isCancelled (tokens : CancellationTokens) (token : RouteCancellationToken) : Bool :=
  token.flag ∈ tokens.raised

def request (tokens : CancellationTokens) (token : RouteCancellationToken) :
    CancellationTokens :=
  { tokens with raised := insert token.flag tokens.raised }

/-- Raise a flag; the first to do so announces its subscription. -/
def cancel (tokens : CancellationTokens) (token : RouteCancellationToken) :
    CancellationTokens :=
  { tokens.request token with
    cleanup :=
      if tokens.isCancelled token then tokens.cleanup
      else tokens.cleanup ++ token.cleanup.toList }

/-- A new flag, with the id that it announces. -/
def allocate (tokens : CancellationTokens) (cleanup : Option RouteSubscriptionId) :
    RouteCancellationToken × CancellationTokens :=
  (⟨tokens.next, cleanup⟩, { tokens with next := tokens.next + 1 })

end CancellationTokens

structure LiveRouteRuntimeConfig where
  workerThreads : ℕ
  jobQueueCapacity : ℕ := 64
  commandCapacity : ℕ := 64
  resultCapacity : ℕ := 256
  eventCapacity : ℕ := 512
  maxSubscriptions : ℕ := 1024

/-- Request and search controls retained by a subscription. -/
structure RouteSubscriptionSpec where
  request : RouteRequest
  streaming : StreamingSearchConfig

/-- Failure isolated to one route search attempt. -/
structure RouteSearchFailure where
  message : String
  workerPanicked : Bool
deriving DecidableEq

inductive LiveRouteRuntimeError
  | invalidConfig
  | liveGraph (error : LiveGraphError)
  | searchView (error : SearchError)
  | subscriptionCapacity
  | subscriptionNotFound (id : RouteSubscriptionId)
  | sequenceExhausted
deriving DecidableEq

def LiveRouteRuntimeConfig.validate (config : LiveRouteRuntimeConfig) :
    Except LiveRouteRuntimeError LiveRouteRuntimeConfig :=
  if config.workerThreads = 0 ∨ config.jobQueueCapacity = 0 ∨ config.commandCapacity = 0 ∨
      config.resultCapacity = 0 ∨ config.eventCapacity = 0 ∨ config.maxSubscriptions = 0 then
    .error .invalidConfig
  else .ok config

/-- Terminal coordinator failure; the error stands for its rendered message. -/
structure LiveRouteRuntimeFailure where
  error : LiveRouteRuntimeError
deriving DecidableEq

/-- Recoverable current state of one route subscription. -/
inductive RouteSubscriptionState
  | pending (source : RouteProvenance) (previous : Option VersionedRouteQuote)
  | searching (stamp : RouteJobStamp) (provisional previous : Option VersionedRouteQuote)
  | ready (source : RouteProvenance) (best : Option VersionedRouteQuote)
      (report : StreamingSearchReport)
  | failed (source : RouteProvenance) (failure : RouteSearchFailure)
  | cancelled
  | closed
  | runtimeFailed (failure : LiveRouteRuntimeFailure)
deriving DecidableEq

/-- Current required or accepted source, when the state bears one. -/
def RouteSubscriptionState.source : RouteSubscriptionState → Option RouteProvenance
  | pending source _ => some source
  | ready source _ _ => some source
  | failed source _ => some source
  | searching stamp _ _ => some stamp.source
  | cancelled | closed | runtimeFailed _ => none

/-- Recoverable latest-value publication for one route subscription. -/
structure RouteSubscriptionSnapshot (G : Type) where
  sequence : ℕ
  id : RouteSubscriptionId
  epoch : ℕ
  view : LiveSearchView G
  state : RouteSubscriptionState

/-- Why a quote became historical. -/
inductive RouteInvalidationReason
  | ammStateAdvanced
  | requestChanged
deriving DecidableEq

/-- Trigger for a fresh route search. -/
inductive RouteSearchTrigger
  | initial
  | ammCommit
  | requestChanged
deriving DecidableEq

inductive LiveRouteRuntimeEventKind
  | subscriptionAccepted
  | ammCommitApplied (changes : AmmChangeSet) (graphDelta : GraphDelta)
  | routeInvalidated (previous : RouteProvenance) (reason : RouteInvalidationReason)
  | searchScheduled (trigger : RouteSearchTrigger)
  | searchEvent (event : RouteSearchEvent)
  | routePublished (previous current : Option VersionedRouteQuote)
      (report : StreamingSearchReport)
  | staleResultRejected (produced current : RouteProvenance)
  | searchFailed (failure : RouteSearchFailure)
  | subscriptionCancelled
  | runtimeFailed (failure : LiveRouteRuntimeFailure)
  | runtimeClosed

/-- Sequenced event assigned only by the route coordinator. -/
structure LiveRouteRuntimeEvent where
  sequence : ℕ
  subscription : Option RouteSubscriptionId
  stamp : Option RouteJobStamp
  kind : LiveRouteRuntimeEventKind

structure ActiveRouteJob where
  stamp : RouteJobStamp
  cancellation : RouteCancellationToken
deriving DecidableEq

/-- One subscription; `snapshots` is its latest publication. -/
structure RouteEntry (G : Type) where
  spec : RouteSubscriptionSpec
  epoch : ℕ
  nextJob : ℕ
  active : Option ActiveRouteJob
  dirty : Bool
  trigger : RouteSearchTrigger
  lastReady : Option VersionedRouteQuote
  snapshots : RouteSubscriptionSnapshot G
  cancellation : RouteCancellationToken

structure RouteWorkerJob (G : Type) where
  stamp : RouteJobStamp
  view : LiveSearchView G
  request : RouteRequest
  streaming : StreamingSearchConfig
  subscriptionCancel : RouteCancellationToken
  cancellation : RouteCancellationToken

inductive RouteWorkerMessage
  | event (stamp : RouteJobStamp) (event : RouteSearchEvent)
  | completed (stamp : RouteJobStamp) (result : Except RouteSearchFailure StreamingSearchReport)
deriving DecidableEq

inductive RouteCommand
  | subscribe (spec : RouteSubscriptionSpec)
  | cancel (id : RouteSubscriptionId)
  | replace (id : RouteSubscriptionId) (spec : RouteSubscriptionSpec)
  | shutdown

/-- A subscription handed to its owner. -/
structure LiveRouteSubscription where
  id : RouteSubscriptionId
  cancellation : RouteCancellationToken
deriving DecidableEq

/-- The actor with the flags and the job queue it shares.  `published` and
`events` are all its publications, `submitted` all jobs the pool accepted. -/
structure LiveRouteActor (G : Type) where
  live : LiveAmmGraph G
  view : LiveSearchView G
  entries : Map RouteSubscriptionId (RouteEntry G)
  pending : List RouteSubscriptionId
  pendingSet : Finset RouteSubscriptionId
  nextSubscription : ℕ
  sequence : ℕ
  maxSubscriptions : ℕ
  terminalFailure : Option LiveRouteRuntimeFailure
  tokens : CancellationTokens
  jobs : List (RouteWorkerJob G)
  published : List (RouteSubscriptionSnapshot G)
  events : List LiveRouteRuntimeEvent
  submitted : List (RouteWorkerJob G)

/-- The quote that an event shows, if it is a best one. -/
def eventBest : RouteSearchEvent → Option RouteQuote
  | .bestUpdated _ quote _ _ => some quote
  | .initialResultsReady _ best _ => some best
  | _ => none

/-- The source of the quote that an entry shows or showed last. -/
def entryPublishedSource {G : Type} (entry : RouteEntry G) : Option RouteProvenance :=
  match entry.snapshots.state with
  | .searching stamp (some _) _ => some stamp.source
  | .ready source _ _ => some source
  | _ => entry.lastReady.map VersionedRouteQuote.source

variable {G : Type} [StableDiGraph G Address EdgeData]

/-- Capture one coherent snapshot, graph generation and liquidity view. -/
def LiveSearchView.new (snapshot : AmmStateSnapshot) (live : LiveAmmGraph G) :
    Except SearchError (LiveSearchView G) :=
  if live.matchesSnapshot snapshot then .ok ⟨snapshot, live.graph, live.liquidity⟩
  else .error .snapshotGraphMismatch

def RouteProvenance.fromView (view : LiveSearchView G) : RouteProvenance where
  runtimeId := view.snapshot.runtimeId
  stateVersion := view.snapshot.version
  point := view.snapshot.point
  graphVersion := view.graph.version

/-- A failed view leaves the error of the search as a message. -/
def liveSearchView (snapshot : AmmStateSnapshot) (live : LiveAmmGraph G) :
    Except LiveRouteRuntimeError (LiveSearchView G) :=
  match LiveSearchView.new snapshot live with
  | .error error => .error (.searchView error)
  | .ok view => .ok view

namespace LiveRouteActor

/-- The actor that `spawn` starts on the baseline of its AMM subscription. -/
def spawn (lineage : ℕ) (snapshot : AmmStateSnapshot) (options : GraphBuildOptions)
    (config : LiveRouteRuntimeConfig) : Except LiveRouteRuntimeError (LiveRouteActor G) :=
  match config.validate with
  | .error error => .error error
  | .ok config =>
      match LiveAmmGraph.fromSnapshot lineage snapshot options with
      | .error error => .error (.liveGraph error)
      | .ok live =>
          match liveSearchView snapshot live with
          | .error error => .error error
          | .ok view =>
              .ok ⟨live, view, ∅, [], ∅, 0, 0, config.maxSubscriptions, none, ⟨∅, 0, []⟩, [],
                [], [], []⟩

/-- The provenance of the current view. -/
def current (actor : LiveRouteActor G) : RouteProvenance :=
  .fromView actor.view

def fail (actor : LiveRouteActor G) (error : LiveRouteRuntimeError) : LiveRouteActor G :=
  { actor with terminalFailure := some ⟨error⟩ }

def publishEvent (actor : LiveRouteActor G) (subscription : Option RouteSubscriptionId)
    (stamp : Option RouteJobStamp) (kind : LiveRouteRuntimeEventKind) : LiveRouteActor G :=
  { actor with
    sequence := saturatingNext actor.sequence
    events := actor.events ++ [⟨actor.sequence, subscription, stamp, kind⟩] }

def publishInvalidated (actor : LiveRouteActor G) (id : RouteSubscriptionId)
    (previous : Option RouteProvenance) (reason : RouteInvalidationReason) :
    LiveRouteActor G :=
  match previous with
  | none => actor
  | some previous => actor.publishEvent (some id) none (.routeInvalidated previous reason)

/-- The snapshot of an entry that is published next. -/
def nextSnapshot (actor : LiveRouteActor G) (id : RouteSubscriptionId) (epoch : ℕ)
    (state : RouteSubscriptionState) : RouteSubscriptionSnapshot G where
  sequence := actor.sequence
  id := id
  epoch := epoch
  view := actor.view
  state := state

def publishSnapshot (actor : LiveRouteActor G) (id : RouteSubscriptionId)
    (state : RouteSubscriptionState) : LiveRouteActor G :=
  match actor.entries.lookup id with
  | none => { actor with sequence := saturatingNext actor.sequence }
  | some entry =>
      let snapshot := actor.nextSnapshot id entry.epoch state
      { actor with
        sequence := saturatingNext actor.sequence
        entries := actor.entries.insert id { entry with snapshots := snapshot }
        published := actor.published ++ [snapshot] }

def enqueuePending (actor : LiveRouteActor G) (id : RouteSubscriptionId) : LiveRouteActor G :=
  if id ∈ actor.pendingSet then actor
  else
    { actor with
      pendingSet := insert id actor.pendingSet
      pending := actor.pending ++ [id] }

/-- Raise the flag of a running job. -/
def cancelActive (actor : LiveRouteActor G) (active : Option ActiveRouteJob) :
    LiveRouteActor G :=
  match active with
  | none => actor
  | some active => { actor with tokens := actor.tokens.cancel active.cancellation }

def setEntry (actor : LiveRouteActor G) (id : RouteSubscriptionId) (entry : RouteEntry G) :
    LiveRouteActor G :=
  { actor with entries := actor.entries.insert id entry }

/-- A subscription waits for a search of the current source. -/
def await (actor : LiveRouteActor G) (id : RouteSubscriptionId) (entry : RouteEntry G)
    (reason : RouteInvalidationReason) : LiveRouteActor G :=
  let previous := entryPublishedSource entry
  let actor := (actor.publishSnapshot id (.pending actor.current entry.lastReady))
    |>.publishInvalidated id previous reason
  if entry.active.isNone then actor.enqueuePending id else actor

/-- The body of the loop of `apply_commit`. -/
def invalidate (actor : LiveRouteActor G) (id : RouteSubscriptionId) : LiveRouteActor G :=
  match actor.entries.lookup id with
  | none => actor.publishSnapshot id (.pending actor.current none)
  | some entry =>
      let entry := { entry with dirty := true, trigger := .ammCommit }
      ((actor.cancelActive entry.active).setEntry id entry).await id entry .ammStateAdvanced

/-- Install the view of an accepted commit. -/
def advance (actor : LiveRouteActor G) (commit : AmmStateCommit) (delta : GraphDelta)
    (live : LiveAmmGraph G) (view : LiveSearchView G) : LiveRouteActor G :=
  { actor with live := live, view := view }.publishEvent none none
    (.ammCommitApplied commit.changes delta)

def applyCommit (actor : LiveRouteActor G) (lineage : ℕ) (commit : AmmStateCommit) :
    Option (Except LiveRouteRuntimeError Unit × LiveRouteActor G) :=
  match actor.live.applyCommit lineage commit with
  | none => none
  | some (.error error, live) => some (.error (.liveGraph error), { actor with live := live })
  | some (.ok delta, live) =>
      match liveSearchView commit.snapshot live with
      | .error error => some (.error error, { actor with live := live })
      | .ok view =>
          some (.ok (), (ascending actor.entries.keys).foldl invalidate
            (actor.advance commit delta live view))

def addSubscription (actor : LiveRouteActor G) (spec : RouteSubscriptionSpec) :
    Except LiveRouteRuntimeError LiveRouteSubscription × LiveRouteActor G :=
  if actor.maxSubscriptions ≤ actor.entries.keys.card then
    (.error .subscriptionCapacity, actor)
  else
    let id := actor.nextSubscription
    match checkedNext id with
    | none => (.error .sequenceExhausted, actor)
    | some nextSubscription =>
        let initial := actor.nextSnapshot id 0 (.pending actor.current none)
        let allocated := actor.tokens.allocate (some id)
        let entry : RouteEntry G :=
          ⟨spec, 0, 0, none, true, .initial, none, initial, allocated.1⟩
        let added :=
          { actor with
            nextSubscription := nextSubscription
            sequence := saturatingNext actor.sequence
            tokens := allocated.2
            entries := actor.entries.insert id entry
            published := actor.published ++ [initial] }
        (.ok ⟨id, allocated.1⟩,
          (added.enqueuePending id).publishEvent (some id) none .subscriptionAccepted)

/-- Remove an entry, raise its flags and publish its last snapshot. -/
def removeEntry (actor : LiveRouteActor G) (id : RouteSubscriptionId) (entry : RouteEntry G)
    (state : RouteSubscriptionState) : LiveRouteActor G :=
  let actor :=
    { actor with
      entries := actor.entries.erase id
      tokens := actor.tokens.cancel entry.cancellation }.cancelActive entry.active
  { actor with
    sequence := saturatingNext actor.sequence
    published := actor.published ++ [actor.nextSnapshot id entry.epoch state] }

def cancelSubscription (actor : LiveRouteActor G) (id : RouteSubscriptionId) :
    Except LiveRouteRuntimeError Unit × LiveRouteActor G :=
  match actor.entries.lookup id with
  | none => (.error (.subscriptionNotFound id), actor)
  | some entry =>
      (.ok (), (actor.removeEntry id entry .cancelled).publishEvent (some id) none
        .subscriptionCancelled)

def replaceSubscription (actor : LiveRouteActor G) (id : RouteSubscriptionId)
    (spec : RouteSubscriptionSpec) : Except LiveRouteRuntimeError Unit × LiveRouteActor G :=
  match actor.entries.lookup id with
  | none => (.error (.subscriptionNotFound id), actor)
  | some entry =>
      match checkedNext entry.epoch with
      | none => (.error .sequenceExhausted, actor)
      | some nextEpoch =>
          let replaced :=
            { entry with
              spec := spec, epoch := nextEpoch, dirty := true, trigger := .requestChanged }
          (.ok (), ((actor.cancelActive entry.active).setEntry id replaced).await id replaced
            .requestChanged)

/-- The job for an entry that waits, with the job counter after it. -/
def nextJob (actor : LiveRouteActor G) (id : RouteSubscriptionId) (entry : RouteEntry G) :
    Option (RouteWorkerJob G × ℕ) :=
  (checkedNext entry.nextJob).map fun next =>
    (⟨⟨id, entry.epoch, entry.nextJob, actor.current⟩, actor.view, entry.spec.request,
      { entry.spec.streaming with parallel := { entry.spec.streaming.parallel with workers := 1 } },
      entry.cancellation, (actor.tokens.allocate none).1⟩, next)

/-- The pool took the job of an entry. -/
def submit (actor : LiveRouteActor G) (id : RouteSubscriptionId) (entry : RouteEntry G)
    (job : RouteWorkerJob G) (next : ℕ) : LiveRouteActor G :=
  let entry :=
    { entry with nextJob := next, active := some ⟨job.stamp, job.cancellation⟩, dirty := false }
  let actor :=
    { actor with
      tokens := (actor.tokens.allocate none).2
      jobs := actor.jobs ++ [job]
      submitted := actor.submitted ++ [job] }.setEntry id entry
  (actor.publishSnapshot id (.searching job.stamp none entry.lastReady)).publishEvent (some id)
    (some job.stamp) (.searchScheduled entry.trigger)

/-- The entry of a queued id that waits for a job. -/
def startable (actor : LiveRouteActor G) (id : RouteSubscriptionId) : Option (RouteEntry G) :=
  (actor.entries.lookup id).filter fun entry => entry.dirty && entry.active.isNone

/-- The loop of `schedule_pending` over the queued ids.  The answers say which
submissions the pool takes; it refuses one when its queue is full. -/
def scheduleLoop : List RouteSubscriptionId → List Bool → LiveRouteActor G → LiveRouteActor G
  | [], _, actor => actor
  | id :: rest, answers, actor =>
      let popped := { actor with pending := rest, pendingSet := actor.pendingSet.erase id }
      match popped.startable id with
      | none => scheduleLoop rest answers popped
      | some entry =>
          match popped.nextJob id entry with
          | none => scheduleLoop rest answers popped
          | some (job, next) =>
              if answers.headD false then
                scheduleLoop rest answers.tail (popped.submit id entry job next)
              else
                { popped with tokens := (popped.tokens.allocate none).2 }.enqueuePending id

def schedulePending (actor : LiveRouteActor G) (answers : List Bool) : LiveRouteActor G :=
  scheduleLoop actor.pending answers actor

def accepts (actor : LiveRouteActor G) (stamp : RouteJobStamp) : Bool :=
  (actor.entries.lookup stamp.subscription).any fun entry =>
    stamp.source = actor.current && entry.epoch = stamp.epoch &&
      !actor.tokens.isCancelled entry.cancellation &&
      entry.active.any fun active =>
        active.stamp = stamp && !actor.tokens.isCancelled active.cancellation

def handleEvent (actor : LiveRouteActor G) (stamp : RouteJobStamp) (event : RouteSearchEvent) :
    LiveRouteActor G :=
  if actor.accepts stamp then
    let shown :=
      match eventBest event with
      | none => actor
      | some quote =>
          actor.publishSnapshot stamp.subscription (.searching stamp (some ⟨stamp.source, quote⟩)
            ((actor.entries.lookup stamp.subscription).bind RouteEntry.lastReady))
    shown.publishEvent (some stamp.subscription) (some stamp) (.searchEvent event)
  else actor

/-- A completion that is not current: its quote is dropped, and the entry is
searched again unless it was cancelled. -/
def rejectStale (actor : LiveRouteActor G) (stamp : RouteJobStamp) (entry : RouteEntry G) :
    LiveRouteActor G :=
  let dirty := !actor.tokens.isCancelled entry.cancellation
  let actor := (actor.setEntry stamp.subscription { entry with active := none, dirty := dirty })
    |>.publishEvent (some stamp.subscription) (some stamp)
      (.staleResultRejected stamp.source actor.current)
  if dirty then actor.enqueuePending stamp.subscription else actor

/-- A completion that is current. -/
def install (actor : LiveRouteActor G) (stamp : RouteJobStamp) (entry : RouteEntry G)
    (result : Except RouteSearchFailure StreamingSearchReport) : LiveRouteActor G :=
  let entry := { entry with active := none }
  match result with
  | .ok report =>
      let best := report.best.map (VersionedRouteQuote.mk stamp.source)
      ((actor.setEntry stamp.subscription { entry with lastReady := best }).publishSnapshot
        stamp.subscription (.ready stamp.source best report)).publishEvent
        (some stamp.subscription) (some stamp) (.routePublished entry.lastReady best report)
  | .error failure =>
      ((actor.setEntry stamp.subscription entry).publishSnapshot stamp.subscription
        (.failed stamp.source failure)).publishEvent (some stamp.subscription) (some stamp)
        (.searchFailed failure)

def handleCompleted (actor : LiveRouteActor G) (stamp : RouteJobStamp)
    (result : Except RouteSearchFailure StreamingSearchReport) : LiveRouteActor G :=
  match actor.entries.lookup stamp.subscription with
  | none => actor
  | some entry =>
      if entry.active.any fun active => active.stamp = stamp then
        if stamp.source ≠ actor.current ∨ entry.epoch ≠ stamp.epoch ∨
            actor.tokens.isCancelled entry.cancellation then
          actor.rejectStale stamp entry
        else actor.install stamp entry result
      else actor

def handleWorkerMessage (actor : LiveRouteActor G) : RouteWorkerMessage → LiveRouteActor G
  | .event stamp event => actor.handleEvent stamp event
  | .completed stamp result => actor.handleCompleted stamp result

/-- The state in which `close` leaves every subscription. -/
def closedState (actor : LiveRouteActor G) : RouteSubscriptionState :=
  match actor.terminalFailure with
  | none => .closed
  | some failure => .runtimeFailed failure

/-- The body of the loop of `close`. -/
def closeEntry (actor : LiveRouteActor G) (id : RouteSubscriptionId) : LiveRouteActor G :=
  match actor.entries.lookup id with
  | none => actor
  | some entry =>
      let removed := actor.removeEntry id entry actor.closedState
      if actor.terminalFailure.isNone then removed.publishEvent (some id) none .runtimeClosed
      else removed

def close (actor : LiveRouteActor G) : LiveRouteActor G :=
  let closed := (ascending actor.entries.keys).foldl closeEntry actor
  match actor.terminalFailure with
  | none => closed
  | some failure => closed.publishEvent none none (.runtimeFailed failure)

end LiveRouteActor

end AmmSearch
