/-
The live route runtime: the loop of the actor, its workers, and the owners of
its subscriptions.  The actor takes one input at a time; workers and owners run
between its turns in any order.  Which input comes next and how many commits
come in a row is left open.
-/
import AmmSearch.LiveRoutes
import AmmSearch.Transitions

open FiniteMap StableGraph

namespace AmmSearch

/-- A commit with the lineage that a rebuild of the graph would draw. -/
abbrev DrawnCommit := ℕ × AmmStateCommit

/-- The next input of the actor; `none` is a closed channel.  With a worker
message comes the commit that is ready at that moment. -/
inductive LiveRouteActorInput
  | commit (commit : Option DrawnCommit)
  | command (command : Option RouteCommand)
  | cleanup (id : Option RouteSubscriptionId)
  | worker (message : Option RouteWorkerMessage) (ready : Option DrawnCommit)

/-- The end of a turn: whether the loop goes on, and what a subscribe command
returned. -/
structure LiveRouteTurn (G : Type) where
  goesOn : Bool
  subscribed : Option LiveRouteSubscription
  actor : LiveRouteActor G

/-- A search that a worker runs; a job that was cancelled before it started has
its result already. -/
structure RouteRun (G : Type) where
  job : RouteWorkerJob G
  result : Option (Except RouteSearchFailure StreamingSearchReport)

/-- The actor, the subscriptions it handed out, the searches of its workers and
their messages.  `cutShort` names the searches that saw a cancellation. -/
structure LiveRouteRuntime (G : Type) where
  actor : LiveRouteActor G
  closed : Bool
  subscriptions : List LiveRouteSubscription
  runs : List (RouteRun G)
  results : List RouteWorkerMessage
  cutShort : List RouteJobStamp

/-- What happens next. -/
inductive LiveRouteAction
  | turn (input : LiveRouteActorInput) (answers : List Bool)
  | request (subscription : LiveRouteSubscription)
  | cancel (subscription : LiveRouteSubscription)
  | release (subscription : LiveRouteSubscription)
  | take
  | poll (index : ℕ)
  | emit (index : ℕ) (event : RouteSearchEvent)
  | finish (index : ℕ) (result : Except RouteSearchFailure StreamingSearchReport)

/-- The failure of a job that was cancelled while it was queued. -/
def cancelledBeforeExecution : RouteSearchFailure where
  message := "route search cancelled before worker execution"
  workerPanicked := false

variable {G : Type} [StableDiGraph G Address EdgeData]

namespace LiveRouteActor

/-- Apply a commit; the loop goes on unless it failed. -/
def applyOrFail (actor : LiveRouteActor G) (commit : DrawnCommit) :
    Option (Bool × LiveRouteActor G) :=
  (actor.applyCommit commit.1 commit.2).map fun
    | (.ok _, applied) => (true, applied)
    | (.error error, applied) => (false, applied.fail error)

def handleCommand (actor : LiveRouteActor G) : RouteCommand → LiveRouteTurn G
  | .subscribe spec =>
      let added := actor.addSubscription spec
      ⟨true, added.1.toOption, added.2⟩
  | .cancel id => ⟨true, none, (actor.cancelSubscription id).2⟩
  | .replace id spec => ⟨true, none, (actor.replaceSubscription id spec).2⟩
  | .shutdown => ⟨false, none, actor⟩

/-- One turn of the loop up to `schedule_pending`; `none` is a panic. -/
def turn (actor : LiveRouteActor G) : LiveRouteActorInput → Option (LiveRouteTurn G)
  | .commit none => some ⟨false, none, actor⟩
  | .commit (some commit) =>
      (actor.applyOrFail commit).map fun applied => ⟨applied.1, none, applied.2⟩
  | .command none => some ⟨false, none, actor⟩
  | .command (some command) => some (actor.handleCommand command)
  | .cleanup none => some ⟨true, none, actor⟩
  | .cleanup (some id) => some ⟨true, none, (actor.cancelSubscription id).2⟩
  | .worker none _ => some ⟨false, none, actor⟩
  | .worker (some message) none => some ⟨true, none, actor.handleWorkerMessage message⟩
  | .worker (some message) (some commit) =>
      (actor.applyOrFail commit).map fun applied =>
        if applied.1 then ⟨true, none, applied.2.handleWorkerMessage message⟩
        else ⟨false, none, applied.2⟩

/-- The end of a turn: the queued work is scheduled, or the actor closes. -/
def endTurn (turn : LiveRouteTurn G) (answers : List Bool) : LiveRouteActor G :=
  if turn.goesOn then turn.actor.schedulePending answers else turn.actor.close

end LiveRouteActor

namespace LiveRouteRuntime

/-- The runtime that `spawn` starts. -/
def spawn (lineage : ℕ) (snapshot : AmmStateSnapshot) (options : GraphBuildOptions)
    (config : LiveRouteRuntimeConfig) : Except LiveRouteRuntimeError (LiveRouteRuntime G) :=
  match LiveRouteActor.spawn lineage snapshot options config with
  | .error error => .error error
  | .ok actor => .ok ⟨actor, false, [], [], [], []⟩

def withTokens (runtime : LiveRouteRuntime G) (tokens : CancellationTokens) :
    LiveRouteRuntime G :=
  { runtime with actor := { runtime.actor with tokens := tokens } }

/-- Take the input from its channel. -/
def receive (runtime : LiveRouteRuntime G) :
    LiveRouteActorInput → Option (LiveRouteRuntime G)
  | .cleanup (some id) =>
      if runtime.actor.tokens.cleanup.head? = some id then
        some (runtime.withTokens
          { runtime.actor.tokens with cleanup := runtime.actor.tokens.cleanup.tail })
      else none
  | .worker (some message) _ =>
      match runtime.results with
      | [] => none
      | next :: rest => if next = message then some { runtime with results := rest } else none
  | _ => some runtime

/-- A turn of the actor. -/
def turn (runtime : LiveRouteRuntime G) (input : LiveRouteActorInput) (answers : List Bool) :
    Option (LiveRouteRuntime G) :=
  if runtime.closed then none
  else
    (runtime.receive input).bind fun received =>
      (received.actor.turn input).map fun turn =>
        { received with
          actor := LiveRouteActor.endTurn turn answers
          closed := !turn.goesOn
          subscriptions := received.subscriptions ++ turn.subscribed.toList }

/-- An owner that lets a subscription go cancels it and announces it once more. -/
def release (tokens : CancellationTokens) (subscription : LiveRouteSubscription) :
    CancellationTokens :=
  { tokens.cancel subscription.cancellation with
    cleanup := (tokens.cancel subscription.cancellation).cleanup ++ [subscription.id] }

/-- The owner of a subscription raises its flag. -/
def byOwner (runtime : LiveRouteRuntime G) (subscription : LiveRouteSubscription)
    (tokens : CancellationTokens) : Option (LiveRouteRuntime G) :=
  if subscription ∈ runtime.subscriptions then some (runtime.withTokens tokens) else none

/-- What a worker sees when it asks whether a job is cancelled. -/
def isCancelled (runtime : LiveRouteRuntime G) (job : RouteWorkerJob G) : Bool :=
  runtime.actor.tokens.isCancelled job.subscriptionCancel ||
    runtime.actor.tokens.isCancelled job.cancellation

/-- A search notices that it is cancelled. -/
def cut (runtime : LiveRouteRuntime G) (job : RouteWorkerJob G) : LiveRouteRuntime G :=
  { runtime with cutShort := runtime.cutShort ++ [job.stamp] }

/-- A worker takes the next job of the queue. -/
def take (runtime : LiveRouteRuntime G) : Option (LiveRouteRuntime G) :=
  match runtime.actor.jobs with
  | [] => none
  | job :: rest =>
      let taken := { runtime with actor := { runtime.actor with jobs := rest } }
      if runtime.isCancelled job then
        some (cut
          { taken with
            runs := runtime.runs ++ [⟨job, some (.error cancelledBeforeExecution)⟩] } job)
      else some { taken with runs := runtime.runs ++ [⟨job, none⟩] }

/-- Messages reach the actor until it closes. -/
def send (runtime : LiveRouteRuntime G) (message : RouteWorkerMessage) : LiveRouteRuntime G :=
  if runtime.closed then runtime else { runtime with results := runtime.results ++ [message] }

/-- A search polls its cancellation. -/
def poll (runtime : LiveRouteRuntime G) (index : ℕ) : Option (LiveRouteRuntime G) :=
  (runtime.runs[index]?).map fun run =>
    if runtime.isCancelled run.job then runtime.cut run.job else runtime

/-- A search shows an event to its callback. -/
def emit (runtime : LiveRouteRuntime G) (index : ℕ) (event : RouteSearchEvent) :
    Option (LiveRouteRuntime G) :=
  ((runtime.runs[index]?).filter fun run => run.result.isNone).map fun run =>
    if runtime.isCancelled run.job then runtime.cut run.job
    else runtime.send (.event run.job.stamp event)

/-- A search ends with a result. -/
def finish (runtime : LiveRouteRuntime G) (index : ℕ)
    (result : Except RouteSearchFailure StreamingSearchReport) : Option (LiveRouteRuntime G) :=
  (runtime.runs[index]?).map fun run =>
    send { runtime with runs := runtime.runs.eraseIdx index }
      (.completed run.job.stamp (run.result.getD result))

def step (runtime : LiveRouteRuntime G) : LiveRouteAction → Option (LiveRouteRuntime G)
  | .turn input answers => runtime.turn input answers
  | .request subscription =>
      runtime.byOwner subscription (runtime.actor.tokens.request subscription.cancellation)
  | .cancel subscription =>
      runtime.byOwner subscription (runtime.actor.tokens.cancel subscription.cancellation)
  | .release subscription =>
      runtime.byOwner subscription (release runtime.actor.tokens subscription)
  | .take => runtime.take
  | .poll index => runtime.poll index
  | .emit index event => runtime.emit index event
  | .finish index result => runtime.finish index result

end LiveRouteRuntime

end AmmSearch
