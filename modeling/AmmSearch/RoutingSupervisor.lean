/-
The supervisor of the routing sidecar.  It owns the active routing node and the
record of its generation under two separate locks; a background task replaces
the node, a shutdown removes it, and quote handlers read both.  Every step below
takes one lock or one load of the shutdown flag, so a run is an interleaving at
every gap between them.
-/
import Mathlib.Logic.Function.Basic
import AmmSearch.Primitives
import AmmSearch.Transitions

namespace AmmSearch

inductive QuoteReadinessError
  | reconnecting
  | stale (ageMs maxAgeMs : ℕ)
  | untrusted (message : String)
  | shuttingDown
deriving DecidableEq

def QuoteReadinessError.message : QuoteReadinessError → String
  | reconnecting => "canonical websocket recovery is in progress"
  | stale ageMs maxAgeMs =>
      s!"canonical state is stale ({ageMs}ms old; maximum {maxAgeMs}ms)"
  | untrusted message => s!"routing runtime is untrusted: {message}"
  | shuttingDown => "routing service is shutting down"

/-- Health of the AMM runtime of a node. -/
inductive AmmRuntimeHealth
  | healthy
  | degraded
  | untrusted
  | shuttingDown
  | other

/-- State of the canonical subscriber of a node. -/
inductive AmmSubscriberDriverState
  | paused
  | running
  | failed
  | stopped
  | other

/-- What the runtime of a node and the clock show at one moment. -/
structure Observation where
  health : AmmRuntimeHealth
  subscriber : AmmSubscriberDriverState
  ageMs : ℕ

/-- `RoutingNode::quote_readiness`. -/
def Observation.nodeReadiness (observation : Observation) : Except QuoteReadinessError ℕ :=
  match observation.health with
  | .untrusted => .error (.untrusted "AMM runtime lost canonical trust")
  | .shuttingDown => .error .shuttingDown
  | .other => .error (.untrusted "AMM runtime reported an unsupported health state")
  | .healthy | .degraded =>
      match observation.subscriber with
      | .running => .ok 0
      | .failed => .error (.untrusted "canonical subscriber failed")
      | .paused => .error .reconnecting
      | .stopped => .error (.untrusted "canonical subscriber stopped")
      | .other =>
          .error (.untrusted "canonical subscriber reported an unsupported state")

inductive SupervisorPhase
  | ready
  | reconnecting
  | untrusted
  | shuttingDown
deriving DecidableEq

structure SupervisorState where
  phase : SupervisorPhase
  generation : ℕ
  endpointIndex : ℕ
  reconnectAttempts : ℕ
  lastError : Option String

structure SupervisorConfig where
  canonicalEndpoints : ℕ
  canonicalMaxStaleMs : ℕ
  canonicalRebuildTimeoutMs : ℕ

/-- The state that the handlers, the task and the shutdown share. -/
structure RoutingSupervisor (N : Type) where
  active : Option N
  state : SupervisorState
  shuttingDown : Bool

/-- Where a call of `quote_readiness` stands. -/
inductive ReadinessCall (N : Type)
  | checkFlag
  | readActive
  | askNode (node : N)
  | readState

namespace SupervisorState

/-- The answer of `quote_readiness` under the lock of the state. -/
def readiness (config : SupervisorConfig) (state : SupervisorState) (ageMs : ℕ) :
    Except QuoteReadinessError ℕ :=
  match state.phase with
  | .ready =>
      if config.canonicalMaxStaleMs < ageMs then
        .error (.stale ageMs config.canonicalMaxStaleMs)
      else
        .ok state.generation
  | .reconnecting => .error .reconnecting
  | .untrusted => .error (.untrusted (state.lastError.getD "canonical trust was lost"))
  | .shuttingDown => .error .shuttingDown

end SupervisorState

namespace RoutingSupervisor

variable {N : Type}

/-- One step of a call of `quote_readiness`: the call goes on or returns. -/
def quoteReadiness (config : SupervisorConfig) (supervisor : RoutingSupervisor N)
    (observation : Observation) :
    ReadinessCall N → ReadinessCall N ⊕ Except QuoteReadinessError ℕ
  | .checkFlag =>
      if supervisor.shuttingDown then .inr (.error .shuttingDown) else .inl .readActive
  | .readActive =>
      match supervisor.active with
      | none => .inr (.error .reconnecting)
      | some node => .inl (.askNode node)
  | .askNode _ =>
      match observation.nodeReadiness with
      | .error error => .inr (.error error)
      | .ok _ => .inl .readState
  | .readState => .inr (supervisor.state.readiness config observation.ageMs)

end RoutingSupervisor

structure ApiError where
  status : ℕ
  code : String
  message : String

/-- `quote_readiness_error`. -/
def quoteReadinessError (error : QuoteReadinessError) : ApiError where
  status := 503
  code :=
    match error with
    | .reconnecting => "canonical_reconnecting"
    | .stale _ _ => "canonical_stale"
    | .untrusted _ => "runtime_untrusted"
    | .shuttingDown => "service_shutting_down"
  message := error.message

/-- The answer of `ensure_quote_generation` to another generation. -/
def routingGenerationChanged : ApiError where
  status := 503
  code := "routing_generation_changed"
  message := "routing state changed while the quote was being generated; retry the request"

/-- A quote handler: the readiness call at its start, reads of the active node,
and the readiness call at its end. -/
inductive QuoteHandler (N : Type)
  | arriving (call : ReadinessCall N)
  | routing (generation : ℕ) (nodes : List N)
  | confirming (generation : ℕ) (nodes : List N) (call : ReadinessCall N)
  | answered (generation : ℕ) (nodes : List N)
  | refused (granted : List ℕ) (error : ApiError)

namespace QuoteHandler

variable {N : Type}

/-- The generations its finished readiness calls returned `Ok` with. -/
def granted : QuoteHandler N → List ℕ
  | arriving _ => []
  | routing generation _ => [generation]
  | confirming generation _ _ => [generation]
  | answered generation _ => [generation, generation]
  | refused granted _ => granted

/-- It has no readiness call under way that has loaded the shutdown flag. -/
def Resting : QuoteHandler N → Prop
  | arriving .checkFlag => True
  | routing _ _ => True
  | confirming _ _ .checkFlag => True
  | answered _ _ => True
  | refused _ _ => True
  | _ => False

/-- What a handler does next while it routes. -/
inductive Move
  | activeNode
  | confirm

/-- `quote_generation`, one step. -/
def arrive (outcome : ReadinessCall N ⊕ Except QuoteReadinessError ℕ) : QuoteHandler N :=
  match outcome with
  | .inl call => arriving call
  | .inr (.ok generation) => routing generation []
  | .inr (.error error) => refused [] (quoteReadinessError error)

/-- `ensure_quote_generation`, one step. -/
def ensure (generation : ℕ) (nodes : List N)
    (outcome : ReadinessCall N ⊕ Except QuoteReadinessError ℕ) : QuoteHandler N :=
  match outcome with
  | .inl call => confirming generation nodes call
  | .inr (.ok actual) =>
      if actual ≠ generation then refused [generation, actual] routingGenerationChanged
      else answered generation nodes
  | .inr (.error error) => refused [generation] (quoteReadinessError error)

/-- The next step of a handler. -/
def next (config : SupervisorConfig) (supervisor : RoutingSupervisor N)
    (observation : Observation) (move : Move) : QuoteHandler N → Option (QuoteHandler N)
  | arriving call => some (arrive (supervisor.quoteReadiness config observation call))
  | routing generation nodes =>
      match move with
      | .activeNode => some (routing generation (nodes ++ supervisor.active.toList))
      | .confirm => some (confirming generation nodes .checkFlag)
  | confirming generation nodes call =>
      some (ensure generation nodes (supervisor.quoteReadiness config observation call))
  | answered _ _ => none
  | refused _ _ => none

end QuoteHandler

/-- Where the task that supervises and rebuilds stands. -/
inductive SupervisorTask (N : Type)
  | supervising
  | inspecting
  | taking (reason : String)
  | invalidating (reason : String)
  | retiring
  | resetting
  | choosing
  | attempting (initialIndex attempt : ℕ)
  | connecting (initialIndex attempt : ℕ)
  | bootstrapping (initialIndex attempt : ℕ)
  | failing (message : String) (initialIndex attempt : ℕ)
  | waiting (initialIndex attempt : ℕ)
  | installing (node : N) (endpointIndex : ℕ)
  | publishing (node : N) (endpointIndex : ℕ)
  | stopped

/-- What the task meets at its next step. -/
inductive TaskEvent (N : Type)
  | proceed
  | trigger (reason : String)
  | bootstrapped (node : N) (status : Except String Unit)
  | bootstrapFailed
  | bootstrapTimedOut
  | shutdownNotified

/-- Where the shutdown stands. -/
inductive ShutdownStep
  | idle
  | flagged
  | announced
  | notified
  | finished

def ShutdownStep.hasNotified : ShutdownStep → Bool
  | notified | finished => true
  | _ => false

/-- The supervisor with its task, its shutdown and its quote handlers, and the
nodes that were installed, each with the generation it was published under. -/
structure SupervisorSystem (N ι : Type) where
  supervisor : RoutingSupervisor N
  task : SupervisorTask N
  shutdown : ShutdownStep
  handlers : ι → QuoteHandler N
  installed : List (ℕ × N)

namespace SupervisorSystem

variable {N ι : Type}

/-- The state that `bootstrap` returns. -/
def bootstrap (node : N) (endpointIndex : ℕ) : SupervisorSystem N ι where
  supervisor :=
    { active := some node
      state := ⟨.ready, 1, endpointIndex, 0, none⟩
      shuttingDown := false }
  task := .supervising
  shutdown := .idle
  handlers := fun _ => .arriving .checkFlag
  installed := [(1, node)]

abbrev generation (system : SupervisorSystem N ι) : ℕ :=
  system.supervisor.state.generation

abbrev phase (system : SupervisorSystem N ι) : SupervisorPhase :=
  system.supervisor.state.phase

/-- A write under the lock of the active node. -/
def writeActive (system : SupervisorSystem N ι) (active : Option N) :
    SupervisorSystem N ι :=
  { system with supervisor := { system.supervisor with active := active } }

/-- A write under the lock of the state. -/
def writeState (system : SupervisorSystem N ι) (state : SupervisorState) :
    SupervisorSystem N ι :=
  { system with supervisor := { system.supervisor with state := state } }

def goTo (system : SupervisorSystem N ι) (task : SupervisorTask N) :
    SupervisorSystem N ι :=
  { system with task := task }

/-- `supervise` and `rebuild`, one step. -/
def stepTask (config : SupervisorConfig) (system : SupervisorSystem N ι)
    (event : TaskEvent N) : Option (SupervisorSystem N ι) :=
  let state := system.supervisor.state
  match system.task, event with
  | .supervising, .proceed =>
      some (system.goTo (if system.supervisor.shuttingDown then .stopped else .inspecting))
  | .inspecting, .proceed => some (system.goTo .supervising)
  | .inspecting, .trigger reason => some (system.goTo (.taking reason))
  | .taking reason, .proceed =>
      some ((system.writeActive none).goTo (.invalidating reason))
  | .invalidating reason, .proceed =>
      some ((system.writeState
        { state with
          phase := .untrusted
          generation := saturatingNext state.generation
          lastError := some reason }).goTo .retiring)
  | .retiring, .proceed =>
      some (system.goTo (if system.supervisor.shuttingDown then .supervising else .resetting))
  | .resetting, .proceed =>
      some ((system.writeState { state with phase := .reconnecting }).goTo .choosing)
  | .choosing, .proceed =>
      some (system.goTo
        (.attempting ((state.endpointIndex + 1) % config.canonicalEndpoints) 0))
  | .attempting initialIndex attempt, .proceed =>
      some (system.goTo (if system.supervisor.shuttingDown then .supervising
        else .connecting initialIndex attempt))
  | .connecting initialIndex attempt, .proceed =>
      some ((system.writeState
        { state with
          endpointIndex := (initialIndex + attempt) % config.canonicalEndpoints
          reconnectAttempts := saturatingNext state.reconnectAttempts
          phase := .reconnecting }).goTo (.bootstrapping initialIndex attempt))
  | .bootstrapping initialIndex attempt, .bootstrapped node (.ok _) =>
      some (system.goTo
        (.installing node ((initialIndex + attempt) % config.canonicalEndpoints)))
  | .bootstrapping initialIndex attempt, .bootstrapped _ (.error error) =>
      some (system.goTo (.failing error initialIndex attempt))
  | .bootstrapping initialIndex attempt, .bootstrapFailed =>
      let endpointIndex := (initialIndex + attempt) % config.canonicalEndpoints
      some (system.goTo (.failing
        s!"canonical endpoint {endpointIndex} failed to build a verified generation"
        initialIndex attempt))
  | .bootstrapping initialIndex attempt, .bootstrapTimedOut =>
      let limit := config.canonicalRebuildTimeoutMs
      some (system.goTo (.failing s!"bootstrap exceeded {limit}ms" initialIndex attempt))
  | .bootstrapping _ _, .shutdownNotified =>
      if system.shutdown.hasNotified then some (system.goTo .supervising) else none
  | .failing message initialIndex attempt, .proceed =>
      some ((system.writeState { state with lastError := some message }).goTo
        (.waiting initialIndex attempt))
  | .waiting initialIndex attempt, .proceed =>
      some (system.goTo (.attempting initialIndex (saturatingNext attempt)))
  | .waiting _ _, .shutdownNotified =>
      if system.shutdown.hasNotified then some (system.goTo .supervising) else none
  | .installing node endpointIndex, .proceed =>
      some ((system.writeActive (some node)).goTo (.publishing node endpointIndex))
  | .publishing node endpointIndex, .proceed =>
      let generation := saturatingNext state.generation
      some { (system.writeState
          { state with
            phase := .ready
            generation := generation
            endpointIndex := endpointIndex
            lastError := none }).goTo .supervising with
        installed := (generation, node) :: system.installed }
  | _, _ => none

/-- A call of `shutdown`: only the first one finds the flag unset. -/
def callShutdown (system : SupervisorSystem N ι) : SupervisorSystem N ι :=
  if system.supervisor.shuttingDown then system
  else
    { system with
      supervisor := { system.supervisor with shuttingDown := true }
      shutdown := .flagged }

/-- `shutdown` after its flag was set, one step. -/
def stepShutdown (system : SupervisorSystem N ι) : Option (SupervisorSystem N ι) :=
  let state := system.supervisor.state
  match system.shutdown with
  | .flagged =>
      some { system.writeState
          { state with
            phase := .shuttingDown
            generation := saturatingNext state.generation } with
        shutdown := .announced }
  | .announced => some { system with shutdown := .notified }
  | .notified => some { system.writeActive none with shutdown := .finished }
  | .idle | .finished => none

/-- One step of one of the parties. -/
inductive Action (N ι : Type)
  | task (event : TaskEvent N)
  | callShutdown
  | shutdown
  | handler (id : ι) (observation : Observation) (move : QuoteHandler.Move)

variable [DecidableEq ι]

def stepHandler (config : SupervisorConfig) (system : SupervisorSystem N ι) (id : ι)
    (observation : Observation) (move : QuoteHandler.Move) :
    Option (SupervisorSystem N ι) :=
  ((system.handlers id).next config system.supervisor observation move).map fun handler =>
    { system with handlers := Function.update system.handlers id handler }

def step (config : SupervisorConfig) (system : SupervisorSystem N ι) :
    Action N ι → Option (SupervisorSystem N ι)
  | .task event => system.stepTask config event
  | .callShutdown => some system.callShutdown
  | .shutdown => system.stepShutdown
  | .handler id observation move => system.stepHandler config id observation move

end SupervisorSystem

end AmmSearch
