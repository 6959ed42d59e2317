/-
Preparing tokens.  A call of `prepare_token` queues the discovery of a token, writes
its progress into the coverage ledger, and waits for the discovery itself or leaves
that to a task of its own.  Calls for one token take turns behind a lock; their tasks
outlive it.  Every step below is one await point, so a run is any interleaving of the
calls, of the tasks they left behind and of the reads of the coverage.
-/
import AmmSearch.TokenCoverage
import AmmSearch.Transitions

namespace AmmSearch

structure PrepareTokenOptions where
  connectors : List Address
  protocols : List ProtocolId
  refresh : Bool
  wait : Bool

/-- What a node was built with. -/
structure PreparationConfig where
  connectorAddresses : Except String (List Address)
  discovery : List ProtocolId
  negativeTtlMs : ℕ

/-- What the clock, the AMM runtime and the graph index answer at one moment. -/
structure RuntimeAnswer where
  now : ℕ
  queued : Except String Unit
  idle : Except String Unit
  latestVersion : ℕ
  versionReached : Except String Unit
  tokenPools : ℕ
  tokenPresent : Bool

def protocolName : ProtocolId → String
  | .uniswapV2 => "uniswap_v2"
  | .uniswapV3 => "uniswap_v3"
  | .pancakeV3 => "pancake_v3"
  | .slipstream => "slipstream"
  | .solidlyV2 => "solidly_v2"
  | .balancerV2 => "balancer_v2"
  | .curve => "curve"
  | .custom _ => "custom"

/-- Where a call of `prepare_token` stands. -/
inductive PreparePhase
  | lockToken
  | readCoverage
  | checkNegative (current : TokenCoverage)
  | queue (connectors : List Address) (remaining : List ProtocolId) (accepted : ℕ)
      (protocols errors : List String)
  | fail (message : String)
  | markQueued (connectors : List Address) (accepted : ℕ) (protocols : List String)
  | markDiscovering
  | waitIdle
  | waitVersion (target : ℕ)
  | settle (pools : ℕ) (graphPresent : Bool)
  | answer

/-- What a call does after one step. -/
inductive PrepareStep
  | goOn (phase : PreparePhase)
  | spawnSettle
  | finish (result : Except String TokenCoverage)

structure PrepareCall where
  token : Address
  options : PrepareTokenOptions
  phase : PreparePhase

/-- Where a task that was left behind stands. -/
inductive SettlePhase
  | waitIdle
  | waitVersion (target : ℕ)
  | settle (pools : ℕ) (graphPresent : Bool)
  | fail (message : String)

structure SettleTask where
  token : Address
  phase : SettlePhase

namespace PrepareTokenOptions

def scopedRequest (options : PrepareTokenOptions) : Bool :=
  !options.connectors.isEmpty || !options.protocols.isEmpty

/-- What a call queues when nothing has cut it short. -/
def plan (config : PreparationConfig) (token : Address) (options : PrepareTokenOptions) :
    PrepareStep :=
  let configured :=
    if options.connectors.isEmpty then config.connectorAddresses else .ok options.connectors
  match configured with
  | .error error => .finish (.error error)
  | .ok connectors =>
      let connectors := connectors.filter (· ≠ token)
      if connectors.isEmpty then
        .finish (.error "token preparation requires at least one connector")
      else
        let requestedProtocols :=
          if options.protocols.isEmpty then config.discovery else options.protocols
        .goOn (.queue connectors (config.discovery.filter (· ∈ requestedProtocols)) 0 [] [])

end PrepareTokenOptions

namespace PrepareCall

/-- One step of `prepare_token` behind the lock of its token. -/
def advance (config : PreparationConfig) (ledger : CoverageLedger) (answer : RuntimeAnswer)
    (call : PrepareCall) : CoverageLedger × PrepareStep :=
  match call.phase with
  | .lockToken => (ledger, .goOn .readCoverage)
  | .readCoverage =>
      let current := ledger.get call.token answer.now
      if call.options.refresh ∨ call.options.scopedRequest then
        (ledger, call.options.plan config call.token)
      else if current.state = .queued ∨ current.state = .discovering ∨ current.state = .ready then
        (ledger, .finish (.ok current))
      else (ledger, .goOn (.checkNegative current))
  | .checkNegative current =>
      if ledger.negativeIsFresh call.token config.negativeTtlMs answer.now then
        (ledger, .finish (.ok current))
      else (ledger, call.options.plan config call.token)
  | .queue connectors (protocol :: remaining) accepted protocols errors =>
      match answer.queued with
      | .ok () =>
          (ledger, .goOn (.queue connectors remaining (accepted + 1)
            (protocols ++ [protocolName protocol]) errors))
      | .error error =>
          (ledger, .goOn (.queue connectors remaining accepted protocols (errors ++ [error])))
  | .queue connectors [] accepted protocols errors =>
      if accepted = 0 then
        (ledger, .goOn (.fail
          (if errors.isEmpty then "none of the requested protocols are enabled"
            else "; ".intercalate errors)))
      else (ledger, .goOn (.markQueued connectors accepted protocols))
  | .fail message =>
      (ledger.markFailed call.token message answer.now, .finish (.error message))
  | .markQueued connectors accepted protocols =>
      (ledger.markQueued call.token protocols connectors accepted answer.now,
        .goOn .markDiscovering)
  | .markDiscovering =>
      (ledger.markDiscovering call.token answer.now,
        if call.options.wait then .goOn .waitIdle else .spawnSettle)
  | .waitIdle =>
      match answer.idle with
      | .error error => (ledger, .finish (.error error))
      | .ok () => (ledger, .goOn (.waitVersion answer.latestVersion))
  | .waitVersion _ =>
      match answer.versionReached with
      | .error error => (ledger, .finish (.error error))
      | .ok () => (ledger, .goOn (.settle answer.tokenPools answer.tokenPresent))
  | .settle pools graphPresent =>
      (ledger.markSettled call.token pools graphPresent answer.now, .goOn .answer)
  | .answer => (ledger, .finish (.ok (ledger.get call.token answer.now)))

/-- It has marked its token as queued, and is still to settle it or to leave that to a
task. -/
def Working (call : PrepareCall) : Prop :=
  match call.phase with
  | .markDiscovering | .waitIdle | .waitVersion _ | .settle _ _ => True
  | _ => False

/-- Its next step gives up on the discovery it has queued. -/
def GivesUp (answer : RuntimeAnswer) (call : PrepareCall) : Prop :=
  match call.phase with
  | .waitIdle => answer.idle ≠ .ok ()
  | .waitVersion _ => answer.versionReached ≠ .ok ()
  | _ => False

end PrepareCall

namespace SettleTask

/-- One step of a task: it goes on or ends. -/
def advance (ledger : CoverageLedger) (answer : RuntimeAnswer) (task : SettleTask) :
    CoverageLedger × Option SettleTask :=
  match task.phase with
  | .waitIdle =>
      match answer.idle with
      | .ok () => (ledger, some { task with phase := .waitVersion answer.latestVersion })
      | .error error => (ledger, some { task with phase := .fail error })
  | .waitVersion _ =>
      match answer.versionReached with
      | .ok () =>
          (ledger, some { task with phase := .settle answer.tokenPools answer.tokenPresent })
      | .error error => (ledger, some { task with phase := .fail error })
  | .settle pools graphPresent =>
      (ledger.markSettled task.token pools graphPresent answer.now, none)
  | .fail message => (ledger.markFailed task.token message answer.now, none)

end SettleTask

/-- A node with its calls under way, the tasks they have left behind and the tokens whose
locks are held. -/
structure PreparingNode where
  coverage : CoverageLedger
  calls : ℕ → Option PrepareCall
  tasks : ℕ → Option SettleTask
  locked : Address → Bool

/-- One step of a node: a call arrives or advances, a task advances, or the coverage of a
token is read.  A new call or task is given a free number. -/
inductive NodeAction
  | arrive (call : ℕ) (token : Address) (options : PrepareTokenOptions)
  | prepare (call : ℕ) (answer : RuntimeAnswer) (task : ℕ)
  | settle (task : ℕ) (answer : RuntimeAnswer)
  | tokenCoverage (token : Address) (answer : RuntimeAnswer)

namespace PreparingNode

/-- A node that has started. -/
def start (tokens : List ConfiguredToken) : PreparingNode where
  coverage := .startup tokens
  calls := fun _ => none
  tasks := fun _ => none
  locked := fun _ => false

def setCall (node : PreparingNode) (id : ℕ) (call : Option PrepareCall) : PreparingNode :=
  { node with calls := Function.update node.calls id call }

def setTask (node : PreparingNode) (id : ℕ) (task : Option SettleTask) : PreparingNode :=
  { node with tasks := Function.update node.tasks id task }

def setLock (node : PreparingNode) (token : Address) (held : Bool) : PreparingNode :=
  { node with locked := Function.update node.locked token held }

/-- A call goes on, leaves a task behind, or ends and lets go of the lock. -/
def afterPrepare (node : PreparingNode) (id : ℕ) (call : PrepareCall) (taskId : ℕ) :
    PrepareStep → Option PreparingNode
  | .goOn phase => some (node.setCall id (some { call with phase := phase }))
  | .spawnSettle =>
      match node.tasks taskId with
      | some _ => none
      | none =>
          some ((node.setTask taskId (some ⟨call.token, .waitIdle⟩)).setCall id
            (some { call with phase := .answer }))
  | .finish _ => some ((node.setCall id none).setLock call.token false)

/-- `prepare_token`, one step. -/
def prepareToken (config : PreparationConfig) (node : PreparingNode) (id : ℕ)
    (answer : RuntimeAnswer) (taskId : ℕ) (call : PrepareCall) : Option PreparingNode :=
  match call.phase with
  | .lockToken =>
      if node.locked call.token then none
      else some ((node.setLock call.token true).setCall id
        (some { call with phase := .readCoverage }))
  | _ =>
      let (coverage, outcome) := call.advance config node.coverage answer
      afterPrepare { node with coverage := coverage } id call taskId outcome

def step (config : PreparationConfig) (node : PreparingNode) :
    NodeAction → Option PreparingNode
  | .arrive id token options =>
      match node.calls id with
      | some _ => none
      | none => some (node.setCall id (some ⟨token, options, .lockToken⟩))
  | .prepare id answer taskId =>
      (node.calls id).bind (node.prepareToken config id answer taskId)
  | .settle id answer =>
      (node.tasks id).map fun task =>
        let (coverage, next) := task.advance node.coverage answer
        ({ node with coverage := coverage }).setTask id next
  | .tokenCoverage token answer =>
      some { node with
        coverage := node.coverage.refreshGraphState token answer.tokenPools
          answer.tokenPresent answer.now }

/-- No call for the token is under way. -/
def Idle (node : PreparingNode) (token : Address) : Prop :=
  ∀ id call, node.calls id = some call → call.token ≠ token

/-- A task that some call for the token has left behind has not ended. -/
def Outstanding (node : PreparingNode) (token : Address) : Prop :=
  ∃ id task, node.tasks id = some task ∧ task.token = token

/-- A token whose discovery nobody is left to settle is not in progress. -/
def NotStranded (node : PreparingNode) : Prop :=
  ∀ token, node.Idle token → ¬node.Outstanding token →
    ¬(node.coverage.state token).InProgress

/-- The step is not that of a waiting call that gives up while its token is in progress
and no task is left to settle it. -/
def Allows (node : PreparingNode) : NodeAction → Prop
  | .prepare id answer _ =>
      ∀ call, node.calls id = some call → call.GivesUp answer →
        ¬(node.coverage.state call.token).InProgress ∨ node.Outstanding call.token
  | _ => True

end PreparingNode

end AmmSearch
