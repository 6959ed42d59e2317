/-
The executor contract on a chain.  While it runs it calls tokens and endpoints that it
does not know; these may do anything that accounts other than the router can do, call
back and enter again, so a called contract is a list of such actions.
-/
import AmmSearch.ExecutorRoute
import AmmSearch.TokenContract
import Mathlib.Logic.Function.Basic

open TokenContract

namespace AmmSearch

/-- A deployed router with its immutables, among token contracts of any code. -/
structure ExecutorContract (Storage Call : Type) where
  self : Address
  weth : Address
  permit2 : Address
  code : Address → TokenCode Storage Address Call

/-- The storage of the router. -/
structure RouterStorage where
  unlocked : ℕ := 1
  callbackPool : Address := 0
  callbackToken : Address := 0
  callbackAmount : ℕ := 0
deriving DecidableEq

/-- The storages of the tokens, the transfers so far, and the rest of the chain. -/
structure ChainState (Storage : Type) where
  tokens : Address → Storage
  moves : List (Move Address Address)
  ether : Address → ℕ
  storage : RouterStorage
  timestamp : ℕ

inductive ExecutorRevert
  | route (revert : RouterRevert)
  | insufficientOutput (minimum actual : ℕ)
  | zeroRecipient
  | expired (deadline timestamp : ℕ)
  | reentrancy
  | invalidNativeInput (expectedToken actualToken : Address) (expectedAmount actualAmount : ℕ)
  | invalidCallback (caller expected : Address)
  | invalidCallbackPayment (requested remaining : ℕ)
  | invalidCallbackDeltas (amount0Delta amount1Delta : ℤ)
  | zeroMinAmountOut
  | invalidTokenPair (token : Address)
  | invalidInputAmount (expected received : ℕ)
  | invalidRecipientOutput (expected received : ℕ)
  | incompleteHopConsumption (token : Address) (expected consumed : ℕ)
  | unsafeEndBalance (token : Address) (expected actual : ℕ)
  | transferFailed
  | transferFromFailed
  | approveFailed
  | panic
  | notPayable
  | callFailed
deriving DecidableEq

mutual

/-- A step of an account other than the router. -/
inductive ChainAction (Call : Type)
  | token (token : Address) (operation : Operation Address Call)
  | ether (sender recipient : Address) (amount : ℕ)
  | callback (caller : Address) (amount0Delta amount1Delta : ℤ)
      (replies : List (EndpointReply Call))
  | enter (caller : Address) (value : ℕ) (call : RouterCall)
      (replies : List (EndpointReply Call))

/-- How a contract that the router calls answers: what it and others do before and after
its own step, and the words that it returns. -/
inductive EndpointReply (Call : Type)
  | mk (before after : List (ChainAction Call)) (word0 word1 : ℕ)

end

namespace EndpointReply

variable {Call : Type}

def before : EndpointReply Call → List (ChainAction Call)
  | mk before _ _ _ => before

def after : EndpointReply Call → List (ChainAction Call)
  | mk _ after _ _ => after

def words : EndpointReply Call → ℕ × ℕ
  | mk _ _ word0 word1 => (word0, word1)

/-- All that is done while the contract is called. -/
def actions (reply : EndpointReply Call) : List (ChainAction Call) :=
  reply.before ++ reply.after

end EndpointReply

/-- A running call: the chain, and the answers of the calls to come. -/
structure CallFrame (Storage Call : Type) where
  world : ChainState Storage
  replies : List (EndpointReply Call)

namespace ChainState

variable {Storage : Type}

def lock (world : ChainState Storage) (unlocked : ℕ) : ChainState Storage :=
  { world with storage := { world.storage with unlocked := unlocked } }

/-- The three callback fields. -/
def expectCallback (world : ChainState Storage) (pool token : Address) (amount : ℕ) :
    ChainState Storage :=
  { world with
    storage :=
      { world.storage with
        callbackPool := pool, callbackToken := token, callbackAmount := amount } }

/-- Move ether that the sender has. -/
def payEther (world : ChainState Storage) (sender recipient : Address) (amount : ℕ) :
    Option (ChainState Storage) :=
  if amount ≤ world.ether sender then
    let debited := fun account =>
      if account = sender then world.ether sender - amount else world.ether account
    some
      { world with
        ether := fun account =>
          if account = recipient then debited recipient + amount else debited account }
  else none

end ChainState

namespace ExecutorContract

def require (condition : Prop) [Decidable condition] (revert : ExecutorRevert) :
    Except ExecutorRevert Unit :=
  if condition then .ok () else .error revert

/-- Subtraction that reverts below zero. -/
def checkedSub (left right : ℕ) : Except ExecutorRevert ℕ :=
  if right ≤ left then .ok (left - right) else .error .panic

/-- A product or sum that has to fit into a word. -/
def checked (amount : ℕ) : Except ExecutorRevert ℕ :=
  if amount < 2 ^ 256 then .ok amount else .error .panic

def readRoute {α : Type} (result : Except RouterRevert α) : Except ExecutorRevert α :=
  result.mapError .route

variable {Storage Call : Type} (contract : ExecutorContract Storage Call)

/-- The amount of a token that an account has. -/
def balanceOf (world : ChainState Storage) (token owner : Address) : ℕ :=
  (contract.code token).balanceOf (world.tokens token) owner

def allowance (world : ChainState Storage) (token owner spender : Address) : ℕ :=
  (contract.code token).allowance (world.tokens token) owner spender

/-- A token contract runs an operation on its own storage. -/
def runToken (world : ChainState Storage) (token : Address)
    (operation : Operation Address Call) : Option (ChainState Storage) :=
  ((contract.code token).run (world.tokens token) operation).map fun storage =>
    { world with
      tokens := Function.update world.tokens token storage
      moves := world.moves ++ (operation.move token).toList }

section Calls

variable (act : ChainState Storage → ChainAction Call → ChainState Storage)

/-- A call that leaves the router. -/
def external (frame : CallFrame Storage Call) :
    Except ExecutorRevert (CallFrame Storage Call) :=
  match frame.replies with
  | [] => .error .callFailed
  | reply :: rest => .ok ⟨reply.actions.foldl act frame.world, rest⟩

/-- A call that changes nothing. -/
def staticcall (frame : CallFrame Storage Call) :
    Except ExecutorRevert ((ℕ × ℕ) × CallFrame Storage Call) :=
  match frame.replies with
  | [] => .error .callFailed
  | reply :: rest => .ok (reply.words, ⟨frame.world, rest⟩)

/-- The router calls a token, which may hand over to others before and after. -/
def callToken (frame : CallFrame Storage Call) (token : Address)
    (operation : Operation Address Call) : Option (CallFrame Storage Call) :=
  match frame.replies with
  | [] => none
  | reply :: rest =>
      (contract.runToken (reply.before.foldl act frame.world) token operation).map
        fun world => ⟨reply.after.foldl act world, rest⟩

def safeTransfer (frame : CallFrame Storage Call) (token recipient : Address) (amount : ℕ) :
    Except ExecutorRevert (CallFrame Storage Call) :=
  match contract.callToken act frame token (.transfer contract.self recipient amount) with
  | none => .error .transferFailed
  | some frame => .ok frame

def safeTransferFrom (frame : CallFrame Storage Call) (token owner recipient : Address)
    (amount : ℕ) : Except ExecutorRevert (CallFrame Storage Call) :=
  match contract.callToken act frame token
      (.transferFrom contract.self owner recipient amount) with
  | none => .error .transferFromFailed
  | some frame => .ok frame

def safeApprove (frame : CallFrame Storage Call) (token spender : Address) (amount : ℕ) :
    Except ExecutorRevert (CallFrame Storage Call) :=
  match contract.callToken act frame token (.approve contract.self spender amount) with
  | none => .error .approveFailed
  | some frame => .ok frame

/-- The frame after a call that failed. -/
def dropReply (frame : CallFrame Storage Call) : CallFrame Storage Call :=
  { frame with replies := frame.replies.tail }

def safeApproveWithRetry (frame : CallFrame Storage Call) (token spender : Address)
    (amount : ℕ) : Except ExecutorRevert (CallFrame Storage Call) :=
  match contract.callToken act frame token (.approve contract.self spender amount) with
  | some frame => .ok frame
  | none =>
      -- whether the reset succeeds is not looked at
      let refused := dropReply frame
      let reset := (contract.callToken act refused token
        (.approve contract.self spender 0)).getD (dropReply refused)
      contract.safeApprove act reset token spender amount

def v3PayCallback (caller : Address) (amount0Delta amount1Delta : ℤ)
    (frame : CallFrame Storage Call) : Except ExecutorRevert (CallFrame Storage Call) :=
  let storage := frame.world.storage
  let expectedPool := storage.callbackPool
  if caller ≠ expectedPool ∨ expectedPool = 0 then
    .error (.invalidCallback caller expectedPool)
  else if (0 < amount0Delta ↔ 0 < amount1Delta) then
    .error (.invalidCallbackDeltas amount0Delta amount1Delta)
  else
    let amountToPay := (if 0 < amount1Delta then amount1Delta else amount0Delta).toNat
    let remaining := storage.callbackAmount
    if amountToPay = 0 ∨ remaining < amountToPay then
      .error (.invalidCallbackPayment amountToPay remaining)
    else
      contract.safeTransfer act
        { frame with
          world :=
            { frame.world with
              storage := { storage with callbackAmount := remaining - amountToPay } } }
        storage.callbackToken caller amountToPay

def getAmountOut (amountIn reserveIn reserveOut feeBps : ℕ) : Except ExecutorRevert ℕ := do
  let amountInWithFee ← checked (amountIn * (10000 - feeBps))
  let numerator ← checked (amountInWithFee * reserveOut)
  let scaled ← checked (reserveIn * 10000)
  let denominator ← checked (scaled + amountInWithFee)
  require (denominator ≠ 0) .panic
  .ok (numerator / denominator)

def swapV2 (pair tokenIn tokenOut : Address) (amountIn feeBps : ℕ)
    (frame : CallFrame Storage Call) : Except ExecutorRevert (CallFrame Storage Call) := do
  let (words, frame) ← staticcall frame
  -- in the order of the swap
  let reserves := if tokenIn < tokenOut then words else words.swap
  let _ ← getAmountOut amountIn reserves.1 reserves.2 feeBps
  let frame ← contract.safeTransfer act frame tokenIn pair amountIn
  external act frame

def swapV3Family (pool tokenIn : Address) (amountIn : ℕ) (frame : CallFrame Storage Call) :
    Except ExecutorRevert (CallFrame Storage Call) := do
  let frame ← external act
    { frame with world := frame.world.expectCallback pool tokenIn amountIn }
  .ok { frame with world := frame.world.expectCallback 0 0 0 }

def swapSolidlyV2 (pool tokenIn : Address) (amountIn : ℕ) (frame : CallFrame Storage Call) :
    Except ExecutorRevert (CallFrame Storage Call) := do
  let (_, frame) ← staticcall frame
  let frame ← contract.safeTransfer act frame tokenIn pool amountIn
  external act frame

/-- The Balancer and the Curve swap: the endpoint may spend the input while it is called. -/
def swapApproved (spender tokenIn : Address) (amountIn : ℕ) (frame : CallFrame Storage Call) :
    Except ExecutorRevert (CallFrame Storage Call) := do
  let frame ← contract.safeApproveWithRetry act frame tokenIn spender amountIn
  let frame ← external act frame
  contract.safeApprove act frame tokenIn spender 0

def swapBalancerV2 (vault tokenIn : Address) (amountIn : ℕ) (frame : CallFrame Storage Call) :
    Except ExecutorRevert (CallFrame Storage Call) :=
  contract.swapApproved act vault tokenIn amountIn frame

def swapCurve (pool tokenIn : Address) (amountIn : ℕ) (frame : CallFrame Storage Call) :
    Except ExecutorRevert (CallFrame Storage Call) :=
  contract.swapApproved act pool tokenIn amountIn frame

/-- The branch of a hop. -/
def swap (hop : RouterHop) (amountIn : ℕ) (frame : CallFrame Storage Call) :
    Except ExecutorRevert (CallFrame Storage Call) :=
  match hop.payload with
  | .feeBps feeBps =>
      contract.swapV2 act hop.endpoint hop.tokenIn hop.tokenOut amountIn feeBps frame
  | .none =>
      if hop.protocol = 4 then
        contract.swapSolidlyV2 act hop.endpoint hop.tokenIn amountIn frame
      else swapV3Family act hop.endpoint hop.tokenIn amountIn frame
  | .poolId _ => contract.swapBalancerV2 act hop.endpoint hop.tokenIn amountIn frame
  | .coins _ _ => contract.swapCurve act hop.endpoint hop.tokenIn amountIn frame

/-- The loop of `_execute` with the swaps. -/
def runHops (params : ExactInputParams) : ℕ → ℕ → Address → ℕ → CallFrame Storage Call →
    Except ExecutorRevert (ℕ × CallFrame Storage Call)
  | 0, _, _, _, _ => .error (.route .outOfSteps)
  | fuel + 1, offset, currentToken, currentAmount, frame =>
      if offset < params.route.length then do
        readRoute (ExperimentalExecutorRouter.requireRoute params.route offset
          ExperimentalExecutorRouter.hopCommonSize)
        let protocol := ExperimentalExecutorRouter.readUint8 params.route offset
        let endpoint := ExperimentalExecutorRouter.readAddress params.route (offset + 1)
        let tokenIn := ExperimentalExecutorRouter.readAddress params.route (offset + 21)
        let tokenOut := ExperimentalExecutorRouter.readAddress params.route (offset + 41)
        require (tokenIn = currentToken) (.route (.invalidRouteToken currentToken tokenIn))
        let hopInputBalanceBefore := contract.balanceOf frame.world tokenIn contract.self
        let outputBalanceBefore := contract.balanceOf frame.world tokenOut contract.self
        let (payload, nextOffset) ← readRoute (ExperimentalExecutorRouter.readPayload
          params.route (offset + ExperimentalExecutorRouter.hopCommonSize) protocol)
        let after ← contract.swap act ⟨protocol, endpoint, tokenIn, tokenOut, payload⟩
          currentAmount frame
        let hopInputBalanceAfter := contract.balanceOf after.world tokenIn contract.self
        let consumed ← checkedSub hopInputBalanceBefore hopInputBalanceAfter
        require (consumed = currentAmount)
          (.incompleteHopConsumption tokenIn currentAmount consumed)
        let received ← checkedSub (contract.balanceOf after.world tokenOut contract.self)
          outputBalanceBefore
        runHops params fuel nextOffset tokenOut received after
      else do
        require (currentToken = params.tokenOut)
          (.route (.invalidRouteToken params.tokenOut currentToken))
        .ok (currentAmount, frame)

/-- The payment to the recipient and the checks after it. -/
def settle (params : ExactInputParams) (startingInputBalance finalBalanceBefore : ℕ)
    (amountOut : ℕ) (frame : CallFrame Storage Call) :
    Except ExecutorRevert (CallFrame Storage Call) := do
  require (params.minAmountOut.val ≤ amountOut)
    (.insufficientOutput params.minAmountOut.val amountOut)
  let recipientBalanceBefore := contract.balanceOf frame.world params.tokenOut params.recipient
  let frame ← contract.safeTransfer act frame params.tokenOut params.recipient amountOut
  -- the difference, or zero when the balance fell
  let recipientAmount :=
    contract.balanceOf frame.world params.tokenOut params.recipient - recipientBalanceBefore
  require (recipientAmount = amountOut) (.invalidRecipientOutput amountOut recipientAmount)
  let finalBalanceAfter := contract.balanceOf frame.world params.tokenOut contract.self
  require (finalBalanceAfter = finalBalanceBefore)
    (.unsafeEndBalance params.tokenOut finalBalanceBefore finalBalanceAfter)
  let endingInputBalance := contract.balanceOf frame.world params.tokenIn contract.self
  require (endingInputBalance = startingInputBalance)
    (.unsafeEndBalance params.tokenIn startingInputBalance endingInputBalance)
  .ok frame

def execute (params : ExactInputParams) (startingInputBalance finalBalanceBefore : ℕ)
    (frame : CallFrame Storage Call) : Except ExecutorRevert (ℕ × CallFrame Storage Call) := do
  readRoute (ExperimentalExecutorRouter.requireRoute params.route 0
    (20 + ExperimentalExecutorRouter.hopCommonSize))
  let encodedFinalToken := ExperimentalExecutorRouter.readAddress params.route 0
  require (encodedFinalToken = params.tokenOut)
    (.route (.invalidRouteToken params.tokenOut encodedFinalToken))
  let (amountOut, frame) ← contract.runHops act params params.route.length 20 params.tokenIn
    params.amountIn.val frame
  let frame ← contract.settle act params startingInputBalance finalBalanceBefore amountOut frame
  .ok (amountOut, frame)

def validate (world : ChainState Storage) (params : ExactInputParams) :
    Except ExecutorRevert Unit := do
  require (params.recipient ≠ 0) .zeroRecipient
  require (params.tokenIn ≠ params.tokenOut) (.invalidTokenPair params.tokenIn)
  require (params.minAmountOut ≠ 0) .zeroMinAmountOut
  require (world.timestamp ≤ params.deadline.val)
    (.expired params.deadline.val world.timestamp)

def requireExactFunding (world : ChainState Storage) (token : Address)
    (balanceBefore expected : ℕ) : Except ExecutorRevert Unit :=
  -- the difference, or zero when the balance fell
  let received := contract.balanceOf world token contract.self - balanceBefore
  require (received = expected) (.invalidInputAmount expected received)

/-- The part of all entry points between funding and the end. -/
def fundAndExecute (params : ExactInputParams)
    (fund : CallFrame Storage Call → Except ExecutorRevert (CallFrame Storage Call))
    (frame : CallFrame Storage Call) :
    Except ExecutorRevert (ℕ × CallFrame Storage Call) := do
  let inputBalanceBefore := contract.balanceOf frame.world params.tokenIn contract.self
  let finalBalanceBefore := contract.balanceOf frame.world params.tokenOut contract.self
  let frame ← fund frame
  contract.requireExactFunding frame.world params.tokenIn inputBalanceBefore
    params.amountIn.val
  contract.execute act params inputBalanceBefore finalBalanceBefore frame

/-- The lock around an entry point. -/
def nonReentrant
    (body : CallFrame Storage Call → Except ExecutorRevert (ℕ × CallFrame Storage Call))
    (frame : CallFrame Storage Call) :
    Except ExecutorRevert (ℕ × CallFrame Storage Call) := do
  require (frame.world.storage.unlocked = 1) .reentrancy
  let (amountOut, frame) ← body { frame with world := frame.world.lock 2 }
  .ok (amountOut, { frame with world := frame.world.lock 1 })

def executeExactInput (caller : Address) (params : ExactInputParams) :
    CallFrame Storage Call → Except ExecutorRevert (ℕ × CallFrame Storage Call) :=
  nonReentrant fun frame => do
    validate frame.world params
    contract.fundAndExecute act params
      (fun frame => contract.safeTransferFrom act frame params.tokenIn caller contract.self
        params.amountIn.val)
      frame

/-- The wrapper is called with ether. -/
def deposit (value : ℕ) (frame : CallFrame Storage Call) :
    Except ExecutorRevert (CallFrame Storage Call) :=
  match frame.world.payEther contract.self contract.weth value with
  | none => .error .callFailed
  | some world => external act { frame with world := world }

def executeExactInputNative (value : ℕ) (params : ExactInputParams) :
    CallFrame Storage Call → Except ExecutorRevert (ℕ × CallFrame Storage Call) :=
  nonReentrant fun frame => do
    validate frame.world params
    require (params.tokenIn = contract.weth ∧ params.amountIn.val = value)
      (.invalidNativeInput contract.weth params.tokenIn params.amountIn.val value)
    let ethBalanceBefore ← checkedSub (frame.world.ether contract.self) value
    let (amountOut, frame) ← contract.fundAndExecute act params
      (contract.deposit act value) frame
    require (frame.world.ether contract.self = ethBalanceBefore)
      (.unsafeEndBalance 0 ethBalanceBefore (frame.world.ether contract.self))
    .ok (amountOut, frame)

/-- The token answers the permit before the balances are read. -/
def executeExactInputWithPermit (caller : Address) (params : ExactInputParams) :
    CallFrame Storage Call → Except ExecutorRevert (ℕ × CallFrame Storage Call) :=
  nonReentrant fun frame => do
    validate frame.world params
    let frame ← external act frame
    contract.fundAndExecute act params
      (fun frame => contract.safeTransferFrom act frame params.tokenIn caller contract.self
        params.amountIn.val)
      frame

/-- Permit2 moves the input while it is called. -/
def executeExactInputWithPermit2 (params : ExactInputParams) :
    CallFrame Storage Call → Except ExecutorRevert (ℕ × CallFrame Storage Call) :=
  nonReentrant fun frame => do
    validate frame.world params
    contract.fundAndExecute act params (fun frame => external act frame) frame

/-- A call of one of the entry points; only the native one takes ether. -/
def enter (caller : Address) (value : ℕ) (call : RouterCall) (frame : CallFrame Storage Call) :
    Except ExecutorRevert (ℕ × CallFrame Storage Call) :=
  match call with
  | .executeExactInput params => do
      require (value = 0) .notPayable
      contract.executeExactInput act caller params frame
  | .executeExactInputWithPermit params _ _ _ => do
      require (value = 0) .notPayable
      contract.executeExactInputWithPermit act caller params frame
  | .executeExactInputWithPermit2 params _ _ _ => do
      require (value = 0) .notPayable
      contract.executeExactInputWithPermit2 act params frame
  | .executeExactInputNative params =>
      match frame.world.payEther caller contract.self value with
      | none => .error .callFailed
      | some world =>
          contract.executeExactInputNative act value params { frame with world := world }

end Calls

/-- A step of another account, up to a depth of calls.  A call that reverts leaves the
chain as it was. -/
def act : ℕ → ChainState Storage → ChainAction Call → ChainState Storage
  | _, world, .token token operation =>
      if (contract.code token).actor operation = some contract.self then world
      else (contract.runToken world token operation).getD world
  | _, world, .ether sender recipient amount =>
      if sender = contract.self then world
      else (world.payEther sender recipient amount).getD world
  | 0, world, .callback _ _ _ _ => world
  | depth + 1, world, .callback caller amount0Delta amount1Delta replies =>
      if caller = contract.self then world
      else ((contract.v3PayCallback (act depth) caller amount0Delta amount1Delta
        ⟨world, replies⟩).map CallFrame.world).toOption.getD world
  | 0, world, .enter _ _ _ _ => world
  | depth + 1, world, .enter caller value call replies =>
      if caller = contract.self then world
      else ((contract.enter (act depth) caller value call ⟨world, replies⟩).map
        fun result => result.2.world).toOption.getD world

end ExecutorContract

end AmmSearch
