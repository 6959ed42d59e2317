/-
Executable swaps.  The sidecar turns the best quote into a call of the executor
contract, with the hops packed into a byte string; the contract walks that string
by hand-written offsets.
-/
import AmmSearch.BigEndian
import AmmSearch.SearchConfig

open BigEndian

namespace AmmSearch

inductive CurveVariant
  | stableSwap
  | cryptoSwap
  | cryptoSwapNG
  | other
deriving DecidableEq

/-- The registry, with what only the executor reads of its keys and registrations:
the id of a Balancer key, the state addresses and the Curve variant. -/
structure ExecutorRegistry where
  registry : AdapterRegistry
  poolId : PoolKey → U256
  stateAddresses : PoolKey → List Address
  curveVariant : PoolKey → CurveVariant

structure ExecutorDeployment where
  router : Address
  weth : Address
  permit2 : Address
deriving DecidableEq

inductive InputAuthorization
  | allowance
  | native
  | erc2612 (v : Byte) (r s : U256)
  | permit2 (nonce deadline : U256) (signature : List Byte)
deriving DecidableEq

structure ExecutionRequest where
  deployment : ExecutorDeployment
  recipient : Address
  deadline : U256
  minAmountOut : Option U256
  authorization : InputAuthorization
deriving DecidableEq

structure ApprovalRequirement where
  token : Address
  spender : Address
  minimumAmount : U256
deriving DecidableEq

structure ExactInputParams where
  tokenIn : Address
  tokenOut : Address
  amountIn : U256
  minAmountOut : U256
  recipient : Address
  deadline : U256
  route : List Byte
deriving DecidableEq

/-- The contract call whose ABI encoding is the transaction data. -/
inductive RouterCall
  | executeExactInput (params : ExactInputParams)
  | executeExactInputWithPermit (params : ExactInputParams) (v : Byte) (r s : U256)
  | executeExactInputWithPermit2 (params : ExactInputParams) (nonce deadline : U256)
      (signature : List Byte)
  | executeExactInputNative (params : ExactInputParams)
deriving DecidableEq

def RouterCall.params : RouterCall → ExactInputParams
  | executeExactInput params => params
  | executeExactInputWithPermit params _ _ _ => params
  | executeExactInputWithPermit2 params _ _ _ => params
  | executeExactInputNative params => params

structure ExecutableSwap where
  «to» : Address
  value : U256
  data : RouterCall
  approval : Option ApprovalRequirement
  minAmountOut : U256
  deadline : U256
deriving DecidableEq

/-- An error with its contexts, the outermost first. -/
abbrev ExecutionError := List Text

def bail {α : Type} (reason : Text) : Except ExecutionError α :=
  .error [reason]

def ensure (condition : Bool) (reason : String) : Except ExecutionError Unit :=
  if condition then .ok () else bail reason.toList

/-- The value, or an error with the given context. -/
def orContext {α : Type} (value : Option α) (reason : Text) : Except ExecutionError α :=
  match value with
  | some value => .ok value
  | none => bail reason

namespace ExecutionRequest

def validateRequest (request : ExecutionRequest) : Except ExecutionError Unit := do
  ensure (request.deployment.router ≠ 0) "router must be non-zero"
  ensure (request.deployment.weth ≠ 0) "WETH must be non-zero"
  ensure (request.deployment.permit2 ≠ 0) "Permit2 must be non-zero"
  ensure (request.recipient ≠ 0) "recipient must be non-zero"
  ensure (request.deadline ≠ 0) "deadline must be non-zero"
  match request.authorization with
  | .permit2 _ deadline _ => ensure (deadline ≠ 0) "Permit2 deadline must be non-zero"
  | _ => .ok ()

end ExecutionRequest

/-- The loop of `validateQuote` over the path and its trace. -/
def validateTrace : Option Address → U256 → List (Hop × HopQuote) →
    Except ExecutionError U256
  | _, expectedAmount, [] => .ok expectedAmount
  | expectedToken, expectedAmount, (pathHop, quotedHop) :: rest => do
      ensure (pathHop = quotedHop.hop) "route path and quote trace hops differ"
      ensure (expectedToken.all (pathHop.tokenIn = ·)) "route token continuity is broken"
      ensure (quotedHop.amountIn = expectedAmount) "route amount continuity is broken"
      validateTrace (some pathHop.tokenOut) quotedHop.amountOut rest

def validateQuote (quote : RouteQuote) : Except ExecutionError Unit := do
  ensure (quote.amountIn ≠ 0) "route amount_in must be non-zero"
  ensure (quote.path.length = quote.hops.length) "route path and quote trace lengths differ"
  let amount ← validateTrace none quote.amountIn (quote.path.zip quote.hops)
  ensure (amount = quote.amountOut) "route final amount does not match its quote trace"

/-- The requested output floor, or the output of the second route. -/
def minimumOutput (routes : List RouteQuote) (quote : RouteQuote) (firstHop finalHop : Hop)
    (request : ExecutionRequest) : Except ExecutionError U256 :=
  match request.minAmountOut with
  | some minimum => .ok minimum
  | none => do
      let fallback ← orContext routes[1]?
        "min_amount_out is required when no second route is available".toList
      (validateQuote fallback).mapError
        fun reasons => "invalid second route used for min_amount_out".toList :: reasons
      ensure (fallback.amountIn = quote.amountIn)
        "second route amount_in does not match the best route"
      ensure ((fallback.path.head?.map (·.tokenIn)) = some firstHop.tokenIn ∧
        (fallback.path.getLast?.map (·.tokenOut)) = some finalHop.tokenOut)
        "second route token pair does not match the best route"
      ensure (fallback.amountOut ≤ quote.amountOut) "routes are not ordered best-first"
      .ok fallback.amountOut

/-- The bytes of an address. -/
def addressBytes (address : Address) : List Byte :=
  encode 20 address.val

/-- Protocol tag, endpoint and trailing bytes of one hop. -/
def hopRecord (runtime : ExecutorRegistry) (hop : Hop) (registration : PoolRegistration) :
    Except ExecutionError (Byte × Address × List Byte) :=
  match hop.pool.protocol, hop.pool.address, registration.metadata with
  | .uniswapV2, some pool, .uniswapV2 metadata => do
      let feeBps ← orContext metadata.feeBps
        "Uniswap V2 execution requires configured fee_bps".toList
      ensure (feeBps < 10000) "Uniswap V2 fee_bps must be below 10000"
      ensure (feeBps < 2 ^ 16) "Uniswap V2 fee_bps overflows uint16"
      .ok (0, pool, encode 2 feeBps)
  | .uniswapV3, some pool, .uniswapV3 _ => .ok (1, pool, [])
  | .pancakeV3, some pool, .pancakeV3 _ => .ok (2, pool, [])
  | .slipstream, some pool, .slipstream _ => .ok (3, pool, [])
  | .solidlyV2, some pool, .solidlyV2 _ => .ok (4, pool, [])
  | .balancerV2, _, .balancerV2 metadata => do
      let vault ← orContext
        (metadata.vault <|> (runtime.stateAddresses hop.pool).head?)
        "Balancer V2 execution requires a vault address".toList
      .ok (5, vault, encode 32 (runtime.poolId hop.pool).val)
  | .curve, some pool, .curve metadata => do
      let inputIndex ← orContext (metadata.coins.findIdx? (· = hop.tokenIn))
        "Curve token_in is absent from pool metadata".toList
      let outputIndex ← orContext (metadata.coins.findIdx? (· = hop.tokenOut))
        "Curve token_out is absent from pool metadata".toList
      ensure (inputIndex ≠ outputIndex) "Curve hop uses the same coin twice"
      ensure (inputIndex < 2 ^ 8) "Curve input index overflows uint8"
      ensure (outputIndex < 2 ^ 8) "Curve output index overflows uint8"
      match runtime.curveVariant hop.pool with
      | .stableSwap => .ok (6, pool, [Fin.ofNat 256 inputIndex, Fin.ofNat 256 outputIndex])
      | .cryptoSwap => .ok (7, pool, [Fin.ofNat 256 inputIndex, Fin.ofNat 256 outputIndex])
      | .cryptoSwapNG => .ok (8, pool, [Fin.ofNat 256 inputIndex, Fin.ofNat 256 outputIndex])
      | .other => bail "unsupported Curve variant for executor router".toList
  | .custom _, _, .custom _ =>
      bail "custom graph adapters are not supported by the executor router".toList
  | _, _, _ =>
      bail ("unsupported or mismatched execution metadata for ".toList ++ hop.pool.debug)

/-- The packed record of one hop. -/
def packHop (runtime : ExecutorRegistry) (hop : Hop) : Except ExecutionError (List Byte) := do
  let registration ← orContext (runtime.registry.pool hop.pool)
    ("missing pool registration for ".toList ++ hop.pool.debug)
  let (protocol, endpoint, extra) ← hopRecord runtime hop registration
  .ok (protocol :: (addressBytes endpoint ++ addressBytes hop.tokenIn ++
    addressBytes hop.tokenOut ++ extra))

/-- Call data, required approval and native value of a swap. -/
def authorizedCall (request : ExecutionRequest) (params : ExactInputParams) :
    Except ExecutionError (RouterCall × Option ApprovalRequirement × U256) :=
  match request.authorization with
  | .allowance =>
      .ok (.executeExactInput params,
        some ⟨params.tokenIn, request.deployment.router, params.amountIn⟩, 0)
  | .erc2612 v r s => .ok (.executeExactInputWithPermit params v r s, none, 0)
  | .permit2 nonce deadline signature =>
      .ok (.executeExactInputWithPermit2 params nonce deadline signature,
        some ⟨params.tokenIn, request.deployment.permit2, params.amountIn⟩, 0)
  | .native => do
      ensure (params.tokenIn = request.deployment.weth)
        "native input requires the route token_in to equal configured WETH"
      .ok (.executeExactInputNative params, none, params.amountIn)

/-- Build a transaction for the best route. -/
def buildExecutableSwap (runtime : ExecutorRegistry) (routes : List RouteQuote)
    (request : ExecutionRequest) : Except ExecutionError ExecutableSwap := do
  request.validateRequest
  let quote ← orContext routes.head? "cannot execute an empty route set".toList
  validateQuote quote
  let firstHop ← orContext quote.path.head? "cannot execute an empty route".toList
  let finalHop ← orContext quote.path.getLast? "cannot execute an empty route".toList
  let minAmountOut ← minimumOutput routes quote firstHop finalHop request
  ensure (minAmountOut ≠ 0) "min_amount_out must be non-zero"
  let records ← quote.path.mapM (packHop runtime)
  let (data, approval, value) ← authorizedCall request
    { tokenIn := firstHop.tokenIn
      tokenOut := finalHop.tokenOut
      amountIn := quote.amountIn
      minAmountOut := minAmountOut
      recipient := request.recipient
      deadline := request.deadline
      route := addressBytes finalHop.tokenOut ++ records.flatten }
  .ok
    { «to» := request.deployment.router
      value := value
      data := data
      approval := approval
      minAmountOut := minAmountOut
      deadline := request.deadline }

/-- The protocol-specific part of a packed hop. -/
inductive HopPayload
  | none
  | feeBps (fee : ℕ)
  | poolId (id : U256)
  | coins (input output : Byte)
deriving DecidableEq

/-- A hop as the contract reads it. -/
structure RouterHop where
  protocol : Byte
  endpoint : Address
  tokenIn : Address
  tokenOut : Address
  payload : HopPayload
deriving DecidableEq

inductive RouterRevert
  | invalidPackedRoute
  | invalidRouteToken (expected actual : Address)
  | unsupportedProtocol (protocol : Byte)
  | invalidFeeBps (feeBps : ℕ)
  | outOfSteps
deriving DecidableEq

namespace ExperimentalExecutorRouter

def hopCommonSize : ℕ := 61

def requireRoute (data : List Byte) (offset length : ℕ) : Except RouterRevert Unit :=
  if offset > data.length ∨ data.length - offset < length then .error .invalidPackedRoute
  else .ok ()

def readUint8 (data : List Byte) (offset : ℕ) : Byte :=
  Fin.ofNat 256 (read data offset 1)

def readUint16 (data : List Byte) (offset : ℕ) : ℕ :=
  read data offset 2

def readAddress (data : List Byte) (offset : ℕ) : Address :=
  Fin.ofNat (2 ^ 160) (read data offset 20)

def readBytes32 (data : List Byte) (offset : ℕ) : U256 :=
  Fin.ofNat (2 ^ 256) (read data offset 32)

/-- The branches on the protocol tag, up to the swap itself: what a branch reads and
where the next hop starts. -/
def readPayload (route : List Byte) (nextOffset : ℕ) (protocol : Byte) :
    Except RouterRevert (HopPayload × ℕ) :=
  if protocol = 0 then
    match requireRoute route nextOffset 2 with
    | .error revert => .error revert
    | .ok () =>
        let feeBps := readUint16 route nextOffset
        -- the first check of `_swapV2`
        if 10000 ≤ feeBps then .error (.invalidFeeBps feeBps)
        else .ok (.feeBps feeBps, nextOffset + 2)
  else if protocol = 1 ∨ protocol = 2 ∨ protocol = 3 then .ok (.none, nextOffset)
  else if protocol = 4 then .ok (.none, nextOffset)
  else if protocol = 5 then
    match requireRoute route nextOffset 32 with
    | .error revert => .error revert
    | .ok () => .ok (.poolId (readBytes32 route nextOffset), nextOffset + 32)
  else if protocol = 6 ∨ protocol = 7 ∨ protocol = 8 then
    match requireRoute route nextOffset 2 with
    | .error revert => .error revert
    | .ok () =>
        .ok (.coins (readUint8 route nextOffset) (readUint8 route (nextOffset + 1)),
          nextOffset + 2)
  else .error (.unsupportedProtocol protocol)

/-- The loop of `_execute`, with the swaps left out. -/
def walk (route : List Byte) (tokenOut : Address) :
    ℕ → ℕ → Address → Except RouterRevert (List RouterHop)
  | 0, _, _ => .error .outOfSteps
  | fuel + 1, offset, currentToken =>
      if offset < route.length then
        match requireRoute route offset hopCommonSize with
        | .error revert => .error revert
        | .ok () =>
            let protocol := readUint8 route offset
            let endpoint := readAddress route (offset + 1)
            let hopTokenIn := readAddress route (offset + 21)
            let hopTokenOut := readAddress route (offset + 41)
            if hopTokenIn ≠ currentToken then
              .error (.invalidRouteToken currentToken hopTokenIn)
            else
              match readPayload route (offset + hopCommonSize) protocol with
              | .error revert => .error revert
              | .ok (payload, nextOffset) =>
                  (walk route tokenOut fuel nextOffset hopTokenOut).map fun rest =>
                    ⟨protocol, endpoint, hopTokenIn, hopTokenOut, payload⟩ :: rest
      else if currentToken ≠ tokenOut then
        .error (.invalidRouteToken tokenOut currentToken)
      else .ok []

/-- The hops that `_execute` reads from a route. -/
def execute (route : List Byte) (tokenIn tokenOut : Address) :
    Except RouterRevert (List RouterHop) :=
  match requireRoute route 0 (20 + hopCommonSize) with
  | .error revert => .error revert
  | .ok () =>
      let encodedFinalToken := readAddress route 0
      if encodedFinalToken ≠ tokenOut then
        .error (.invalidRouteToken tokenOut encodedFinalToken)
      else walk route tokenOut route.length 20 tokenIn

end ExperimentalExecutorRouter

end AmmSearch
