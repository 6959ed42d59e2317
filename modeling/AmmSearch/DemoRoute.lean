/-
Demo routes.  The gas estimator packs its hops, calls of arbitrary contracts among
them, into one byte string for a demonstration router.  A call carries its length
and the place of the amount in two 32-bit fields, and the largest value of the
second one stands for a call without a patch.
-/
import AmmSearch.ExecutorRouteExact

open BigEndian

namespace AmmSearch

structure GenericExecution where
  target : Address
  spender : Option Address
  calldata : List Byte
  amountInOffset : Option ℕ
deriving DecidableEq

inductive DemoRouterHop
  | uniswapV2 (pool tokenIn tokenOut : Address)
  | uniswapV3 (pool tokenIn tokenOut : Address)
  | pancakeV3 (pool tokenIn tokenOut : Address)
  | slipstream (pool tokenIn tokenOut : Address)
  | solidlyV2 (pool tokenIn tokenOut : Address)
  | balancerV2 (vault : Address) (poolId : U256) (tokenIn tokenOut : Address)
  | curve (pool tokenIn tokenOut : Address) (variant : CurveVariant) (i j : Byte)
  | generic (tokenIn tokenOut : Address) (execution : GenericExecution)
deriving DecidableEq

def u32None : ℕ := 2 ^ 32 - 1

def pushCommon (protocol : Byte) (endpoint tokenIn tokenOut : Address) : List Byte :=
  protocol :: (addressBytes endpoint ++ addressBytes tokenIn ++ addressBytes tokenOut)

/-- `u32::try_from`, with the context of the caller. -/
def tryU32 (value : ℕ) (reason : String) : Except ExecutionError ℕ :=
  if value < 2 ^ 32 then .ok value
  else .error [reason.toList, "out of range integral type conversion attempted".toList]

/-- The field for the place of the amount. -/
def packAmountInOffset : Option ℕ → Except ExecutionError ℕ
  | some offset => tryU32 offset "generic amount offset overflows u32"
  | none => .ok u32None

/-- The record of a generic call. -/
def packGeneric (tokenIn tokenOut : Address) (execution : GenericExecution) :
    Except ExecutionError (List Byte) := do
  let amountInOffset ← packAmountInOffset execution.amountInOffset
  let dataLen ← tryU32 execution.calldata.length "generic calldata length overflows u32"
  .ok (pushCommon 255 execution.target tokenIn tokenOut ++
    addressBytes (execution.spender.getD 0) ++ encode 4 amountInOffset ++
    encode 4 dataLen ++ execution.calldata)

/-- One turn of the loop of `encodePackedRoute`. -/
def packDemoHop : DemoRouterHop → Except ExecutionError (List Byte)
  | .uniswapV2 pool tokenIn tokenOut => .ok (pushCommon 0 pool tokenIn tokenOut)
  | .uniswapV3 pool tokenIn tokenOut => .ok (pushCommon 1 pool tokenIn tokenOut)
  | .pancakeV3 pool tokenIn tokenOut => .ok (pushCommon 2 pool tokenIn tokenOut)
  | .slipstream pool tokenIn tokenOut => .ok (pushCommon 3 pool tokenIn tokenOut)
  | .solidlyV2 pool tokenIn tokenOut => .ok (pushCommon 4 pool tokenIn tokenOut)
  | .balancerV2 vault poolId tokenIn tokenOut =>
      .ok (pushCommon 5 vault tokenIn tokenOut ++ encode 32 poolId.val)
  | .curve pool tokenIn tokenOut variant i j =>
      match variant with
      | .stableSwap => .ok (pushCommon 6 pool tokenIn tokenOut ++ [i, j])
      | .cryptoSwap => .ok (pushCommon 7 pool tokenIn tokenOut ++ [i, j])
      | .cryptoSwapNG => .ok (pushCommon 8 pool tokenIn tokenOut ++ [i, j])
      | .other => bail "unsupported Curve variant for demo router".toList
  | .generic tokenIn tokenOut execution => packGeneric tokenIn tokenOut execution

def encodePackedRoute (tokenOut : Address) (hops : List DemoRouterHop) :
    Except ExecutionError (List Byte) := do
  let records ← hops.mapM packDemoHop
  .ok (addressBytes tokenOut ++ records.flatten)

/-- What a record carries behind its common part: for a call, the spender, the place of
the patch and the call data. -/
inductive DemoPayload
  | none
  | poolId (id : U256)
  | coins (i j : Byte)
  | call (spender : Address) (patch : Option ℕ) (data : List Byte)
deriving DecidableEq

/-- A hop as the demo router reads it. -/
structure DemoReading where
  protocol : Byte
  endpoint : Address
  tokenIn : Address
  tokenOut : Address
  payload : DemoPayload
deriving DecidableEq

/-- A route as the demo router reads it, and the offset where its loop has stopped. -/
structure DemoRouteReading where
  finalToken : Address
  hops : List DemoReading
  offset : ℕ
deriving DecidableEq

namespace DemoRouter

-- the two contracts have the same `_requireRoute` and `_read` functions
open ExperimentalExecutorRouter

def readUint32 (data : List Byte) (offset : ℕ) : ℕ :=
  read data offset 4

/-- What `_genericCall` reads, up to the call itself. -/
def genericCall (route : List Byte) (offset : ℕ) : Except RouterRevert (DemoPayload × ℕ) :=
  match requireRoute route offset 28 with
  | .error revert => .error revert
  | .ok () =>
      let spender := readAddress route offset
      let amountInOffset := readUint32 route (offset + 20)
      let dataLen := readUint32 route (offset + 24)
      let nextOffset := offset + 28
      match requireRoute route nextOffset dataLen with
      | .error revert => .error revert
      | .ok () =>
          let data := (route.drop nextOffset).take dataLen
          let patch := if amountInOffset ≠ u32None then some amountInOffset else none
          .ok (.call spender patch data, nextOffset + dataLen)

/-- The branches of `_executeHop` on the protocol tag, up to the swap itself. -/
def readPayload (route : List Byte) (nextOffset : ℕ) (protocol : Byte) :
    Except RouterRevert (DemoPayload × ℕ) :=
  if protocol = 0 then .ok (.none, nextOffset)
  else if protocol = 1 ∨ protocol = 2 ∨ protocol = 3 then .ok (.none, nextOffset)
  else if protocol = 4 then .ok (.none, nextOffset)
  else if protocol = 5 then
    match requireRoute route nextOffset 32 with
    | .error revert => .error revert
    | .ok () => .ok (.poolId (readBytes32 route nextOffset), nextOffset + 32)
  else if protocol = 6 ∨ protocol = 7 ∨ protocol = 8 then
    match requireRoute route nextOffset 2 with
    | .error revert => .error revert
    | .ok () =>
        .ok (.coins (readUint8 route nextOffset) (readUint8 route (nextOffset + 1)),
          nextOffset + 2)
  else if protocol = 255 then genericCall route nextOffset
  else .error (.unsupportedProtocol protocol)

/-- `_executeHop` without its swap: the hop, and where the next one starts. -/
def executeHop (route : List Byte) (offset : ℕ) : Except RouterRevert (DemoReading × ℕ) :=
  match requireRoute route offset hopCommonSize with
  | .error revert => .error revert
  | .ok () =>
      let protocol := readUint8 route offset
      let endpoint := readAddress route (offset + 1)
      let tokenIn := readAddress route (offset + 21)
      let tokenOut := readAddress route (offset + 41)
      match readPayload route (offset + hopCommonSize) protocol with
      | .error revert => .error revert
      | .ok (payload, nextOffset) =>
          .ok (⟨protocol, endpoint, tokenIn, tokenOut, payload⟩, nextOffset)

/-- The loop of `_execute`: the hops, and where it has stopped. -/
def walk (route : List Byte) : ℕ → ℕ → Except RouterRevert (List DemoReading × ℕ)
  | 0, _ => .error .outOfSteps
  | fuel + 1, offset =>
      if offset < route.length then
        match executeHop route offset with
        | .error revert => .error revert
        | .ok (hop, nextOffset) =>
            (walk route fuel nextOffset).map fun rest => (hop :: rest.1, rest.2)
      else .ok ([], offset)

/-- What `_execute` reads from a route. -/
def execute (route : List Byte) : Except RouterRevert DemoRouteReading :=
  match requireRoute route 0 20 with
  | .error revert => .error revert
  | .ok () =>
      (walk route route.length 20).map fun rest => ⟨readAddress route 0, rest.1, rest.2⟩

end DemoRouter

namespace DemoRouterHop

def curveProtocol : CurveVariant → Option Byte
  | .stableSwap => some 6
  | .cryptoSwap => some 7
  | .cryptoSwapNG => some 8
  | .other => none

/-- The reading a hop asks for, when a patch at `offset` is read as `patch offset`. -/
def readingWith (patch : Option ℕ → Option ℕ) : DemoRouterHop → Option DemoReading
  | uniswapV2 pool tokenIn tokenOut => some ⟨0, pool, tokenIn, tokenOut, .none⟩
  | uniswapV3 pool tokenIn tokenOut => some ⟨1, pool, tokenIn, tokenOut, .none⟩
  | pancakeV3 pool tokenIn tokenOut => some ⟨2, pool, tokenIn, tokenOut, .none⟩
  | slipstream pool tokenIn tokenOut => some ⟨3, pool, tokenIn, tokenOut, .none⟩
  | solidlyV2 pool tokenIn tokenOut => some ⟨4, pool, tokenIn, tokenOut, .none⟩
  | balancerV2 vault poolId tokenIn tokenOut =>
      some ⟨5, vault, tokenIn, tokenOut, .poolId poolId⟩
  | curve pool tokenIn tokenOut variant i j =>
      (curveProtocol variant).map fun protocol => ⟨protocol, pool, tokenIn, tokenOut, .coins i j⟩
  | generic tokenIn tokenOut execution =>
      some ⟨255, execution.target, tokenIn, tokenOut,
        .call (execution.spender.getD 0) (patch execution.amountInOffset) execution.calldata⟩

/-- The hop itself: a missing spender is the zero address, and the patch is the one of
the call. -/
def reading : DemoRouterHop → Option DemoReading :=
  readingWith id

/-- What the two fields of the packed call leave of a patch. -/
def received : DemoRouterHop → Option DemoReading :=
  readingWith fun offset => if offset = some u32None then none else offset

/-- The place of the patch of a generic call. -/
def amountInOffset : DemoRouterHop → Option ℕ
  | generic _ _ execution => execution.amountInOffset
  | _ => none

end DemoRouterHop

end AmmSearch
