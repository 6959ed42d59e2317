/-
Chain primitives and the parts of the AMM-state runtime that graph
construction and route search observe: pool keys, registrations, protocol
metadata, and the registry with its swap simulators.
-/
import Mathlib.Algebra.GroupWithZero.Nat
import Mathlib.Data.Prod.Lex
import Mathlib.Order.Fin.Basic
import Mathlib.Data.List.Lex
import Mathlib.Data.Char
import Mathlib.Order.WithBot
import AmmSearch.FiniteMap

namespace AmmSearch

/-- A 20-byte account address, ordered as its big-endian bytes. -/
abbrev Address := Fin (2 ^ 160)

abbrev U256 := Fin (2 ^ 256)

instance neZero_addresses : NeZero (2 ^ 160) := ⟨(Nat.two_pow_pos 160).ne'⟩

instance neZero_words : NeZero (2 ^ 256) := ⟨(Nat.two_pow_pos 256).ne'⟩

instance lawfulBEq_storageSlots : LawfulBEq (Address × U256) := inferInstance

abbrev Text := List Char

/-- The largest value of a 64-bit counter. -/
def u64Max : ℕ := 2 ^ 64 - 1

/-- `u64::checked_add(1)`. -/
def checkedNext (counter : ℕ) : Option ℕ :=
  if counter < u64Max then some (counter + 1) else none

theorem lt_of_checkedNext {counter next : ℕ}
    (hnext : checkedNext counter = some next) : counter < next := by
  unfold checkedNext at hnext
  split at hnext
  · obtain rfl := Option.some.inj hnext
    exact Nat.lt_succ_self counter
  · cases hnext

theorem eq_succ_of_checkedNext {counter next : ℕ}
    (hnext : checkedNext counter = some next) : next = counter + 1 := by
  unfold checkedNext at hnext
  split at hnext
  · exact (Option.some.inj hnext).symm
  · cases hnext

/-- `u64::saturating_add(1)`. -/
def saturatingNext (counter : ℕ) : ℕ :=
  if counter < u64Max then counter + 1 else counter

theorem le_saturatingNext (counter : ℕ) : counter ≤ saturatingNext counter := by
  unfold saturatingNext
  split <;> omega

/-- A counter that was advanced past a value that is not the largest one has
moved beyond it. -/
theorem lt_saturatingNext {counter bound : ℕ} (hle : bound ≤ counter)
    (hbound : bound < u64Max) : bound < saturatingNext counter := by
  unfold saturatingNext
  split <;> omega

inductive ProtocolId
  | uniswapV2
  | uniswapV3
  | pancakeV3
  | slipstream
  | solidlyV2
  | balancerV2
  | curve
  | custom (tag : ℕ)
deriving DecidableEq

namespace ProtocolId

/-- Position of a protocol in the derived order. -/
def code : ProtocolId → ℕ
  | uniswapV2 => 0
  | uniswapV3 => 1
  | pancakeV3 => 2
  | slipstream => 3
  | solidlyV2 => 4
  | balancerV2 => 5
  | curve => 6
  | custom tag => 7 + tag

theorem code_injective : Function.Injective code := by
  intro left right hcode
  cases left <;> cases right <;> simp [code] at hcode ⊢ <;> omega

end ProtocolId

/-- A pool key through everything the search layer observes of it. -/
structure PoolKey where
  protocol : ProtocolId
  address : Option Address
  debug : Text
deriving DecidableEq

namespace PoolKey

/-- Lexicographic position of a key. -/
def position (key : PoolKey) : Text ×ₗ ℕ ×ₗ WithBot Address :=
  toLex (key.debug, toLex (key.protocol.code, key.address))

theorem position_injective : Function.Injective position := by
  intro left right hposition
  obtain ⟨leftProtocol, leftAddress, leftDebug⟩ := left
  obtain ⟨rightProtocol, rightAddress, rightDebug⟩ := right
  simp only [position, EmbeddingLike.apply_eq_iff_eq, Prod.mk.injEq] at hposition
  have hprotocol : leftProtocol = rightProtocol :=
    ProtocolId.code_injective (congrArg Prod.fst hposition.2)
  have haddress : leftAddress = rightAddress :=
    congrArg Prod.snd hposition.2
  simp [hposition.1, hprotocol, haddress]

instance : LinearOrder PoolKey :=
  LinearOrder.lift' position position_injective

end PoolKey

/-- The post-block state an AMM runtime represents. -/
structure AmmStatePoint where
  chainId : ℕ
  blockNumber : ℕ
  blockHash : U256
deriving DecidableEq

/-- One registration generation of a logical pool. -/
structure PoolInstanceId where
  key : PoolKey
  generation : ℕ
deriving DecidableEq

/-- The quote state of one pool instance at one point. -/
structure PoolStateRef where
  pool : PoolInstanceId
  revision : ℕ
  point : AmmStatePoint
deriving DecidableEq

inductive PoolStatus
  | pending
  | ready
  | degraded
  | disabled
deriving DecidableEq

structure UniswapV2Metadata where
  token0 : Option Address
  token1 : Option Address
  feeBps : Option ℕ
deriving DecidableEq

/-- Metadata shared by the concentrated-liquidity protocols. -/
structure V3Metadata where
  token0 : Option Address
  token1 : Option Address
  fee : Option ℕ
deriving DecidableEq

structure SolidlyV2Metadata where
  token0 : Option Address
  token1 : Option Address
deriving DecidableEq

/-- Vault slot holding one token's cash. -/
structure TokenCash where
  token : Address
  slot : U256
  highField : Bool
deriving DecidableEq

structure BalancerV2Metadata where
  vault : Option Address
  tokens : List Address
  tokenCash : List TokenCash
deriving DecidableEq

structure CurveMetadata where
  coins : List Address
deriving DecidableEq

inductive ProtocolMetadata
  | uniswapV2 (metadata : UniswapV2Metadata)
  | uniswapV3 (metadata : V3Metadata)
  | pancakeV3 (metadata : V3Metadata)
  | slipstream (metadata : V3Metadata)
  | solidlyV2 (metadata : SolidlyV2Metadata)
  | balancerV2 (metadata : BalancerV2Metadata)
  | curve (metadata : CurveMetadata)
  | unknown
  | custom (tag : ℕ)
deriving DecidableEq

/-- A registered pool.  `tokens` is the runtime's own token accessor, which
the liquidity index reads instead of the metadata. -/
structure PoolRegistration where
  key : PoolKey
  status : PoolStatus
  metadata : ProtocolMetadata
  tokens : Option (List Address)
deriving DecidableEq

/-- Addresses a simulation is executed with. -/
structure SimConfig where
  v3Quoter : Address
  v2Router : Address
  sender : Address
deriving DecidableEq

inductive SimError
  | unsupported
  | failed (reason : Text)
deriving DecidableEq

/-- A swap simulator over one fixed cache state. -/
structure Adapter where
  simulateSwap :
    PoolRegistration → Address → Address → U256 → SimConfig →
      Except SimError U256

/-- Registered pools and per-protocol adapters. -/
structure AdapterRegistry where
  pools : List PoolRegistration
  adapter : ProtocolId → Option Adapter
  nodup_keys : (pools.map PoolRegistration.key).Nodup

namespace AdapterRegistry

def pool (registry : AdapterRegistry) (key : PoolKey) :
    Option PoolRegistration :=
  registry.pools.find? fun registration => registration.key = key

theorem pool_eq_some_iff (registry : AdapterRegistry) (key : PoolKey)
    (registration : PoolRegistration) :
    registry.pool key = some registration ↔
      registration ∈ registry.pools ∧ registration.key = key := by
  constructor
  · intro hpool
    exact ⟨List.mem_of_find?_eq_some hpool,
      by simpa using List.find?_some hpool⟩
  · rintro ⟨hmem, rfl⟩
    have hunique := List.inj_on_of_nodup_map registry.nodup_keys
    cases hfind : registry.pool registration.key with
    | none =>
        have hnone := List.find?_eq_none.mp hfind registration hmem
        simp at hnone
    | some found =>
        have hkey : found.key = registration.key := by
          simpa using List.find?_some hfind
        rw [hunique (List.mem_of_find?_eq_some hfind) hmem hkey]

end AdapterRegistry

end AmmSearch
