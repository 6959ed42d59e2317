/-
The packed route format.  The contract reads back from a built route exactly the
hops it was built from, and a route that it walks to the end is the packing of the
hops it read.
-/
import AmmSearch.ExecutorRoute

open BigEndian

namespace AmmSearch

def HopPayload.bytes : HopPayload → List Byte
  | none => []
  | feeBps fee => encode 2 fee
  | poolId id => encode 32 id.val
  | coins input output => [input, output]

namespace RouterHop

/-- The packed record of a hop. -/
def bytes (hop : RouterHop) : List Byte :=
  hop.protocol :: (addressBytes hop.endpoint ++ addressBytes hop.tokenIn ++
    addressBytes hop.tokenOut ++ hop.payload.bytes)

/-- The payload is the one of the protocol. -/
def WellFormed (hop : RouterHop) : Prop :=
  match hop.payload with
  | .feeBps fee => hop.protocol = 0 ∧ fee < 10000
  | .none => hop.protocol = 1 ∨ hop.protocol = 2 ∨ hop.protocol = 3 ∨ hop.protocol = 4
  | .poolId _ => hop.protocol = 5
  | .coins _ _ => hop.protocol = 6 ∨ hop.protocol = 7 ∨ hop.protocol = 8

/-- The hops lead from one token to the other. -/
def Connected : Address → List RouterHop → Address → Prop
  | token, [], final => token = final
  | token, hop :: rest, final => hop.tokenIn = token ∧ Connected hop.tokenOut rest final

end RouterHop

/-- The packing of a route. -/
def routeBytes (finalToken : Address) (hops : List RouterHop) : List Byte :=
  addressBytes finalToken ++ hops.flatMap RouterHop.bytes

namespace ExperimentalExecutorRouter

section Fields

theorem map_eq_ok {ε α β : Type} {result : Except ε α} {f : α → β} {value : β}
    (hmap : result.map f = .ok value) : ∃ found, result = .ok found ∧ f found = value := by
  cases result with
  | error error => cases hmap
  | ok found => exact ⟨found, rfl, Except.ok.inj hmap⟩

theorem requireRoute_eq_ok {data : List Byte} {offset length : ℕ} :
    requireRoute data offset length = .ok () ↔ offset + length ≤ data.length := by
  unfold requireRoute
  split
  · rename_i hshort
    simp only [reduceCtorEq, false_iff]
    omega
  · rename_i hlong
    simp only [true_iff]
    omega

theorem address_lt (address : Address) : address.val < 256 ^ 20 := by
  have hlt := address.isLt
  omega

theorem readAddress_append (front back : List Byte) (address : Address) :
    readAddress (front ++ (addressBytes address ++ back)) front.length = address := by
  unfold readAddress addressBytes
  rw [read_append (address_lt address)]
  exact Fin.ofNat_val_eq_self address

theorem readUint8_append (front back : List Byte) (byte : Byte) :
    readUint8 (front ++ byte :: back) front.length = byte := by
  have hbytes : byte :: back = encode 1 byte.val ++ back := by
    simp [encode]
  unfold readUint8
  rw [hbytes, read_append (by have := byte.isLt; omega)]
  exact Fin.ofNat_val_eq_self byte

theorem readUint16_append (front back : List Byte) {fee : ℕ} (hfee : fee < 10000) :
    readUint16 (front ++ (encode 2 fee ++ back)) front.length = fee :=
  read_append (by omega)

theorem readBytes32_append (front back : List Byte) (id : U256) :
    readBytes32 (front ++ (encode 32 id.val ++ back)) front.length = id := by
  unfold readBytes32
  rw [read_append (by have := id.isLt; omega)]
  exact Fin.ofNat_val_eq_self id

/-- The bytes of a field that lies inside the route. -/
theorem addressBytes_readAddress {data : List Byte} {offset : ℕ}
    (hbound : offset + 20 ≤ data.length) :
    addressBytes (readAddress data offset) = (data.drop offset).take 20 := by
  have hlt := read_lt data offset 20
  unfold addressBytes readAddress
  rw [Fin.val_ofNat, Nat.mod_eq_of_lt (by omega), encode_read hbound]

theorem readUint8_eq {data : List Byte} {offset : ℕ} (hbound : offset + 1 ≤ data.length) :
    [readUint8 data offset] = (data.drop offset).take 1 := by
  have hlt := read_lt data offset 1
  rw [← encode_read hbound]
  simp [readUint8, encode]

end Fields

section Encoded

@[simp]
theorem length_addressBytes (address : Address) : (addressBytes address).length = 20 :=
  length_encode 20 address.val

/-- Reading an address at the place where it was packed. -/
theorem readAddress_of_eq (front : List Byte) {route back : List Byte} {address : Address}
    {offset : ℕ} (hroute : route = front ++ (addressBytes address ++ back))
    (hoffset : offset = front.length) :
    readAddress route offset = address := by
  rw [hroute, hoffset]
  exact readAddress_append front back address

/-- The four fields in front of a record. -/
theorem readCommon_append (front : List Byte) {route back : List Byte} {protocol : Byte}
    {endpoint tokenIn tokenOut : Address}
    (hroute : route = front ++ (protocol :: (addressBytes endpoint ++ addressBytes tokenIn ++
      addressBytes tokenOut ++ back))) :
    requireRoute route front.length hopCommonSize = .ok () ∧
      readUint8 route front.length = protocol ∧
      readAddress route (front.length + 1) = endpoint ∧
      readAddress route (front.length + 21) = tokenIn ∧
      readAddress route (front.length + 41) = tokenOut := by
  refine ⟨?_, ?_, ?_, ?_, ?_⟩
  · rw [requireRoute_eq_ok, hroute]
    simp [hopCommonSize]
    omega
  · rw [hroute]
    exact readUint8_append front _ protocol
  · apply readAddress_of_eq (front ++ [protocol])
    · simpa using hroute
    · simp
  · apply readAddress_of_eq (front ++ protocol :: addressBytes endpoint)
    · simpa using hroute
    · simp
  · apply readAddress_of_eq (front ++ protocol :: (addressBytes endpoint ++ addressBytes tokenIn))
    · simpa using hroute
    · simp

theorem readPayload_append (front back : List Byte) {hop : RouterHop} (hformed : hop.WellFormed) :
    readPayload (front ++ (hop.payload.bytes ++ back)) front.length hop.protocol =
      .ok (hop.payload, front.length + hop.payload.bytes.length) := by
  obtain ⟨protocol, endpoint, tokenIn, tokenOut, payload⟩ := hop
  cases payload with
  | none =>
      simp only [RouterHop.WellFormed] at hformed
      obtain rfl | rfl | rfl | rfl := hformed <;> rfl
  | feeBps fee =>
      simp only [RouterHop.WellFormed] at hformed
      obtain ⟨rfl, hfee⟩ := hformed
      have hbound : requireRoute (front ++ (encode 2 fee ++ back)) front.length 2 = .ok () := by
        rw [requireRoute_eq_ok]
        simp
      have hnot : ¬10000 ≤ fee := by omega
      simp [readPayload, HopPayload.bytes, hbound, readUint16_append front back hfee, hnot]
  | poolId id =>
      simp only [RouterHop.WellFormed] at hformed
      subst hformed
      have hbound :
          requireRoute (front ++ (encode 32 id.val ++ back)) front.length 32 = .ok () := by
        rw [requireRoute_eq_ok]
        simp
      simp [readPayload, HopPayload.bytes, hbound, readBytes32_append front back id]
  | coins input output =>
      simp only [RouterHop.WellFormed] at hformed
      have hbound : requireRoute (front ++ input :: output :: back) front.length 2 = .ok () := by
        rw [requireRoute_eq_ok]
        simp
      have hinput : readUint8 (front ++ input :: output :: back) front.length = input :=
        readUint8_append front (output :: back) input
      have houtput : readUint8 (front ++ input :: output :: back) (front.length + 1) = output := by
        have happend := readUint8_append (front ++ [input]) back output
        simpa using happend
      obtain rfl | rfl | rfl := hformed <;>
        simp [readPayload, HopPayload.bytes, hbound, hinput, houtput]

/-- Walking a packed route returns its hops. -/
theorem walk_append (tokenOut : Address) (hops : List RouterHop) (front : List Byte) (fuel : ℕ)
    (token : Address) (hfuel : hops.length < fuel) (hformed : ∀ hop ∈ hops, hop.WellFormed)
    (hconnected : RouterHop.Connected token hops tokenOut) :
    walk (front ++ hops.flatMap RouterHop.bytes) tokenOut fuel front.length token =
      .ok hops := by
  induction hops generalizing front fuel token with
  | nil =>
      cases fuel with
      | zero => omega
      | succ fuel =>
          rw [walk, if_neg (by simp)]
          simp only [RouterHop.Connected] at hconnected
          simp [hconnected]
  | cons hop rest ih =>
      cases fuel with
      | zero => omega
      | succ fuel =>
          obtain ⟨htoken, hrest⟩ := hconnected
          rw [List.forall_mem_cons] at hformed
          generalize hroute : front ++ (hop :: rest).flatMap RouterHop.bytes = route
          have hrecord : route = front ++ (hop.protocol :: (addressBytes hop.endpoint ++
              addressBytes hop.tokenIn ++ addressBytes hop.tokenOut ++
                (hop.payload.bytes ++ rest.flatMap RouterHop.bytes))) := by
            rw [← hroute]
            simp [RouterHop.bytes]
          obtain ⟨hrequire, hprotocol, hendpoint, hin, hout⟩ := readCommon_append front hrecord
          let common := front ++ hop.protocol :: (addressBytes hop.endpoint ++
            (addressBytes hop.tokenIn ++ addressBytes hop.tokenOut))
          have hcommon : common.length = front.length + hopCommonSize := by
            simp [common, hopCommonSize]
          have hpayload : readPayload route (front.length + hopCommonSize) hop.protocol =
              .ok (hop.payload, common.length + hop.payload.bytes.length) := by
            have happend := readPayload_append common (rest.flatMap RouterHop.bytes) hformed.1
            have hsplit : route = common ++ (hop.payload.bytes ++
                rest.flatMap RouterHop.bytes) := by
              rw [hrecord]
              simp [common]
            rw [← hcommon, hsplit]
            exact happend
          have hlong := requireRoute_eq_ok.mp hrequire
          have hnext : walk route tokenOut fuel (common.length + hop.payload.bytes.length)
              hop.tokenOut = .ok rest := by
            have hwalk := ih (common ++ hop.payload.bytes) fuel hop.tokenOut
              (by simpa using hfuel) hformed.2 hrest
            have hsplit : route = common ++ hop.payload.bytes ++
                rest.flatMap RouterHop.bytes := by
              rw [hrecord]
              simp [common]
            rwa [← hsplit, List.length_append] at hwalk
          have hinside : front.length < route.length := by
            have hpositive : 0 < hopCommonSize := by decide
            omega
          rw [walk, if_pos hinside, hrequire]
          simp only [hprotocol, hendpoint, hin, hout, htoken, hpayload, hnext, ne_eq,
            not_true_eq_false, if_false]
          rw [← htoken]
          rfl

end Encoded

section Walked

/-- What a branch on the tag has read stands in the route, and fits the tag. -/
theorem readPayload_spec {route : List Byte} {offset next : ℕ} {protocol : Byte}
    {payload : HopPayload} (hread : readPayload route offset protocol = .ok (payload, next))
    (hoffset : offset ≤ route.length) :
    next ≤ route.length ∧ route.drop offset = payload.bytes ++ route.drop next ∧
      ∀ endpoint tokenIn tokenOut,
        (RouterHop.mk protocol endpoint tokenIn tokenOut payload).WellFormed := by
  -- a field of `width` bytes and the rest behind it
  have hsplit : ∀ width, offset + width ≤ route.length →
      route.drop offset = (route.drop offset).take width ++ route.drop (offset + width) := by
    intro width _
    rw [← List.drop_drop, List.take_append_drop]
  unfold readPayload at hread
  split at hread
  · rename_i hprotocol
    split at hread
    · cases hread
    · rename_i hrequire
      rw [requireRoute_eq_ok] at hrequire
      simp only at hread
      split at hread
      · cases hread
      · rename_i hfee
        obtain ⟨rfl, rfl⟩ := Prod.mk.inj (Except.ok.inj hread)
        refine ⟨hrequire, ?_, ?_⟩
        · rw [HopPayload.bytes, readUint16, encode_read hrequire]
          exact hsplit 2 hrequire
        · intro _ _ _
          exact ⟨hprotocol, by omega⟩
  · split at hread
    · rename_i hprotocol
      obtain ⟨rfl, rfl⟩ := Prod.mk.inj (Except.ok.inj hread)
      refine ⟨hoffset, rfl, fun _ _ _ => ?_⟩
      simp only [RouterHop.WellFormed]
      tauto
    · split at hread
      · rename_i hprotocol
        obtain ⟨rfl, rfl⟩ := Prod.mk.inj (Except.ok.inj hread)
        refine ⟨hoffset, rfl, fun _ _ _ => ?_⟩
        simp only [RouterHop.WellFormed]
        tauto
      · split at hread
        · rename_i hprotocol
          split at hread
          · cases hread
          · rename_i hrequire
            rw [requireRoute_eq_ok] at hrequire
            obtain ⟨rfl, rfl⟩ := Prod.mk.inj (Except.ok.inj hread)
            refine ⟨hrequire, ?_, fun _ _ _ => hprotocol⟩
            have hlt := read_lt route offset 32
            rw [HopPayload.bytes, readBytes32, Fin.val_ofNat, Nat.mod_eq_of_lt (by omega),
              encode_read hrequire]
            exact hsplit 32 hrequire
        · split at hread
          · rename_i hprotocol
            split at hread
            · cases hread
            · rename_i hrequire
              rw [requireRoute_eq_ok] at hrequire
              obtain ⟨rfl, rfl⟩ := Prod.mk.inj (Except.ok.inj hread)
              refine ⟨hrequire, ?_, fun _ _ _ => hprotocol⟩
              have hfirst := readUint8_eq (show offset + 1 ≤ route.length by omega)
              have hsecond := readUint8_eq (show offset + 1 + 1 ≤ route.length by omega)
              have hlast : route.drop (offset + 2) = (route.drop (offset + 1)).drop 1 := by
                rw [List.drop_drop]
              have hmiddle : route.drop (offset + 1) = (route.drop offset).drop 1 := by
                rw [List.drop_drop]
              rw [HopPayload.bytes, ← List.singleton_append, hfirst, hsecond, List.append_assoc,
                hlast, List.take_append_drop, hmiddle, List.take_append_drop]
          · cases hread

/-- The common part of a record. -/
theorem drop_common {route : List Byte} {offset : ℕ}
    (hbound : offset + hopCommonSize ≤ route.length) :
    route.drop offset = readUint8 route offset ::
      (addressBytes (readAddress route (offset + 1)) ++
        addressBytes (readAddress route (offset + 21)) ++
        addressBytes (readAddress route (offset + 41)) ++
        route.drop (offset + hopCommonSize)) := by
  rw [hopCommonSize] at hbound ⊢
  have htag := readUint8_eq (show offset + 1 ≤ route.length by omega)
  rw [← List.singleton_append, htag, addressBytes_readAddress (by omega),
    addressBytes_readAddress (by omega), addressBytes_readAddress (by omega),
    List.append_assoc, List.append_assoc]
  have h41 : route.drop (offset + 61) = (route.drop (offset + 41)).drop 20 := by
    rw [List.drop_drop]
  have h21 : route.drop (offset + 41) = (route.drop (offset + 21)).drop 20 := by
    rw [List.drop_drop]
  have h1 : route.drop (offset + 21) = (route.drop (offset + 1)).drop 20 := by
    rw [List.drop_drop]
  have h0 : route.drop (offset + 1) = (route.drop offset).drop 1 := by
    rw [List.drop_drop]
  rw [h41, List.take_append_drop, h21, List.take_append_drop, h1, List.take_append_drop, h0,
    List.take_append_drop]

/-- A walk to the end has read the packing of its hops. -/
theorem walk_spec {route : List Byte} {tokenOut : Address} (fuel : ℕ) {offset : ℕ}
    {token : Address} {hops : List RouterHop} (hoffset : offset ≤ route.length)
    (hwalk : walk route tokenOut fuel offset token = .ok hops) :
    route.drop offset = hops.flatMap RouterHop.bytes ∧
      (∀ hop ∈ hops, hop.WellFormed) ∧ RouterHop.Connected token hops tokenOut := by
  induction fuel generalizing offset token hops with
  | zero => cases hwalk
  | succ fuel ih =>
      rw [walk] at hwalk
      split at hwalk
      · split at hwalk
        · cases hwalk
        · rename_i hrequire
          rw [requireRoute_eq_ok] at hrequire
          simp only at hwalk
          split at hwalk
          · cases hwalk
          · rename_i htoken
            split at hwalk
            · cases hwalk
            · rename_i payload next hread
              obtain ⟨rest, hrest, rfl⟩ := map_eq_ok hwalk
              obtain ⟨hnext, hpayload, hformed⟩ := readPayload_spec hread hrequire
              obtain ⟨hdrop, hrestFormed, hconnected⟩ := ih hnext hrest
              refine ⟨?_, ?_, ?_⟩
              · rw [drop_common hrequire, hpayload, hdrop]
                simp [RouterHop.bytes]
              · rw [List.forall_mem_cons]
                exact ⟨hformed _ _ _, hrestFormed⟩
              · exact ⟨not_not.mp htoken, hconnected⟩
      · rename_i hend
        split at hwalk
        · cases hwalk
        · rename_i htoken
          obtain rfl := Except.ok.inj hwalk
          refine ⟨List.drop_eq_nil_of_le (by omega), by simp, not_not.mp htoken⟩

/-- Executing a packed route returns its hops. -/
theorem execute_routeBytes {tokenIn tokenOut : Address} {hops : List RouterHop} (hne : hops ≠ [])
    (hformed : ∀ hop ∈ hops, hop.WellFormed)
    (hconnected : RouterHop.Connected tokenIn hops tokenOut) :
    execute (routeBytes tokenOut hops) tokenIn tokenOut = .ok hops := by
  have hlength : hopCommonSize * hops.length ≤ (hops.flatMap RouterHop.bytes).length := by
    clear hne hformed hconnected
    induction hops with
    | nil => simp
    | cons hop rest ih =>
        have hrecord : hopCommonSize ≤ hop.bytes.length := by
          simp [RouterHop.bytes, hopCommonSize]
          omega
        rw [List.flatMap_cons, List.length_append, List.length_cons, Nat.mul_succ]
        omega
  have hpositive : 1 ≤ hops.length := List.length_pos_iff.mpr hne
  have hroute : (routeBytes tokenOut hops).length =
      20 + (hops.flatMap RouterHop.bytes).length := by
    simp [routeBytes]
  simp only [hopCommonSize] at hlength
  have hrequire : requireRoute (routeBytes tokenOut hops) 0 (20 + hopCommonSize) = .ok () := by
    rw [requireRoute_eq_ok, hopCommonSize]
    omega
  have hfinal : readAddress (routeBytes tokenOut hops) 0 = tokenOut := by
    apply readAddress_of_eq []
    · rw [routeBytes, List.nil_append]
    · rfl
  have hwalk := walk_append tokenOut hops (addressBytes tokenOut)
    (routeBytes tokenOut hops).length tokenIn (by omega) hformed hconnected
  rw [length_addressBytes, ← routeBytes] at hwalk
  rw [execute, hrequire]
  simp only [hfinal, ne_eq, not_true_eq_false, if_false]
  rw [hwalk]

/-- An executed route is the packing of its hops. -/
theorem routeBytes_of_execute {route : List Byte} {tokenIn tokenOut : Address}
    {hops : List RouterHop} (hexecute : execute route tokenIn tokenOut = .ok hops) :
    route = routeBytes tokenOut hops := by
  unfold execute at hexecute
  split at hexecute
  · cases hexecute
  · rename_i hrequire
    rw [requireRoute_eq_ok] at hrequire
    simp only at hexecute
    split at hexecute
    · cases hexecute
    · rename_i hfinal
      have hbound : 20 ≤ route.length := by omega
      have htoken := addressBytes_readAddress (show 0 + 20 ≤ route.length by omega)
      rw [not_not.mp hfinal, List.drop_zero] at htoken
      obtain ⟨hdrop, _, _⟩ := walk_spec _ hbound hexecute
      rw [routeBytes, htoken, ← hdrop, List.take_append_drop]

end Walked

end ExperimentalExecutorRouter

section Build

variable (runtime : ExecutorRegistry)

/-- What the router is to read for a hop, as the key and the registration of its pool
have it: tag, endpoint, tokens, and fee, pool id or coin indices. -/
inductive HopReading (hop : Hop) : RouterHop → Prop
  | uniswapV2 {registration : PoolRegistration} {metadata : UniswapV2Metadata}
      {pool : Address} {fee : ℕ} (hpool : runtime.registry.pool hop.pool = some registration)
      (hprotocol : hop.pool.protocol = .uniswapV2) (haddress : hop.pool.address = some pool)
      (hmetadata : registration.metadata = .uniswapV2 metadata)
      (hfee : metadata.feeBps = some fee) :
      HopReading hop ⟨0, pool, hop.tokenIn, hop.tokenOut, .feeBps fee⟩
  | uniswapV3 {registration : PoolRegistration} {metadata : V3Metadata} {pool : Address}
      (hpool : runtime.registry.pool hop.pool = some registration)
      (hprotocol : hop.pool.protocol = .uniswapV3) (haddress : hop.pool.address = some pool)
      (hmetadata : registration.metadata = .uniswapV3 metadata) :
      HopReading hop ⟨1, pool, hop.tokenIn, hop.tokenOut, .none⟩
  | pancakeV3 {registration : PoolRegistration} {metadata : V3Metadata} {pool : Address}
      (hpool : runtime.registry.pool hop.pool = some registration)
      (hprotocol : hop.pool.protocol = .pancakeV3) (haddress : hop.pool.address = some pool)
      (hmetadata : registration.metadata = .pancakeV3 metadata) :
      HopReading hop ⟨2, pool, hop.tokenIn, hop.tokenOut, .none⟩
  | slipstream {registration : PoolRegistration} {metadata : V3Metadata} {pool : Address}
      (hpool : runtime.registry.pool hop.pool = some registration)
      (hprotocol : hop.pool.protocol = .slipstream) (haddress : hop.pool.address = some pool)
      (hmetadata : registration.metadata = .slipstream metadata) :
      HopReading hop ⟨3, pool, hop.tokenIn, hop.tokenOut, .none⟩
  | solidlyV2 {registration : PoolRegistration} {metadata : SolidlyV2Metadata} {pool : Address}
      (hpool : runtime.registry.pool hop.pool = some registration)
      (hprotocol : hop.pool.protocol = .solidlyV2) (haddress : hop.pool.address = some pool)
      (hmetadata : registration.metadata = .solidlyV2 metadata) :
      HopReading hop ⟨4, pool, hop.tokenIn, hop.tokenOut, .none⟩
  | balancerV2 {registration : PoolRegistration} {metadata : BalancerV2Metadata}
      {vault : Address} (hpool : runtime.registry.pool hop.pool = some registration)
      (hprotocol : hop.pool.protocol = .balancerV2)
      (hmetadata : registration.metadata = .balancerV2 metadata)
      (hvault : (metadata.vault <|> (runtime.stateAddresses hop.pool).head?) = some vault) :
      HopReading hop
        ⟨5, vault, hop.tokenIn, hop.tokenOut, .poolId (runtime.poolId hop.pool)⟩
  | curve {registration : PoolRegistration} {metadata : CurveMetadata} {pool : Address}
      {protocol input output : Byte}
      (hpool : runtime.registry.pool hop.pool = some registration)
      (hprotocol : hop.pool.protocol = .curve) (haddress : hop.pool.address = some pool)
      (hmetadata : registration.metadata = .curve metadata)
      (hinput : metadata.coins.findIdx? (· = hop.tokenIn) = some input.val)
      (houtput : metadata.coins.findIdx? (· = hop.tokenOut) = some output.val)
      (hvariant : (runtime.curveVariant hop.pool = .stableSwap ∧ protocol = 6) ∨
        (runtime.curveVariant hop.pool = .cryptoSwap ∧ protocol = 7) ∨
        (runtime.curveVariant hop.pool = .cryptoSwapNG ∧ protocol = 8)) :
      HopReading hop ⟨protocol, pool, hop.tokenIn, hop.tokenOut, .coins input output⟩

variable {runtime}

theorem bind_eq_ok {α β : Type} {first : Except ExecutionError α}
    {second : α → Except ExecutionError β} {value : β} :
    (first >>= second) = .ok value ↔ ∃ found, first = .ok found ∧ second found = .ok value := by
  cases first with
  | error reasons => simp [bind, Except.bind]
  | ok found => simp [bind, Except.bind]

theorem ensure_eq_ok {condition : Bool} {reason : String} {result : Unit} :
    ensure condition reason = .ok result ↔ condition = true := by
  cases condition <;> simp [ensure, bail]

theorem orContext_eq_ok {α : Type} {value : Option α} {reason : Text} {found : α} :
    orContext value reason = .ok found ↔ value = some found := by
  cases value <;> simp [orContext, bail]

theorem HopReading.tokens {hop : Hop} {reading : RouterHop}
    (hreading : HopReading runtime hop reading) :
    reading.tokenIn = hop.tokenIn ∧ reading.tokenOut = hop.tokenOut := by
  cases hreading <;> exact ⟨rfl, rfl⟩

/-- An accepted hop is packed as its reading. -/
theorem packHop_spec {hop : Hop} {bytes : List Byte} (hpack : packHop runtime hop = .ok bytes) :
    ∃ reading, HopReading runtime hop reading ∧ reading.WellFormed ∧ reading.bytes = bytes := by
  unfold packHop at hpack
  obtain ⟨registration, hpool, hpack⟩ := bind_eq_ok.mp hpack
  rw [orContext_eq_ok] at hpool
  obtain ⟨⟨protocol, endpoint, extra⟩, hrecord, hbytes⟩ := bind_eq_ok.mp hpack
  simp only [Except.ok.injEq] at hbytes
  subst hbytes
  unfold hopRecord at hrecord
  split at hrecord
  · rename_i pool metadata hprotocol haddress hmetadata
    obtain ⟨fee, hfee, hrecord⟩ := bind_eq_ok.mp hrecord
    obtain ⟨_, hsmall, hrecord⟩ := bind_eq_ok.mp hrecord
    obtain ⟨_, _, hrecord⟩ := bind_eq_ok.mp hrecord
    rw [orContext_eq_ok] at hfee
    rw [ensure_eq_ok, decide_eq_true_eq] at hsmall
    obtain ⟨rfl, rfl, rfl⟩ : 0 = protocol ∧ pool = endpoint ∧ encode 2 fee = extra := by
      simpa using hrecord
    exact ⟨_, .uniswapV2 hpool hprotocol haddress hmetadata hfee, ⟨rfl, hsmall⟩, rfl⟩
  · rename_i pool metadata hprotocol haddress hmetadata
    obtain ⟨rfl, rfl, rfl⟩ : 1 = protocol ∧ pool = endpoint ∧ [] = extra := by
      simpa using hrecord
    exact ⟨_, .uniswapV3 hpool hprotocol haddress hmetadata, Or.inl rfl, rfl⟩
  · rename_i pool metadata hprotocol haddress hmetadata
    obtain ⟨rfl, rfl, rfl⟩ : 2 = protocol ∧ pool = endpoint ∧ [] = extra := by
      simpa using hrecord
    exact ⟨_, .pancakeV3 hpool hprotocol haddress hmetadata, Or.inr (Or.inl rfl), rfl⟩
  · rename_i pool metadata hprotocol haddress hmetadata
    obtain ⟨rfl, rfl, rfl⟩ : 3 = protocol ∧ pool = endpoint ∧ [] = extra := by
      simpa using hrecord
    exact ⟨_, .slipstream hpool hprotocol haddress hmetadata, Or.inr (Or.inr (Or.inl rfl)), rfl⟩
  · rename_i pool metadata hprotocol haddress hmetadata
    obtain ⟨rfl, rfl, rfl⟩ : 4 = protocol ∧ pool = endpoint ∧ [] = extra := by
      simpa using hrecord
    exact ⟨_, .solidlyV2 hpool hprotocol haddress hmetadata, Or.inr (Or.inr (Or.inr rfl)), rfl⟩
  · rename_i metadata hprotocol hmetadata
    obtain ⟨vault, hvault, hrecord⟩ := bind_eq_ok.mp hrecord
    rw [orContext_eq_ok] at hvault
    obtain ⟨rfl, rfl, rfl⟩ : 5 = protocol ∧ vault = endpoint ∧
        encode 32 (runtime.poolId hop.pool).val = extra := by
      simpa using hrecord
    exact ⟨_, .balancerV2 hpool hprotocol hmetadata hvault, rfl, rfl⟩
  · rename_i pool metadata hprotocol haddress hmetadata
    obtain ⟨input, hinput, hrecord⟩ := bind_eq_ok.mp hrecord
    obtain ⟨output, houtput, hrecord⟩ := bind_eq_ok.mp hrecord
    obtain ⟨_, _, hrecord⟩ := bind_eq_ok.mp hrecord
    obtain ⟨_, hinputLt, hrecord⟩ := bind_eq_ok.mp hrecord
    obtain ⟨_, houtputLt, hrecord⟩ := bind_eq_ok.mp hrecord
    rw [orContext_eq_ok] at hinput houtput
    rw [ensure_eq_ok, decide_eq_true_eq] at hinputLt houtputLt
    have hinputVal : input = (Fin.ofNat 256 input).val := by
      rw [Fin.val_ofNat, Nat.mod_eq_of_lt (by omega)]
    have houtputVal : output = (Fin.ofNat 256 output).val := by
      rw [Fin.val_ofNat, Nat.mod_eq_of_lt (by omega)]
    rw [hinputVal] at hinput
    rw [houtputVal] at houtput
    split at hrecord
    · rename_i hvariant
      obtain ⟨rfl, rfl, rfl⟩ : 6 = protocol ∧ pool = endpoint ∧
          [Fin.ofNat 256 input, Fin.ofNat 256 output] = extra := by
        simpa using hrecord
      exact ⟨_, .curve hpool hprotocol haddress hmetadata hinput houtput
        (Or.inl ⟨hvariant, rfl⟩), Or.inl rfl, rfl⟩
    · rename_i hvariant
      obtain ⟨rfl, rfl, rfl⟩ : 7 = protocol ∧ pool = endpoint ∧
          [Fin.ofNat 256 input, Fin.ofNat 256 output] = extra := by
        simpa using hrecord
      exact ⟨_, .curve hpool hprotocol haddress hmetadata hinput houtput
        (Or.inr (Or.inl ⟨hvariant, rfl⟩)), Or.inr (Or.inl rfl), rfl⟩
    · rename_i hvariant
      obtain ⟨rfl, rfl, rfl⟩ : 8 = protocol ∧ pool = endpoint ∧
          [Fin.ofNat 256 input, Fin.ofNat 256 output] = extra := by
        simpa using hrecord
      exact ⟨_, .curve hpool hprotocol haddress hmetadata hinput houtput
        (Or.inr (Or.inr ⟨hvariant, rfl⟩)), Or.inr (Or.inr rfl), rfl⟩
    · cases hrecord
  · cases hrecord
  · cases hrecord

theorem mapM_packHop {path : RoutePath} {records : List (List Byte)}
    (hrecords : path.mapM (packHop runtime) = .ok records) :
    ∃ hops, List.Forall₂ (HopReading runtime) path hops ∧ (∀ hop ∈ hops, hop.WellFormed) ∧
      hops.flatMap RouterHop.bytes = records.flatten := by
  induction path generalizing records with
  | nil =>
      obtain rfl : [] = records := by simpa [pure, Except.pure] using hrecords
      exact ⟨[], .nil, by simp, rfl⟩
  | cons hop rest ih =>
      rw [List.mapM_cons] at hrecords
      obtain ⟨record, hrecord, hrecords⟩ := bind_eq_ok.mp hrecords
      obtain ⟨others, hothers, hrecords⟩ := bind_eq_ok.mp hrecords
      obtain rfl : record :: others = records := by simpa [pure, Except.pure] using hrecords
      obtain ⟨reading, hreading, hformed, hbytes⟩ := packHop_spec hrecord
      obtain ⟨hops, hhops, hrestFormed, hrestBytes⟩ := ih hothers
      refine ⟨reading :: hops, .cons hreading hhops, ?_, ?_⟩
      · rw [List.forall_mem_cons]
        exact ⟨hformed, hrestFormed⟩
      · rw [List.flatMap_cons, hbytes, hrestBytes, List.flatten_cons]

/-- The trace check makes the hops lead from the first token to the last. -/
theorem connected_of_validateTrace {path : RoutePath} {quotes : List HopQuote}
    {expected : Option Address} {amount result : U256} {hops : List RouterHop}
    (hlength : path.length = quotes.length)
    (htrace : validateTrace expected amount (path.zip quotes) = .ok result)
    (hhops : List.Forall₂ (HopReading runtime) path hops) {first final : Hop}
    (hfirst : path.head? = some first) (hfinal : path.getLast? = some final) :
    RouterHop.Connected first.tokenIn hops final.tokenOut ∧
      ∀ token ∈ expected, first.tokenIn = token := by
  induction hhops generalizing quotes expected amount first with
  | nil => cases hfirst
  | @cons hop reading rest readings hreading hrest ih =>
      obtain rfl : hop = first := by simpa using hfirst
      cases quotes with
      | nil => simp at hlength
      | cons quoted quotes =>
          rw [List.zip_cons_cons, validateTrace] at htrace
          obtain ⟨_, _, htrace⟩ := bind_eq_ok.mp htrace
          obtain ⟨_, htoken, htrace⟩ := bind_eq_ok.mp htrace
          obtain ⟨_, _, htrace⟩ := bind_eq_ok.mp htrace
          rw [ensure_eq_ok] at htoken
          refine ⟨⟨hreading.tokens.1, ?_⟩, ?_⟩
          · cases hrest with
            | nil =>
                obtain rfl : hop = final := by simpa using hfinal
                exact hreading.tokens.2
            | @cons next _ following _ _ _ =>
                have hlast : (next :: following).getLast? = some final := by
                  simpa using hfinal
                obtain ⟨hconnected, hnext⟩ := ih (by simpa using hlength) htrace rfl hlast
                rw [hreading.tokens.2, ← hnext hop.tokenOut rfl]
                exact hconnected
          · intro token hexpected
            rw [Option.mem_def] at hexpected
            simpa [hexpected] using htoken

theorem authorizedCall_params {request : ExecutionRequest} {params : ExactInputParams}
    {data : RouterCall} {approval : Option ApprovalRequirement} {value : U256}
    (hcall : authorizedCall request params = .ok (data, approval, value)) :
    data.params = params := by
  unfold authorizedCall at hcall
  split at hcall
  · obtain ⟨rfl, _⟩ := Prod.mk.inj (Except.ok.inj hcall)
    rfl
  · obtain ⟨rfl, _⟩ := Prod.mk.inj (Except.ok.inj hcall)
    rfl
  · obtain ⟨rfl, _⟩ := Prod.mk.inj (Except.ok.inj hcall)
    rfl
  · obtain ⟨_, _, hcall⟩ := bind_eq_ok.mp hcall
    obtain ⟨rfl, _⟩ := Prod.mk.inj (Except.ok.inj hcall)
    rfl

/-- What an accepted build has packed. -/
theorem buildExecutableSwap_spec {routes : List RouteQuote} {request : ExecutionRequest}
    {swap : ExecutableSwap} (hbuild : buildExecutableSwap runtime routes request = .ok swap) :
    ∃ quote hops, routes.head? = some quote ∧
      List.Forall₂ (HopReading runtime) quote.path hops ∧ hops ≠ [] ∧
      (∀ hop ∈ hops, hop.WellFormed) ∧
      RouterHop.Connected swap.data.params.tokenIn hops swap.data.params.tokenOut ∧
      swap.data.params.route = routeBytes swap.data.params.tokenOut hops := by
  unfold buildExecutableSwap at hbuild
  obtain ⟨_, _, hbuild⟩ := bind_eq_ok.mp hbuild
  obtain ⟨quote, hquote, hbuild⟩ := bind_eq_ok.mp hbuild
  obtain ⟨_, hvalid, hbuild⟩ := bind_eq_ok.mp hbuild
  obtain ⟨first, hfirst, hbuild⟩ := bind_eq_ok.mp hbuild
  obtain ⟨final, hfinal, hbuild⟩ := bind_eq_ok.mp hbuild
  obtain ⟨minimum, _, hbuild⟩ := bind_eq_ok.mp hbuild
  obtain ⟨_, _, hbuild⟩ := bind_eq_ok.mp hbuild
  obtain ⟨records, hrecords, hbuild⟩ := bind_eq_ok.mp hbuild
  obtain ⟨⟨data, approval, value⟩, hcall, hswap⟩ := bind_eq_ok.mp hbuild
  rw [orContext_eq_ok] at hquote hfirst hfinal
  have hparams := authorizedCall_params hcall
  obtain rfl := Except.ok.inj hswap
  obtain ⟨hops, hhops, hformed, hbytes⟩ := mapM_packHop hrecords
  unfold validateQuote at hvalid
  obtain ⟨_, _, hvalid⟩ := bind_eq_ok.mp hvalid
  obtain ⟨_, hlength, hvalid⟩ := bind_eq_ok.mp hvalid
  obtain ⟨amount, htrace, _⟩ := bind_eq_ok.mp hvalid
  rw [ensure_eq_ok, decide_eq_true_eq] at hlength
  obtain ⟨hconnected, _⟩ := connected_of_validateTrace hlength htrace hhops hfirst hfinal
  refine ⟨quote, hops, hquote, hhops, ?_, hformed, ?_, ?_⟩
  · rintro rfl
    rw [List.forall₂_nil_right_iff.mp hhops] at hfirst
    cases hfirst
  · rw [hparams]
    exact hconnected
  · rw [hparams, routeBytes, hbytes]

/-- The executor reads back every route the sidecar builds, to the last byte and
without a revert of the parser; and a route that it walks to the end is the packing of
the hops it has read. -/
theorem executorRoute_roundTrip (runtime : ExecutorRegistry) :
    (∀ routes request swap, buildExecutableSwap runtime routes request = .ok swap →
      swap.data.params.tokenIn ≠ swap.data.params.tokenOut →
      ∃ quote hops, routes.head? = some quote ∧
        List.Forall₂ (HopReading runtime) quote.path hops ∧
        ExperimentalExecutorRouter.execute swap.data.params.route swap.data.params.tokenIn
          swap.data.params.tokenOut = .ok hops ∧
        swap.data.params.route = routeBytes swap.data.params.tokenOut hops) ∧
      ∀ route tokenIn tokenOut hops,
        ExperimentalExecutorRouter.execute route tokenIn tokenOut = .ok hops →
        route = routeBytes tokenOut hops := by
  constructor
  · intro routes request swap hbuild _
    obtain ⟨quote, hops, hquote, hhops, hne, hformed, hconnected, hroute⟩ :=
      buildExecutableSwap_spec hbuild
    refine ⟨quote, hops, hquote, hhops, ?_, hroute⟩
    rw [hroute]
    exact ExperimentalExecutorRouter.execute_routeBytes hne hformed hconnected
  · intro route tokenIn tokenOut hops hexecute
    exact ExperimentalExecutorRouter.routeBytes_of_execute hexecute

end Build

namespace ExecutorExample

def poolKey (protocol : ProtocolId) (pool : Address) : PoolKey :=
  ⟨protocol, some pool, []⟩

/-- A Uniswap V2 pool and a Curve pool. -/
def runtime : ExecutorRegistry where
  registry :=
    { pools :=
        [⟨poolKey .uniswapV2 7, .ready, .uniswapV2 ⟨some 1, some 2, some 30⟩, none⟩,
          ⟨poolKey .curve 8, .ready, .curve ⟨[5, 3, 2]⟩, none⟩]
      nodup_keys := by decide
      adapter := fun _ => none }
  poolId := fun _ => 0
  stateAddresses := fun _ => []
  curveVariant := fun _ => .cryptoSwap

def quote : RouteQuote where
  path := [⟨poolKey .uniswapV2 7, 1, 2⟩, ⟨poolKey .curve 8, 2, 3⟩]
  amountIn := 100
  amountOut := 80
  hops := [⟨⟨poolKey .uniswapV2 7, 1, 2⟩, 100, 90⟩, ⟨⟨poolKey .curve 8, 2, 3⟩, 90, 80⟩]

def request : ExecutionRequest where
  deployment := ⟨10, 11, 12⟩
  recipient := 13
  deadline := 1000
  minAmountOut := some 70
  authorization := .allowance

/-- Two hops of different record length survive the round trip. -/
theorem executorRoute_roundTrip_two_hops :
    ∃ swap hops, buildExecutableSwap runtime [quote] request = .ok swap ∧
      ExperimentalExecutorRouter.execute swap.data.params.route swap.data.params.tokenIn
        swap.data.params.tokenOut = .ok hops ∧
      List.Forall₂ (HopReading runtime) quote.path hops ∧
      swap.data.params.route = routeBytes swap.data.params.tokenOut hops := by
  obtain ⟨swap, hbuild⟩ : ∃ swap, buildExecutableSwap runtime [quote] request = .ok swap :=
    ⟨_, rfl⟩
  have hne : swap.data.params.tokenIn ≠ swap.data.params.tokenOut := by
    obtain rfl := Except.ok.inj hbuild
    decide
  obtain ⟨found, hops, hquote, hhops, hexecute, hroute⟩ :=
    (executorRoute_roundTrip runtime).1 [quote] request swap hbuild hne
  obtain rfl : quote = found := by simpa using hquote
  exact ⟨swap, hops, hbuild, hexecute, hhops, hroute⟩

end ExecutorExample

end AmmSearch
