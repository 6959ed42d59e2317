/-
The demo route format.  The demo router reads back every route the estimator packs,
to the last byte and hop by hop; the one value it cannot read back is a patch at the
offset that stands for no patch.
-/
import AmmSearch.DemoRoute

open BigEndian

namespace AmmSearch

namespace DemoRouter

open ExperimentalExecutorRouter

theorem readUint32_of_eq (front : List Byte) {route back : List Byte} {value offset : ℕ}
    (hroute : route = front ++ (encode 4 value ++ back)) (hoffset : offset = front.length)
    (hvalue : value < 2 ^ 32) : readUint32 route offset = value := by
  rw [hroute, hoffset]
  exact read_append (by omega)

/-- What the contract makes of the packed place of a patch. -/
theorem patch_packed (offset : Option ℕ) :
    (if offset.getD u32None ≠ u32None then some (offset.getD u32None) else none) =
      if offset = some u32None then none else offset := by
  cases offset with
  | none => simp
  | some offset =>
      by_cases hnone : offset = u32None
      · simp [hnone]
      · simp [hnone]

/-- The payload of a call, read where it was packed. -/
theorem genericCall_append (front back : List Byte) (spender : Address) {offset : ℕ}
    {calldata : List Byte} (hoffset : offset < 2 ^ 32) (hlength : calldata.length < 2 ^ 32) :
    genericCall (front ++ (addressBytes spender ++ encode 4 offset ++
        encode 4 calldata.length ++ calldata ++ back)) front.length =
      .ok (.call spender (if offset ≠ u32None then some offset else none) calldata,
        front.length + 28 + calldata.length) := by
  generalize hroute : front ++ (addressBytes spender ++ encode 4 offset ++
    encode 4 calldata.length ++ calldata ++ back) = route
  have hheader : requireRoute route front.length 28 = .ok () := by
    rw [requireRoute_eq_ok, ← hroute]
    simp
    omega
  have hspender : readAddress route front.length = spender := by
    apply readAddress_of_eq front
    · rw [← hroute, List.append_assoc, List.append_assoc, List.append_assoc]
    · rfl
  have hplace : readUint32 route (front.length + 20) = offset := by
    apply readUint32_of_eq (front ++ addressBytes spender)
    · rw [← hroute]
      simp
      rfl
    · simp
    · exact hoffset
  have hsize : readUint32 route (front.length + 24) = calldata.length := by
    apply readUint32_of_eq (front ++ addressBytes spender ++ encode 4 offset)
    · rw [← hroute]
      simp
      rfl
    · simp
    · exact hlength
  have hdrop : route.drop (front.length + 28) = calldata ++ back := by
    let header := front ++ addressBytes spender ++ encode 4 offset ++ encode 4 calldata.length
    have hheaderLength : front.length + 28 = header.length := by
      simp [header]
    have hsplit : route = header ++ (calldata ++ back) := by
      rw [← hroute]
      simp [header]
    rw [hheaderLength, hsplit, List.drop_left]
  have hdata : requireRoute route (front.length + 28) calldata.length = .ok () := by
    rw [requireRoute_eq_ok, ← hroute]
    simp
    omega
  unfold genericCall
  simp only [hheader, hspender, hplace, hsize, hdata, hdrop, List.take_left]

/-- A record: its common part, and a payload that is read back from wherever it stands. -/
structure PackedAs (record : List Byte) (hop : DemoReading) : Prop where
  split : ∃ payload,
    record = pushCommon hop.protocol hop.endpoint hop.tokenIn hop.tokenOut ++ payload ∧
    ∀ front back, readPayload (front ++ (payload ++ back)) front.length hop.protocol =
      .ok (hop.payload, front.length + payload.length)

theorem tryU32_eq_ok {value result : ℕ} {reason : String} :
    tryU32 value reason = .ok result ↔ value < 2 ^ 32 ∧ result = value := by
  unfold tryU32
  split
  · rename_i hvalue
    simp only [Except.ok.injEq, hvalue, true_and]
    exact eq_comm
  · rename_i hvalue
    simp only [reduceCtorEq, hvalue, false_and]

theorem packAmountInOffset_spec {amountInOffset : Option ℕ} {packed : ℕ}
    (hpack : packAmountInOffset amountInOffset = .ok packed) :
    packed < 2 ^ 32 ∧ packed = amountInOffset.getD u32None := by
  cases amountInOffset with
  | none =>
      obtain rfl := Except.ok.inj hpack
      exact ⟨by decide, rfl⟩
  | some offset =>
      obtain ⟨hlt, rfl⟩ := tryU32_eq_ok.mp hpack
      exact ⟨hlt, rfl⟩

theorem packGeneric_spec {tokenIn tokenOut : Address} {execution : GenericExecution}
    {record : List Byte} (hpack : packGeneric tokenIn tokenOut execution = .ok record) :
    PackedAs record ⟨255, execution.target, tokenIn, tokenOut,
      .call (execution.spender.getD 0)
        (if execution.amountInOffset = some u32None then none else execution.amountInOffset)
        execution.calldata⟩ := by
  unfold packGeneric at hpack
  obtain ⟨offset, hoffset, hpack⟩ := bind_eq_ok.mp hpack
  obtain ⟨dataLen, hdataLen, hpack⟩ := bind_eq_ok.mp hpack
  obtain ⟨hlength, rfl⟩ := tryU32_eq_ok.mp hdataLen
  obtain rfl := Except.ok.inj hpack
  have hpacked := packAmountInOffset_spec hoffset
  refine ⟨addressBytes (execution.spender.getD 0) ++ encode 4 offset ++
    encode 4 execution.calldata.length ++ execution.calldata, ?_, ?_⟩
  · simp only [List.append_assoc]
  · intro front back
    have hcall := genericCall_append front back (execution.spender.getD 0) hpacked.1 hlength
    have hread : ∀ route nextOffset,
        readPayload route nextOffset 255 = genericCall route nextOffset := fun _ _ => rfl
    rw [hread, hcall, hpacked.2, patch_packed]
    simp
    omega

theorem packed_nothing {protocol : Byte} (endpoint tokenIn tokenOut : Address)
    (hprotocol : protocol = 0 ∨ protocol = 1 ∨ protocol = 2 ∨ protocol = 3 ∨ protocol = 4) :
    PackedAs (pushCommon protocol endpoint tokenIn tokenOut)
      ⟨protocol, endpoint, tokenIn, tokenOut, .none⟩ := by
  refine ⟨[], (List.append_nil _).symm, fun front back => ?_⟩
  obtain rfl | rfl | rfl | rfl | rfl := hprotocol <;> rfl

theorem packed_poolId (endpoint tokenIn tokenOut : Address) (id : U256) :
    PackedAs (pushCommon 5 endpoint tokenIn tokenOut ++ encode 32 id.val)
      ⟨5, endpoint, tokenIn, tokenOut, .poolId id⟩ := by
  refine ⟨encode 32 id.val, rfl, fun front back => ?_⟩
  have hbound : requireRoute (front ++ (encode 32 id.val ++ back)) front.length 32 = .ok () := by
    rw [requireRoute_eq_ok]
    simp
  simp [readPayload, hbound, readBytes32_append front back id]

theorem packed_coins {protocol : Byte} (endpoint tokenIn tokenOut : Address) (i j : Byte)
    (hprotocol : protocol = 6 ∨ protocol = 7 ∨ protocol = 8) :
    PackedAs (pushCommon protocol endpoint tokenIn tokenOut ++ [i, j])
      ⟨protocol, endpoint, tokenIn, tokenOut, .coins i j⟩ := by
  refine ⟨[i, j], rfl, fun front back => ?_⟩
  have hbound : requireRoute (front ++ i :: j :: back) front.length 2 = .ok () := by
    rw [requireRoute_eq_ok]
    simp
  have hi : readUint8 (front ++ i :: j :: back) front.length = i :=
    readUint8_append front (j :: back) i
  have hj : readUint8 (front ++ i :: j :: back) (front.length + 1) = j := by
    have happend := readUint8_append (front ++ [i]) back j
    simpa using happend
  obtain rfl | rfl | rfl := hprotocol <;> simp [readPayload, hbound, hi, hj]

/-- Every accepted hop is packed as what the router will have received. -/
theorem packDemoHop_spec {hop : DemoRouterHop} {record : List Byte}
    (hpack : packDemoHop hop = .ok record) :
    ∃ received, hop.received = some received ∧ PackedAs record received := by
  cases hop with
  | uniswapV2 pool tokenIn tokenOut =>
      obtain rfl := Except.ok.inj hpack
      exact ⟨_, rfl, packed_nothing pool tokenIn tokenOut (by decide)⟩
  | uniswapV3 pool tokenIn tokenOut =>
      obtain rfl := Except.ok.inj hpack
      exact ⟨_, rfl, packed_nothing pool tokenIn tokenOut (by decide)⟩
  | pancakeV3 pool tokenIn tokenOut =>
      obtain rfl := Except.ok.inj hpack
      exact ⟨_, rfl, packed_nothing pool tokenIn tokenOut (by decide)⟩
  | slipstream pool tokenIn tokenOut =>
      obtain rfl := Except.ok.inj hpack
      exact ⟨_, rfl, packed_nothing pool tokenIn tokenOut (by decide)⟩
  | solidlyV2 pool tokenIn tokenOut =>
      obtain rfl := Except.ok.inj hpack
      exact ⟨_, rfl, packed_nothing pool tokenIn tokenOut (by decide)⟩
  | balancerV2 vault poolId tokenIn tokenOut =>
      obtain rfl := Except.ok.inj hpack
      exact ⟨_, rfl, packed_poolId vault tokenIn tokenOut poolId⟩
  | curve pool tokenIn tokenOut variant i j =>
      cases variant with
      | stableSwap =>
          obtain rfl := Except.ok.inj hpack
          exact ⟨_, rfl, packed_coins pool tokenIn tokenOut i j (by decide)⟩
      | cryptoSwap =>
          obtain rfl := Except.ok.inj hpack
          exact ⟨_, rfl, packed_coins pool tokenIn tokenOut i j (by decide)⟩
      | cryptoSwapNG =>
          obtain rfl := Except.ok.inj hpack
          exact ⟨_, rfl, packed_coins pool tokenIn tokenOut i j (by decide)⟩
      | other => cases hpack
  | generic tokenIn tokenOut execution => exact ⟨_, rfl, packGeneric_spec hpack⟩

/-- One record, read where it stands. -/
theorem executeHop_append (front back : List Byte) {record : List Byte} {hop : DemoReading}
    (hpacked : PackedAs record hop) :
    executeHop (front ++ (record ++ back)) front.length =
      .ok (hop, front.length + record.length) := by
  obtain ⟨payload, rfl, hpayload⟩ := hpacked.split
  generalize hroute : front ++ (pushCommon hop.protocol hop.endpoint hop.tokenIn hop.tokenOut ++
    payload ++ back) = route
  have hrecord : route = front ++ (hop.protocol :: (addressBytes hop.endpoint ++
      addressBytes hop.tokenIn ++ addressBytes hop.tokenOut ++ (payload ++ back))) := by
    rw [← hroute]
    simp [pushCommon]
  obtain ⟨hrequire, hprotocol, hendpoint, hin, hout⟩ := readCommon_append front hrecord
  let common := front ++ pushCommon hop.protocol hop.endpoint hop.tokenIn hop.tokenOut
  have hcommon : common.length = front.length + hopCommonSize := by
    simp [common, pushCommon, hopCommonSize]
  have hread : readPayload route (front.length + hopCommonSize) hop.protocol =
      .ok (hop.payload, common.length + payload.length) := by
    have hsplit : route = common ++ (payload ++ back) := by
      rw [← hroute]
      simp [common]
    rw [← hcommon, hsplit]
    exact hpayload common back
  have hlength : common.length + payload.length =
      front.length + (pushCommon hop.protocol hop.endpoint hop.tokenIn hop.tokenOut ++
        payload).length := by
    simp only [common, List.length_append]
    omega
  unfold executeHop
  simp only [hrequire, hprotocol, hendpoint, hin, hout, hread, hlength]

theorem PackedAs.length_pos {record : List Byte} {hop : DemoReading}
    (hpacked : PackedAs record hop) : 0 < record.length := by
  obtain ⟨payload, rfl, _⟩ := hpacked.split
  simp [pushCommon]

theorem length_le_flatten {records : List (List Byte)} {hops : List DemoReading}
    (hpacked : List.Forall₂ PackedAs records hops) : hops.length ≤ records.flatten.length := by
  induction hpacked with
  | nil => exact Nat.le_refl 0
  | cons hrecord _ ih =>
      have hpos := hrecord.length_pos
      simp only [List.length_cons, List.flatten_cons, List.length_append]
      omega

/-- The loop reads packed records to the end of the route. -/
theorem walk_append {records : List (List Byte)} {hops : List DemoReading} (front : List Byte)
    (fuel : ℕ) (hfuel : hops.length < fuel) (hpacked : List.Forall₂ PackedAs records hops) :
    walk (front ++ records.flatten) fuel front.length =
      .ok (hops, (front ++ records.flatten).length) := by
  induction hpacked generalizing front fuel with
  | nil =>
      cases fuel with
      | zero => omega
      | succ fuel => simp [walk]
  | @cons record hop records hops hrecord _ ih =>
      cases fuel with
      | zero => omega
      | succ fuel =>
          have hinside : front.length < (front ++ (record :: records).flatten).length := by
            have hpos := hrecord.length_pos
            simp only [List.flatten_cons, List.length_append]
            omega
          have hhop := executeHop_append front records.flatten hrecord
          have hrest := ih (front ++ record) fuel (by simpa using hfuel)
          rw [List.append_assoc, List.length_append] at hrest
          rw [walk, if_pos hinside, List.flatten_cons, hhop]
          simp only [hrest]
          rfl

end DemoRouter

open DemoRouter

theorem mapM_packDemoHop {hops : List DemoRouterHop} {records : List (List Byte)}
    (hrecords : hops.mapM packDemoHop = .ok records) :
    ∃ readings : List DemoReading, hops.map DemoRouterHop.received = readings.map some ∧
      List.Forall₂ PackedAs records readings := by
  induction hops generalizing records with
  | nil =>
      obtain rfl : [] = records := by simpa [pure, Except.pure] using hrecords
      exact ⟨[], rfl, .nil⟩
  | cons hop rest ih =>
      rw [List.mapM_cons] at hrecords
      obtain ⟨record, hrecord, hrecords⟩ := bind_eq_ok.mp hrecords
      obtain ⟨others, hothers, hrecords⟩ := bind_eq_ok.mp hrecords
      obtain rfl : record :: others = records := by simpa [pure, Except.pure] using hrecords
      obtain ⟨reading, hreading, hpacked⟩ := packDemoHop_spec hrecord
      obtain ⟨readings, hreadings, hrest⟩ := ih hothers
      exact ⟨reading :: readings, by rw [List.map_cons, hreading, hreadings, List.map_cons],
        .cons hpacked hrest⟩

/-- What the demo router reads from an accepted route: the final token, each hop as it
was received, and no byte left. -/
theorem execute_encodePackedRoute {finalToken : Address} {hops : List DemoRouterHop}
    {route : List Byte} (hencode : encodePackedRoute finalToken hops = .ok route) :
    ∃ readings : List DemoReading,
      DemoRouter.execute route = .ok ⟨finalToken, readings, route.length⟩ ∧
      hops.map DemoRouterHop.received = readings.map some := by
  unfold encodePackedRoute at hencode
  obtain ⟨records, hrecords, hencode⟩ := bind_eq_ok.mp hencode
  obtain rfl := Except.ok.inj hencode
  obtain ⟨readings, hreadings, hpacked⟩ := mapM_packDemoHop hrecords
  refine ⟨readings, ?_, hreadings⟩
  have hrequire : ExperimentalExecutorRouter.requireRoute
      (addressBytes finalToken ++ records.flatten) 0 20 = .ok () := by
    rw [ExperimentalExecutorRouter.requireRoute_eq_ok]
    simp
  have hfinal : ExperimentalExecutorRouter.readAddress
      (addressBytes finalToken ++ records.flatten) 0 = finalToken :=
    ExperimentalExecutorRouter.readAddress_of_eq [] (List.nil_append _).symm
      List.length_nil.symm
  have hfuel : readings.length < (addressBytes finalToken ++ records.flatten).length := by
    have hcount := length_le_flatten hpacked
    rw [List.length_append, ExperimentalExecutorRouter.length_addressBytes]
    omega
  have hwalk := walk_append (addressBytes finalToken) _ hfuel hpacked
  rw [ExperimentalExecutorRouter.length_addressBytes] at hwalk
  rw [DemoRouter.execute, hrequire, hfinal]
  simp only [hwalk, Except.map]

namespace DemoRouterHop

theorem received_eq_reading (hop : DemoRouterHop) :
    hop.received = hop.reading ↔ hop.amountInOffset ≠ some u32None := by
  cases hop with
  | generic tokenIn tokenOut execution =>
      by_cases hnone : execution.amountInOffset = some u32None
      · simp [received, reading, readingWith, amountInOffset, hnone]
      · simp [received, reading, readingWith, amountInOffset, hnone]
  | _ => simp [received, reading, readingWith, amountInOffset]

end DemoRouterHop

/-- The demo router reads back the hops of an accepted route, and consumes every byte,
unless a call asks for a patch at the offset that stands for no patch. -/
theorem demoRoute_roundTrip_iff (finalToken : Address) (hops : List DemoRouterHop)
    (route : List Byte) (hencode : encodePackedRoute finalToken hops = .ok route) :
    (∃ readings : List DemoReading,
        DemoRouter.execute route = .ok ⟨finalToken, readings, route.length⟩ ∧
        hops.map DemoRouterHop.reading = readings.map some) ↔
      ∀ hop ∈ hops, hop.amountInOffset ≠ some u32None := by
  obtain ⟨found, hexecute, hreceived⟩ := execute_encodePackedRoute hencode
  constructor
  · rintro ⟨readings, hread, hreadings⟩ hop hmem
    obtain rfl : found = readings := by simpa [hexecute] using hread
    rw [← DemoRouterHop.received_eq_reading]
    exact List.map_inj_left.mp (hreceived.trans hreadings.symm) hop hmem
  · intro hoffsets
    refine ⟨found, hexecute, ?_⟩
    rw [← hreceived]
    apply List.map_congr_left
    intro hop hmem
    exact ((DemoRouterHop.received_eq_reading hop).mpr (hoffsets hop hmem)).symm

namespace DemoRouteExample

/-- A Curve hop and a call with a spender and a patched amount. -/
def hops : List DemoRouterHop :=
  [.curve 8 1 2 .cryptoSwapNG 0 1, .generic 2 3 ⟨9, some 10, [1, 2, 3, 4], some 4⟩]

/-- A call whose amount is to be patched at the last offset the encoder accepts. -/
def sentinelHops : List DemoRouterHop :=
  [.generic 2 3 ⟨9, none, [1, 2, 3, 4], some u32None⟩]

theorem demoRoute_roundTrip_iff_call :
    ∃ route, encodePackedRoute 3 hops = .ok route ∧
      ∃ readings : List DemoReading,
        DemoRouter.execute route = .ok ⟨3, readings, route.length⟩ ∧
        hops.map DemoRouterHop.reading = readings.map some :=
  ⟨_, rfl, (demoRoute_roundTrip_iff 3 hops _ rfl).mpr (by decide)⟩

/-- The patch at the last offset is lost. -/
theorem demoRoute_sentinel_patch :
    ∃ route, encodePackedRoute 3 sentinelHops = .ok route ∧
      ¬∃ readings : List DemoReading,
        DemoRouter.execute route = .ok ⟨3, readings, route.length⟩ ∧
        sentinelHops.map DemoRouterHop.reading = readings.map some := by
  obtain ⟨route, hencode⟩ : ∃ route, encodePackedRoute 3 sentinelHops = .ok route := ⟨_, rfl⟩
  obtain ⟨found, hexecute, hreceived⟩ := execute_encodePackedRoute hencode
  refine ⟨route, hencode, ?_⟩
  rintro ⟨readings, hread, hreadings⟩
  obtain rfl : found = readings := by simpa [hexecute] using hread
  have hdiffer : sentinelHops.map DemoRouterHop.received ≠
      sentinelHops.map DemoRouterHop.reading := by decide
  exact hdiffer (hreceived.trans hreadings.symm)

end DemoRouteExample

end AmmSearch
