import Owl.Daemon
import Owl.Tx

/-!
A-MSDUs. The first part writes the subframes the way the standard has it, each but
the last filled up to a multiple of four bytes, and reads them back through the loop
of `awdl_rx_data_amsdu`. The second part is about A-MSDUs that break off: what was
produced before the error is left behind.
-/

namespace Owl.Amsdu

open Bytes Ether Channel Siphash Peers Wire State Frames Tx RxTlv Rx RxSpec RxAction RxData Daemon

section Encoding

def encodeSubframe (sub : Subframe) : List UInt8 :=
  sub.dst.bytes ++ (sub.src.bytes ++ (be16 (UInt16.ofNat sub.body.length) ++ sub.body))

def Pads (sub : Subframe) (padding : List UInt8) : Prop :=
  padding.length < 4 ∧ (14 + sub.body.length + padding.length) % 4 = 0

inductive Encodes : List Subframe → List UInt8 → Prop where
  | nil : Encodes [] []
  | last (sub : Subframe) : Encodes [sub] (encodeSubframe sub)
  | padded (sub : Subframe) (padding : List UInt8) (pads : Pads sub padding) :
      Encodes [sub] (encodeSubframe sub ++ padding)
  | cons (sub next : Subframe) (padding : List UInt8) (rest : List Subframe) (bytes : List UInt8)
      (pads : Pads sub padding) (later : Encodes (next :: rest) bytes) :
      Encodes (sub :: next :: rest) (encodeSubframe sub ++ (padding ++ bytes))

theorem encodeSubframe_length (sub : Subframe) :
    (encodeSubframe sub).length = 14 + sub.body.length := by
  simp only [encodeSubframe, List.length_append, bytes_length, be16_length]
  omega

/-- A subframe is read back, whatever follows it. -/
theorem nextSubframe_encode (sub : Subframe) (short : sub.body.length ≤ 65535)
    (rest : List UInt8) : nextSubframe (encodeSubframe sub ++ rest) = some (sub, rest) := by
  have flat : encodeSubframe sub ++ rest = sub.dst.bytes ++ (sub.src.bytes ++
      (be16 (UInt16.ofNat sub.body.length) ++ (sub.body ++ rest))) := by
    simp only [encodeSubframe, List.append_assoc]
  have dst : slice (encodeSubframe sub ++ rest) 0 6 = sub.dst.bytes := by
    rw [flat]
    exact slice_append [] sub.dst.bytes _
  have src : slice (encodeSubframe sub ++ rest) 6 6 = sub.src.bytes := by
    rw [flat]
    exact slice_append sub.dst.bytes sub.src.bytes _
  have count : slice (encodeSubframe sub ++ rest) 12 2 = be16 (UInt16.ofNat sub.body.length) := by
    rw [flat, ← List.append_assoc]
    exact slice_append (sub.dst.bytes ++ sub.src.bytes) (be16 (UInt16.ofNat sub.body.length)) _
  have length : (ofBe16 (be16 (UInt16.ofNat sub.body.length))).toNat = sub.body.length := by
    rw [show ofBe16 (be16 (UInt16.ofNat sub.body.length)) = UInt16.ofNat sub.body.length from
      ofBe16_be16 _ [], UInt16.toNat_ofNat']
    exact Nat.mod_eq_of_lt (by omega)
  have body : slice (encodeSubframe sub ++ rest) 14 sub.body.length = sub.body := by
    rw [flat, ← List.append_assoc, ← List.append_assoc]
    exact slice_append (sub.dst.bytes ++ sub.src.bytes ++ be16 (UInt16.ofNat sub.body.length))
      sub.body rest
  have behind : (encodeSubframe sub ++ rest).drop (14 + sub.body.length) = rest :=
    List.drop_left' (encodeSubframe_length sub)
  have whole : 14 + sub.body.length ≤ (encodeSubframe sub ++ rest).length := by
    rw [List.length_append, encodeSubframe_length]
    omega
  unfold nextSubframe
  rw [dst, src, count, length, body, behind, if_pos whole]
  rfl

/-- The code skips the padding that the standard asks for. -/
theorem amsduPadding_eq (sub : Subframe) (padding : List UInt8) (pads : Pads sub padding) :
    amsduPadding sub.body.length = padding.length := by
  obtain ⟨few, whole⟩ := pads
  unfold amsduPadding
  omega

theorem skipPadding_append (sub : Subframe) (padding rest : List UInt8)
    (pads : Pads sub padding) : skipPadding sub.body.length (padding ++ rest) = some rest := by
  have same := amsduPadding_eq sub padding pads
  unfold skipPadding
  rw [same, if_pos (.inr (by rw [List.length_append]; omega))]
  by_cases empty : (padding ++ rest).length = 0
  · rw [if_pos empty, List.eq_nil_of_length_eq_zero empty]
    rw [List.length_append] at empty
    rw [List.eq_nil_of_length_eq_zero (by omega : rest.length = 0)]
  · rw [if_neg empty, List.drop_left]

/-- One subframe of a body that is cut into its subframes. -/
theorem parseAmsdu_cons (fuel : Nat) (sub : Subframe) (short : sub.body.length ≤ 65535)
    (behind next : List UInt8) (skipped : skipPadding sub.body.length behind = some next) :
    parseAmsdu (fuel + 1) (encodeSubframe sub ++ behind) =
      (sub :: (parseAmsdu fuel next).1, (parseAmsdu fuel next).2) := by
  have some_left : ¬ (encodeSubframe sub ++ behind).length = 0 := by
    rw [List.length_append, encodeSubframe_length]
    omega
  rw [parseAmsdu, if_neg some_left, nextSubframe_encode sub short]
  dsimp only
  rw [skipped]

theorem parseAmsdu_nil (fuel : Nat) : parseAmsdu fuel [] = ([], true) := by
  cases fuel <;> rfl

/-- Cutting an encoding gives back the subframes and uses up all bytes. -/
theorem parseAmsdu_encodes (subs : List Subframe) (bytes : List UInt8) (encodes : Encodes subs bytes)
    (short : ∀ sub ∈ subs, sub.body.length ≤ 65535) (fuel : Nat) (enough : bytes.length < fuel) :
    parseAmsdu fuel bytes = (subs, true) := by
  induction encodes generalizing fuel with
  | nil => exact parseAmsdu_nil fuel
  | last sub =>
      obtain ⟨fuel, rfl⟩ := Nat.exists_eq_succ_of_ne_zero (Nat.ne_zero_of_lt enough)
      have cut := parseAmsdu_cons fuel sub (short sub List.mem_cons_self) [] [] rfl
      rw [List.append_nil, parseAmsdu_nil] at cut
      exact cut
  | padded sub padding pads =>
      obtain ⟨fuel, rfl⟩ := Nat.exists_eq_succ_of_ne_zero (Nat.ne_zero_of_lt enough)
      have skipped := skipPadding_append sub padding [] pads
      rw [List.append_nil] at skipped
      have cut := parseAmsdu_cons fuel sub (short sub List.mem_cons_self) padding [] skipped
      rw [parseAmsdu_nil] at cut
      exact cut
  | cons sub next padding rest bytes pads later ih =>
      obtain ⟨fuel, rfl⟩ := Nat.exists_eq_succ_of_ne_zero (Nat.ne_zero_of_lt enough)
      have skipped := skipPadding_append sub padding bytes pads
      have cut := parseAmsdu_cons fuel sub (short sub List.mem_cons_self) _ bytes skipped
      have left : bytes.length < fuel := by
        rw [List.length_append, List.length_append, encodeSubframe_length] at enough
        omega
      rw [ih (fun sub inside => short sub (List.mem_cons_of_mem _ inside)) fuel left] at cut
      exact cut

end Encoding

/-! The subframes that come back are handed to `awdl_rx_data` one by one. -/
section Decoding

variable (hash : EtherAddr → UInt64) (env : RxEnv) (state : AwdlState)

def AwdlBody (body : List UInt8) : Prop :=
  ∃ header payload : List UInt8, header.length = awdlDataSize ∧
    body = llcInitAwdlHdr ++ (header ++ payload)

theorem awdlBody_wellFormed (body : List UInt8) (shaped : AwdlBody body) : WellFormed body := by
  obtain ⟨header, payload, size, rfl⟩ := shaped
  have eight : awdlDataSize = 8 := rfl
  refine ⟨⟨?_, rfl, rfl, rfl, rfl⟩, ?_⟩
  · rw [List.length_append]
    exact Nat.le_add_right _ _
  · rw [List.length_append, List.length_append, size, eight]
    exact Nat.add_le_add_left (Nat.le_add_right 8 payload.length) 8

/-- The outputs, from number `index` on, that `awdl_rx_data` yields for the subframes
of known peers, in order; the other subframes yield none. -/
inductive Yields : Nat → List Subframe → List Buf → Prop where
  | nil (index : Nat) : Yields index [] []
  | ignored (index : Nat) (sub : Subframe) (rest : List Subframe) (outputs : List Buf)
      (unknown : ¬ Known hash state.peers.peers sub.src) (later : Yields index rest outputs) :
      Yields index (sub :: rest) outputs
  | produced (index : Nat) (sub : Subframe) (rest : List Subframe) (outputs : List Buf)
      (body out : Buf) (data : DataOutcome) (known : Known hash state.peers.peers sub.src)
      (view : body.bytes = sub.body)
      (call : awdlRxData false hash env body (.copy sub.src) (.copy sub.dst) state index = .ok data)
      (ok : data.result = .ok) (made : data.outputs = [out])
      (later : Yields (index + 1) rest outputs) :
      Yields index (sub :: rest) (out :: outputs)

/-- A well-formed subframe of a known peer, through `awdl_rx_data`. -/
theorem awdlRxData_known (index : Nat) (sub : Subframe) (body : Buf) (view : body.bytes = sub.body)
    (known : Known hash state.peers.peers sub.src) (formed : WellFormed sub.body) :
    ∃ data, awdlRxData false hash env body (.copy sub.src) (.copy sub.dst) state index = .ok data ∧
      data.result = .ok ∧ data.outputs = [sub.output (env.output index)] := by
  have call := awdlRxData_eq hash env body (.copy sub.src) (.copy sub.dst) sub.src sub.dst state
    index rfl rfl
  have cases := (dataOutcome_cases hash env body sub.src sub.dst state index).2
  have fine : ¬ Rejected hash state.peers.peers sub := fun rejected => rejected.2 formed
  rw [view, if_neg fine] at cases
  obtain ⟨-, ok, outputs⟩ := cases
  refine ⟨_, call, ok.mpr known, ?_⟩
  rw [outputs]
  simp [accepted, fine, known, emit]

/-- Where nothing is rejected, every subframe of a known peer is accepted. -/
theorem yields_emit (index : Nat) (subs : List Subframe)
    (formed : ∀ sub ∈ subs, WellFormed sub.body ∧ sub.body.length ≤ 65535) :
    Yields hash env state index subs (emit env index (accepted hash state.peers.peers subs)) := by
  induction subs generalizing index with
  | nil => exact .nil index
  | cons sub rest ih =>
      obtain ⟨⟨shaped, short⟩, others⟩ := List.forall_mem_cons.mp formed
      have fine : ¬ Rejected hash state.peers.peers sub := fun rejected => rejected.2 shaped
      rw [accepted_cons hash _ sub rest fine]
      by_cases known : Known hash state.peers.peers sub.src
      · have single : accepted hash state.peers.peers [sub] = [sub] := by
          simp [accepted, fine, known]
        obtain ⟨data, call, ok, made⟩ := awdlRxData_known hash env state index sub
          ⟨sub.body, by omega⟩ rfl known shaped
        rw [single]
        exact .produced index sub rest _ _ _ data known rfl call ok made (ih (index + 1) others)
      · have none : accepted hash state.peers.peers [sub] = [] := by
          simp [accepted, fine, known]
        rw [none]
        exact .ignored index sub rest _ known (ih index others)

/-- Decoding undoes the encoding: all subframes are found, and the host gets what
`awdl_rx_data` makes of those of known peers. -/
theorem amsdu_round_trip (subs : List Subframe) (frame : Buf) (encodes : Encodes subs frame.bytes)
    (shaped : ∀ sub ∈ subs, AwdlBody sub.body ∧ sub.body.length ≤ 65535) :
    ∃ outcome, awdlRxDataAmsdu false hash env frame state = .ok outcome ∧ outcome.result = .ok ∧
      Yields hash env state 0 subs outcome.outputs := by
  have formed : ∀ sub ∈ subs, WellFormed sub.body ∧ sub.body.length ≤ 65535 :=
    fun sub inside => ⟨awdlBody_wellFormed _ (shaped sub inside).1, (shaped sub inside).2⟩
  have cut := parseAmsdu_encodes subs frame.bytes encodes (fun sub inside => (formed sub inside).2)
    (frame.bytes.length + 1) (Nat.lt_succ_self _)
  obtain ⟨outcome, run, -, outputs, result⟩ := amsduLoop_outcome hash env frame state 0
    (frame.bytes.length + 1) (Nat.lt_succ_self _)
  rw [cut] at outputs result
  refine ⟨outcome, run, result.mpr ⟨rfl, ?_⟩, ?_⟩
  · intro sub inside rejected
    exact rejected.2 (formed sub inside).1
  · rw [outputs]
    exact yields_emit hash env state 0 subs formed

end Decoding

section Pair

def knownSub : Subframe := ⟨selfAddr, peerAddr, dataBody [7]⟩
def strangeSub : Subframe := ⟨selfAddr, ⟨2, 0, 0, 0, 0, 9⟩, dataBody []⟩

def pairFrame : Buf :=
  ⟨encodeSubframe knownSub ++ ([0] ++ encodeSubframe strangeSub), by decide⟩

theorem pairFrame_encodes : Encodes [knownSub, strangeSub] pairFrame.bytes :=
  .cons knownSub strangeSub [0] [] _ ⟨by decide, by decide⟩ (.last strangeSub)

theorem dataBody_shaped (payload : List UInt8) : AwdlBody (dataBody payload) :=
  ⟨[3, 4, 0, 0, 0, 0, 0x86, 0xdd], payload, rfl, rfl⟩

/-- The peer is learnt from its PSF, then the A-MSDU arrives. -/
theorem amsdu_round_trip_pair : ∃ learnt outcome,
    awdlRx false addrHash zeroEnv psfCapture startState = .ok learnt ∧
      Known addrHash learnt.state.peers.peers knownSub.src ∧
      ¬ Known addrHash learnt.state.peers.peers strangeSub.src ∧
      Encodes [knownSub, strangeSub] pairFrame.bytes ∧
      awdlRxDataAmsdu false addrHash zeroEnv pairFrame learnt.state = .ok outcome ∧
      outcome.result = .ok ∧
      Yields addrHash zeroEnv learnt.state 0 [knownSub, strangeSub] outcome.outputs := by
  have shown : ((awdlRx false addrHash zeroEnv psfCapture startState).map fun learnt =>
      (decide (Known addrHash learnt.state.peers.peers knownSub.src),
        decide (Known addrHash learnt.state.peers.peers strangeSub.src))).toOption =
      some (true, false) := by decide +kernel
  obtain ⟨learnt, first, seen⟩ := toOption_map_some shown
  simp only [Prod.mk.injEq, decide_eq_true_eq, decide_eq_false_iff_not] at seen
  obtain ⟨known, unknown⟩ := seen
  have shaped : ∀ sub ∈ [knownSub, strangeSub], AwdlBody sub.body ∧ sub.body.length ≤ 65535 := by
    intro sub inside
    rcases List.mem_pair.mp inside with rfl | rfl
    · exact ⟨dataBody_shaped [7], by decide⟩
    · exact ⟨dataBody_shaped [], by decide⟩
  obtain ⟨outcome, run, ok, yields⟩ := amsdu_round_trip addrHash zeroEnv learnt.state
    [knownSub, strangeSub] pairFrame pairFrame_encodes shaped
  exact ⟨learnt, outcome, first, known, unknown, pairFrame_encodes, run, ok, yields⟩

end Pair

/-! An A-MSDU that breaks off. `awdl_receive_frame` looks at the outputs only when
the result is `RX_OK`, so what was produced before an error is never freed. -/
section Leftovers

/-- An A-MSDU of another node in which a subframe of a known peer is followed by
something that cannot be read: bytes that are no complete subframe, missing padding, or a
malformed subframe of a known peer. -/
def BreaksOff (hash : EtherAddr → UInt64) (env : RxEnv) (frame : Buf) (state : AwdlState) : Prop :=
  ∃ mac body, macFrame env frame = some mac ∧ macSource mac ≠ state.selfAddress ∧
    carried mac = .aggregate body ∧ accepted hash state.peers.peers (subframes body).1 ≠ [] ∧
    ((subframes body).2 = false ∨
      ∃ sub ∈ (subframes body).1, Rejected hash state.peers.peers sub)

/-- A frame with one body produces its output last, so an output means `RX_OK`. -/
theorem complete_single (hash : EtherAddr → UInt64) (peers : PeerMap) (mac body : Buf)
    (load : carried mac = .single body) (some : delivered hash peers mac ≠ []) :
    Complete hash peers mac := by
  rw [delivered, load] at some
  rw [Complete, load]
  dsimp only at some ⊢
  by_cases rejected : Rejected hash peers ⟨macTarget mac, macSource mac, body.bytes⟩
  · exact absurd (by simp [accepted, rejected]) some
  by_cases known : Known hash peers (macSource mac)
  · refine ⟨known, ?_⟩
    by_contra malformed
    exact rejected ⟨known, malformed⟩
  · exact absurd (by simp [accepted, rejected, known]) some

theorem no_output_on_failure_iff (hash : EtherAddr → UInt64) (env : RxEnv) (frame : Buf)
    (state : AwdlState) (inside : RadiotapInside env) :
    ∃ outcome, awdlRx false hash env frame state = .ok outcome ∧
      ((outcome.result ≠ .ok → outcome.outputs = []) ↔ ¬ BreaksOff hash env frame state) := by
  obtain ⟨outcome, run, ⟨foreign, none⟩ | ⟨mac, found, other, outputs, result⟩⟩ :=
    awdlRx_delivers hash env frame state inside
  · refine ⟨outcome, run, iff_of_true (fun _ => none) ?_⟩
    rintro ⟨mac, body, found, other, -⟩
    exact other (foreign mac found)
  · refine ⟨outcome, run, ?_⟩
    have silent : outcome.outputs = [] ↔ delivered hash state.peers.peers mac = [] := by
      rw [outputs, ← List.length_eq_zero_iff, emit_length, List.length_eq_zero_iff]
    rw [silent]
    constructor
    · rintro clean ⟨mac', body, found', -, load, some, broken⟩
      obtain rfl : mac = mac' := Option.some.inj (found.symm.trans found')
      have made : delivered hash state.peers.peers mac ≠ [] := by
        rw [delivered, load]
        exact some
      refine made (clean fun ok => ?_)
      have complete := (result made).mp ok
      rw [Complete, load] at complete
      rcases broken with left | ⟨sub, member, rejected⟩
      · exact absurd (left.symm.trans complete.1) Bool.false_ne_true
      · exact complete.2 sub member rejected
    · intro whole failed
      by_contra made
      have incomplete : ¬ Complete hash state.peers.peers mac := fun complete =>
        failed ((result made).mpr complete)
      cases load : carried mac with
      | nothing => exact made (by rw [delivered, load])
      | single body => exact incomplete (complete_single hash _ mac body load made)
      | aggregate body =>
          rw [Complete, load] at incomplete
          rw [delivered, load] at made
          refine whole ⟨mac, body, found, other, load, made, ?_⟩
          by_contra neither
          push Not at neither
          exact incomplete ⟨Bool.eq_true_of_not_eq_false neither.1, neither.2⟩

def brokenCapture : Buf :=
  ⟨capture peerAddr [0x88, 0] ([0x80, 0] ++ (subframeBytes ++ [0])), by decide⟩

/-- The node has learnt the peer from its PSF; the error comes after the output. -/
theorem broken_received : ∃ state history outcome,
    Reaches addrHash (fun _ _ _ => True) state history ∧
      awdlRx false addrHash zeroEnv brokenCapture state = .ok outcome ∧
      outcome.result ≠ .ok ∧ outcome.outputs ≠ [] := by
  have shown : ((receiveAll addrHash zeroEnv [psfCapture]
      (awdlInit (Fixed.replicate _ 0) [] selfAddr chanNull 0 true)).bind fun after =>
      (awdlRx false addrHash zeroEnv brokenCapture after.1).map fun outcome =>
        (outcome.result, outcome.outputs.length)).toOption = some (.tooShort, 1) := by
    decide +kernel
  obtain ⟨⟨state, history⟩, run, later⟩ := toOption_bind_some shown
  obtain ⟨outcome, received, seen⟩ := toOption_map_some later
  injection seen with result count
  have inside : RadiotapInside zeroEnv := byteRadiotap_inside
  have reached := receiveAll_reaches inside [psfCapture] _ state [] history (.init _ _ _ _ _ _) run
  refine ⟨state, history, outcome, reached, received, by rw [result]; decide, ?_⟩
  intro none
  rw [none] at count
  exact absurd count (by decide)

theorem output_left_behind : ∃ state history outcome,
    Reaches addrHash (fun _ _ _ => True) state history ∧
      awdlRx false addrHash zeroEnv brokenCapture state = .ok outcome ∧
      ¬ (outcome.result ≠ .ok → outcome.outputs = []) := by
  obtain ⟨state, history, outcome, reached, received, failed, some_left⟩ := broken_received
  exact ⟨state, history, outcome, reached, received, fun clean => some_left (clean failed)⟩

theorem no_output_on_failure_iff_broken : RadiotapInside zeroEnv ∧ ∃ state history outcome,
    Reaches addrHash (fun _ _ _ => True) state history ∧
      awdlRx false addrHash zeroEnv brokenCapture state = .ok outcome ∧
      ((outcome.result ≠ .ok → outcome.outputs = []) ↔
        ¬ BreaksOff addrHash zeroEnv brokenCapture state) ∧
      BreaksOff addrHash zeroEnv brokenCapture state := by
  obtain ⟨state, history, outcome, reached, received, failed, some_left⟩ := broken_received
  obtain ⟨same, run, exactly⟩ := no_output_on_failure_iff addrHash zeroEnv brokenCapture state
    byteRadiotap_inside
  rw [received] at run
  cases run
  refine ⟨byteRadiotap_inside, state, history, outcome, reached, received, exactly, ?_⟩
  by_contra whole
  exact some_left (exactly.mpr whole failed)

end Leftovers

end Owl.Amsdu
