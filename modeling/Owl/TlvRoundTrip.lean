import Owl.Tx
import Owl.TlvLoop
import Mathlib.Data.List.TakeWhile

/-!
The TLVs of an action frame, written and read back. What the sender puts behind
the action header is a list of TLVs; each does one thing to the entry of the
sender at the receiver, and what the last ones leave is the state of the sender,
whatever was in the entry before.
-/

namespace Owl.TlvRoundTrip

open Bytes Ether Channel Sync Election Peers Wire State Frames Tx RxTlv Rx RxSpec RxAction
  TlvLoop

section Loop

variable (env : RxEnv)

inductive Digests : List (UInt8 × List UInt8) → Peer → AwdlState → Peer → AwdlState → Prop where
  | nil (peer : Peer) (state : AwdlState) : Digests [] peer state peer state
  | cons (tlv : UInt8 × List UInt8) (rest : List (UInt8 × List UInt8)) (peer mid last : Peer)
      (state between final : AwdlState) (short : tlv.2.length < 65536)
      (handled : ∀ list, ∃ result, 0 ≤ RxResult.code result ∧
        awdlHandleTlv env.long list peer tlv.1 (tlvBuf tlv.2 short) state env.now =
          .ok (result, mid, between))
      (later : Digests rest mid between last final) : Digests (tlv :: rest) peer state last final

theorem Digests.append {front back : List (UInt8 × List UInt8)} {peer mid last : Peer}
    {state between final : AwdlState} (first : Digests env front peer state mid between)
    (second : Digests env back mid between last final) :
    Digests env (front ++ back) peer state last final := by
  induction first with
  | nil peer state => exact second
  | cons tlv rest peer next mid state node between short handled later ih =>
      exact .cons tlv (rest ++ back) peer next last state node final short handled (ih second)

theorem Digests.handles {tlvs : List (UInt8 × List UInt8)} {peer last : Peer}
    {state final : AwdlState} (digests : Digests env tlvs peer state last final) :
    ∃ calls, Handles env [] tlvs peer state last final calls := by
  induction digests with
  | nil peer state => exact ⟨[], .nil peer state⟩
  | cons tlv rest peer mid last state between final short handled later ih =>
      obtain ⟨calls, behind⟩ := ih
      obtain ⟨result, fine, called⟩ :=
        handled (env.list ((tlv :: rest).flatMap encodeTlv ++ []).length)
      exact ⟨_, .cons tlv rest peer mid last state between final result calls short called fine
        behind⟩

theorem tlvLoop_digests (tlvs : List (UInt8 × List UInt8)) (peer last : Peer)
    (state final : AwdlState) (digests : Digests env tlvs peer state last final) (fuel : Nat)
    (frame : Buf) (bytes : frame.bytes = tlvs.flatMap encodeTlv)
    (enough : frame.bytes.length < fuel) :
    ∃ loop, tlvLoop env fuel frame peer state = .ok loop ∧ loop.accepted = true ∧
      loop.frame.bytes = [] ∧ loop.peer = last ∧ loop.state = final := by
  obtain ⟨calls, handled⟩ := digests.handles
  obtain ⟨left, empty, run⟩ := tlvLoop_handled handled fuel frame bytes enough
  exact ⟨_, run, rfl, empty, rfl, rfl⟩

end Loop

section Handlers

variable (sender : AwdlState) (src : Peer) (val : Buf) (state : AwdlState)

def tlvValue (bytes : List UInt8) : List UInt8 := bytes.drop tlSize

theorem tlvValue_tl (type : TlvType) (length : Nat) (value : List UInt8) :
    tlvValue (tl type length ++ value) = value := rfl

theorem encode_tl (type : TlvType) (length : Nat) (value : List UInt8)
    (counted : value.length = length) :
    encodeTlv (type.code, tlvValue (tl type length ++ value)) = tl type length ++ value := by
  rw [tlvValue_tl, encodeTlv, counted]
  rfl

theorem handle_version (bytes : val.bytes = tlvValue (awdlInitVersionTlv sender)) :
    awdlHandleVersionTlv src val state =
      .ok (.ok, { src with version := sender.version, devclass := sender.devClass }, state) := by
  unfold awdlHandleVersionTlv
  simp (disch := decide) only [readU8_eq, except_ok_bind, Int.reduceToNat, bytes]
  rfl

/-- The second version of the election TLV sets every field but the own address. -/
theorem handle_electionParamsV2 (bytes : val.bytes = tlvValue (awdlInitElectionParamsV2Tlv sender)) :
    awdlHandleElectionParamsV2Tlv src val state =
      .ok (.ok, { src with
        election := { sender.election with selfAddr := src.election.selfAddr }
        supportsV2 := true }, state) := by
  have word : ∀ offset (value : UInt32), slice val.bytes offset 4 = le32 value →
      offset + 4 ≤ val.bytes.length → peek 4 ofLe32 val.bytes offset = some value := by
    intro offset value same inside
    rw [peek_inside 4 _ _ offset inside, same]
    exact congrArg some (ofLe32_le32 value [])
  have addr : ∀ offset (value : EtherAddr), slice val.bytes offset 6 = value.bytes →
      offset + 6 ≤ val.bytes.length → peek 6 EtherAddr.ofBytes val.bytes offset = some value := by
    intro offset value same inside
    rw [peek_inside 6 _ _ offset inside, same]
    exact congrArg some (ofBytes_bytes value [])
  have length : val.bytes.length = 40 := by rw [bytes]; rfl
  unfold awdlHandleElectionParamsV2Tlv
  simp (disch := decide) only [readLe32_eq, readEtherAddr_eq, except_ok_bind, Int.reduceToNat]
  rw [word 16 sender.election.height (by rw [bytes]; rfl) (by omega),
    addr 0 sender.election.masterAddr (by rw [bytes]; rfl) (by omega),
    addr 6 sender.election.syncAddr (by rw [bytes]; rfl) (by omega),
    word 12 sender.election.masterCounter (by rw [bytes]; rfl) (by omega),
    word 20 sender.election.masterMetric (by rw [bytes]; rfl) (by omega),
    word 24 sender.election.selfMetric (by rw [bytes]; rfl) (by omega),
    word 36 sender.election.selfCounter (by rw [bytes]; rfl) (by omega)]
  rfl

/-- The first version of the election TLV writes only fields that the second sets again. -/
theorem handle_electionParams (bytes : val.bytes = tlvValue (awdlInitElectionParamsTlv sender)) :
    ∃ election : ElectionState, election.selfAddr = src.election.selfAddr ∧
      awdlHandleElectionParamsTlv src val state =
        .ok (.ok, { src with election := election }, state) := by
  have length : val.bytes.length = 21 := by rw [bytes]; rfl
  unfold awdlHandleElectionParamsTlv
  simp (disch := decide) only [readU8_eq, readLe32_eq, readEtherAddr_eq, except_ok_bind,
    Int.reduceToNat]
  split
  · exact ⟨src.election, rfl, rfl⟩
  · rw [peek_inside 1 _ _ 3 (by omega), peek_inside 6 _ _ 5 (by omega),
      peek_inside 4 _ _ 11 (by omega), peek_inside 4 _ _ 15 (by omega)]
    exact ⟨{ src.election with
      height := (byteAt (slice val.bytes 3 1) 0).toUInt32
      masterAddr := EtherAddr.ofBytes (slice val.bytes 5 6)
      masterMetric := ofLe32 (slice val.bytes 11 4)
      selfMetric := ofLe32 (slice val.bytes 15 4) }, rfl, rfl⟩

theorem handle_dataPathState (bytes : val.bytes = tlvValue (awdlInitDataPathStateTlv sender)) :
    awdlHandleDataPathStateTlv src val state =
      .ok (.ok, { src with countryCode := ⟨[0x58, 0x30, 0], rfl⟩ }, state) := by
  have length : val.bytes.length = 15 := by rw [bytes]; rfl
  have flags : peek 2 ofLe16 val.bytes 0 = some 0x8f24 := by
    have field : slice val.bytes 0 2 = le16 0x8f24 := by rw [bytes]; rfl
    rw [peek_inside 2 _ _ 0 (by omega), field]
    exact congrArg some (ofLe16_le16 0x8f24 [])
  have country : readBytesCopy val 2 src.countryCode 3 =
      .ok (some ⟨[0x58, 0x30, 0], rfl⟩) := by
    have read := readBytesCopy_eq val 2 (by decide) src.countryCode 3 (by decide) (by decide)
    have text : slice val.bytes 2 3 = [0x58, 0x30, 0] := by rw [bytes]; rfl
    have two : Int.toNat 2 = 2 := rfl
    rw [two, if_pos (by omega), text, src.countryCode.store_whole [0x58, 0x30, 0] rfl] at read
    exact read
  have channels : readNull 2 val 5 = some () := by
    rw [readNull_eq val 5 (by decide) 2 (by decide)]
    exact if_pos (by rw [length]; decide)
  have own : readNull 6 val 7 = some () := by
    rw [readNull_eq val 7 (by decide) 6 (by decide)]
    exact if_pos (by rw [length]; decide)
  have hasCountry : ((0x8f24 : UInt16) &&& awdlDataPathFlagCountryCode != 0) = true := by decide
  have hasChannels : ((0x8f24 : UInt16) &&& awdlDataPathFlagSocialChannelMap != 0) = true := by
    decide
  have noInfo : ((0x8f24 : UInt16) &&& awdlDataPathFlagInfraInfo != 0) = false := by decide
  have noInfra : ((0x8f24 : UInt16) &&& awdlDataPathFlagInfraAddress != 0) = false := by decide
  have hasOwn : ((0x8f24 : UInt16) &&& awdlDataPathFlagAwdlAddress != 0) = true := by decide
  unfold awdlHandleDataPathStateTlv
  rw [readLe16_eq val 0 (by decide) (by decide), except_ok_bind, Int.toNat_zero, flags]
  simp only [hasCountry, hasChannels, noInfo, noInfra, hasOwn, readIf, skipIf, ↓reduceIte,
    Bool.false_eq_true, country, except_ok_bind, except_pure, Int.reduceAdd, channels, own]

/-- The bytes in front of the first NUL. -/
theorem cString_prefix (before after : List UInt8) (nonzero : ∀ byte ∈ before, byte ≠ 0) :
    cString (before ++ 0 :: after) = before := by
  induction before with
  | nil => rfl
  | cons byte rest ih =>
      have first := nonzero byte List.mem_cons_self
      have later := ih fun other member => nonzero other (List.mem_cons_of_mem _ member)
      simpa [cString, first] using later

theorem cString_nonzero (bytes : List UInt8) : ∀ byte ∈ cString bytes, byte ≠ 0 := by
  intro byte member
  simpa using List.mem_takeWhile_imp member

theorem cString_short {n : Nat} (str : Fixed UInt8 n) (terminated : 0 ∈ str.toList) :
    (cString str.toList).length < n ∧
      str.toList.take (cString str.toList).length = cString str.toList := by
  have start : cString str.toList <+: str.toList := List.takeWhile_prefix _
  refine ⟨?_, (List.prefix_iff_eq_take.mp start).symm⟩
  have shorter := start.length_le
  rw [str.size] at shorter
  refine Nat.lt_of_le_of_ne shorter fun full => ?_
  have whole := start.eq_of_length (full.trans str.size.symm)
  rw [← whole] at terminated
  exact cString_nonzero _ 0 terminated rfl

/-- The TLV with the host name, of which `strlen` finds the end. -/
theorem awdlInitArpaTlv_eq (terminated : 0 ∈ sender.name.toList) (arpa : List UInt8)
    (built : awdlInitArpaTlv sender = .ok arpa) :
    arpa = tl .arpa (arpaTlvSize - tlSize + (cString sender.name.toList).length + 1) ++
      ([3, UInt8.ofNat (cString sender.name.toList).length] ++
        (cString sender.name.toList ++ be16 awdlDnsShortLocal)) := by
  obtain ⟨-, start⟩ := cString_short sender.name terminated
  simp only [awdlInitArpaTlv, strlen, terminated, ↓reduceIte, except_pure, except_ok_bind, start,
    List.append_assoc] at built
  exact (Except.ok.inj built).symm

theorem awdlInitArpaTlv_encodes (terminated : 0 ∈ sender.name.toList) (arpa : List UInt8)
    (built : awdlInitArpaTlv sender = .ok arpa) :
    encodeTlv (TlvType.arpa.code, tlvValue arpa) = arpa ∧ (tlvValue arpa).length ≤ 68 := by
  obtain ⟨short, -⟩ := cString_short sender.name terminated
  have limit : hostNameLengthMax = 64 := rfl
  rw [awdlInitArpaTlv_eq sender terminated arpa built]
  constructor
  · refine encode_tl _ _ _ ?_
    simp only [List.length_append, List.length_cons, List.length_nil, be16_length, arpaTlvSize, tlSize]
    omega
  · rw [tlvValue_tl]
    simp only [List.length_append, List.length_cons, List.length_nil, be16_length]
    omega

/-- The name arrives as a C string; what was behind its end stays. -/
theorem handle_arpa (terminated : 0 ∈ sender.name.toList) (arpa : List UInt8)
    (built : awdlInitArpaTlv sender = .ok arpa) (bytes : val.bytes = tlvValue arpa) :
    ∃ name, cString (Fixed.toList name) = cString sender.name.toList ∧
      awdlHandleArpaTlv src val state = .ok (.ok, { src with name := name }, state) := by
  obtain ⟨short, -⟩ := cString_short sender.name terminated
  have limit : hostNameLengthMax = 64 := rfl
  rw [awdlInitArpaTlv_eq sender terminated arpa built, tlvValue_tl] at bytes
  have nonzero := cString_nonzero sender.name.toList
  generalize cString sender.name.toList = text at *
  have length : val.bytes.length = text.length + 4 := by
    rw [bytes]
    simp only [List.length_append, List.length_cons, List.length_nil, be16_length]
    omega
  have count : (UInt8.ofNat text.length).toNat = text.length := by
    rw [UInt8.toNat_ofNat']
    omega
  have size : peek 1 (byteAt · 0) val.bytes 1 = some (UInt8.ofNat text.length) := by
    rw [peek_inside 1 _ _ 1 (by omega), bytes]
    rfl
  have body : slice val.bytes 2 text.length = text := by
    rw [bytes]
    show (text ++ be16 awdlDnsShortLocal).take text.length = text
    exact List.take_left
  obtain ⟨name, stored⟩ := Option.isSome_iff_exists.mp (src.name.store_isSome 0 (text ++ [0]) (by
    rw [List.length_append, List.length_singleton]
    omega))
  have content := Fixed.store_toList src.name name 0 (text ++ [0]) stored
  refine ⟨name, ?_, ?_⟩
  · rw [content, List.take_zero, List.nil_append, List.append_assoc]
    exact cString_prefix text _ nonzero
  · unfold awdlHandleArpaTlv
    rw [readIntString_eq val 1 (by decide) src.name hostNameLengthMax (by decide) (by decide)
      (by decide), except_ok_bind, Int.toNat_one, size, Option.bind_some, count,
      Nat.min_eq_left (by omega), if_pos (by omega), body, stored]
    rfl

/-- The channels of a sequence in two bytes each, as the sender writes them. -/
theorem awdlInitChanseq_eq (wide : sender.channel.enc ≠ .simple) :
    awdlInitChanseq sender = [15, sender.channel.enc.code, 0, 3, 0xff, 0xff] ++
      sender.channel.sequence.toList.flatMap Fixed.toList := by
  have two : awdlChanEncodingLength sender.channel.enc = 2 := by
    cases enc : sender.channel.enc with
    | simple => exact absurd enc wide
    | legacy => rfl
    | opclass => rfl
  have whole : ∀ chan : AwdlChan, chan.toList.take 2 = chan.toList := fun chan =>
    List.take_of_length_le (Nat.le_of_eq chan.size)
  rw [awdlInitChanseq, two]
  simp only [whole]
  rfl

theorem channels_length (chans : List AwdlChan) :
    (chans.flatMap Fixed.toList).length = 2 * chans.length := by
  induction chans with
  | nil => rfl
  | cons chan rest ih =>
      rw [List.flatMap_cons, List.length_append, chan.size, ih, List.length_cons]
      omega

/-- The copy loop reads back the channels that follow from `offset` on. -/
theorem chanseqLoop_eq (chans : List AwdlChan) (rest : List UInt8) (i offset : Nat)
    (list : ChanSeq) (bytes : val.bytes.drop offset = chans.flatMap Fixed.toList ++ rest)
    (room : i + chans.length ≤ awdlChanseqLength) (small : offset + 2 * chans.length < 2 ^ 31) :
    ∃ after : ChanSeq, chanseqLoop val 2 chans.length i offset list = .ok (some after) ∧
      after.toList = list.toList.take i ++ chans ++ list.toList.drop (i + chans.length) := by
  induction chans generalizing i offset list with
  | nil => exact ⟨list, rfl, by simp⟩
  | cons chan chans ih =>
      rw [List.length_cons] at room small
      rw [List.flatMap_cons, List.append_assoc] at bytes
      have inside : offset + 2 ≤ val.bytes.length := by
        have length := congrArg List.length bytes
        rw [List.length_drop, List.length_append, chan.size] at length
        omega
      have field : slice val.bytes offset 2 = chan.toList := by
        rw [slice, bytes]
        exact List.take_left' chan.size
      obtain ⟨read, next, copied, stored, step⟩ := chanseqLoop_step val 2 (by decide) chans.length i
        offset (by omega) (by omega) list (by omega) inside
      rw [Int.toNat_natCast, field, Fixed.store_whole _ _ chan.size] at copied
      obtain rfl : chan = read := Option.some.inj copied
      have content := Fixed.store_toList list next i [chan] stored
      obtain ⟨after, run, result⟩ := ih (i + 1) (offset + 2) next (by
        rw [← List.drop_drop, bytes]
        exact List.drop_left' chan.size) (by omega) (by omega)
      refine ⟨after, ?_, ?_⟩
      · rw [List.length_cons]
        exact Eq.trans step run
      · have size := list.size
        have width : (list.toList.take i ++ [chan]).length = i + 1 := by
          rw [List.length_append, List.length_take, List.length_singleton]
          omega
        have front : next.toList.take (i + 1) = list.toList.take i ++ [chan] := by
          rw [content]
          exact List.take_left' width
        have back : next.toList.drop (i + 1) = list.toList.drop (i + 1) := by
          rw [content]
          exact List.drop_left' width
        rw [result, front, ← List.drop_drop, back, List.drop_drop, List.length_cons,
          Nat.add_assoc i 1, Nat.add_comm 1]
        simp

theorem handle_chanseq (wide : sender.channel.enc ≠ .simple) (list : ChanSeq)
    (presence : state.sync.presenceMode = 4)
    (bytes : val.bytes = tlvValue (awdlInitChanseqTlv sender)) :
    awdlHandleChanseqTlv list src val state =
      .ok (.ok, { src with sequence := sender.channel.sequence }, state) := by
  have content : val.bytes = [15, sender.channel.enc.code, 0, 3, 0xff, 0xff] ++
      (sender.channel.sequence.toList.flatMap Fixed.toList ++ [0, 0, 0]) := by
    rw [bytes, awdlInitChanseqTlv]
    rw [List.append_assoc, tlvValue_tl, awdlInitChanseq_eq sender wide, List.append_assoc]
  have seqLength := sender.channel.sequence.size
  have sixteen : awdlChanseqLength = 16 := rfl
  have length : val.bytes.length = 41 := by
    rw [content]
    simp only [List.length_append, channels_length, List.length_cons, List.length_nil]
    omega
  obtain ⟨after, run, result⟩ := chanseqLoop_eq val sender.channel.sequence.toList [0, 0, 0] 0 6 list
    (by rw [content]; rfl) (by omega) (by omega)
  have same : after = sender.channel.sequence := by
    apply Fixed.ext_list
    rw [result, List.take_zero, List.nil_append, Nat.zero_add,
      List.drop_eq_nil_of_le (by rw [list.size, seqLength]), List.append_nil]
  rw [seqLength, same] at run
  have encoding : byteAt val.bytes 1 = sender.channel.enc.code := by rw [content]; rfl
  have size : awdlChanEncodingSize (ChanEncoding.ofCode sender.channel.enc.code) = 2 := by
    rw [ofCode_code]
    cases enc : sender.channel.enc with
    | simple => exact absurd enc wide
    | legacy => rfl
    | opclass => rfl
  have head : ChanseqHead state.sync.presenceMode val.bytes := by
    refine ⟨by omega, by rw [content]; rfl, by rw [content]; rfl, by rw [content, presence]; rfl, ?_, ?_⟩
    · have field : slice val.bytes 4 2 = le16 0xffff := by rw [content]; rfl
      rw [field, show ofLe16 (le16 0xffff) = _ from ofLe16_le16 0xffff []]
    · rw [encoding, size]
      decide
  rcases awdlHandleChanseqTlv_headFirst val state with ⟨not, -⟩ | ⟨-, copies⟩
  · exact absurd head not
  obtain ⟨read, loop, -, handled⟩ := copies list src
  rw [encoding, size] at loop
  cases loop.symm.trans run
  exact handled

/-- The synchronization parameters move at most the clock of the receiver. -/
theorem handle_syncParams (long : LongWidth) (now : UInt64) (length : 33 ≤ val.bytes.length) :
    ∃ result sync, 0 ≤ RxResult.code result ∧ sync.presenceMode = state.sync.presenceMode ∧
      awdlHandleSyncParamsTlv long src val state now =
        .ok (result, src, { state with sync := sync }) := by
  unfold awdlHandleSyncParamsTlv
  split
  · exact ⟨.ignore, state.sync, by decide, rfl, rfl⟩
  · rw [readLe16_eq val 1 (by decide) (by decide), show Int.toNat 1 = 1 from rfl,
      peek_inside 2 _ _ 1 (by omega), except_ok_bind]
    dsimp only
    rw [readLe16_eq val 29 (by decide) (by decide), show Int.toNat 29 = 29 from rfl,
      peek_inside 2 _ _ 29 (by omega), except_ok_bind]
    dsimp only
    split
    · refine ⟨.ok, _, by decide, ?_, rfl⟩
      rfl
    · refine ⟨.ok, _, by decide, ?_, rfl⟩
      rfl

end Handlers

section Frame

variable (txEnv : TxEnv) (sender : AwdlState)

def actionTlvs (type : ActionType) (arpa : List UInt8) : List (UInt8 × List UInt8) :=
  [(TlvType.synchronizatonParameters.code, tlvValue (awdlInitSyncParamsTlv txEnv sender)),
    (TlvType.electionParameters.code, tlvValue (awdlInitElectionParamsTlv sender)),
    (TlvType.chanSeq.code, tlvValue (awdlInitChanseqTlv sender)),
    (TlvType.electionParametersV2.code, tlvValue (awdlInitElectionParamsV2Tlv sender)),
    (TlvType.serviceParameters.code, tlvValue awdlInitServiceParamsTlv)] ++
  (if type = .mif then
    [(TlvType.enhancedDataRateCapabilities.code, tlvValue awdlInitHtCapabilitiesTlv),
      (TlvType.arpa.code, tlvValue arpa)] else []) ++
  [(TlvType.dataPathState.code, tlvValue (awdlInitDataPathStateTlv sender)),
    (TlvType.version.code, tlvValue (awdlInitVersionTlv sender))]

theorem chanseq_length (wide : sender.channel.enc ≠ .simple) :
    (awdlInitChanseq sender).length = 38 := by
  rw [awdlInitChanseq_eq sender wide, List.length_append, channels_length,
    sender.channel.sequence.size]
  rfl

/-- The length fields of the TLVs count what the builders store behind them. -/
theorem lengths_right (wide : sender.channel.enc ≠ .simple) :
    encodeTlv (TlvType.synchronizatonParameters.code,
        tlvValue (awdlInitSyncParamsTlv txEnv sender)) = awdlInitSyncParamsTlv txEnv sender ∧
      encodeTlv (TlvType.chanSeq.code, tlvValue (awdlInitChanseqTlv sender)) =
        awdlInitChanseqTlv sender := by
  have length := chanseq_length sender wide
  constructor
  · delta awdlInitSyncParamsTlv
    simp only [List.append_assoc]
    refine encode_tl _ _ _ ?_
    simp only [List.length_append, List.length_cons, List.length_nil, le16_length, bytes_length,
      syncParamsTlvSize, tlSize, length]
  · simp only [awdlInitChanseqTlv, List.append_assoc]
    refine encode_tl _ _ _ ?_
    simp only [List.length_append, List.length_cons, List.length_nil, chanseqTlvSize, tlSize, length]

/-- What the frame builder concatenates behind the action header. -/
theorem actionTlvs_bytes (wide : sender.channel.enc ≠ .simple) (type : ActionType)
    (arpa : List UInt8) (named : encodeTlv (TlvType.arpa.code, tlvValue arpa) = arpa) :
    (actionTlvs txEnv sender type arpa).flatMap encodeTlv =
      awdlInitSyncParamsTlv txEnv sender ++ (awdlInitElectionParamsTlv sender ++
        (awdlInitChanseqTlv sender ++ (awdlInitElectionParamsV2Tlv sender ++
          (awdlInitServiceParamsTlv ++ ((if type = .mif then awdlInitHtCapabilitiesTlv else []) ++
            ((if type = .mif then arpa else []) ++ (awdlInitDataPathStateTlv sender ++
              awdlInitVersionTlv sender))))))) := by
  obtain ⟨sync, chanseq⟩ := lengths_right txEnv sender wide
  have election : encodeTlv (TlvType.electionParameters.code,
      tlvValue (awdlInitElectionParamsTlv sender)) = awdlInitElectionParamsTlv sender := rfl
  have electionV2 : encodeTlv (TlvType.electionParametersV2.code,
      tlvValue (awdlInitElectionParamsV2Tlv sender)) = awdlInitElectionParamsV2Tlv sender := rfl
  have service : encodeTlv (TlvType.serviceParameters.code, tlvValue awdlInitServiceParamsTlv) =
      awdlInitServiceParamsTlv := rfl
  have ht : encodeTlv (TlvType.enhancedDataRateCapabilities.code,
      tlvValue awdlInitHtCapabilitiesTlv) = awdlInitHtCapabilitiesTlv := rfl
  have dataPath : encodeTlv (TlvType.dataPathState.code,
      tlvValue (awdlInitDataPathStateTlv sender)) = awdlInitDataPathStateTlv sender := rfl
  have version : encodeTlv (TlvType.version.code, tlvValue (awdlInitVersionTlv sender)) =
      awdlInitVersionTlv sender := rfl
  unfold actionTlvs
  split <;> simp only [List.flatMap_append, List.flatMap_cons, List.flatMap_nil, List.append_nil,
    sync, election, chanseq, electionV2, service, ht, named, dataPath, version, List.append_assoc,
    List.nil_append]

structure Mirrors (type : ActionType) (entry last : Peer) : Prop where
  election : last.election = { sender.election with selfAddr := entry.election.selfAddr }
  sequence : last.sequence = sender.channel.sequence
  version : last.version = sender.version
  devclass : last.devclass = sender.devClass
  name : type = .mif → cString last.name.toList = cString sender.name.toList

/-- Both TLVs with a channel sequence are short. -/
theorem values_short (wide : sender.channel.enc ≠ .simple) :
    (tlvValue (awdlInitSyncParamsTlv txEnv sender)).length = 73 ∧
      (tlvValue (awdlInitChanseqTlv sender)).length = 41 := by
  have length := chanseq_length sender wide
  constructor
  · delta awdlInitSyncParamsTlv
    simp only [List.append_assoc, tlvValue_tl, List.length_append, List.length_cons,
      List.length_nil, le16_length, bytes_length, length]
  · simp only [awdlInitChanseqTlv, List.append_assoc, tlvValue_tl, List.length_append,
      List.length_cons, List.length_nil, length]

/-- The TLVs in front of the host name. -/
theorem digests_front (env : RxEnv) (wide : sender.channel.enc ≠ .simple) (entry : Peer)
    (state : AwdlState) (presence : state.sync.presenceMode = 4) :
    ∃ sync, Digests env
      [(TlvType.synchronizatonParameters.code, tlvValue (awdlInitSyncParamsTlv txEnv sender)),
        (TlvType.electionParameters.code, tlvValue (awdlInitElectionParamsTlv sender)),
        (TlvType.chanSeq.code, tlvValue (awdlInitChanseqTlv sender)),
        (TlvType.electionParametersV2.code, tlvValue (awdlInitElectionParamsV2Tlv sender)),
        (TlvType.serviceParameters.code, tlvValue awdlInitServiceParamsTlv)] entry state
      { entry with
        election := { sender.election with selfAddr := entry.election.selfAddr }
        sequence := sender.channel.sequence
        supportsV2 := true } { state with sync := sync } := by
  obtain ⟨syncLength, chanseqLength⟩ := values_short txEnv sender wide
  have electionLength : (tlvValue (awdlInitElectionParamsTlv sender)).length = 21 := rfl
  have electionV2Length : (tlvValue (awdlInitElectionParamsV2Tlv sender)).length = 40 := rfl
  have serviceLength : (tlvValue awdlInitServiceParamsTlv).length = 9 := rfl
  -- the handlers see the values only through these equations
  generalize tlvValue (awdlInitSyncParamsTlv txEnv sender) = first at *
  generalize electionValue : tlvValue (awdlInitElectionParamsTlv sender) = second at *
  generalize chanseqValue : tlvValue (awdlInitChanseqTlv sender) = third at *
  generalize electionV2Value : tlvValue (awdlInitElectionParamsV2Tlv sender) = fourth at *
  generalize tlvValue awdlInitServiceParamsTlv = fifth at *
  obtain ⟨result, sync, fine, mode, syncHandled⟩ := handle_syncParams entry
    (tlvBuf first (by omega)) state env.long env.now (by dsimp only [tlvBuf]; omega)
  obtain ⟨election, self, electionHandled⟩ := handle_electionParams sender entry
    (tlvBuf second (by omega)) { state with sync := sync } electionValue.symm
  have chanseqHandled := fun list => handle_chanseq sender { entry with election := election }
    (tlvBuf third (by omega)) { state with sync := sync } wide list (mode.trans presence)
    chanseqValue.symm
  have electionV2Handled := handle_electionParamsV2 sender
    { entry with election := election, sequence := sender.channel.sequence }
    (tlvBuf fourth (by omega)) { state with sync := sync } electionV2Value.symm
  rw [show ElectionState.selfAddr election = _ from self] at electionV2Handled
  refine ⟨sync, ?_⟩
  refine .cons _ _ _ _ _ _ _ _ (by dsimp only; omega) (fun _ => ⟨result, fine, syncHandled⟩) ?_
  refine .cons _ _ _ _ _ _ _ _ (by dsimp only; omega)
    (fun _ => ⟨.ok, by decide, electionHandled⟩) ?_
  refine .cons _ _ _ _ _ _ _ _ (by dsimp only; omega)
    (fun list => ⟨.ok, by decide, chanseqHandled list⟩) ?_
  refine .cons _ _ _ _ _ _ _ _ (by dsimp only; omega)
    (fun _ => ⟨.ok, by decide, electionV2Handled⟩) ?_
  exact .cons _ _ _ _ _ _ _ _ (by dsimp only; omega) (fun _ => ⟨.ignore, by decide, rfl⟩) (.nil _ _)

/-- The two TLVs that only a MIF carries. -/
theorem digests_name (env : RxEnv) (terminated : 0 ∈ sender.name.toList) (peer : Peer)
    (state : AwdlState) (arpa : List UInt8) (built : awdlInitArpaTlv sender = .ok arpa) :
    ∃ name, cString (Fixed.toList name) = cString sender.name.toList ∧
      Digests env
        [(TlvType.enhancedDataRateCapabilities.code, tlvValue awdlInitHtCapabilitiesTlv),
          (TlvType.arpa.code, tlvValue arpa)] peer state { peer with name := name } state := by
  obtain ⟨-, short⟩ := awdlInitArpaTlv_encodes sender terminated arpa built
  obtain ⟨name, text, named⟩ := handle_arpa sender peer
    (tlvBuf (tlvValue arpa) (short.trans_lt (by decide))) state terminated arpa built rfl
  have htLength : (tlvValue awdlInitHtCapabilitiesTlv).length = 8 := rfl
  refine ⟨name, text, ?_⟩
  refine .cons _ _ _ _ _ _ _ _ (htLength.trans_lt (by decide)) (fun _ => ⟨.ignore, by decide, rfl⟩) ?_
  exact .cons _ _ _ _ _ _ _ _ (short.trans_lt (by decide)) (fun _ => ⟨.ok, by decide, named⟩)
    (.nil _ _)

/-- The TLVs behind the host name. -/
theorem digests_back (env : RxEnv) (peer : Peer) (state : AwdlState) :
    Digests env [(TlvType.dataPathState.code, tlvValue (awdlInitDataPathStateTlv sender)),
        (TlvType.version.code, tlvValue (awdlInitVersionTlv sender))] peer state
      { peer with countryCode := ⟨[0x58, 0x30, 0], rfl⟩, version := sender.version,
                  devclass := sender.devClass } state := by
  have dataPathLength : (tlvValue (awdlInitDataPathStateTlv sender)).length = 15 := rfl
  have versionLength : (tlvValue (awdlInitVersionTlv sender)).length = 2 := rfl
  refine .cons _ _ _ { peer with countryCode := ⟨[0x58, 0x30, 0], rfl⟩ } _ _ state _
    (dataPathLength.trans_lt (by decide)) ?_
    (.cons _ _ _ _ _ _ state _ (versionLength.trans_lt (by decide)) ?_ (.nil _ _))
  · exact fun list => ⟨.ok, by decide, handle_dataPathState sender peer _ state rfl⟩
  · exact fun list => ⟨.ok, by decide, handle_version sender _ _ state rfl⟩

/-- A frame leaves the state of its sender in the entry, whatever was there. -/
theorem actionTlvs_digest (env : RxEnv) (wide : sender.channel.enc ≠ .simple)
    (terminated : 0 ∈ sender.name.toList) (type : ActionType) (entry : Peer) (state : AwdlState)
    (presence : state.sync.presenceMode = 4) (arpa : List UInt8)
    (built : awdlInitArpaTlv sender = .ok arpa) :
    ∃ last final, Digests env (actionTlvs txEnv sender type arpa) entry state last final ∧
      Mirrors sender type entry last := by
  obtain ⟨sync, front⟩ := digests_front txEnv sender env wide entry state presence
  cases type with
  | psf =>
      refine ⟨_, _, front.append env (digests_back sender env _ _), rfl, rfl, rfl, rfl, ?_⟩
      intro mif
      cases mif
  | mif =>
      obtain ⟨name, text, middle⟩ := digests_name sender env terminated _ _ arpa built
      exact ⟨_, _, (front.append env middle).append env (digests_back sender env _ _), rfl, rfl, rfl,
        rfl, fun _ => text⟩

end Frame

end Owl.TlvRoundTrip
