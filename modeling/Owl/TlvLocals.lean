import Owl.TlvLoop

/-!
The local array of `awdl_handle_chanseq_tlv`, which nothing initialises. Two runs
of the TLV loop that differ in nothing but the contents of that array go in step:
the handlers return the same results and leave the same peer and node, up to the
channel sequence. That differs where the last accepted channel sequence has one
byte to a channel, because the copy then leaves one byte of every entry alone.
-/

namespace Owl.TlvLocals

open Bytes Ether Channel Sync Election Peers Wire State Frames RxTlv Rx RxSpec RxAction TlvLoop

section Handlers

variable (src : Peer) (val : Buf) (state : AwdlState) (sequence : ChanSeq)

def reseq (result : RxResult × Peer × AwdlState) : RxResult × Peer × AwdlState :=
  (result.1, { result.2.1 with sequence := sequence }, result.2.2)

theorem awdlHandleSyncParamsTlv_reseq (long : LongWidth) (now : UInt64) :
    awdlHandleSyncParamsTlv long { src with sequence := sequence } val state now =
      (awdlHandleSyncParamsTlv long src val state now).map (reseq sequence) := by
  unfold awdlHandleSyncParamsTlv
  dsimp only
  split
  · rfl
  rcases readLe16 val 1 with fault | _ | time
  · rfl
  · rfl
  rcases readLe16 val 29 with fault | _ | counter
  · rfl
  · rfl
  · rfl

theorem awdlHandleElectionParamsTlv_reseq :
    awdlHandleElectionParamsTlv { src with sequence := sequence } val state =
      (awdlHandleElectionParamsTlv src val state).map (reseq sequence) := by
  unfold awdlHandleElectionParamsTlv
  dsimp only
  split
  · rfl
  rcases readU8 val 3 with fault | _ | distance
  · rfl
  · rfl
  rcases readEtherAddr val 5 with fault | _ | master
  · rfl
  · rfl
  rcases readLe32 val 11 with fault | _ | metric
  · rfl
  · rfl
  rcases readLe32 val 15 with fault | _ | self
  · rfl
  · rfl
  · rfl

theorem awdlHandleElectionParamsV2Tlv_reseq :
    awdlHandleElectionParamsV2Tlv { src with sequence := sequence } val state =
      (awdlHandleElectionParamsV2Tlv src val state).map (reseq sequence) := by
  unfold awdlHandleElectionParamsV2Tlv
  rcases readLe32 val 16 with fault | _ | height
  · rfl
  · rfl
  rcases readEtherAddr val 0 with fault | _ | master
  · rfl
  · rfl
  rcases readEtherAddr val 6 with fault | _ | sync
  · rfl
  · rfl
  rcases readLe32 val 12 with fault | _ | counter
  · rfl
  · rfl
  rcases readLe32 val 20 with fault | _ | metric
  · rfl
  · rfl
  rcases readLe32 val 24 with fault | _ | self
  · rfl
  · rfl
  rcases readLe32 val 36 with fault | _ | own
  · rfl
  · rfl
  · rfl

theorem awdlHandleArpaTlv_reseq :
    awdlHandleArpaTlv { src with sequence := sequence } val state =
      (awdlHandleArpaTlv src val state).map (reseq sequence) := by
  unfold awdlHandleArpaTlv
  dsimp only
  rcases readIntString val 1 src.name hostNameLengthMax with fault | _ | name
  · rfl
  · rfl
  · rfl

theorem awdlHandleVersionTlv_reseq :
    awdlHandleVersionTlv { src with sequence := sequence } val state =
      (awdlHandleVersionTlv src val state).map (reseq sequence) := by
  unfold awdlHandleVersionTlv
  rcases readU8 val 0 with fault | _ | version
  · rfl
  · rfl
  rcases readU8 val 1 with fault | _ | devclass
  · rfl
  · rfl
  · rfl

theorem awdlHandleDataPathStateTlv_reseq :
    awdlHandleDataPathStateTlv { src with sequence := sequence } val state =
      (awdlHandleDataPathStateTlv src val state).map (reseq sequence) := by
  unfold awdlHandleDataPathStateTlv
  rcases readLe16 val 0 with fault | _ | flags
  · rfl
  · rfl
  -- Offsets are generalized on the way; the reads only have to be the same.
  dsimp only [except_ok_bind]
  rcases readIf (flags &&& awdlDataPathFlagCountryCode != 0)
    (readBytesCopy val 2 src.countryCode 3) src.countryCode with fault | _ | country
  · rfl
  · rfl
  dsimp only [except_ok_bind]
  generalize skipIf (flags &&& awdlDataPathFlagCountryCode != 0) 2 3 = offset
  rcases readIf (flags &&& awdlDataPathFlagSocialChannelMap != 0)
    (return readNull 2 val offset) () with fault | _ | _
  · rfl
  · rfl
  dsimp only [except_ok_bind]
  generalize skipIf (flags &&& awdlDataPathFlagSocialChannelMap != 0) offset 2 = offset
  rcases readIf (flags &&& awdlDataPathFlagInfraInfo != 0)
    (return readNull 6 val offset) () with fault | _ | _
  · rfl
  · rfl
  dsimp only [except_ok_bind]
  generalize skipIf (flags &&& awdlDataPathFlagInfraInfo != 0) offset 6 = offset
  rcases readIf (flags &&& awdlDataPathFlagInfraInfo != 0)
    (return readNull 2 val offset) () with fault | _ | _
  · rfl
  · rfl
  dsimp only [except_ok_bind]
  generalize skipIf (flags &&& awdlDataPathFlagInfraInfo != 0) offset 2 = offset
  rcases readIf (flags &&& awdlDataPathFlagInfraAddress != 0)
    (readEtherAddr val offset) src.infraAddr with fault | _ | infra
  · rfl
  · rfl
  dsimp only [except_ok_bind]
  rcases readIf (flags &&& awdlDataPathFlagAwdlAddress != 0)
    (return readNull 6 val (skipIf (flags &&& awdlDataPathFlagInfraAddress != 0) offset 6)) ()
    with fault | _ | _
  · rfl
  · rfl
  · rfl

/-- No handler but the one for channel sequences looks at the stored sequence, and
only that one uses `list`. -/
theorem awdlHandleTlv_reseq (long : LongWidth) (list list' : ChanSeq) (type : UInt8)
    (tsft : UInt64) (other : type ≠ TlvType.chanSeq.code) :
    awdlHandleTlv long list' { src with sequence := sequence } type val state tsft =
      (awdlHandleTlv long list src type val state tsft).map (reseq sequence) := by
  unfold awdlHandleTlv
  rw [if_neg other, if_neg other]
  split
  · exact awdlHandleSyncParamsTlv_reseq src val state sequence long tsft
  split
  · exact awdlHandleElectionParamsTlv_reseq src val state sequence
  split
  · exact awdlHandleElectionParamsV2Tlv_reseq src val state sequence
  split
  · exact awdlHandleArpaTlv_reseq src val state sequence
  split
  · exact awdlHandleDataPathStateTlv_reseq src val state sequence
  split
  · exact awdlHandleVersionTlv_reseq src val state sequence
  · rfl

end Handlers

section Chanseq

variable (val : Buf)

/-- The bytes of a sequence that a one-byte encoding does not write. -/
def seconds (list : ChanSeq) : List UInt8 := list.toList.map fun chan => byteAt chan.toList 1

theorem store_second (chan after : AwdlChan) (bytes : List UInt8) (single : bytes.length = 1)
    (stored : chan.store 0 bytes = some after) :
    byteAt after.toList 1 = byteAt chan.toList 1 := by
  have content := Fixed.store_toList chan after 0 bytes stored
  have size := chan.size
  match bytes, chan, size with
  | [first], ⟨[low, high], _⟩, _ =>
      rw [content]
      rfl

theorem store_seconds (list after : ChanSeq) (i : Nat) (chan : AwdlChan)
    (inside : i < awdlChanseqLength)
    (same : byteAt chan.toList 1 = byteAt (list.toList.getD i chanNull).toList 1)
    (stored : list.store i [chan] = some after) : seconds after = seconds list := by
  have content := Fixed.store_toList list after i [chan] stored
  have bound : i < list.toList.length := by rw [list.size]; exact inside
  have apart : list.toList = list.toList.take i ++ list.toList[i] :: list.toList.drop (i + 1) := by
    rw [← List.drop_eq_getElem_cons bound, List.take_append_drop]
  rw [List.getD_eq_getElem?_getD, List.getElem?_eq_getElem bound, Option.getD_some] at same
  unfold seconds
  conv_rhs => rw [apart, List.map_append, List.map_cons, ← same]
  rw [content, List.append_assoc, List.map_append, List.singleton_append, List.map_cons,
    List.length_singleton]

/-- With two bytes to a channel every entry is overwritten. -/
theorem chanseqLoop_wide (count i : Nat) (offset : Int) (list list' : ChanSeq)
    (room : i + count = awdlChanseqLength) (start : 0 ≤ offset)
    (bound : offset + 2 * count < 2 ^ 31) (agree : list.toList.take i = list'.toList.take i) :
    chanseqLoop val 2 count i offset list = chanseqLoop val 2 count i offset list' := by
  -- Both arrays agree on the entries that were copied already.
  induction count generalizing i offset list list' with
  | zero =>
      have same : list = list' := by
        apply Fixed.ext_list
        rwa [List.take_of_length_le (by rw [list.size]; omega),
          List.take_of_length_le (by rw [list'.size]; omega)] at agree
      rw [same]
  | succ count ih =>
      by_cases inside : offset.toNat + 2 ≤ val.bytes.length
      swap
      · have ends : ∀ before : ChanSeq, chanseqLoop val 2 (count + 1) i offset before = .ok none :=
          fun before => chanseqLoop_short val 2 (by decide) count i offset start (by omega) before
            inside
        rw [ends, ends]
      have width := slice_length val.bytes offset.toNat 2 inside
      -- one step of either run
      have step : ∀ before : ChanSeq, ∃ next : ChanSeq, next.toList.take (i + 1) =
          before.toList.take i ++ [⟨slice val.bytes offset.toNat 2, width⟩] ∧
          chanseqLoop val 2 (count + 1) i offset before =
            chanseqLoop val 2 count (i + 1) (offset + 2) next := by
        intro before
        obtain ⟨chan, next, copied, stored, run⟩ := chanseqLoop_step val 2 (by decide) count i offset
          start (by omega) before (by omega) inside
        obtain rfl := Option.some.inj ((Fixed.store_whole _ _ width).symm.trans copied)
        refine ⟨next, ?_, run⟩
        rw [Fixed.store_toList before next i _ stored]
        refine List.take_left' ?_
        rw [List.length_append, List.length_take, before.size, List.length_singleton]
        omega
      obtain ⟨next, front, run⟩ := step list
      obtain ⟨next', front', run'⟩ := step list'
      rw [run, run']
      exact ih (i + 1) (offset + 2) next next' (by omega) (by omega) (by omega)
        (by rw [front, front', agree])

/-- With one byte to a channel the other byte of every entry stays. -/
theorem chanseqLoop_single (count i : Nat) (offset : Int) (list list' : ChanSeq)
    (room : i + count = awdlChanseqLength) (start : 0 ≤ offset)
    (bound : offset + 2 * count < 2 ^ 31) :
    (chanseqLoop val 1 count i offset list = .ok none ∧
        chanseqLoop val 1 count i offset list' = .ok none) ∨
      ∃ after after', chanseqLoop val 1 count i offset list = .ok (some after) ∧
        chanseqLoop val 1 count i offset list' = .ok (some after') ∧
        seconds after = seconds list ∧ seconds after' = seconds list' := by
  -- Each array keeps its own second bytes; whether the copy succeeds depends on neither.
  induction count generalizing i offset list list' with
  | zero => exact .inr ⟨list, list', rfl, rfl, rfl, rfl⟩
  | succ count ih =>
      by_cases inside : offset.toNat + 1 ≤ val.bytes.length
      swap
      · have ends : ∀ before : ChanSeq, chanseqLoop val 1 (count + 1) i offset before = .ok none :=
          fun before => chanseqLoop_short val 1 (by decide) count i offset start (by omega) before
            inside
        exact .inl ⟨ends list, ends list'⟩
      have width := slice_length val.bytes offset.toNat 1 inside
      -- one step of either run
      have step : ∀ before : ChanSeq, ∃ next, seconds next = seconds before ∧
          chanseqLoop val 1 (count + 1) i offset before =
            chanseqLoop val 1 count (i + 1) (offset + 1) next := by
        intro before
        obtain ⟨chan, next, written, stored, run⟩ := chanseqLoop_step val 1 (by decide) count i offset
          start (by omega) before (by omega) inside
        exact ⟨next, store_seconds before next i chan (by omega)
          (store_second _ chan _ width written) stored, run⟩
      obtain ⟨next, kept, run⟩ := step list
      obtain ⟨next', kept', run'⟩ := step list'
      rw [run, run', ← kept, ← kept']
      exact ih (i + 1) (offset + 1) next next' (by omega) (by omega) (by omega)

theorem encodingSize_cases (code : UInt8) :
    awdlChanEncodingSize (ChanEncoding.ofCode code) < 1 ∨
      awdlChanEncodingSize (ChanEncoding.ofCode code) = 1 ∧ code = ChanEncoding.simple.code ∨
      awdlChanEncodingSize (ChanEncoding.ofCode code) = 2 ∧ code ≠ ChanEncoding.simple.code := by
  unfold ChanEncoding.ofCode
  split
  case isTrue simple => exact .inr (.inl ⟨rfl, simple⟩)
  case isFalse other =>
  split
  · exact .inr (.inr ⟨rfl, other⟩)
  split
  · exact .inr (.inr ⟨rfl, other⟩)
  · exact .inl (by decide)

/-- What two runs of the handler for channel sequences have in common: both refuse
the value, both take the same channels, or both keep the second bytes of their `list`. -/
def Paired (src : Peer) (state : AwdlState) (list list' sequence : ChanSeq)
    (left right : Handled) : Prop :=
  ∃ result after after', left = .ok (result, { src with sequence := after }, state) ∧
    right = .ok (result, { src with sequence := after' }, state) ∧
    (result.code < 0 ∧ after = src.sequence ∧ after' = sequence ∨
      0 ≤ result.code ∧
        (byteAt val.bytes 1 ≠ ChanEncoding.simple.code ∧ after = after' ∨
          byteAt val.bytes 1 = ChanEncoding.simple.code ∧
            seconds after = seconds list ∧ seconds after' = seconds list'))

theorem awdlHandleChanseqTlv_pair (src : Peer) (state : AwdlState)
    (list list' sequence : ChanSeq) :
    Paired val src state list list' sequence (awdlHandleChanseqTlv list src val state)
      (awdlHandleChanseqTlv list' { src with sequence := sequence } val state) := by
  -- No refusal depends on `list` or on the stored sequence.
  have failed : ∀ result : RxResult, result.code < 0 →
      Paired val src state list list' sequence (.ok (result, src, state))
        (.ok (result, { src with sequence := sequence }, state)) :=
    fun result negative => ⟨result, src.sequence, sequence, rfl, rfl, .inl ⟨negative, rfl, rfl⟩⟩
  rcases awdlHandleChanseqTlv_headFirst val state with ⟨-, result, negative, refuses⟩ | ⟨head, copies⟩
  · beta_reduce at refuses
    rw [refuses, refuses]
    exact failed result negative
  obtain ⟨read, loop, -, run⟩ := copies list src
  obtain ⟨read', loop', -, run'⟩ := copies list' { src with sequence := sequence }
  beta_reduce at run run'
  rw [run, run']
  rcases encodingSize_cases (byteAt val.bytes 1) with none | ⟨one, simple⟩ | ⟨two, wide⟩
  · exact absurd none (Int.not_lt.mpr head.2.2.2.2.2)
  · rw [one] at loop loop'
    rcases chanseqLoop_single val awdlChanseqLength 0 6 list list' (by decide) (by decide)
      (by decide) with ⟨left, right⟩ | ⟨after, after', left, right, kept, kept'⟩
    · cases left.symm.trans loop
      cases right.symm.trans loop'
      exact failed .tooShort (by decide)
    · cases left.symm.trans loop
      cases right.symm.trans loop'
      exact ⟨.ok, after, after', rfl, rfl, .inr ⟨by decide, .inr ⟨simple, kept, kept'⟩⟩⟩
  · rw [two] at loop loop'
    rw [chanseqLoop_wide val awdlChanseqLength 0 6 list list' (by decide) (by decide)
      (by decide) rfl] at loop
    cases loop.symm.trans loop'
    cases read with
    | none => exact failed .tooShort (by decide)
    | some after => exact ⟨.ok, after, after, rfl, rfl, .inr ⟨by decide, .inl ⟨wide, rfl⟩⟩⟩

end Chanseq

section Loop

def withLocals (env : RxEnv) (rssi : Int8) (flags : UInt8) (list : Nat → ChanSeq) : RxEnv :=
  { env with rssi := rssi, flags := flags, list := list }

/-- One TLV in two runs. -/
theorem awdlHandleTlv_pair (long : LongWidth) (list list' sequence : ChanSeq) (src : Peer)
    (type : UInt8) (val : Buf) (state : AwdlState) (tsft : UInt64) :
    ∃ result peer node after,
      awdlHandleTlv long list src type val state tsft = .ok (result, peer, node) ∧
      awdlHandleTlv long list' { src with sequence := sequence } type val state tsft =
        .ok (result, { peer with sequence := after }, node) ∧
      ((type ≠ TlvType.chanSeq.code ∨ result.code < 0) ∧ peer.sequence = src.sequence ∧
          after = sequence ∨
        type = TlvType.chanSeq.code ∧ 0 ≤ result.code ∧
          (byteAt val.bytes 1 ≠ ChanEncoding.simple.code ∧ peer.sequence = after ∨
            byteAt val.bytes 1 = ChanEncoding.simple.code ∧
              seconds peer.sequence = seconds list ∧ seconds after = seconds list')) := by
  by_cases chanseq : type = TlvType.chanSeq.code
  · have handler : ∀ (list : ChanSeq) (src : Peer),
        awdlHandleTlv long list src type val state tsft = awdlHandleChanseqTlv list src val state := by
      intro list src
      unfold awdlHandleTlv
      rw [if_neg (by rw [chanseq]; decide), if_pos chanseq]
    obtain ⟨result, after, after', run, run', kept⟩ := awdlHandleChanseqTlv_pair val src state list
      list' sequence
    refine ⟨result, { src with sequence := after }, state, after', by rw [handler, run],
      by rw [handler, run'], ?_⟩
    rcases kept with ⟨negative, old, old'⟩ | ⟨fine, copied⟩
    · exact .inl ⟨.inr negative, old, old'⟩
    · exact .inr ⟨chanseq, fine, copied⟩
  · obtain ⟨⟨result, peer, node⟩, run, -⟩ := awdlHandleTlv_from src val state long list type tsft
    have run' := awdlHandleTlv_reseq src val state sequence long list list' type tsft chanseq
    have same := awdlHandleTlv_reseq src val state src.sequence long list list type tsft chanseq
    rw [run] at run' same
    have kept : peer.sequence = src.sequence := by
      injection same with pair
      exact congrArg (fun result => result.2.1.sequence) pair
    exact ⟨result, peer, node, sequence, run, run', .inl ⟨.inl chanseq, kept, rfl⟩⟩

def lastChanseq : List (UInt8 × List UInt8) → Option (List UInt8)
  | [] => none
  | tlv :: tlvs =>
      (lastChanseq tlvs).or (if tlv.1 = TlvType.chanSeq.code then some tlv.2 else none)

def LastSimple (tlvs : List (UInt8 × List UInt8)) : Prop :=
  ∃ value, lastChanseq tlvs = some value ∧ byteAt value 1 = ChanEncoding.simple.code

variable {env : RxEnv} (rssi : Int8) (flags : UInt8) (list : Nat → ChanSeq)
  {rest : List UInt8} {tlvs : List (UInt8 × List UInt8)} {peer last : Peer}
  {state final : AwdlState} {calls : List RxEvent}

def Sequences (env : RxEnv) (list : Nat → ChanSeq) (tlvs : List (UInt8 × List UInt8))
    (start start' ended ended' : ChanSeq) : Prop :=
  match lastChanseq tlvs with
  | none => ended = start ∧ ended' = start'
  | some value => byteAt value 1 ≠ ChanEncoding.simple.code ∧ ended = ended' ∨
      byteAt value 1 = ChanEncoding.simple.code ∧ ∃ left,
        seconds ended = seconds (env.list left) ∧ seconds ended' = seconds (list left)

theorem handles_pair (handled : Handles env rest tlvs peer state last final calls)
    (sequence : ChanSeq) :
    ∃ after, Handles (withLocals env rssi flags list) rest tlvs { peer with sequence := sequence }
        state { last with sequence := after } final calls ∧
      Sequences env list tlvs peer.sequence sequence last.sequence after := by
  induction handled generalizing sequence with
  | nil peer state => exact ⟨sequence, .nil _ state, rfl, rfl⟩
  | cons tlv tlvs peer mid last state between final result calls short called fine later ih =>
      obtain ⟨shown, next, node, between', run, run', kept⟩ := awdlHandleTlv_pair env.long
        (env.list ((tlv :: tlvs).flatMap encodeTlv ++ rest).length)
        (list ((tlv :: tlvs).flatMap encodeTlv ++ rest).length) sequence peer tlv.1
        (tlvBuf tlv.2 short) state env.now
      rw [called] at run
      cases run
      obtain ⟨after, handled, ended⟩ := ih between'
      refine ⟨after, .cons tlv tlvs { peer with sequence := sequence }
        { mid with sequence := between' } { last with sequence := after } state between final result
        calls short run' fine handled, ?_⟩
      unfold Sequences at ended ⊢
      rw [lastChanseq]
      cases later : lastChanseq tlvs with
      | some value =>
          rw [later] at ended
          exact ended
      | none =>
          -- the tail keeps what this TLV leaves
          rw [later] at ended
          obtain ⟨same, same'⟩ := ended
          rw [Option.none_or]
          rcases kept with ⟨other | bad, old, old'⟩ | ⟨chanseq, -, copied⟩
          · rw [if_neg other]
            exact ⟨same.trans old, same'.trans old'⟩
          · omega
          · rw [if_pos chanseq, same, same']
            rcases copied with ⟨wide, agree⟩ | ⟨simple, second, second'⟩
            · exact .inl ⟨wide, agree⟩
            · exact .inr ⟨simple, _, second, second'⟩

def Stuck (env : RxEnv) (rest : List UInt8) (peer : Peer) (state : AwdlState) : Prop :=
  ∀ (tlv : UInt8 × List UInt8) (more : List UInt8) (short : tlv.2.length < 65536),
    rest = encodeTlv tlv ++ more → ∀ result last final,
      awdlHandleTlv env.long (env.list rest.length) peer tlv.1 (tlvBuf tlv.2 short) state env.now =
        .ok (result, last, final) → result.code < 0

/-- Behind the TLVs that a loop accepts, it is stuck. -/
theorem handles_stuck (env : RxEnv) (frame : Buf) (peer : Peer) (state : AwdlState) :
    ∃ tlvs rest last final calls, frame.bytes = tlvs.flatMap encodeTlv ++ rest ∧
      Handles env rest tlvs peer state last final calls ∧ Stuck env rest last final := by
  obtain ⟨⟨accepted, view, ended, node, trace⟩, -, ⟨-, -, tlvs, bytes, handled⟩ |
    ⟨-, all, breaks⟩⟩ := tlvLoop_ends env (frame.bytes.length + 1) frame peer state
      (Nat.lt_succ_self _)
  · refine ⟨tlvs, [], _, _, _, by rw [bytes, List.append_nil], handled, ?_⟩
    intro tlv more short empty
    exact absurd empty.symm (encodeTlv_ne_nil tlv more)
  -- Either way of stopping early leaves no TLV that would be accepted.
  dsimp only at breaks
  cases breaks with
  | tail tlvs rest last final calls cut left truncated handled =>
      refine ⟨_, rest, _, _, _, cut, handled, ?_⟩
      intro tlv more short complete
      exact absurd ⟨tlv, more, short, complete⟩ truncated
  | refused tlvs bad rest mid last between final calls result cut handled short called negative =>
      refine ⟨tlvs, encodeTlv bad ++ rest, mid, between, calls, cut, handled, ?_⟩
      intro tlv more small same shown after node run
      obtain rfl := encodeTlv_inj bad tlv rest more short small same
      rw [run] at called
      cases called
      exact negative

/-- Where the loop is stuck it ends, in both runs alike. -/
theorem stuck_pair (stuck : Stuck env rest peer state) (left : Buf) (bytes : left.bytes = rest)
    (sequence : ChanSeq) :
    ∃ accepted last final trace, last.sequence = peer.sequence ∧
      (∀ fuel, rest.length < fuel →
        tlvLoop env fuel left peer state = .ok ⟨accepted, left, last, final, trace⟩) ∧
      ∀ fuel, rest.length < fuel →
        tlvLoop (withLocals env rssi flags list) fuel left { peer with sequence := sequence } state =
          .ok ⟨accepted, left, { last with sequence := sequence }, final, trace⟩ := by
  cases found : nextTlv left with
  | none =>
      have ends : ∀ (env : RxEnv) (peer : Peer) (fuel : Nat), rest.length < fuel →
          tlvLoop env fuel left peer state = .ok ⟨true, left, peer, state, []⟩ := by
        intro env peer fuel enough
        cases fuel with
        | zero => omega
        | succ fuel => rw [tlvLoop, tlvRound_eq, found]
      exact ⟨true, peer, state, [], rfl, ends env peer, ends _ _⟩
  | some cut =>
      obtain ⟨type, val, more⟩ := cut
      obtain ⟨short, whole⟩ := nextTlv_some left val more type found
      have view : val = tlvBuf val.bytes short := Buf.ext_bytes rfl
      obtain ⟨result, last, final, after, run, run', kept⟩ := awdlHandleTlv_pair env.long
        (env.list left.bytes.length) (list left.bytes.length) sequence peer type val state env.now
      -- The TLV is refused with the given locals, hence with all.
      have negative : result.code < 0 := by
        rw [bytes] at whole
        refine stuck (type, val.bytes) more.bytes short whole result last final ?_
        rw [← view, ← bytes]
        exact run
      obtain ⟨same, same'⟩ : last.sequence = peer.sequence ∧ after = sequence := by
        rcases kept with ⟨-, same, same'⟩ | ⟨-, fine, -⟩
        · exact ⟨same, same'⟩
        · omega
      subst same'
      have ends : ∀ (env' : RxEnv) (start ended : Peer), awdlHandleTlv env'.long
          (env'.list left.bytes.length) start type val state env'.now =
            .ok (result, ended, final) → ∀ fuel, rest.length < fuel →
          tlvLoop env' fuel left start state =
            .ok ⟨false, left, ended, final, [.tlv ended.addr type val.bytes result]⟩ := by
        intro env' start ended called fuel enough
        cases fuel with
        | zero => omega
        | succ fuel =>
            rw [tlvLoop, tlvRound_eq, found]
            dsimp only
            rw [called, except_ok_bind]
            dsimp only
            rw [if_pos negative]
            rfl
      exact ⟨false, last, final, _, same, ends env peer last run,
        ends (withLocals env rssi flags list) _ _ run'⟩

/-- The loop in two runs: they differ at most in the sequence they leave. -/
theorem tlvLoop_pair (frame : Buf) (cut : frame.bytes = tlvs.flatMap encodeTlv ++ rest)
    (handled : Handles env rest tlvs peer state last final calls)
    (stuck : Stuck env rest last final) :
    ∃ loop after,
      tlvLoop env (frame.bytes.length + 1) frame peer state = .ok loop ∧
      tlvLoop (withLocals env rssi flags list) (frame.bytes.length + 1) frame peer state =
        .ok { loop with peer := { loop.peer with sequence := after } } ∧
      Sequences env list tlvs peer.sequence peer.sequence loop.peer.sequence after := by
  obtain ⟨after, handled', sequences⟩ := handles_pair rssi flags list handled peer.sequence
  obtain ⟨left, more, bytes, room, run⟩ := tlvLoop_handles handled (frame.bytes.length + 1) frame cut
    (Nat.lt_succ_self _)
  obtain ⟨left', more', bytes', room', run'⟩ := tlvLoop_handles handled' (frame.bytes.length + 1)
    frame cut (Nat.lt_succ_self _)
  obtain rfl : left' = left := Buf.ext_bytes (bytes'.trans bytes.symm)
  obtain ⟨accepted, ended, node, trace, same, ends, ends'⟩ := stuck_pair rssi flags list stuck left'
    bytes after
  rw [ends more room] at run
  rw [ends' more' room'] at run'
  refine ⟨_, after, run, run', ?_⟩
  show Sequences env list tlvs peer.sequence peer.sequence ended.sequence after
  rw [same]
  exact sequences

theorem tlvLoop_same (frame : Buf) (cut : frame.bytes = tlvs.flatMap encodeTlv ++ rest)
    (handled : Handles env rest tlvs peer state last final calls)
    (stuck : Stuck env rest last final) (wide : ¬ LastSimple tlvs) :
    tlvLoop (withLocals env rssi flags list) (frame.bytes.length + 1) frame peer state =
      tlvLoop env (frame.bytes.length + 1) frame peer state := by
  obtain ⟨loop, after, run, run', sequences⟩ := tlvLoop_pair rssi flags list frame cut handled stuck
  rw [run, run']
  have same : after = loop.peer.sequence := by
    unfold Sequences at sequences
    cases later : lastChanseq tlvs with
    | none =>
        rw [later] at sequences
        rw [sequences.1, sequences.2]
    | some value =>
        rw [later] at sequences
        rcases sequences with ⟨-, same⟩ | ⟨simple, -⟩
        · exact same.symm
        · exact absurd ⟨value, later, simple⟩ wide
  rw [same]

/-- Behind a sequence of single bytes the second bytes are those of `list`. -/
theorem tlvLoop_stained (frame : Buf) (cut : frame.bytes = tlvs.flatMap encodeTlv ++ rest)
    (handled : Handles env rest tlvs peer state last final calls)
    (stuck : Stuck env rest last final) (simple : LastSimple tlvs) :
    ∃ loop left, tlvLoop (withLocals env rssi flags list) (frame.bytes.length + 1) frame peer state =
      .ok loop ∧ seconds loop.peer.sequence = seconds (list left) := by
  obtain ⟨loop, after, -, run', sequences⟩ := tlvLoop_pair rssi flags list frame cut handled stuck
  obtain ⟨value, later, encoded⟩ := simple
  unfold Sequences at sequences
  rw [later] at sequences
  rcases sequences with ⟨wide, -⟩ | ⟨-, left, -, second⟩
  · exact absurd encoded wide
  · exact ⟨_, left, run', second⟩

end Loop

end Owl.TlvLocals
