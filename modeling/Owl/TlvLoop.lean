import Owl.RxPeers

/-!
The grammar of an action frame body. A body is cut into complete TLVs from the
front; what `read_tlv` does not take for a TLV is either the end of the body or
a truncated tail. The loop of `awdl_rx_action` hands the complete TLVs to
`awdl_handle_tlv` in order, with peer and state threaded through, and stops
behind the first negative result. Both are stated without the loop, so that the
loop can be compared with them in either direction.
-/

namespace Owl.TlvLoop

open Bytes Ether Siphash Peers PeersRefine Wire State Frames RxTlv Rx RxSpec RxAction RxData
  RxPeers

section Grammar

def encodeTlv (tlv : UInt8 × List UInt8) : List UInt8 :=
  tlv.1 :: (le16 (UInt16.ofNat tlv.2.length) ++ tlv.2)

theorem encodeTlv_length (tlv : UInt8 × List UInt8) :
    (encodeTlv tlv).length = tlv.2.length + 3 := by
  simp only [encodeTlv, List.length_cons, List.length_append, le16_length]
  omega

theorem encodeTlv_ne_nil (tlv : UInt8 × List UInt8) (more : List UInt8) :
    encodeTlv tlv ++ more ≠ [] := by
  unfold encodeTlv
  exact List.cons_ne_nil _ _

theorem encodeTlv_inj (first second : UInt8 × List UInt8) (rest more : List UInt8)
    (short : first.2.length < 65536) (small : second.2.length < 65536)
    (same : encodeTlv first ++ rest = encodeTlv second ++ more) : first = second := by
  unfold encodeTlv at same
  rw [List.cons_append, List.cons_append, List.cons.injEq, List.append_assoc,
    List.append_assoc] at same
  obtain ⟨type, behind⟩ := same
  obtain ⟨count, behind⟩ := List.append_inj behind rfl
  have counted := congrArg ofLe16 count
  have read : ∀ value : UInt16, ofLe16 (le16 value) = value := fun value => ofLe16_le16 value []
  rw [read, read] at counted
  -- The length field is the whole length only below 2^16.
  have lengths : first.2.length = second.2.length := by
    have sizes := congrArg UInt16.toNat counted
    rwa [UInt16.toNat_ofNat', UInt16.toNat_ofNat', Nat.mod_eq_of_lt short,
      Nat.mod_eq_of_lt small] at sizes
  exact Prod.ext type (List.append_inj behind lengths).1

def tlvBuf (value : List UInt8) (short : value.length < 65536) : Buf :=
  ⟨value, Nat.lt_trans short (by decide)⟩

theorem nextTlv_encode (frame : Buf) (tlv : UInt8 × List UInt8) (rest : List UInt8)
    (bytes : frame.bytes = encodeTlv tlv ++ rest) (short : tlv.2.length < 65536) :
    ∃ left : Buf, nextTlv frame = some (tlv.1, tlvBuf tlv.2 short, left) ∧ left.bytes = rest := by
  have field : ofLe16 (slice frame.bytes 1 2) = UInt16.ofNat tlv.2.length := by
    rw [bytes]
    exact ofLe16_le16 _ []
  have value : (UInt16.ofNat tlv.2.length).toNat = tlv.2.length := by
    rw [UInt16.toNat_ofNat']
    exact Nat.mod_eq_of_lt short
  have length : frame.bytes.length = tlv.2.length + 3 + rest.length := by
    rw [bytes, List.length_append, encodeTlv_length]
  have start : frame.bytes.drop 3 = tlv.2 ++ rest := by
    rw [bytes]
    rfl
  have content : frame.part 3 tlv.2.length = tlvBuf tlv.2 short := by
    apply Buf.ext_bytes
    rw [part_bytes, slice, start, List.take_left]
    rfl
  refine ⟨frame.drop (3 + tlv.2.length), ?_, ?_⟩
  · rw [nextTlv, field, value, if_pos (by omega), content, bytes]
    rfl
  · rw [drop_bytes, ← List.drop_drop, start, List.drop_left]

/-- What `read_tlv` cuts out is what the sender of such a TLV has written. -/
theorem nextTlv_some (frame val left : Buf) (type : UInt8)
    (found : nextTlv frame = some (type, val, left)) :
    val.bytes.length < 65536 ∧ frame.bytes = encodeTlv (type, val.bytes) ++ left.bytes := by
  unfold nextTlv at found
  split at found
  case isFalse => cases found
  case isTrue fits =>
    cases found
    obtain ⟨long, inside⟩ := fits
    have length := slice_length frame.bytes 3 _ inside
    have small := (ofLe16 (slice frame.bytes 1 2)).toNat_lt
    refine ⟨by rw [part_bytes, length]; exact small, ?_⟩
    have counted : UInt16.ofNat (ofLe16 (slice frame.bytes 1 2)).toNat =
        ofLe16 (slice frame.bytes 1 2) := UInt16.ofNat_toNat
    rw [encodeTlv, part_bytes, drop_bytes, length, counted]
    generalize frame.bytes = bytes at long
    -- Three bytes of header, then value and rest as the length field divides them.
    match bytes with
    | [] => cases long
    | [_] => simp at long
    | [_, _] => simp at long
    | kind :: low :: high :: rest =>
        have field : slice (kind :: low :: high :: rest) 1 2 = [low, high] := rfl
        have value : ∀ count, slice (kind :: low :: high :: rest) 3 count = rest.take count :=
          fun _ => rfl
        have tail : ∀ count, (kind :: low :: high :: rest).drop (3 + count) = rest.drop count := by
          intro count
          rw [← List.drop_drop]
          rfl
        rw [field, le16_ofLe16, value, tail]
        show _ = kind :: ([low, high] ++ rest.take _ ++ rest.drop _)
        rw [List.append_assoc, List.take_append_drop]
        rfl

/-- The views that start with a complete TLV. -/
theorem nextTlv_none (frame : Buf) :
    nextTlv frame = none ↔
      ¬ ∃ tlv rest, tlv.2.length < 65536 ∧ frame.bytes = encodeTlv tlv ++ rest := by
  constructor
  · rintro none ⟨tlv, rest, short, bytes⟩
    obtain ⟨left, found, -⟩ := nextTlv_encode frame tlv rest bytes short
    rw [none] at found
    cases found
  · intro none
    cases found : nextTlv frame with
    | none => rfl
    | some cut =>
        obtain ⟨type, val, left⟩ := cut
        obtain ⟨short, bytes⟩ := nextTlv_some frame val left type found
        exact absurd ⟨(type, val.bytes), left.bytes, short, bytes⟩ none

end Grammar

section Loop

variable (env : RxEnv)

/-- The complete TLVs `tlvs` in front of `rest` are handled in order, each once and
none with a negative result; `calls` are the calls of `awdl_handle_tlv`. -/
inductive Handles (rest : List UInt8) : List (UInt8 × List UInt8) → Peer → AwdlState → Peer →
    AwdlState → List RxEvent → Prop where
  | nil (peer : Peer) (state : AwdlState) : Handles rest [] peer state peer state []
  | cons (tlv : UInt8 × List UInt8) (tlvs : List (UInt8 × List UInt8)) (peer mid last : Peer)
      (state between final : AwdlState) (result : RxResult) (calls : List RxEvent)
      (short : tlv.2.length < 65536)
      (called : awdlHandleTlv env.long
          (env.list ((tlv :: tlvs).flatMap encodeTlv ++ rest).length) peer tlv.1
          (tlvBuf tlv.2 short) state env.now = .ok (result, mid, between))
      (fine : 0 ≤ result.code) (later : Handles rest tlvs mid between last final calls) :
      Handles rest (tlv :: tlvs) peer state last final (.tlv mid.addr tlv.1 tlv.2 result :: calls)

/-- How the loop stops other than at the end of a body: in front of a tail that
is no complete TLV, or behind the first TLV with a negative result. -/
inductive Breaks (body : List UInt8) (peer : Peer) (state : AwdlState) :
    List (UInt8 × List UInt8) → Peer → AwdlState → List RxEvent → Prop where
  | tail (tlvs : List (UInt8 × List UInt8)) (rest : List UInt8) (last : Peer) (final : AwdlState)
      (calls : List RxEvent) (cut : body = tlvs.flatMap encodeTlv ++ rest) (left : rest ≠ [])
      (truncated : ¬ ∃ tlv more, tlv.2.length < 65536 ∧ rest = encodeTlv tlv ++ more)
      (handled : Handles env rest tlvs peer state last final calls) :
      Breaks body peer state tlvs last final calls
  | refused (tlvs : List (UInt8 × List UInt8)) (tlv : UInt8 × List UInt8) (rest : List UInt8)
      (mid last : Peer) (between final : AwdlState) (calls : List RxEvent) (result : RxResult)
      (cut : body = tlvs.flatMap encodeTlv ++ (encodeTlv tlv ++ rest))
      (handled : Handles env (encodeTlv tlv ++ rest) tlvs peer state mid between calls)
      (short : tlv.2.length < 65536)
      (called : awdlHandleTlv env.long (env.list (encodeTlv tlv ++ rest).length) mid tlv.1
          (tlvBuf tlv.2 short) between env.now = .ok (result, last, final))
      (bad : result.code < 0) :
      Breaks body peer state (tlvs ++ [tlv]) last final
        (calls ++ [.tlv last.addr tlv.1 tlv.2 result])

def handledTlvs (trace : List RxEvent) : List (UInt8 × List UInt8) :=
  trace.filterMap fun event =>
    match event with
    | .tlv _ type value _ => some (type, value)
    | _ => none

theorem handledTlvs_append (front back : List RxEvent) :
    handledTlvs (front ++ back) = handledTlvs front ++ handledTlvs back :=
  List.filterMap_append

variable {env} {rest : List UInt8} {tlvs : List (UInt8 × List UInt8)} {peer last : Peer}
  {state final : AwdlState} {calls : List RxEvent}

theorem Handles.once (handled : Handles env rest tlvs peer state last final calls) :
    handledTlvs calls = tlvs := by
  induction handled with
  | nil peer state => rfl
  | cons tlv tlvs peer mid last state between final result calls short called fine later ih =>
      show (tlv.1, tlv.2) :: handledTlvs calls = tlv :: tlvs
      rw [ih]

theorem Breaks.once {body : List UInt8} (breaks : Breaks env body peer state tlvs last final calls) :
    handledTlvs calls = tlvs := by
  cases breaks with
  | tail tlvs rest last final calls cut left truncated handled => exact handled.once
  | refused tlvs tlv rest mid last between final calls result cut handled =>
      rw [handledTlvs_append, handled.once]
      rfl

theorem Handles.kept (handled : Handles env rest tlvs peer state last final calls) :
    Kept peer last state final := by
  induction handled with
  | nil peer state => exact Kept.refl peer state
  | cons tlv tlvs peer mid last state between final result calls short called fine later ih =>
      obtain ⟨value, run, kept, -⟩ := awdlHandleTlv_from peer (tlvBuf tlv.2 short) state env.long
        (env.list ((tlv :: tlvs).flatMap encodeTlv ++ rest).length) tlv.1 env.now
      rw [called] at run
      cases run
      exact kept.trans ih

theorem Breaks.kept {body : List UInt8}
    (breaks : Breaks env body peer state tlvs last final calls) : Kept peer last state final := by
  cases breaks with
  | tail tlvs rest last final calls cut left truncated handled => exact handled.kept
  | refused tlvs tlv rest mid last between final calls result cut handled short called bad =>
      obtain ⟨value, run, kept, -⟩ := awdlHandleTlv_from mid (tlvBuf tlv.2 short) between env.long
        (env.list (encodeTlv tlv ++ rest).length) tlv.1 env.now
      rw [called] at run
      cases run
      exact handled.kept.trans kept

/-- The loop behind the TLVs that were handled goes on with what is left of the frame. -/
theorem tlvLoop_handles (handled : Handles env rest tlvs peer state last final calls) (fuel : Nat)
    (frame : Buf) (bytes : frame.bytes = tlvs.flatMap encodeTlv ++ rest)
    (enough : frame.bytes.length < fuel) :
    ∃ (left : Buf) (more : Nat), left.bytes = rest ∧ rest.length < more ∧
      tlvLoop env fuel frame peer state =
        (tlvLoop env more left last final).map fun loop =>
          { loop with trace := calls ++ loop.trace } := by
  induction handled generalizing fuel frame with
  | nil peer state =>
      have same : frame.bytes = rest := bytes
      refine ⟨frame, fuel, same, by rw [← same]; exact enough, ?_⟩
      cases tlvLoop env fuel frame peer state <;> rfl
  | cons tlv tlvs peer mid last state between final result calls short called fine later ih =>
      -- `env.list` is indexed by the bytes that are left, which are those of the frame.
      rw [← bytes] at called
      rw [List.flatMap_cons, List.append_assoc] at bytes
      obtain ⟨left, found, remaining⟩ := nextTlv_encode frame tlv _ bytes short
      have shorter := nextTlv_length frame _ left tlv.1 found
      cases fuel with
      | zero => omega
      | succ fuel =>
          obtain ⟨behind, more, empty, room, run⟩ := ih fuel left remaining (by omega)
          refine ⟨behind, more, empty, room, ?_⟩
          rw [tlvLoop, tlvRound_eq, found]
          dsimp only
          rw [called, except_ok_bind]
          dsimp only
          rw [if_neg (by omega), run]
          cases tlvLoop env more behind last final <;> rfl

theorem tlvLoop_handled (handled : Handles env [] tlvs peer state last final calls) (fuel : Nat)
    (frame : Buf) (bytes : frame.bytes = tlvs.flatMap encodeTlv)
    (enough : frame.bytes.length < fuel) :
    ∃ left : Buf, left.bytes = [] ∧
      tlvLoop env fuel frame peer state = .ok ⟨true, left, last, final, calls⟩ := by
  obtain ⟨left, more, empty, room, run⟩ := tlvLoop_handles handled fuel frame
    (by rw [bytes, List.append_nil]) enough
  have done : nextTlv left = none := by
    rw [nextTlv, empty]
    rfl
  refine ⟨left, empty, ?_⟩
  cases more with
  | zero => cases room
  | succ more =>
      rw [run, tlvLoop, tlvRound_eq, done]
      show Except.ok (TlvOutcome.mk true left last final (calls ++ [])) = _
      rw [List.append_nil]

theorem Handles.prepend {tlv : UInt8 × List UInt8} {first : Peer} {start : AwdlState}
    {result : RxResult} (handled : Handles env rest tlvs peer state last final calls)
    (body : List UInt8) (cut : body = encodeTlv tlv ++ (tlvs.flatMap encodeTlv ++ rest))
    (short : tlv.2.length < 65536)
    (called : awdlHandleTlv env.long (env.list body.length) first tlv.1 (tlvBuf tlv.2 short) start
      env.now = .ok (result, peer, state)) (fine : ¬ result.code < 0) :
    Handles env rest (tlv :: tlvs) first start last final
      (.tlv peer.addr tlv.1 tlv.2 result :: calls) := by
  refine .cons tlv tlvs first peer last start state final result calls short ?_
    (Int.not_lt.mp fine) handled
  rw [List.flatMap_cons, List.append_assoc, ← cut]
  exact called

theorem Breaks.prepend {tlv : UInt8 × List UInt8} {first : Peer} {start : AwdlState}
    {result : RxResult} {later : List UInt8}
    (breaks : Breaks env later peer state tlvs last final calls) (body : List UInt8)
    (bytes : body = encodeTlv tlv ++ later) (short : tlv.2.length < 65536)
    (called : awdlHandleTlv env.long (env.list body.length) first tlv.1 (tlvBuf tlv.2 short) start
      env.now = .ok (result, peer, state)) (fine : ¬ result.code < 0) :
    Breaks env body first start (tlv :: tlvs) last final
      (.tlv peer.addr tlv.1 tlv.2 result :: calls) := by
  cases breaks with
  | tail tlvs rest last final calls cut left truncated handled =>
      refine .tail (tlv :: tlvs) rest last final _ ?_ left truncated
        (handled.prepend body (by rw [bytes, cut]) short called fine)
      rw [bytes, cut, List.flatMap_cons, List.append_assoc]
  | refused tlvs bad rest mid last between final calls result cut handled small refusal negative =>
      refine .refused (tlv :: tlvs) bad rest mid last between final _ result ?_
        (handled.prepend body (by rw [bytes, cut]) short called fine) small refusal negative
      rw [bytes, cut, List.flatMap_cons, List.append_assoc]

variable (env) in
/-- The loop ends for every frame, and how it stops tells which kind of body it had. -/
theorem tlvLoop_ends (fuel : Nat) (frame : Buf) (peer : Peer) (state : AwdlState)
    (enough : frame.bytes.length < fuel) :
    Returns (tlvLoop env fuel frame peer state) fun loop =>
      (loop.accepted = true ∧ loop.frame.bytes = [] ∧ ∃ tlvs,
        frame.bytes = tlvs.flatMap encodeTlv ∧
          Handles env [] tlvs peer state loop.peer loop.state loop.trace) ∨
      ((loop.accepted = false ∨ loop.frame.bytes ≠ []) ∧ ∃ tlvs,
        Breaks env frame.bytes peer state tlvs loop.peer loop.state loop.trace) := by
  -- Each round strips at least three bytes, so the fuel outlasts the frame.
  induction fuel generalizing frame peer state with
  | zero => omega
  | succ fuel ih =>
      rw [tlvLoop, tlvRound_eq]
      cases found : nextTlv frame with
      | none =>
          refine .ok _ ?_
          by_cases done : frame.bytes = []
          · exact .inl ⟨rfl, done, [], done, .nil peer state⟩
          · exact .inr ⟨.inr done, [], .tail [] frame.bytes peer state [] rfl done
              ((nextTlv_none frame).mp found) (.nil peer state)⟩
      | some cut =>
          obtain ⟨type, val, left⟩ := cut
          obtain ⟨short, bytes⟩ := nextTlv_some frame val left type found
          have shorter := nextTlv_length frame val left type found
          have view : val = tlvBuf val.bytes short := Buf.ext_bytes rfl
          obtain ⟨⟨result, mid, between⟩, called, -⟩ := awdlHandleTlv_from peer val state env.long
            (env.list frame.bytes.length) type env.now
          dsimp only
          rw [called, except_ok_bind]
          dsimp only
          rw [view] at called
          split
          case isTrue bad =>
            refine .ok _ (.inr ⟨.inl rfl, [(type, val.bytes)], ?_⟩)
            exact .refused [] (type, val.bytes) left.bytes peer mid state between [] result bytes
              (.nil peer state) short (by rw [← bytes]; exact called) bad
          case isFalse fine =>
            obtain ⟨loop, run, ends⟩ := ih left mid between (by omega)
            rw [run, except_ok_bind]
            refine .ok _ ?_
            rcases ends with ⟨accepted, empty, tlvs, rest, handled⟩ | ⟨stopped, tlvs, breaks⟩
            · rw [rest] at bytes
              refine .inl ⟨accepted, empty, (type, val.bytes) :: tlvs, bytes, ?_⟩
              exact handled.prepend frame.bytes (by rw [bytes, List.append_nil]) short called fine
            · exact .inr ⟨stopped, (type, val.bytes) :: tlvs,
                breaks.prepend frame.bytes bytes short called fine⟩

/-- The body decides how the loop ends. -/
theorem tlvLoop_accepted_iff (fuel : Nat) (frame : Buf) (peer : Peer) (state : AwdlState)
    (loop : TlvOutcome) (run : tlvLoop env fuel frame peer state = .ok loop)
    (enough : frame.bytes.length < fuel) :
    (loop.accepted = true ∧ loop.frame.bytes = []) ↔
      ∃ tlvs last final calls, frame.bytes = tlvs.flatMap encodeTlv ∧
        Handles env [] tlvs peer state last final calls := by
  constructor
  · rintro ⟨accepted, empty⟩
    obtain ⟨same, again, ends⟩ := tlvLoop_ends env fuel frame peer state enough
    rw [run] at again
    cases again
    rcases ends with ⟨-, -, tlvs, bytes, handled⟩ | ⟨refused | left, -⟩
    · exact ⟨tlvs, _, _, _, bytes, handled⟩
    · rw [accepted] at refused
      cases refused
    · exact absurd empty left
  · rintro ⟨tlvs, last, final, calls, bytes, handled⟩
    obtain ⟨left, empty, accepts⟩ := tlvLoop_handled handled fuel frame bytes enough
    rw [run] at accepts
    cases accepts
    exact ⟨rfl, empty⟩

end Loop

section Action

variable (hash : EtherAddr → UInt64) (env : RxEnv) (frame : Buf) (src : AddrPtr) (addr : EtherAddr)
  (subtype : UInt8) (state : AwdlState)

/-- `awdl_peer_add` handles no TLV. -/
theorem addPeer_handledTlvs : handledTlvs (addPeer hash env state addr).2.2 = [] := by
  -- The events of an announcement are callbacks.
  have turned : ∀ peer, handledTlvs (announce (state.peerCb.map callPeerCb) peer).2 = [] := by
    intro peer
    unfold announce
    split
    · cases state.peerCb <;> rfl
    · rfl
  have called : handledTlvs (awdlPeerAdd hash env.alloc env.memory state.peers.peers addr env.now
      (state.peerCb.map callPeerCb)).2.2 = [] := by
    unfold awdlPeerAdd
    split
    · exact turned _
    · dsimp only
      split
      · exact turned _
      · rfl
  unfold addPeer
  rw [handledTlvs_append, called, List.append_nil]
  split <;> rfl

/-- Every body, peer and state that reach the loop of `awdl_rx_action`. -/
theorem action_loop_grammar (status : PeersStatus) (before : AwdlState) (events : List RxEvent)
    (entry : Peer) (points : Points addr src)
    (added : addPeer hash env (countAction state) addr = (status, before, events))
    (admitted : 0 ≤ status.code)
    (found : awdlPeerGet hash before.peers.peers addr = (.ok, some entry)) :
    ∃ outcome, acceptAction false hash env frame src subtype state = .ok outcome ∧
      (outcome.result = .ok ↔ ∃ tlvs last final calls, frame.bytes = tlvs.flatMap encodeTlv ∧
        Handles env [] tlvs entry before last final calls) ∧
      (outcome.result = .ok → ∃ tlvs last final calls again,
        frame.bytes = tlvs.flatMap encodeTlv ∧ Handles env [] tlvs entry before last final calls ∧
          outcome.trace = events ++ calls ++ .action addr subtype :: again ∧
          handledTlvs outcome.trace = tlvs) ∧
      (outcome.result ≠ .ok → outcome.result = .unexpectedFormat ∧ ∃ tlvs last final calls,
        Breaks env frame.bytes entry before tlvs last final calls ∧
          outcome.trace = events ++ calls ∧ handledTlvs outcome.trace = tlvs ∧
          outcome.state = storePeer hash final addr last ∧ last.sentMif = entry.sentMif) := by
  have silent : handledTlvs events = [] := by
    rw [← addPeer_handledTlvs hash env addr (countAction state), added]
  -- The way the loop ended decides both directions of the first statement.
  obtain ⟨loop, run, ends⟩ := tlvLoop_ends env (frame.bytes.length + 1) frame entry before
    (Nat.lt_succ_self _)
  have accepted_iff := tlvLoop_accepted_iff (frame.bytes.length + 1) frame entry before loop run
    (Nat.lt_succ_self _)
  refine ⟨_, acceptAction_eq hash env frame addr subtype state src points status before events entry
    loop added admitted found run, ?_⟩
  unfold closeAction
  rcases ends with ⟨accepted, empty, tlvs, bytes, handled⟩ | ⟨stopped, tlvs, breaks⟩
  · rw [if_pos ⟨accepted, empty⟩]
    refine ⟨iff_of_true rfl (accepted_iff.mp ⟨accepted, empty⟩), ?_, fun failed => absurd rfl failed⟩
    intro _
    refine ⟨tlvs, _, _, _, _, bytes, handled, rfl, ?_⟩
    rw [handledTlvs_append, handledTlvs_append, silent, handled.once]
    show [] ++ tlvs ++ handledTlvs (addPeer hash env _ addr).2.2 = tlvs
    rw [addPeer_handledTlvs, List.nil_append, List.append_nil]
  · have ended : ¬ (loop.accepted = true ∧ loop.frame.bytes = []) := by
      rintro ⟨accepted, empty⟩
      rcases stopped with refused | left
      · rw [accepted] at refused
        cases refused
      · exact left empty
    have format : RxResult.unexpectedFormat ≠ .ok := by decide
    rw [if_neg ended]
    refine ⟨iff_of_false format (accepted_iff.not.mp ended), fun done => absurd done format, ?_⟩
    intro _
    refine ⟨rfl, tlvs, _, _, _, breaks, rfl, ?_, rfl, breaks.kept.sentMif⟩
    rw [handledTlvs_append, silent, breaks.once, List.nil_append]

def mixedTlvs : Buf :=
  ⟨encodeTlv (TlvType.version.code, [0x30, 1]) ++ encodeTlv (0x20, [7]) ++
    encodeTlv (TlvType.version.code, [0x31]) ++ encodeTlv (0x20, []), by decide⟩

/-- The second version is refused; the first is stored, the last TLV not looked at. -/
theorem action_loop_grammar_mixed : ∃ entry before outcome last final calls,
    acceptAction false addrHash zeroEnv mixedTlvs (.copy peerAddr) ActionType.psf.code startState =
      .ok outcome ∧ outcome.result = .unexpectedFormat ∧
      Breaks zeroEnv mixedTlvs.bytes entry before [(TlvType.version.code, [0x30, 1]), (0x20, [7]),
        (TlvType.version.code, [0x31])] last final calls ∧
      outcome.state = storePeer addrHash final peerAddr last ∧
      (outcome.state.peers.peers.contents peerAddr).map Peer.version = some 0x30 := by
  have admitted : 0 ≤ (addPeer addrHash zeroEnv (countAction startState) peerAddr).1.code := by
    decide +kernel
  have shown : ((acceptAction false addrHash zeroEnv mixedTlvs (.copy peerAddr) ActionType.psf.code
      startState).map fun outcome => (outcome.result, handledTlvs outcome.trace,
        (outcome.state.peers.peers.contents peerAddr).map Peer.version)).toOption =
      some (.unexpectedFormat, [(TlvType.version.code, [0x30, 1]), (0x20, [7]),
        (TlvType.version.code, [0x31])], some 0x30) := by decide +kernel
  obtain ⟨outcome, run, seen⟩ := toOption_map_some shown
  simp only [Prod.mk.injEq] at seen
  obtain ⟨format, tlvs, version⟩ := seen
  obtain ⟨table, valid, ⟨refused, -, -⟩ | ⟨status, entry, events, added, -, -, contents⟩⟩ :=
    addPeer_cases addrHash zeroEnv (countAction startState) peerAddr awdlPeersInit_valid
  · rw [refused] at admitted
    exact absurd (show PeersStatus.internal.code < 0 by decide) (Int.not_lt.mpr admitted)
  have found : awdlPeerGet addrHash table peerAddr = (.ok, some entry) := by
    rw [awdlPeerGet_eq table valid.map, contents, Function.update_self]
  rw [added] at admitted
  obtain ⟨same, again, -, -, failed⟩ := action_loop_grammar addrHash zeroEnv mixedTlvs
    (.copy peerAddr) peerAddr ActionType.psf.code startState status _ events entry rfl added
    admitted found
  rw [run] at again
  cases again
  obtain ⟨-, handled, last, final, calls, breaks, -, listed, stored, -⟩ :=
    failed (by rw [format]; decide)
  rw [tlvs] at listed
  subst listed
  exact ⟨entry, _, outcome, last, final, calls, run, format, breaks, stored, version⟩

end Action

end Owl.TlvLoop
