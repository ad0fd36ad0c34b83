import Owl.Tx
import Owl.RxData

/-!
What one node builds in `tx.c`, another reads back in `rx.c`. The frames are
long concatenations, so each part is looked at through the slice that the
receiver takes out of it. The radiotap header of the sender carries no flags;
that the receiver takes the frame for one with flags 0 is a hypothesis on its
radiotap library and on the local variable that the library does not set.
-/

namespace Owl.RoundTrip

open Bytes Ether Channel Sync Election Siphash Peers Wire State Frames Tx RxTlv Rx RxSpec RxAction
  RxData

def Unflagged (env : RxEnv) (frame : Buf) : Prop :=
  ∃ run, env.radiotap frame.bytes = some run ∧ run.complete = true ∧
    (run.args.foldl radiotapArg (env.rssi, env.flags)).2 = 0

theorem radiotapParse_unflagged (env : RxEnv) (frame : Buf) (unflagged : Unflagged env frame) :
    (radiotapParse env frame).1 = .ok ∧ (radiotapParse env frame).2.2 = 0 := by
  obtain ⟨run, accepted, complete, flags⟩ := unflagged
  simp [radiotapParse, accepted, complete, flags]

/-- Behind the nine bytes of the radiotap header starts the 802.11 frame. -/
theorem macFrame_radiotap (env : RxEnv) (frame : Buf) (mac : List UInt8)
    (unflagged : Unflagged env frame) (bytes : frame.bytes = ieee80211InitRadiotapHeader ++ mac)
    (long : 24 ≤ mac.length) : macFrame env frame = some (frame.drop 9) := by
  obtain ⟨parsed, flags⟩ := radiotapParse_unflagged env frame unflagged
  have length : itLen frame.bytes = 9 := by
    rw [bytes]
    rfl
  have rest : (frame.drop 9).bytes.length = mac.length := by
    rw [drop_bytes, bytes]
    rfl
  have whole : checkFcs (frame.drop 9) 0 = some (frame.drop 9) := rfl
  rw [macFrame, if_pos parsed, flags, length, whole, Option.filter_some, rest]
  exact if_pos (decide_eq_true long)

theorem radiotap_length (frame : Buf) (mac : List UInt8)
    (bytes : frame.bytes = ieee80211InitRadiotapHeader ++ mac) :
    8 ≤ itLen frame.bytes ∧ itLen frame.bytes ≤ frame.bytes.length := by
  have length : itLen frame.bytes = 9 := by
    rw [bytes]
    rfl
  rw [length, bytes, List.length_append]
  exact ⟨by decide, Nat.le_add_right 9 _⟩

/-- A payload that fits starts the output buffer together with its header. -/
theorem output_take (sub : Subframe) (memory : Fixed UInt8 etherMaxLen)
    (fits : sub.payload.length ≤ 1504) :
    (sub.output memory).bytes.take (14 + sub.payload.length) = sub.ethernet := by
  have whole : (sub.output memory).bytes = sub.ethernet ++
      memory.toList.drop (14 + sub.payload.length) := by
    show etherBytes memory sub.dst sub.src sub.etherType sub.payload = _
    simp [etherBytes, etherHeader, fits, Subframe.ethernet]
  have length : sub.ethernet.length = 14 + sub.payload.length := by
    simp only [Subframe.ethernet, List.length_append, bytes_length, be16_length]
  rw [whole, ← length, List.take_left]

section Tunnel

def dataMac (dst src : EtherAddr) (sender : AwdlState) (ieee80211State : Ieee80211State)
    (payload : List UInt8) : List UInt8 :=
  (ieee80211InitAwdlDataHdr src dst ieee80211State).1 ++
    (llcInitAwdlHdr ++ ((awdlInitData sender).1 ++ payload))

theorem dataMac_length (dst src : EtherAddr) (sender : AwdlState) (ieee80211State : Ieee80211State)
    (payload : List UInt8) :
    (dataMac dst src sender ieee80211State payload).length = 40 + payload.length := by
  have header : (ieee80211InitAwdlDataHdr src dst ieee80211State).1.length = 24 := rfl
  have llc : llcInitAwdlHdr.length = 8 := rfl
  have data : (awdlInitData sender).1.length = 8 := rfl
  simp only [dataMac, List.length_append]
  omega

def dataSubframe (dst src : EtherAddr) (sender : AwdlState) (payload : List UInt8) : Subframe :=
  ⟨dst, src, llcInitAwdlHdr ++ ((awdlInitData sender).1 ++ payload)⟩

theorem dataSubframe_fields (dst src : EtherAddr) (sender : AwdlState) (payload : List UInt8) :
    WellFormed (dataSubframe dst src sender payload).body ∧
      (dataSubframe dst src sender payload).ethernet =
        dst.bytes ++ (src.bytes ++ (be16 ethPIpv6 ++ payload)) ∧
      (dataSubframe dst src sender payload).payload = payload := by
  have type : (dataSubframe dst src sender payload).etherType = ethPIpv6 := rfl
  have rest : (dataSubframe dst src sender payload).payload = payload := rfl
  have length : (dataSubframe dst src sender payload).body.length = 16 + payload.length := by
    have llc : llcInitAwdlHdr.length = 8 := rfl
    have data : (awdlInitData sender).1.length = 8 := rfl
    simp only [dataSubframe, List.length_append]
    omega
  refine ⟨⟨⟨?_, rfl, rfl, rfl, rfl⟩, by omega⟩, ?_, rest⟩
  · rw [length]
    exact Nat.le_add_right_of_le (by decide)
  · rw [Subframe.ethernet, type, rest, List.append_assoc, List.append_assoc]
    rfl

theorem dataMac_delivered (hash : EtherAddr → UInt64) (peers : PeerMap) (dst src : EtherAddr)
    (sender : AwdlState) (ieee80211State : Ieee80211State) (payload : List UInt8) (mac : Buf)
    (bytes : mac.bytes = dataMac dst src sender ieee80211State payload)
    (known : Known hash peers src) :
    macSource mac = src ∧ delivered hash peers mac = [dataSubframe dst src sender payload] ∧
      Complete hash peers mac := by
  have source : macSource mac = src := by rw [macSource, bytes]; exact ofBytes_bytes src []
  have target : macTarget mac = dst := by rw [macTarget, bytes]; exact ofBytes_bytes dst []
  have control : macFc mac = 0x0008 := by rw [macFc, bytes]; rfl
  have body : (mac.drop 24).bytes = (dataSubframe dst src sender payload).body := by
    rw [drop_bytes, bytes]
    rfl
  have single : carried mac = .single (mac.drop 24) := by
    rw [carried, control]
    rfl
  obtain ⟨formed, -⟩ := dataSubframe_fields dst src sender payload
  have whole : (⟨dst, src, (mac.drop 24).bytes⟩ : Subframe) = dataSubframe dst src sender payload := by
    rw [body]
    rfl
  have fine : ¬ Rejected hash peers (dataSubframe dst src sender payload) := fun rejected =>
    rejected.2 formed
  have there : Known hash peers (dataSubframe dst src sender payload).src := known
  refine ⟨source, ?_, ?_⟩
  · rw [delivered, single]
    dsimp only
    rw [source, target, whole]
    simp [accepted, fine, there]
  · rw [Complete, single]
    dsimp only
    rw [source, body]
    exact ⟨known, formed⟩

theorem awdlSendData_eq (dst src : EtherAddr) (payload : List UInt8) (short : payload.length ≤ 1504)
    (frame : Buf) (ethernet : frame.bytes = dst.bytes ++ (src.bytes ++ (be16 ethPIpv6 ++ payload)))
    (sender : AwdlState) (ieee80211State : Ieee80211State) (noFcs : ieee80211State.fcs = false) :
    ∃ sender' ieee80211State', awdlSendData frame sender ieee80211State =
      .ok (some (ieee80211InitRadiotapHeader ++ dataMac dst src sender ieee80211State payload),
        sender', ieee80211State') := by
  have length : frame.bytes.length = 14 + payload.length := by
    rw [ethernet]
    simp only [List.length_append, bytes_length, be16_length]
    omega
  have strip := bufStrip_eq frame 14
  rw [Nat.cast_ofNat, if_pos (by omega)] at strip
  have target : slice frame.bytes 0 6 = dst.bytes := by rw [ethernet]; rfl
  have source : slice frame.bytes 6 6 = src.bytes := by rw [ethernet]; rfl
  have body : (frame.drop 14).bytes = payload := by rw [drop_bytes, ethernet]; rfl
  unfold awdlSendData
  simp (disch := decide) only [readBe16_eq, readEtherAddr_eq, except_ok_bind, Int.reduceToNat, strip,
    Option.getD_some, body]
  rw [peek_inside 2 _ _ 12 (by omega), peek_inside 6 _ _ 0 (by omega), peek_inside 6 _ _ 6 (by omega),
    target, source]
  have addr : ∀ addr : EtherAddr, EtherAddr.ofBytes addr.bytes = addr := fun addr =>
    ofBytes_bytes addr []
  have plain : (ieee80211InitAwdlDataHdr src dst ieee80211State).2.fcs = false := noFcs
  have built : (awdlInitFullDataFrame src dst payload sender ieee80211State).1 =
      ieee80211InitRadiotapHeader ++ dataMac dst src sender ieee80211State payload := by
    simp only [awdlInitFullDataFrame, withFcs, plain, Bool.false_eq_true, ↓reduceIte, dataMac,
      List.append_assoc]
  have fits : ¬ (awdlInitFullDataFrame src dst payload sender ieee80211State).1.length > 65535 := by
    rw [built, List.length_append, dataMac_length]
    have tap : ieee80211InitRadiotapHeader.length = 9 := rfl
    omega
  rw [← built]
  simp only [addr, fits, ↓reduceIte, except_pure]
  exact ⟨_, _, rfl⟩

/-- An IPv6 frame that one node tunnels arrives at every node that knows its source. -/
theorem tunnel_round_trip (hash : EtherAddr → UInt64) (env : RxEnv) (dst src : EtherAddr)
    (payload : List UInt8) (short : payload.length ≤ 1504) (frame : Buf)
    (ethernet : frame.bytes = dst.bytes ++ (src.bytes ++ (be16 ethPIpv6 ++ payload)))
    (sender : AwdlState) (ieee80211State : Ieee80211State) (noFcs : ieee80211State.fcs = false)
    (receiver : AwdlState) (known : (awdlPeerGet hash receiver.peers.peers src).1 = .ok)
    (other : receiver.selfAddress ≠ src) :
    ∃ sent sender' ieee80211State',
      awdlSendData frame sender ieee80211State =
        .ok (some sent.bytes, sender', ieee80211State') ∧
      (Unflagged env sent → ∃ outcome out, awdlRx false hash env sent receiver = .ok outcome ∧
        outcome.result = .ok ∧ outcome.outputs = [out] ∧
        out.bytes.take (14 + payload.length) = frame.bytes) := by
  obtain ⟨sender', ieee80211State', run⟩ :=
    awdlSendData_eq dst src payload short frame ethernet sender ieee80211State noFcs
  have tap : ieee80211InitRadiotapHeader.length = 9 := rfl
  have length := dataMac_length dst src sender ieee80211State payload
  refine ⟨⟨ieee80211InitRadiotapHeader ++ dataMac dst src sender ieee80211State payload, by
    rw [List.length_append]; omega⟩, sender', ieee80211State', run, ?_⟩
  generalize made : (⟨ieee80211InitRadiotapHeader ++ dataMac dst src sender ieee80211State payload,
    _⟩ : Buf) = sent
  intro unflagged
  have bytes : sent.bytes = ieee80211InitRadiotapHeader ++
      dataMac dst src sender ieee80211State payload := by rw [← made]
  have found := macFrame_radiotap env sent _ unflagged bytes (by omega)
  obtain ⟨source, all, complete⟩ := dataMac_delivered hash receiver.peers.peers dst src sender
    ieee80211State payload (sent.drop 9) (by rw [drop_bytes, bytes]; rfl) known
  rcases awdlRx_cases false hash env sent receiver (fun _ _ => radiotap_length sent _ bytes) with
    ⟨foreign, -⟩ | ⟨mac, received, -, run⟩
  · exact absurd (source.symm.trans (foreign _ found)).symm other
  · obtain rfl : sent.drop 9 = mac := Option.some.inj (found.symm.trans received)
    obtain ⟨outcome, dispatched, outputs, result⟩ := dispatch_delivers hash env
      (radiotapParse env sent).2.1 (sent.drop 9) receiver (macFrame_length env sent _ received)
    rw [all] at outputs result
    obtain ⟨-, frameBytes, rest⟩ := dataSubframe_fields dst src sender payload
    have start := output_take (dataSubframe dst src sender payload) (env.output 0)
      (by rw [rest]; exact short)
    rw [rest, frameBytes, ← ethernet] at start
    exact ⟨outcome, _, run.trans dispatched, (result (by simp)).mpr complete, outputs, start⟩

def pingFrame : Buf :=
  ⟨selfAddr.bytes ++ (peerAddr.bytes ++ (be16 ethPIpv6 ++ [0x60, 0, 0, 0])), by decide⟩

def knowing : AwdlState :=
  { startState with peers :=
      { startState.peers with peers :=
          (awdlPeerAdd addrHash (fun _ => true) zeroPeer awdlPeersInit peerAddr 0
            (none : Option (Peer → RxEvent))).2.1 } }

theorem tunnel_round_trip_ping : ∃ sent sender' ieee80211State' outcome out,
    awdlSendData pingFrame startState ieee80211InitState =
        .ok (some sent.bytes, sender', ieee80211State') ∧
      awdlRx false addrHash zeroEnv sent knowing = .ok outcome ∧ outcome.outputs = [out] ∧
      out.bytes.take 18 = pingFrame.bytes := by
  obtain ⟨sent, sender', ieee80211State', run, arrives⟩ := tunnel_round_trip addrHash zeroEnv
    selfAddr peerAddr [0x60, 0, 0, 0] (by decide) pingFrame rfl startState ieee80211InitState rfl
    knowing (by decide +kernel) (by decide)
  have tapped : Unflagged zeroEnv sent := by
    obtain ⟨_, _, same⟩ := awdlSendData_eq selfAddr peerAddr [0x60, 0, 0, 0] (by decide) pingFrame
      rfl startState ieee80211InitState rfl
    rw [same] at run
    injection run with pair
    injection pair with bytes
    refine ⟨⟨[⟨true, ieee80211RadiotapRate, 24⟩], true⟩, ?_, rfl, rfl⟩
    show byteRadiotap sent.bytes = _
    rw [← Option.some.inj bytes]
    decide +kernel
  obtain ⟨outcome, out, received, -, outputs, start⟩ := arrives tapped
  exact ⟨sent, sender', ieee80211State', outcome, out, run, received, outputs, start⟩

end Tunnel

end Owl.RoundTrip
