import Owl.RoundTrip
import Owl.Daemon
import Owl.TlvRoundTrip

/-!
Action frames: decoding undoes encoding. The frame that one node builds passes
every check of another on the way to the TLV loop, and the entry that the loop
leaves in the peer table mirrors the state of the sender.
-/

namespace Owl.ActionRoundTrip

open Bytes Ether Channel Sync Election Siphash Peers PeersRefine Wire State Frames Tx RxTlv Rx
  RxSpec RxAction RxData RxPeers TlvLoop RoundTrip Daemon TlvRoundTrip

section Build

variable (txEnv : TxEnv) (sender : AwdlState) (ieee80211State : Ieee80211State) (type : ActionType)

def actionMac (arpa : List UInt8) : List UInt8 :=
  (ieee80211InitAwdlActionHdr sender.selfAddress sender.dst ieee80211State).1 ++
    (awdlInitAction txEnv type ++ (actionTlvs txEnv sender type arpa).flatMap encodeTlv)

theorem awdlInitFullActionFrame_eq (wide : sender.channel.enc ≠ .simple)
    (terminated : 0 ∈ sender.name.toList) (noFcs : ieee80211State.fcs = false) :
    ∃ arpa ieee80211State', awdlInitArpaTlv sender = .ok arpa ∧
      awdlInitFullActionFrame txEnv sender ieee80211State type =
        .ok (ieee80211InitRadiotapHeader ++ actionMac txEnv sender ieee80211State type arpa,
          ieee80211State') := by
  obtain ⟨arpa, built⟩ : ∃ arpa, awdlInitArpaTlv sender = .ok arpa := by
    rw [awdlInitArpaTlv, strlen, if_pos terminated]
    exact ⟨_, rfl⟩
  obtain ⟨named, -⟩ := awdlInitArpaTlv_encodes sender terminated arpa built
  have body := actionTlvs_bytes txEnv sender wide type arpa named
  have plain : (ieee80211InitAwdlActionHdr sender.selfAddress sender.dst ieee80211State).2.fcs =
      false := noFcs
  refine ⟨arpa, (ieee80211InitAwdlActionHdr sender.selfAddress sender.dst ieee80211State).2, built, ?_⟩
  rw [actionMac, body]
  unfold awdlInitFullActionFrame
  cases type with
  | psf =>
      simp only [reduceCtorEq, ↓reduceIte, except_pure, except_ok_bind, withFcs, plain,
        Bool.false_eq_true, List.append_assoc]
  | mif =>
      simp only [↓reduceIte, built, except_pure, except_ok_bind, withFcs, plain, Bool.false_eq_true,
        List.append_assoc]

theorem actionTlvs_length (wide : sender.channel.enc ≠ .simple) (arpa : List UInt8)
    (short : (tlvValue arpa).length ≤ 68) :
    ((actionTlvs txEnv sender type arpa).flatMap encodeTlv).length ≤ 304 := by
  obtain ⟨syncLength, chanseqLength⟩ := values_short txEnv sender wide
  have electionLength : (tlvValue (awdlInitElectionParamsTlv sender)).length = 21 := rfl
  have electionV2Length : (tlvValue (awdlInitElectionParamsV2Tlv sender)).length = 40 := rfl
  have serviceLength : (tlvValue awdlInitServiceParamsTlv).length = 9 := rfl
  have htLength : (tlvValue awdlInitHtCapabilitiesTlv).length = 8 := rfl
  have dataPathLength : (tlvValue (awdlInitDataPathStateTlv sender)).length = 15 := rfl
  have versionLength : (tlvValue (awdlInitVersionTlv sender)).length = 2 := rfl
  unfold actionTlvs
  split <;> simp only [List.flatMap_append, List.flatMap_cons, List.flatMap_nil, List.length_append,
    List.length_nil, encodeTlv_length, syncLength, electionLength, chanseqLength, electionV2Length,
    serviceLength, htLength, dataPathLength, versionLength] <;> omega

theorem actionMac_length (wide : sender.channel.enc ≠ .simple) (arpa : List UInt8)
    (short : (tlvValue arpa).length ≤ 68) :
    24 ≤ (actionMac txEnv sender ieee80211State type arpa).length ∧
      (actionMac txEnv sender ieee80211State type arpa).length ≤ 344 := by
  have header : (ieee80211InitAwdlActionHdr sender.selfAddress sender.dst
    ieee80211State).1.length = 24 := rfl
  have action : (awdlInitAction txEnv type).length = 16 := rfl
  have tlvs := actionTlvs_length txEnv sender type wide arpa short
  rw [actionMac, List.length_append, List.length_append]
  omega

/-- What the receiver reads in front of the TLVs. -/
theorem actionMac_fields (arpa : List UInt8) (mac : Buf)
    (bytes : mac.bytes = actionMac txEnv sender ieee80211State type arpa) :
    macSource mac = sender.selfAddress ∧
      macFc mac &&& (ieee80211FctlFtype ||| ieee80211FctlStype) =
        (ieee80211FtypeMgmt ||| ieee80211StypeAction) ∧
      ActionHeader (mac.drop 24).bytes ∧ byteAt (mac.drop 24).bytes 6 = type.code ∧
      ((mac.drop 24).drop 16).bytes = (actionTlvs txEnv sender type arpa).flatMap encodeTlv := by
  have source : macSource mac = sender.selfAddress := by
    rw [macSource, bytes]
    exact ofBytes_bytes sender.selfAddress []
  have control : macFc mac = 0x00d0 := by
    rw [macFc, bytes]
    rfl
  have body : (mac.drop 24).bytes =
      awdlInitAction txEnv type ++ (actionTlvs txEnv sender type arpa).flatMap encodeTlv := by
    rw [drop_bytes, bytes]
    rfl
  have subtype : byteAt (mac.drop 24).bytes 6 = type.code := by
    rw [body]
    rfl
  refine ⟨source, by rw [control]; decide, ⟨?_, ?_, ?_, ?_, ?_, ?_⟩, subtype, ?_⟩
  · rw [body, List.length_append]
    exact Nat.le_add_right 16 _
  · rw [body]
    rfl
  · rw [body]
    rfl
  · rw [body]
    rfl
  · rw [body]
    rfl
  · rw [subtype]
    cases type with
    | psf => exact .inl rfl
    | mif => exact .inr rfl
  · rw [drop_bytes, body]
    rfl

end Build

section RoundTrip

theorem mirrors_announced {Event : Type} {sender : AwdlState} {type : ActionType}
    {entry peer : Peer} (mirrors : Mirrors sender type entry peer)
    (self : entry.election.selfAddr = sender.election.selfAddr) (version : sender.version ≠ 0)
    (devClass : sender.devClass ≠ 0) (cb : Option (Peer → Event)) (now : UInt64) (last : Peer)
    (turned : last = (announce cb { markMif type.code peer with lastUpdate := now }).1) :
    last.election = sender.election ∧ last.sequence = sender.channel.sequence ∧
      last.version = sender.version ∧ last.devclass = sender.devClass ∧
      (type = .mif → cString last.name.toList = cString sender.name.toList ∧
        last.sentMif = true ∧ last.isValid = true) := by
  have election : peer.election = sender.election := by
    rw [mirrors.election, self]
  rw [announce_only] at turned
  subst turned
  cases type with
  | psf =>
      refine ⟨election, mirrors.sequence, mirrors.version, mirrors.devclass, ?_⟩
      intro mif
      cases mif
  | mif =>
      refine ⟨election, mirrors.sequence, mirrors.version, mirrors.devclass, fun mif => ?_⟩
      refine ⟨mirrors.name mif, rfl, ?_⟩
      have versionSet : peer.version ≠ 0 := by rw [mirrors.version]; exact version
      have devclassSet : peer.devclass ≠ 0 := by rw [mirrors.devclass]; exact devClass
      simp [awdlPeerIsValid, markMif, versionSet, devclassSet]

/-- The receiver parses the frame to its end and learns what the sender is. -/
theorem actionEffect_mirrors {hash : EtherAddr → UInt64} {txEnv : TxEnv} {env : RxEnv}
    {sender receiver : AwdlState} {type : ActionType} {frame : Buf} {outcome : RxOutcome}
    (effect : ActionEffect hash env frame sender.selfAddress type.code receiver outcome)
    (wide : sender.channel.enc ≠ .simple) (terminated : 0 ∈ sender.name.toList) (arpa : List UInt8)
    (built : awdlInitArpaTlv sender = .ok arpa)
    (bytes : frame.bytes = (actionTlvs txEnv sender type arpa).flatMap encodeTlv)
    (presence : receiver.sync.presenceMode = 4)
    (room : (addPeer hash env receiver sender.selfAddress).1 ≠ .internal) :
    ∃ entry events loop table last, Parsed env frame sender.selfAddress receiver entry events loop ∧
      Mirrors sender type entry loop.peer ∧ outcome.result = .ok ∧ outcome.frame.bytes = [] ∧
      TableValid hash table ∧ outcome.state.peers.peers = table ∧
      table.contents sender.selfAddress = some last ∧
      last = (announce (announcer receiver)
        { markMif type.code loop.peer with lastUpdate := env.now }).1 := by
  have digested : ∀ entry events loop,
      Parsed env frame sender.selfAddress receiver entry events loop →
        loop.accepted = true ∧ loop.frame.bytes = [] ∧ Mirrors sender type entry loop.peer := by
    rintro entry events loop ⟨-, table, run⟩
    obtain ⟨last, final, digests, mirrors⟩ := actionTlvs_digest txEnv sender env wide terminated type
      entry (withTable (countAction receiver) table) presence arpa built
    obtain ⟨other, same, accepted, empty, rfl, -⟩ := tlvLoop_digests env _ entry last _ final digests
      (frame.bytes.length + 1) frame bytes (Nat.lt_succ_self _)
    rw [run] at same
    cases same
    exact ⟨accepted, empty, mirrors⟩
  cases effect with
  | refused table valid full absent fewer =>
      exact absurd (congrArg Prod.fst full) room
  | malformed entry events loop parsed stops table valid contents =>
      obtain ⟨accepted, empty, -⟩ := digested entry events loop parsed
      rcases stops with refused | more
      · rw [accepted] at refused
        cases refused
      · exact absurd empty more
  | done entry events loop parsed complete empty table valid last again turned contents =>
      obtain ⟨-, -, mirrors⟩ := digested entry events loop parsed
      refine ⟨entry, events, loop, table, last, parsed, mirrors, rfl, empty, valid, rfl, ?_, ?_⟩
      · rw [contents, Function.update_self]
      · exact congrArg Prod.fst turned

structure Announces (sender : AwdlState) (ieee80211State : Ieee80211State) : Prop where
  self : sender.election.selfAddr = sender.selfAddress
  version : sender.version ≠ 0
  devClass : sender.devClass ≠ 0
  wide : sender.channel.enc ≠ .simple
  terminated : 0 ∈ sender.name.toList
  noFcs : ieee80211State.fcs = false

/-- What a node builds, every other node with room for it reads back, whatever it
knew about the sender. -/
theorem action_round_trip (hash : EtherAddr → UInt64) (txEnv : TxEnv) (env : RxEnv)
    (type : ActionType) (sender : AwdlState) (ieee80211State : Ieee80211State)
    (announces : Announces sender ieee80211State) (receiver : AwdlState)
    (presence : receiver.sync.presenceMode = 4)
    (other : receiver.selfAddress ≠ sender.selfAddress)
    (valid : TableValid hash receiver.peers.peers)
    (owned : ∀ addr peer, receiver.peers.peers.contents addr = some peer →
      peer.election.selfAddr = addr)
    (room : (addPeer hash env receiver sender.selfAddress).1 ≠ .internal) :
    ∃ sent ieee80211State', awdlInitFullActionFrame txEnv sender ieee80211State type =
        .ok (Buf.bytes sent, ieee80211State') ∧
      (Unflagged env sent →
        Passes hash receiver sender.selfAddress (radiotapParse env sent).2.1 →
        ∃ outcome peer, awdlRx false hash env sent receiver = .ok outcome ∧
          outcome.result = .ok ∧ outcome.frame.bytes = [] ∧
          awdlPeerGet hash outcome.state.peers.peers sender.selfAddress = (.ok, some peer) ∧
          peer.election = sender.election ∧ peer.sequence = sender.channel.sequence ∧
          peer.version = sender.version ∧ peer.devclass = sender.devClass ∧
          (type = .mif → cString peer.name.toList = cString sender.name.toList ∧
            peer.sentMif = true ∧ peer.isValid = true)) := by
  obtain ⟨self, version, devClass, wide, terminated, noFcs⟩ := announces
  obtain ⟨arpa, ieee80211State', built, run⟩ := awdlInitFullActionFrame_eq txEnv sender
    ieee80211State type wide terminated noFcs
  obtain ⟨-, short⟩ := awdlInitArpaTlv_encodes sender terminated arpa built
  have tap : ieee80211InitRadiotapHeader.length = 9 := rfl
  have length := actionMac_length txEnv sender ieee80211State type wide arpa short
  refine ⟨⟨ieee80211InitRadiotapHeader ++ actionMac txEnv sender ieee80211State type arpa, by
    rw [List.length_append]; omega⟩, ieee80211State', run, ?_⟩
  generalize made : (⟨ieee80211InitRadiotapHeader ++ actionMac txEnv sender ieee80211State type arpa,
    _⟩ : Buf) = sent
  intro unflagged passes
  have bytes : sent.bytes = ieee80211InitRadiotapHeader ++
      actionMac txEnv sender ieee80211State type arpa := by rw [← made]
  have found := macFrame_radiotap env sent _ unflagged bytes (by omega)
  obtain ⟨source, action, header, subtype, body⟩ := actionMac_fields txEnv sender ieee80211State type
    arpa (sent.drop 9) (by rw [drop_bytes, bytes]; rfl)
  rcases awdlRx_cases false hash env sent receiver (fun _ _ => radiotap_length sent _ bytes) with
    ⟨foreign, -⟩ | ⟨mac, received, -, dispatched⟩
  · exact absurd (source.symm.trans (foreign _ found)).symm other
  · obtain rfl : sent.drop 9 = mac := Option.some.inj (found.symm.trans received)
    obtain ⟨outcome, accepted, effect⟩ := dispatch_admitted hash env receiver sent (sent.drop 9) valid
      ⟨found, by rw [source]; exact other.symm, action, header, by rw [source]; exact passes⟩
    rw [source, subtype] at effect
    obtain ⟨entry, events, loop, table, last, parsed, mirrors, result, empty, tableValid, stored,
      present, turned⟩ := actionEffect_mirrors effect wide terminated arpa built body presence room
    have get : awdlPeerGet hash outcome.state.peers.peers sender.selfAddress = (.ok, some last) := by
      rw [stored, awdlPeerGet_eq table tableValid.map, present]
    have owner := (entered_self parsed.entered owned).trans self.symm
    exact ⟨outcome, last, dispatched.trans accepted, result, empty, get,
      mirrors_announced mirrors owner version devClass _ _ last turned⟩

end RoundTrip

section Crowd

def steadyClock : TxEnv := ⟨.bits64, 0, 0⟩

/-- A node whose address shares its home slot with all the others. -/
def outsider : AwdlState :=
  awdlInitState (Fixed.replicate _ 0) [0x6f, 0x77, 0x6c] ⟨2, 0, 0, 0, 2, 216⟩ chanNull 0

def outsiderFrame : Buf :=
  ⟨((awdlInitFullActionFrame steadyClock outsider ieee80211InitState .mif).toOption.map
    Prod.fst).getD [], by decide +kernel⟩

def crowd : List Buf :=
  [psfFrom 0 12, psfFrom 0 54, psfFrom 0 90, psfFrom 0 183, psfFrom 0 238, psfFrom 2 75,
    psfFrom 2 203, psfFrom 2 206]

def crowdStart : AwdlState :=
  awdlInit (Fixed.replicate _ 0) [] ⟨2, 0, 0, 0, 9, 9⟩ chanNull 0 false

def exhaustedEnv : RxEnv := { zeroEnv with alloc := fun _ => false }

theorem outsider_announces : Announces outsider ieee80211InitState :=
  ⟨rfl, by decide, by decide, by decide, by decide, rfl⟩

theorem outsiderFrame_built : awdlInitFullActionFrame steadyClock outsider ieee80211InitState .mif =
    .ok (outsiderFrame.bytes, ⟨1, false⟩) := by
  decide +kernel

/-- A node with a full window and no memory for a larger table ignores the frame of
one more sender. -/
theorem action_frame_ignored : ∃ receiver history outcome,
    Reaches addrHash (fun _ _ _ => True) receiver history ∧
      Announces outsider ieee80211InitState ∧ receiver.sync.presenceMode = 4 ∧
      receiver.selfAddress ≠ outsider.selfAddress ∧ receiver.filterRssi = false ∧
      awdlInitFullActionFrame steadyClock outsider ieee80211InitState .mif =
        .ok (outsiderFrame.bytes, ⟨1, false⟩) ∧
      awdlRx false addrHash exhaustedEnv outsiderFrame receiver = .ok outcome ∧
      outcome.result = .ignore := by
  have shown : ((receiveAll addrHash zeroEnv crowd crowdStart).bind fun after =>
      (awdlRx false addrHash exhaustedEnv outsiderFrame after.1).map fun outcome =>
        (after.1.sync.presenceMode, after.1.selfAddress, after.1.filterRssi,
          outcome.result)).toOption =
      some (4, ⟨2, 0, 0, 0, 9, 9⟩, false, .ignore) := by decide +kernel
  obtain ⟨⟨receiver, history⟩, run, later⟩ := toOption_bind_some shown
  obtain ⟨outcome, received, seen⟩ := toOption_map_some later
  simp only [Prod.mk.injEq] at seen
  obtain ⟨presence, self, unfiltered, ignored⟩ := seen
  have inside : RadiotapInside zeroEnv := byteRadiotap_inside
  have reached := receiveAll_reaches inside crowd crowdStart receiver [] history
    (.init _ _ _ _ _ _) run
  exact ⟨receiver, history, outcome, reached, outsider_announces, presence, by rw [self]; decide,
    unfiltered, outsiderFrame_built, received, ignored⟩

/-- The node knows the sender from a PSF without TLVs, and its MIF fills in the entry. -/
theorem action_round_trip_outsider : ∃ receiver history earlier outcome peer,
    Reaches addrHash (fun _ _ _ => True) receiver history ∧
      awdlPeerGet addrHash receiver.peers.peers outsider.selfAddress = (.ok, some earlier) ∧
      earlier.isValid = false ∧ cString earlier.name.toList = [] ∧
      awdlRx false addrHash zeroEnv outsiderFrame receiver = .ok outcome ∧ outcome.result = .ok ∧
      awdlPeerGet addrHash outcome.state.peers.peers outsider.selfAddress = (.ok, some peer) ∧
      peer.election = outsider.election ∧ cString peer.name.toList = [0x6f, 0x77, 0x6c] ∧
      peer.isValid = true := by
  have shown : ((receiveAll addrHash zeroEnv [psfFrom 2 216] crowdStart).map fun after =>
      (after.1.sync.presenceMode, after.1.selfAddress, after.1.filterRssi,
        (addPeer addrHash zeroEnv after.1 outsider.selfAddress).1)).toOption =
      some (4, ⟨2, 0, 0, 0, 9, 9⟩, false, .update) := by decide +kernel
  have entered : ((receiveAll addrHash zeroEnv [psfFrom 2 216] crowdStart).map fun after =>
      ((awdlPeerGet addrHash after.1.peers.peers outsider.selfAddress).1,
        (awdlPeerGet addrHash after.1.peers.peers outsider.selfAddress).2.map fun peer =>
          (peer.isValid, cString peer.name.toList))).toOption = some (.ok, some (false, [])) := by
    decide +kernel
  obtain ⟨⟨receiver, history⟩, run, seen⟩ := toOption_map_some shown
  obtain ⟨same, again, found⟩ := toOption_map_some entered
  rw [run] at again
  cases again
  simp only [Prod.mk.injEq, Option.map_eq_some_iff] at seen found
  obtain ⟨presence, self, unfiltered, added⟩ := seen
  obtain ⟨known, earlier, entry, invalid, unnamed⟩ := found
  have inside : RadiotapInside zeroEnv := byteRadiotap_inside
  have reached := receiveAll_reaches inside [psfFrom 2 216] crowdStart receiver [] history
    (.init _ _ _ _ _ _) run
  have valid := reaches_valid reached
  obtain ⟨sent, ieee80211State, built, arrives⟩ := action_round_trip addrHash steadyClock zeroEnv .mif
    outsider ieee80211InitState outsider_announces receiver presence (by rw [self]; decide)
    valid.table valid.self (by rw [added]; decide)
  obtain rfl : sent = outsiderFrame := by
    rw [outsiderFrame_built] at built
    exact Buf.ext_bytes (congrArg Prod.fst (Except.ok.inj built)).symm
  have unflagged : Unflagged zeroEnv outsiderFrame :=
    ⟨⟨[⟨true, ieee80211RadiotapRate, 24⟩], true⟩, by decide +kernel, rfl, rfl⟩
  have passes : Passes addrHash receiver outsider.selfAddress
      (radiotapParse zeroEnv outsiderFrame).2.1 := fun filters => by
    rw [unfiltered] at filters
    cases filters
  obtain ⟨outcome, peer, received, result, -, get, election, -, -, -, mif⟩ :=
    arrives unflagged passes
  obtain ⟨name, -, whole⟩ := mif rfl
  exact ⟨receiver, history, earlier, outcome, peer, reached, Prod.ext known entry, invalid, unnamed,
    received, result, get, election, name.trans (by decide), whole⟩

end Crowd

end Owl.ActionRoundTrip
