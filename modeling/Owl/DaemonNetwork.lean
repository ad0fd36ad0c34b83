import Owl.ElectionClusters
import Owl.Counters
import Owl.EventLoop
import Owl.ActionRoundTrip

/-!
A network of whole daemons that exchange frames. Every daemon runs its handlers in
any order; what it sends is on the air for its neighbours, where frames get lost or
are read by `awdl_rx` of another daemon. Such a network is an instance of the
abstract one: a snapshot of an election state travels as the TLVs of an action
frame, and data frames make no difference.
-/

namespace Owl.DaemonNetwork

open Bytes Ether Siphash Channel Sync SyncTransfer Election Peers PeersRefine Wire State Frames Tx
  RxTlv Rx RxSpec RxPeers Schedule Daemon Transmit DaemonRun ClockMaster RoundTrip TlvRoundTrip
  ActionRoundTrip DaemonTrace TransmitQueues Counters EventLoop AsyncRounds RxData
open ElectionStabilizes (Hears Home Elects Shows Parent walk_zero)
open ElectionClusters (Leads Top ahead ahead_card Settled clusters_gains leads_iff leads_hops
  yields_hops)

inductive Cargo where
  /-- The election state of the sender of an action frame. -/
  | election (state : ElectionState)
  /-- The frame of the host in a data frame. -/
  | host (frame : Buf)

/-- A frame on the air, as it gets to an 802.11 receiver; nobody reads `cargo`. -/
structure Parcel where
  mac : List UInt8
  cargo : Cargo

def Parcel.snapshot (parcel : Parcel) : Option ElectionState :=
  match parcel.cargo with
  | .election state => some state
  | .host _ => none

def Parcel.tunneled (parcel : Parcel) : Option Buf :=
  match parcel.cargo with
  | .election _ => none
  | .host frame => some frame

def parcelOf (election : ElectionState) : TxEvent → Option Parcel
  | .wlanSend bytes => some ⟨bytes.drop ieee80211InitRadiotapHeader.length, .election election⟩
  | .awdlSendData frame (some bytes) =>
      some ⟨bytes.drop ieee80211InitRadiotapHeader.length, .host frame⟩
  | _ => none

def parcels (election : ElectionState) (events : List TxEvent) : List Parcel :=
  events.filterMap (parcelOf election)

section Sending

def tunnelMac (frame : Buf) (sender : AwdlState) (ieee80211State : Ieee80211State) : List UInt8 :=
  dataMac (EtherAddr.ofBytes (slice frame.bytes 0 6)) (EtherAddr.ofBytes (slice frame.bytes 6 6)) sender
    ieee80211State (frame.bytes.drop 14)

inductive Sent (own : EtherAddr) : Parcel → Prop where
  | action (env : TxEnv) (sender : AwdlState) (ieee80211State : Ieee80211State) (type : ActionType)
      (arpa : List UInt8) (announces : Announces sender ieee80211State)
      (self : sender.selfAddress = own) (built : awdlInitArpaTlv sender = .ok arpa) :
      Sent own ⟨actionMac env sender ieee80211State type arpa, .election sender.election⟩
  | data (frame : Buf) (sender : AwdlState) (ieee80211State : Ieee80211State)
      (whole : 14 ≤ frame.bytes.length) :
      Sent own ⟨tunnelMac frame sender ieee80211State, .host frame⟩

theorem tunnelMac_type (frame : Buf) (sender : AwdlState) (ieee80211State : Ieee80211State) :
    ofLe16 (slice (tunnelMac frame sender ieee80211State) 0 2) =
      (ieee80211FtypeData ||| ieee80211StypeData) := by
  have control : slice (tunnelMac frame sender ieee80211State) 0 2 =
      le16 (ieee80211FtypeData ||| ieee80211StypeData) := rfl
  rw [control]
  exact ofLe16_le16 _ []

/-- `awdl_send_data` reads the whole Ethernet header. -/
theorem awdlSendData_tunnels (frame : Buf) (sender : AwdlState) (ieee80211State : Ieee80211State)
    (noFcs : ieee80211State.fcs = false) :
    Ensures (awdlSendData frame sender ieee80211State) fun sent => ∀ bytes, sent.1 = some bytes →
      14 ≤ frame.bytes.length ∧
        bytes = ieee80211InitRadiotapHeader ++ tunnelMac frame sender ieee80211State := by
  by_cases whole : 14 ≤ frame.bytes.length
  swap
  · have short : peek 2 ofBe16 frame.bytes 12 = none := if_neg (by omega)
    unfold awdlSendData
    simp (disch := decide) only [readBe16_eq, except_ok_bind, Int.reduceToNat, short]
    refine .ok ?_
    intro bytes never
    cases never
  · have strip := bufStrip_eq frame 14
    rw [Nat.cast_ofNat, if_pos whole] at strip
    have plain : ∀ src dst, (ieee80211InitAwdlDataHdr src dst ieee80211State).2.fcs = false :=
      fun _ _ => noFcs
    unfold awdlSendData
    simp (disch := decide) only [readBe16_eq, readEtherAddr_eq, except_ok_bind, Int.reduceToNat, strip,
      Option.getD_some]
    rw [peek_inside 2 _ _ 12 (by omega), peek_inside 6 _ _ 0 (by omega), peek_inside 6 _ _ 6 (by omega)]
    dsimp only
    split
    · exact .error .write
    · refine .ok ?_
      rintro bytes ⟨⟩
      refine ⟨whole, ?_⟩
      simp only [awdlInitFullDataFrame, withFcs, plain, Bool.false_eq_true, ↓reduceIte, tunnelMac,
        dataMac, List.append_assoc, drop_bytes]

theorem Sent.length {own : EtherAddr} {parcel : Parcel} (sent : Sent own parcel)
    (action : parcel.snapshot ≠ none) : 24 ≤ parcel.mac.length ∧ parcel.mac.length ≤ 344 := by
  cases sent with
  | data frame sender ieee80211State whole => exact absurd rfl action
  | action env sender ieee80211State type arpa announces self built =>
      obtain ⟨-, short⟩ := awdlInitArpaTlv_encodes sender announces.terminated arpa built
      exact actionMac_length env sender ieee80211State type announces.wide arpa short

theorem parcels_append (election : ElectionState) (early late : List TxEvent) :
    parcels election (early ++ late) = parcels election early ++ parcels election late :=
  List.filterMap_append

/-- Only action frames carry snapshots. -/
theorem parcels_snapshots (election : ElectionState) (events : List TxEvent) :
    (parcels election events).filterMap Parcel.snapshot =
      (actionsSent events).map fun _ => election := by
  induction events with
  | nil => rfl
  | cons event rest ih =>
      rw [parcels, actionsSent] at ih
      cases event with
      | wlanSend bytes => exact congrArg (election :: ·) ih
      | awdlSendData frame bytes => cases bytes <;> exact ih
      | _ => exact ih

structure Emits (before : DaemonState) (events : List TxEvent) (after : DaemonState) : Prop where
  announces : Announces after.awdlState after.ieee80211State
  transmitted : Transmitted before.awdlState after.awdlState
  sent : ∀ parcel ∈ parcels before.awdlState.election events,
    Sent before.awdlState.selfAddress parcel

theorem transmitted_keeps {before after : AwdlState} (transmitted : Transmitted before after) :
    after.election = before.election ∧ after.selfAddress = before.selfAddress ∧
      after.peers = before.peers := by
  obtain ⟨_, _, _, rfl⟩ := transmitted
  exact ⟨rfl, rfl, rfl⟩

variable {before after : DaemonState} {events : List TxEvent}

theorem awdlSendData_emits {state awdlState : AwdlState} {ieee80211State after : Ieee80211State}
    {frame : Buf} {bytes : Option (List UInt8)} (election : ElectionState)
    (noFcs : ieee80211State.fcs = false)
    (sent : awdlSendData frame state ieee80211State = .ok (bytes, awdlState, after)) :
    (∃ sequenceNumber stats, awdlState =
        { state with sequenceNumber := sequenceNumber, stats := stats }) ∧ after.fcs = false ∧
      ∀ parcel ∈ parcels election [.awdlSendData frame bytes], Sent state.selfAddress parcel := by
  have tunnels := awdlSendData_tunnels frame state ieee80211State noFcs _ sent
  obtain same | ⟨raw, same, -⟩ := awdlSendData_cases _ _ _ _ sent
  · cases same
    exact ⟨⟨_, _, rfl⟩, noFcs, fun parcel member => absurd member List.not_mem_nil⟩
  · cases same
    obtain ⟨whole, built⟩ := tunnels raw rfl
    refine ⟨⟨_, _, rfl⟩, noFcs, ?_⟩
    intro parcel member
    obtain rfl := List.mem_singleton.mp member
    rw [built, List.drop_left]
    exact .data frame _ _ whole

theorem op_emits {tunes acts : Bool} (op : Op tunes acts before events after)
    (announces : Announces before.awdlState before.ieee80211State) : Emits before events after := by
  have quiet : ∀ {parcel : Parcel}, parcel ∈ ([] : List Parcel) →
      Sent before.awdlState.selfAddress parcel := fun member => absurd member List.not_mem_nil
  obtain ⟨self, version, devClass, wide, terminated, noFcs⟩ := announces
  cases op with
  | silent event silent =>
      refine ⟨⟨self, version, devClass, wide, terminated, noFcs⟩, .refl _, ?_⟩
      cases event with
      | awdlSendData frame bytes => exact absurd silent id
      | wlanSend bytes => exact absurd silent id
      | _ => exact fun parcel member => quiet member
  | queues next queue =>
      exact ⟨⟨self, version, devClass, wide, terminated, noFcs⟩, .refl _, fun _ => quiet⟩
  | tune allowed current =>
      exact ⟨⟨self, version, devClass, wide, terminated, noFcs⟩, ⟨_, _, _, rfl⟩, fun _ => quiet⟩
  | unicast frame bytes awdlState ieee80211State sent =>
      obtain ⟨⟨_, _, rfl⟩, plain, parcel⟩ := awdlSendData_emits before.awdlState.election noFcs sent
      exact ⟨⟨self, version, devClass, wide, terminated, plain⟩, ⟨_, _, _, rfl⟩, parcel⟩
  | multicast frame bytes awdlState ieee80211State sent =>
      obtain ⟨⟨_, _, rfl⟩, plain, parcel⟩ := awdlSendData_emits before.awdlState.election noFcs sent
      exact ⟨⟨self, version, devClass, wide, terminated, plain⟩, ⟨_, _, _, rfl⟩, parcel⟩
  | action allowed env type bytes ieee80211State built =>
      obtain ⟨arpa, other, named, frame⟩ := awdlInitFullActionFrame_eq env before.awdlState
        before.ieee80211State type wide terminated noFcs
      obtain ⟨-, counted⟩ := awdlInitFullActionFrame_fields _ _ _ _ _ built
      rw [built] at frame
      cases frame
      refine ⟨⟨self, version, devClass, wide, terminated, ?_⟩, .stats _ _, ?_⟩
      · rw [show ieee80211State = _ from counted]
        exact noFcs
      · intro parcel member
        obtain rfl := List.mem_singleton.mp member
        rw [List.drop_left]
        exact .action env before.awdlState before.ieee80211State type arpa
          ⟨self, version, devClass, wide, terminated, noFcs⟩ rfl named

theorem ops_emits {tunes acts : Bool} (ops : Ops tunes acts before events after)
    (announces : Announces before.awdlState before.ieee80211State) : Emits before events after := by
  induction ops with
  | nil state => exact ⟨announces, .refl _, fun parcel member => absurd member List.not_mem_nil⟩
  | cons op rest ih =>
      have first := op_emits op announces
      have second := ih first.announces
      obtain ⟨election, self, -⟩ := transmitted_keeps first.transmitted
      refine ⟨second.announces, first.transmitted.trans second.transmitted, ?_⟩
      intro parcel member
      rw [parcels_append] at member
      rcases List.mem_append.mp member with early | late
      · exact first.sent parcel early
      · rw [← election] at late
        rw [← self]
        exact second.sent parcel late

/-- Without the permission there are no action frames. -/
theorem ops_actions {tunes : Bool} (ops : Ops tunes false before events after) :
    actionsSent events = [] := by
  induction ops with
  | nil state => rfl
  | cons op rest ih =>
      rw [actionsSent, List.filterMap_append]
      refine List.append_eq_nil_iff.mpr ⟨?_, ih⟩
      cases op with
      | silent event silent =>
          obtain ⟨-, -, unsent, -⟩ := silent_unsent silent
          exact congrArg Option.toList unsent
      | action allowed env type bytes ieee80211State built => cases allowed
      | _ => rfl

def Sends : Turn → Prop
  | .receiveFrame _ _ => False
  | .cleanPeers _ => False
  | _ => True

theorem awdlSendAction_once (env : TxEnv) (type : ActionType) (state : DaemonState) :
    Ensures (awdlSendAction env type state) fun sent => (actionsSent sent.2).length ≤ 1 :=
  .andThen fun _ => .ok (le_refl 1)

theorem awdlSendMif_once (env : TxEnv) (now : UInt64) (state : DaemonState) :
    Ensures (awdlSendMif env now state) fun sent => (actionsSent sent.2).length ≤ 1 := by
  have called : Ensures (callIf (awdlChanNum state.awdlState.channel.current
      state.awdlState.channel.enc > 0) (awdlSendAction env .mif) state) fun sent =>
      (actionsSent sent.2).length ≤ 1 := by
    unfold callIf
    split
    · exact awdlSendAction_once env .mif state
    · exact .ok (Nat.zero_le 1)
  refine .bind called fun sent few => .ok ?_
  rw [actionsSent, List.filterMap_append]
  exact (List.length_append ..).trans_le few

/-- A call is a sequence of operations with at most one action frame. -/
theorem perform_sends {hash : EtherAddr → UInt64} {turn : Turn} {report : Report}
    (sends : Sends turn) (performed : perform hash before turn = .ok (after, report)) :
    (∃ acts, Ops true acts before report.events after) ∧ (actionsSent report.events).length ≤ 1 := by
  have data : ∀ run : Except Fault (DaemonState × List TxEvent),
      Ensures run (Operates true false before) → transmitting run = .ok (after, report) →
      (∃ acts, Ops true acts before report.events after) ∧
        (actionsSent report.events).length ≤ 1 := by
    intro run ensures same
    have ops : Ops true false before report.events after := transmitting_ensures ensures same
    exact ⟨⟨false, ops⟩, by rw [ops_actions ops]; exact Nat.zero_le 1⟩
  have acts : ∀ run : Except Fault (DaemonState × List TxEvent),
      Ensures run (Operates true true before) →
      Ensures run (fun sent => (actionsSent sent.2).length ≤ 1) →
      transmitting run = .ok (after, report) → (∃ acts, Ops true acts before report.events after) ∧
        (actionsSent report.events).length ≤ 1 := fun run ensures once same =>
    ⟨⟨true, transmitting_ensures ensures same⟩, transmitting_ensures once same⟩
  cases turn with
  | receiveFrame env frame => exact absurd sends id
  | cleanPeers now => exact absurd sends id
  | hostDeviceReady long reads multicastNow unicastNow =>
      exact data _ (hostDeviceReady_ops true false hash long multicastNow before reads unicastNow)
        performed
  | sendUnicast long now =>
      exact data _ (awdlSendUnicast_ops true false hash long now before) performed
  | sendMulticast long now =>
      exact data _ (awdlSendMulticast_ops true false long now before) performed
  | sendPsf env =>
      exact acts _ (awdlSendAction_ops true before env .psf) (awdlSendAction_once env .psf before)
        performed
  | sendMif env now =>
      exact acts _ (awdlSendMif_ops true now before env) (awdlSendMif_once env now before) performed
  | switchChannel long wlanIsFile now =>
      exact data _ (.ok (awdlSwitchChannel_ops false long now before wlanIsFile)) performed

end Sending

section Reception

variable {hash : EtherAddr → UInt64} {env : RxEnv} {frame : Buf} {parcel : Parcel}
  {own source : EtherAddr} {state after : DaemonState} {report : Report}

/-- The frame `frame` that the driver of the receiver hands over carries `parcel`, if it gets
through the checks in front of the 802.11 header. -/
def Carries (env : RxEnv) (frame : Buf) (parcel : Parcel) : Prop :=
  ∀ mac, macFrame env frame = some mac → mac.bytes = parcel.mac

inductive Arrives (source own : EtherAddr) (parcel : Parcel) (before after : AwdlState)
    (trace : List RxEvent) : Prop where
  | ignored (peers : after.peers = before.peers) (silent : trace = [])
  | noted (foreign : source ≠ own) (last : Peer) (learnt : parcel.snapshot = some last.election)
      (contents : after.peers.peers.contents =
        Function.update before.peers.peers.contents source (some last))
      (valid : ∀ peer, before.peers.peers.contents source = some peer → peer.isValid = true →
        last.isValid = true)
      (subtype : UInt8) (processed : RxEvent.action source subtype ∈ trace)

theorem receive_arrives (apart : Apart hash own state.awdlState)
    (aligned : Aligned state.awdlState.sync) (sent : Sent source parcel)
    (inside : RadiotapInside env) (carries : Carries env frame parcel)
    (room : (addPeer hash env state.awdlState source).1 ≠ .internal)
    (performed : perform hash state (.receiveFrame env frame) = .ok (after, report)) :
    Arrives source own parcel state.awdlState after.awdlState report.trace ∧
      after.awdlState.election = state.awdlState.election := by
  obtain ⟨outcome, run, rfl, rfl⟩ := perform_received performed
  obtain ⟨stats, final⟩ := afterReceive_eq outcome
  show Arrives source own parcel state.awdlState (afterReceive outcome) outcome.trace ∧
    (afterReceive outcome).election = _
  rw [final]
  obtain ⟨same, silent⟩ | ⟨mac, admits, effect⟩ :=
    awdlRx_changes hash env state.awdlState inside apart.valid.table run
  · rw [same]
    exact ⟨.ignored rfl silent, rfl⟩
  · cases sent with
    | data frame sender ieee80211State whole =>
        have type := admits.action
        rw [macFc, carries mac admits.found, tunnelMac_type] at type
        exact absurd type (by decide)
    | action txEnv sender ieee80211State type arpa announces self built =>
        obtain ⟨origin, -, -, subtype, body⟩ := actionMac_fields txEnv sender ieee80211State type
          arpa mac (carries mac admits.found)
        rw [origin, subtype] at effect
        subst self
        obtain ⟨entry, events, loop, table, last, parsed, mirrors, result, -, -, stored, present,
          turned⟩ := actionEffect_mirrors effect announces.wide announces.terminated arpa built
            body aligned.mode room
        have owner := (entered_self parsed.entered apart.valid.self).trans announces.self.symm
        obtain ⟨learnt, -⟩ := mirrors_announced mirrors owner announces.version
          announces.devClass _ _ last turned
        have processed : RxEvent.action sender.selfAddress type.code ∈ outcome.trace := by
          cases effect with
          | refused => cases result
          | malformed => cases result
          | done => simp
        obtain ⟨touched, _, _, _, configured⟩ := actionEffect_touched effect
        refine ⟨?_, by rw [configured]; rfl⟩
        cases touched with
        | refused full => exact absurd full room
        | entered other contents updated stays =>
            have same : other = last := by
              rw [← stored, contents, Function.update_self] at present
              exact Option.some.inj present
            subst same
            exact .noted (origin ▸ apart.self ▸ admits.foreign) other (congrArg some learnt.symm)
              contents stays type.code processed

end Reception

section Network

structure Air (Node : Type) where
  daemon : Node → DaemonState
  /-- Frames from the first node to the second, oldest first. -/
  flight : Node → Node → List Parcel

variable {Node : Type} [DecidableEq Node] (links : Node → Node → Prop) [DecidableRel links]
  (addr : Node → EtherAddr) (hash : EtherAddr → UInt64)

def putOnAir (air : Air Node) (j : Node) (sent : List Parcel) : Node → Node → List Parcel :=
  fun source target =>
    if source = j ∧ links j target then air.flight source target ++ sent
    else air.flight source target

def replaceFlight (air : Air Node) (j i : Node) (left : List Parcel) : Node → Node → List Parcel :=
  fun source target => if source = j ∧ target = i then left else air.flight source target

def Heard (source : EtherAddr) (report : Report) (after : AwdlState) : Prop :=
  (∃ subtype, RxEvent.action source subtype ∈ report.trace) ∧
    ∃ peer, after.peers.peers.contents source = some peer ∧ peer.isValid = true

def dropped (j i : Node) (earlier : List Parcel) (lost : Parcel) : Label Node :=
  match lost.snapshot with
  | some _ => .lose j i (earlier.filterMap Parcel.snapshot).length
  | none => .idle

/-- A step of the network. No peer that is heard falls silent for so long that it is removed, and
there is memory for the entries of all neighbours. -/
inductive Step : Air Node → Label Node → Air Node → Prop where
  | call (air : Air Node) (i : Node) (turn : Turn) (sends : Sends turn) (after : DaemonState)
      (report : Report) (performed : perform hash (air.daemon i) turn = .ok (after, report)) :
      Step air (if actionsSent report.events = [] then .idle else .send i)
        { daemon := Function.update air.daemon i after
          flight := putOnAir links air i
            (parcels (air.daemon i).awdlState.election report.events) }
  | clean (air : Air Node) (i : Node) (now : UInt64) (after : DaemonState) (report : Report)
      (performed : perform hash (air.daemon i) (.cleanPeers now) = .ok (after, report))
      (steady : ∀ source peer, (air.daemon i).awdlState.peers.peers.contents source = some peer →
        peer.isValid = true → after.awdlState.peers.peers.contents source = some peer) :
      Step air (.update i) { air with daemon := Function.update air.daemon i after }
  | lose (air : Air Node) (j i : Node) (earlier later : List Parcel) (lost : Parcel)
      (flight : air.flight j i = earlier ++ lost :: later) :
      Step air (dropped j i earlier lost)
        { air with flight := replaceFlight air j i (earlier ++ later) }
  | receive (air : Air Node) (j i : Node) (link : links j i) (parcel : Parcel) (later : List Parcel)
      (flight : air.flight j i = parcel :: later) (env : RxEnv) (frame : Buf)
      (inside : RadiotapInside env) (carries : Carries env frame parcel)
      (room : (addPeer hash env (air.daemon i).awdlState (addr j)).1 ≠ .internal)
      (after : DaemonState) (report : Report)
      (performed : perform hash (air.daemon i) (.receiveFrame env frame) = .ok (after, report))
      (label : Label Node)
      (noted : label = .receive j i ∧ Heard (addr j) report after.awdlState ∨
        label = dropped j i [] parcel ∧ ¬ Heard (addr j) report after.awdlState) :
      Step air label
        { daemon := Function.update air.daemon i after
          flight := replaceFlight air j i later }

def airNet : Network (Air Node) Node ElectionState where
  links := Hears links
  state air i := (air.daemon i).awdlState.election
  view air i j := {s | ∃ peer, (air.daemon i).awdlState.peers.peers.contents (addr j) = some peer ∧
    peer.isValid = true ∧ peer.election = s}
  queue air j i := (air.flight j i).filterMap Parcel.snapshot
  rule _ := Elects

/-- A daemon of the network, whose table holds valid entries of neighbours only. -/
structure Member (i : Node) (state : DaemonState) : Prop where
  apart : Apart hash (addr i) state.awdlState
  aligned : Aligned state.awdlState.sync
  announces : Announces state.awdlState state.ieee80211State
  known : ∀ source peer, state.awdlState.peers.peers.contents source = some peer →
    peer.isValid = true → ∃ j, Hears links j i ∧ source = addr j

structure Genuine (air : Air Node) : Prop where
  members : ∀ i, Member links addr hash i (air.daemon i)
  flight : ∀ j i, ∀ parcel ∈ air.flight j i, Sent (addr j) parcel

variable {links addr hash} {i j : Node}

omit [DecidableRel links] in
theorem update_members {daemon : Node → DaemonState} {after : DaemonState}
    (members : ∀ i, Member links addr hash i (daemon i)) (member : Member links addr hash i after) :
    ∀ k, Member links addr hash k (Function.update daemon i after k) := by
  intro k
  by_cases same : k = i
  · subst same
    rwa [Function.update_self]
  · rw [Function.update_of_ne same]
    exact members k

omit [DecidableRel links] in
theorem replaceFlight_sent {air : Air Node} {left : List Parcel}
    (flight : ∀ j i, ∀ parcel ∈ air.flight j i, Sent (addr j) parcel)
    (sent : ∀ parcel ∈ left, Sent (addr j) parcel) :
    ∀ k l, ∀ parcel ∈ replaceFlight air j i left k l, Sent (addr k) parcel := by
  intro k l parcel member
  unfold replaceFlight at member
  split at member
  case isTrue same => exact same.1 ▸ sent parcel member
  case isFalse => exact flight k l parcel member

theorem announces_settings {before after : AwdlState} {ieee80211State : Ieee80211State}
    (same : settings after = settings before) (announces : Announces before ieee80211State) :
    Announces after ieee80211State := by
  have name : after.name = before.name := congrArg Settings.name same
  have version : after.version = before.version := congrArg Settings.version same
  have devClass : after.devClass = before.devClass := congrArg Settings.devClass same
  have enc : after.channel.enc = before.channel.enc := congrArg Settings.enc same
  have election : after.election.selfAddr = before.election.selfAddr :=
    congrArg Settings.electionAddr same
  have self : after.selfAddress = before.selfAddress := congrArg Settings.selfAddress same
  exact ⟨by rw [election, self]; exact announces.self, by rw [version]; exact announces.version,
    by rw [devClass]; exact announces.devClass, by rw [enc]; exact announces.wide,
    by rw [name]; exact announces.terminated, announces.noFcs⟩

/-- The calls of the receiving half leave the 802.11 state alone. -/
theorem perform_ieee80211State {state after : DaemonState} {turn : Turn} {report : Report}
    (other : ¬ Sends turn) (performed : perform hash state turn = .ok (after, report)) :
    after.ieee80211State = state.ieee80211State := by
  cases turn with
  | receiveFrame env frame =>
      obtain ⟨outcome, -, rfl, -⟩ := perform_received performed
      rfl
  | cleanPeers now =>
      cases performed
      rfl
  | _ => exact absurd trivial other

theorem perform_announces {own : EtherAddr} {state after : DaemonState} {turn : Turn}
    {report : Report} (apart : Apart hash own state.awdlState) (inside : turn.Inside)
    (announces : Announces state.awdlState state.ieee80211State)
    (performed : perform hash state turn = .ok (after, report)) :
    Announces after.awdlState after.ieee80211State := by
  by_cases sends : Sends turn
  · obtain ⟨⟨acts, ops⟩, -⟩ := perform_sends sends performed
    exact (ops_emits ops announces).announces
  · rw [perform_ieee80211State sends performed]
    exact announces_settings (changes_settings (perform_changes apart inside performed)) announces

omit [DecidableEq Node] [DecidableRel links] in
/-- What a call keeps of a member, but for its table. -/
theorem perform_member {state after : DaemonState} {turn : Turn} {report : Report}
    (member : Member links addr hash i state) (inside : turn.Inside)
    (performed : perform hash state turn = .ok (after, report))
    (known : ∀ source peer, after.awdlState.peers.peers.contents source = some peer →
      peer.isValid = true → ∃ j, Hears links j i ∧ source = addr j) :
    Member links addr hash i after := by
  have changes := perform_changes member.apart inside performed
  exact ⟨changes.apart member.apart, changes_aligned changes member.aligned,
    perform_announces member.apart inside member.announces performed, known⟩

theorem sends_inside {turn : Turn} (sends : Sends turn) : turn.Inside := by
  cases turn with
  | receiveFrame env frame => exact absurd sends id
  | _ => trivial

omit [DecidableEq Node] [DecidableRel links] in
/-- A frame of a neighbour enters nobody else. -/
theorem receive_member {state after : DaemonState} {env : RxEnv} {frame : Buf} {report : Report}
    {parcel : Parcel} (member : Member links addr hash i state) (link : links j i)
    (sent : Sent (addr j) parcel) (inside : RadiotapInside env) (carries : Carries env frame parcel)
    (room : (addPeer hash env state.awdlState (addr j)).1 ≠ .internal)
    (performed : perform hash state (.receiveFrame env frame) = .ok (after, report)) :
    Member links addr hash i after := by
  obtain ⟨arrives, -⟩ := receive_arrives member.apart member.aligned sent inside carries room performed
  refine perform_member member (show Turn.Inside (.receiveFrame env frame) from inside) performed ?_
  cases arrives with
  | ignored peers silent =>
      rw [peers]
      exact member.known
  | noted foreign last learnt contents valid subtype processed =>
      intro source peer present validNow
      by_cases same : source = addr j
      · exact ⟨j, ⟨link, fun loop => foreign (congrArg addr loop)⟩, same⟩
      · rw [contents, Function.update_of_ne same] at present
        exact member.known source peer present validNow

theorem step_genuine {before after : Air Node} {label : Label Node}
    (genuine : Genuine links addr hash before) (step : Step links addr hash before label after) :
    Genuine links addr hash after := by
  cases step with
  | call i turn sends state report performed =>
      have member := genuine.members i
      obtain ⟨⟨acts, ops⟩, -⟩ := perform_sends sends performed
      have emits := ops_emits ops member.announces
      obtain ⟨-, -, peers⟩ := transmitted_keeps emits.transmitted
      refine ⟨update_members genuine.members (perform_member member (sends_inside sends) performed
        ?_), ?_⟩
      · rw [peers]
        exact member.known
      · intro j k parcel present
        dsimp only [putOnAir] at present
        split at present
        case isTrue same =>
          rcases List.mem_append.mp present with old | new
          · exact genuine.flight j k parcel old
          · have sent := emits.sent parcel new
            rw [member.apart.self] at sent
            exact same.1 ▸ sent
        case isFalse => exact genuine.flight j k parcel present
  | clean i now state report performed steady =>
      have member := genuine.members i
      refine ⟨update_members genuine.members (perform_member member
        (show Turn.Inside (.cleanPeers now) from trivial) performed ?_),
        genuine.flight⟩
      cases performed
      intro source peer present
      rw [awdlCleanPeers_contents now member.apart.valid.table] at present
      exact member.known source peer (Option.filter_eq_some_iff.mp present).1
  | lose j i earlier later lost flight =>
      refine ⟨genuine.members, replaceFlight_sent genuine.flight fun parcel present => ?_⟩
      apply genuine.flight j i
      rw [flight]
      exact List.mem_append.mpr ((List.mem_append.mp present).imp id (List.mem_cons_of_mem lost))
  | receive j i link parcel later flight env frame inside carries room state report performed _ noted =>
      have fromAir : ∀ other ∈ parcel :: later, Sent (addr j) other := flight ▸ genuine.flight j i
      exact ⟨update_members genuine.members (receive_member (genuine.members i) link
        (fromAir parcel List.mem_cons_self) inside carries room performed),
        replaceFlight_sent genuine.flight fun other present =>
          fromAir other (List.mem_cons_of_mem _ present)⟩

section Views

variable {before : Air Node} {state : DaemonState} {flight : Node → Node → List Parcel}

omit [DecidableRel links] in
theorem update_states (election : state.awdlState.election = (before.daemon i).awdlState.election) :
    (airNet links addr).state ⟨Function.update before.daemon i state, flight⟩ =
      (airNet links addr).state before := by
  funext k
  show (Function.update before.daemon i state k).awdlState.election = _
  by_cases same : k = i
  · subst same
    rw [Function.update_self, election]
    rfl
  · rw [Function.update_of_ne same]
    rfl

omit [DecidableRel links] in
theorem update_view_self (j : Node) :
    (airNet links addr).view ⟨Function.update before.daemon i state, flight⟩ i j =
      {s | ∃ peer, state.awdlState.peers.peers.contents (addr j) = some peer ∧
        peer.isValid = true ∧ peer.election = s} := by
  show {s | ∃ peer, (Function.update before.daemon i state i).awdlState.peers.peers.contents
    (addr j) = some peer ∧ _} = _
  rw [Function.update_self]

omit [DecidableRel links] in
theorem update_view_other {k : Node} (other : k ≠ i) (j : Node) :
    (airNet links addr).view ⟨Function.update before.daemon i state, flight⟩ k j =
      (airNet links addr).view before k j := by
  show {s | ∃ peer, (Function.update before.daemon i state k).awdlState.peers.peers.contents
    (addr j) = some peer ∧ _} = _
  rw [Function.update_of_ne other]
  rfl

omit [DecidableRel links] in
/-- The views are the same when `i` has the same valid entries for all nodes. -/
theorem update_views (entries : ∀ j peer, peer.isValid = true →
      (state.awdlState.peers.peers.contents (addr j) = some peer ↔
        (before.daemon i).awdlState.peers.peers.contents (addr j) = some peer)) :
    (airNet links addr).view ⟨Function.update before.daemon i state, flight⟩ =
      (airNet links addr).view before := by
  funext k j
  by_cases same : k = i
  · subst same
    rw [update_view_self]
    ext s
    constructor
    · rintro ⟨peer, present, valid, snapshot⟩
      exact ⟨peer, (entries j peer valid).mp present, valid, snapshot⟩
    · rintro ⟨peer, present, valid, snapshot⟩
      exact ⟨peer, (entries j peer valid).mpr present, valid, snapshot⟩
  · exact update_view_other same j

variable {after : Air Node} {left : List Parcel}

omit [DecidableRel links] in
theorem replaced_here (replaced : after.flight = replaceFlight before j i left) :
    (airNet links addr).queue after j i = left.filterMap Parcel.snapshot := by
  show (after.flight j i).filterMap _ = _
  rw [replaced, replaceFlight, if_pos ⟨rfl, rfl⟩]

omit [DecidableRel links] in
theorem replaced_other (replaced : after.flight = replaceFlight before j i left) {k l : Node}
    (different : (k, l) ≠ (j, i)) :
    (airNet links addr).queue after k l = (airNet links addr).queue before k l := by
  show (after.flight k l).filterMap _ = _
  rw [replaced, replaceFlight, if_neg fun same => different (Prod.ext same.1 same.2)]
  rfl

end Views

omit [DecidableRel links] in
/-- A lost frame is a lost snapshot, or nothing that the abstract network knows of. -/
theorem dropped_change {before after : Air Node} {earlier later : List Parcel} {lost : Parcel}
    (states : (airNet links addr).state after = (airNet links addr).state before)
    (views : (airNet links addr).view after = (airNet links addr).view before)
    (flight : before.flight j i = earlier ++ lost :: later)
    (left : after.flight = replaceFlight before j i (earlier ++ later)) :
    Change (airNet links addr) before after (dropped j i earlier lost) := by
  have others : ∀ k l, (k, l) ≠ (j, i) →
      (airNet links addr).queue after k l = (airNet links addr).queue before k l :=
    fun k l different => replaced_other left different
  have here : (airNet links addr).queue after j i =
      earlier.filterMap Parcel.snapshot ++ later.filterMap Parcel.snapshot :=
    (replaced_here left).trans List.filterMap_append
  have was : (airNet links addr).queue before j i = earlier.filterMap Parcel.snapshot ++
      (lost :: later).filterMap Parcel.snapshot := by
    show (before.flight j i).filterMap _ = _
    rw [flight, List.filterMap_append]
  unfold dropped
  cases snapshot : lost.snapshot with
  | some s =>
      rw [List.filterMap_cons_some snapshot] at was
      exact .lose j i _ _ s states views was here others
  | none =>
      rw [List.filterMap_cons_none snapshot] at was
      refine .idle states views ?_
      funext k l
      by_cases same : (k, l) = (j, i)
      · cases same
        rw [here, was]
      · exact others k l same

omit [DecidableRel links] in
/-- A cleanup that removes no valid peer is an election on the view. -/
theorem clean_change {before : Air Node} {now : UInt64} {state : DaemonState} {report : Report}
    (member : Member links addr hash i (before.daemon i))
    (performed : perform hash (before.daemon i) (.cleanPeers now) = .ok (state, report))
    (steady : ∀ source peer, (before.daemon i).awdlState.peers.peers.contents source = some peer →
      peer.isValid = true → state.awdlState.peers.peers.contents source = some peer) :
    Change (airNet links addr) before { before with daemon := Function.update before.daemon i state }
      (.update i) := by
  have table := (awdlCleanPeers_valid now member.apart.valid).table
  have fewer : ∀ source peer, state.awdlState.peers.peers.contents source = some peer →
      (before.daemon i).awdlState.peers.peers.contents source = some peer := by
    cases performed
    intro source peer present
    rw [awdlCleanPeers_contents now member.apart.valid.table] at present
    exact (Option.filter_eq_some_iff.mp present).1
  have elected : state.awdlState.election =
      ElectionRun.electionOver (before.daemon i).awdlState.election
        (awdlPeersIterate state.awdlState.peers.peers) := by
    cases performed
    rfl
  have valid : TableValid hash state.awdlState.peers.peers := by
    cases performed
    exact table
  refine .update i ⟨awdlPeersIterate state.awdlState.peers.peers, ⟨?_, ?_⟩, ?_⟩ ?_
    (update_views fun j peer now => ⟨fewer _ peer, fun old => steady _ peer old now⟩) rfl
  · intro peer listed now
    have present := fewer _ peer ((mem_awdlPeersIterate _ valid peer).mp listed)
    obtain ⟨j, -, named⟩ := member.known _ peer present now
    exact ⟨j, peer, named ▸ present, now, rfl⟩
  · rintro j s ⟨peer, present, now, same⟩
    have left := steady _ peer present now
    refine ⟨peer, (mem_awdlPeersIterate _ valid peer).mpr ?_, now, same⟩
    rw [valid.own _ peer left]
    exact left
  · exact (congrArg (fun daemon : DaemonState => daemon.awdlState.election)
      (Function.update_self i state before.daemon)).trans elected
  · exact fun k other => congrArg (fun daemon : DaemonState => daemon.awdlState.election)
      (Function.update_of_ne other state before.daemon)

/-- A call sends the election state that the node has before it, or none. -/
theorem call_change {before : Air Node} {turn : Turn} {state : DaemonState} {report : Report}
    (member : Member links addr hash i (before.daemon i)) (sends : Sends turn)
    (performed : perform hash (before.daemon i) turn = .ok (state, report)) :
    Change (airNet links addr) before
      ⟨Function.update before.daemon i state,
        putOnAir links before i (parcels (before.daemon i).awdlState.election report.events)⟩
      (if actionsSent report.events = [] then .idle else .send i) := by
  obtain ⟨⟨acts, ops⟩, few⟩ := perform_sends sends performed
  obtain ⟨election, -, peers⟩ := transmitted_keeps (ops_emits ops member.announces).transmitted
  have same : ∀ j peer, peer.isValid = true →
      (state.awdlState.peers.peers.contents (addr j) = some peer ↔
        (before.daemon i).awdlState.peers.peers.contents (addr j) = some peer) :=
    fun j peer _ => by rw [peers]
  have queue : ∀ k l, ((putOnAir links before i (parcels (before.daemon i).awdlState.election
      report.events)) k l).filterMap Parcel.snapshot =
      if k = i ∧ links i l then (airNet links addr).queue before k l ++
        (actionsSent report.events).map fun _ => (before.daemon i).awdlState.election
      else (airNet links addr).queue before k l := by
    intro k l
    unfold putOnAir
    split
    · rw [List.filterMap_append, parcels_snapshots]
      rfl
    · rfl
  split
  case isTrue none =>
    rw [none] at queue
    refine .idle (update_states election) (update_views same) ?_
    funext k l
    exact (queue k l).trans (by simp)
  case isFalse some =>
    obtain ⟨bytes, one⟩ : ∃ bytes, actionsSent report.events = [bytes] :=
      List.length_eq_one_iff.mp (Nat.le_antisymm few (List.length_pos_iff.mpr some))
    rw [one] at queue
    refine .send i (update_states election) (update_views same) ?_ ?_
    · exact fun l link => (queue i l).trans (if_pos ⟨rfl, link.1⟩)
    · exact fun k l other => (queue k l).trans (if_neg fun same => other same.1)

omit [DecidableRel links] in
/-- A frame that leaves a valid entry has brought its snapshot. -/
theorem heard_change (distinct : Function.Injective addr) {before : Air Node} {state : DaemonState}
    {parcel : Parcel} {later : List Parcel} {last : Peer} (hears : Hears links j i)
    (election : state.awdlState.election = (before.daemon i).awdlState.election)
    (flight : before.flight j i = parcel :: later) (learnt : parcel.snapshot = some last.election)
    (contents : state.awdlState.peers.peers.contents =
      Function.update (before.daemon i).awdlState.peers.peers.contents (addr j) (some last))
    (now : last.isValid = true) :
    Change (airNet links addr) before
      ⟨Function.update before.daemon i state, replaceFlight before j i later⟩ (.receive j i) := by
  refine .receive j i last.election (later.filterMap Parcel.snapshot) hears (update_states election)
    ?_ (replaced_here rfl) ?_ ?_ fun k l different => replaced_other rfl different
  · show (before.flight j i).filterMap _ = _
    rw [flight, List.filterMap_cons_some learnt]
  · rw [update_view_self, contents, Function.update_self]
    ext s
    constructor
    · rintro ⟨peer, ⟨⟩, -, rfl⟩
      rfl
    · rintro rfl
      exact ⟨last, rfl, now, rfl⟩
  · intro l k different
    by_cases same : l = i
    · subst same
      have apart : k ≠ j := fun same => different (Prod.ext same rfl)
      rw [update_view_self, contents, Function.update_of_ne fun same => apart (distinct same)]
      rfl
    · exact update_view_other same k

theorem step_change (distinct : Function.Injective addr) {before after : Air Node}
    {label : Label Node} (genuine : Genuine links addr hash before)
    (step : Step links addr hash before label after) :
    Change (airNet links addr) before after label := by
  cases step with
  | call i turn sends state report performed => exact call_change (genuine.members i) sends performed
  | clean i now state report performed steady =>
      exact clean_change (genuine.members i) performed steady
  | lose j i earlier later lost flight => exact dropped_change rfl rfl flight rfl
  | receive j i link parcel later flight env frame inside carries room state report performed _ noted =>
      have member := genuine.members i
      have fromAir : ∀ other ∈ parcel :: later, Sent (addr j) other := flight ▸ genuine.flight j i
      obtain ⟨arrives, election⟩ := receive_arrives member.apart member.aligned
        (fromAir parcel List.mem_cons_self) inside carries room performed
      cases arrives with
      | ignored peers silent =>
          obtain ⟨-, ⟨subtype, processed⟩, -⟩ | ⟨rfl, -⟩ := noted
          · rw [silent] at processed
            cases processed
          · exact dropped_change (update_states election) (update_views fun _ _ _ => by rw [peers])
              flight rfl
      | noted foreign last learnt contents valid subtype processed =>
          have here : state.awdlState.peers.peers.contents (addr j) = some last := by
            rw [contents, Function.update_self]
          rcases noted with ⟨rfl, -, peer, present, now⟩ | ⟨rfl, unheard⟩
          · rw [here] at present
            cases present
            exact heard_change distinct ⟨link, fun loop => foreign (congrArg addr loop)⟩ election
              flight learnt contents now
          -- The entry is still not valid, as it was not before.
          · have invalid : last.isValid ≠ true := fun now =>
              unheard ⟨⟨subtype, processed⟩, last, here, now⟩
            refine dropped_change (update_states election) (update_views fun k peer now => ?_)
              flight rfl
            by_cases same : k = j
            · subst same
              rw [here]
              constructor
              · rintro ⟨⟩
                exact absurd now invalid
              · intro old
                exact absurd (valid peer old now) invalid
            · rw [contents, Function.update_of_ne fun twin => same (distinct twin)]

end Network

section Outcome

/-- A daemon that has been through anything since it was initialised. -/
def Booted (hash : EtherAddr → UInt64) (own : EtherAddr) (state : DaemonState) : Prop :=
  ∃ memory slots hostname chan now filterRssi reports, 0 ∈ (strncpyName memory hostname).toList ∧
    Performed hash (daemonInit memory slots hostname own chan now filterRssi) reports state

theorem Booted.announces {hash : EtherAddr → UInt64} {own : EtherAddr} {state : DaemonState}
    (booted : Booted hash own state) :
    Apart hash own state.awdlState ∧ Aligned state.awdlState.sync ∧
      Announces state.awdlState state.ieee80211State ∧
      state.awdlState.election.selfAddr = own ∧ state.awdlState.election.selfRank = 60 := by
  obtain ⟨memory, slots, hostname, chan, now, filterRssi, reports, terminated, run⟩ := booted
  have kept : Poised hash own (settings (daemonInit memory slots hostname own chan now
      filterRssi).awdlState) state.awdlState ∧ Announces state.awdlState state.ieee80211State := by
    induction run with
    | start =>
        refine ⟨daemonInit_poised memory slots hostname own chan now filterRssi hash, rfl, ?_, ?_, ?_,
          terminated, rfl⟩
        · exact show awdlVersion 3 4 ≠ 0 by decide
        · exact show awdlDevclassMacos ≠ 0 by decide
        · exact show ChanEncoding.opclass ≠ .simple by decide
    | step run turn inside performed ih =>
        obtain ⟨poised, announces⟩ := ih
        exact ⟨perform_poised turn poised inside performed,
          perform_announces poised.apart inside announces performed⟩
  obtain ⟨⟨apart, aligned, settled⟩, announces⟩ := kept
  refine ⟨apart, aligned, announces, congrArg Settings.electionAddr settled, ?_⟩
  have counter : state.awdlState.election.selfCounter = awdlElectionCounterInit :=
    congrArg Settings.selfCounter settled
  have metric : state.awdlState.election.selfMetric = awdlElectionMetricInit :=
    congrArg Settings.selfMetric settled
  rw [ElectionState.selfRank, counter, metric]
  rfl

variable {Node : Type} [DecidableEq Node] [Finite Node] {links : Node → Node → Prop}
  [DecidableRel links] {addr : Node → EtherAddr}

def InCluster (links : Node → Node → Prop) (addr : Node → EtherAddr) (j : Node)
    (s : ElectionState) : Prop :=
  Leads (Hears links) addr (fun _ => 60) j ∧ s.masterAddr = addr j ∧ s.syncAddr = addr j ∧
      s.height.toNat = 0 ∨
    ∃ M, Leads (Hears links) addr (fun _ => 60) M ∧ links M j ∧ s.masterAddr = addr M ∧
      s.syncAddr = addr M ∧ s.height.toNat = 1

/-- Daemons that hear only each other from now on choose leaders by their addresses, whatever
they have been through before; every other daemon follows a leader that it hears. -/
theorem daemons_form_clusters (hash : EtherAddr → UInt64) (distinct : Function.Injective addr)
    (start air later : Air Node) (booted : ∀ i, Booted hash (addr i) (start.daemon i))
    (flight : ∀ j i, ∀ parcel ∈ start.flight j i, Sent (addr j) parcel)
    (known : ∀ i source peer, (start.daemon i).awdlState.peers.peers.contents source = some peer →
      peer.isValid = true → ∃ j, Hears links j i ∧ source = addr j)
    (rounds : Rounds (airNet links addr) (Step links addr hash) start (Nat.card Node + 23) air)
    (labels : List (Label Node)) (run : Run (Step links addr hash) air labels later) (j : Node) :
    InCluster links addr j (later.daemon j).awdlState.election := by
  have genuine : Genuine links addr hash start :=
    ⟨fun i => ⟨(booted i).announces.1, (booted i).announces.2.1, (booted i).announces.2.2.1, known i⟩,
      flight⟩
  have top : ∀ i : Node, Top (fun _ => 60) i := fun i k => le_refl _
  have few : ∀ i, 12 + ahead addr i ≤ 11 + Nat.card Node := fun i => by
    have bound : ahead addr i < Nat.card Node := ahead_card i
    omega
  have gains : Gains (airNet links addr) _ _ := clusters_gains rfl distinct (top j) few
  have unknown : ∀ k s, Settled (Hears links) addr (fun _ => 60) j (11 + Nat.card Node) 0 k s :=
    fun k s => ⟨by omega, by omega, by omega, by omega, by omega, by omega, by omega⟩
  have within : Within (airNet links addr) (Home addr fun _ => 60)
      (Settled (Hears links) addr (fun _ => 60) j (11 + Nat.card Node) 0) start := by
    refine ⟨fun i => ⟨(booted i).announces.2.2.2.1, (booted i).announces.2.2.2.2⟩,
      fun i => unknown i _, ?_, fun k i _ s _ => unknown k s⟩
    rintro i k s ⟨peer, present, valid, -⟩
    obtain ⟨l, hears, same⟩ := known i (addr k) peer present valid
    obtain rfl := distinct same
    exact ⟨hears, unknown k s⟩
  have settled := (rounds_later gains (fun _ _ _ => step_genuine) (fun _ _ _ => step_change distinct)
    genuine within rounds run).state j
  by_cases leads : Leads (Hears links) addr (fun _ => 60) j
  · obtain ⟨-, flat, M, -, master, parent⟩ :=
      settled.placed 0 (by omega) (by omega) (leads_hops leads)
    obtain ⟨rfl, sync⟩ := parent.zero
    exact .inl ⟨leads, master, sync, flat⟩
  · obtain ⟨-, one, M, leader, master, parent⟩ :=
      settled.placed 1 (by omega) (by omega) (yields_hops (top j) leads)
    obtain ⟨hears, sync⟩ := parent.one
    exact .inr ⟨M, leader, hears.1, master, sync, one⟩

end Outcome

/-! One daemon that hears another, which hears nobody. -/
section Pair

def talks (j i : Fin 2) : Prop := j = 0 ∧ i = 1

instance : DecidableRel talks := fun j i => inferInstanceAs (Decidable (j = 0 ∧ i = 1))

def pairAddr : Fin 2 → EtherAddr
  | 0 => peerAddr
  | 1 => selfAddr

/-- An action frame with a header that the radiotap iterator accepts is processed. -/
theorem receive_heard {hash : EtherAddr → UInt64} {env : RxEnv} {own source : EtherAddr}
    {parcel : Parcel} {state after : DaemonState} {frame : Buf} {report : Report}
    (apart : Apart hash own state.awdlState) (aligned : Aligned state.awdlState.sync)
    (sent : Sent source parcel) (action : parcel.snapshot ≠ none) (foreign : source ≠ own)
    (inside : RadiotapInside env) (unflagged : Unflagged env frame)
    (bytes : frame.bytes = ieee80211InitRadiotapHeader ++ parcel.mac)
    (unfiltered : state.awdlState.filterRssi = false)
    (room : (addPeer hash env state.awdlState source).1 ≠ .internal)
    (performed : perform hash state (.receiveFrame env frame) = .ok (after, report)) :
    ∃ subtype, RxEvent.action source subtype ∈ report.trace := by
  cases sent with
  | data frame sender ieee80211State whole => exact absurd rfl action
  | action txEnv sender ieee80211State type arpa announces self built =>
      obtain ⟨-, short⟩ := awdlInitArpaTlv_encodes sender announces.terminated arpa built
      have long := (actionMac_length txEnv sender ieee80211State type announces.wide arpa short).1
      have found := macFrame_radiotap env frame _ unflagged bytes long
      obtain ⟨origin, action, header, subtype, body⟩ := actionMac_fields txEnv sender ieee80211State
        type arpa (frame.drop 9) (by rw [drop_bytes, bytes]; rfl)
      subst self
      have admits : Admits hash env state.awdlState frame (frame.drop 9) :=
        ⟨found, by rw [origin, apart.self]; exact foreign, action, header,
          fun filters => by rw [unfiltered] at filters; cases filters⟩
      obtain ⟨outcome, -, trace, effect⟩ := perform_admits apart inside admits performed
      rw [origin, subtype] at effect
      obtain ⟨-, -, -, -, -, -, -, result, -⟩ := actionEffect_mirrors effect announces.wide
        announces.terminated arpa built body aligned.mode room
      refine ⟨type.code, ?_⟩
      rw [trace]
      cases effect with
      | refused => cases result
      | malformed => cases result
      | done => simp

structure Ready (air : Air (Fin 2)) : Prop where
  genuine : Genuine talks pairAddr addrHash air
  waiting : ∀ i, Waiting (air.daemon i)
  unfiltered : (air.daemon 1).awdlState.filterRssi = false
  entry : ∃ peer, (air.daemon 1).awdlState.peers.peers.contents (pairAddr 0) = some peer ∧
    peer.isValid = true

theorem room_entered {state : AwdlState} (valid : TableValid addrHash state.peers.peers)
    {source : EtherAddr} (entered : ∃ peer, state.peers.peers.contents source = some peer) :
    (addPeer addrHash zeroEnv state source).1 ≠ .internal := by
  obtain ⟨peer, present⟩ := entered
  obtain ⟨_, -, ⟨-, absent, -⟩ | ⟨status, _, _, added, fine, -⟩⟩ :=
    addPeer_cases addrHash zeroEnv state source valid
  · rw [present] at absent
    cases absent
  · rw [added]
    rintro rfl
    exact absurd fine (by decide)

theorem Ready.fit {air : Air (Fin 2)} (ready : Ready air) (i : Fin 2) :
    Fit addrHash (pairAddr i) (air.daemon i) :=
  ⟨ready.waiting i, (ready.genuine.members i).apart, (ready.genuine.members i).announces.terminated⟩

theorem Ready.step {air next : Air (Fin 2)} {label : Label (Fin 2)} (ready : Ready air) {i : Fin 2}
    {turn : Turn} {after : DaemonState} {report : Report}
    (step : Step talks pairAddr addrHash air label next)
    (updated : next.daemon = Function.update air.daemon i after) (inside : turn.Inside)
    (performed : perform addrHash (air.daemon i) turn = .ok (after, report))
    (entry : i = 1 → ∃ peer, after.awdlState.peers.peers.contents (pairAddr 0) = some peer ∧
      peer.isValid = true) : Ready next := by
  obtain ⟨-, waits⟩ := perform_moves (ready.fit i) inside performed
  have genuine := step_genuine ready.genuine step
  have other : ∀ k, k ≠ i → next.daemon k = air.daemon k := fun k differs => by
    rw [updated, Function.update_of_ne differs]
  have turned : next.daemon i = after := by rw [updated, Function.update_self]
  refine ⟨genuine, ?_, ?_, ?_⟩
  · intro k
    by_cases same : k = i
    · subst same
      rwa [turned]
    · rw [other k same]
      exact ready.waiting k
  · by_cases same : 1 = i
    · subst same
      rw [turned]
      exact (congrArg Settings.filterRssi (changes_settings
        (perform_changes (ready.genuine.members 1).apart inside performed))).trans ready.unfiltered
    · rw [other 1 same]
      exact ready.unfiltered
  · by_cases same : 1 = i
    · subst same
      rw [turned]
      exact entry rfl
    · rw [other 1 same]
      exact ready.entry

/-- A cleanup at the time at which nothing is too old. -/
theorem ready_cleans {air : Air (Fin 2)} (ready : Ready air) (i : Fin 2) :
    ∃ next, Step talks pairAddr addrHash air (.update i) next ∧ Ready next ∧
      next.flight = air.flight := by
  have young : ∀ source, (awdlCleanPeers (air.daemon i).awdlState.peers.timeout
      (air.daemon i).awdlState).1.peers.peers.contents source =
        (air.daemon i).awdlState.peers.peers.contents source := by
    intro source
    rw [awdlCleanPeers_contents _ (ready.genuine.members i).apart.valid.table, UInt64.sub_self]
    cases (air.daemon i).awdlState.peers.peers.contents source with
    | none => rfl
    | some peer => simp
  have performed : perform addrHash (air.daemon i)
    (.cleanPeers (air.daemon i).awdlState.peers.timeout) = .ok _ := rfl
  have step : Step talks pairAddr addrHash air (.update i) _ :=
    .clean air i _ _ _ performed fun source peer present _ => (young source).trans present
  refine ⟨_, step, ready.step step rfl (show Turn.Inside (.cleanPeers _) from trivial) performed ?_, rfl⟩
  rintro rfl
  obtain ⟨peer, present, valid⟩ := ready.entry
  exact ⟨peer, (young _).trans present, valid⟩

/-- The first daemon sends a PSF. -/
theorem ready_sends {air : Air (Fin 2)} (ready : Ready air) (quiet : air.flight 0 1 = []) :
    ∃ next parcel, Step talks pairAddr addrHash air (.send 0) next ∧ Ready next ∧
      next.flight 0 1 = [parcel] ∧ parcel.snapshot ≠ none := by
  obtain ⟨after, report, performed⟩ :=
    (perform_ends_iff (ready.fit 0) (.sendPsf steadyClock) trivial).mpr trivial
  have step : Step talks pairAddr addrHash air _ _ :=
    .call air 0 (.sendPsf steadyClock) trivial after report performed
  have once : ∃ bytes, report.events = [.wlanSend bytes] := by
    have ensures : Ensures (awdlSendPsf steadyClock (air.daemon 0)) fun sent =>
        ∃ bytes, sent.2 = [.wlanSend bytes] := .andThen fun built => .ok ⟨built.1, rfl⟩
    exact transmitting_ensures ensures performed
  obtain ⟨bytes, events⟩ := once
  rw [events] at step
  refine ⟨_, ⟨bytes.drop ieee80211InitRadiotapHeader.length, .election (air.daemon 0).awdlState.election⟩,
    step, ready.step step rfl (show Turn.Inside (.sendPsf steadyClock) from trivial) performed
      (fun never => by cases never), ?_, fun never => by cases never⟩
  show putOnAir talks air 0 _ 0 1 = _
  rw [putOnAir, if_pos ⟨rfl, rfl, rfl⟩, quiet]
  rfl

theorem header_unflagged (frame : Buf) (mac : List UInt8)
    (bytes : frame.bytes = ieee80211InitRadiotapHeader ++ mac) : Unflagged zeroEnv frame := by
  refine ⟨⟨[⟨true, ieee80211RadiotapRate, 24⟩], true⟩, ?_, rfl, rfl⟩
  show byteRadiotap frame.bytes = _
  rw [bytes]
  unfold byteRadiotap
  have length : itLen (ieee80211InitRadiotapHeader ++ mac) = 9 := rfl
  have present : byteAt (ieee80211InitRadiotapHeader ++ mac) 4 = 4 := rfl
  rw [length, present, if_pos ⟨by decide, by rw [List.length_append]; exact Nat.le_add_right 9 _,
    by decide⟩]
  rfl

theorem header_carries {frame : Buf} {parcel : Parcel}
    (bytes : frame.bytes = ieee80211InitRadiotapHeader ++ parcel.mac) (long : 24 ≤ parcel.mac.length) :
    Carries zeroEnv frame parcel := by
  intro mac found
  rw [macFrame_radiotap zeroEnv frame _ (header_unflagged frame _ bytes) bytes long] at found
  cases found
  rw [drop_bytes, bytes]
  rfl

/-- What daemons send yields at most one frame each. -/
theorem Sent.fits {source : EtherAddr} {parcel : Parcel} (sent : Sent source parcel) {env : RxEnv}
    {frame : Buf} (carries : Carries env frame parcel) (state : AwdlState) :
    ¬ Overfull addrHash env frame state := by
  rintro ⟨mac, body, found, -, load, -⟩
  have bytes := carries mac found
  rw [carried] at load
  cases sent with
  | action txEnv sender ieee80211State type arpa announces self built =>
      obtain ⟨-, control, -⟩ := actionMac_fields txEnv sender ieee80211State type arpa mac bytes
      rw [control] at load
      cases load
  | data frame sender ieee80211State whole =>
      have control : macFc mac = 0x0008 := by
        rw [macFc, bytes]
        rfl
      rw [control] at load
      cases load

/-- The second daemon reads the frame and enters its sender. -/
theorem ready_hears {air : Air (Fin 2)} (ready : Ready air) {parcel : Parcel}
    (flight : air.flight 0 1 = [parcel]) (action : parcel.snapshot ≠ none) :
    ∃ next, Step talks pairAddr addrHash air (.receive 0 1) next ∧ Ready next ∧
      next.flight 0 1 = [] := by
  have member := ready.genuine.members 1
  have sent : Sent (pairAddr 0) parcel :=
    ready.genuine.flight 0 1 parcel (by rw [flight]; exact List.mem_singleton_self parcel)
  have bounds := sent.length action
  obtain ⟨peer, present, valid⟩ := ready.entry
  have room := room_entered member.apart.valid.table ⟨peer, present⟩
  have tap : ieee80211InitRadiotapHeader.length = 9 := rfl
  obtain ⟨frame, bytes⟩ : ∃ frame : Buf, frame.bytes = ieee80211InitRadiotapHeader ++ parcel.mac :=
    ⟨⟨_, by rw [List.length_append]; omega⟩, rfl⟩
  have unflagged := header_unflagged frame _ bytes
  have inside : RadiotapInside zeroEnv := byteRadiotap_inside
  have carries : Carries zeroEnv frame parcel := header_carries bytes bounds.1
  obtain ⟨after, report, performed⟩ :=
    (perform_ends_iff (ready.fit 1) (.receiveFrame zeroEnv frame) inside).mpr (sent.fits carries _)
  obtain ⟨subtype, processed⟩ := receive_heard member.apart member.aligned sent action (by decide)
    inside unflagged bytes ready.unfiltered room performed
  obtain ⟨arrives, -⟩ := receive_arrives member.apart member.aligned sent inside carries room performed
  have kept : ∃ peer, after.awdlState.peers.peers.contents (pairAddr 0) = some peer ∧
      peer.isValid = true := by
    cases arrives with
    | ignored peers silent => exact ⟨peer, by rw [peers]; exact present, valid⟩
    | noted foreign last learnt contents stays _ _ =>
        exact ⟨last, by rw [contents, Function.update_self], stays peer present valid⟩
  have step : Step talks pairAddr addrHash air _ _ := .receive air 0 1 ⟨rfl, rfl⟩ parcel [] flight
    zeroEnv frame inside carries room after report performed _ (.inl ⟨rfl, ⟨subtype, processed⟩, kept⟩)
  refine ⟨_, step, ready.step step rfl (show Turn.Inside (.receiveFrame zeroEnv frame) from inside)
    performed (fun _ => kept), ?_⟩
  show replaceFlight air 0 1 [] 0 1 = []
  rw [replaceFlight, if_pos ⟨rfl, rfl⟩]

def pairLabels : List (Label (Fin 2)) := [.update 0, .update 1, .send 0, .receive 0 1]

/-- Nothing on the link was sent before the update. -/
theorem pair_round (length : Fin 2 → Fin 2 → Nat) (none : length 0 1 = 0) :
    (pairLabels.foldl Marks.next (Marks.start length)).Complete (Hears talks) := by
  constructor
  · intro i
    fin_cases i <;> simp [pairLabels, Marks.next, Marks.start, none]
  · rintro j i ⟨⟨rfl, rfl⟩, -⟩
    simp [pairLabels, Marks.next, Marks.start, none]

theorem ready_rounds {air : Air (Fin 2)} (ready : Ready air) (quiet : air.flight 0 1 = []) (n : Nat) :
    ∃ last, Rounds (airNet talks pairAddr) (Step talks pairAddr addrHash) air n last := by
  have run : ∀ {air : Air (Fin 2)}, Ready air → air.flight 0 1 = [] → ∃ next,
      Run (Step talks pairAddr addrHash) air pairLabels next ∧ Ready next ∧ next.flight 0 1 = [] := by
    intro air ready quiet
    obtain ⟨first, clean, ready, flight⟩ := ready_cleans ready 0
    obtain ⟨second, cleans, ready, flight'⟩ := ready_cleans ready 1
    obtain ⟨third, parcel, sends, ready, sent, action⟩ :=
      ready_sends ready (by rw [flight', flight, quiet])
    obtain ⟨fourth, hears, ready, empty⟩ := ready_hears ready sent action
    exact ⟨fourth, .cons clean (.cons cleans (.cons sends (.cons hears (.nil fourth)))), ready, empty⟩
  have grows : ∃ last, Rounds (airNet talks pairAddr) (Step talks pairAddr addrHash) air n last ∧
      Ready last ∧ last.flight 0 1 = [] := by
    induction n with
    | zero => exact ⟨air, .zero, ready, quiet⟩
    | succ n ih =>
        obtain ⟨middle, rounds, ready, quiet⟩ := ih
        obtain ⟨last, labels, ready', quiet'⟩ := run ready quiet
        refine ⟨last, rounds.succ labels (pair_round _ ?_), ready', quiet'⟩
        show ((middle.flight 0 1).filterMap Parcel.snapshot).length = 0
        rw [quiet]
        rfl
  obtain ⟨last, rounds, -⟩ := grows
  exact ⟨last, rounds⟩

def pairInit (i : Fin 2) : DaemonState :=
  daemonInit (Fixed.replicate _ 0) (fun _ => pingFrame) [0x6f, 0x77, 0x6c] (pairAddr i) chanOpclass6 0
    false

def pairSender : DaemonState := pairInit 0

def pairArpa : List UInt8 := (awdlInitArpaTlv pairSender.awdlState).toOption.getD []

def pairParcel : Parcel :=
  ⟨actionMac steadyClock pairSender.awdlState pairSender.ieee80211State .mif pairArpa,
    .election pairSender.awdlState.election⟩

def pairMif : Buf := ⟨ieee80211InitRadiotapHeader ++ pairParcel.mac, by decide +kernel⟩

theorem pairInit_booted (i : Fin 2) : Booted addrHash (pairAddr i) (pairInit i) :=
  ⟨_, _, _, _, _, _, [], by decide, .start⟩

theorem pairParcel_sent : Sent (pairAddr 0) pairParcel :=
  .action steadyClock _ _ .mif _ (pairInit_booted 0).announces.2.2.1 rfl rfl

theorem pair_leads : Leads (Hears talks) pairAddr (fun _ => 60) 0 := by
  rw [leads_iff]
  refine ⟨fun _ => le_refl _, ?_⟩
  rintro j ⟨⟨-, never⟩, -⟩
  cases never

theorem pair_yields : ¬ Leads (Hears talks) pairAddr (fun _ => 60) 1 := by
  intro leads
  rw [leads_iff] at leads
  exact leads.2 0 ⟨⟨rfl, rfl⟩, by decide⟩ (by decide) pair_leads

/-- The second daemon has received the MIF twice. -/
theorem pair_ready : ∃ air, Ready air ∧ (∀ i, Booted addrHash (pairAddr i) (air.daemon i)) ∧
    ∀ j i, air.flight j i = [] := by
  have shown : ((perform addrHash (pairInit 1) (.receiveFrame zeroEnv pairMif)).bind fun first =>
      (perform addrHash first.1 (.receiveFrame zeroEnv pairMif)).map fun second =>
        decide ((addPeer addrHash zeroEnv (pairInit 1).awdlState (pairAddr 0)).1 ≠ .internal ∧
          (addPeer addrHash zeroEnv first.1.awdlState (pairAddr 0)).1 ≠ .internal ∧
          second.1.awdlState.filterRssi = false) &&
        (second.1.awdlState.peers.peers.contents (pairAddr 0)).any Peer.isValid).toOption =
          some true := by
    decide +kernel
  obtain ⟨⟨first, report⟩, heard, rest⟩ := toOption_bind_some shown
  obtain ⟨⟨second, report'⟩, again, seen⟩ := toOption_map_some rest
  simp only [Bool.and_eq_true, decide_eq_true_eq, Option.any_eq_true] at seen
  obtain ⟨⟨room, room', unfiltered⟩, peer, present, valid⟩ := seen
  have inside : Turn.Inside (.receiveFrame zeroEnv pairMif) := byteRadiotap_inside
  have run := (Performed.start.step _ inside heard).step _ inside again
  have booted : Booted addrHash (pairAddr 1) second := ⟨_, _, _, _, _, _, _, by decide, run⟩
  have fresh : ∀ i, Member talks pairAddr addrHash i (pairInit i) := by
    intro i
    obtain ⟨apart, aligned, announces, -⟩ := (pairInit_booted i).announces
    exact ⟨apart, aligned, announces, fun source peer present _ => by cases present⟩
  have carries : Carries zeroEnv pairMif pairParcel :=
    header_carries rfl (pairParcel_sent.length (by decide)).1
  have once := receive_member (fresh 1) ⟨rfl, rfl⟩ pairParcel_sent inside carries room heard
  have member := receive_member once ⟨rfl, rfl⟩ pairParcel_sent inside carries room' again
  have waits : ∀ {state after : DaemonState} {report : Report},
      Member talks pairAddr addrHash 1 state → Waiting state →
      perform addrHash state (.receiveFrame zeroEnv pairMif) = .ok (after, report) →
      Waiting after := by
    intro state after report member waiting performed
    exact (perform_moves ⟨waiting, member.apart, member.announces.terminated⟩ inside performed).2
  have waiting := waits once (waits (fresh 1) (daemonInit_waiting ..) heard) again
  refine ⟨⟨Function.update pairInit 1 second, fun _ _ => []⟩,
    ⟨⟨Fin.forall_fin_two.mpr ⟨fresh 0, member⟩, ?_⟩,
      Fin.forall_fin_two.mpr ⟨daemonInit_waiting .., waiting⟩, unfiltered, peer, present, valid⟩,
    Fin.forall_fin_two.mpr ⟨pairInit_booted 0, booted⟩, fun _ _ => rfl⟩
  intro j i parcel never
  cases never

theorem daemons_form_clusters_pair : ∃ start air : Air (Fin 2),
    Rounds (airNet talks pairAddr) (Step talks pairAddr addrHash) start 25 air ∧
      (air.daemon 1).awdlState.election.masterAddr = pairAddr 0 := by
  obtain ⟨start, ready, booted, quiet⟩ := pair_ready
  obtain ⟨air, rounds⟩ := ready_rounds ready (quiet 0 1) 25
  have enough : Nat.card (Fin 2) + 23 = 25 := by rw [Nat.card_fin]
  refine ⟨start, air, rounds, ?_⟩
  obtain ⟨leads, -⟩ | ⟨M, -, link, master, -⟩ := daemons_form_clusters addrHash (by decide) start air
    air booted (fun j i parcel present => by rw [quiet j i] at present; cases present)
    (fun i => (ready.genuine.members i).known) (enough ▸ rounds) [] (.nil air) 1
  · exact absurd leads pair_yields
  · obtain ⟨rfl, -⟩ := link
    exact master

end Pair

end Owl.DaemonNetwork
