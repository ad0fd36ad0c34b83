import Owl.DaemonNetwork
import Mathlib.Logic.Relation

/-!
The tunnel between the hosts. Whatever the daemons of a network receive besides and
in whatever order their handlers run, the frames that a daemon hands to its host
because of frames of a neighbour are frames that the neighbour has read from its own
host. None is altered but for the type, none is made up or handed over twice, and
multicast frames come in the order in which they were read, as do unicast frames.
Frames may get lost on the way. The air repeats none and keeps the order of a link;
`awdl_rx` would not notice a repeated frame.
-/

namespace Owl.Tunnel

open Bytes Ether Siphash Channel Peers PeersRefine Wire State Frames Tx Rx RxSpec RxData CircularBuffer
  Schedule Daemon Transmit TransmitQueues DaemonRun RoundTrip ActionRoundTrip DaemonTrace EventLoop
  DaemonNetwork

section Lanes

structure Lane where
  holds : Buf → Bool
  queue : DaemonState → List Buf

def multicastLane : Lane := ⟨isMulticast, fun state => contents state.txQueueMulticast⟩

def unicastLane : Lane := ⟨isUnicast, fun state => state.next.toList⟩

def lanes : List Lane := [multicastLane, unicastLane]

/-- Nothing overtakes in the lane, and nothing is in it that was not read. -/
def Passes (lane : Lane) (before : DaemonState) (events : List TxEvent) (after : DaemonState) : Prop :=
  ((framesHanded events).filter lane.holds ++ lane.queue after).Sublist
    (lane.queue before ++ (framesRead events).filter lane.holds)

variable {lane : Lane}

theorem Passes.trans {first second third : DaemonState} {early late : List TxEvent}
    (left : Passes lane first early second) (right : Passes lane second late third) :
    Passes lane first (early ++ late) third := by
  unfold Passes at *
  rw [framesHanded_append, framesRead_append, List.filter_append, List.filter_append, List.append_assoc,
    ← List.append_assoc (lane.queue first)]
  refine (right.append_left _).trans ?_
  rw [← List.append_assoc]
  exact left.append_right _

theorem fifo_sublist {before input output after : List Buf} (fifo : Fifo before input output after) :
    (output ++ after).Sublist (before ++ input) := by
  rw [show output ++ after = before ++ input from fifo]

theorem handed_consumed (events : List TxEvent) : (framesHanded events).Sublist (framesConsumed events) := by
  induction events with
  | nil => exact .slnil
  | cons event rest ih =>
      cases event with
      | awdlSendData frame bytes => exact ih.cons_cons frame
      | hostSend frame => exact ih.cons frame
      | drop frame => exact ih.cons frame
      | _ => exact ih

theorem moves_passes {before after : DaemonState} {events : List TxEvent}
    (moves : Moves before events after) (known : lane ∈ lanes) : Passes lane before events after := by
  obtain rfl | rfl : lane = multicastLane ∨ lane = unicastLane := by simpa [lanes] using known
  · exact fifo_sublist moves.multicast
  · exact (((handed_consumed events).filter _).append_right _).trans (fifo_sublist moves.unicast)

theorem shifts_passes {before after : DaemonState} {events : List TxEvent}
    (shifts : Shifts before events after) (known : lane ∈ lanes) : Passes lane before events after := by
  induction shifts with
  | moves moves short => exact moves_passes moves known
  | lost buf short state => exact List.sublist_append_left _ _
  | trans left right first second => exact first.trans second

theorem shifts_short {before after : DaemonState} {events : List TxEvent}
    (shifts : Shifts before events after) :
    ∀ frame ∈ framesRead events, frame.bytes.length ≤ etherMaxLen := by
  induction shifts with
  | moves moves short => exact short
  | lost buf short state => exact fun frame member => List.mem_singleton.mp member ▸ short
  | trans left right first second =>
      intro frame member
      rw [framesRead_append] at member
      exact (List.mem_append.mp member).elim (first frame) (second frame)

/-- Every frame has its lane. -/
theorem lane_of (frame : Buf) : ∃ lane ∈ lanes, lane.holds frame = true := by
  by_cases group : isMulticast frame = true
  · exact ⟨multicastLane, by simp [lanes], group⟩
  · exact ⟨unicastLane, by simp [lanes], by simpa [unicastLane, isUnicast] using group⟩

end Lanes

section Frames

def tunneled (frame : Buf) : List UInt8 :=
  frame.bytes.take 12 ++ (be16 ethPIpv6 ++ frame.bytes.drop 14)

/-- The buffer starts with the frame; what stands behind it is of no meaning. -/
def Arrived (frame out : Buf) : Prop := 14 ≤ frame.bytes.length ∧ (tunneled frame).IsPrefix out.bytes

theorem bytes_ofBytes (bytes : List UInt8) (whole : 6 ≤ bytes.length) :
    (EtherAddr.ofBytes (slice bytes 0 6)).bytes = slice bytes 0 6 := by
  match bytes, whole with
  | _ :: _ :: _ :: _ :: _ :: _ :: _, _ => rfl

theorem tunnel_ethernet {frame : Buf} (whole : 14 ≤ frame.bytes.length) (sender : AwdlState) :
    (dataSubframe (EtherAddr.ofBytes (slice frame.bytes 0 6)) (EtherAddr.ofBytes (slice frame.bytes 6 6))
      sender (frame.bytes.drop 14)).ethernet = tunneled frame := by
  obtain ⟨-, ethernet, -⟩ := dataSubframe_fields (EtherAddr.ofBytes (slice frame.bytes 0 6))
    (EtherAddr.ofBytes (slice frame.bytes 6 6)) sender (frame.bytes.drop 14)
  have target : (EtherAddr.ofBytes (slice frame.bytes 0 6)).bytes = frame.bytes.take 6 :=
    bytes_ofBytes frame.bytes (by omega)
  have source : (EtherAddr.ofBytes (slice frame.bytes 6 6)).bytes = (frame.bytes.drop 6).take 6 :=
    bytes_ofBytes (frame.bytes.drop 6) (by rw [List.length_drop]; omega)
  rw [ethernet, target, source, tunneled, ← List.append_assoc, ← List.take_add]

/-- A tunneled frame brings at most itself. -/
theorem tunnel_delivered (hash : EtherAddr → UInt64) (peers : PeerMap) (frame : Buf) (sender : AwdlState)
    (ieee80211State : Ieee80211State) (mac : Buf)
    (bytes : mac.bytes = tunnelMac frame sender ieee80211State) :
    (delivered hash peers mac).Sublist [dataSubframe (EtherAddr.ofBytes (slice frame.bytes 0 6))
      (EtherAddr.ofBytes (slice frame.bytes 6 6)) sender (frame.bytes.drop 14)] := by
  have source : macSource mac = EtherAddr.ofBytes (slice frame.bytes 6 6) := by
    rw [macSource, bytes]
    exact ofBytes_bytes _ []
  have target : macTarget mac = EtherAddr.ofBytes (slice frame.bytes 0 6) := by
    rw [macTarget, bytes]
    exact ofBytes_bytes _ []
  have control : macFc mac = 0x0008 := by
    rw [macFc, bytes]
    rfl
  have single : carried mac = .single (mac.drop 24) := by
    rw [carried, control]
    rfl
  have body : (mac.drop 24).bytes = (dataSubframe (EtherAddr.ofBytes (slice frame.bytes 0 6))
      (EtherAddr.ofBytes (slice frame.bytes 6 6)) sender (frame.bytes.drop 14)).body := by
    rw [drop_bytes, bytes]
    rfl
  rw [delivered, single]
  dsimp only
  rw [source, target, body]
  exact List.filter_sublist.trans (List.takeWhile_sublist _)

end Frames

section Reception

variable {hash : EtherAddr → UInt64} {env : RxEnv} {frame : Buf} {parcel : Parcel} {source : EtherAddr}
  {state after : DaemonState} {report : Report}

inductive Brings (parcel : Parcel) : List Buf → Prop where
  | nothing : Brings parcel []
  | frame (frame out : Buf) (load : parcel.tunneled = some frame)
      (arrived : frame.bytes.length ≤ etherMaxLen → Arrived frame out) : Brings parcel [out]

theorem receive_sends
    (performed : perform hash state (.receiveFrame env frame) = .ok (after, report)) :
    report.events = [] := by
  obtain ⟨outcome, -, -, rfl⟩ := perform_received performed
  rfl

theorem receive_brings (sent : Sent source parcel) (inside : RadiotapInside env)
    (carries : Carries env frame parcel)
    (performed : perform hash state (.receiveFrame env frame) = .ok (after, report)) :
    Brings parcel report.host := by
  obtain ⟨outcome, run, -, rfl⟩ := perform_received performed
  suffices brings : Brings parcel outcome.outputs by
    show Brings parcel (hostFrames outcome)
    unfold hostFrames
    split
    · exact brings
    · exact .nothing
  rcases awdlRx_cases false hash env frame state.awdlState (inside _) with
    ⟨-, ignored, quiet, -, silent, -⟩ | ⟨mac, received, -, dispatched⟩
  · rw [quiet] at run
    cases run
    rw [silent]
    exact .nothing
  · obtain ⟨handed, delivers, outputs, -⟩ := dispatch_delivers hash env (radiotapParse env frame).2.1
      mac state.awdlState (macFrame_length env frame _ received)
    rw [dispatched, delivers] at run
    cases run
    rw [outputs]
    have bytes := carries mac received
    cases sent with
    | action txEnv sender ieee80211State type arpa announces self built =>
        obtain ⟨-, action, -⟩ := actionMac_fields txEnv sender ieee80211State type arpa mac bytes
        have nothing : carried mac = .nothing := by
          rw [carried, action]
          rfl
        rw [delivered, nothing]
        exact .nothing
    | data frame sender ieee80211State whole =>
        have few := tunnel_delivered hash state.awdlState.peers.peers frame sender ieee80211State mac bytes
        rcases List.sublist_singleton.mp few with none | one
        · rw [none]
          exact .nothing
        · rw [one]
          refine .frame frame _ rfl fun short => ⟨whole, ?_⟩
          have max : etherMaxLen = 1518 := rfl
          have start := output_take (dataSubframe (EtherAddr.ofBytes (slice frame.bytes 0 6))
            (EtherAddr.ofBytes (slice frame.bytes 6 6)) sender (frame.bytes.drop 14)) (env.output 0) (by
              rw [(dataSubframe_fields _ _ _ _).2.2, List.length_drop]
              omega)
          rw [tunnel_ethernet whole] at start
          rw [← start]
          exact List.take_prefix _ _

end Reception

section Network

variable {Node : Type} [DecidableEq Node] (links : Node → Node → Prop) [DecidableRel links]
  (addr : Node → EtherAddr) (hash : EtherAddr → UInt64)

structure Tunnels (Node : Type) extends Air Node where
  /-- What a daemon has read from its host. -/
  read : Node → List Buf
  /-- What the second daemon has handed to its host of frames of the first. -/
  handed : Node → Node → List Buf

inductive Step : Tunnels Node → Tunnels Node → Prop where
  /-- Any call; a frame that is received here comes from elsewhere. -/
  | call (net : Tunnels Node) (i : Node) (turn : Turn) (inside : turn.Inside) (after : DaemonState)
      (report : Report) (performed : perform hash (net.daemon i) turn = .ok (after, report)) :
      Step net
        { daemon := Function.update net.daemon i after
          flight := putOnAir links net.toAir i
            (parcels (net.daemon i).awdlState.election report.events)
          read := Function.update net.read i (net.read i ++ framesRead report.events)
          handed := net.handed }
  | lose (net : Tunnels Node) (j i : Node) (earlier later : List Parcel) (lost : Parcel)
      (flight : net.flight j i = earlier ++ lost :: later) :
      Step net { net with flight := replaceFlight net.toAir j i (earlier ++ later) }
  | receive (net : Tunnels Node) (j i : Node) (parcel : Parcel) (later : List Parcel)
      (flight : net.flight j i = parcel :: later) (env : RxEnv) (frame : Buf)
      (inside : RadiotapInside env) (carries : Carries env frame parcel) (after : DaemonState)
      (report : Report)
      (performed : perform hash (net.daemon i) (.receiveFrame env frame) = .ok (after, report)) :
      Step net
        { net with
          daemon := Function.update net.daemon i after
          flight := replaceFlight net.toAir j i later
          handed := fun source target => if source = j ∧ target = i then
            net.handed source target ++ report.host else net.handed source target }

structure Able (own : EtherAddr) (state : DaemonState) : Prop where
  fit : Fit hash own state
  announces : Announces state.awdlState state.ieee80211State

/-- What has arrived and what is still on the air has been read before what waits. -/
def InOrder (read handed : List Buf) (flight : List Parcel) (state : DaemonState) : Prop :=
  ∃ arrived, List.Forall₂ Arrived arrived handed ∧ ∀ lane ∈ lanes,
    ((arrived ++ flight.filterMap Parcel.tunneled).filter lane.holds ++ lane.queue state).Sublist
      (read.filter lane.holds)

structure Tidy (net : Tunnels Node) : Prop where
  able : ∀ i, Able hash (addr i) (net.daemon i)
  flight : ∀ j i, ∀ parcel ∈ net.flight j i, Sent (addr j) parcel
  short : ∀ j, ∀ frame ∈ net.read j, frame.bytes.length ≤ etherMaxLen
  order : ∀ j i, InOrder (net.read j) (net.handed j i) (net.flight j i) (net.daemon j)

section Order

variable {read handed : List Buf} {flight : List Parcel} {before after : DaemonState}

theorem parcels_handed (election : Election.ElectionState) (events : List TxEvent) :
    ((parcels election events).filterMap Parcel.tunneled).Sublist (framesHanded events) := by
  induction events with
  | nil => exact .slnil
  | cons event rest ih =>
      cases event with
      | awdlSendData frame bytes =>
          cases bytes with
          | none => exact ih.cons frame
          | some bytes => exact ih.cons_cons frame
      | _ => exact ih

/-- A call of the sender, which puts some of its frames on this link. -/
theorem InOrder.call {events : List TxEvent} (more : List Parcel)
    (order : InOrder read handed flight before) (shifts : Shifts before events after)
    (few : (more.filterMap Parcel.tunneled).Sublist (framesHanded events)) :
    InOrder (read ++ framesRead events) handed (flight ++ more) after := by
  obtain ⟨arrived, outputs, order⟩ := order
  refine ⟨arrived, outputs, ?_⟩
  intro lane known
  have sent := few.filter lane.holds
  have passes := shifts_passes shifts known
  have past := (order lane known).append_right ((framesRead events).filter lane.holds)
  rw [List.filterMap_append, ← List.append_assoc]
  simp only [List.filter_append, List.append_assoc] at past ⊢
  exact (((((sent.append_right _).trans passes).append_left _).append_left _)).trans past

/-- Frames get lost on the link. -/
theorem InOrder.lose {left : List Parcel} (order : InOrder read handed flight before)
    (some : left.Sublist flight) : InOrder read handed left before := by
  obtain ⟨arrived, outputs, order⟩ := order
  refine ⟨arrived, outputs, ?_⟩
  intro lane known
  exact ((((some.filterMap _).append_left _).filter _).append_right _).trans (order lane known)

/-- The first frame on the link is received. -/
theorem InOrder.receive {parcel : Parcel} {later : List Parcel} {outputs : List Buf}
    (order : InOrder read handed (parcel :: later) before) (brings : Brings parcel outputs)
    (short : ∀ frame ∈ read, frame.bytes.length ≤ etherMaxLen) :
    InOrder read (handed ++ outputs) later before := by
  cases brings with
  | nothing =>
      rw [List.append_nil]
      exact order.lose (List.sublist_cons_self parcel later)
  | frame frame out load arrives =>
      obtain ⟨arrived, outputs, order⟩ := order
      have shape : ∀ rest, arrived ++ (parcel :: rest).filterMap Parcel.tunneled =
          arrived ++ [frame] ++ rest.filterMap Parcel.tunneled := by
        intro rest
        rw [List.filterMap_cons_some load, List.append_assoc]
        rfl
      have read' : frame ∈ read := by
        obtain ⟨lane, known, holds⟩ := lane_of frame
        have inside := order lane known
        rw [shape] at inside
        have member : frame ∈ (arrived ++ [frame] ++ later.filterMap Parcel.tunneled).filter lane.holds ++
            lane.queue before := by simp [holds]
        exact (List.mem_filter.mp (inside.subset member)).1
      refine ⟨arrived ++ [frame], ?_, ?_⟩
      · exact List.rel_append outputs (.cons (arrives (short frame read')) .nil)
      · intro lane known
        rw [← shape]
        exact order lane known

end Order

section Runs

variable {links addr hash} {own : EtherAddr} {state after : DaemonState} {turn : Turn} {report : Report}

theorem perform_able (able : Able hash own state) (inside : turn.Inside)
    (performed : perform hash state turn = .ok (after, report)) :
    Able hash own after ∧ Shifts state report.events after ∧
      ∀ parcel ∈ parcels state.awdlState.election report.events, Sent own parcel := by
  obtain ⟨shifts, -⟩ := perform_moves able.fit inside performed
  refine ⟨⟨perform_fit able.fit inside performed,
    perform_announces able.fit.apart inside able.announces performed⟩, shifts, ?_⟩
  intro parcel sent
  cases perform_deed inside performed with
  | received env frame outcome inside run => cases sent
  | cleaned now => cases sent
  | operated events after ops =>
      rw [← able.fit.apart.self]
      exact (ops_emits ops able.announces).sent parcel sent

theorem update_able {net : Tunnels Node} (tidy : Tidy addr hash net) {i : Node}
    (able : Able hash (addr i) after) (k : Node) :
    Able hash (addr k) (Function.update net.daemon i after k) := by
  by_cases same : k = i
  · subst same
    rwa [Function.update_self]
  · rw [Function.update_of_ne same]
    exact tidy.able k

theorem update_order {net : Tunnels Node} (tidy : Tidy addr hash net) {i : Node}
    (shifts : Shifts (net.daemon i) [] after) (j k : Node) :
    InOrder (net.read j) (net.handed j k) (net.flight j k) (Function.update net.daemon i after j) := by
  by_cases same : j = i
  · subst same
    rw [Function.update_self]
    have order := (tidy.order j k).call [] shifts .slnil
    rwa [List.append_nil, show framesRead [] = [] from rfl, List.append_nil] at order
  · rw [Function.update_of_ne same]
    exact tidy.order j k

theorem call_tidy {net : Tunnels Node} (tidy : Tidy addr hash net) (i : Node) (inside : turn.Inside)
    (performed : perform hash (net.daemon i) turn = .ok (after, report)) :
    Tidy addr hash
      { daemon := Function.update net.daemon i after
        flight := putOnAir links net.toAir i (parcels (net.daemon i).awdlState.election report.events)
        read := Function.update net.read i (net.read i ++ framesRead report.events)
        handed := net.handed } := by
  obtain ⟨able, shifts, sent⟩ := perform_able (tidy.able i) inside performed
  refine ⟨update_able tidy able, ?_, ?_, ?_⟩
  · intro j k parcel member
    dsimp only [putOnAir] at member
    split at member
    case isTrue same =>
      rcases List.mem_append.mp member with old | new
      · exact tidy.flight j k parcel old
      · exact same.1 ▸ sent parcel new
    case isFalse => exact tidy.flight j k parcel member
  · intro j frame member
    dsimp only at member
    by_cases same : j = i
    · subst same
      rw [Function.update_self] at member
      exact (List.mem_append.mp member).elim (tidy.short j frame) (shifts_short shifts frame)
    · rw [Function.update_of_ne same] at member
      exact tidy.short j frame member
  · intro j k
    dsimp only [putOnAir]
    by_cases same : j = i
    · subst same
      rw [Function.update_self, Function.update_self]
      split
      · exact (tidy.order j k).call _ shifts (parcels_handed _ _)
      · have order := (tidy.order j k).call [] shifts (List.nil_sublist _)
        rwa [List.append_nil] at order
    · rw [Function.update_of_ne same, Function.update_of_ne same, if_neg fun linked => same linked.1]
      exact tidy.order j k

theorem lose_tidy {net : Tunnels Node} (tidy : Tidy addr hash net) (j i : Node) {left : List Parcel}
    (some : left.Sublist (net.flight j i)) :
    Tidy addr hash { net with flight := replaceFlight net.toAir j i left } := by
  refine ⟨tidy.able, ?_, tidy.short, ?_⟩
  · exact replaceFlight_sent tidy.flight fun parcel member =>
      tidy.flight j i parcel (some.subset member)
  · intro l k
    dsimp only [replaceFlight]
    split
    case isTrue same =>
      obtain ⟨rfl, rfl⟩ := same
      exact (tidy.order l k).lose some
    case isFalse => exact tidy.order l k

theorem receive_tidy {net : Tunnels Node} (tidy : Tidy addr hash net) (j i : Node) {parcel : Parcel}
    {later : List Parcel} (flight : net.flight j i = parcel :: later) {env : RxEnv} {frame : Buf}
    (inside : RadiotapInside env) (carries : Carries env frame parcel)
    (performed : perform hash (net.daemon i) (.receiveFrame env frame) = .ok (after, report)) :
    Tidy addr hash
      { net with
        daemon := Function.update net.daemon i after
        flight := replaceFlight net.toAir j i later
        handed := fun source target => if source = j ∧ target = i then
          net.handed source target ++ report.host else net.handed source target } := by
  have fromAir : ∀ other ∈ parcel :: later, Sent (addr j) other := flight ▸ tidy.flight j i
  obtain ⟨able, shifts, -⟩ := perform_able (tidy.able i)
    (show Turn.Inside (.receiveFrame env frame) from inside) performed
  have brings := receive_brings (fromAir parcel List.mem_cons_self) inside carries performed
  rw [receive_sends performed] at shifts
  refine ⟨update_able tidy able, ?_, tidy.short, ?_⟩
  · exact replaceFlight_sent tidy.flight fun other member =>
      fromAir other (List.mem_cons_of_mem _ member)
  · intro l k
    have order := update_order tidy shifts l k
    dsimp only [replaceFlight]
    split
    case isTrue same =>
      obtain ⟨rfl, rfl⟩ := same
      rw [flight] at order
      exact order.receive brings (tidy.short l)
    case isFalse => exact order

theorem step_call (links : Node → Node → Prop) [DecidableRel links] (net : Tunnels Node) (i : Node)
    (turn : Turn) (inside : turn.Inside)
    (performed : perform hash (net.daemon i) turn = .ok (after, report)) :
    ∃ next, Step links hash net next ∧ next.daemon = Function.update net.daemon i after ∧
      next.flight = putOnAir links net.toAir i
        (parcels (net.daemon i).awdlState.election report.events) :=
  ⟨_, .call net i turn inside after report performed, rfl, rfl⟩

theorem step_tidy {before after : Tunnels Node} (tidy : Tidy addr hash before)
    (step : Step links hash before after) : Tidy addr hash after := by
  cases step with
  | call i turn inside state report performed => exact call_tidy tidy i inside performed
  | lose j i earlier later lost flight =>
      exact lose_tidy tidy j i (flight ▸ (List.sublist_cons_self lost later).append_left earlier)
  | receive j i parcel later flight env frame inside carries state report performed =>
      exact receive_tidy tidy j i flight inside carries performed

structure Fresh (addr : Node → EtherAddr) (net : Tunnels Node) : Prop where
  daemon : ∀ i, ∃ memory slots hostname chan now filterRssi,
    0 ∈ (strncpyName memory hostname).toList ∧
      net.daemon i = daemonInit memory slots hostname (addr i) chan now filterRssi
  flight : ∀ j i, net.flight j i = []
  read : ∀ i, net.read i = []
  handed : ∀ j i, net.handed j i = []

omit [DecidableEq Node] in
theorem Fresh.tidy {net : Tunnels Node} (fresh : Fresh addr net) : Tidy addr hash net := by
  refine ⟨?_, ?_, ?_, ?_⟩
  · intro i
    obtain ⟨memory, slots, hostname, chan, now, filterRssi, terminated, same⟩ := fresh.daemon i
    have booted : Booted hash (addr i) (net.daemon i) :=
      ⟨memory, slots, hostname, chan, now, filterRssi, [], terminated, same ▸ .start⟩
    obtain ⟨apart, -, announces, -⟩ := booted.announces
    exact ⟨⟨same ▸ daemonInit_waiting .., apart, announces.terminated⟩, announces⟩
  · intro j i parcel member
    rw [fresh.flight j i] at member
    cases member
  · intro j frame member
    rw [fresh.read j] at member
    cases member
  · intro j i
    obtain ⟨memory, slots, hostname, chan, now, filterRssi, -, same⟩ := fresh.daemon j
    refine ⟨[], by rw [fresh.handed j i]; exact .nil, ?_⟩
    intro lane known
    have vacant : lane.queue (net.daemon j) = [] := by
      obtain rfl | rfl : lane = multicastLane ∨ lane = unicastLane := by simpa [lanes] using known
      · rw [same]
        exact daemonInit_contents memory slots hostname (addr j) chan now filterRssi
      · rw [same]
        rfl
    rw [fresh.flight j i, vacant]
    exact List.nil_sublist _

theorem runs_tidy {start net : Tunnels Node} (tidy : Tidy addr hash start)
    (run : Relation.ReflTransGen (Step links hash) start net) : Tidy addr hash net := by
  induction run with
  | refl => exact tidy
  | tail run step ih => exact step_tidy ih step

/-- What a daemon has handed to its host of frames of another one are frames that the other one
has read from its host, in the order in which it read those of each kind. -/
theorem frames_arrive_in_order (hash : EtherAddr → UInt64) {start net : Tunnels Node}
    (fresh : Fresh addr start) (run : Relation.ReflTransGen (Step links hash) start net) (j i : Node) :
    ∃ arrived, List.Forall₂ Arrived arrived (net.handed j i) ∧
      (arrived.filter isMulticast).Sublist ((net.read j).filter isMulticast) ∧
      (arrived.filter isUnicast).Sublist ((net.read j).filter isUnicast) := by
  obtain ⟨arrived, outputs, order⟩ := (runs_tidy fresh.tidy run).order j i
  have kept : ∀ lane ∈ lanes, (arrived.filter lane.holds).Sublist ((net.read j).filter lane.holds) := by
    intro lane known
    refine List.Sublist.trans ?_ (order lane known)
    rw [List.filter_append, List.append_assoc]
    exact List.sublist_append_left _ _
  exact ⟨arrived, outputs, kept multicastLane (by simp [lanes]), kept unicastLane (by simp [lanes])⟩

end Runs

end Network

/-! A multicast frame of the first of two daemons gets to the host of the second. -/
section Pair

def groupRead : HostRead :=
  ⟨Fixed.replicate _ 0, etherBroadcast.bytes ++ (peerAddr.bytes ++ (be16 ethPIpv6 ++ [0x60, 0, 0, 0])),
    by decide⟩

def groupMac : List UInt8 :=
  tunnelMac ⟨groupRead.bytes, by decide⟩ pairSender.awdlState pairSender.ieee80211State

def groupFrame : Buf := ⟨ieee80211InitRadiotapHeader ++ groupMac, by decide +kernel⟩

def pairStart : Tunnels (Fin 2) := ⟨⟨pairInit, fun _ _ => []⟩, fun _ => [], fun _ _ => []⟩

theorem pairStart_fresh : Fresh pairAddr pairStart :=
  ⟨fun _ => ⟨_, _, _, _, _, _, by decide, rfl⟩, fun _ _ => rfl, fun _ => rfl, fun _ _ => rfl⟩

theorem frames_arrive_in_order_group : ∃ net : Tunnels (Fin 2), net.handed 0 1 ≠ [] ∧
    ∃ arrived, List.Forall₂ Arrived arrived (net.handed 0 1) ∧
      (arrived.filter isMulticast).Sublist ((net.read 0).filter isMulticast) ∧
      (arrived.filter isUnicast).Sublist ((net.read 0).filter isUnicast) := by
  have shown : ((perform addrHash (pairInit 1) (.receiveFrame zeroEnv pairMif)).bind fun met =>
      (perform addrHash (pairInit 0) (.hostDeviceReady .bits64 [groupRead] 32768 32768)).bind fun sent =>
        (perform addrHash met.1 (.receiveFrame zeroEnv groupFrame)).map fun got =>
          decide ((parcels (pairInit 0).awdlState.election sent.2.events).map Parcel.mac =
            [groupMac] ∧ got.2.host ≠ [])).toOption = some true := by
    decide +kernel
  obtain ⟨⟨met, first⟩, heard, rest⟩ := toOption_bind_some shown
  obtain ⟨⟨sender, report⟩, sends, rest⟩ := toOption_bind_some rest
  obtain ⟨⟨receiver, last⟩, receives, seen⟩ := toOption_map_some rest
  obtain ⟨air, outputs⟩ := of_decide_eq_true seen
  obtain ⟨parcel, load, mac⟩ := List.map_eq_singleton_iff.mp air
  have inside : Turn.Inside (.receiveFrame zeroEnv pairMif) := byteRadiotap_inside
  have carries : Carries zeroEnv groupFrame parcel :=
    header_carries (congrArg (ieee80211InitRadiotapHeader ++ ·) mac.symm) (by
      rw [mac, groupMac, tunnelMac, dataMac_length]
      omega)
  have apart : (0 : Fin 2) ≠ 1 := by decide
  -- The second daemon gets to know the first, which then sends.
  obtain ⟨one, teach, daemons, flight⟩ := step_call talks pairStart 1 _ inside heard
  have knows : one.daemon 1 = met := by rw [daemons, Function.update_self]
  have other : one.daemon 0 = pairInit 0 := by
    rw [daemons, Function.update_of_ne apart]
    rfl
  have empty : one.flight 0 1 = [] := by
    rw [flight, putOnAir, if_neg fun linked => apart linked.1]
    rfl
  rw [← other] at sends load
  obtain ⟨two, send, daemons, flight⟩ := step_call talks one 0
    (.hostDeviceReady .bits64 [groupRead] 32768 32768) trivial sends
  have still : two.daemon 1 = met := by rw [daemons, Function.update_of_ne apart.symm, knows]
  have loaded : two.flight 0 1 = [parcel] := by
    rw [flight, putOnAir, if_pos ⟨rfl, rfl, rfl⟩, empty, load]
    rfl
  rw [← still] at receives
  have receive : Step talks addrHash two _ :=
    .receive two 0 1 parcel [] loaded zeroEnv groupFrame inside carries receiver last receives
  refine ⟨_, ?_, frames_arrive_in_order addrHash pairStart_fresh
    (((Relation.ReflTransGen.single teach).tail send).tail receive) 0 1⟩
  intro none
  dsimp only at none
  rw [if_pos ⟨rfl, rfl⟩] at none
  exact outputs (List.append_eq_nil_iff.mp none).2

end Pair

end Owl.Tunnel
