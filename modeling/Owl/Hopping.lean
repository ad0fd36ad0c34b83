import Owl.Counters
import Owl.LibevLoop
import Owl.PeerEntries

/-!
An event loop that keeps up with the clock: a timer goes off when it is due, and a
handler takes no time. As long as nobody moves the clock of the schedule, the card of
such a node was last told the channel that its sequence has for the present slot, and
a unicast frame goes out at a time at which the card of its receiver is on the same
channel, if the two schedules are less than the guard apart.
-/

namespace Owl.Hopping

open Bytes Ether Channel Sync SyncTransfer SyncClock Peers PeersRefine Wire State Frames Tx Rx RxSpec
  RxPeers CircularBuffer Schedule Daemon Transmit TransmitQueues DaemonRun ClockMaster Airtime
  DaemonTrace EventLoop Libev LibevLoop Siphash Counters PeerEntries RoundTrip ActionRoundTrip RxData

def clockAt (now : Nat) : UInt64 := UInt64.ofNat now

/-- Every reading of the clock on which a handler acts is the time of the loop. -/
def Reads (clock : UInt64) : Turn → Prop
  | .receiveFrame env _ => env.now = clock
  | .cleanPeers now => now = clock
  | .hostDeviceReady _ _ multicastNow unicastNow => multicastNow = clock ∧ unicastNow = clock
  | .sendUnicast _ now => now = clock
  | .sendMulticast _ now => now = clock
  | .sendPsf _ => True
  | .sendMif _ now => now = clock
  | .switchChannel _ _ now => now = clock

def Prompt (loop : Loop) : Happening → Prop
  | .wait later => (∀ timer due, loop.deadline timer = some due → later ≤ due) ∧
      later ≤ loop.peerDeadline ∧ later ≤ loop.psfDeadline
  | .timer _ turn => Reads (clockAt loop.now) turn
  | .peerTimer clock => clock = clockAt loop.now
  | .psfTimer _ => True
  | .device turn => Reads (clockAt loop.now) turn

theorem prompt_reads {loop : Loop} {happening : Happening} {turn : Turn}
    (prompt : Prompt loop happening) (called : turnOf happening = some turn) :
    Reads (clockAt loop.now) turn := by
  cases happening with
  | wait later => cases called
  | psfTimer env =>
      cases called
      trivial
  | _ =>
      cases called
      exact prompt

/-- The loop keeps up, and the step leaves the clock of the schedule alone. -/
def Still (loop : Loop) (happening : Happening) (next : Loop) : Prop :=
  Prompt loop happening ∧ clock next.state.awdlState.sync = clock loop.state.awdlState.sync

section Time

variable {sync : SyncState}

theorem position_later {now later : Nat} (forward : now ≤ later) :
    position (clockAt later) sync = (position (clockAt now) sync + (later - now)) % 2 ^ 30 := by
  have split : clockAt later = clockAt now + UInt64.ofNat (later - now) := by
    rw [clockAt, clockAt, ← UInt64.ofNat_add]
    congr 1
    omega
  rw [split, position_add, UInt64.toNat_ofNat']
  omega

def entryAt (now : Nat) (sync : SyncState) : Nat := position (clockAt now) sync / 65536 % 16

theorem slot_entry (long : LongWidth) (now : Nat) (regular : Regular sync) :
    slot long (clockAt now) sync = entryAt now sync := by
  rw [slot, currentEaw_position long _ regular]
  rfl

/-- Before the next border the entry stays. -/
theorem entryAt_stays {now later due : Nat} (forward : now ≤ later) (before : later < due)
    (near : due ≤ now + 65536) (border : position (clockAt due) sync % 65536 = 0) :
    entryAt later sync = entryAt now sync := by
  have point : position (clockAt now) sync < 2 ^ 30 := Nat.mod_lt _ (by decide)
  rw [position_later (Nat.le_of_lt (Nat.lt_of_le_of_lt forward before))] at border
  rw [entryAt, entryAt, position_later forward]
  generalize position (clockAt now) sync = here at point border
  omega

theorem position_clock {first second : SyncState} (same : clock first = clock second)
    (now : UInt64) : position now first = position now second := by
  simp only [clock, Prod.mk.injEq] at same
  obtain ⟨last, counter, -⟩ := same
  rw [position, position, last, counter]

end Time

section Radio

variable {hash : EtherAddr → UInt64} {state after : DaemonState}

theorem sentData_channel {frame : Buf} {state : AwdlState} {ieee80211State : Ieee80211State}
    {sent : Option (List UInt8) × AwdlState × Ieee80211State}
    (run : awdlSendData frame state ieee80211State = .ok sent) :
    sent.2.1.channel = state.channel := by
  obtain same | ⟨bytes, same, -⟩ := awdlSendData_cases frame state ieee80211State sent run
  · rw [same]
  · rw [same]

def channelTold : TxEvent → Option UInt8
  | .setChannel channel => some channel
  | _ => none

def Untuned (before : DaemonState) (events : List TxEvent) (after : DaemonState) : Prop :=
  after.awdlState.channel = before.awdlState.channel ∧ events.filterMap channelTold = []

theorem op_untuned {acts : Bool} {events : List TxEvent} (op : Op false acts state events after) :
    Untuned state events after := by
  cases op with
  | silent event silent =>
      refine ⟨rfl, ?_⟩
      cases event with
      | setChannel channel => cases silent
      | _ => rfl
  | queues next queue => exact ⟨rfl, rfl⟩
  | tune allowed current => cases allowed
  | unicast frame bytes awdlState ieee80211State sent =>
      exact ⟨sentData_channel sent, rfl⟩
  | multicast frame bytes awdlState ieee80211State sent =>
      exact ⟨sentData_channel sent, rfl⟩
  | action env type bytes ieee80211State built => exact ⟨rfl, rfl⟩

theorem ops_untuned {acts : Bool} {events : List TxEvent} (ops : Ops false acts state events after) :
    Untuned state events after := by
  induction ops with
  | nil state => exact ⟨rfl, rfl⟩
  | cons op rest ih =>
      obtain ⟨channel, untold⟩ := op_untuned op
      refine ⟨ih.1.trans channel, ?_⟩
      rw [List.filterMap_append, untold, ih.2]
      rfl

/-- Only the handler of the channel timer tunes the card. -/
theorem perform_untuned {own : EtherAddr} {turn : Turn} {report : Report}
    (apart : Apart hash own state.awdlState) (inside : turn.Inside)
    (other : timerOf turn ≠ some .chan)
    (performed : perform hash state turn = .ok (after, report)) :
    Untuned state report.events after := by
  have sends : ∀ run : Except Fault (DaemonState × List TxEvent), Ensures run (Operates false true state) →
      transmitting run = .ok (after, report) → Untuned state report.events after := by
    intro run ensures same
    have ops : Ops false true state report.events after := transmitting_ensures ensures same
    exact ops_untuned ops
  cases turn with
  | receiveFrame env frame =>
      obtain ⟨outcome, run, rfl, rfl⟩ := perform_received performed
      refine ⟨?_, rfl⟩
      obtain ⟨stats, same⟩ := afterReceive_eq outcome
      show (afterReceive outcome).channel = _
      rw [same]
      obtain ⟨node, -⟩ | ⟨mac, -, effect⟩ :=
        awdlRx_changes hash env state.awdlState inside apart.valid.table run
      · rw [node]
      · obtain ⟨-, _, _, _, configured⟩ := actionEffect_touched effect
        rw [configured]
        rfl
  | cleanPeers now =>
      cases performed
      exact ⟨rfl, rfl⟩
  | hostDeviceReady long reads multicastNow unicastNow =>
      exact sends _ (hostDeviceReady_ops false true hash long multicastNow state reads unicastNow) performed
  | sendUnicast long now => exact sends _ (awdlSendUnicast_ops false true hash long now state) performed
  | sendMulticast long now => exact sends _ (awdlSendMulticast_ops false true long now state) performed
  | sendPsf env => exact sends _ (awdlSendAction_ops false state env .psf) performed
  | sendMif env now => exact sends _ (awdlSendMif_ops false now state env) performed
  | switchChannel long wlanIsFile now => exact absurd rfl other

def Sets : Happening → Timer → Prop
  | .timer timer _, other => other = timer
  | .device turn, timer => Arms turn timer
  | _, _ => False

theorem step_keeps_deadline {loop next : Loop} {happening : Happening} {reports : List Report}
    {timer : Timer} (step : Step hash loop happening reports next)
    (regular : Regular loop.state.awdlState.sync) (other : ¬ Sets happening timer) :
    next.deadline timer = loop.deadline timer := by
  cases step with
  | timer fired due turn armed reached handler performed =>
      have spares := (perform_serving (reach_covers regular turn) handler performed).spares timer other
      exact (applyEvents_spares spares _ _).trans (Function.update_of_ne other _ _)
  | device turn device inside performed =>
      have spares := (perform_device (reach_covers regular turn) device performed).2 timer other
      exact applyEvents_spares spares _ _
  | wait later forward => rfl
  | peerTimer clock reached performed => rfl
  | psfTimer env due reached passed near performed => rfl

end Radio

section Tuned

def planned (node : AwdlState) (now : Nat) : UInt8 :=
  chanInSlot node node.channel.sequence (entryAt now node.sync)

def currentChannel (node : AwdlState) : UInt8 := awdlChanNum node.channel.current node.channel.enc

theorem planned_eaw {node : AwdlState} (regular : Regular node.sync) (long : LongWidth) (now : Nat) :
    awdlChanNum (chanAt node.channel.sequence (awdlSyncCurrentEaw long (clockAt now) node.sync))
      node.channel.enc = planned node now := by
  rw [chanAt_slot, planned, chanInSlot, ← slot_entry long now regular]
  rfl

/-- The channel timer goes off at the next border of a slot, and before that the node is
where the sequence wants it; a null entry leaves it where it was. -/
structure Tuned (loop : Loop) (due : Nat) : Prop where
  armed : loop.deadline .chan = some due
  ahead : loop.now ≤ due
  near : due ≤ loop.now + 65536
  border : position (clockAt due) loop.state.awdlState.sync % 65536 = 0
  tuned : loop.now < due → planned loop.state.awdlState loop.now ≠ 0 →
    currentChannel loop.state.awdlState = planned loop.state.awdlState loop.now

theorem awdlSwitchChannel_current (long : LongWidth) (wlanIsFile : Bool) (now : Nat)
    (state : DaemonState) (regular : Regular state.awdlState.sync)
    (meant : planned state.awdlState now ≠ 0) :
    currentChannel (awdlSwitchChannel long wlanIsFile (clockAt now) state).1.awdlState =
      planned state.awdlState now := by
  have entry := planned_eaw regular long now
  unfold awdlSwitchChannel
  dsimp only
  rw [entry]
  split
  · exact entry
  case isFalse kept =>
    -- The channel is the old one already.
    exact (not_not.mp fun differs => kept ⟨meant, fun same => differs same.symm⟩)

theorem awdlSwitchChannel_arms (long : LongWidth) (wlanIsFile : Bool) (clock : UInt64)
    (state : DaemonState) :
    ∃ early, (awdlSwitchChannel long wlanIsFile clock state).2 =
      early ++ [.timerRearm .chan (usecToSec (awdlSyncNextAwUs long clock state.awdlState.sync))] := by
  unfold awdlSwitchChannel
  dsimp only
  split
  · exact ⟨_, rfl⟩
  · exact ⟨[], rfl⟩

/-- After the handler of the channel timer the node is tuned, whatever was before. -/
theorem awdlSwitchChannel_tuned (long : LongWidth) (wlanIsFile : Bool) (loop : Loop)
    (aligned : Aligned loop.state.awdlState.sync) (deadline : Deadlines) :
    ∃ due, Tuned { loop with
      state := (awdlSwitchChannel long wlanIsFile (clockAt loop.now) loop.state).1
      deadline := applyEvents loop.now
        (awdlSwitchChannel long wlanIsFile (clockAt loop.now) loop.state).2 deadline } due := by
  have switched := awdlSwitchChannel_current long wlanIsFile loop.now loop.state aligned.toRegular
  obtain ⟨_, _, _, same⟩ := awdlSwitchChannel_transmits long (clockAt loop.now) loop.state wlanIsFile
  obtain ⟨early, events⟩ := awdlSwitchChannel_arms long wlanIsFile (clockAt loop.now) loop.state
  have left := nextAwUs_phase long (clockAt loop.now) aligned.toRegular
  have inside := phase_lt (clockAt loop.now) loop.state.awdlState.sync
  have point := position_phase (clockAt loop.now) aligned
  have planSame : planned (awdlSwitchChannel long wlanIsFile (clockAt loop.now) loop.state).1.awdlState
      loop.now = planned loop.state.awdlState loop.now := by
    rw [same]
    rfl
  refine ⟨loop.now + (65536 - phase (clockAt loop.now) loop.state.awdlState.sync), ?_, ?_, ?_, ?_, ?_⟩
  · show applyEvents _ _ _ _ = _
    rw [events, applyEvents_rearm, usecToSec, left, Int.toNat_natCast]
  · exact Nat.le_add_right _ _
  · show loop.now + _ ≤ loop.now + 65536
    omega
  · show position _ (awdlSwitchChannel _ _ _ _).1.awdlState.sync % 65536 = 0
    rw [same]
    show position _ loop.state.awdlState.sync % 65536 = 0
    rw [position_later (Nat.le_add_right _ _)]
    omega
  · intro _ meant
    rw [planSame] at meant ⊢
    exact switched meant

theorem planned_congr {first second : AwdlState} (channel : first.channel = second.channel)
    (same : clock first.sync = clock second.sync) (now : Nat) :
    planned first now = planned second now := by
  unfold planned chanInSlot entryAt
  rw [channel, position_clock same]

variable {hash : EtherAddr → UInt64} {own : EtherAddr} {fixed : Settings} {loop next : Loop}
  {happening : Happening} {reports : List Report}

/-- Only the channel timer itself is set anew by its handler. -/
theorem step_sets_chan (step : Step hash loop happening reports next) (sets : Sets happening .chan) :
    ∃ turn, happening = .timer .chan turn := by
  cases step with
  | wait later forward => exact absurd sets id
  | timer timer due turn armed reached handler performed =>
      obtain rfl : Timer.chan = timer := sets
      exact ⟨turn, rfl⟩
  | peerTimer clock reached performed => exact absurd sets id
  | psfTimer env due reached passed near performed => exact absurd sets id
  | device turn device inside performed =>
      cases turn with
      | receiveFrame env frame => cases sets
      | hostDeviceReady long reads multicastNow unicastNow => obtain same | same := sets <;> cases same
      | _ => exact absurd device id

/-- A call that is not of the channel timer leaves the channel alone. -/
theorem step_untuned (step : Step hash loop happening reports next)
    (apart : Apart hash own loop.state.awdlState)
    (other : ∀ turn, happening ≠ .timer .chan turn) :
    Untuned loop.state (eventsOf reports) next.state := by
  obtain ⟨rfl, same, -⟩ | ⟨turn, report, called, inside, performed, rfl, -⟩ := step.called
  · rw [same]
    exact ⟨rfl, rfl⟩
  rw [show eventsOf [report] = report.events from List.append_nil _]
  refine perform_untuned apart inside (fun handler => ?_) performed
  cases step with
  | timer timer due fired armed reached handles _ =>
      obtain rfl := Option.some.inj called
      obtain rfl := Option.some.inj (handler.symm.trans handles)
      exact other _ rfl
  | peerTimer clock reached _ =>
      cases called
      cases handler
  | psfTimer env date reached passed near _ =>
      cases called
      cases handler
  | device turn device _ _ =>
      obtain rfl := Option.some.inj called
      cases turn with
      | receiveFrame env frame => cases handler
      | hostDeviceReady long reads multicastNow unicastNow => cases handler
      | _ => exact absurd device id

/-- The handler of the channel timer tunes the node. -/
theorem step_retunes {turn : Turn} (step : Step hash loop (.timer .chan turn) reports next)
    (aligned : Aligned loop.state.awdlState.sync) (prompt : Prompt loop (.timer .chan turn)) :
    ∃ due, Tuned next due := by
  cases step with
  | timer timer due turn armed reached handler performed =>
      cases turn with
      | switchChannel long wlanIsFile now =>
          obtain rfl : now = clockAt loop.now := prompt
          cases performed
          exact awdlSwitchChannel_tuned long wlanIsFile loop aligned _
      | _ => cases handler

/-- Without the handler of the channel timer, the node stays tuned to the next border. -/
theorem step_stays_tuned {due : Nat} (step : Step hash loop happening reports next)
    (poised : Poised hash own fixed loop.state.awdlState) (still : Still loop happening next)
    (other : ∀ turn, happening ≠ .timer .chan turn) (tuned : Tuned loop due) : Tuned next due := by
  obtain ⟨channel, -⟩ := step_untuned step poised.apart other
  have armed : next.deadline .chan = loop.deadline .chan := by
    refine step_keeps_deadline step poised.aligned.toRegular fun sets => ?_
    obtain ⟨turn, same⟩ := step_sets_chan step sets
    exact other turn same
  have plan := planned_congr channel still.2
  have currentSame : currentChannel next.state.awdlState = currentChannel loop.state.awdlState := by
    rw [currentChannel, currentChannel, channel]
  have border : position (clockAt due) next.state.awdlState.sync % 65536 = 0 := by
    rw [position_clock still.2]
    exact tuned.border
  -- Time passes, or the call takes none.
  have forward : loop.now ≤ next.now ∧ next.now ≤ due := by
    cases step with
    | wait later forward => exact ⟨forward, still.1.1 .chan due tuned.armed⟩
    | _ => exact ⟨Nat.le_refl _, tuned.ahead⟩
  refine ⟨armed.trans tuned.armed, forward.2, ?_, border, ?_⟩
  · have near := tuned.near
    omega
  · intro before meant
    have stays : planned loop.state.awdlState next.now = planned loop.state.awdlState loop.now := by
      rw [planned, planned, entryAt_stays forward.1 before tuned.near tuned.border]
    rw [currentSame, plan, stays]
    rw [plan, stays] at meant
    exact tuned.tuned (Nat.lt_of_le_of_lt forward.1 before) meant

def Hops (limit : Nat) (loop : Loop) : Prop :=
  (∃ due, Tuned loop due) ∨
    ∃ due, loop.deadline .chan = some due ∧ loop.now ≤ due ∧ due ≤ limit

theorem step_hops {limit : Nat} (step : Step hash loop happening reports next)
    (poised : Poised hash own fixed loop.state.awdlState) (still : Still loop happening next)
    (hops : Hops limit loop) : Hops limit next := by
  by_cases fires : ∃ turn, happening = .timer .chan turn
  · obtain ⟨turn, rfl⟩ := fires
    exact .inl (step_retunes step poised.aligned still.1)
  have other : ∀ turn, happening ≠ .timer .chan turn := fun turn same => fires ⟨turn, same⟩
  obtain ⟨due, tuned⟩ | ⟨due, armed, ahead, early⟩ := hops
  · exact .inl ⟨due, step_stays_tuned step poised still other tuned⟩
  · have kept : next.deadline .chan = loop.deadline .chan :=
      step_keeps_deadline step poised.aligned.toRegular fun sets =>
        fires (step_sets_chan step sets)
    refine .inr ⟨due, kept.trans armed, ?_, early⟩
    cases step with
    | wait later forward => exact still.1.1 .chan due armed
    | _ => exact ahead

theorem runs_hops {guard : Loop → Happening → Loop → Prop} {limit : Nat} {start : Loop}
    (still : ∀ loop happening next, guard loop happening next → Still loop happening next)
    (run : Runs hash guard start reports loop) (sound : Sound hash own fixed start)
    (hops : Hops limit start) : Hops limit loop := by
  induction run with
  | start => exact hops
  | step run step allowed ih =>
      exact step_hops step (run.sound sound).poised (still _ _ _ allowed) ih

def Ahead (now : Nat) (deadline : Deadlines) : Prop :=
  ∀ timer due, deadline timer = some due → now ≤ due

theorem applyEvents_ahead {now : Nat} {deadline : Deadlines} (ahead : Ahead now deadline)
    (events : List TxEvent) : Ahead now (applyEvents now events deadline) := by
  induction events generalizing deadline with
  | nil => exact ahead
  | cons event rest ih =>
      refine ih ?_
      cases event with
      | timerRearm timer delay =>
          intro other due armed
          by_cases same : other = timer
          · rw [applyEvent, rearm, same, Function.update_self, Option.some.injEq] at armed
            omega
          · rw [applyEvent, rearm, Function.update_of_ne same] at armed
            exact ahead other due armed
      | _ => exact ahead

theorem step_ahead (step : Step hash loop happening reports next) (prompt : Prompt loop happening)
    (ahead : Ahead loop.now loop.deadline) : Ahead next.now next.deadline := by
  cases step with
  | wait later forward => exact prompt.1
  | timer timer due turn armed reached handler performed =>
      refine applyEvents_ahead ?_ _
      intro other due armed
      by_cases same : other = timer
      · rw [same, Function.update_self] at armed
        cases armed
      · rw [Function.update_of_ne same] at armed
        exact ahead other due armed
  | peerTimer clock reached performed => exact ahead
  | psfTimer env due reached passed near performed => exact ahead
  | device turn device inside performed => exact applyEvents_ahead ahead _

theorem runs_ahead {guard : Loop → Happening → Loop → Prop} {start : Loop}
    (prompt : ∀ loop happening next, guard loop happening next → Prompt loop happening)
    (run : Runs hash guard start reports loop) (ahead : Ahead start.now start.deadline) :
    Ahead loop.now loop.deadline := by
  induction run with
  | start => exact ahead
  | step run step allowed ih => exact step_ahead step (prompt _ _ _ allowed) ih

theorem scheduled_ahead (now : Nat) (state : DaemonState) :
    Ahead (scheduled now state).now (scheduled now state).deadline := by
  intro timer due armed
  obtain rfl := Option.some.inj armed
  exact Nat.le_refl _

end Tuned

section Card

/-- The channel that `set_channel` was told last. -/
def radio (reports : List Report) : Option UInt8 :=
  ((eventsOf reports).filterMap channelTold).getLast?

def OnCard (happening : Happening) : Prop :=
  ∀ long wlanIsFile now, turnOf happening = some (.switchChannel long wlanIsFile now) →
    wlanIsFile = false

def Told (reports : List Report) (node : AwdlState) : Prop :=
  currentChannel node ≠ 0 → radio reports = some (currentChannel node)

theorem radio_append (early late : List Report) :
    radio (early ++ late) =
      (((eventsOf late).filterMap channelTold).getLast?).or (radio early) := by
  rw [radio, eventsOf_append, List.filterMap_append, List.getLast?_append]
  rfl

variable {hash : EtherAddr → UInt64} {own : EtherAddr} {fixed : Settings}

theorem awdlSwitchChannel_told (long : LongWidth) (now : UInt64) (state : DaemonState)
    {reports : List Report} (told : Told reports state.awdlState) :
    Told (reports ++ [⟨[], [], [], none, (awdlSwitchChannel long false now state).2⟩])
      (awdlSwitchChannel long false now state).1.awdlState := by
  intro tuned
  rw [radio_append, show eventsOf [_] = _ from List.append_nil _]
  unfold awdlSwitchChannel at tuned ⊢
  dsimp only at tuned ⊢
  split
  · rfl
  case isFalse kept =>
    rw [if_neg kept] at tuned
    exact told tuned

theorem step_told {before reports : List Report} {loop next : Loop} {happening : Happening}
    (step : Step hash loop happening reports next) (apart : Apart hash own loop.state.awdlState)
    (card : OnCard happening) (told : Told before loop.state.awdlState) :
    Told (before ++ reports) next.state.awdlState := by
  by_cases fires : ∃ turn, happening = .timer .chan turn
  · obtain ⟨turn, rfl⟩ := fires
    cases step with
    | timer timer due turn armed reached handler performed =>
        cases turn with
        | switchChannel long wlanIsFile now =>
            obtain rfl := card long wlanIsFile now rfl
            cases performed
            exact awdlSwitchChannel_told long now loop.state told
        | _ => cases handler
  · obtain ⟨channel, untold⟩ := step_untuned step apart fun turn same => fires ⟨turn, same⟩
    unfold Told
    rw [radio_append, untold, currentChannel, channel]
    exact told

theorem runs_told {guard : Loop → Happening → Loop → Prop}
    (card : ∀ loop happening next, guard loop happening next → OnCard happening)
    {start loop : Loop} {before reports : List Report} (run : Runs hash guard start reports loop)
    (sound : Sound hash own fixed start) (told : Told before start.state.awdlState) :
    Told (before ++ reports) loop.state.awdlState := by
  induction run with
  | start =>
      rw [List.append_nil]
      exact told
  | step run step allowed ih =>
      rw [← List.append_assoc]
      exact step_told step (run.sound sound).poised.apart (card _ _ _ allowed) ih

end Card

section OnAir

/-- The node with another channel sequence than the one that `awdl_init_state` chooses. -/
def withSequence (sequence : ChanSeq) (state : DaemonState) : DaemonState :=
  { state with awdlState := { state.awdlState with
      channel := { state.awdlState.channel with sequence := sequence } } }

variable (memory : Fixed UInt8 (hostNameLengthMax + 1)) (slots : Fin txQueueLength → Buf)
  (hostname : List UInt8) (self : EtherAddr) (chan : AwdlChan) (clock : UInt64) (filterRssi : Bool)
  (sequence : ChanSeq)

def hoppingInit : DaemonState :=
  withSequence sequence (daemonInit memory slots hostname self chan clock filterRssi)

theorem hoppingInit_apart (hash : EtherAddr → UInt64) :
    Apart hash self
      (hoppingInit memory slots hostname self chan clock filterRssi sequence).awdlState := by
  have apart := daemonInit_apart hash memory slots hostname self chan clock filterRssi
  exact ⟨⟨apart.valid.table, apart.valid.self, apart.valid.adds, apart.valid.removes⟩, apart.self,
    apart.absent⟩

theorem hoppingInit_sound (hash : EtherAddr → UInt64) (now : Nat) :
    Sound hash self
      (settings (hoppingInit memory slots hostname self chan clock filterRssi sequence).awdlState)
      (scheduled now (hoppingInit memory slots hostname self chan clock filterRssi sequence)) :=
  ⟨⟨hoppingInit_apart memory slots hostname self chan clock filterRssi sequence hash,
      awdlSyncStateInit_aligned clock, rfl⟩,
    fun _ _ => ⟨now, rfl, Nat.le_add_right _ _⟩, Nat.le_refl _, Nat.le_refl _⟩

variable {World : Type} {ev : EvLoop Watcher World}

/-- A daemon with a card whose loop keeps up, at a time at which nobody has moved its clock
for an extended window, and at which it has switched the channel where that was due. -/
inductive OnAir (ev : EvLoop Watcher World) (hash : EtherAddr → UInt64) :
    List Report → System World → Prop where
  | intro {memory : Fixed UInt8 (hostNameLengthMax + 1)} {slots : Fin txQueueLength → Buf}
      {hostname : List UInt8} {self : EtherAddr} {chan : AwdlChan} {clock : UInt64}
      {filterRssi : Bool} {sequence : ChanSeq} {fresh : World} {reports more : List Report}
      {middle system : System World} (idle : ∀ watcher, ev.due fresh watcher = none)
      (run : Evolutions ev hash (fun loop happening _ => Prompt loop happening ∧ OnCard happening)
        (awdlSchedule ev (hoppingInit memory slots hostname self chan clock filterRssi sequence) fresh)
        reports middle)
      (still : Evolutions ev hash (fun loop happening next => Still loop happening next ∧
        OnCard happening) middle more system)
      (long : ev.now middle.world + 65536 < ev.now system.world)
      (switched : ev.due system.world (.timer .chan) ≠ some (ev.now system.world)) :
      OnAir ev hash (reports ++ more) system

structure Airborne (reports : List Report) (loop : Loop) : Prop where
  aligned : Aligned loop.state.awdlState.sync
  tuned : planned loop.state.awdlState loop.now ≠ 0 →
    radio reports = some (planned loop.state.awdlState loop.now)
  unshifted : Entries Unshifted loop.state.awdlState

theorem OnAir.airborne {hash : EtherAddr → UInt64} {reports : List Report} {system : System World}
    (onAir : OnAir ev hash reports system) (documented : Documented ev) :
    Airborne reports (view ev system) := by
  obtain @⟨memory, slots, hostname, self, chan, clock, filterRssi, sequence, fresh, reports, more,
    middle, system, idle, first, second, long, switched⟩ := onAir
  have init := hoppingInit_sound memory slots hostname self chan clock filterRssi sequence hash
    (ev.now fresh)
  have repeats : Repeats (settings (hoppingInit memory slots hostname self chan clock filterRssi
      sequence).awdlState) := daemonInit_repeats memory slots hostname self chan clock filterRssi
  obtain ⟨opening, wound⟩ := awdlSchedule_view documented _ repeats fresh idle
  obtain ⟨run, wound, poised⟩ := first.runs documented repeats wound init.poised
  obtain ⟨still, -⟩ := second.runs documented repeats wound poised
  rw [opening] at run
  have sound := run.sound init
  have ahead : Ahead (view ev middle).now (view ev middle).deadline :=
    runs_ahead (fun _ _ _ both => both.1) run (scheduled_ahead (ev.now fresh) _)
  -- The channel timer goes off within an extended window of the last change of the clock.
  obtain ⟨date, armed, near⟩ := sound.attended .chan trivial
  have hops : Hops ((view ev middle).now + 65536) (view ev system) :=
    runs_hops (fun _ _ _ both => both.1) still sound (.inr ⟨date, armed, ahead .chan date armed, near⟩)
  have told : Told (reports ++ more) system.state.awdlState := by
    have start : Told [] (hoppingInit memory slots hostname self chan clock filterRssi
        sequence).awdlState := fun tuned => absurd rfl tuned
    exact runs_told (fun _ _ _ both => both.2) still sound
      (runs_told (fun _ _ _ both => both.2) run init start)
  have entries : Entries Unshifted system.state.awdlState := by
    have first := performed_entries unshifted_invariant run.performed
      (hoppingInit_apart memory slots hostname self chan clock filterRssi sequence hash)
      fun addr peer present => by
        have absent := awdlInit_absent memory hostname self chan clock filterRssi addr
        cases absent.symm.trans present
    exact performed_entries unshifted_invariant still.performed sound.poised.apart first
  refine ⟨(still.sound sound).poised.aligned, fun meant => ?_, entries⟩
  have current : currentChannel system.state.awdlState =
      planned system.state.awdlState (ev.now system.world) := by
    obtain ⟨due, tuned⟩ | ⟨due, -, ahead, early⟩ := hops
    · refine tuned.tuned (Nat.lt_of_le_of_ne tuned.ahead fun same => switched ?_) meant
      exact tuned.armed.trans (congrArg some same.symm)
    · exact absurd (ahead.trans early) (Nat.not_le.mpr long)
  have card := told (by rw [current]; exact meant)
  rw [current] at card
  exact card

/-- The card of a node on the air was last told the channel that its sequence has for the
present slot; a null entry leaves it where it is. -/
theorem radio_follows_sequence (ev : EvLoop Watcher World) (documented : Documented ev)
    (hash : EtherAddr → UInt64) (reports : List Report) (system : System World)
    (onAir : OnAir ev hash reports system) (long : LongWidth)
    (meant : awdlChanNum (chanAt system.state.awdlState.channel.sequence
      (awdlSyncCurrentEaw long (clockAt (ev.now system.world)) system.state.awdlState.sync))
        system.state.awdlState.channel.enc ≠ 0) :
    radio reports = some (awdlChanNum (chanAt system.state.awdlState.channel.sequence
      (awdlSyncCurrentEaw long (clockAt (ev.now system.world)) system.state.awdlState.sync))
        system.state.awdlState.channel.enc) := by
  have airborne := onAir.airborne documented
  have regular : Regular system.state.awdlState.sync := airborne.aligned.toRegular
  rw [planned_eaw regular long (ev.now system.world)] at meant ⊢
  exact airborne.tuned meant

end OnAir

section Rendezvous

def Turning (node : AwdlState) (guard now : Nat) : Prop :=
  (65536 - phase (clockAt now) node.sync < 1024 * guard ∧
    chanInSlot node node.channel.sequence ((entryAt now node.sync + 1) % 16) ≠ planned node now) ∨
  (phase (clockAt now) node.sync < 1024 * guard ∧
    chanInSlot node node.channel.sequence ((entryAt now node.sync + 15) % 16) ≠ planned node now)

/-- Where two schedules are behind a common one, the point of the second is the point of the
first at another instant, which is as far away as the two lags are apart. -/
theorem behind_both {root first second : SyncState} {rootClock firstClock secondClock : UInt64}
    {firstLag secondLag : Nat} (firstBehind : Behind firstLag rootClock root firstClock first)
    (secondBehind : Behind secondLag rootClock root secondClock second) (instant : UInt64) :
    position (instant + secondClock) second =
      position (instant + firstClock + UInt64.ofNat firstLag - UInt64.ofNat secondLag) first := by
  have shifted := firstBehind (instant + UInt64.ofNat firstLag - UInt64.ofNat secondLag)
  have left : instant + UInt64.ofNat firstLag - UInt64.ofNat secondLag + firstClock =
      instant + firstClock + UInt64.ofNat firstLag - UInt64.ofNat secondLag := by grind
  have right : instant + UInt64.ofNat firstLag - UInt64.ofNat secondLag + rootClock -
      UInt64.ofNat firstLag = instant + rootClock - UInt64.ofNat secondLag := by grind
  rw [left, right] at shifted
  rw [shifted, secondBehind]

/-- Two lags of at most three beacons are less than a guard apart. -/
theorem lags_near (now : UInt64) {senderLag receiverLag : Nat} (senderNear : senderLag ≤ 1023 * 3)
    (receiverNear : receiverLag ≤ 1023 * 3) :
    (now + UInt64.ofNat senderLag - UInt64.ofNat receiverLag -
      (now - UInt64.ofNat (1024 * 3))).toNat < 2 * (1024 * 3) := by
  have apart : now + UInt64.ofNat senderLag - UInt64.ofNat receiverLag -
      (now - UInt64.ofNat (1024 * 3)) =
        UInt64.ofNat senderLag + UInt64.ofNat (1024 * 3) - UInt64.ofNat receiverLag := by
    grind
  rw [apart, UInt64.toNat_sub, UInt64.toNat_add]
  simp only [UInt64.toNat_ofNat']
  omega

/-- At every instant less than a guard away from the time of sending the two meet, and on the
present channel unless it changes in between. -/
theorem ready_meets {long : LongWidth} {sender : AwdlState} {now : Nat} {peer : Peer}
    (aligned : Aligned sender.sync) (synced : peer.syncOffset = 0)
    (ready : awdlCanSendUnicastIn long sender peer (clockAt now) awdlUnicastGuardTu = 0) {t : UInt64}
    (near : (t - (clockAt now - UInt64.ofNat (1024 * 3))).toNat < 2 * (1024 * 3)) :
    planned sender now ≠ 0 ∧ Shared sender peer (slot long t sender.sync) ∧
      (chanInSlot sender sender.channel.sequence (slot long t sender.sync) = planned sender now ∨
        Turning sender 3 now) := by
  have entry := slot_entry long now aligned.toRegular
  rw [show awdlUnicastGuardTu = ((3 : Nat) : Int) from rfl,
    canSendUnicastIn_phase long (clockAt now) aligned synced 3 (by decide)] at ready
  obtain ⟨shared, next, before⟩ :=
    unicastDelay_eq_zero (phase_lt (clockAt now) sender.sync) ready
  refine ⟨?_, ?_⟩
  · rw [planned, ← entry]
    exact shared.1
  · unfold Turning
    rw [← entry]
    obtain same | ⟨same, trailing⟩ | ⟨same, leading, early⟩ :=
      slot_near long (clockAt now) t 3 aligned (by decide) near
    · rw [same]
      exact ⟨shared, .inl (by rw [entry]; rfl)⟩
    · rw [same]
      exact ⟨next trailing, (em _).imp_right fun differs => .inl ⟨trailing, differs⟩⟩
    · rw [same]
      exact ⟨before leading early, (em _).imp_right fun differs => .inr ⟨leading, differs⟩⟩

/-- When a unicast frame goes out, the card of its receiver is on the same channel, if both have
their schedules from one root over at most three beacons, or a border at which the channel
changes is less than a guard away: there `awdl_can_send_unicast_in` asks only whether the two
nodes meet in the neighbouring slot as well. -/
theorem unicast_finds_receiver {World World' : Type} (ev : EvLoop Watcher World)
    (ev' : EvLoop Watcher World') (documented : Documented ev) (documented' : Documented ev')
    (hash : EtherAddr → UInt64) (sent received : List Report) (sender : System World)
    (receiver : System World') (senderOnAir : OnAir ev hash sent sender)
    (receiverOnAir : OnAir ev' hash received receiver) (addr : EtherAddr) (peer : Peer)
    (known : sender.state.awdlState.peers.peers.contents addr = some peer)
    (announced : peer.sequence = receiver.state.awdlState.channel.sequence)
    (encoded : receiver.state.awdlState.channel.enc = sender.state.awdlState.channel.enc)
    (root : SyncState) (rootClock senderClock receiverClock instant : UInt64)
    (senderLag receiverLag : Nat) (senderNear : senderLag ≤ 1023 * 3)
    (receiverNear : receiverLag ≤ 1023 * 3)
    (senderBehind : Behind senderLag rootClock root senderClock sender.state.awdlState.sync)
    (receiverBehind : Behind receiverLag rootClock root receiverClock receiver.state.awdlState.sync)
    (senderNow : clockAt (ev.now sender.world) = instant + senderClock)
    (receiverNow : clockAt (ev'.now receiver.world) = instant + receiverClock) (long : LongWidth)
    (ready : awdlCanSendUnicastIn long sender.state.awdlState peer (clockAt (ev.now sender.world))
      awdlUnicastGuardTu = 0) :
    ∃ channel, channel ≠ 0 ∧ radio sent = some channel ∧
      (radio received = some channel ∨
        Turning sender.state.awdlState 3 (ev.now sender.world)) := by
  have sends := senderOnAir.airborne documented
  have receives := receiverOnAir.airborne documented'
  have aligned : Aligned sender.state.awdlState.sync := sends.aligned
  have synced : peer.syncOffset = 0 := sends.unshifted addr peer known
  -- The receiver is where the sender is at an instant `t` less than a guard away.
  obtain ⟨t, here⟩ : ∃ t, t =
      clockAt (ev.now sender.world) + UInt64.ofNat senderLag - UInt64.ofNat receiverLag := ⟨_, rfl⟩
  obtain ⟨plannedNow, sharedThen, stays⟩ := ready_meets aligned synced ready
    (here ▸ lags_near (clockAt (ev.now sender.world)) senderNear receiverNear)
  have entryThen : entryAt (ev'.now receiver.world) receiver.state.awdlState.sync =
      slot long t sender.state.awdlState.sync := by
    rw [entryAt, receiverNow, behind_both senderBehind receiverBehind instant, ← senderNow, ← here,
      slot, currentEaw_position long _ aligned.toRegular]
    rfl
  have plannedThen : planned receiver.state.awdlState (ev'.now receiver.world) =
      chanInSlot sender.state.awdlState sender.state.awdlState.channel.sequence
        (slot long t sender.state.awdlState.sync) := by
    rw [sharedThen.2, announced, planned, entryThen, chanInSlot, chanInSlot, encoded]
  have meant : planned receiver.state.awdlState (ev'.now receiver.world) ≠ 0 := by
    rw [plannedThen]
    exact sharedThen.1
  have card : radio received = some (planned receiver.state.awdlState (ev'.now receiver.world)) :=
    receives.tuned meant
  rw [plannedThen] at card
  refine ⟨_, plannedNow, sends.tuned plannedNow, stays.imp_left fun same => ?_⟩
  rw [card, same]

end Rendezvous

/-! Runs of given steps. -/
section Attempt

variable {hash : EtherAddr → UInt64}

instance (clock : UInt64) : (turn : Turn) → Decidable (Reads clock turn)
  | .receiveFrame env _ => inferInstanceAs (Decidable (env.now = clock))
  | .cleanPeers now => inferInstanceAs (Decidable (now = clock))
  | .hostDeviceReady _ _ multicastNow unicastNow =>
      inferInstanceAs (Decidable (multicastNow = clock ∧ unicastNow = clock))
  | .sendUnicast _ now => inferInstanceAs (Decidable (now = clock))
  | .sendMulticast _ now => inferInstanceAs (Decidable (now = clock))
  | .sendPsf _ => .isTrue trivial
  | .sendMif _ now => inferInstanceAs (Decidable (now = clock))
  | .switchChannel _ _ now => inferInstanceAs (Decidable (now = clock))

abbrev Bench := System (Plain Watcher)

def call (hash : EtherAddr → UInt64) (bench : Bench) (turn : Turn) (world : Plain Watcher) :
    Option (Bench × List Report) :=
  match perform hash bench.state turn with
  | .error _ => none
  | .ok (after, report) =>
      if Reads (clockAt bench.world.now) turn ∧
          clock after.awdlState.sync = clock bench.state.awdlState.sync then
        some (⟨followAll plain report.events world, after⟩, [report])
      else none

def fired (world : Plain Watcher) (watcher : Watcher) : Option (Plain Watcher) :=
  match world.due watcher with
  | none => none
  | some due => if due ≤ world.now then some (world.reified watcher due) else none

def attempt (hash : EtherAddr → UInt64) (bench : Bench) : Happening → Option (Bench × List Report)
  | .wait later =>
      if bench.world.now ≤ later ∧ (∀ timer ∈ [Timer.mif, .tx, .txMcast, .chan],
          ∀ due ∈ bench.world.due (.timer timer), later ≤ due) ∧
          later ≤ (bench.world.due .peer).getD 0 ∧ later ≤ (bench.world.due .psf).getD 0 then
        some ({ bench with world := { bench.world with now := later } }, [])
      else none
  | .timer timer turn =>
      if timerOf turn = some timer then
        (fired bench.world (.timer timer)).bind (call hash bench turn)
      else none
  | .psfTimer env => (fired bench.world .psf).bind (call hash bench (.sendPsf env))
  | .device turn => call hash bench turn bench.world
  | .peerTimer now =>
      ((fired bench.world .peer).bind (call hash bench (.cleanPeers now))).map fun done =>
        ({ done.1 with world := plain.evTimerAgain .peer done.1.world }, done.2)

theorem call_performs {bench next : Bench} {turn : Turn} {world : Plain Watcher}
    {reports : List Report} (done : call hash bench turn world = some (next, reports)) :
    ∃ after report, perform hash bench.state turn = .ok (after, report) ∧
      Reads (clockAt bench.world.now) turn ∧
      clock after.awdlState.sync = clock bench.state.awdlState.sync ∧
      next = ⟨followAll plain report.events world, after⟩ ∧ reports = [report] := by
  unfold call at done
  split at done
  · cases done
  case h_2 after report performed =>
    split at done
    case isTrue holds =>
      cases done
      exact ⟨after, report, performed, holds.1, holds.2, rfl, rfl⟩
    · cases done

theorem fired_invokes {world after : Plain Watcher} {watcher : Watcher}
    (goes : fired world watcher = some after) : plain.invokes watcher world after := by
  unfold fired at goes
  split at goes
  · cases goes
  case h_2 due armed =>
    split at goes
    case isTrue reached =>
      cases goes
      exact ⟨due, armed, reached, rfl⟩
    · cases goes

theorem attempt_steps {bench next : Bench} {happening : Happening} {reports : List Report}
    (inside : ∀ turn, happening = .device turn → Device turn ∧ turn.Inside)
    (done : attempt hash bench happening = some (next, reports)) :
    Evolves plain hash bench happening reports next ∧
      Still (view plain bench) happening (view plain next) := by
  cases happening with
  | wait later =>
      rw [attempt] at done
      split at done
      case isTrue holds =>
        cases done
        obtain ⟨forward, ahead, peer, psf⟩ := holds
        have passes : plain.passes bench.world { bench.world with now := later } :=
          ⟨later, forward, rfl⟩
        refine ⟨.wait _ passes, ⟨fun timer due armed => ?_, peer, psf⟩, rfl⟩
        exact ahead timer (by cases timer <;> simp) due armed
      · cases done
  | timer timer turn =>
      rw [attempt] at done
      split at done
      case isTrue handler =>
        obtain ⟨world, goes, done⟩ := Option.bind_eq_some_iff.mp done
        obtain ⟨after, report, performed, reads, same, rfl, rfl⟩ := call_performs done
        exact ⟨.timer timer turn world (fired_invokes goes) handler performed, reads, same⟩
      · cases done
  | device turn =>
      obtain ⟨after, report, performed, reads, same, rfl, rfl⟩ := call_performs done
      obtain ⟨device, within⟩ := inside turn rfl
      exact ⟨.device turn device within performed, reads, same⟩
  | peerTimer now =>
      obtain ⟨⟨middle, _⟩, done, last⟩ := Option.map_eq_some_iff.mp done
      obtain ⟨world, goes, done⟩ := Option.bind_eq_some_iff.mp done
      obtain ⟨after, report, performed, reads, same, rfl, rfl⟩ := call_performs done
      cases last
      exact ⟨.peerTimer now world (fired_invokes goes) performed, reads, same⟩
  | psfTimer env =>
      obtain ⟨world, goes, done⟩ := Option.bind_eq_some_iff.mp done
      obtain ⟨after, report, performed, -, same, rfl, rfl⟩ := call_performs done
      exact ⟨.psfTimer env world (fired_invokes goes) performed, trivial, same⟩

def handlerAt (now : Nat) : Timer → Turn
  | .mif => .sendMif ⟨.bits64, clockAt now, clockAt now⟩ (clockAt now)
  | .tx => .sendUnicast .bits64 (clockAt now)
  | .txMcast => .sendMulticast .bits64 (clockAt now)
  | .chan => .switchChannel .bits64 false (clockAt now)

def upcoming (world : Plain Watcher) : Happening :=
  match [Timer.chan, .mif, .tx, .txMcast].find? fun timer =>
      world.due (.timer timer) = some world.now with
  | some timer => .timer timer (handlerAt world.now timer)
  | none =>
      if (world.due .psf).getD 0 ≤ world.now then
        .psfTimer ⟨.bits64, clockAt world.now, clockAt world.now⟩
      else if (world.due .peer).getD 0 ≤ world.now then .peerTimer (clockAt world.now)
      else .wait (([Timer.chan, .mif, .tx, .txMcast].filterMap fun timer =>
        world.due (.timer timer)).foldl min
          (min ((world.due .psf).getD 0) ((world.due .peer).getD 0)))

theorem upcoming_own (world : Plain Watcher) (turn : Turn) : upcoming world ≠ .device turn := by
  unfold upcoming
  intro same
  split at same
  · cases same
  · split at same
    · cases same
    · split at same <;> cases same

theorem upcoming_deaf (world : Plain Watcher) (env : RxEnv) (frame : Buf) :
    turnOf (upcoming world) ≠ some (.receiveFrame env frame) := by
  unfold upcoming
  intro called
  split at called
  case h_1 timer _ => cases timer <;> cases called
  · split at called
    · cases called
    · split at called <;> cases called

theorem upcoming_card (world : Plain Watcher) : OnCard (upcoming world) := by
  unfold upcoming
  intro long wlanIsFile now called
  split at called
  case h_1 timer _ =>
    cases timer with
    | chan =>
        cases called
        rfl
    | _ => cases called
  · split at called
    · cases called
    · split at called <;> cases called

def drive (hash : EtherAddr → UInt64) : Nat → Bench → Option (List Report × Bench)
  | 0, bench => some ([], bench)
  | steps + 1, bench =>
      (attempt hash bench (upcoming bench.world)).bind fun done =>
        (drive hash steps done.1).map fun later => (done.2 ++ later.1, later.2)

theorem drive_follows {guard : Loop → Happening → Loop → Prop} {start bench after : Bench}
    {reports more : List Report} {steps : Nat}
    (allowed : ∀ world loop next, Still loop (upcoming world) next → guard loop (upcoming world) next)
    (run : Evolutions plain hash guard start reports bench)
    (ends : drive hash steps bench = some (more, after)) :
    Evolutions plain hash guard start (reports ++ more) after := by
  induction steps generalizing bench reports more with
  | zero =>
      cases ends
      rw [List.append_nil]
      exact run
  | succ steps ih =>
      obtain ⟨⟨next, first⟩, done, ends⟩ := Option.bind_eq_some_iff.mp ends
      obtain ⟨⟨later, final⟩, tail, same⟩ := Option.map_eq_some_iff.mp ends
      cases same
      obtain ⟨evolves, still⟩ :=
        attempt_steps (fun turn same => absurd same (upcoming_own bench.world turn)) done
      have whole := ih (run.step evolves (allowed bench.world _ _ still)) tail
      rwa [List.append_assoc] at whole

end Attempt

/-! Two nodes that hop between channels 149 and 6. -/
section Pair

def hopper (self : EtherAddr) : DaemonState :=
  hoppingInit (Fixed.replicate _ 0) (fun _ => pingFrame) [0x6f, 0x77, 0x6c] self chanOpclass149 0 false
    awdlChanseqInit

def hopperMif : Buf :=
  ⟨((awdlInitFullActionFrame steadyClock (hopper peerAddr).awdlState
    (hopper peerAddr).ieee80211State .mif).toOption.map Prod.fst).getD [], by decide +kernel⟩

def hopperStart (self : EtherAddr) : Bench := awdlSchedule plain (hopper self) (newLoop 0)

/-- The timers go off for the first time and the channel timer for the second. -/
theorem hopping_onAir {self : EtherAddr} {begun bench : Bench} {reports more : List Report}
    (run : Evolutions plain addrHash (fun loop happening next => Still loop happening next ∧
      OnCard happening) (hopperStart self) reports begun)
    (ends : drive addrHash 7 begun = some (more, bench)) (late : bench.world.now = 98304)
    (switched : bench.world.due (.timer .chan) = some 131072) :
    OnAir plain addrHash (reports ++ more) bench := by
  have moves : Evolutions plain addrHash (fun loop happening next => Still loop happening next ∧
      OnCard happening) (hopperStart self) (reports ++ more) bench :=
    drive_follows (fun world _ _ still => ⟨still, upcoming_card world⟩) run ends
  have begins : plain.now (hopperStart self).world = 0 := rfl
  have ended : plain.now bench.world = 98304 := late
  have long : plain.now (hopperStart self).world + 65536 < plain.now bench.world := by omega
  show OnAir plain addrHash ([] ++ (reports ++ more)) bench
  refine .intro (fun _ => rfl) .start moves long ?_
  show bench.world.due (.timer .chan) ≠ some bench.world.now
  rw [switched, late]
  decide

theorem radio_follows_sequence_hops : ∃ reports bench, OnAir plain addrHash reports bench ∧
    radio reports = some 149 := by
  have shown : (drive addrHash 7 (hopperStart selfAddr)).map (fun done =>
      (done.2.world.now, done.2.world.due (.timer .chan),
        awdlChanNum (chanAt done.2.state.awdlState.channel.sequence
          (awdlSyncCurrentEaw .bits64 (clockAt done.2.world.now) done.2.state.awdlState.sync))
            done.2.state.awdlState.channel.enc)) = some (98304, some 131072, 149) := by
    decide +kernel
  obtain ⟨⟨reports, bench⟩, ends, seen⟩ := Option.map_eq_some_iff.mp shown
  simp only [Prod.mk.injEq] at seen
  obtain ⟨now, due, meant⟩ := seen
  have onAir : OnAir plain addrHash reports bench := hopping_onAir .start ends now due
  have card := radio_follows_sequence plain plain_documented addrHash reports bench onAir .bits64 (by
    rw [show plain.now bench.world = bench.world.now from rfl, meant]
    decide)
  rw [show plain.now bench.world = bench.world.now from rfl, meant] at card
  exact ⟨reports, bench, onAir, card⟩

theorem behind_clock {root node : SyncState} (same : clock node = clock root) :
    Behind 0 0 root 0 node := by
  intro instant
  rw [position_clock same]
  exact Behind.refl 0 root instant

def Poses (bench : Bench) : Prop :=
  bench.world.now = 98304 ∧ bench.world.due (.timer .chan) = some 131072 ∧
    clock bench.state.awdlState.sync = clock (awdlSyncStateInit 0) ∧
    bench.state.awdlState.channel.enc = .opclass ∧
    bench.state.awdlState.channel.sequence = awdlChanseqInit

instance (bench : Bench) : Decidable (Poses bench) := inferInstanceAs (Decidable (_ ∧ _))

theorem unicast_finds_receiver_pair : ∃ sent received sender receiver,
    OnAir plain addrHash sent sender ∧ OnAir plain addrHash received receiver ∧
      ∃ channel, channel ≠ 0 ∧ radio sent = some channel ∧
        (radio received = some channel ∨
          Turning sender.state.awdlState 3 sender.world.now) := by
  have heard : ((attempt addrHash (hopperStart selfAddr)
      (.device (.receiveFrame { zeroEnv with now := 0 } hopperMif))).bind fun heard =>
        (drive addrHash 7 heard.1).map fun done => decide (Poses done.2) &&
          (done.2.state.awdlState.peers.peers.contents peerAddr).any fun peer =>
            decide (peer.sequence = awdlChanseqInit ∧ awdlCanSendUnicastIn .bits64
              done.2.state.awdlState peer (clockAt 98304) awdlUnicastGuardTu = 0)) = some true := by
    decide +kernel
  have tuned : (drive addrHash 7 (hopperStart peerAddr)).map (fun done =>
      decide (Poses done.2)) = some true := by
    decide +kernel
  obtain ⟨⟨middle, first⟩, received, rest⟩ := Option.bind_eq_some_iff.mp heard
  obtain ⟨⟨reports, sender⟩, ends, seen⟩ := Option.map_eq_some_iff.mp rest
  obtain ⟨⟨more, receiver⟩, ends', shown⟩ := Option.map_eq_some_iff.mp tuned
  rw [Bool.and_eq_true, decide_eq_true_iff, Option.any_eq_true] at seen
  obtain ⟨⟨now, due, senderClock, senderEnc, -⟩, peer, known, met⟩ := seen
  obtain ⟨sequence, ready⟩ := of_decide_eq_true met
  obtain ⟨now', due', receiverClock, receiverEnc, sequence'⟩ := of_decide_eq_true shown
  obtain ⟨evolves, still⟩ :=
    attempt_steps (by rintro turn ⟨⟩; exact ⟨trivial, byteRadiotap_inside⟩) received
  have senderOnAir := hopping_onAir (.step .start evolves ⟨still, by rintro _ _ _ ⟨⟩⟩) ends now due
  have receiverOnAir := hopping_onAir .start ends' now' due'
  refine ⟨_, _, sender, receiver, senderOnAir, receiverOnAir, ?_⟩
  exact unicast_finds_receiver plain plain plain_documented plain_documented addrHash _ _ sender
    receiver senderOnAir receiverOnAir peerAddr peer known (sequence.trans sequence'.symm)
    (receiverEnc.trans senderEnc.symm) (awdlSyncStateInit 0) 0 0 0 (clockAt 98304) 0 0 (by decide)
    (by decide) (behind_clock senderClock) (behind_clock receiverClock)
    (show clockAt sender.world.now = _ by rw [now]; decide)
    (show clockAt receiver.world.now = _ by rw [now']; decide) .bits64
    (show awdlCanSendUnicastIn _ _ _ (clockAt sender.world.now) _ = 0 by rw [now]; exact ready)

end Pair

end Owl.Hopping
