import Owl.DaemonRun
import Owl.TransmitQueues
import Owl.ActionRoundTrip

/-!
Runs of the whole daemon with everything that the handlers do outside of it. A
handler of the transmitting half is a sequence of elementary operations: it
sends an action or a data frame, moves frames between its queues, tunes to a
channel, or does something that leaves the state alone. What holds along a run
is proved once for each operation.

No handler runs into a fault, whatever came before, as long as the name of the
node is terminated.
-/

namespace Owl.DaemonTrace

open Bytes Ether Channel Sync Peers PeersRefine Wire State Frames Tx RxTlv Rx RxSpec RxPeers CircularBuffer
  Schedule Daemon Transmit TransmitQueues DaemonRun RoundTrip ActionRoundTrip Siphash RxData

/-- What a call does outside of the daemon: what `awdl_rx` stores of a frame and
returns, what goes to the host of it, the callbacks, and what the senders do. -/
structure Report where
  outputs : List Buf
  host : List Buf
  trace : List RxEvent
  result : Option RxResult
  events : List TxEvent

def transmitting (run : Except Fault (DaemonState × List TxEvent)) :
    Except Fault (DaemonState × Report) := do
  let (state, events) ← run
  return (state, ⟨[], [], [], none, events⟩)

def perform (hash : EtherAddr → UInt64) (state : DaemonState) :
    Turn → Except Fault (DaemonState × Report)
  | .receiveFrame env frame => do
      let (host, awdlState, outcome) ← awdlReceiveFrame hash env frame state.awdlState
      return ({ state with awdlState := awdlState },
        ⟨outcome.outputs, host, outcome.trace, some outcome.result, []⟩)
  | .cleanPeers now =>
      let cleaned := awdlCleanPeers now state.awdlState
      .ok ({ state with awdlState := cleaned.1 }, ⟨[], [], cleaned.2, none, []⟩)
  | .hostDeviceReady long reads multicastNow unicastNow =>
      transmitting (Transmit.hostDeviceReady hash long reads multicastNow unicastNow state)
  | .sendUnicast long now => transmitting (awdlSendUnicast hash long now state)
  | .sendMulticast long now => transmitting (awdlSendMulticast long now state)
  | .sendPsf env => transmitting (awdlSendPsf env state)
  | .sendMif env now => transmitting (awdlSendMif env now state)
  | .switchChannel long wlanIsFile now =>
      transmitting (.ok (awdlSwitchChannel long wlanIsFile now state))

theorem perform_handle (hash : EtherAddr → UInt64) (state : DaemonState) (turn : Turn) :
    turn.handle hash state =
      (perform hash state turn).map fun done => (done.1, done.2.outputs, done.2.trace) := by
  have sends : ∀ run : Except Fault (DaemonState × List TxEvent),
      (run >>= fun sent => pure (sent.1, [], [])) =
        (transmitting run).map fun done => (done.1, done.2.outputs, done.2.trace) := by
    intro run
    cases run <;> rfl
  cases turn with
  | receiveFrame env frame =>
      rw [Turn.handle, perform]
      cases awdlReceiveFrame hash env frame state.awdlState <;> rfl
  | cleanPeers now => rfl
  | hostDeviceReady long reads multicastNow unicastNow => exact sends _
  | sendUnicast long now => exact sends _
  | sendMulticast long now => exact sends _
  | sendPsf env => exact sends _
  | sendMif env now => exact sends _
  | switchChannel long wlanIsFile now => rfl

/-- A received frame goes through `awdl_rx`, which must not yield too much. -/
theorem perform_receiveFrame {hash : EtherAddr → UInt64} {env : RxEnv} {frame : Buf}
    {state after : DaemonState} {report : Report} :
    perform hash state (.receiveFrame env frame) = .ok (after, report) ↔
      ∃ outcome, awdlRx false hash env frame state.awdlState = .ok outcome ∧
        outcome.outputs.length ≤ maxNumAmpdu ∧
        after = { state with awdlState := afterReceive outcome } ∧
        report = ⟨outcome.outputs, hostFrames outcome, outcome.trace, some outcome.result, []⟩ := by
  rw [perform]
  constructor
  · intro performed
    cases run : awdlReceiveFrame hash env frame state.awdlState with
    | error fault =>
        rw [run] at performed
        cases performed
    | ok received =>
        obtain ⟨outcome, ran, few, rfl⟩ := awdlReceiveFrame_ok.mp run
        rw [run] at performed
        cases performed
        exact ⟨outcome, ran, few, rfl, rfl⟩
  · rintro ⟨outcome, ran, few, rfl, rfl⟩
    rw [awdlReceiveFrame_ok.mpr ⟨outcome, ran, few, rfl⟩]
    rfl

theorem perform_received {hash : EtherAddr → UInt64} {env : RxEnv} {frame : Buf}
    {state after : DaemonState} {report : Report}
    (performed : perform hash state (.receiveFrame env frame) = .ok (after, report)) :
    ∃ outcome, awdlRx false hash env frame state.awdlState = .ok outcome ∧
      after = { state with awdlState := afterReceive outcome } ∧
      report = ⟨outcome.outputs, hostFrames outcome, outcome.trace, some outcome.result, []⟩ := by
  obtain ⟨outcome, run, -, done⟩ := perform_receiveFrame.mp performed
  exact ⟨outcome, run, done⟩

inductive Performed (hash : EtherAddr → UInt64) (start : DaemonState) :
    List Report → DaemonState → Prop where
  | start : Performed hash start [] start
  | step {reports : List Report} {state after : DaemonState} {report : Report}
      (run : Performed hash start reports state) (turn : Turn) (inside : turn.Inside)
      (performed : perform hash state turn = .ok (after, report)) :
      Performed hash start (reports ++ [report]) after

def performAll (hash : EtherAddr → UInt64) :
    List Turn → DaemonState → Except Fault (List Report × DaemonState)
  | [], state => .ok ([], state)
  | turn :: rest, state =>
      (perform hash state turn).bind fun done =>
        (performAll hash rest done.1).map fun later => (done.2 :: later.1, later.2)

theorem performAll_performed {hash : EtherAddr → UInt64} {start state after : DaemonState}
    {reports more : List Report} {turns : List Turn} (inside : ∀ turn ∈ turns, turn.Inside)
    (run : Performed hash start reports state)
    (ends : performAll hash turns state = .ok (more, after)) :
    Performed hash start (reports ++ more) after := by
  induction turns generalizing state reports more with
  | nil =>
      cases ends
      rw [List.append_nil]
      exact run
  | cons turn rest ih =>
      rw [performAll] at ends
      cases first : perform hash state turn with
      | error fault =>
          rw [first] at ends
          cases ends
      | ok done =>
          rw [first, Except.bind] at ends
          cases later : performAll hash rest done.1 with
          | error fault =>
              rw [later] at ends
              cases ends
          | ok pair =>
              rw [later] at ends
              cases ends
              have step := run.step turn (inside turn List.mem_cons_self) first
              have whole := ih (fun other member => inside other (List.mem_cons_of_mem _ member)) step
                later
              rwa [List.append_assoc] at whole

def Silent (tunes : Bool) : TxEvent → Prop
  | .setChannel _ => tunes = true
  | .awdlSendData _ _ => False
  | .wlanSend _ => False
  | _ => True

/-- An elementary operation of the transmitting half; with `tunes` it may change the channel, with
`acts` it may send an action frame. -/
inductive Op (tunes acts : Bool) (state : DaemonState) : List TxEvent → DaemonState → Prop where
  | silent (event : TxEvent) (silent : Silent tunes event) :
      Op tunes acts state [event] state
  | queues (next : Option Buf) (queue : CircularBuf Buf txQueueLength) :
      Op tunes acts state [] { state with next := next, txQueueMulticast := queue }
  | tune (allowed : tunes = true) (current : AwdlChan) :
      Op tunes acts state [] { state with awdlState :=
        { state.awdlState with channel := { state.awdlState.channel with current := current } } }
  | unicast (frame : Buf) (bytes : Option (List UInt8)) (awdlState : AwdlState)
      (ieee80211State : Ieee80211State)
      (sent : awdlSendData frame state.awdlState state.ieee80211State =
        .ok (bytes, awdlState, ieee80211State)) :
      Op tunes acts state [.awdlSendData frame bytes]
        { state with awdlState := countUnicast awdlState, ieee80211State := ieee80211State }
  | multicast (frame : Buf) (bytes : Option (List UInt8)) (awdlState : AwdlState)
      (ieee80211State : Ieee80211State)
      (sent : awdlSendData frame state.awdlState state.ieee80211State =
        .ok (bytes, awdlState, ieee80211State)) :
      Op tunes acts state [.awdlSendData frame bytes]
        { state with awdlState := countMulticast awdlState, ieee80211State := ieee80211State }
  | action (allowed : acts = true) (env : TxEnv) (type : ActionType) (bytes : List UInt8)
      (ieee80211State : Ieee80211State)
      (built : awdlInitFullActionFrame env state.awdlState state.ieee80211State type =
        .ok (bytes, ieee80211State)) :
      Op tunes acts state [.wlanSend bytes]
        { state with awdlState := countTxAction state.awdlState, ieee80211State := ieee80211State }

inductive Ops (tunes acts : Bool) : DaemonState → List TxEvent → DaemonState → Prop where
  | nil (state : DaemonState) : Ops tunes acts state [] state
  | cons {first second third : DaemonState} {early late : List TxEvent}
      (op : Op tunes acts first early second) (rest : Ops tunes acts second late third) :
      Ops tunes acts first (early ++ late) third

theorem Ops.single {tunes acts : Bool} {before after : DaemonState} {events : List TxEvent}
    (op : Op tunes acts before events after) : Ops tunes acts before events after := by
  have whole := Ops.cons op (.nil after)
  rwa [List.append_nil] at whole

theorem Ops.trans {tunes acts : Bool} {first second third : DaemonState} {early late : List TxEvent}
    (left : Ops tunes acts first early second) (right : Ops tunes acts second late third) :
    Ops tunes acts first (early ++ late) third := by
  induction left with
  | nil => exact right
  | cons op rest ih =>
      rw [List.append_assoc]
      exact .cons op (ih right)

def Operates (tunes acts : Bool) (state : DaemonState) (after : DaemonState × List TxEvent) : Prop :=
  Ops tunes acts state after.2 after.1

section Handlers

variable (tunes acts : Bool) (hash : EtherAddr → UInt64) (long : LongWidth) (now : UInt64)
  (state : DaemonState)

theorem sendNext_ops (frame : Buf) :
    Ensures (sendNext hash long now frame state) fun sent => Ops tunes acts state sent.2.2 sent.2.1 := by
  -- A frame that leaves the slot is followed by the operation that empties it.
  have leaves : ∀ {events : List TxEvent} {after : DaemonState}, Op tunes acts state events after →
      Ops tunes acts state events { after with next := none } := by
    intro events after op
    have whole := (Ops.single op).trans (.single (.queues none after.txQueueMulticast))
    rwa [List.append_nil] at whole
  unfold sendNext
  refine .andThen fun dst => ?_
  cases dst with
  | none => exact .error .read
  | some dst =>
  dsimp only
  split
  · exact .ok (leaves (.silent (.hostSend frame) trivial))
  split
  · split
    · cases sent : awdlSendData frame state.awdlState state.ieee80211State with
      | error fault => exact .error fault
      | ok done => exact .ok (leaves (.unicast frame done.1 done.2.1 done.2.2 sent))
    · exact .ok (.nil state)
  · exact .ok (leaves (.silent (.drop frame) trivial))

theorem awdlSendUnicast_ops : Ensures (awdlSendUnicast hash long now state) (Operates tunes acts state) := by
  have closes : ∀ {events : List TxEvent} {after : DaemonState} {delay : Int},
      Ops tunes acts state events after →
      Ops tunes acts state (events ++ [if after.next.isSome then .timerRearm .tx delay else .feedReadHost])
        after := by
    intro events after delay ops
    refine ops.trans (.single (.silent _ ?_))
    split <;> trivial
  unfold awdlSendUnicast
  cases state.next with
  | none => exact .ok (closes (.nil state))
  | some frame =>
      exact .bind (sendNext_ops tunes acts hash long now state frame) fun sent ops => .ok (closes ops)

theorem sendOldest_ops :
    Ensures (sendOldest long now state) fun sent => Ops tunes acts state sent.2.2 sent.2.1 := by
  unfold sendOldest
  dsimp only
  split
  · split
    case h_1 frame queue got =>
      cases sent : awdlSendData frame state.awdlState state.ieee80211State with
      | error fault => exact .error fault
      | ok done =>
          have first : Ops tunes acts state _ _ :=
            .single (.multicast frame done.1 done.2.1 done.2.2 sent)
          have whole := first.trans (.single (.queues state.next queue))
          rw [List.append_nil] at whole
          exact .ok whole
    · exact .error .read
  · exact .ok (.nil state)

theorem awdlSendMulticast_ops : Ensures (awdlSendMulticast long now state) (Operates tunes acts state) := by
  have closes : ∀ {events : List TxEvent} {after : DaemonState} {delay : Int},
      Ops tunes acts state events after →
      Ops tunes acts state (events ++ [if circularBufEmpty after.txQueueMulticast then .feedReadHost
        else .timerRearm .txMcast delay]) after := by
    intro events after delay ops
    refine ops.trans (.single (.silent _ ?_))
    split <;> trivial
  unfold awdlSendMulticast
  split
  · exact .ok (closes (.nil state))
  · exact .bind (sendOldest_ops tunes acts long now state) fun sent ops => .ok (closes ops)

theorem callIf_ops {condition : Bool}
    {handler : DaemonState → Except Fault (DaemonState × List TxEvent)}
    (operates : Ensures (handler state) (Operates tunes acts state)) :
    Ensures (callIf condition handler state) (Operates tunes acts state) := by
  unfold callIf
  split
  · exact operates
  · exact .ok (.nil state)

theorem pollHostDevice_ops (reads : List HostRead) :
    Ensures (pollHostDevice reads state) fun polled => Ops tunes acts state polled.2.2 polled.2.1 := by
  induction reads generalizing state with
  | nil => exact .ok (.nil state)
  | cons read rest ih =>
      rw [pollHostDevice]
      split
      · exact .ok (.nil state)
      refine .andThen fun buf => .andThen fun dst => ?_
      cases dst with
      | none => exact .ok (.single (.silent _ trivial))
      | some dst =>
          dsimp only
          split
          · refine .bind (ih _) fun polled ops => .ok ?_
            exact .cons (.silent (.hostRecv buf) trivial) (.cons (.silent (.circularBufPut buf _) trivial)
              (.cons (.queues state.next (circularBufPut state.txQueueMulticast buf)) ops))
          · refine .bind (ih _) fun polled ops => .ok ?_
            exact .cons (.silent (.hostRecv buf) trivial)
              (.cons (.queues (some buf) state.txQueueMulticast) ops)

theorem hostDeviceReady_ops (reads : List HostRead) (unicastNow : UInt64) :
    Ensures (Transmit.hostDeviceReady hash long reads now unicastNow state) (Operates tunes acts state) := by
  unfold Transmit.hostDeviceReady
  refine .bind (pollHostDevice_ops tunes acts state reads) fun polled first => ?_
  refine .bind (callIf_ops tunes acts polled.2.1 (awdlSendMulticast_ops tunes acts long now _))
    fun multicast second => ?_
  refine .bind (callIf_ops tunes acts multicast.1
    (awdlSendUnicast_ops tunes acts hash long unicastNow _)) fun unicast third => .ok ?_
  exact (first.trans second).trans third

theorem awdlSendAction_ops (env : TxEnv) (type : ActionType) :
    Ensures (awdlSendAction env type state) (Operates tunes true state) := by
  unfold awdlSendAction
  cases built : awdlInitFullActionFrame env state.awdlState state.ieee80211State type with
  | error fault => exact .error fault
  | ok done => exact .ok (.single (.action rfl env type done.1 done.2 built))

theorem awdlSendMif_ops (env : TxEnv) : Ensures (awdlSendMif env now state) (Operates tunes true state) :=
  .bind (callIf_ops tunes true state (awdlSendAction_ops tunes state env .mif)) fun _ ops =>
    .ok (ops.trans (.single (.silent _ trivial)))

theorem awdlSwitchChannel_ops (wlanIsFile : Bool) :
    Operates true acts state (awdlSwitchChannel long wlanIsFile now state) := by
  unfold awdlSwitchChannel
  dsimp only
  split
  · refine (Ops.single (.tune rfl (chanAt state.awdlState.channel.sequence
      (awdlSyncCurrentEaw long now state.awdlState.sync)))).trans
        (Ops.trans ?_ (.single (.silent _ trivial)))
    split
    · exact .nil _
    · exact .single (.silent (.setChannel _) rfl)
  · exact .single (.silent _ trivial)

end Handlers

inductive Deed (hash : EtherAddr → UInt64) (state : DaemonState) : Report → DaemonState → Prop where
  | received (env : RxEnv) (frame : Buf) (outcome : RxOutcome) (inside : RadiotapInside env)
      (run : awdlRx false hash env frame state.awdlState = .ok outcome) :
      Deed hash state
        ⟨outcome.outputs, hostFrames outcome, outcome.trace, some outcome.result, []⟩
        { state with awdlState := afterReceive outcome }
  | cleaned (now : UInt64) :
      Deed hash state ⟨[], [], (awdlCleanPeers now state.awdlState).2, none, []⟩
        { state with awdlState := (awdlCleanPeers now state.awdlState).1 }
  | operated (events : List TxEvent) (after : DaemonState) (ops : Ops true true state events after) :
      Deed hash state ⟨[], [], [], none, events⟩ after

theorem perform_deed {hash : EtherAddr → UInt64} {state after : DaemonState} {turn : Turn}
    {report : Report} (inside : turn.Inside) (performed : perform hash state turn = .ok (after, report)) :
    Deed hash state report after := by
  have sends : ∀ run : Except Fault (DaemonState × List TxEvent), Ensures run (Operates true true state) →
      transmitting run = .ok (after, report) → Deed hash state report after := by
    intro run ensures same
    cases run with
    | error fault => cases same
    | ok sent =>
        cases same
        exact .operated sent.2 sent.1 (ensures sent rfl)
  cases turn with
  | receiveFrame env frame =>
      obtain ⟨outcome, run, rfl, rfl⟩ := perform_received performed
      exact .received env frame outcome inside run
  | cleanPeers now =>
      cases performed
      exact .cleaned now
  | hostDeviceReady long reads multicastNow unicastNow =>
      exact sends _ (hostDeviceReady_ops true true hash long multicastNow state reads unicastNow) performed
  | sendUnicast long now => exact sends _ (awdlSendUnicast_ops true true hash long now state) performed
  | sendMulticast long now => exact sends _ (awdlSendMulticast_ops true true long now state) performed
  | sendPsf env => exact sends _ (awdlSendAction_ops true state env .psf) performed
  | sendMif env now => exact sends _ (awdlSendMif_ops true now state env) performed
  | switchChannel long wlanIsFile now =>
      exact sends _ (.ok (awdlSwitchChannel_ops true long now state wlanIsFile)) performed

section Frames

/-- What calls do with the frames of the host: they move them, and lose those that have no
destination as soon as they are read. -/
inductive Shifts : DaemonState → List TxEvent → DaemonState → Prop where
  | moves {before after : DaemonState} {events : List TxEvent} (moves : Moves before events after)
      (short : ∀ frame ∈ framesRead events, frame.bytes.length ≤ etherMaxLen) :
      Shifts before events after
  | lost (buf : Buf) (short : buf.bytes.length ≤ etherMaxLen) (state : DaemonState) :
      Shifts state [.hostRecv buf] state
  | trans {first second third : DaemonState} {early late : List TxEvent}
      (left : Shifts first early second) (right : Shifts second late third) :
      Shifts first (early ++ late) third

def Shifting (state : DaemonState) (run : Except Fault (DaemonState × List TxEvent)) : Prop :=
  ∃ after events, run = .ok (after, events) ∧ Shifts state events after ∧ Waiting after

def Aside : TxEvent → Prop
  | .wlanSend _ => True
  | .setChannel _ => True
  | .timerRearm _ _ => True
  | .feedReadHost => True
  | _ => False

theorem aside_shifts {before after : DaemonState} {events : List TxEvent}
    (aside : ∀ event ∈ events, Aside event) (queue : after.txQueueMulticast = before.txQueueMulticast)
    (next : after.next = before.next) : Shifts before events after := by
  have none : ∀ pick : TxEvent → Option Buf, (∀ event, Aside event → pick event = none) →
      events.filterMap pick = [] := fun pick silent =>
    List.filterMap_eq_nil_iff.mpr fun event member => silent event (aside event member)
  have unread : framesRead events = [] := none _ fun event quiet => by cases event <;> trivial
  have unhanded : framesHanded events = [] := none _ fun event quiet => by cases event <;> trivial
  have unconsumed : framesConsumed events = [] := none _ fun event quiet => by cases event <;> trivial
  refine .moves ⟨?_, ?_, ?_, ?_⟩ ?_
  · rw [unread, unhanded, queue]
    exact (List.append_nil _).symm
  · rw [unread, unconsumed, next]
    exact (List.append_nil _).symm
  · intro frame full member
    exact absurd (aside _ member) id
  · intro frame bytes member
    exact absurd (aside _ member) id
  · rw [unread]
    intro frame member
    cases member

theorem waiting_aside {before after : DaemonState} (waiting : Waiting before)
    (queue : after.txQueueMulticast = before.txQueueMulticast) (next : after.next = before.next) :
    Waiting after :=
  ⟨queue ▸ waiting.multicast, next ▸ waiting.unicast⟩

/-- Reads of any length. -/
theorem pollHostDevice_shifts (reads : List HostRead) (state : DaemonState) (waiting : Waiting state) :
    ∃ result after events, pollHostDevice reads state = .ok (result, after, events) ∧
      Shifts state events after ∧ Waiting after := by
  have quiet : ∀ state, Shifts state [] state := fun state =>
    aside_shifts (fun event member => absurd member List.not_mem_nil) rfl rfl
  induction reads generalizing state with
  | nil => exact ⟨0, state, [], rfl, quiet state, waiting⟩
  | cons read rest ih =>
      obtain ⟨buf, received, bytes⟩ := hostRecv_eq read
      have short : ∀ frame ∈ [buf], frame.bytes.length ≤ etherMaxLen := fun frame member => by
        rw [List.mem_singleton.mp member, bytes]
        exact read.fits
      rw [pollHostDevice]
      split
      · exact ⟨0, state, [], rfl, quiet state, waiting⟩
      case isFalse stop =>
        obtain ⟨vacant, room⟩ : state.next = none ∧ circularBufFull state.txQueueMulticast = false := by
          simpa using stop
        rw [received, except_ok_bind]
        by_cases addressed : 6 ≤ buf.bytes.length
        · have sendable : Sendable buf := ⟨addressed, bytes ▸ read.fits⟩
          obtain ⟨dst, found, octet⟩ := readDst_eq buf addressed
          rw [found, except_ok_bind]
          dsimp only
          split
          case isTrue bit =>
            have group : isMulticast buf = true := by simpa [isMulticast, octet] using bit
            obtain ⟨result, after, events, run, shifts, waits⟩ :=
              ih _ (waiting.enqueue room sendable group)
            rw [run]
            exact ⟨_, after, _, rfl, .trans (.moves (queued_moves buf room group) short) shifts, waits⟩
          case isFalse bit =>
            have single : isMulticast buf = false := by simpa [isMulticast, octet] using bit
            obtain ⟨result, after, events, run, shifts, waits⟩ := ih _ (waiting.fill sendable single)
            rw [run]
            exact ⟨_, after, _, rfl, .trans (.moves (slotted_moves buf vacant single) short) shifts,
              waits⟩
        -- A frame without a destination ends the loop.
        · have unaddressed : readEtherAddr buf etherDstOffset = .ok none := by
            rw [readEtherAddr_eq buf etherDstOffset (by decide) (by decide)]
            exact congrArg Except.ok (if_neg (by omega))
          rw [unaddressed]
          exact ⟨_, state, _, rfl, .lost buf (short buf (List.mem_singleton_self buf)) state, waiting⟩

def Unread (run : Except Fault (DaemonState × List TxEvent)) : Prop :=
  Ensures run fun done => framesRead done.2 = []

theorem awdlSendUnicast_unread (hash : EtherAddr → UInt64) (long : LongWidth) (now : UInt64)
    (state : DaemonState) : Unread (awdlSendUnicast hash long now state) := by
  have closes : ∀ (events : List TxEvent) (after : DaemonState) (delay : Int), framesRead events = [] →
      framesRead (events ++ [if after.next.isSome then .timerRearm .tx delay else .feedReadHost]) = [] := by
    intro events after delay none
    rw [framesRead_append, none]
    split <;> rfl
  unfold awdlSendUnicast
  cases state.next with
  | none => exact .ok (closes [] state 0 rfl)
  | some frame =>
      have sends : Ensures (sendNext hash long now frame state) fun sent =>
          framesRead sent.2.2 = [] := by
        unfold sendNext
        refine .andThen fun dst => ?_
        cases dst with
        | none => exact .error .read
        | some dst =>
            dsimp only
            split
            · exact .ok rfl
            split
            · split
              · exact .andThen fun sent => .ok rfl
              · exact .ok rfl
            · exact .ok rfl
      exact .bind sends fun sent none => .ok (closes _ _ _ none)

theorem awdlSendMulticast_unread (long : LongWidth) (now : UInt64) (state : DaemonState) :
    Unread (awdlSendMulticast long now state) := by
  have closes : ∀ (events : List TxEvent) (after : DaemonState) (delay : Int), framesRead events = [] →
      framesRead (events ++ [if circularBufEmpty after.txQueueMulticast then .feedReadHost
        else .timerRearm .txMcast delay]) = [] := by
    intro events after delay none
    rw [framesRead_append, none]
    split <;> rfl
  unfold awdlSendMulticast
  split
  · exact .ok (closes [] state 0 rfl)
  · have sends : Ensures (sendOldest long now state) fun sent => framesRead sent.2.2 = [] := by
      unfold sendOldest
      dsimp only
      split
      · split
        · exact .andThen fun sent => .ok rfl
        · exact .error .read
      · exact .ok rfl
    exact .bind sends fun sent none => .ok (closes _ _ _ none)

theorem handles_shifting {state : DaemonState} {run : Except Fault (DaemonState × List TxEvent)}
    (handles : Handles state run) (unread : Unread run) : Shifting state run := by
  obtain ⟨after, events, same, moves, waits⟩ := handles
  refine ⟨after, events, same, .moves moves ?_, waits⟩
  rw [unread _ same]
  intro frame member
  cases member

theorem callIf_shifting (condition : Bool)
    {handler : DaemonState → Except Fault (DaemonState × List TxEvent)} {state : DaemonState}
    (shifting : Shifting state (handler state)) (waiting : Waiting state) :
    Shifting state (callIf condition handler state) := by
  unfold callIf
  split
  · exact shifting
  · exact ⟨state, [], rfl, aside_shifts (fun event member => absurd member List.not_mem_nil) rfl rfl,
      waiting⟩

theorem hostDeviceReady_shifting (hash : EtherAddr → UInt64) (long : LongWidth) (reads : List HostRead)
    (multicastNow unicastNow : UInt64) (state : DaemonState) (waiting : Waiting state) :
    Shifting state (Transmit.hostDeviceReady hash long reads multicastNow unicastNow state) := by
  obtain ⟨result, polled, events, run, shifts, waits⟩ := pollHostDevice_shifts reads state waiting
  obtain ⟨middle, multicast, runFirst, first, waitsFirst⟩ :=
    callIf_shifting (result &&& pollNewMulticast != 0) (handles_shifting
      (awdlSendMulticast_handles long multicastNow polled waits)
      (awdlSendMulticast_unread long multicastNow polled)) waits
  obtain ⟨after, unicast, runSecond, second, waitsSecond⟩ :=
    callIf_shifting (result &&& pollNewUnicast != 0) (handles_shifting
      (awdlSendUnicast_handles hash long unicastNow middle waitsFirst)
      (awdlSendUnicast_unread hash long unicastNow middle)) waitsFirst
  refine ⟨after, events ++ multicast ++ unicast, ?_, (shifts.trans first).trans second, waitsSecond⟩
  simp only [Transmit.hostDeviceReady, run, runFirst, runSecond, except_ok_bind, except_pure]

end Frames

section Settings

structure Settings where
  selfAddress : EtherAddr
  name : Fixed UInt8 (hostNameLengthMax + 1)
  version : UInt8
  devClass : UInt8
  psfInterval : UInt16
  dst : EtherAddr
  enc : ChanEncoding
  sequence : ChanSeq
  master : AwdlChan
  electionAddr : EtherAddr
  selfCounter : UInt32
  selfMetric : UInt32
  timeout : UInt64
  cleanInterval : UInt64
  filterRssi : Bool
  rssiThreshold : Int8
  rssiGrace : Int8

def settings (state : AwdlState) : Settings where
  selfAddress := state.selfAddress
  name := state.name
  version := state.version
  devClass := state.devClass
  psfInterval := state.psfInterval
  dst := state.dst
  enc := state.channel.enc
  sequence := state.channel.sequence
  master := state.channel.master
  electionAddr := state.election.selfAddr
  selfCounter := state.election.selfCounter
  selfMetric := state.election.selfMetric
  timeout := state.peers.timeout
  cleanInterval := state.peers.cleanInterval
  filterRssi := state.filterRssi
  rssiThreshold := state.rssiThreshold
  rssiGrace := state.rssiGrace

theorem electionOver_constants (state : Election.ElectionState) (peers : List Peer) :
    (ElectionRun.electionOver state peers).selfCounter = state.selfCounter ∧
      (ElectionRun.electionOver state peers).selfMetric = state.selfMetric := by
  unfold ElectionRun.electionOver
  dsimp only
  split <;> exact ⟨rfl, rfl⟩

theorem changes_settings {hash : EtherAddr → UInt64} {record : Record}
    (changes : Changes hash record) : settings record.after = settings record.before := by
  cases changes with
  | quiet record same silent =>
      obtain ⟨_, _, _, after⟩ := same
      rw [after]
      rfl
  | admitted before env frame mac outcome stats admits effect =>
      obtain ⟨-, _, _, _, after⟩ := actionEffect_touched effect
      show settings { outcome.state with stats := stats } = settings before
      rw [after]
      rfl
  | cleaned before now =>
      -- The election keeps what the node contributes to it.
      obtain ⟨counter, metric⟩ := electionOver_constants before.election
        (awdlPeersIterate (awdlCleanPeers now before).1.peers.peers)
      have addr := ElectionRun.electionOver_selfAddr before.election
        (awdlPeersIterate (awdlCleanPeers now before).1.peers.peers)
      show Settings.mk _ _ _ _ _ _ _ _ _ _ _ _ _ _ _ _ _ = _
      simp only [settings]
      congr 1

end Settings

section Faults

/-- What the handlers need: frames in the queues have an address, and the name ends. -/
structure Fit (hash : EtherAddr → UInt64) (own : EtherAddr) (state : DaemonState) : Prop where
  waiting : Waiting state
  apart : Apart hash own state.awdlState
  terminated : 0 ∈ state.awdlState.name.toList

theorem awdlInitFullActionFrame_ends (env : TxEnv) (state : AwdlState) (ieee80211State : Ieee80211State)
    (type : ActionType) (terminated : 0 ∈ state.name.toList) :
    ∃ bytes after, awdlInitFullActionFrame env state ieee80211State type = .ok (bytes, after) := by
  unfold awdlInitFullActionFrame
  cases type with
  | psf => exact ⟨_, _, rfl⟩
  | mif =>
      rw [if_pos rfl, awdlInitArpaTlv, strlen, if_pos terminated]
      exact ⟨_, _, rfl⟩

theorem awdlSendAction_shifting {state : DaemonState} (waiting : Waiting state)
    (terminated : 0 ∈ state.awdlState.name.toList) (env : TxEnv) (type : ActionType) :
    Shifting state (awdlSendAction env type state) := by
  obtain ⟨bytes, ieee80211State, built⟩ := awdlInitFullActionFrame_ends env state.awdlState
    state.ieee80211State type terminated
  rw [awdlSendAction, built]
  refine ⟨_, _, rfl, aside_shifts ?_ rfl rfl, waiting_aside waiting rfl rfl⟩
  intro event member
  rw [List.mem_singleton.mp member]
  trivial

theorem awdlSendMif_shifting {state : DaemonState} (waiting : Waiting state)
    (terminated : 0 ∈ state.awdlState.name.toList) (env : TxEnv) (now : UInt64) :
    Shifting state (awdlSendMif env now state) := by
  obtain ⟨after, events, run, shifts, waits⟩ := callIf_shifting
    (awdlChanNum state.awdlState.channel.current state.awdlState.channel.enc > 0)
    (awdlSendAction_shifting waiting terminated env .mif) waiting
  unfold awdlSendMif
  dsimp only
  rw [run]
  refine ⟨after, _, rfl, shifts.trans (aside_shifts ?_ rfl rfl), waits⟩
  intro event member
  rw [List.mem_singleton.mp member]
  trivial

theorem awdlSwitchChannel_shifting {state : DaemonState} (waiting : Waiting state) (long : LongWidth)
    (wlanIsFile : Bool) (now : UInt64) :
    Shifting state (.ok (awdlSwitchChannel long wlanIsFile now state)) := by
  have aside : ∀ event ∈ (awdlSwitchChannel long wlanIsFile now state).2, Aside event := by
    intro event member
    unfold awdlSwitchChannel at member
    dsimp only at member
    split at member
    · rcases List.mem_append.mp member with tuned | armed
      · cases wlanIsFile
        · rw [List.mem_singleton.mp tuned]
          trivial
        · exact absurd tuned List.not_mem_nil
      · rw [List.mem_singleton.mp armed]
        trivial
    · rw [List.mem_singleton.mp member]
      trivial
  obtain ⟨queue, next⟩ : (awdlSwitchChannel long wlanIsFile now state).1.txQueueMulticast =
      state.txQueueMulticast ∧ (awdlSwitchChannel long wlanIsFile now state).1.next = state.next := by
    unfold awdlSwitchChannel
    dsimp only
    split <;> exact ⟨rfl, rfl⟩
  exact ⟨_, _, rfl, aside_shifts aside queue next, waiting_aside waiting queue next⟩

/-- The array of `awdl_receive_frame` has room for what a frame yields. -/
def Turn.Fits (hash : EtherAddr → UInt64) (state : AwdlState) : Turn → Prop
  | .receiveFrame env frame => ¬ Overfull hash env frame state
  | _ => True

/-- A call on a daemon that is fit ends, and does nothing else with the frames of the host. -/
theorem perform_shifts {hash : EtherAddr → UInt64} {own : EtherAddr} {state : DaemonState}
    (fit : Fit hash own state) (turn : Turn) (inside : turn.Inside)
    (fits : Turn.Fits hash state.awdlState turn) :
    ∃ after report, perform hash state turn = .ok (after, report) ∧
      Shifts state report.events after ∧ Waiting after := by
  have sends : ∀ {run : Except Fault (DaemonState × List TxEvent)}, Shifting state run →
      ∃ after report, transmitting run = .ok (after, report) ∧
        Shifts state report.events after ∧ Waiting after := by
    rintro _ ⟨after, events, rfl, shifts, waits⟩
    exact ⟨after, _, rfl, shifts, waits⟩
  have quiet : ∀ awdlState, Shifts state [] { state with awdlState := awdlState } := fun awdlState =>
    aside_shifts (fun event member => absurd member List.not_mem_nil) rfl rfl
  cases turn with
  | receiveFrame env frame =>
      obtain ⟨outcome, run, -⟩ := awdlRx_effect hash env state.awdlState frame inside
        fit.apart.valid.table
      have few := (outputs_fit_iff inside run).mpr fits
      exact ⟨_, _, perform_receiveFrame.mpr ⟨outcome, run, few, rfl, rfl⟩, quiet _,
        waiting_aside fit.waiting rfl rfl⟩
  | cleanPeers now => exact ⟨_, _, rfl, quiet _, waiting_aside fit.waiting rfl rfl⟩
  | hostDeviceReady long reads multicastNow unicastNow =>
      exact sends (hostDeviceReady_shifting hash long reads multicastNow unicastNow state fit.waiting)
  | sendUnicast long now =>
      exact sends (handles_shifting (awdlSendUnicast_handles hash long now state fit.waiting)
        (awdlSendUnicast_unread hash long now state))
  | sendMulticast long now =>
      exact sends (handles_shifting (awdlSendMulticast_handles long now state fit.waiting)
        (awdlSendMulticast_unread long now state))
  | sendPsf env => exact sends (awdlSendAction_shifting fit.waiting fit.terminated env .psf)
  | sendMif env now => exact sends (awdlSendMif_shifting fit.waiting fit.terminated env now)
  | switchChannel long wlanIsFile now =>
      exact sends (awdlSwitchChannel_shifting fit.waiting long wlanIsFile now)

theorem perform_fits {hash : EtherAddr → UInt64} {state after : DaemonState} {turn : Turn}
    {report : Report} (inside : turn.Inside) (performed : perform hash state turn = .ok (after, report)) :
    Turn.Fits hash state.awdlState turn := by
  cases turn with
  | receiveFrame env frame =>
      obtain ⟨outcome, run, few, -⟩ := perform_receiveFrame.mp performed
      exact (outputs_fit_iff inside run).mp few
  | _ => trivial

theorem perform_ends_iff {hash : EtherAddr → UInt64} {own : EtherAddr} {state : DaemonState}
    (fit : Fit hash own state) (turn : Turn) (inside : turn.Inside) :
    (∃ after report, perform hash state turn = .ok (after, report)) ↔
      Turn.Fits hash state.awdlState turn := by
  constructor
  · rintro ⟨after, report, performed⟩
    exact perform_fits inside performed
  · intro fits
    obtain ⟨after, report, performed, -⟩ := perform_shifts fit turn inside fits
    exact ⟨after, report, performed⟩

theorem perform_moves {hash : EtherAddr → UInt64} {own : EtherAddr} {state after : DaemonState}
    {turn : Turn} {report : Report} (fit : Fit hash own state) (inside : turn.Inside)
    (performed : perform hash state turn = .ok (after, report)) :
    Shifts state report.events after ∧ Waiting after := by
  obtain ⟨_, _, same, moved⟩ := perform_shifts fit turn inside (perform_fits inside performed)
  rw [performed] at same
  cases same
  exact moved

theorem perform_changes {hash : EtherAddr → UInt64} {own : EtherAddr} {state after : DaemonState}
    {turn : Turn} {report : Report} (apart : Apart hash own state.awdlState) (inside : turn.Inside)
    (performed : perform hash state turn = .ok (after, report)) :
    Changes hash ⟨state.awdlState, turn, after.awdlState, report.outputs, report.trace⟩ := by
  have handled := perform_handle hash state turn
  rw [performed] at handled
  exact (handle_effect handled).changes inside apart.valid.table

/-- An admitted frame has the effect of an action frame. -/
theorem perform_admits {hash : EtherAddr → UInt64} {own : EtherAddr} {env : RxEnv} {frame mac : Buf}
    {state after : DaemonState} {report : Report} (apart : Apart hash own state.awdlState)
    (inside : RadiotapInside env) (admits : Admits hash env state.awdlState frame mac)
    (performed : perform hash state (.receiveFrame env frame) = .ok (after, report)) :
    ∃ outcome, after.awdlState = afterReceive outcome ∧ report.trace = outcome.trace ∧
      ActionEffect hash env ((mac.drop 24).drop 16) (macSource mac) (byteAt (mac.drop 24).bytes 6)
        state.awdlState outcome := by
  obtain ⟨outcome, run, rfl, rfl⟩ := perform_received performed
  rcases awdlRx_cases false hash env frame state.awdlState (inside _) with
    ⟨same, -⟩ | ⟨other, found, -, dispatched⟩
  · exact absurd (same _ admits.found) admits.foreign
  · obtain rfl : mac = other := Option.some.inj (admits.found.symm.trans found)
    obtain ⟨final, accepted, effect⟩ :=
      dispatch_admitted hash env state.awdlState frame mac apart.valid.table admits
    rw [dispatched, accepted] at run
    cases run
    exact ⟨outcome, rfl, rfl, effect⟩

theorem perform_fit {hash : EtherAddr → UInt64} {own : EtherAddr} {state after : DaemonState}
    {turn : Turn} {report : Report} (fit : Fit hash own state) (inside : turn.Inside)
    (performed : perform hash state turn = .ok (after, report)) : Fit hash own after := by
  have changes := perform_changes fit.apart inside performed
  obtain ⟨-, waits⟩ := perform_moves fit inside performed
  have name := congrArg Settings.name (changes_settings changes)
  exact ⟨waits, changes.apart fit.apart, (show after.awdlState.name = _ from name) ▸ fit.terminated⟩

theorem Performed.fit {hash : EtherAddr → UInt64} {own : EtherAddr} {start state : DaemonState}
    {reports : List Report} (run : Performed hash start reports state) (fit : Fit hash own start) :
    Fit hash own state := by
  induction run with
  | start => exact fit
  | step run turn inside performed ih => exact perform_fit ih inside performed

variable (memory : Fixed UInt8 (hostNameLengthMax + 1)) (slots : Fin txQueueLength → Buf)
  (hostname : List UInt8) (self : EtherAddr) (chan : AwdlChan) (now : UInt64) (filterRssi : Bool)

theorem daemonInit_fit (hash : EtherAddr → UInt64)
    (terminated : 0 ∈ (strncpyName memory hostname).toList) :
    Fit hash self (daemonInit memory slots hostname self chan now filterRssi) :=
  ⟨daemonInit_waiting memory slots hostname self chan now filterRssi,
    daemonInit_apart hash memory slots hostname self chan now filterRssi, terminated⟩

end Faults

/-! A daemon that tunes to its channel, sends both kinds of action frames and gets
two frames from its host. -/
section Chatter

def chatterStart : DaemonState :=
  daemonInit (Fixed.replicate _ 0) (fun _ => pingFrame) [0x6f, 0x77, 0x6c] selfAddr chanOpclass6 0 true

def chatterTurns : List Turn :=
  [.switchChannel .bits64 false 0, .sendPsf steadyClock, .sendMif steadyClock 32768,
    .hostDeviceReady .bits64 [hostFrame etherBroadcast, hostFrame etherBroadcast] 32768 32768,
    .sendMulticast .bits64 33000]

theorem chatterTurns_inside : ∀ turn ∈ chatterTurns, turn.Inside := by
  simp [chatterTurns, Turn.Inside]

end Chatter

end Owl.DaemonTrace
