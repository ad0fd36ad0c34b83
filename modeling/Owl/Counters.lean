import Owl.DaemonTrace

/-!
Sequence numbers and statistics over runs. Every frame that a daemon hands to
`wlan_send`, action or data, takes the next 802.11 sequence number, which has
twelve bits, and every data frame also takes the next AWDL sequence number. The
counters that `awdl_print_stats` shows count what has happened, but the two for
unicast and multicast also count frames that are too short to be handed over.
-/

namespace Owl.Counters

open Bytes Ether Sync Peers PeersRefine Wire State Frames Tx RxTlv Rx RxSpec RxAction RxPeers
  Schedule Daemon Transmit DaemonRun DaemonTrace Siphash RxData

section Receiving

def Received (before after : AwdlState) : Prop :=
  after.sequenceNumber = before.sequenceNumber ∧
    ∃ rxAction rxData, after.stats = { before.stats with rxAction := rxAction, rxData := rxData }

theorem Received.refl (state : AwdlState) : Received state state :=
  ⟨rfl, state.stats.rxAction, state.stats.rxData, rfl⟩

theorem Received.trans {first second third : AwdlState} (left : Received first second)
    (right : Received second third) : Received first third := by
  obtain ⟨same, _, _, stats⟩ := left
  obtain ⟨same', rxAction, rxData, stats'⟩ := right
  rw [stats] at stats'
  exact ⟨same'.trans same, rxAction, rxData, stats'⟩

theorem Received.counted (state : AwdlState) (rxAction rxData : UInt64) :
    Received state { state with stats :=
      { state.stats with rxAction := rxAction, rxData := rxData } } :=
  ⟨rfl, rxAction, rxData, rfl⟩

variable (hash : EtherAddr → UInt64) (env : RxEnv)

theorem awdlRxData_received (frame : Buf) (src dst : AddrPtr) (state : AwdlState) (index : Nat) :
    Ensures (awdlRxData false hash env frame src dst state index) fun outcome =>
      Received state outcome.state := by
  have counted := Received.counted state state.stats.rxAction (state.stats.rxData + 1)
  unfold awdlRxData
  refine .andThen fun addr => ?_
  dsimp only
  split
  · exact .ok counted
  refine .andThen fun valid => ?_
  split
  · exact .ok counted
  split
  · exact .ok counted
  refine .andThen fun type => ?_
  cases type with
  | none => exact .error .read
  | some type => exact .andThen fun target => .andThen fun out => .ok counted

theorem amsduLoop_received (fuel : Nat) (frame : Buf) (state : AwdlState) (index : Nat) :
    Ensures (amsduLoop false hash env fuel frame state index) fun outcome =>
      Received state outcome.state := by
  induction fuel generalizing frame state index with
  | zero => exact .ok (.refl state)
  | succ fuel ih =>
      rw [amsduLoop, amsduRound]
      split
      · exact .ok (.refl state)
      -- Each of the reads may end the loop.
      refine .andThen fun dst => ?_
      cases dst with
      | none => exact .ok (.refl state)
      | some dst =>
      refine .andThen fun src => ?_
      cases src with
      | none => exact .ok (.refl state)
      | some src =>
      refine .andThen fun len => ?_
      cases len with
      | none => exact .ok (.refl state)
      | some len =>
      dsimp only
      split
      · split
        · exact .ok (.refl state)
        refine .andThen fun body => ?_
        refine .bind (awdlRxData_received hash env body _ _ state index) fun sub received => ?_
        split
        · exact .ok received
        split
        · split
          · exact .bind (ih _ _ _) fun rest later => .ok (received.trans later)
          · exact .ok received
        · exact .ok received
      · exact .ok (.refl state)

theorem acceptAction_received (frame : Buf) (src : AddrPtr) (subtype : UInt8) (state : AwdlState) :
    Ensures (acceptAction false hash env frame src subtype state) fun outcome =>
      Received state outcome.state := by
  have counted := Received.counted state (state.stats.rxAction + 1) state.stats.rxData
  unfold acceptAction
  refine .andThen fun addr => ?_
  dsimp only
  split
  · exact .ok counted
  split
  · exact .ok counted
  split
  case h_2 => exact .error .read
  -- The loop changes nothing of the node but its clock.
  refine .bind (fun loop run => ?_) fun loop (kept : Received state loop.state) => ?_
  · obtain ⟨other, same, kept, -⟩ := tlvLoop_kept env _ _ _ _
    rw [run] at same
    cases same
    rw [kept.node]
    exact counted
  · split
    · exact .ok kept
    split
    · exact .ok kept
    refine .andThen fun again => .ok ?_
    split <;> exact kept

theorem dispatch_received (frame : Buf) (rssi : Int8) (fc : UInt16) (source target : AddrPtr)
    (state : AwdlState) :
    Ensures (dispatch false hash env frame rssi fc source target state) fun outcome =>
      Received state outcome.state := by
  have single : ∀ body, Ensures (do
      return (← awdlRxData false hash env body source target state 0).toRx)
      fun outcome => Received state outcome.state := fun body =>
    .bind (awdlRxData_received hash env body source target state 0) fun outcome received => .ok received
  unfold dispatch
  dsimp only
  split
  · unfold awdlRxAction
    refine .andThen fun subtype => ?_
    cases subtype with
    | none => exact .ok (.refl state)
    | some subtype =>
        dsimp only
        split
        · refine .andThen fun addr => ?_
          split
          · exact .ok (.refl state)
          · exact acceptAction_received hash env _ source subtype state
        · exact acceptAction_received hash env _ source subtype state
  split
  · refine .andThen fun qos => ?_
    cases qos with
    | none => exact .ok (.refl state)
    | some qos =>
        dsimp only
        split
        · split
          · exact .bind (amsduLoop_received hash env _ _ state 0) fun outcome received => .ok received
          · exact single _
        · exact .ok (.refl state)
  split
  · exact single frame
  · exact .ok (.refl state)

theorem awdlRx_received (frame : Buf) (state : AwdlState) :
    Ensures (awdlRx false hash env frame state) fun outcome => Received state outcome.state := by
  unfold awdlRx
  dsimp only
  split
  · exact .ok (.refl state)
  refine .andThen fun length => ?_
  split
  · split
    · split
      · refine .andThen fun fc => .andThen fun source => ?_
        split
        · exact .ok (.refl state)
        split
        · exact dispatch_received hash env _ _ _ _ _ state
        · exact .ok (.refl state)
      · exact .ok (.refl state)
    · exact .ok (.refl state)
  · exact .ok (.refl state)

end Receiving

section Frames

/-- The sequence control field; nine bytes of radiotap header stand before the frame. -/
def sequenceControl (frame : List UInt8) : UInt16 := ofLe16 (slice frame 31 2)

def dataSequence (frame : List UInt8) : UInt16 := ofLe16 (slice frame 43 2)

theorem shift_toNat (seq : UInt16) (small : seq.toNat < 4096) : (seq <<< 4).toNat = 16 * seq.toNat := by
  have four : (4 : UInt16).toNat % 16 = 4 := rfl
  rw [UInt16.toNat_shiftLeft, four, Nat.shiftLeft_eq]
  omega

theorem nextSequence_toNat (state : Ieee80211State) :
    (ieee80211StateNextSequenceNumber state).2.sequenceNumber.toNat =
      (state.sequenceNumber.toNat + 1) % 4096 := by
  have mask : (0x0fff : UInt16).toNat = 2 ^ 12 - 1 := rfl
  have one : (1 : UInt16).toNat = 1 := rfl
  show ((state.sequenceNumber + 1) &&& 0x0fff).toNat = _
  rw [UInt16.toNat_and, mask, Nat.and_two_pow_sub_one_eq_mod, UInt16.toNat_add, one]
  omega

theorem awdlInitFullDataFrame_fields (src dst : EtherAddr) (payload : List UInt8) (state : AwdlState)
    (ieee80211State : Ieee80211State) :
    sequenceControl (awdlInitFullDataFrame src dst payload state ieee80211State).1 =
        ieee80211State.sequenceNumber <<< 4 ∧
      dataSequence (awdlInitFullDataFrame src dst payload state ieee80211State).1 =
        state.sequenceNumber := by
  have fields : ∀ bytes, slice bytes 31 2 = le16 (ieee80211State.sequenceNumber <<< 4) →
      slice bytes 43 2 = le16 state.sequenceNumber →
      sequenceControl bytes = ieee80211State.sequenceNumber <<< 4 ∧
        dataSequence bytes = state.sequenceNumber := by
    intro bytes control sequence
    rw [sequenceControl, dataSequence, control, sequence]
    exact ⟨ofLe16_le16 _ [], ofLe16_le16 _ []⟩
  unfold awdlInitFullDataFrame withFcs
  dsimp only
  split
  · exact fields _ rfl rfl
  · exact fields _ rfl rfl

theorem awdlInitFullActionFrame_fields (env : TxEnv) (state : AwdlState)
    (ieee80211State : Ieee80211State) (type : ActionType) :
    Ensures (awdlInitFullActionFrame env state ieee80211State type) fun built =>
      sequenceControl built.1 = ieee80211State.sequenceNumber <<< 4 ∧
        built.2 = (ieee80211StateNextSequenceNumber ieee80211State).2 := by
  have field : ∀ bytes, slice bytes 31 2 = le16 (ieee80211State.sequenceNumber <<< 4) →
      sequenceControl bytes = ieee80211State.sequenceNumber <<< 4 := by
    intro bytes control
    rw [sequenceControl, control]
    exact ofLe16_le16 _ []
  have built : ∀ rest, sequenceControl (withFcs (ieee80211InitAwdlActionHdr state.selfAddress
      state.dst ieee80211State).2 (ieee80211InitRadiotapHeader ++ (ieee80211InitAwdlActionHdr
      state.selfAddress state.dst ieee80211State).1 ++ rest)) = ieee80211State.sequenceNumber <<< 4 := by
    intro rest
    unfold withFcs
    split
    · exact field _ rfl
    · exact field _ rfl
  unfold awdlInitFullActionFrame
  dsimp only
  split
  · refine .andThen fun arpa => .ok ⟨?_, rfl⟩
    simpa only [List.append_assoc] using built _
  · refine .andThen fun arpa => .ok ⟨?_, rfl⟩
    simpa only [List.append_assoc] using built _

/-- The data path either sends nothing or one numbered frame. -/
theorem awdlSendData_cases (frame : Buf) (state : AwdlState) (ieee80211State : Ieee80211State) :
    Ensures (awdlSendData frame state ieee80211State) fun sent =>
      sent = (none, state, ieee80211State) ∨
        ∃ bytes, sent = (some bytes,
            { state with
              sequenceNumber := state.sequenceNumber + 1
              stats := { state.stats with txData := state.stats.txData + 1 } },
            (ieee80211StateNextSequenceNumber ieee80211State).2) ∧
          sequenceControl bytes = ieee80211State.sequenceNumber <<< 4 ∧
          dataSequence bytes = state.sequenceNumber := by
  unfold awdlSendData
  refine .andThen fun type => ?_
  cases type with
  | none => exact .ok (.inl rfl)
  | some type =>
  refine .andThen fun dst => ?_
  cases dst with
  | none => exact .ok (.inl rfl)
  | some dst =>
  refine .andThen fun src => ?_
  cases src with
  | none => exact .ok (.inl rfl)
  | some src =>
  dsimp only
  split
  · exact .error .write
  · exact .ok (.inr ⟨_, rfl, awdlInitFullDataFrame_fields _ _ _ _ _⟩)

end Frames

section Tally

def sentOf : TxEvent → Option (List UInt8)
  | .wlanSend bytes => some bytes
  | .awdlSendData _ bytes => bytes
  | _ => none

def dataOf : TxEvent → Option (List UInt8)
  | .awdlSendData _ bytes => bytes
  | _ => none

def actionOf : TxEvent → Option (List UInt8)
  | .wlanSend bytes => some bytes
  | _ => none

/-- The frames handed to `wlan_send`, in order; its result is ignored. -/
def framesSent (events : List TxEvent) : List (List UInt8) := events.filterMap sentOf

def dataSent (events : List TxEvent) : List (List UInt8) := events.filterMap dataOf

def actionsSent (events : List TxEvent) : List (List UInt8) := events.filterMap actionOf

def Placed {α : Type} (property : Nat → α → Prop) (items : List α) : Prop :=
  ∀ k item, items[k]? = some item → property k item

theorem Placed.concat {α : Type} {property : Nat → α → Prop} {items : List α} {item : α}
    (placed : Placed property items) (last : property items.length item) :
    Placed property (items ++ [item]) := by
  intro k other found
  rw [List.getElem?_append] at found
  split at found
  · exact placed k other found
  case isFalse behind =>
    obtain ⟨inside, same⟩ := List.getElem?_eq_some_iff.mp found
    rw [List.length_singleton] at inside
    have place : k = items.length := by omega
    subst place
    rw [← same]
    simpa using last

structure Numbered (events : List TxEvent) (state : DaemonState) : Prop where
  next : state.ieee80211State.sequenceNumber.toNat = (framesSent events).length % 4096
  nextData : state.awdlState.sequenceNumber.toNat = (dataSent events).length % 2 ^ 16
  frames : Placed (fun k bytes => (sequenceControl bytes).toNat = 16 * (k % 4096)) (framesSent events)
  data : Placed (fun k bytes => (dataSequence bytes).toNat = k % 2 ^ 16) (dataSent events)

structure Counted (events : List TxEvent) (stats : AwdlStats) : Prop where
  action : stats.txAction.toNat = (actionsSent events).length % 2 ^ 64
  data : stats.txData.toNat = (dataSent events).length % 2 ^ 64
  handed : (stats.txDataUnicast + stats.txDataMulticast).toNat =
    (TransmitQueues.framesHanded events).length % 2 ^ 64

theorem silent_unsent {tunes : Bool} {event : TxEvent} (silent : Silent tunes event) :
    sentOf event = none ∧ dataOf event = none ∧ actionOf event = none ∧
      TransmitQueues.handedOf event = none := by
  cases event with
  | awdlSendData frame bytes => exact absurd silent id
  | wlanSend bytes => exact absurd silent id
  | _ => exact ⟨rfl, rfl, rfl, rfl⟩

theorem filterMap_concat {α : Type} {f : TxEvent → Option α} (events : List TxEvent)
    (event : TxEvent) : (events ++ [event]).filterMap f = events.filterMap f ++ (f event).toList := by
  rw [List.filterMap_append]
  cases found : f event <;> simp [found]

theorem data_numbered {events : List TxEvent} {state after : DaemonState}
    (numbered : Numbered events state) {frame : Buf} {bytes : Option (List UInt8)}
    {awdlState : AwdlState} {ieee80211State : Ieee80211State}
    (sent : awdlSendData frame state.awdlState state.ieee80211State =
      .ok (bytes, awdlState, ieee80211State))
    (sequence : after.awdlState.sequenceNumber = awdlState.sequenceNumber)
    (same : after.ieee80211State = ieee80211State) :
    Numbered (events ++ [.awdlSendData frame bytes]) after := by
  obtain unsent | ⟨raw, done, control, number⟩ := awdlSendData_cases _ _ _ _ sent
  · cases unsent
    have frames : framesSent (events ++ [.awdlSendData frame none]) = framesSent events := by
      rw [framesSent, filterMap_concat]
      exact List.append_nil _
    have data : dataSent (events ++ [.awdlSendData frame none]) = dataSent events := by
      rw [dataSent, filterMap_concat]
      exact List.append_nil _
    refine ⟨?_, ?_, by rw [frames]; exact numbered.frames, by rw [data]; exact numbered.data⟩
    · rw [frames, same]
      exact numbered.next
    · rw [data, sequence]
      exact numbered.nextData
  · cases done
    have frames : framesSent (events ++ [.awdlSendData frame (some raw)]) =
        framesSent events ++ [raw] := filterMap_concat _ _
    have data : dataSent (events ++ [.awdlSendData frame (some raw)]) = dataSent events ++ [raw] :=
      filterMap_concat _ _
    have next := numbered.next
    have nextData := numbered.nextData
    refine ⟨?_, ?_, ?_, ?_⟩
    · rw [frames, same, nextSequence_toNat, List.length_append, List.length_singleton]
      omega
    · have one : (1 : UInt16).toNat = 1 := rfl
      rw [data, sequence, List.length_append, List.length_singleton, UInt16.toNat_add, one]
      omega
    · rw [frames]
      refine numbered.frames.concat ?_
      rw [control, shift_toNat _ (by omega), next]
    · rw [data]
      refine numbered.data.concat ?_
      rw [number, nextData]

theorem op_numbered {tunes acts : Bool} {events more : List TxEvent} {state after : DaemonState}
    (numbered : Numbered events state) (op : Op tunes acts state more after) :
    Numbered (events ++ more) after := by
  cases op with
  | silent event silent =>
      obtain ⟨unsent, noData, -⟩ := silent_unsent silent
      have frames : framesSent (events ++ [event]) = framesSent events := by
        rw [framesSent, filterMap_concat, unsent]
        exact List.append_nil _
      have data : dataSent (events ++ [event]) = dataSent events := by
        rw [dataSent, filterMap_concat, noData]
        exact List.append_nil _
      exact ⟨by rw [frames]; exact numbered.next, by rw [data]; exact numbered.nextData,
        by rw [frames]; exact numbered.frames, by rw [data]; exact numbered.data⟩
  | queues next queue =>
      rw [List.append_nil]
      exact ⟨numbered.next, numbered.nextData, numbered.frames, numbered.data⟩
  | tune allowed current =>
      rw [List.append_nil]
      exact ⟨numbered.next, numbered.nextData, numbered.frames, numbered.data⟩
  | unicast frame bytes awdlState ieee80211State sent => exact data_numbered numbered sent rfl rfl
  | multicast frame bytes awdlState ieee80211State sent => exact data_numbered numbered sent rfl rfl
  | action _ env type bytes ieee80211State built =>
      obtain ⟨control, rfl⟩ := awdlInitFullActionFrame_fields _ _ _ _ _ built
      have frames : framesSent (events ++ [.wlanSend bytes]) = framesSent events ++ [bytes] :=
        filterMap_concat _ _
      have data : dataSent (events ++ [.wlanSend bytes]) = dataSent events := by
        rw [dataSent, filterMap_concat]
        exact List.append_nil _
      have next := numbered.next
      refine ⟨?_, by rw [data]; exact numbered.nextData, ?_, by rw [data]; exact numbered.data⟩
      · rw [frames, nextSequence_toNat, List.length_append, List.length_singleton]
        omega
      · rw [frames]
        refine numbered.frames.concat ?_
        rw [control, shift_toNat _ (by omega), next]

theorem ops_numbered {tunes acts : Bool} {events more : List TxEvent} {state after : DaemonState}
    (ops : Ops tunes acts state more after) (numbered : Numbered events state) :
    Numbered (events ++ more) after := by
  induction ops generalizing events with
  | nil state =>
      rw [List.append_nil]
      exact numbered
  | cons op rest ih =>
      rw [← List.append_assoc]
      exact ih (op_numbered numbered op)

theorem next_toNat (counter : UInt64) (n : Nat) (counts : counter.toNat = n % 2 ^ 64) :
    (counter + 1).toNat = (n + 1) % 2 ^ 64 := by
  have one : (1 : UInt64).toNat = 1 := rfl
  rw [UInt64.toNat_add, one]
  omega

/-- The frame is counted by the function that has handed it over, sent or not. -/
theorem data_counted {events : List TxEvent} {state : DaemonState}
    (counted : Counted events state.awdlState.stats) {frame : Buf} {bytes : Option (List UInt8)}
    {awdlState : AwdlState} {ieee80211State : Ieee80211State}
    (sent : awdlSendData frame state.awdlState state.ieee80211State =
      .ok (bytes, awdlState, ieee80211State)) (stats : AwdlStats)
    (action : stats.txAction = awdlState.stats.txAction) (data : stats.txData = awdlState.stats.txData)
    (handed : stats.txDataUnicast + stats.txDataMulticast =
      awdlState.stats.txDataUnicast + awdlState.stats.txDataMulticast + 1) :
    Counted (events ++ [.awdlSendData frame bytes]) stats := by
  have actions : actionsSent (events ++ [.awdlSendData frame bytes]) = actionsSent events := by
    rw [actionsSent, filterMap_concat]
    exact List.append_nil _
  have frames : TransmitQueues.framesHanded (events ++ [.awdlSendData frame bytes]) =
      TransmitQueues.framesHanded events ++ [frame] := List.filterMap_append
  have sends : dataSent (events ++ [.awdlSendData frame bytes]) = dataSent events ++ bytes.toList :=
    filterMap_concat _ _
  obtain unsent | ⟨raw, done, -⟩ := awdlSendData_cases _ _ _ _ sent
  · cases unsent
    refine ⟨?_, ?_, ?_⟩
    · rw [action, actions]
      exact counted.action
    · rw [data, sends, Option.toList_none, List.append_nil]
      exact counted.data
    · rw [handed, frames, List.length_append]
      exact next_toNat _ _ counted.handed
  · cases done
    refine ⟨?_, ?_, ?_⟩
    · rw [action, actions]
      exact counted.action
    · rw [data, sends, List.length_append]
      exact next_toNat _ _ counted.data
    · rw [handed, frames, List.length_append]
      exact next_toNat _ _ counted.handed

theorem op_counted {tunes acts : Bool} {events more : List TxEvent} {state after : DaemonState}
    (counted : Counted events state.awdlState.stats) (op : Op tunes acts state more after) :
    Counted (events ++ more) after.awdlState.stats := by
  cases op with
  | silent event silent =>
      obtain ⟨-, noData, noAction, unhanded⟩ := silent_unsent silent
      refine ⟨?_, ?_, ?_⟩
      · rw [actionsSent, filterMap_concat, noAction, Option.toList_none, List.append_nil]
        exact counted.action
      · rw [dataSent, filterMap_concat, noData, Option.toList_none, List.append_nil]
        exact counted.data
      · rw [TransmitQueues.framesHanded, filterMap_concat, unhanded, Option.toList_none,
          List.append_nil]
        exact counted.handed
  | queues next queue =>
      rw [List.append_nil]
      exact counted
  | tune allowed current =>
      rw [List.append_nil]
      exact counted
  | unicast frame bytes awdlState ieee80211State sent =>
      refine data_counted counted sent _ rfl rfl ?_
      show awdlState.stats.txDataUnicast + 1 + awdlState.stats.txDataMulticast = _
      grind
  | multicast frame bytes awdlState ieee80211State sent =>
      refine data_counted counted sent _ rfl rfl ?_
      show awdlState.stats.txDataUnicast + (awdlState.stats.txDataMulticast + 1) = _
      grind
  | action _ env type bytes ieee80211State built =>
      refine ⟨?_, ?_, ?_⟩
      · rw [actionsSent, filterMap_concat, actionOf, Option.toList_some, List.length_append]
        exact next_toNat _ _ counted.action
      · rw [dataSent, filterMap_concat, show dataOf (.wlanSend bytes) = none from rfl,
          Option.toList_none, List.append_nil]
        exact counted.data
      · rw [TransmitQueues.framesHanded, filterMap_concat,
          show TransmitQueues.handedOf (.wlanSend bytes) = none from rfl, Option.toList_none,
          List.append_nil]
        exact counted.handed

theorem ops_counted {tunes acts : Bool} {events more : List TxEvent} {state after : DaemonState}
    (ops : Ops tunes acts state more after) (counted : Counted events state.awdlState.stats) :
    Counted (events ++ more) after.awdlState.stats := by
  induction ops generalizing events with
  | nil state =>
      rw [List.append_nil]
      exact counted
  | cons op rest ih =>
      rw [← List.append_assoc]
      exact ih (op_counted counted op)

theorem op_rxUnknown {tunes acts : Bool} {more : List TxEvent} {state after : DaemonState}
    (op : Op tunes acts state more after) :
    after.awdlState.stats.rxUnknown = state.awdlState.stats.rxUnknown := by
  have sends : ∀ {frame : Buf} {bytes : Option (List UInt8)} {awdlState : AwdlState}
      {ieee80211State : Ieee80211State}, awdlSendData frame state.awdlState state.ieee80211State =
        .ok (bytes, awdlState, ieee80211State) →
      awdlState.stats.rxUnknown = state.awdlState.stats.rxUnknown := by
    intro frame bytes awdlState ieee80211State sent
    obtain unsent | ⟨raw, done, -⟩ := awdlSendData_cases _ _ _ _ sent
    · cases unsent
      rfl
    · cases done
      rfl
  cases op with
  | unicast frame bytes awdlState ieee80211State sent =>
      exact Eq.trans (b := awdlState.stats.rxUnknown) rfl (sends sent)
  | multicast frame bytes awdlState ieee80211State sent =>
      exact Eq.trans (b := awdlState.stats.rxUnknown) rfl (sends sent)
  | _ => rfl

theorem ops_rxUnknown {tunes acts : Bool} {more : List TxEvent} {state after : DaemonState}
    (ops : Ops tunes acts state more after) :
    after.awdlState.stats.rxUnknown = state.awdlState.stats.rxUnknown := by
  induction ops with
  | nil state => rfl
  | cons op rest ih => exact ih.trans (op_rxUnknown op)

end Tally

section Runs

def eventsOf (reports : List Report) : List TxEvent := reports.flatMap Report.events

theorem eventsOf_append (early late : List Report) :
    eventsOf (early ++ late) = eventsOf early ++ eventsOf late := List.flatMap_append

def unhandled (report : Report) : Bool := report.result.any fun result => decide (result.code < 0)

structure Ledger (reports : List Report) (state : DaemonState) : Prop where
  numbered : Numbered (eventsOf reports) state
  counted : Counted (eventsOf reports) state.awdlState.stats
  unknown : state.awdlState.stats.rxUnknown.toNat = (reports.filter unhandled).length % 2 ^ 64

theorem afterReceive_counts (outcome : RxOutcome) :
    afterReceive outcome = { outcome.state with stats :=
      { outcome.state.stats with rxUnknown :=
          if outcome.result.code < 0 then outcome.state.stats.rxUnknown + 1
          else outcome.state.stats.rxUnknown } } := by
  unfold afterReceive
  split <;> rfl

theorem deed_ledger {hash : EtherAddr → UInt64} {reports : List Report} {state after : DaemonState}
    {report : Report} (ledger : Ledger reports state) (deed : Deed hash state report after) :
    Ledger (reports ++ [report]) after := by
  obtain ⟨numbered, counted, unknown⟩ := ledger
  have events : eventsOf (reports ++ [report]) = eventsOf reports ++ report.events := by
    simp [eventsOf]
  have handled : unhandled report = false →
      (reports ++ [report]).filter unhandled = reports.filter unhandled := by
    intro fine
    rw [List.filter_append, List.filter_singleton, fine]
    exact List.append_nil _
  cases deed with
  | received env frame outcome inside run =>
      obtain ⟨sequence, rxAction, rxData, stats⟩ := awdlRx_received hash env frame _ _ run
      rw [List.append_nil] at events
      rw [afterReceive_counts]
      refine ⟨⟨?_, ?_, ?_, ?_⟩, ⟨?_, ?_, ?_⟩, ?_⟩
      all_goals simp only [events, stats, sequence]
      · exact numbered.next
      · exact numbered.nextData
      · exact numbered.frames
      · exact numbered.data
      · exact counted.action
      · exact counted.data
      · exact counted.handed
      -- Only here `rx_unknown` moves, together with the number of failures.
      · split
        case isTrue negative =>
          have bad : unhandled
              ⟨outcome.outputs, hostFrames outcome, outcome.trace, some outcome.result, []⟩ = true :=
            decide_eq_true negative
          rw [List.filter_append, List.filter_singleton, bad, List.length_append]
          exact next_toNat _ _ unknown
        case isFalse fine =>
          rw [handled (decide_eq_false fine)]
          exact unknown
  | cleaned now =>
      rw [List.append_nil] at events
      exact ⟨by rw [events]; exact ⟨numbered.next, numbered.nextData, numbered.frames, numbered.data⟩,
        by rw [events]; exact counted, by rw [handled rfl]; exact unknown⟩
  | operated more after ops =>
      refine ⟨by rw [events]; exact ops_numbered ops numbered,
        by rw [events]; exact ops_counted ops counted, ?_⟩
      rw [handled rfl, ops_rxUnknown ops]
      exact unknown

theorem performed_ledger {hash : EtherAddr → UInt64} {start state : DaemonState}
    {reports : List Report} (run : Performed hash start reports state) (fresh : Ledger [] start) :
    Ledger reports state := by
  induction run with
  | start => exact fresh
  | step run turn inside performed ih => exact deed_ledger ih (perform_deed inside performed)

variable (memory : Fixed UInt8 (hostNameLengthMax + 1)) (slots : Fin txQueueLength → Buf)
  (hostname : List UInt8) (self : EtherAddr) (chan : Channel.AwdlChan) (now : UInt64)
  (filterRssi : Bool)

theorem daemonInit_ledger :
    Ledger [] (daemonInit memory slots hostname self chan now filterRssi) := by
  refine ⟨⟨rfl, rfl, ?_, ?_⟩, ⟨rfl, rfl, rfl⟩, rfl⟩
  · intro k bytes found
    cases found
  · intro k bytes found
    cases found

/-- The frames of a daemon carry consecutive numbers, in the order in which they are
handed to `wlan_send`, whatever happens between them. -/
theorem frames_numbered (hash : EtherAddr → UInt64) (reports : List Report) (state : DaemonState)
    (run : Performed hash (daemonInit memory slots hostname self chan now filterRssi) reports state) :
    (∀ k bytes, (framesSent (eventsOf reports))[k]? = some bytes →
      (sequenceControl bytes).toNat = 16 * (k % 4096)) ∧
    ∀ k bytes, (dataSent (eventsOf reports))[k]? = some bytes →
      (dataSequence bytes).toNat = k % 2 ^ 16 := by
  have ledger := performed_ledger run
    (daemonInit_ledger memory slots hostname self chan now filterRssi)
  exact ⟨ledger.numbered.frames, ledger.numbered.data⟩

/-- The statistics are the numbers of frames handed to `wlan_send`, of frames taken
from the queues and of unknown frames, modulo the width of the counters. -/
theorem statistics_agree (hash : EtherAddr → UInt64) (reports : List Report) (state : DaemonState)
    (run : Performed hash (daemonInit memory slots hostname self chan now filterRssi) reports state) :
    state.awdlState.stats.txAction.toNat =
        (actionsSent (eventsOf reports)).length % 2 ^ 64 ∧
      state.awdlState.stats.txData.toNat = (dataSent (eventsOf reports)).length % 2 ^ 64 ∧
      (state.awdlState.stats.txDataUnicast + state.awdlState.stats.txDataMulticast).toNat =
        (TransmitQueues.framesHanded (eventsOf reports)).length % 2 ^ 64 ∧
      state.awdlState.stats.rxUnknown.toNat = (reports.filter unhandled).length % 2 ^ 64 := by
  obtain ⟨-, counted, unknown⟩ :=
    performed_ledger run (daemonInit_ledger memory slots hostname self chan now filterRssi)
  exact ⟨counted.action, counted.data, counted.handed, unknown⟩

end Runs

section Chatter

theorem chatter_sent : ∃ reports state, Performed addrHash chatterStart reports state ∧
    (framesSent (eventsOf reports)).length = 4 ∧ (dataSent (eventsOf reports)).length = 2 := by
  have shown : ((performAll addrHash chatterTurns chatterStart).map fun done =>
      ((framesSent (eventsOf done.1)).length, (dataSent (eventsOf done.1)).length)).toOption =
      some (4, 2) := by decide +kernel
  obtain ⟨⟨reports, state⟩, ends, sent⟩ := toOption_map_some shown
  obtain ⟨frames, data⟩ := Prod.mk.inj sent
  exact ⟨reports, state, performAll_performed chatterTurns_inside .start ends, frames, data⟩

theorem frames_numbered_chatter : ∃ reports state bytes,
    Performed addrHash chatterStart reports state ∧
      (framesSent (eventsOf reports))[3]? = some bytes ∧ (sequenceControl bytes).toNat = 48 := by
  obtain ⟨reports, state, run, frames, -⟩ := chatter_sent
  obtain ⟨bytes, found⟩ : ∃ bytes, (framesSent (eventsOf reports))[3]? = some bytes :=
    ⟨_, List.getElem?_eq_getElem (by omega)⟩
  exact ⟨reports, state, bytes, run, found,
    (frames_numbered _ _ _ _ _ _ _ addrHash reports state run).1 3 bytes found⟩

theorem statistics_agree_chatter : ∃ reports state,
    Performed addrHash chatterStart reports state ∧ state.awdlState.stats.txData.toNat = 2 := by
  obtain ⟨reports, state, run, -, data⟩ := chatter_sent
  have counted := (statistics_agree _ _ _ _ _ _ _ addrHash reports state run).2.1
  rw [data] at counted
  exact ⟨reports, state, run, counted⟩

end Chatter

end Owl.Counters
