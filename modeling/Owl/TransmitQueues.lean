import Owl.RoundTrip
import Owl.Transmit

/-!
What happens to the frames of the host. Every handler moves frames from the
host device into the two queues and out of them at the other end; `Moves` says
that for one handler and composes. A run interleaves the handlers with changes
of the node by others (frames received, peers removed, channels switched), which
do not touch the queues.
-/

namespace Owl.TransmitQueues

open Bytes Ether Channel Sync Peers Wire State Frames Tx CircularBuffer Schedule Daemon Transmit
  RoundTrip RxSpec RxData Siphash

def isMulticast (frame : Buf) : Bool := byteAt frame.bytes 0 &&& 0x01 != 0

def isUnicast (frame : Buf) : Bool := !isMulticast frame

def readOf : TxEvent → Option Buf
  | .hostRecv frame => some frame
  | _ => none

def handedOf : TxEvent → Option Buf
  | .awdlSendData frame _ => some frame
  | _ => none

def consumedOf : TxEvent → Option Buf
  | .awdlSendData frame _ => some frame
  | .hostSend frame => some frame
  | .drop frame => some frame
  | _ => none

def framesRead (events : List TxEvent) : List Buf := events.filterMap readOf

def framesHanded (events : List TxEvent) : List Buf := events.filterMap handedOf

def framesConsumed (events : List TxEvent) : List Buf := events.filterMap consumedOf

theorem framesRead_append (early late : List TxEvent) :
    framesRead (early ++ late) = framesRead early ++ framesRead late := List.filterMap_append

theorem framesHanded_append (early late : List TxEvent) :
    framesHanded (early ++ late) = framesHanded early ++ framesHanded late := List.filterMap_append

theorem framesConsumed_append (early late : List TxEvent) :
    framesConsumed (early ++ late) = framesConsumed early ++ framesConsumed late :=
  List.filterMap_append

def PutsFit (events : List TxEvent) : Prop :=
  ∀ frame full, TxEvent.circularBufPut frame full ∈ events → full = false

/-- What `awdl_send_data` does with a frame: it needs a complete Ethernet header. -/
def SendsWhole (events : List TxEvent) : Prop :=
  ∀ frame bytes, TxEvent.awdlSendData frame bytes ∈ events →
    (bytes.isSome ↔ 14 ≤ frame.bytes.length)

/-- First in, first out: `output` is what left a queue while `input` entered it. -/
def Fifo {α : Type} (before input output after : List α) : Prop :=
  output ++ after = before ++ input

theorem Fifo.trans {α : Type} {first second third input output laterInput laterOutput : List α}
    (left : Fifo first input output second) (right : Fifo second laterInput laterOutput third) :
    Fifo first (input ++ laterInput) (output ++ laterOutput) third := by
  calc output ++ laterOutput ++ third
      = output ++ (laterOutput ++ third) := List.append_assoc ..
    _ = output ++ (second ++ laterInput) := congrArg (output ++ ·) right
    _ = output ++ second ++ laterInput := (List.append_assoc ..).symm
    _ = first ++ input ++ laterInput := congrArg (· ++ laterInput) left
    _ = first ++ (input ++ laterInput) := List.append_assoc ..

structure Moves (before : DaemonState) (events : List TxEvent) (after : DaemonState) : Prop where
  multicast : Fifo (contents before.txQueueMulticast) ((framesRead events).filter isMulticast)
    ((framesHanded events).filter isMulticast) (contents after.txQueueMulticast)
  unicast : Fifo before.next.toList ((framesRead events).filter isUnicast)
    ((framesConsumed events).filter isUnicast) after.next.toList
  puts : PutsFit events
  sends : SendsWhole events

structure Sendable (frame : Buf) : Prop where
  addressed : 6 ≤ frame.bytes.length
  bound : frame.bytes.length ≤ etherMaxLen

structure Waiting (state : DaemonState) : Prop where
  multicast : ∀ frame ∈ contents state.txQueueMulticast, Sendable frame ∧ isMulticast frame = true
  unicast : ∀ frame ∈ state.next, Sendable frame ∧ isMulticast frame = false

def Handles (before : DaemonState) (run : Except Fault (DaemonState × List TxEvent)) : Prop :=
  ∃ after events, run = .ok (after, events) ∧ Moves before events after ∧ Waiting after

theorem Moves.refl {before after : DaemonState}
    (queue : after.txQueueMulticast = before.txQueueMulticast) (next : after.next = before.next) :
    Moves before [] after := by
  refine ⟨?_, ?_, ?_, ?_⟩
  · rw [queue]
    exact (List.append_nil _).symm
  · rw [next]
    exact (List.append_nil _).symm
  · intro frame full inside
    cases inside
  · intro frame bytes inside
    cases inside

theorem Moves.trans {first second third : DaemonState} {early late : List TxEvent}
    (left : Moves first early second) (right : Moves second late third) :
    Moves first (early ++ late) third := by
  refine ⟨?_, ?_, ?_, ?_⟩
  · have both := left.multicast.trans right.multicast
    rwa [← List.filter_append, ← List.filter_append, ← framesRead_append, ← framesHanded_append]
      at both
  · have both := left.unicast.trans right.unicast
    rwa [← List.filter_append, ← List.filter_append, ← framesRead_append, ← framesConsumed_append]
      at both
  · intro frame full inside
    rcases List.mem_append.mp inside with earlier | later
    · exact left.puts frame full earlier
    · exact right.puts frame full later
  · intro frame bytes inside
    rcases List.mem_append.mp inside with earlier | later
    · exact left.sends frame bytes earlier
    · exact right.sends frame bytes later

/-- The buffer holds what was read. -/
theorem hostRecv_eq (read : HostRead) :
    ∃ buf, hostRecv read = .ok buf ∧ buf.bytes = read.bytes := by
  have size : (bufNewOwned read.memory etherMaxLen_small).bytes.length = etherMaxLen := read.memory.size
  have fits := read.fits
  obtain ⟨filled, stored, bytes⟩ := storeBuf_inside (bufNewOwned read.memory etherMaxLen_small) 0
    read.bytes (by omega)
  have patched : filled.bytes = read.bytes ++
      (bufNewOwned read.memory etherMaxLen_small).bytes.drop read.bytes.length := by
    rw [bytes, patch, List.take_zero, List.nil_append, Nat.zero_add]
  have length : filled.bytes.length = etherMaxLen := by
    rw [patched, List.length_append, List.length_drop]
    omega
  have inside : ¬ (bufLen filled - read.bytes.length > bufLen filled ∨
      bufLen filled - read.bytes.length < 0) := by
    unfold bufLen
    omega
  rw [Nat.cast_zero] at stored
  refine ⟨_, by rw [hostRecv, stored]; rfl, ?_⟩
  rw [bufTake, if_neg inside, Option.getD_some]
  -- `buf_take` cuts off the fresh memory behind what was read.
  have count : filled.bytes.length - (bufLen filled - read.bytes.length).toNat =
      read.bytes.length := by
    unfold bufLen
    omega
  show filled.bytes.take _ = read.bytes
  rw [count, patched, List.take_left]

theorem withFcs_length (state : Ieee80211State) (bytes : List UInt8) :
    (withFcs state bytes).length ≤ bytes.length + 4 := by
  unfold withFcs
  split
  · rw [List.length_append, ieee80211AddFcs, le32_length]
  · exact Nat.le_add_right _ _

theorem awdlInitFullDataFrame_length (src dst : EtherAddr) (payload : List UInt8)
    (state : AwdlState) (ieee80211State : Ieee80211State) :
    (awdlInitFullDataFrame src dst payload state ieee80211State).1.length ≤
      53 + payload.length := by
  have built : (awdlInitFullDataFrame src dst payload state ieee80211State).1 =
      withFcs (ieee80211InitAwdlDataHdr src dst ieee80211State).2
        (ieee80211InitRadiotapHeader ++ dataMac dst src state ieee80211State payload) := by
    simp only [awdlInitFullDataFrame, dataMac, List.append_assoc]
  have bound := withFcs_length (ieee80211InitAwdlDataHdr src dst ieee80211State).2
    (ieee80211InitRadiotapHeader ++ dataMac dst src state ieee80211State payload)
  have tap : ieee80211InitRadiotapHeader.length = 9 := rfl
  rw [List.length_append, dataMac_length] at bound
  rw [built]
  omega

/-- `awdl_send_data` of a frame from the host: a complete Ethernet header is all it needs. -/
theorem awdlSendData_sends (frame : Buf) (bound : frame.bytes.length ≤ etherMaxLen)
    (state : AwdlState) (ieee80211State : Ieee80211State) :
    ∃ bytes after ieee80211After,
      awdlSendData frame state ieee80211State = .ok (bytes, after, ieee80211After) ∧
      (bytes.isSome ↔ 14 ≤ frame.bytes.length) := by
  unfold awdlSendData
  simp (disch := decide) only [readBe16_eq, readEtherAddr_eq, except_ok_bind, Int.reduceToNat]
  by_cases whole : 14 ≤ frame.bytes.length
  · have strip := bufStrip_eq frame 14
    rw [Nat.cast_ofNat, if_pos whole] at strip
    rw [peek_inside 2 _ _ 12 (by omega), peek_inside 6 _ _ 0 (by omega),
      peek_inside 6 _ _ 6 (by omega), strip]
    simp only [Option.getD_some]
    -- The headers add at most 53 bytes to a payload below `ETHER_MAX_LEN`.
    have fits : ¬ (awdlInitFullDataFrame (EtherAddr.ofBytes (slice frame.bytes 6 6))
        (EtherAddr.ofBytes (slice frame.bytes 0 6)) (frame.drop 14).bytes state
        ieee80211State).1.length > 65535 := by
      have length := awdlInitFullDataFrame_length (EtherAddr.ofBytes (slice frame.bytes 6 6))
        (EtherAddr.ofBytes (slice frame.bytes 0 6)) (frame.drop 14).bytes state ieee80211State
      have rest : (frame.drop 14).bytes.length = frame.bytes.length - 14 := List.length_drop
      have maximum : etherMaxLen = 1518 := rfl
      omega
    rw [if_neg fits]
    exact ⟨_, _, _, rfl, by simp [whole]⟩
  -- The type field is read first and is the last of the header.
  · have short : peek 2 ofBe16 frame.bytes 12 = none := if_neg (by omega)
    rw [short]
    exact ⟨_, _, _, rfl, by simp [whole]⟩

/-- The destination that `poll_host_device` and `awdl_send_unicast` read. -/
theorem readDst_eq (frame : Buf) (addressed : 6 ≤ frame.bytes.length) :
    ∃ dst, readEtherAddr frame etherDstOffset = .ok (some dst) ∧
      dst.octet0 = byteAt frame.bytes 0 := by
  refine ⟨EtherAddr.ofBytes (slice frame.bytes 0 6), ?_, ?_⟩
  · rw [readEtherAddr_eq frame etherDstOffset (by decide) (by decide)]
    exact congrArg Except.ok (peek_inside 6 _ _ 0 (by omega))
  · exact byteAt_slice frame.bytes 0 6 0 (by decide)

/-- A multicast frame that enters the queue. -/
theorem queued_moves {state : DaemonState} (buf : Buf)
    (room : circularBufFull state.txQueueMulticast = false) (group : isMulticast buf = true) :
    Moves state [.hostRecv buf, .circularBufPut buf (circularBufFull state.txQueueMulticast)]
      { state with txQueueMulticast := circularBufPut state.txQueueMulticast buf } := by
  refine ⟨?_, ?_, ?_, by simp [SendsWhole]⟩
  · show Fifo _ (List.filter isMulticast [buf]) (List.filter isMulticast []) _
    simp [Fifo, group, put_contents state.txQueueMulticast room buf]
  · show Fifo _ (List.filter isUnicast [buf]) (List.filter isUnicast []) _
    simp [Fifo, isUnicast, group]
  · intro frame full inside
    simp only [List.mem_cons, reduceCtorEq, TxEvent.circularBufPut.injEq, List.not_mem_nil,
      or_false, false_or] at inside
    exact inside.2.trans room

/-- A unicast frame that enters the empty slot. -/
theorem slotted_moves {state : DaemonState} (buf : Buf) (vacant : state.next = none)
    (single : isMulticast buf = false) :
    Moves state [.hostRecv buf] { state with next := some buf } := by
  refine ⟨?_, ?_, by simp [PutsFit], by simp [SendsWhole]⟩
  · show Fifo _ (List.filter isMulticast [buf]) (List.filter isMulticast []) _
    simp [Fifo, single]
  · show Fifo _ (List.filter isUnicast [buf]) (List.filter isUnicast []) _
    simp [Fifo, isUnicast, single, vacant]

theorem Waiting.enqueue {state : DaemonState} (waiting : Waiting state) {buf : Buf}
    (room : circularBufFull state.txQueueMulticast = false) (sendable : Sendable buf)
    (group : isMulticast buf = true) :
    Waiting { state with txQueueMulticast := circularBufPut state.txQueueMulticast buf } := by
  refine ⟨?_, waiting.unicast⟩
  intro frame inside
  rw [put_contents state.txQueueMulticast room buf, List.mem_append, List.mem_singleton] at inside
  rcases inside with old | rfl
  · exact waiting.multicast frame old
  · exact ⟨sendable, group⟩

theorem Waiting.fill {state : DaemonState} (waiting : Waiting state) {buf : Buf}
    (sendable : Sendable buf) (single : isMulticast buf = false) :
    Waiting { state with next := some buf } := by
  refine ⟨waiting.multicast, ?_⟩
  intro frame inside
  cases inside
  exact ⟨sendable, single⟩

theorem pollHostDevice_moves (reads : List HostRead)
    (addressed : ∀ read ∈ reads, 6 ≤ read.bytes.length) (state : DaemonState)
    (waiting : Waiting state) :
    ∃ result after events, pollHostDevice reads state = .ok (result, after, events) ∧
      Moves state events after ∧ Waiting after := by
  induction reads generalizing state with
  | nil => exact ⟨0, state, [], rfl, .refl rfl rfl, waiting⟩
  | cons read rest ih =>
      have later : ∀ read ∈ rest, 6 ≤ read.bytes.length := fun read inside =>
        addressed read (List.mem_cons_of_mem _ inside)
      obtain ⟨buf, received, bytes⟩ := hostRecv_eq read
      have sendable : Sendable buf :=
        ⟨bytes ▸ addressed read List.mem_cons_self, bytes ▸ read.fits⟩
      obtain ⟨dst, found, octet⟩ := readDst_eq buf sendable.addressed
      rw [pollHostDevice]
      -- the loop condition: an empty slot and room in the ring
      by_cases stop : (state.next.isSome || circularBufFull state.txQueueMulticast) = true
      · rw [if_pos stop]
        exact ⟨0, state, [], rfl, .refl rfl rfl, waiting⟩
      · obtain ⟨vacant, room⟩ : state.next = none ∧
            circularBufFull state.txQueueMulticast = false := by
          simpa using stop
        rw [if_neg stop, received, except_ok_bind, found, except_ok_bind]
        dsimp only
        by_cases group : isMulticast buf = true
        · have bit : dst.octet0 &&& 0x01 ≠ 0 := by simpa [isMulticast, octet] using group
          obtain ⟨result, after, events, run, moves, waits⟩ :=
            ih later _ (waiting.enqueue room sendable group)
          rw [if_pos bit, run]
          exact ⟨_, after, _, rfl, (queued_moves buf room group).trans moves, waits⟩
        · have single : isMulticast buf = false := Bool.not_eq_true _ ▸ group
          have bit : ¬ dst.octet0 &&& 0x01 ≠ 0 := by simpa [isMulticast, octet] using single
          obtain ⟨result, after, events, run, moves, waits⟩ :=
            ih later _ (waiting.fill sendable single)
          rw [if_neg bit, run]
          exact ⟨_, after, _, rfl, (slotted_moves buf vacant single).trans moves, waits⟩

def Closing (event : TxEvent) : Prop :=
  event = .feedReadHost ∨ ∃ timer delay, event = .timerRearm timer delay

theorem Moves.close {before after : DaemonState} {events : List TxEvent} {event : TxEvent}
    (moves : Moves before events after) (closing : Closing event) :
    Moves before (events ++ [event]) after := by
  have nothing : Moves after [event] after := by
    obtain rfl | ⟨timer, delay, rfl⟩ := closing
    all_goals
      exact ⟨(List.append_nil _).symm, (List.append_nil _).symm, by simp [PutsFit],
        by simp [SendsWhole]⟩
  exact moves.trans nothing

def Consumes (frame : Buf) (event : TxEvent) : Prop :=
  event = .hostSend frame ∨ event = .drop frame ∨
    ∃ bytes, event = .awdlSendData frame bytes ∧ (bytes.isSome ↔ 14 ≤ frame.bytes.length)

theorem sendsWhole_single {frame : Buf} {bytes : Option (List UInt8)}
    (sent : bytes.isSome ↔ 14 ≤ frame.bytes.length) :
    SendsWhole [.awdlSendData frame bytes] := by
  intro other items inside
  obtain ⟨rfl, rfl⟩ : other = frame ∧ items = bytes := by simpa using inside
  exact sent

theorem consumed_moves {state after : DaemonState} {frame : Buf} {event : TxEvent}
    (filled : state.next = some frame) (single : isMulticast frame = false)
    (consumes : Consumes frame event) (vacant : after.next = none)
    (queue : after.txQueueMulticast = state.txQueueMulticast) :
    Moves state [event] after := by
  have slot : Fifo state.next.toList [] (List.filter isUnicast [frame]) after.next.toList := by
    simp [Fifo, isUnicast, single, filled, vacant]
  -- A frame for one destination does not count as multicast when it is sent.
  have ring : Fifo (contents state.txQueueMulticast) [] (List.filter isMulticast [frame])
      (contents after.txQueueMulticast) := by
    simp [Fifo, single, queue]
  have untouched : Fifo (contents state.txQueueMulticast) [] []
      (contents after.txQueueMulticast) := by
    simp [Fifo, queue]
  obtain rfl | rfl | ⟨bytes, rfl, sent⟩ := consumes
  · exact ⟨untouched, slot, by simp [PutsFit], by simp [SendsWhole]⟩
  · exact ⟨untouched, slot, by simp [PutsFit], by simp [SendsWhole]⟩
  · exact ⟨ring, slot, by simp [PutsFit], sendsWhole_single sent⟩

/-- The frame in the slot either stays or is consumed. -/
theorem sendNext_moves (hash : EtherAddr → UInt64) (long : LongWidth) (now : UInt64) (frame : Buf)
    (state : DaemonState) (waiting : Waiting state) (filled : state.next = some frame) :
    ∃ delay after events, sendNext hash long now frame state = .ok (delay, after, events) ∧
      Moves state events after ∧ Waiting after := by
  obtain ⟨sendable, single⟩ := waiting.unicast frame filled
  -- The three exits that empty the slot.
  have gone : ∀ {after : DaemonState} {event : TxEvent}, Consumes frame event →
      after.next = none → after.txQueueMulticast = state.txQueueMulticast →
      Moves state [event] after ∧ Waiting after := by
    intro after event consumes vacant queue
    refine ⟨consumed_moves filled single consumes vacant queue, ?_, ?_⟩
    · rw [queue]
      exact waiting.multicast
    · intro other inside
      rw [vacant] at inside
      cases inside
  obtain ⟨dst, found, -⟩ := readDst_eq frame sendable.addressed
  rw [sendNext, found, except_ok_bind]
  dsimp only
  -- In the order of the source: for ourselves, for a peer, for nobody.
  split
  · exact ⟨_, _, _, rfl, gone (.inl rfl) rfl rfl⟩
  · split
    · split
      · obtain ⟨bytes, awdlState, ieee80211State, sent, whole⟩ :=
          awdlSendData_sends frame sendable.bound state.awdlState state.ieee80211State
        rw [sent, except_ok_bind]
        exact ⟨_, _, _, rfl, gone (.inr (.inr ⟨bytes, rfl, whole⟩)) rfl rfl⟩
      · exact ⟨_, state, [], rfl, .refl rfl rfl, waiting⟩
    · exact ⟨_, _, _, rfl, gone (.inr (.inl rfl)) rfl rfl⟩

theorem awdlSendUnicast_handles (hash : EtherAddr → UInt64) (long : LongWidth) (now : UInt64)
    (state : DaemonState) (waiting : Waiting state) :
    Handles state (awdlSendUnicast hash long now state) := by
  have closing : ∀ (after : DaemonState) (delay : Int),
      Closing (if after.next.isSome then .timerRearm .tx delay else .feedReadHost) := by
    intro after delay
    split
    · exact .inr ⟨_, _, rfl⟩
    · exact .inl rfl
  unfold awdlSendUnicast
  cases filled : state.next with
  | none => exact ⟨state, _, rfl, (Moves.refl rfl rfl).close (closing state 0), waiting⟩
  | some frame =>
      obtain ⟨delay, after, events, run, moves, waits⟩ :=
        sendNext_moves hash long now frame state waiting filled
      simp only [run, except_ok_bind]
      exact ⟨after, _, rfl, moves.close (closing after delay), waits⟩

/-- The oldest multicast frame leaves the ring. -/
theorem sendOldest_moves (long : LongWidth) (now : UInt64) (state : DaemonState)
    (waiting : Waiting state) (some_left : circularBufEmpty state.txQueueMulticast = false) :
    ∃ delay after events, sendOldest long now state = .ok (delay, after, events) ∧
      Moves state events after ∧ Waiting after := by
  rw [sendOldest]
  dsimp only
  split
  · obtain ⟨frame, got, queue⟩ := get_contents state.txQueueMulticast some_left
    have oldest : frame ∈ contents state.txQueueMulticast := queue ▸ List.mem_cons_self
    obtain ⟨sendable, group⟩ := waiting.multicast frame oldest
    obtain ⟨bytes, awdlState, ieee80211State, sent, whole⟩ :=
      awdlSendData_sends frame sendable.bound state.awdlState state.ieee80211State
    rw [got]
    dsimp only
    rw [sent]
    refine ⟨_, _, _, rfl, ⟨?_, ?_, by simp [PutsFit], sendsWhole_single whole⟩, ?_,
      waiting.unicast⟩
    · show Fifo _ [] (List.filter isMulticast [frame]) _
      simp [Fifo, group, queue]
    · show Fifo _ [] (List.filter isUnicast [frame]) _
      simp [Fifo, isUnicast, group]
    · intro other inside
      exact waiting.multicast other (queue ▸ List.mem_cons_of_mem _ inside)
  · exact ⟨_, state, [], rfl, .refl rfl rfl, waiting⟩

theorem awdlSendMulticast_handles (long : LongWidth) (now : UInt64) (state : DaemonState)
    (waiting : Waiting state) : Handles state (awdlSendMulticast long now state) := by
  have closing : ∀ (after : DaemonState) (delay : Int),
      Closing (if circularBufEmpty after.txQueueMulticast then .feedReadHost
        else .timerRearm .txMcast delay) := by
    intro after delay
    split
    · exact .inl rfl
    · exact .inr ⟨_, _, rfl⟩
  unfold awdlSendMulticast
  by_cases empty : circularBufEmpty state.txQueueMulticast = true
  · rw [if_pos empty]
    exact ⟨state, _, rfl, (Moves.refl rfl rfl).close (closing state 0), waiting⟩
  · obtain ⟨delay, after, events, run, moves, waits⟩ :=
      sendOldest_moves long now state waiting (Bool.not_eq_true _ ▸ empty)
    rw [if_neg empty, run, except_ok_bind]
    exact ⟨after, _, rfl, moves.close (closing after delay), waits⟩

theorem callIf_handles (condition : Bool)
    {handler : DaemonState → Except Fault (DaemonState × List TxEvent)} {state : DaemonState}
    (handles : Handles state (handler state)) (waiting : Waiting state) :
    Handles state (callIf condition handler state) := by
  unfold callIf
  split
  · exact handles
  · exact ⟨state, [], rfl, .refl rfl rfl, waiting⟩

theorem hostDeviceReady_handles (hash : EtherAddr → UInt64) (long : LongWidth)
    (reads : List HostRead) (addressed : ∀ read ∈ reads, 6 ≤ read.bytes.length)
    (multicastNow unicastNow : UInt64) (state : DaemonState) (waiting : Waiting state) :
    Handles state (hostDeviceReady hash long reads multicastNow unicastNow state) := by
  obtain ⟨result, polled, events, run, moves, waits⟩ :=
    pollHostDevice_moves reads addressed state waiting
  obtain ⟨middle, multicast, runFirst, movesFirst, waitsFirst⟩ :=
    callIf_handles (result &&& pollNewMulticast != 0)
      (awdlSendMulticast_handles long multicastNow polled waits) waits
  obtain ⟨after, unicast, runSecond, movesSecond, waitsSecond⟩ :=
    callIf_handles (result &&& pollNewUnicast != 0)
      (awdlSendUnicast_handles hash long unicastNow middle waitsFirst) waitsFirst
  refine ⟨after, events ++ multicast ++ unicast, ?_,
    (moves.trans movesFirst).trans movesSecond, waitsSecond⟩
  simp only [hostDeviceReady, run, runFirst, runSecond, except_ok_bind, except_pure]

/-- One turn of the event loop. `elsewhere` is any handler that changes the node
but not the queues. -/
inductive TxInput where
  | hostDeviceReady (reads : List HostRead) (multicastNow unicastNow : UInt64)
  | awdlSendUnicast (now : UInt64)
  | awdlSendMulticast (now : UInt64)
  | elsewhere (awdlState : AwdlState) (ieee80211State : Ieee80211State)

def TxInput.handle (hash : EtherAddr → UInt64) (long : LongWidth) (state : DaemonState) :
    TxInput → Except Fault (DaemonState × List TxEvent)
  | .hostDeviceReady reads multicastNow unicastNow =>
      Transmit.hostDeviceReady hash long reads multicastNow unicastNow state
  | .awdlSendUnicast now => Transmit.awdlSendUnicast hash long now state
  | .awdlSendMulticast now => Transmit.awdlSendMulticast long now state
  | .elsewhere awdlState ieee80211State =>
      .ok ({ state with awdlState := awdlState, ieee80211State := ieee80211State }, [])

def TxInput.Addressed : TxInput → Prop
  | .hostDeviceReady reads _ _ => ∀ read ∈ reads, 6 ≤ read.bytes.length
  | _ => True

instance : DecidablePred TxInput.Addressed
  | .hostDeviceReady reads _ _ =>
      inferInstanceAs (Decidable (∀ read ∈ reads, 6 ≤ read.bytes.length))
  | .awdlSendUnicast _ | .awdlSendMulticast _ | .elsewhere _ _ => .isTrue trivial

def runInputs (hash : EtherAddr → UInt64) (long : LongWidth) :
    List TxInput → DaemonState → Except Fault (DaemonState × List TxEvent)
  | [], state => .ok (state, [])
  | input :: rest, state => do
      let (state, early) ← input.handle hash long state
      let (state, late) ← runInputs hash long rest state
      return (state, early ++ late)

theorem handle_handles (hash : EtherAddr → UInt64) (long : LongWidth) (state : DaemonState)
    (waiting : Waiting state) (input : TxInput) (addressed : input.Addressed) :
    Handles state (input.handle hash long state) := by
  cases input with
  | hostDeviceReady reads multicastNow unicastNow =>
      exact hostDeviceReady_handles hash long reads addressed multicastNow unicastNow state waiting
  | awdlSendUnicast now => exact awdlSendUnicast_handles hash long now state waiting
  | awdlSendMulticast now => exact awdlSendMulticast_handles long now state waiting
  | elsewhere awdlState ieee80211State =>
      exact ⟨_, [], rfl, .refl rfl rfl, waiting.multicast, waiting.unicast⟩

theorem runInputs_handles (hash : EtherAddr → UInt64) (long : LongWidth) (inputs : List TxInput)
    (addressed : ∀ input ∈ inputs, input.Addressed) (state : DaemonState)
    (waiting : Waiting state) : Handles state (runInputs hash long inputs state) := by
  -- `Waiting` keeps the handlers from faults, `Moves` composes.
  induction inputs generalizing state with
  | nil => exact ⟨state, [], rfl, .refl rfl rfl, waiting⟩
  | cons input rest ih =>
      obtain ⟨middle, early, run, moves, waits⟩ :=
        handle_handles hash long state waiting input (addressed input List.mem_cons_self)
      obtain ⟨after, late, runLate, movesLate, waitsLate⟩ :=
        ih (fun later inside => addressed later (List.mem_cons_of_mem _ inside)) middle waits
      refine ⟨after, early ++ late, ?_, moves.trans movesLate, waitsLate⟩
      rw [runInputs, run, except_ok_bind]
      dsimp only
      rw [runLate, except_ok_bind]
      rfl

section Queues

variable (memory : Fixed UInt8 (hostNameLengthMax + 1)) (slots : Fin txQueueLength → Buf)
  (hostname : List UInt8) (self : EtherAddr) (chan : AwdlChan) (now : UInt64) (filterRssi : Bool)

theorem daemonInit_contents :
    contents (daemonInit memory slots hostname self chan now filterRssi).txQueueMulticast = [] :=
  circularBufInit_contents slots (by decide)

theorem daemonInit_waiting :
    Waiting (daemonInit memory slots hostname self chan now filterRssi) := by
  refine ⟨?_, ?_⟩
  · intro frame inside
    rw [daemonInit_contents] at inside
    cases inside
  · intro frame inside
    cases inside

/-- The queues pass on every frame of the host once and in order. -/
theorem host_frames_kept (hash : EtherAddr → UInt64) (long : LongWidth) (inputs : List TxInput)
    (addressed : ∀ input ∈ inputs, input.Addressed) :
    ∃ state events,
      runInputs hash long inputs (daemonInit memory slots hostname self chan now filterRssi) =
        .ok (state, events) ∧
      (framesHanded events).filter isMulticast ++ contents state.txQueueMulticast =
        (framesRead events).filter isMulticast ∧
      (framesConsumed events).filter isUnicast ++ state.next.toList =
        (framesRead events).filter isUnicast ∧
      PutsFit events ∧ SendsWhole events := by
  obtain ⟨state, events, run, moves, -⟩ := runInputs_handles hash long inputs addressed _
    (daemonInit_waiting memory slots hostname self chan now filterRssi)
  refine ⟨state, events, run, ?_, moves.unicast, moves.puts, moves.sends⟩
  have multicast := moves.multicast
  rw [daemonInit_contents] at multicast
  exact multicast

end Queues

def hostFrame (dst : EtherAddr) : HostRead :=
  ⟨Fixed.replicate _ 0, dst.bytes ++ (selfAddr.bytes ++ (be16 ethPIpv6 ++ [0x60, 0, 0, 0])), by
    simp only [List.length_append, bytes_length, be16_length]
    decide⟩

def burst : List TxInput :=
  [.hostDeviceReady [hostFrame etherBroadcast, hostFrame etherBroadcast, hostFrame selfAddr]
      32768 32768,
    .hostDeviceReady [hostFrame peerAddr] 40000 40000]

theorem host_frames_kept_burst : ∃ state events,
    runInputs addrHash .bits64 burst
        (daemonInit (Fixed.replicate _ 0) (fun _ => pingFrame) [] selfAddr chanOpclass6 0 true) =
      .ok (state, events) ∧
    (framesHanded events).filter isMulticast ++ contents state.txQueueMulticast =
      (framesRead events).filter isMulticast ∧
    (framesConsumed events).filter isUnicast ++ state.next.toList =
      (framesRead events).filter isUnicast ∧
    PutsFit events ∧ SendsWhole events := by
  apply host_frames_kept
  decide

/-- Of four frames one is sent, one looped back, one dropped, and one waits. -/
example : ((runInputs addrHash .bits64 burst
      (daemonInit (Fixed.replicate _ 0) (fun _ => pingFrame) [] selfAddr chanOpclass6 0 true)).map
    fun pair => ((framesRead pair.2).length, (framesHanded pair.2).length,
      (framesConsumed pair.2).length, (contents pair.1.txQueueMulticast).length)).toOption =
    some (4, 1, 3, 1) := by decide +kernel

end Owl.TransmitQueues
