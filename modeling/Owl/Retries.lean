import Owl.Airtime
import Owl.Retry
import Owl.TransmitQueues

/-!
How often a frame is tried before it goes out. A handler that cannot send leaves
everything as it is and arms its timer; time then goes on by the delay and the
handler is called again. The clock state is fixed, the delays are exact. Each
attempt comes closer to a slot in which the frame may be sent, by a rank of the
slot and the time in it.
-/

namespace Owl.Retries

open Bytes Ether Channel Sync SyncTransfer SyncClock Siphash Peers Wire State CircularBuffer RxData Schedule
  Transmit Airtime Retry

/-- The slot and the time in it when the timer goes off. -/
theorem timer_fires (long : LongWidth) {state : SyncState} (aligned : Aligned state) (now : UInt64)
    (delay : Int) (positive : 0 ≤ delay) (small : delay < 2 ^ 64) :
    slot long (now + UInt64.ofInt delay) state =
        (slot long now state + (phase now state + delay.toNat) / 65536) % 16 ∧
      phase (now + UInt64.ofInt delay) state = (phase now state + delay.toNat) % 65536 := by
  rw [slot_add long now aligned, phase_add, ofInt_toNat delay positive small]
  exact ⟨rfl, rfl⟩

section Multicast

def Social (slot : Nat) : Prop := slot = 0 ∨ slot = 10

instance : DecidablePred Social := fun _ => inferInstanceAs (Decidable (_ ∨ _))

theorem social_somewhere : Somewhere 16 Social := ⟨0, by decide, .inl rfl⟩

theorem social_distance (slot : Nat) (inside : slot < 16) : distance social_somewhere slot ≤ 9 := by
  by_cases first : slot = 0
  · subst first
    exact (distance_le social_somewhere 0 0 (.inl rfl)).trans (by decide)
  by_cases early : slot ≤ 10
  · refine (distance_le social_somewhere slot (10 - slot) (.inr ?_)).trans (by omega)
    omega
  · refine (distance_le social_somewhere slot (16 - slot) (.inl ?_)).trans (by omega)
    omega

/-- At most this many retries are left. -/
def multicastRank (slot phase : Nat) : Nat :=
  if 65536 - phase < 1024 * 16 then distance social_somewhere ((slot + 1) % 16) + 2
  else if phase < 1024 * 16 then distance social_somewhere slot + 1
  else distance social_somewhere slot

theorem multicastRank_le (slot phase : Nat) (inside : slot < 16) : multicastRank slot phase ≤ 11 := by
  have here := social_distance slot inside
  have next := social_distance ((slot + 1) % 16) (Nat.mod_lt _ (by decide))
  unfold multicastRank
  split
  · omega
  · split
    · omega
    · omega

/-- The delay of the timer: two guards less the rest of the slot, the rest of the first
guard, or a whole slot. -/
def multicastWait (phase : Nat) : Nat :=
  if 65536 - phase < 1024 * 16 then 2 * (1024 * 16) - (65536 - phase)
  else if phase < 1024 * 16 then 1024 * 16 - phase
  else 65536

theorem multicastRetry_eq (long : LongWidth) (phase : Nat) (inside : phase < 65536) :
    multicastRetry long (guardDelay 16 phase) = multicastWait phase := by
  have guard : (guardUsec long awdlMulticastGuardTu).toNat = 1024 * 16 :=
    guardUsec_toNat long 16 (by decide)
  have whole : (ieee80211TuToUsec long 64).toNat = 65536 := tuToUsec_toNat long 64 (by decide)
  unfold multicastRetry afterGuard guardDelay usecToSec multicastWait
  rw [guard, whole]
  split_ifs <;> omega

/-- The next attempt has a lower rank. -/
theorem multicastRank_falls (slot phase : Nat) (inside : phase < 65536) (bound : slot < 16)
    (apart : ¬ (Social slot ∧ guardDelay 16 phase = 0)) :
    multicastRank ((slot + (phase + multicastWait phase) / 65536) % 16)
      ((phase + multicastWait phase) % 65536) < multicastRank slot phase := by
  by_cases trailing : 65536 - phase < 1024 * 16
  · -- The attempt is in the next slot, perhaps still in its first guard.
    have wait : phase + multicastWait phase = 65536 + 2 * (1024 * 16 - (65536 - phase)) := by
      rw [multicastWait, if_pos trailing]
      omega
    have next : (65536 + 2 * (1024 * 16 - (65536 - phase))) / 65536 = 1 := by omega
    have point : (65536 + 2 * (1024 * 16 - (65536 - phase))) % 65536 =
        2 * (1024 * 16 - (65536 - phase)) := by omega
    rw [wait, next, point]
    conv_rhs => rw [multicastRank, if_pos trailing]
    rw [multicastRank, if_neg (by omega)]
    split
    · omega
    · omega
  by_cases leading : phase < 1024 * 16
  · -- The attempt is at the end of the first guard of the same slot.
    have wait : phase + multicastWait phase = 1024 * 16 := by
      rw [multicastWait, if_neg trailing, if_pos leading]
      omega
    rw [wait]
    conv_rhs => rw [multicastRank, if_neg trailing, if_pos leading]
    rw [multicastRank, if_neg (by decide), if_neg (by decide)]
    rw [show (slot + 1024 * 16 / 65536) % 16 = slot by omega]
    omega
  · -- The attempt is at the same point of the next slot; this one is not social.
    have outside : guardDelay 16 phase = 0 :=
      (guardDelay_eq_zero_iff 16 phase inside).mpr ⟨by omega, by omega⟩
    have other : ¬ Social (slot % 16) := by
      rw [Nat.mod_eq_of_lt bound]
      exact fun social => apart ⟨social, outside⟩
    have step := distance_step social_somewhere slot other
    have wait : phase + multicastWait phase = 65536 + phase := by
      rw [multicastWait, if_neg trailing, if_neg leading]
      omega
    have next : (65536 + phase) / 65536 = 1 := by omega
    have point : (65536 + phase) % 65536 = phase := by omega
    rw [wait, next, point]
    unfold multicastRank
    rw [if_neg trailing, if_neg leading, if_neg trailing, if_neg leading]
    omega

variable (long : LongWidth) (state : DaemonState)

def MulticastRetry (now later : UInt64) : Prop :=
  ∃ delay, awdlSendMulticast long now state = .ok (state, [.timerRearm .txMcast delay]) ∧
    later = now + UInt64.ofInt delay

/-- `awdl_send_multicast` hands the oldest frame to `awdl_send_data`, which sends every
complete one. -/
def MulticastSent (now : UInt64) : Prop :=
  ∃ frame rest bytes after events, contents state.txQueueMulticast = frame :: rest ∧
    awdlSendMulticast long now state = .ok (after, .awdlSendData frame bytes :: events) ∧
    (bytes.isSome ↔ 14 ≤ frame.bytes.length)

variable {state}

theorem multicastEaw_iff (now : UInt64) :
    awdlIsMulticastEaw long state.awdlState now = true ↔
      Social (slot long now state.awdlState.sync) := by
  unfold awdlIsMulticastEaw Social slot
  simp only [Bool.or_eq_true, beq_iff_eq]

variable (aligned : Aligned state.awdlState.sync)
  (filled : circularBufEmpty state.txQueueMulticast = false) (now : UInt64)

include aligned filled

/-- Outside the guards of a social slot the oldest frame goes out. -/
theorem multicast_sends (waiting : TransmitQueues.Waiting state)
    (social : Social (slot long now state.awdlState.sync))
    (outside : guardDelay 16 (phase now state.awdlState.sync) = 0) :
    MulticastSent long state now := by
  obtain ⟨frame, got, queue⟩ := get_contents state.txQueueMulticast filled
  have oldest : frame ∈ contents state.txQueueMulticast := queue ▸ List.mem_cons_self
  obtain ⟨bytes, awdlState, ieee80211State, sent, whole⟩ := TransmitQueues.awdlSendData_sends frame
    (waiting.multicast frame oldest).1.bound state.awdlState state.ieee80211State
  have delay : awdlCanSendIn long state.awdlState now awdlMulticastGuardTu = 0 :=
    (canSendIn_phase long state.awdlState now 16 aligned.toRegular (by decide)).trans outside
  have eaw := (multicastEaw_iff long now).mpr social
  have run : sendOldest long now state = .ok (0,
      { state with awdlState := countMulticast awdlState, ieee80211State := ieee80211State,
                   txQueueMulticast := retreatPointer state.txQueueMulticast },
      [.awdlSendData frame bytes]) := by
    unfold sendOldest
    simp only [delay, eaw, got, sent, except_ok_bind, decide_true, Bool.and_true, ↓reduceIte,
      except_pure]
  have handled : ∃ after events,
      awdlSendMulticast long now state = .ok (after, .awdlSendData frame bytes :: events) := by
    rw [awdlSendMulticast, filled, run]
    exact ⟨_, _, rfl⟩
  obtain ⟨after, events, handled⟩ := handled
  exact ⟨frame, _, bytes, after, events, queue, handled, whole⟩

/-- Everywhere else the timer is armed. -/
theorem multicast_waits
    (apart : ¬ (Social (slot long now state.awdlState.sync) ∧
      guardDelay 16 (phase now state.awdlState.sync) = 0)) :
    awdlSendMulticast long now state = .ok (state, [.timerRearm .txMcast
      (multicastRetry long (guardDelay 16 (phase now state.awdlState.sync)))]) := by
  have delay : awdlCanSendIn long state.awdlState now awdlMulticastGuardTu =
      guardDelay 16 (phase now state.awdlState.sync) :=
    canSendIn_phase long state.awdlState now 16 aligned.toRegular (by decide)
  have closed : ¬ (awdlIsMulticastEaw long state.awdlState now &&
      decide (guardDelay 16 (phase now state.awdlState.sync) = 0)) = true := by
    rw [Bool.and_eq_true, multicastEaw_iff, decide_eq_true_eq]
    exact apart
  have run : sendOldest long now state = .ok
      (multicastRetry long (guardDelay 16 (phase now state.awdlState.sync)), state, []) := by
    unfold sendOldest
    simp only [delay, closed, Bool.false_eq_true, ↓reduceIte, except_pure]
  rw [awdlSendMulticast, filled, run]
  simp only [Bool.false_eq_true, ↓reduceIte, except_ok_bind, except_pure, filled, List.nil_append]

/-- A frame that waits comes closer to a social slot. -/
theorem multicast_progress (waiting : TransmitQueues.Waiting state) :
    MulticastSent long state now ∨ ∃ later, MulticastRetry long state now later ∧
      multicastRank (slot long later state.awdlState.sync) (phase later state.awdlState.sync) <
        multicastRank (slot long now state.awdlState.sync) (phase now state.awdlState.sync) := by
  by_cases ready : Social (slot long now state.awdlState.sync) ∧
      guardDelay 16 (phase now state.awdlState.sync) = 0
  · exact .inl (multicast_sends long aligned filled now waiting ready.1 ready.2)
  · have inside := phase_lt now state.awdlState.sync
    have waits := multicast_waits long aligned filled now ready
    rw [multicastRetry_eq long _ inside] at waits
    refine .inr ⟨_, ⟨_, waits, rfl⟩, ?_⟩
    obtain ⟨nextSlot, nextPhase⟩ := timer_fires long aligned now
      (multicastWait (phase now state.awdlState.sync)) (Int.natCast_nonneg _) (by
        unfold multicastWait
        split_ifs <;> omega)
    rw [nextSlot, nextPhase]
    exact multicastRank_falls _ _ inside (slot_lt long now state.awdlState.sync) ready

end Multicast

section Unicast

variable {node : AwdlState} {peer : Peer}

def unicastRank (meets : Somewhere 16 (Shared node peer)) (slot phase : Nat) : Nat :=
  if ¬ Shared node peer slot then distance meets slot + 1
  else if unicastDelay node peer 3 slot phase = 0 then 0
  else if 65536 - phase < 1024 * 3 then distance meets ((slot + 1) % 16) + 2
  else 1

theorem unicastRank_le (meets : Somewhere 16 (Shared node peer)) (slot phase : Nat) :
    unicastRank meets slot phase ≤ 17 := by
  have here := distance_lt meets slot
  have next := distance_lt meets ((slot + 1) % 16)
  unfold unicastRank
  split_ifs <;> omega

/-- The delay of the timer: the rest of a slot on another channel, two guards less the rest
of the slot, or the rest of the first guard. -/
def unicastWait (node : AwdlState) (peer : Peer) (slot phase : Nat) : Nat :=
  if ¬ Shared node peer slot then 65536 - phase
  else if 65536 - phase < 1024 * 3 then 2 * (1024 * 3) - (65536 - phase)
  else 1024 * 3 - phase

theorem unicastRetry_eq (long : LongWidth) (slot phase : Nat) (inside : phase < 65536)
    (apart : unicastDelay node peer 3 slot phase ≠ 0) :
    afterGuard long awdlUnicastGuardTu (unicastDelay node peer 3 slot phase) =
      unicastWait node peer slot phase := by
  have guard : (guardUsec long awdlUnicastGuardTu).toNat = 1024 * 3 :=
    guardUsec_toNat long 3 (by decide)
  unfold afterGuard usecToSec
  rw [guard]
  unfold unicastWait
  unfold unicastDelay guardDelay at apart ⊢
  split_ifs at apart ⊢ <;> omega

/-- Outside of both guards only the slot itself matters. -/
theorem unicastDelay_free {guard slot phase : Nat} (shared : Shared node peer slot)
    (free : guardDelay guard phase = 0) : unicastDelay node peer guard slot phase = 0 := by
  have here : ¬ ¬ Shared node peer slot := not_not.mpr shared
  unfold unicastDelay
  rw [if_neg here, free]
  split_ifs <;> rfl

/-- The next attempt has a lower rank. -/
theorem unicastRank_falls (meets : Somewhere 16 (Shared node peer)) (slot phase : Nat)
    (inside : phase < 65536) (bound : slot < 16)
    (apart : unicastDelay node peer 3 slot phase ≠ 0) :
    unicastRank meets ((slot + (phase + unicastWait node peer slot phase) / 65536) % 16)
      ((phase + unicastWait node peer slot phase) % 65536) < unicastRank meets slot phase := by
  by_cases shared : Shared node peer slot
  swap
  · -- The attempt is at the start of the next slot.
    have other : ¬ Shared node peer (slot % 16) := by rwa [Nat.mod_eq_of_lt bound]
    have step := distance_step meets slot other
    have wait : phase + unicastWait node peer slot phase = 65536 := by
      rw [unicastWait, if_pos shared]
      omega
    rw [wait, Nat.div_self (by decide), Nat.mod_self]
    conv_rhs => rw [unicastRank, if_pos shared]
    unfold unicastRank
    split_ifs <;> omega
  have here : ¬ ¬ Shared node peer slot := not_not.mpr shared
  by_cases trailing : 65536 - phase < 1024 * 3
  · -- The attempt is in the next slot, which is on another channel.
    have next : ¬ Shared node peer ((slot + 1) % 16) := by
      intro common
      apply apart
      rw [unicastDelay, if_neg here, if_pos ⟨trailing, common⟩]
    have wait : phase + unicastWait node peer slot phase =
        65536 + 2 * (1024 * 3 - (65536 - phase)) := by
      rw [unicastWait, if_neg here, if_pos trailing]
      omega
    have one : (65536 + 2 * (1024 * 3 - (65536 - phase))) / 65536 = 1 := by omega
    rw [wait, one, unicastRank, if_pos next]
    conv_rhs => rw [unicastRank, if_neg here, if_neg apart, if_pos trailing]
    omega
  · -- The attempt is at the end of the first guard of the same slot.
    have leading : phase < 1024 * 3 := by
      by_contra outside
      apply apart
      exact unicastDelay_free shared
        ((guardDelay_eq_zero_iff 3 phase inside).mpr ⟨by omega, by omega⟩)
    have wait : phase + unicastWait node peer slot phase = 1024 * 3 := by
      rw [unicastWait, if_neg here, if_neg trailing]
      omega
    have same : (slot + 1024 * 3 / 65536) % 16 = slot := by omega
    have free : unicastDelay node peer 3 slot (1024 * 3 % 65536) = 0 :=
      unicastDelay_free shared (by decide)
    rw [wait, same, unicastRank, if_neg here, if_pos free]
    conv_rhs => rw [unicastRank, if_neg here, if_neg apart, if_neg trailing]
    decide

structure ToPeer (hash : EtherAddr → UInt64) (state : DaemonState) (frame : Buf) (peer : Peer) :
    Prop where
  next : state.next = some frame
  foreign : EtherAddr.ofBytes (slice frame.bytes 0 6) ≠ state.awdlState.selfAddress
  known : awdlPeerGet hash state.awdlState.peers.peers (EtherAddr.ofBytes (slice frame.bytes 0 6)) =
    (.ok, some peer)

variable (hash : EtherAddr → UInt64) (long : LongWidth) (state : DaemonState)

def UnicastRetry (now later : UInt64) : Prop :=
  ∃ delay, awdlSendUnicast hash long now state = .ok (state, [.timerRearm .tx delay]) ∧
    later = now + UInt64.ofInt delay

def UnicastSent (frame : Buf) (now : UInt64) : Prop :=
  ∃ bytes after events,
    awdlSendUnicast hash long now state = .ok (after, .awdlSendData frame bytes :: events) ∧
    (bytes.isSome ↔ 14 ≤ frame.bytes.length)

variable {state hash} {frame : Buf} (toPeer : ToPeer hash state frame peer)
  (sendable : TransmitQueues.Sendable frame) (now : UInt64)

include toPeer sendable

/-- `awdl_send_unicast` gets as far as its question when the frame can be sent. -/
theorem sendNext_asks (delay : Int)
    (asked : awdlCanSendUnicastIn long state.awdlState peer now awdlUnicastGuardTu = delay) :
    (delay = 0 → ∃ bytes after, after.next = none ∧ (bytes.isSome ↔ 14 ≤ frame.bytes.length) ∧
      sendNext hash long now frame state = .ok (0, after, [.awdlSendData frame bytes])) ∧
    (delay ≠ 0 → sendNext hash long now frame state =
      .ok (afterGuard long awdlUnicastGuardTu delay, state, [])) := by
  have size := sendable.addressed
  have dst : readEtherAddr frame etherDstOffset =
      .ok (some (EtherAddr.ofBytes (slice frame.bytes 0 6))) := by
    rw [readEtherAddr_eq frame etherDstOffset (by decide) (by decide)]
    exact congrArg Except.ok (RxSpec.peek_inside 6 _ _ 0 (by omega))
  have other : ¬ compareEtherAddr (EtherAddr.ofBytes (slice frame.bytes 0 6))
      state.awdlState.selfAddress = .eq := by
    rw [compareEtherAddr_eq_iff]
    exact toPeer.foreign
  unfold sendNext
  simp only [dst, except_ok_bind, other, toPeer.known, ↓reduceIte, asked]
  constructor
  · intro ready
    obtain ⟨bytes, awdlState, ieee80211State, sent, whole⟩ := TransmitQueues.awdlSendData_sends frame
      sendable.bound state.awdlState state.ieee80211State
    rw [if_pos ready, sent]
    exact ⟨bytes, _, rfl, whole, rfl⟩
  · intro later
    rw [if_neg later]
    rfl

variable (aligned : Aligned state.awdlState.sync) (synced : peer.syncOffset = 0)

include aligned synced

/-- A frame that waits comes closer to a slot on a common channel. -/
theorem unicast_progress (meets : Somewhere 16 (Shared state.awdlState peer)) :
    UnicastSent hash long state frame now ∨ ∃ later, UnicastRetry hash long state now later ∧
      unicastRank meets (slot long later state.awdlState.sync) (phase later state.awdlState.sync) <
        unicastRank meets (slot long now state.awdlState.sync) (phase now state.awdlState.sync) := by
  obtain ⟨sends, waits⟩ := sendNext_asks long toPeer sendable now _
    (canSendUnicastIn_phase long now aligned synced 3 (by decide))
  have inside := phase_lt now state.awdlState.sync
  by_cases ready : unicastDelay state.awdlState peer 3 (slot long now state.awdlState.sync)
      (phase now state.awdlState.sync) = 0
  · obtain ⟨bytes, after, gone, whole, run⟩ := sends ready
    have handled : awdlSendUnicast hash long now state =
        .ok (after, [.awdlSendData frame bytes, .feedReadHost]) := by
      simp [awdlSendUnicast, toPeer.next, run, gone]
    exact .inl ⟨bytes, after, _, handled, whole⟩
  · have run := waits ready
    rw [unicastRetry_eq long _ _ inside ready] at run
    have handled : awdlSendUnicast hash long now state = .ok (state, [.timerRearm .tx
        (unicastWait state.awdlState peer (slot long now state.awdlState.sync)
          (phase now state.awdlState.sync))]) := by
      simp [awdlSendUnicast, toPeer.next, run]
    refine .inr ⟨_, ⟨_, handled, rfl⟩, ?_⟩
    obtain ⟨nextSlot, nextPhase⟩ := timer_fires long aligned now
      (unicastWait state.awdlState peer (slot long now state.awdlState.sync)
        (phase now state.awdlState.sync)) (Int.natCast_nonneg _) (by
          unfold unicastWait
          split_ifs <;> omega)
    rw [nextSlot, nextPhase]
    exact unicastRank_falls meets _ _ inside (slot_lt long now state.awdlState.sync) ready

end Unicast

/-- Every frame that waits for its slot goes out after a bounded number of retries. -/
theorem bounded_retries (hash : EtherAddr → UInt64) (long : LongWidth) (state : DaemonState)
    (now : UInt64) (aligned : Aligned state.awdlState.sync)
    (waiting : TransmitQueues.Waiting state) :
    (contents state.txQueueMulticast ≠ [] →
      ∃ count last, count ≤ 11 ∧ Moves (MulticastRetry long state) count now last ∧
        MulticastSent long state last) ∧
    ∀ frame peer, ToPeer hash state frame peer → peer.syncOffset = 0 →
      (∃ slot, slot < 16 ∧ Shared state.awdlState peer slot) →
      ∃ count last, count ≤ 17 ∧ Moves (UnicastRetry hash long state) count now last ∧
        UnicastSent hash long state frame last := by
  constructor
  · intro filled
    have some_left : circularBufEmpty state.txQueueMulticast = false := by
      rw [← Bool.not_eq_true, empty_iff]
      exact filled
    obtain ⟨count, last, few, moves, sent⟩ := moves_of_rank (MulticastRetry long state)
      (fun now => multicast_progress long aligned some_left now waiting) now
    exact ⟨count, last, few.trans (multicastRank_le _ _ (slot_lt long now _)), moves, sent⟩
  · intro frame peer toPeer synced meets
    have sendable := (waiting.unicast frame toPeer.next).1
    obtain ⟨count, last, few, moves, sent⟩ := moves_of_rank (UnicastRetry hash long state)
      (fun now => unicast_progress long toPeer sendable now aligned synced meets) now
    exact ⟨count, last, few.trans (unicastRank_le meets _ _), moves, sent⟩

def busyDaemon : DaemonState where
  awdlState := Rx.storePeer addrHash
    (Rx.addPeer addrHash zeroEnv tunedState peerAddr).2.1 peerAddr tunedPeer
  ieee80211State := ieee80211InitState
  next := some ⟨peerAddr.bytes ++ selfAddr.bytes ++ [0x86, 0xdd], by decide⟩
  txQueueMulticast := circularBufPut
    (circularBufInit (fun _ => RoundTrip.pingFrame) txQueueLength_pos)
    ⟨etherBroadcast.bytes ++ selfAddr.bytes ++ [0x86, 0xdd], by decide⟩

theorem bounded_retries_busy : ∃ count last, count ≤ 17 ∧
    Moves (UnicastRetry addrHash .bits64 busyDaemon) count 70000 last ∧
    ∃ frame, busyDaemon.next = some frame ∧ UnicastSent addrHash .bits64 busyDaemon frame last := by
  have aligned : Aligned busyDaemon.awdlState.sync := awdlSyncStateInit_aligned 0
  have waiting : TransmitQueues.Waiting busyDaemon := by
    refine ⟨?_, ?_⟩
    · have content : contents busyDaemon.txQueueMulticast =
          [⟨etherBroadcast.bytes ++ selfAddr.bytes ++ [0x86, 0xdd], by decide⟩] := by decide
      rw [content]
      intro frame inside
      obtain rfl := List.mem_singleton.mp inside
      exact ⟨⟨by decide, by decide⟩, by decide⟩
    · rintro frame ⟨⟩
      exact ⟨⟨by decide, by decide⟩, by decide⟩
  have toPeer : ToPeer addrHash busyDaemon _ tunedPeer := ⟨rfl, by decide, by decide +kernel⟩
  obtain ⟨count, last, few, moves, sent⟩ := (bounded_retries addrHash .bits64 busyDaemon 70000 aligned
    waiting).2 _ tunedPeer toPeer rfl ⟨0, by decide, by decide⟩
  exact ⟨count, last, few, moves, _, rfl, sent⟩

end Owl.Retries
