import Owl.Schedule
import Owl.SyncClock
import Owl.Transmit

/-!
When `schedule.c` lets a frame go out. A slot starts and ends with a guard; the
functions say how long to wait, or, by a negative number, how long the guard at
the end of the slot has lasted already. Everything depends on two things only:
the slot and the time that has passed in it.
-/

namespace Owl.Airtime

open Bytes Channel Sync SyncTransfer SyncClock Peers State RxData Schedule Transmit

section Guard

variable (long : LongWidth) (state : AwdlState) (now : UInt64) (guard : Nat)

/-- A delay as an unsigned 64-bit number. -/
theorem ofInt_toNat (delay : Int) (positive : 0 ≤ delay) (small : delay < 2 ^ 64) :
    (UInt64.ofInt delay).toNat = delay.toNat := by
  rw [UInt64.ofInt, UInt64.toNat_ofNat']
  omega

theorem guardUsec_toNat (short : guard ≤ 32) :
    (guardUsec long guard).toNat = 1024 * guard := by
  have units : (UInt64.ofInt guard).toNat = guard := ofInt_toNat guard (by omega) (by omega)
  rw [guardUsec, tuToUsec_toNat long _ (by omega), units]

def guardDelay (guard phase : Nat) : Int :=
  if 65536 - phase < 1024 * guard then -(1024 * guard - (65536 - phase) : Int)
  else if phase < 1024 * guard then 1024 * guard - phase
  else 0

theorem guardDelay_eq_zero_iff (phase : Nat) (inside : phase < 65536) :
    guardDelay guard phase = 0 ↔ 1024 * guard ≤ phase ∧ 1024 * guard ≤ 65536 - phase := by
  unfold guardDelay
  split
  · omega
  · split
    · omega
    · omega

theorem canSendIn_phase (regular : Regular state.sync) (short : guard ≤ 32) :
    awdlCanSendIn long state now guard = guardDelay guard (phase now state.sync) := by
  have left := nextAwUs_phase long now regular
  have inside := phase_lt now state.sync
  have room := guardUsec_toNat long guard short
  have whole : (ieee80211TuToUsec long 64).toNat = 65536 := tuToUsec_toNat long 64 (by decide)
  unfold awdlCanSendIn guardDelay usecToSec
  simp only [UInt64.lt_iff_toNat_lt, UInt64.toNat_sub, left, room, whole]
  split
  · omega
  · split
    · omega
    · omega

/-- Where the timer of `awdl_send_multicast` goes off. -/
theorem afterGuard_phase (regular : Regular state.sync) (short : guard ≤ 32) :
    afterGuard long guard (awdlCanSendIn long state now guard) =
      if 65536 - phase now state.sync < 1024 * guard then
        (2 * (1024 * guard) - (65536 - phase now state.sync) : Int)
      else guardDelay guard (phase now state.sync) := by
  have room := guardUsec_toNat long guard short
  have inside := phase_lt now state.sync
  rw [afterGuard, canSendIn_phase long state now guard regular short, usecToSec, room]
  unfold guardDelay
  split
  · split
    · omega
    · omega
  · split
    · omega
    · omega

end Guard

/-! A frame that waits for the end of a guard is tried again. The guard at the end of a
slot is left by waiting for as long as it has lasted, instead of for what is left of it,
and then for one more guard. -/
section Retry

variable (long : LongWidth) (state : AwdlState) (now : UInt64) (guard : Nat)

def LandsOutside : Prop :=
  (0 < awdlCanSendIn long state now guard →
    awdlCanSendIn long state (now + UInt64.ofInt (awdlCanSendIn long state now guard)) guard = 0) ∧
  (awdlCanSendIn long state now guard < 0 →
    awdlCanSendIn long state
      (now + UInt64.ofInt (afterGuard long guard (awdlCanSendIn long state now guard))) guard = 0)

/-- `left` microseconds of the slot, fewer than the guard, are to come, and twice the
time that the guard has lasted is less than a guard, or it ends in the next one. -/
def MissesWindow (guard left : Nat) : Prop :=
  left < 1024 * guard ∧ (1024 * guard < 2 * left ∨ 65536 + 2 * left < 3 * (1024 * guard))

/-- A retry at the end of the leading guard is outside of both. -/
theorem leading_lands (guard point : Nat) (short : guard ≤ 31) (inside : point < 65536)
    (positive : 0 < guardDelay guard point) :
    guardDelay guard point < 2 ^ 64 ∧
      guardDelay guard ((point + (guardDelay guard point).toNat) % 65536) = 0 := by
  by_cases trailing : 65536 - point < 1024 * guard
  · rw [guardDelay, if_pos trailing] at positive
    omega
  by_cases leading : point < 1024 * guard
  · have delay : guardDelay guard point = 1024 * guard - point := by
      rw [guardDelay, if_neg trailing, if_pos leading]
    have target : (point + (guardDelay guard point).toNat) % 65536 = 1024 * guard := by
      rw [delay]
      omega
    rw [target, guardDelay_eq_zero_iff guard _ (by omega)]
    omega
  · rw [guardDelay, if_neg trailing, if_neg leading] at positive
    omega

/-- A retry out of the trailing guard comes twice the time that the guard has lasted
into the next slot. -/
theorem trailing_lands_iff (guard point : Nat) (some : 1 ≤ guard) (short : guard ≤ 31)
    (inside : point < 65536) (trailing : 65536 - point < 1024 * guard) :
    guardDelay guard ((point + (2 * (1024 * guard) - (65536 - point) : Int).toNat) % 65536) = 0 ↔
      ¬ MissesWindow guard (65536 - point) := by
  have target : (point + (2 * (1024 * guard) - (65536 - point) : Int).toNat) % 65536 =
      2 * (1024 * guard - (65536 - point)) := by omega
  unfold MissesWindow
  rw [target, guardDelay_eq_zero_iff guard _ (by omega)]
  omega

theorem guard_retry_iff (regular : Regular state.sync) (some : 1 ≤ guard) (short : guard ≤ 31) :
    LandsOutside long state now guard ↔
      ¬ MissesWindow guard (65536 - (now - state.sync.lastUpdate).toNat % 65536) := by
  have inside := phase_lt now state.sync
  have here := canSendIn_phase long state now guard regular (by omega)
  have retry := afterGuard_phase long state now guard regular (by omega)
  have later : ∀ delay : Int, 0 ≤ delay → delay < 2 ^ 64 →
      awdlCanSendIn long state (now + UInt64.ofInt delay) guard =
        guardDelay guard ((phase now state.sync + delay.toNat) % 65536) := by
    intro delay positive small
    rw [canSendIn_phase long state _ guard regular (by omega), phase_add,
      ofInt_toNat delay positive small]
  show _ ↔ ¬ MissesWindow guard (65536 - phase now state.sync)
  unfold LandsOutside
  rw [retry, here]
  clear retry here
  generalize phase now state.sync = point at inside later ⊢
  have leads : 0 < guardDelay guard point →
      awdlCanSendIn long state (now + UInt64.ofInt (guardDelay guard point)) guard = 0 := by
    intro positive
    obtain ⟨small, lands⟩ := leading_lands guard point short inside positive
    exact (later _ positive.le small).trans lands
  by_cases trailing : 65536 - point < 1024 * guard
  · have negative : guardDelay guard point < 0 := by
      rw [guardDelay, if_pos trailing]
      omega
    rw [if_pos trailing, later (2 * (1024 * guard) - (65536 - point)) (by omega) (by omega),
      trailing_lands_iff guard point some short inside trailing]
    exact ⟨fun lands => lands.2 negative, fun lands => ⟨leads, fun _ => lands⟩⟩
  · refine iff_of_true ⟨leads, ?_⟩ (fun misses => trailing misses.1)
    intro negative
    rw [guardDelay, if_neg trailing] at negative
    split at negative
    · omega
    · omega

theorem startState_aligned : Aligned startState.sync := awdlSyncStateInit_aligned 0

/-- One microsecond into the guard at the end of a slot: the retry is two microseconds
into the guard at the start of the next. -/
theorem guard_retry_misses : Regular startState.sync ∧
    awdlCanSendIn .bits64 startState 49153 16 = -1 ∧
    awdlCanSendIn .bits64 startState (49153 + 1 + 16 * 1024) 16 ≠ 0 :=
  ⟨startState_aligned.toRegular, by decide, by decide⟩

theorem guard_retry_iff_late : Regular startState.sync ∧
    awdlCanSendIn .bits64 startState 60000 16 < 0 ∧ LandsOutside .bits64 startState 60000 16 := by
  have window : ¬ MissesWindow 16 (65536 - (60000 - startState.sync.lastUpdate).toNat % 65536) := by
    unfold MissesWindow
    decide
  exact ⟨startState_aligned.toRegular, by decide,
    (guard_retry_iff .bits64 startState 60000 16 startState_aligned.toRegular (by decide)
      (by decide)).mpr window⟩

end Retry

section Shared

variable (state : AwdlState) (peer : Peer)

def chanInSlot (sequence : ChanSeq) (slot : Nat) : UInt8 :=
  awdlChanNum (sequence.toList.getD slot chanNull) state.channel.enc

def Shared (slot : Nat) : Prop :=
  chanInSlot state state.channel.sequence slot ≠ 0 ∧
    chanInSlot state state.channel.sequence slot = chanInSlot state peer.sequence slot

instance (slot : Nat) : Decidable (Shared state peer slot) := inferInstanceAs (Decidable (_ ∧ _))

theorem chanAt_slot (sequence : ChanSeq) (eaw : UInt16) :
    chanAt sequence eaw = sequence.toList.getD (eaw.toNat % awdlChanseqLength) chanNull := by
  have inside : eaw.toNat % awdlChanseqLength < sequence.toList.length := by
    rw [sequence.size]
    exact Nat.mod_lt _ (by decide)
  rw [chanAt, List.get_eq_getElem, List.getD_eq_getElem?_getD, List.getElem?_eq_getElem inside]
  rfl

variable {state peer} (long : LongWidth) (now : UInt64)

theorem sameChannel_iff (synced : peer.syncOffset = 0) :
    awdlSameChannelAsPeer long state now peer = true ↔
      Shared state peer (slot long now state.sync) := by
  have here : now + peer.syncOffset = now := by rw [synced, UInt64.add_zero]
  unfold awdlSameChannelAsPeer Shared chanInSlot slot
  simp only [here, chanAt_slot, Bool.and_eq_true, bne_iff_ne, beq_iff_eq]

def unicastDelay (state : AwdlState) (peer : Peer) (guard slot phase : Nat) : Int :=
  if ¬ Shared state peer slot then 65536 - phase
  else if 65536 - phase < 1024 * guard ∧ Shared state peer ((slot + 1) % 16) then 0
  else if 65536 - phase ≥ 1024 * guard ∧ Shared state peer ((slot + 15) % 16) then 0
  else guardDelay guard phase

theorem slot_next (aligned : Aligned state.sync) :
    slot long (now + ieee80211TuToUsec long 64) state.sync =
      (slot long now state.sync + 1) % 16 := by
  have whole : (ieee80211TuToUsec long 64).toNat = 65536 := tuToUsec_toNat long 64 (by decide)
  have inside := phase_lt now state.sync
  rw [slot_add long now aligned, whole]
  congr 2
  omega

theorem slot_before (aligned : Aligned state.sync) :
    slot long (now - ieee80211TuToUsec long 64) state.sync =
      (slot long now state.sync + 15) % 16 := by
  have back : now - ieee80211TuToUsec long 64 + ieee80211TuToUsec long 64 = now := by grind
  have next := slot_next long (now - ieee80211TuToUsec long 64) aligned
  have bound := slot_lt long (now - ieee80211TuToUsec long 64) state.sync
  rw [back] at next
  omega

theorem canSendUnicastIn_phase (aligned : Aligned state.sync) (synced : peer.syncOffset = 0)
    (guard : Nat) (short : guard ≤ 32) :
    awdlCanSendUnicastIn long state peer now guard =
      unicastDelay state peer guard (slot long now state.sync) (phase now state.sync) := by
  have left := nextAwUs_phase long now aligned.toRegular
  have inside := phase_lt now state.sync
  have room := guardUsec_toNat long guard short
  have whole : (ieee80211TuToUsec long 64).toNat = 65536 := tuToUsec_toNat long 64 (by decide)
  unfold awdlCanSendUnicastIn unicastDelay guardDelay usecToSec
  simp only [Bool.not_eq_true', ← Bool.not_eq_true, sameChannel_iff _ _ synced,
    slot_next long now aligned, slot_before long now aligned, UInt64.lt_iff_toNat_lt,
    UInt64.toNat_sub, left, room, whole]
  by_cases shared : Shared state peer (slot long now state.sync)
  swap
  · simp only [shared, not_false_eq_true, ↓reduceIte]
    omega
  simp only [shared, not_true_eq_false, ↓reduceIte]
  by_cases trailing : 65536 - phase now state.sync < 1024 * guard
  · have late : ¬ 65536 - phase now state.sync ≥ 1024 * guard := by omega
    simp only [trailing, late, true_and, false_and, ↓reduceIte]
    split
    · rfl
    · omega
  · have early : 65536 - phase now state.sync ≥ 1024 * guard := by omega
    have passed : (2 ^ 64 - (65536 - phase now state.sync) + 65536) % 2 ^ 64 =
        phase now state.sync := by omega
    simp only [trailing, early, true_and, false_and, ↓reduceIte, passed]
    split
    · split
      · rfl
      · omega
    · simp

/-- What it takes to send at once. -/
theorem unicastDelay_eq_zero {guard slot phase : Nat} (inside : phase < 65536)
    (ready : unicastDelay state peer guard slot phase = 0) :
    Shared state peer slot ∧
      (65536 - phase < 1024 * guard → Shared state peer ((slot + 1) % 16)) ∧
      (phase < 1024 * guard → 1024 * guard ≤ 65536 - phase →
        Shared state peer ((slot + 15) % 16)) := by
  have outside := guardDelay_eq_zero_iff guard phase inside
  unfold unicastDelay at ready
  split at ready
  · omega
  case isFalse here =>
  refine ⟨not_not.mp here, ?_, ?_⟩
  · intro trailing
    by_contra apart
    have late : ¬ 65536 - phase ≥ 1024 * guard := by omega
    simp only [apart, late, and_false, false_and, ↓reduceIte] at ready
    exact absurd (outside.mp ready).2 late
  · intro leading early
    by_contra apart
    have notLate : ¬ 65536 - phase < 1024 * guard := by omega
    simp only [apart, notLate, and_false, false_and, ↓reduceIte] at ready
    exact absurd (outside.mp ready).1 (by omega)

end Shared

/-- An instant less than a guard away is in the same slot or in a neighbour of it, and
then the border between the two is less than a guard away. -/
theorem slot_near (long : LongWidth) {sync : SyncState} (now t : UInt64) (guard : Nat)
    (aligned : Aligned sync) (short : guard ≤ 32)
    (near : (t - (now - UInt64.ofNat (1024 * guard))).toNat < 2 * (1024 * guard)) :
    slot long t sync = slot long now sync ∨
      slot long t sync = (slot long now sync + 1) % 16 ∧ 65536 - phase now sync < 1024 * guard ∨
      slot long t sync = (slot long now sync + 15) % 16 ∧ phase now sync < 1024 * guard ∧
        1024 * guard ≤ 65536 - phase now sync := by
  -- Everything is measured from the start of the interval.
  have width : (UInt64.ofNat (1024 * guard)).toNat = 1024 * guard := by
    rw [UInt64.toNat_ofNat']
    exact Nat.mod_eq_of_lt (by omega)
  have present : now - UInt64.ofNat (1024 * guard) + UInt64.ofNat (1024 * guard) = now := by grind
  have instant : now - UInt64.ofNat (1024 * guard) +
      (t - (now - UInt64.ofNat (1024 * guard))) = t := by grind
  have slotNow := slot_add long (now - UInt64.ofNat (1024 * guard)) aligned
    (UInt64.ofNat (1024 * guard))
  have phaseNow := phase_add (now - UInt64.ofNat (1024 * guard)) sync (UInt64.ofNat (1024 * guard))
  have slotThen := slot_add long (now - UInt64.ofNat (1024 * guard)) aligned
    (t - (now - UInt64.ofNat (1024 * guard)))
  rw [present, width] at slotNow phaseNow
  rw [instant] at slotThen
  have start := phase_lt (now - UInt64.ofNat (1024 * guard)) sync
  generalize (t - (now - UInt64.ofNat (1024 * guard))).toNat = passed at near slotThen
  generalize phase (now - UInt64.ofNat (1024 * guard)) sync = first at phaseNow slotNow slotThen start
  generalize slot long (now - UInt64.ofNat (1024 * guard)) sync = origin at slotNow slotThen
  by_cases later : (first + passed) / 65536 = (first + 1024 * guard) / 65536 + 1
  · exact .inr (.inl (by omega))
  by_cases earlier : (first + passed) / 65536 + 1 = (first + 1024 * guard) / 65536
  · exact .inr (.inr (by omega))
  · refine .inl ?_
    rw [slotThen, slotNow]
    congr 2
    omega

/-- A unicast frame goes out only while both nodes stay on one channel: from a guard before
to a guard after the present instant, also where the clock wraps. -/
theorem unicast_on_shared_channel (long : LongWidth) (state : AwdlState) (peer : Peer)
    (now : UInt64) (guard : Nat) (aligned : Aligned state.sync) (synced : peer.syncOffset = 0)
    (short : guard ≤ 32) (ready : awdlCanSendUnicastIn long state peer now guard = 0) (t : UInt64)
    (near : (t - (now - UInt64.ofNat (1024 * guard))).toNat < 2 * (1024 * guard)) :
    Shared state peer (slot long t state.sync) := by
  rw [canSendUnicastIn_phase long now aligned synced guard short] at ready
  obtain ⟨here, next, before⟩ := unicastDelay_eq_zero (phase_lt now state.sync) ready
  obtain same | ⟨same, trailing⟩ | ⟨same, leading, early⟩ :=
    slot_near long now t guard aligned short near
  · rw [same]
    exact here
  · rw [same]
    exact next trailing
  · rw [same]
    exact before leading early

def tunedState : AwdlState := awdlInitState (Fixed.replicate _ 0) [] selfAddr chanOpclass6 0

def tunedPeer : Peer :=
  { awdlPeerNew zeroPeer peerAddr with sequence := awdlChanseqInitStatic chanOpclass6 }

/-- A frame in the first guard of the first slot, and an instant before the clock started. -/
theorem unicast_on_shared_channel_start : Aligned tunedState.sync ∧
    awdlCanSendUnicastIn .bits64 tunedState tunedPeer 1000 3 = 0 ∧
    Shared tunedState tunedPeer (slot .bits64 (1000 - 3072) tunedState.sync) := by
  have aligned : Aligned tunedState.sync := awdlSyncStateInit_aligned 0
  have ready : awdlCanSendUnicastIn .bits64 tunedState tunedPeer 1000 3 = 0 := by decide
  exact ⟨aligned, ready, unicast_on_shared_channel .bits64 tunedState tunedPeer 1000 3 aligned rfl
    (by decide) ready (1000 - 3072) (by decide)⟩

end Owl.Airtime
