import Owl.RxSpec
import Owl.SyncClock

/-!
What a synchronised node measures. `awdl_sync_error_tu` compares the window
counter and the countdown that a master advertises with its own. A slave that
took over a beacon stays behind the master by the part of a time unit that the
beacon cut off, so the error should be one time unit at most. The counters are
compared as they are, though, without regard to their wrap: in the moment in
which the counter of the master has wrapped and that of the slave has not, the
error is the whole range of the counter.
-/

namespace Owl.SyncError

open Bytes Channel Election Sync SyncTransfer SyncClock Peers Wire State RxTlv RxSpec

variable (long : LongWidth) {master receiver : SyncState} (t r delay : UInt64)

def laterError (master receiver : SyncState) : Int :=
  awdlSyncErrorTu long (r + delay) (awdlSyncNextAwTu long (t + delay) master)
    (awdlSyncCurrentAw long (t + delay) master) (afterBeacon long t r master receiver)

/-- The counter of the master has wrapped, and the slave is not there yet. -/
def WrapsFirst (master : SyncState) : Prop := position (t + delay) master < cutOff t master

instance (master : SyncState) : Decidable (WrapsFirst t delay master) :=
  inferInstanceAs (Decidable (_ < _))

/-- The slave is `cutOff` microseconds behind the master on the circle. -/
theorem slave_position (aligned : Aligned master) (regular : Regular receiver) :
    position (r + delay) (afterBeacon long t r master receiver) =
      (position (t + delay) master + 2 ^ 30 - cutOff t master) % 2 ^ 30 := by
  have small := cutOff_lt t master
  have bound := delay.toNat_lt
  have cut : (UInt64.ofNat (cutOff t master)).toNat = cutOff t master := by
    rw [UInt64.toNat_ofNat']
    exact Nat.mod_eq_of_lt (by omega)
  rw [afterBeacon_position long t r aligned regular, position_add, position_add, UInt64.toNat_sub,
    cut]
  omega

/-- The error in terms of the two positions. -/
theorem laterError_eq (aligned : Aligned master) (regular : Regular receiver) :
    laterError long t r delay master receiver =
      if WrapsFirst t delay master then -1048575
      else ((position (t + delay) master / 1024 : Nat) : Int) -
        ((position (t + delay) master - cutOff t master) / 1024 : Nat) := by
  have steady : Aligned (afterBeacon long t r master receiver) :=
    afterBeacon_aligned long t r regular
  have small := cutOff_lt t master
  have aw := currentAw_position long (t + delay) aligned.toRegular
  have tu := nextAwTu_position long (t + delay) aligned.toRegular aligned.counter
  have eaw := currentEaw_position long (r + delay) steady.toRegular
  have own := nextAwTu_position long (r + delay) steady.toRegular steady.counter
  have behind := slave_position long t r delay aligned regular
  have range : position (t + delay) master < 2 ^ 30 := Nat.mod_lt _ (by decide)
  have mode : (4 : UInt8).toNat = 4 := rfl
  have period : (16 : UInt16).toNat = 16 := rfl
  unfold laterError awdlSyncErrorTu
  dsimp only
  rw [steady.mode, steady.period, aw, tu, eaw, own, behind, mode, period]
  by_cases first : WrapsFirst t delay master
  · rw [if_pos first]
    unfold WrapsFirst at first
    generalize position (t + delay) master = point at range first
    generalize cutOff t master = cut at small first
    rw [Int.bmod_eq_of_le (by omega) (by omega)]
    omega
  · rw [if_neg first]
    unfold WrapsFirst at first
    generalize position (t + delay) master = point at range first
    generalize cutOff t master = cut at small first
    rw [Int.bmod_eq_of_le (by omega) (by omega)]
    omega

structure Advertises (val : Buf) (timeToNextAw awCounter : UInt16) : Prop where
  whole : 31 ≤ val.bytes.length
  countdown : ofLe16 (slice val.bytes 1 2) = timeToNextAw
  counter : ofLe16 (slice val.bytes 29 2) = awCounter

/-- What the handler counts for a TLV of the sync master. -/
theorem awdlHandleSyncParamsTlv_counts (src : Peer) (val : Buf) (state : AwdlState) (now : UInt64)
    (timeToNextAw awCounter : UInt16)
    (fromMaster : awdlElectionIsSyncMaster state.election src.addr = true)
    (advertises : Advertises val timeToNextAw awCounter) :
    ∃ after, awdlHandleSyncParamsTlv long src val state now = .ok (.ok, src, after) ∧
      after.sync.measErr = state.sync.measErr +
        if 3 < awdlSyncErrorTu long now timeToNextAw awCounter state.sync ∨
          awdlSyncErrorTu long now timeToNextAw awCounter state.sync < -3 then 1 else 0 := by
  have whole := advertises.whole
  have bits : awdlSyncErrorTu long now timeToNextAw awCounter
      { state.sync with measTotal := state.sync.measTotal + 1 } =
      awdlSyncErrorTu long now timeToNextAw awCounter state.sync := rfl
  unfold awdlHandleSyncParamsTlv
  simp (disch := decide) only [readLe16_eq, except_ok_bind, Int.reduceToNat, fromMaster]
  rw [peek_inside 2 _ _ 1 (by omega), peek_inside 2 _ _ 29 (by omega), advertises.countdown,
    advertises.counter]
  refine ⟨_, rfl, ?_⟩
  rw [bits]
  by_cases large : 3 < awdlSyncErrorTu long now timeToNextAw awCounter state.sync ∨
      awdlSyncErrorTu long now timeToNextAw awCounter state.sync < -3
  · simp only [awdlSyncThreshold, gt_iff_lt, large, ↓reduceIte, awdlSyncUpdateLast]
  · simp only [awdlSyncThreshold, gt_iff_lt, large, ↓reduceIte, awdlSyncUpdateLast, UInt64.add_zero]

def Uncounted (master receiver : SyncState) : Prop :=
  ∀ (state : AwdlState) (src : Peer) (val : Buf),
    state.sync = afterBeacon long t r master receiver →
    awdlElectionIsSyncMaster state.election src.addr = true →
    Advertises val (awdlSyncNextAwTu long (t + delay) master)
      (awdlSyncCurrentAw long (t + delay) master) →
    ∃ after, awdlHandleSyncParamsTlv long src val state (r + delay) = .ok (.ok, src, after) ∧
      after.sync.measErr = state.sync.measErr

theorem synced_slave_error_iff (aligned : Aligned master) (regular : Regular receiver) :
    ((laterError long t r delay master receiver = 0 ∨
        laterError long t r delay master receiver = 1) ∧
      Uncounted long t r delay master receiver) ↔ ¬ WrapsFirst t delay master := by
  have error := laterError_eq long t r delay aligned regular
  constructor
  · rintro ⟨small, -⟩ first
    rw [if_pos first] at error
    omega
  · intro second
    have cut := cutOff_lt t master
    have order : cutOff t master ≤ position (t + delay) master := Nat.not_lt.mp second
    rw [if_neg second] at error
    have small : laterError long t r delay master receiver = 0 ∨
        laterError long t r delay master receiver = 1 := by omega
    refine ⟨small, ?_⟩
    intro state src val synced fromMaster advertises
    obtain ⟨after, handled, counted⟩ := awdlHandleSyncParamsTlv_counts long src val state (r + delay)
      _ _ fromMaster advertises
    refine ⟨after, handled, ?_⟩
    rw [counted, synced, if_neg, UInt64.add_zero]
    show ¬ (3 < laterError long t r delay master receiver ∨
      laterError long t r delay master receiver < -3)
    omega

def lastWindow : SyncState := { awdlSyncStateInit 0 with awCounter := 65532 }

/-- The second beacon comes 65535 microseconds after the first. -/
theorem synced_slave_error_wraps : Aligned lastWindow ∧ Regular (awdlSyncStateInit 0) ∧
    laterError .bits64 1 0 65535 lastWindow (awdlSyncStateInit 0) = -1048575 :=
  ⟨⟨⟨rfl, rfl⟩, rfl⟩, ⟨rfl, rfl⟩, by decide⟩

theorem synced_slave_error_iff_window : Aligned lastWindow ∧ Regular (awdlSyncStateInit 0) ∧
    ¬ WrapsFirst 1 65536 lastWindow ∧
    (laterError .bits64 1 0 65536 lastWindow (awdlSyncStateInit 0) = 0 ∨
      laterError .bits64 1 0 65536 lastWindow (awdlSyncStateInit 0) = 1) := by
  have aligned : Aligned lastWindow := ⟨⟨rfl, rfl⟩, rfl⟩
  have regular : Regular (awdlSyncStateInit 0) := ⟨rfl, rfl⟩
  have second : ¬ WrapsFirst 1 65536 lastWindow := by decide
  exact ⟨aligned, regular, second,
    ((synced_slave_error_iff .bits64 1 0 65536 aligned regular).mpr second).1⟩

end Owl.SyncError
