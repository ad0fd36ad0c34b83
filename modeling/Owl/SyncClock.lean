import Owl.Channel
import Owl.SyncTransfer

/-!
The clock of `sync.c` as a walk through the slots of a channel sequence. A slot
is an extended window of 65536 microseconds; the time in it and the number of
the slot move on together, whatever wraps: the 16-bit window counter, the 64-bit
clock, or a `last_update` that lies in the future. For all other periods the
window counter has a closed form as long as the clock has not wrapped.
-/

namespace Owl.SyncClock

open Channel Sync SyncTransfer

section Slots

variable (long : LongWidth) (now : UInt64) (state : SyncState)

def slot : Nat := (awdlSyncCurrentEaw long now state).toNat % awdlChanseqLength

def phase : Nat := (now - state.lastUpdate).toNat % 65536

theorem phase_lt : phase now state < 65536 := Nat.mod_lt _ (by decide)

theorem slot_lt : slot long now state < 16 := Nat.mod_lt _ (by decide)

theorem phase_add (delay : UInt64) :
    phase (now + delay) state = (phase now state + delay.toNat) % 65536 := by
  have before := state.lastUpdate.toNat_lt
  unfold phase
  rw [UInt64.toNat_sub, UInt64.toNat_sub, UInt64.toNat_add]
  omega

variable {state}

theorem nextAwUs_phase (regular : Regular state) :
    (awdlSyncNextAwUs long now state).toNat = 65536 - phase now state := by
  have period : ieee80211TuToUsec long 64 = 65536 := by
    cases long <;> decide
  have eaw : (65536 : UInt64).toNat = 65536 := rfl
  have inside := phase_lt now state
  unfold awdlSyncNextAwUs phase
  rw [eawPeriod_eq regular, period]
  simp only [UInt64.toNat_sub, UInt64.toNat_mod, eaw]
  omega

theorem position_phase (aligned : Aligned state) :
    position now state % 65536 = phase now state := by
  have counter := aligned.counter
  unfold position phase
  omega

theorem nextAwTu_phase (aligned : Aligned state) :
    (awdlSyncNextAwTu long now state).toNat = 64 - phase now state / 1024 := by
  rw [nextAwTu_position long now aligned.toRegular aligned.counter, position_phase now aligned]

theorem currentEaw_position (regular : Regular state) :
    (awdlSyncCurrentEaw long now state).toNat = position now state / 65536 := by
  have four : (4 : UInt8).toUInt16.toNat = 4 := rfl
  rw [awdlSyncCurrentEaw, UInt16.toNat_div, currentAw_position long now regular, regular.mode, four]
  omega

/-- Moving forward in time: every 65536 microseconds the next entry is in use. -/
theorem slot_add (aligned : Aligned state) (delay : UInt64) :
    slot long (now + delay) state =
      (slot long now state + (phase now state + delay.toNat) / 65536) % 16 := by
  have sixteen : awdlChanseqLength = 16 := rfl
  have point := position_phase now aligned
  unfold slot
  rw [currentEaw_position long _ aligned.toRegular, currentEaw_position long _ aligned.toRegular,
    position_add, sixteen]
  omega

end Slots

/-- The slots follow one another, and the two countdowns to the next one agree. -/
theorem slots_advance (long : LongWidth) (now : UInt64) (state : SyncState)
    (aligned : Aligned state) :
    1 ≤ (awdlSyncNextAwUs long now state).toNat ∧
      (awdlSyncNextAwUs long now state).toNat ≤ 65536 ∧
      1024 * ((awdlSyncNextAwTu long now state).toNat - 1 : Int) <
        (awdlSyncNextAwUs long now state).toNat ∧
      (awdlSyncNextAwUs long now state).toNat ≤ 1024 * (awdlSyncNextAwTu long now state).toNat ∧
      (∀ delay, delay < awdlSyncNextAwUs long now state →
        slot long (now + delay) state = slot long now state) ∧
      slot long (now + awdlSyncNextAwUs long now state) state = (slot long now state + 1) % 16 := by
  have usec := nextAwUs_phase long now aligned.toRegular
  have tu := nextAwTu_phase long now aligned
  have inside := phase_lt now state
  have bound := slot_lt long now state
  refine ⟨by omega, by omega, by omega, by omega, ?_, ?_⟩
  · intro delay early
    rw [UInt64.lt_iff_toNat_lt, usec] at early
    rw [slot_add long now aligned]
    omega
  · rw [slot_add long now aligned, usec]
    congr 2
    omega

/-- The 16-bit counter and the clock wrap together: the last window before 2^16 of
them have passed, and the start of a new count. -/
theorem slots_advance_wrap :
    slot .bits64 (0 - 1) (awdlSyncStateInit 0) = 15 ∧
      slot .bits64 (0 - 1 + awdlSyncNextAwUs .bits64 (0 - 1) (awdlSyncStateInit 0))
        (awdlSyncStateInit 0) = 0 := by
  have last : slot .bits64 (0 - 1) (awdlSyncStateInit 0) = 15 := by decide
  refine ⟨last, ?_⟩
  rw [(slots_advance .bits64 (0 - 1) (awdlSyncStateInit 0)
    (awdlSyncStateInit_aligned 0)).2.2.2.2.2, last]

section ClosedForm

/-- Windows within and windows before the extended window add up to all windows. -/
theorem windows_split (elapsed mode period : Nat) :
    elapsed % (mode * period) / period + mode * (elapsed / (mode * period)) = elapsed / period := by
  rw [Nat.mod_mul_left_div_self, Nat.mul_comm mode period, ← Nat.div_div_eq_div_mul]
  exact Nat.mod_add_div _ _

theorem eawPeriod_toNat (state : SyncState) :
    state.eawPeriod.toNat = state.presenceMode.toNat * state.awPeriod.toNat := by
  have mode := state.presenceMode.toNat_lt
  have period := state.awPeriod.toNat_lt
  have product : state.presenceMode.toNat * state.awPeriod.toNat ≤ 2 ^ 8 * 2 ^ 16 :=
    Nat.mul_le_mul mode.le period.le
  rw [SyncState.eawPeriod, UInt64.toNat_mul, UInt8.toNat_toUInt64, UInt16.toNat_toUInt64]
  exact Nat.mod_eq_of_lt (by omega)

/-- The window counter for arbitrary periods, in terms of the elapsed time units. -/
theorem currentAw_elapsed (long : LongWidth) (now : UInt64) (state : SyncState) :
    (awdlSyncCurrentAw long now state).toNat =
      (state.awCounter.toNat +
        (ieee80211UsecToTu long (now - state.lastUpdate)).toNat / state.awPeriod.toNat) % 2 ^ 16 := by
  unfold awdlSyncCurrentAw
  have units : (ieee80211UsecToTu long (now - state.lastUpdate)).toNat < 2 ^ 54 := by
    have bound := (long.truncate (now - state.lastUpdate)).toNat_lt
    rw [toTu]
    omega
  generalize ieee80211UsecToTu long (now - state.lastUpdate) = elapsed at units
  have counter := state.awCounter.toNat_lt
  have split := windows_split elapsed.toNat state.presenceMode.toNat state.awPeriod.toNat
  have quotient := Nat.div_le_self elapsed.toNat state.awPeriod.toNat
  -- None of the parts exceeds the elapsed time, so no 64-bit operation wraps.
  simp only [UInt64.toNat_toUInt16, UInt64.toNat_add, UInt64.toNat_mul, UInt64.toNat_div,
    UInt64.toNat_mod, UInt16.toNat_toUInt64, UInt8.toNat_toUInt64, eawPeriod_toNat]
  generalize elapsed.toNat / state.awPeriod.toNat = all at split quotient
  generalize elapsed.toNat % (state.presenceMode.toNat * state.awPeriod.toNat) /
    state.awPeriod.toNat = within at split
  generalize state.presenceMode.toNat *
    (elapsed.toNat / (state.presenceMode.toNat * state.awPeriod.toNat)) = before at split
  omega

theorem currentAw_closed (now : UInt64) (state : SyncState) (started : state.lastUpdate ≤ now) :
    (awdlSyncCurrentAw .bits64 now state).toNat =
      (state.awCounter.toNat +
        (now.toNat - state.lastUpdate.toNat) / (1024 * state.awPeriod.toNat)) % 2 ^ 16 := by
  have elapsed : (now - state.lastUpdate).toNat = now.toNat - state.lastUpdate.toNat :=
    UInt64.toNat_sub_of_le _ _ started
  rw [currentAw_elapsed, toTu, Nat.div_div_eq_div_mul, ← elapsed]
  rfl

/-- With the periods of `awdl_sync_state_init` the sign of the difference does not matter. -/
theorem currentAw_signed (long : LongWidth) (now : UInt64) (state : SyncState)
    (regular : Regular state) :
    ((awdlSyncCurrentAw long now state).toNat : Int) =
      (state.awCounter.toNat + ((now.toNat : Int) - state.lastUpdate.toNat) / (1024 * 16)) %
        2 ^ 16 := by
  have later := now.toNat_lt
  have before := state.lastUpdate.toNat_lt
  rw [currentAw_position long now regular, position, UInt64.toNat_sub]
  omega

/-- Either width of `unsigned long` dates the last update to the same point of the circle. -/
theorem updateLast_position (long : LongWidth) (now later : UInt64) (timeToNextAw awCounter : UInt16)
    (state : SyncState) :
    position later (awdlSyncUpdateLast long now timeToNextAw awCounter state) =
      position later (awdlSyncUpdateLast .bits64 now timeToNextAw awCounter state) := by
  have same : (ieee80211TuToUsec long (state.eawPeriod - timeToNextAw.toUInt64)).toNat % 2 ^ 32 =
      (ieee80211TuToUsec .bits64 (state.eawPeriod - timeToNextAw.toUInt64)).toNat % 2 ^ 32 := by
    generalize state.eawPeriod - timeToNextAw.toUInt64 = units
    have factor := truncate_mod long units
    have product := truncate_mod long (1024 * long.truncate units)
    have unit : (1024 : UInt64).toNat = 1024 := rfl
    rw [UInt64.toNat_mul, unit] at product
    rw [ieee80211TuToUsec, ieee80211TuToUsec, product]
    show _ = (1024 * units).toNat % 2 ^ 32
    rw [UInt64.toNat_mul, unit]
    omega
  unfold position awdlSyncUpdateLast
  generalize ieee80211TuToUsec long (state.eawPeriod - timeToNextAw.toUInt64) = back at same
  generalize ieee80211TuToUsec .bits64 (state.eawPeriod - timeToNextAw.toUInt64) = back' at same
  have since : ∀ back : UInt64, later - (now - back) = later - now + back := by grind
  dsimp only
  rw [since, since, UInt64.toNat_add, UInt64.toNat_add]
  omega

end ClosedForm

/-- The window counter in closed form, and its independence of the width of `unsigned long`. -/
theorem current_aw_closed_form :
    (∀ (now : UInt64) (state : SyncState), state.lastUpdate ≤ now →
      (awdlSyncCurrentAw .bits64 now state).toNat =
        (state.awCounter.toNat +
          (now.toNat - state.lastUpdate.toNat) / (1024 * state.awPeriod.toNat)) % 2 ^ 16) ∧
    (∀ (now : UInt64) (state : SyncState), Regular state →
      ((awdlSyncCurrentAw .bits64 now state).toNat : Int) =
        (state.awCounter.toNat + ((now.toNat : Int) - state.lastUpdate.toNat) / (1024 * 16)) %
          2 ^ 16) ∧
    ∀ (now later : UInt64) (timeToNextAw awCounter : UInt16) (state : SyncState), Regular state →
      awdlSyncCurrentAw .bits32 later (awdlSyncUpdateLast .bits32 now timeToNextAw awCounter state) =
          awdlSyncCurrentAw .bits64 later
            (awdlSyncUpdateLast .bits64 now timeToNextAw awCounter state) ∧
        awdlSyncNextAwTu .bits32 later
            (awdlSyncUpdateLast .bits32 now timeToNextAw awCounter state) =
          awdlSyncNextAwTu .bits64 later
            (awdlSyncUpdateLast .bits64 now timeToNextAw awCounter state) := by
  refine ⟨currentAw_closed, currentAw_signed .bits64, ?_⟩
  intro now later timeToNextAw awCounter state regular
  have narrow := updateLast_aligned .bits32 now timeToNextAw awCounter state regular
  have wide := updateLast_aligned .bits64 now timeToNextAw awCounter state regular
  have same := updateLast_position .bits32 now later timeToNextAw awCounter state
  constructor
  · apply UInt16.toNat_inj.mp
    rw [currentAw_position .bits32 later narrow.toRegular,
      currentAw_position .bits64 later wide.toRegular, same]
  · apply UInt16.toNat_inj.mp
    rw [nextAwTu_position .bits32 later narrow.toRegular narrow.counter,
      nextAwTu_position .bits64 later wide.toRegular wide.counter, same]

/-- A master that claims to be 65535 time units away from its next window. -/
theorem current_aw_closed_form_hostile :
    Regular (awdlSyncStateInit 0) ∧
      awdlSyncCurrentAw .bits32 5 (awdlSyncUpdateLast .bits32 3 0xffff 7 (awdlSyncStateInit 0)) =
        awdlSyncCurrentAw .bits64 5
          (awdlSyncUpdateLast .bits64 3 0xffff 7 (awdlSyncStateInit 0)) :=
  ⟨(awdlSyncStateInit_aligned 0).toRegular, (current_aw_closed_form.2.2 3 5 0xffff 7
    (awdlSyncStateInit 0) (awdlSyncStateInit_aligned 0).toRegular).1⟩

end Owl.SyncClock
