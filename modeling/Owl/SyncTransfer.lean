import Owl.Sync
import Mathlib.Data.Nat.Bitwise
import Mathlib.Data.Nat.ModEq

/-!
What a beacon transfers. With the periods that `awdl_sync_state_init` sets, the
schedule of a node is a point on a circle of 2^30 microseconds, the time in which
the 16-bit window counter comes round; the circle divides the range of the clock
and that of either `unsigned long`, so that no wrap of either shows. A beacon
gives the point of its sender rounded down to a time unit, and a receiver that
takes it over runs behind the sender by what was cut off, for ever.
-/

namespace Owl.SyncTransfer

open Sync

/-- The periods of `awdl_sync_state_init`, which nothing changes. -/
structure Regular (state : SyncState) : Prop where
  mode : state.presenceMode = 4
  period : state.awPeriod = 16

/-- A master whose counter stands at the start of an extended window. -/
structure Aligned (state : SyncState) : Prop extends Regular state where
  counter : state.awCounter.toNat % 4 = 0

section Circle

variable (long : LongWidth) (now : UInt64) (state : SyncState)

def position : Nat :=
  (state.awCounter.toNat * 16384 + (now - state.lastUpdate).toNat) % 2 ^ 30

theorem truncate_mod (value : UInt64) :
    (long.truncate value).toNat % 2 ^ 32 = value.toNat % 2 ^ 32 := by
  cases long with
  | bits32 => simp [LongWidth.truncate]
  | bits64 => rfl

theorem position_add (delay : UInt64) :
    position (now + delay) state = (position now state + delay.toNat) % 2 ^ 30 := by
  have before := state.lastUpdate.toNat_lt
  have shift : (now + delay - state.lastUpdate).toNat % 2 ^ 30 =
      ((now - state.lastUpdate).toNat + delay.toNat) % 2 ^ 30 := by
    rw [UInt64.toNat_sub, UInt64.toNat_sub, UInt64.toNat_add]
    omega
  unfold position
  omega

theorem toTu (usec : UInt64) :
    (ieee80211UsecToTu long usec).toNat = (long.truncate usec).toNat / 1024 := by
  rw [ieee80211UsecToTu, UInt64.toNat_div]
  rfl

theorem tuToUsec_toNat (tu : UInt64) (small : tu.toNat ≤ 64) :
    (ieee80211TuToUsec long tu).toNat = 1024 * tu.toNat := by
  have unit : (1024 : UInt64).toNat = 1024 := rfl
  cases long with
  | bits32 =>
      simp only [ieee80211TuToUsec, LongWidth.truncate, UInt64.toNat_mul, UInt32.toNat_toUInt64,
        UInt64.toNat_toUInt32, unit]
      omega
  | bits64 =>
      simp only [ieee80211TuToUsec, LongWidth.truncate, UInt64.toNat_mul, unit]
      omega

variable {state} (regular : Regular state)

include regular

theorem eawPeriod_eq : state.eawPeriod = 64 := by
  rw [SyncState.eawPeriod, regular.mode, regular.period]
  decide

theorem currentAw_position :
    (awdlSyncCurrentAw long now state).toNat = position now state / 16384 := by
  have counter := state.awCounter.toNat_lt
  unfold awdlSyncCurrentAw position
  rw [eawPeriod_eq regular, regular.mode, regular.period]
  generalize now - state.lastUpdate = elapsed
  have bound := (long.truncate elapsed).toNat_lt
  -- Only the low 32 bits of the elapsed time matter, whatever `long` keeps.
  have same := truncate_mod long elapsed
  have mode : (4 : UInt8).toNat = 4 := rfl
  have period : (16 : UInt16).toNat = 16 := rfl
  have eaw : (64 : UInt64).toNat = 64 := rfl
  simp only [UInt64.toNat_toUInt16, UInt64.toNat_add, UInt64.toNat_mul, UInt64.toNat_div,
    UInt64.toNat_mod, UInt16.toNat_toUInt64, UInt8.toNat_toUInt64, toTu, mode, period, eaw]
  omega

theorem nextAwTu_position (aligned : state.awCounter.toNat % 4 = 0) :
    (awdlSyncNextAwTu long now state).toNat = 64 - position now state % 65536 / 1024 := by
  unfold awdlSyncNextAwTu position
  rw [eawPeriod_eq regular]
  generalize now - state.lastUpdate = elapsed
  have bound := (long.truncate elapsed).toNat_lt
  have same := truncate_mod long elapsed
  have eaw : (64 : UInt64).toNat = 64 := rfl
  simp only [UInt64.toNat_toUInt16, UInt64.toNat_sub, UInt64.toNat_mod, toTu, eaw]
  omega

theorem nextAwUs_position (aligned : state.awCounter.toNat % 4 = 0) :
    (awdlSyncNextAwUs long now state).toNat = 65536 - position now state % 65536 := by
  have period : ieee80211TuToUsec long 64 = 65536 := by
    cases long <;> decide
  unfold awdlSyncNextAwUs position
  rw [eawPeriod_eq regular, period]
  generalize now - state.lastUpdate = elapsed
  have eaw : (65536 : UInt64).toNat = 65536 := rfl
  simp only [UInt64.toNat_sub, UInt64.toNat_mod, eaw]
  omega

end Circle

section Hop

/-- Masking the last two bits goes back to the start of the extended window. -/
theorem mask_toNat (counter : UInt16) : (counter &&& 0xfffc).toNat = counter.toNat / 4 * 4 := by
  have small := counter.toNat_lt
  rw [UInt16.toNat_and]
  generalize counter.toNat = value at small
  have mask : (0xfffc : UInt16).toNat = (2 ^ 14 - 1) <<< 2 := rfl
  have floor : value / 4 * 4 = (value >>> 2) <<< 2 := by
    rw [Nat.shiftRight_eq_div_pow, Nat.shiftLeft_eq]
  apply Nat.eq_of_testBit_eq
  intro i
  rw [mask, floor, Nat.testBit_and, Nat.testBit_shiftLeft, Nat.testBit_shiftLeft,
    Nat.testBit_shiftRight, Nat.testBit_two_pow_sub_one]
  by_cases low : i ≥ 2
  · have back : 2 + (i - 2) = i := by omega
    rw [back]
    -- The mask covers bits 2 to 15; the counter has none above.
    by_cases high : i < 16
    · have inside : i - 2 < 14 := by omega
      simp [low, inside]
    · have power : 2 ^ 16 ≤ 2 ^ i := Nat.pow_le_pow_right (by decide) (by omega)
      have zero : value.testBit i = false := Nat.testBit_lt_two_pow (by omega)
      simp [zero]
  · simp [low]

theorem updateLast_aligned (long : LongWidth) (now : UInt64) (timeToNextAw awCounter : UInt16)
    (state : SyncState) (regular : Regular state) :
    Aligned (awdlSyncUpdateLast long now timeToNextAw awCounter state) := by
  refine ⟨⟨regular.mode, regular.period⟩, ?_⟩
  show (awCounter &&& 0xfffc).toNat % 4 = 0
  rw [mask_toNat]
  omega

variable (long : LongWidth) {master receiver : SyncState} (t r : UInt64)

/-- The receiver once it has taken over the beacon that `master` sends at its clock `t`. -/
def afterBeacon (master receiver : SyncState) : SyncState :=
  awdlSyncUpdateLast long r (awdlSyncNextAwTu long t master) (awdlSyncCurrentAw long t master)
    receiver

/-- The part of a time unit that the beacon does not tell. -/
def cutOff (master : SyncState) : Nat := position t master % 1024

theorem cutOff_lt (master : SyncState) : cutOff t master < 1024 := Nat.mod_lt _ (by decide)

theorem afterBeacon_aligned (regular : Regular receiver) :
    Aligned (afterBeacon long t r master receiver) :=
  updateLast_aligned long r _ _ receiver regular

/-- The schedule of the receiver is that of the sender, shifted by what was cut off. -/
theorem afterBeacon_position (aligned : Aligned master) (regular : Regular receiver)
    (delay : UInt64) :
    position (r + delay) (afterBeacon long t r master receiver) =
      position (t + (delay - UInt64.ofNat (cutOff t master))) master := by
  have tu := nextAwTu_position long t aligned.toRegular aligned.counter
  have aw := currentAw_position long t aligned.toRegular
  have point : position t master < 2 ^ 30 := Nat.mod_lt _ (by decide)
  -- The receiver dates its last update back by whole time units.
  have passed : (r - (afterBeacon long t r master receiver).lastUpdate).toNat =
      1024 * (position t master % 65536 / 1024) := by
    have units : (receiver.eawPeriod - (awdlSyncNextAwTu long t master).toUInt64).toNat =
        position t master % 65536 / 1024 := by
      have eaw : (64 : UInt64).toNat = 64 := rfl
      rw [eawPeriod_eq regular, UInt64.toNat_sub, UInt16.toNat_toUInt64, tu, eaw]
      omega
    have usec := tuToUsec_toNat long _ (by rw [units]; omega)
    rw [units] at usec
    show (r - (r - ieee80211TuToUsec long _)).toNat = _
    rw [UInt64.toNat_sub, UInt64.toNat_sub, usec]
    have bound := r.toNat_lt
    omega
  -- The rest of the extended window is in the date, not in the counter.
  have counter : (afterBeacon long t r master receiver).awCounter.toNat =
      position t master / 65536 * 4 := by
    show ((awdlSyncCurrentAw long t master) &&& 0xfffc).toNat = _
    rw [mask_toNat, aw]
    omega
  have cut : (UInt64.ofNat (cutOff t master)).toNat = position t master % 1024 := by
    rw [UInt64.toNat_ofNat']
    exact Nat.mod_eq_of_lt (Nat.lt_trans (cutOff_lt t master) (by decide))
  have bound := delay.toNat_lt
  rw [position_add, position_add, position, passed, counter, UInt64.toNat_sub, cut]
  omega

end Hop

section Chain

variable (long : LongWidth)

/-- At every instant `node` is where `root` was `lag` microseconds before. The clocks
of both run at the speed of a common time and are given by what they are ahead of it. -/
def Behind (lag : Nat) (rootClock : UInt64) (root : SyncState) (clock : UInt64)
    (node : SyncState) : Prop :=
  ∀ instant, position (instant + clock) node =
    position (instant + rootClock - UInt64.ofNat lag) root

theorem Behind.refl (clock : UInt64) (root : SyncState) : Behind 0 clock root clock root := by
  intro instant
  have same : instant + clock - UInt64.ofNat 0 = instant + clock := UInt64.sub_zero _
  rw [same]

theorem Behind.nextAwUs {lag : Nat} {rootClock clock : UInt64} {root node : SyncState}
    (behind : Behind lag rootClock root clock node) (master : Aligned root) (slave : Aligned node)
    (instant : UInt64) :
    (awdlSyncNextAwUs long (instant + clock) node).toNat ≡
      (awdlSyncNextAwUs long (instant + rootClock) root).toNat + lag [MOD 65536] := by
  have earlier : instant + rootClock - UInt64.ofNat lag =
      instant + rootClock + (0 - UInt64.ofNat lag) := by
    rw [UInt64.zero_sub, UInt64.sub_eq_add_neg]
  have wrapped : (UInt64.ofNat lag).toNat = lag % 2 ^ 64 := UInt64.toNat_ofNat'
  have point : position (instant + rootClock) root < 2 ^ 30 := Nat.mod_lt _ (by decide)
  rw [nextAwUs_position long _ slave.toRegular slave.counter,
    nextAwUs_position long _ master.toRegular master.counter, behind instant, earlier,
    position_add, UInt64.toNat_sub, wrapped]
  have zero : (0 : UInt64).toNat = 0 := rfl
  rw [zero]
  unfold Nat.ModEq
  omega

theorem Behind.currentAw {lag : Nat} {rootClock clock : UInt64} {root node : SyncState}
    (behind : Behind lag rootClock root clock node) (master : Regular root) (slave : Regular node)
    (instant : UInt64) :
    awdlSyncCurrentAw long (instant + clock) node =
      awdlSyncCurrentAw long (instant + rootClock - UInt64.ofNat lag) root := by
  apply UInt16.toNat_inj.mp
  rw [currentAw_position long _ slave, currentAw_position long _ master, behind instant]

/-- One more hop adds the part of a time unit that its beacon cuts off. -/
theorem Behind.hop {lag : Nat} {rootClock clock : UInt64} {root master receiver : SyncState}
    (behind : Behind lag rootClock root clock master) (aligned : Aligned master)
    (regular : Regular receiver) (clock' sent : UInt64) :
    Behind (lag + cutOff (sent + clock) master) rootClock root clock'
      (afterBeacon long (sent + clock) (sent + clock') master receiver) := by
  intro instant
  have transfer := afterBeacon_position long (sent + clock) (sent + clock') aligned regular
    (instant - sent)
  generalize cutOff (sent + clock) master = cut at transfer ⊢
  -- Both sides at the same instant, in terms of the time since the beacon.
  have heard : sent + clock' + (instant - sent) = instant + clock' := by grind
  have told : sent + clock + (instant - sent - UInt64.ofNat cut) =
      instant - UInt64.ofNat cut + clock := by grind
  have first : instant - UInt64.ofNat cut + rootClock - UInt64.ofNat lag =
      instant + rootClock - UInt64.ofNat (lag + cut) := by
    rw [UInt64.ofNat_add]
    grind
  rw [heard, told, behind, first] at transfer
  exact transfer

inductive Chain (root : SyncState) (rootClock : UInt64) : Nat → UInt64 → SyncState → Prop where
  | root : Chain root rootClock 0 rootClock root
  | hop (hops : Nat) (clock clock' sent : UInt64) (master receiver : SyncState)
      (upstream : Chain root rootClock hops clock master) (regular : Regular receiver) :
      Chain root rootClock (hops + 1) clock'
        (afterBeacon long (sent + clock) (sent + clock') master receiver)

theorem Chain.behind {root node : SyncState} {rootClock clock : UInt64} {hops : Nat}
    (chain : Chain long root rootClock hops clock node) (aligned : Aligned root) :
    Aligned node ∧ ∃ lag, lag ≤ 1023 * hops ∧ Behind lag rootClock root clock node := by
  induction chain with
  | root =>
      exact ⟨aligned, 0, Nat.le_refl 0, Behind.refl rootClock root⟩
  | hop hops clock clock' sent master receiver upstream regular ih =>
      obtain ⟨steady, lag, bounded, behind⟩ := ih
      refine ⟨afterBeacon_aligned long _ _ regular, _, ?_,
        behind.hop long steady regular clock' sent⟩
      have cut := cutOff_lt (sent + clock) master
      omega

end Chain

/-- A hop and a chain of hops: `e` and the lags are the same for all times to come. -/
theorem beacon_transfers_schedule (long : LongWidth) :
    (∀ (master receiver : SyncState) (t r : UInt64), Aligned master → Regular receiver →
      ∃ e, e < 1024 ∧ ∀ d : Nat,
        (awdlSyncNextAwUs long (r + UInt64.ofNat d) (afterBeacon long t r master receiver)).toNat ≡
            (awdlSyncNextAwUs long (t + UInt64.ofNat d) master).toNat + e [MOD 65536] ∧
          (e ≤ d → awdlSyncCurrentAw long (r + UInt64.ofNat d)
              (afterBeacon long t r master receiver) =
            awdlSyncCurrentAw long (t + UInt64.ofNat (d - e)) master)) ∧
      ∀ (root node : SyncState) (rootClock clock : UInt64) (hops : Nat), Aligned root →
        Chain long root rootClock hops clock node →
        ∃ lag, lag ≤ 1023 * hops ∧ ∀ instant,
          (awdlSyncNextAwUs long (instant + clock) node).toNat ≡
              (awdlSyncNextAwUs long (instant + rootClock) root).toNat + lag [MOD 65536] ∧
            awdlSyncCurrentAw long (instant + clock) node =
              awdlSyncCurrentAw long (instant + rootClock - UInt64.ofNat lag) root := by
  constructor
  · intro master receiver t r aligned regular
    -- One hop is a chain of length one, with the beacon sent at instant 0.
    have hop := (Behind.refl t master).hop long aligned regular r 0
    rw [UInt64.zero_add, UInt64.zero_add, Nat.zero_add] at hop
    have steady : Aligned (afterBeacon long t r master receiver) :=
      afterBeacon_aligned long t r regular
    refine ⟨cutOff t master, cutOff_lt t master, ?_⟩
    intro d
    rw [UInt64.add_comm r, UInt64.add_comm t]
    refine ⟨hop.nextAwUs long aligned steady (UInt64.ofNat d), ?_⟩
    intro late
    have earlier : UInt64.ofNat d + t - UInt64.ofNat (cutOff t master) =
        t + UInt64.ofNat (d - cutOff t master) := by
      rw [UInt64.ofNat_sub late]
      grind
    rw [hop.currentAw long aligned.toRegular steady.toRegular, earlier]
  · intro root node rootClock clock hops aligned chain
    obtain ⟨steady, lag, bounded, behind⟩ := chain.behind long aligned
    refine ⟨lag, bounded, ?_⟩
    intro instant
    exact ⟨behind.nextAwUs long aligned steady instant,
      behind.currentAw long aligned.toRegular steady.toRegular instant⟩

theorem awdlSyncStateInit_aligned (now : UInt64) : Aligned (awdlSyncStateInit now) :=
  ⟨⟨rfl, rfl⟩, rfl⟩

/-- A beacon that goes out 1500 microseconds after the start of the root. -/
theorem beacon_transfers_schedule_pair : ∃ e, e < 1024 ∧ ∀ d : Nat,
    (awdlSyncNextAwUs .bits64 (77 + UInt64.ofNat d)
        (afterBeacon .bits64 1500 77 (awdlSyncStateInit 0) (awdlSyncStateInit 5))).toNat ≡
      (awdlSyncNextAwUs .bits64 (1500 + UInt64.ofNat d) (awdlSyncStateInit 0)).toNat + e
        [MOD 65536] := by
  obtain ⟨e, small, later⟩ := (beacon_transfers_schedule .bits64).1 (awdlSyncStateInit 0)
    (awdlSyncStateInit 5) 1500 77 (awdlSyncStateInit_aligned 0)
    (awdlSyncStateInit_aligned 5).toRegular
  exact ⟨e, small, fun d => (later d).1⟩

def unextended : SyncState :=
  { awdlSyncStateInit 0 with presenceMode := 1, presenceModePos := by decide }

theorem beacon_needs_same_mode : Aligned (awdlSyncStateInit 0) ∧ ¬ ∃ e, e < 1024 ∧ ∀ d : Nat,
    (awdlSyncNextAwUs .bits64 (0 + UInt64.ofNat d)
        (afterBeacon .bits64 0 0 (awdlSyncStateInit 0) unextended)).toNat ≡
      (awdlSyncNextAwUs .bits64 (0 + UInt64.ofNat d) (awdlSyncStateInit 0)).toNat + e
        [MOD 65536] := by
  refine ⟨awdlSyncStateInit_aligned 0, ?_⟩
  rintro ⟨e, small, later⟩
  have now : 16384 ≡ 65536 + e [MOD 65536] := later 0
  unfold Nat.ModEq at now
  omega

end Owl.SyncTransfer
