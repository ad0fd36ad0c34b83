import Mathlib.Data.Nat.Basic
import Mathlib.Algebra.Group.Nat.Defs

/-!
`sync.c`: the availability-window clock. All times are unsigned 64-bit
microseconds and wrap; `unsigned long`, through which the conversions of
`ieee80211.h` pass, has 32 or 64 bits. The periods divide, so a state carries
that they are not zero: `awdl_sync_state_init` sets them once and nothing
changes them.
-/

namespace Owl.Sync

/-- The width of `unsigned long` on the target. -/
inductive LongWidth where
  | bits32
  | bits64
  deriving DecidableEq, Repr

def LongWidth.truncate (long : LongWidth) (value : UInt64) : UInt64 :=
  match long with
  | .bits32 => value.toUInt32.toUInt64
  | .bits64 => value

def ieee80211TuToUsec (long : LongWidth) (tu : UInt64) : UInt64 :=
  long.truncate (1024 * long.truncate tu)

def ieee80211UsecToTu (long : LongWidth) (usec : UInt64) : UInt64 :=
  long.truncate usec / 1024

structure SyncState where
  awCounter : UInt16
  lastUpdate : UInt64
  awPeriod : UInt16
  presenceMode : UInt8
  measErr : UInt64
  measTotal : UInt64
  awPeriodPos : awPeriod ≠ 0
  presenceModePos : presenceMode ≠ 0
  deriving DecidableEq

def awdlSyncStateInit (now : UInt64) : SyncState where
  awCounter := 0
  lastUpdate := now
  awPeriod := 16
  presenceMode := 4
  measErr := 0
  measTotal := 0
  awPeriodPos := by decide
  presenceModePos := by decide

/-- `presence_mode * aw_period`, an `int` product that cannot overflow. -/
def SyncState.eawPeriod (state : SyncState) : UInt64 :=
  state.presenceMode.toUInt64 * state.awPeriod.toUInt64

def awdlSyncNextAwTu (long : LongWidth) (now : UInt64) (state : SyncState) : UInt16 :=
  let timeSince := ieee80211UsecToTu long (now - state.lastUpdate)
  (state.eawPeriod - timeSince % state.eawPeriod).toUInt16

def awdlSyncNextAwUs (long : LongWidth) (now : UInt64) (state : SyncState) : UInt64 :=
  let eawPeriod := ieee80211TuToUsec long state.eawPeriod
  let timeSince := now - state.lastUpdate
  eawPeriod - timeSince % eawPeriod

def awdlSyncCurrentAw (long : LongWidth) (now : UInt64) (state : SyncState) : UInt16 :=
  let timeSince := ieee80211UsecToTu long (now - state.lastUpdate)
  (state.awCounter.toUInt64 +
    (timeSince % state.eawPeriod) / state.awPeriod.toUInt64 +
    state.presenceMode.toUInt64 * (timeSince / state.eawPeriod)).toUInt16

def awdlSyncCurrentEaw (long : LongWidth) (now : UInt64) (state : SyncState) : UInt16 :=
  awdlSyncCurrentAw long now state / state.presenceMode.toUInt16

/-- The difference is computed in `int`, which wraps at 32 bits, and widened. -/
def awdlSyncErrorTu (long : LongWidth) (now : UInt64) (timeToNextAw awCounter : UInt16)
    (state : SyncState) : Int :=
  let eaws : Int := (awCounter.toNat / state.presenceMode.toNat : Nat) -
    (awdlSyncCurrentEaw long now state).toNat
  (eaws * state.presenceMode.toNat * state.awPeriod.toNat -
    ((timeToNextAw.toNat : Int) - (awdlSyncNextAwTu long now state).toNat)).bmod (2 ^ 32)

def awdlSyncUpdateLast (long : LongWidth) (now : UInt64) (timeToNextAw awCounter : UInt16)
    (state : SyncState) : SyncState :=
  { state with
    lastUpdate := now - ieee80211TuToUsec long (state.eawPeriod - timeToNextAw.toUInt64)
    -- Cut to the first window of an extended window, for a presence mode of 4.
    awCounter := awCounter &&& 0xfffc }

end Owl.Sync
