import Owl.State

/-!
`schedule.c`: when a frame may be sent. The functions return a `double` number
of seconds that their callers compare with 0, negate, add and pass to a timer;
here a time in seconds is its exact number of microseconds. The differences of
the times are unsigned 64-bit numbers and wrap.
-/

namespace Owl.Schedule

open Bytes Channel Sync Peers State

def awdlUnicastGuardTu : Int := 3
def awdlMulticastGuardTu : Int := 16

/-- The seconds as a number of microseconds. -/
def usecToSec (usec : UInt64) : Int := usec.toNat

def chanAt (sequence : ChanSeq) (eaw : UInt16) : AwdlChan :=
  sequence.toList.get ⟨eaw.toNat % awdlChanseqLength, by
    rw [sequence.size]
    exact Nat.mod_lt _ (by decide)⟩

/-- `ieee80211_tu_to_usec` of an `int`, which is converted to `unsigned long`. -/
def guardUsec (long : LongWidth) (guard : Int) : UInt64 :=
  ieee80211TuToUsec long (UInt64.ofInt guard)

def awdlSameChannelAsPeer (long : LongWidth) (state : AwdlState) (now : UInt64) (peer : Peer) :
    Bool :=
  let ownChan := awdlChanNum (chanAt state.channel.sequence
    (awdlSyncCurrentEaw long now state.sync)) state.channel.enc
  -- The peer's slot is taken at its own time, with the number format of this node.
  let peerChan := awdlChanNum (chanAt peer.sequence
    (awdlSyncCurrentEaw long (now + peer.syncOffset) state.sync)) state.channel.enc
  ownChan != 0 && ownChan == peerChan

def awdlIsMulticastEaw (long : LongWidth) (state : AwdlState) (now : UInt64) : Bool :=
  let slot := (awdlSyncCurrentEaw long now state.sync).toNat % awdlChanseqLength
  slot == 0 || slot == 10

def awdlCanSendIn (long : LongWidth) (state : AwdlState) (now : UInt64) (guard : Int) : Int :=
  let nextAw := awdlSyncNextAwUs long now state.sync
  let guard := guardUsec long guard
  let eaw := ieee80211TuToUsec long 64
  if nextAw < guard then -usecToSec (guard - nextAw)
  else if eaw - nextAw < guard then usecToSec (guard - (eaw - nextAw))
  else 0

def awdlCanSendUnicastIn (long : LongWidth) (state : AwdlState) (peer : Peer) (now : UInt64)
    (guard : Int) : Int :=
  let nextAw := awdlSyncNextAwUs long now state.sync
  let guard := guardUsec long guard
  let eaw := ieee80211TuToUsec long 64
  if !awdlSameChannelAsPeer long state now peer then usecToSec nextAw
  else if nextAw < guard then
    -- No guard is needed where the neighbouring slot is shared as well.
    if awdlSameChannelAsPeer long state (now + eaw) peer then 0 else -usecToSec (guard - nextAw)
  else if eaw - nextAw < guard then
    if awdlSameChannelAsPeer long state (now - eaw) peer then 0
    else usecToSec (guard - (eaw - nextAw))
  else 0

end Owl.Schedule
