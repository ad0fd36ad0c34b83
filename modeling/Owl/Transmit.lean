import Owl.CircularBuffer
import Owl.Daemon
import Owl.Schedule
import Owl.Tx

/-!
The transmitting half of `core.c`: the host frames that wait in the slot `next`
and in the queue `tx_queue_multicast`, the handlers that send them and the
action frames, and the channel switch. A handler returns the daemon state and,
in order, what it did outside of it. The host device is what its reads return;
sending to the WLAN or to the host has no result that the handlers use. Clock
readings are parameters, one for each call of `clock_time_us` that a result
depends on.
-/

namespace Owl.Transmit

open Bytes Ether Channel Sync Peers Wire State Frames Tx CircularBuffer Schedule Daemon

def etherDstOffset : Int := 0
def pollNewUnicast : UInt8 := 0x1
def pollNewMulticast : UInt8 := 0x2

def txQueueLength : Nat := 16

theorem txQueueLength_pos : 0 < txQueueLength := by decide

structure DaemonState where
  awdlState : AwdlState
  ieee80211State : Ieee80211State
  next : Option Buf
  txQueueMulticast : CircularBuf Buf txQueueLength

inductive Timer where
  | mif
  | tx
  | txMcast
  | chan
  deriving DecidableEq

inductive TxEvent where
  /-- `host_recv` has filled the buffer. -/
  | hostRecv (frame : Buf)
  /-- `circular_buf_put`, and what `circular_buf_full` is before the call. -/
  | circularBufPut (frame : Buf) (full : Bool)
  /-- `awdl_send_data`, and what it passes to `wlan_send`. -/
  | awdlSendData (frame : Buf) (bytes : Option (List UInt8))
  | hostSend (frame : Buf)
  /-- The frame goes to an address that is no peer and is freed. -/
  | drop (frame : Buf)
  | wlanSend (bytes : List UInt8)
  | setChannel (channel : UInt8)
  | timerRearm (timer : Timer) (delay : Int)
  /-- `ev_feed_event` for the handler that reads from the host. -/
  | feedReadHost
  deriving DecidableEq

/-- A frame on the host device; `read` stores it into a fresh buffer, which it
does not exceed. -/
structure HostRead where
  memory : Fixed UInt8 etherMaxLen
  bytes : List UInt8
  fits : bytes.length ≤ etherMaxLen

/-- The buffer after `host_recv` and the `buf_take` of what was not filled. -/
def hostRecv (read : HostRead) : Except Fault Buf := do
  let buf ← storeBuf (bufNewOwned read.memory etherMaxLen_small) 0 read.bytes
  return (bufTake buf (bufLen buf - read.bytes.length)).getD buf

/-- `reads` is what the host device has; the loop ends at the failing read after
the last of them, when a queue is filled, or at a frame without a destination. -/
def pollHostDevice :
    List HostRead → DaemonState → Except Fault (UInt8 × DaemonState × List TxEvent)
  | [], state => .ok (0, state, [])
  | read :: rest, state => do
      -- What is not read stays with the host device.
      if state.next.isSome || circularBufFull state.txQueueMulticast then return (0, state, [])
      let buf ← hostRecv read
      -- The buffer of a frame too short for a destination is freed.
      let some dst ← readEtherAddr buf etherDstOffset | return (0, state, [.hostRecv buf])
      let queue := state.txQueueMulticast
      if dst.octet0 &&& 0x01 ≠ 0 then
        let (result, state, events) ←
          pollHostDevice rest { state with txQueueMulticast := circularBufPut queue buf }
        return (pollNewMulticast ||| result, state,
          .hostRecv buf :: .circularBufPut buf (circularBufFull queue) :: events)
      else
        let (result, state, events) ← pollHostDevice rest { state with next := some buf }
        return (pollNewUnicast ||| result, state, .hostRecv buf :: events)

def countUnicast (state : AwdlState) : AwdlState :=
  { state with stats := { state.stats with txDataUnicast := state.stats.txDataUnicast + 1 } }

def countMulticast (state : AwdlState) : AwdlState :=
  { state with stats := { state.stats with txDataMulticast := state.stats.txDataMulticast + 1 } }

def countTxAction (state : AwdlState) : AwdlState :=
  { state with stats := { state.stats with txAction := state.stats.txAction + 1 } }

/-- A negative time is in the guard at the end of the slot. -/
def afterGuard (long : LongWidth) (guard delay : Int) : Int :=
  if delay < 0 then -delay + usecToSec (guardUsec long guard) else delay

def sendNext (hash : EtherAddr → UInt64) (long : LongWidth) (now : UInt64) (frame : Buf)
    (state : DaemonState) : Except Fault (Int × DaemonState × List TxEvent) := do
  let some dst ← readEtherAddr frame etherDstOffset | throw .read
  if compareEtherAddr dst state.awdlState.selfAddress = .eq then
    return (0, { state with next := none }, [.hostSend frame])
  -- An address that is no peer frees the slot for the next frame.
  let (.ok, some peer) := awdlPeerGet hash state.awdlState.peers.peers dst
    | return (0, { state with next := none }, [.drop frame])
  let delay := awdlCanSendUnicastIn long state.awdlState peer now awdlUnicastGuardTu
  if delay = 0 then
    let (bytes, awdlState, ieee80211State) ←
      awdlSendData frame state.awdlState state.ieee80211State
    return (0, { state with awdlState := countUnicast awdlState,
                            ieee80211State := ieee80211State, next := none },
      [.awdlSendData frame bytes])
  return (afterGuard long awdlUnicastGuardTu delay, state, [])

def awdlSendUnicast (hash : EtherAddr → UInt64) (long : LongWidth) (now : UInt64)
    (state : DaemonState) : Except Fault (DaemonState × List TxEvent) := do
  let (delay, state, events) ←
    match state.next with
    | some frame => sendNext hash long now frame state
    | none => pure (0, state, [])
  return (state, events ++
    [if state.next.isSome then .timerRearm .tx delay else .feedReadHost])

def multicastRetry (long : LongWidth) (delay : Int) : Int :=
  if delay = 0 then usecToSec (ieee80211TuToUsec long 64)
  else afterGuard long awdlMulticastGuardTu delay

def sendOldest (long : LongWidth) (now : UInt64) (state : DaemonState) :
    Except Fault (Int × DaemonState × List TxEvent) := do
  let delay := awdlCanSendIn long state.awdlState now awdlMulticastGuardTu
  if awdlIsMulticastEaw long state.awdlState now && delay = 0 then
    let (some frame, queue) := circularBufGet state.txQueueMulticast false | throw .read
    let (bytes, awdlState, ieee80211State) ←
      awdlSendData frame state.awdlState state.ieee80211State
    return (0, { state with awdlState := countMulticast awdlState,
                            ieee80211State := ieee80211State, txQueueMulticast := queue },
      [.awdlSendData frame bytes])
  return (multicastRetry long delay, state, [])

def awdlSendMulticast (long : LongWidth) (now : UInt64) (state : DaemonState) :
    Except Fault (DaemonState × List TxEvent) := do
  let (delay, state, events) ←
    if circularBufEmpty state.txQueueMulticast then pure (0, state, [])
    else sendOldest long now state
  return (state, events ++
    [if circularBufEmpty state.txQueueMulticast then .feedReadHost
      else .timerRearm .txMcast delay])

def callIf (condition : Bool) (handler : DaemonState → Except Fault (DaemonState × List TxEvent))
    (state : DaemonState) : Except Fault (DaemonState × List TxEvent) :=
  if condition then handler state else .ok (state, [])

/-- The two handlers read the clock again. -/
def hostDeviceReady (hash : EtherAddr → UInt64) (long : LongWidth) (reads : List HostRead)
    (multicastNow unicastNow : UInt64) (state : DaemonState) :
    Except Fault (DaemonState × List TxEvent) := do
  let (result, state, polled) ← pollHostDevice reads state
  let (state, multicast) ←
    callIf (result &&& pollNewMulticast != 0) (awdlSendMulticast long multicastNow) state
  let (state, unicast) ←
    callIf (result &&& pollNewUnicast != 0) (awdlSendUnicast hash long unicastNow) state
  return (state, polled ++ multicast ++ unicast)

def awdlSendAction (env : TxEnv) (type : ActionType) (state : DaemonState) :
    Except Fault (DaemonState × List TxEvent) := do
  let (bytes, ieee80211State) ←
    awdlInitFullActionFrame env state.awdlState state.ieee80211State type
  return ({ state with awdlState := countTxAction state.awdlState,
                       ieee80211State := ieee80211State }, [.wlanSend bytes])

def awdlSendPsf (env : TxEnv) (state : DaemonState) := awdlSendAction env .psf state

/-- The timer goes off in the middle of the next extended window. -/
def awdlSendMif (env : TxEnv) (now : UInt64) (state : DaemonState) :
    Except Fault (DaemonState × List TxEvent) := do
  let nextAw := awdlSyncNextAwUs env.long now state.awdlState.sync
  let eawLen := state.awdlState.sync.eawPeriod
  let chanNum := awdlChanNum state.awdlState.channel.current state.awdlState.channel.enc
  let (state, events) ← callIf (chanNum > 0) (awdlSendAction env .mif) state
  return (state, events ++
    [.timerRearm .mif (usecToSec (nextAw + ieee80211TuToUsec env.long (eawLen / 2)))])

/-- `wlanIsFile` tells a capture file from an interface. -/
def awdlSwitchChannel (long : LongWidth) (wlanIsFile : Bool) (now : UInt64)
    (state : DaemonState) : DaemonState × List TxEvent :=
  let channel := state.awdlState.channel
  let chanNumOld := awdlChanNum channel.current channel.enc
  let chanNew := chanAt channel.sequence (awdlSyncCurrentEaw long now state.awdlState.sync)
  let chanNumNew := awdlChanNum chanNew channel.enc
  let rearm := TxEvent.timerRearm .chan (usecToSec (awdlSyncNextAwUs long now state.awdlState.sync))
  -- A null entry of the sequence keeps the radio where it is.
  if chanNumNew ≠ 0 ∧ chanNumNew ≠ chanNumOld then
    ({ state with awdlState :=
        { state.awdlState with channel := { channel with current := chanNew } } },
      (if wlanIsFile then [] else [.setChannel chanNumNew]) ++ [rearm])
  else (state, [rearm])

def daemonInit (memory : Fixed UInt8 (hostNameLengthMax + 1)) (slots : Fin txQueueLength → Buf)
    (hostname : List UInt8) (self : EtherAddr) (chan : AwdlChan) (now : UInt64)
    (filterRssi : Bool) : DaemonState where
  awdlState := awdlInit memory hostname self chan now filterRssi
  ieee80211State := ieee80211InitState
  next := none
  txQueueMulticast := circularBufInit slots txQueueLength_pos

end Owl.Transmit
