import Owl.Peers
import Owl.Sync
import Owl.Wire

/-!
`state.c`: the complete node state. The three callback pointers hold only what
the repository installs: `tlv_cb` stays NULL and is left out, the two peer
callbacks are NULL or a neighbour function of the daemon. `strncpy` in
`awdl_init_state` does not reach the last byte of the name, which keeps what
the memory held before.
-/

namespace Owl.State

open Bytes Ether Channel Election Sync Peers

def awdlVersion (major minor : UInt8) : UInt8 := ((major <<< 4) &&& 0xf0) ||| (minor &&& 0x0f)

def awdlDevclassMacos : UInt8 := 1

structure AwdlStats where
  txAction : UInt64
  txData : UInt64
  txDataUnicast : UInt64
  txDataMulticast : UInt64
  rxAction : UInt64
  rxData : UInt64
  rxUnknown : UInt64
  deriving DecidableEq

def awdlStatsInit : AwdlStats := ⟨0, 0, 0, 0, 0, 0, 0⟩

inductive PeerCb where
  | awdlNeighborAdd
  | awdlNeighborRemove
  deriving DecidableEq, Repr

structure PeerState where
  peers : PeerMap
  timeout : UInt64
  cleanInterval : UInt64

def awdlPeerStateInit : PeerState where
  peers := awdlPeersInit
  timeout := 2000000
  cleanInterval := 1000000

structure AwdlState where
  selfAddress : EtherAddr
  name : Fixed UInt8 (hostNameLengthMax + 1)
  version : UInt8
  devClass : UInt8
  sequenceNumber : UInt16
  psfInterval : UInt16
  dst : EtherAddr
  peerCb : Option PeerCb
  peerRemoveCb : Option PeerCb
  filterRssi : Bool
  rssiThreshold : Int8
  rssiGrace : Int8
  election : ElectionState
  sync : SyncState
  channel : ChannelState
  peers : PeerState
  stats : AwdlStats

def etherBroadcast : EtherAddr := ⟨0xff, 0xff, 0xff, 0xff, 0xff, 0xff⟩
def psfIntervalMasterTu : UInt16 := 110
def rssiThresholdDefault : Int8 := -65
def rssiGraceDefault : Int8 := -5

def cString (bytes : List UInt8) : List UInt8 := bytes.takeWhile (· ≠ 0)

def strncpyName (old : Fixed UInt8 (hostNameLengthMax + 1)) (hostname : List UInt8) :
    Fixed UInt8 (hostNameLengthMax + 1) :=
  ⟨(cString hostname ++ List.replicate hostNameLengthMax 0).take hostNameLengthMax ++
      old.toList.drop hostNameLengthMax, by
    have size := old.size
    simp only [List.length_append, List.length_take, List.length_replicate, List.length_drop, size]
    omega⟩

def awdlInitState (memory : Fixed UInt8 (hostNameLengthMax + 1)) (hostname : List UInt8)
    (self : EtherAddr) (chan : AwdlChan) (now : UInt64) : AwdlState where
  selfAddress := self
  name := strncpyName memory hostname
  version := awdlVersion 3 4
  devClass := awdlDevclassMacos
  sequenceNumber := 0
  psfInterval := psfIntervalMasterTu
  dst := etherBroadcast
  peerCb := none
  peerRemoveCb := none
  filterRssi := true
  rssiThreshold := rssiThresholdDefault
  rssiGrace := rssiGraceDefault
  election := awdlElectionStateInit self
  sync := awdlSyncStateInit now
  channel :=
    { enc := .opclass
      sequence := awdlChanseqInitStatic chan
      master := chan
      current := chanNull }
  peers := awdlPeerStateInit
  stats := awdlStatsInit

def awdlStateNextSequenceNumber (state : AwdlState) : UInt16 × AwdlState :=
  (state.sequenceNumber, { state with sequenceNumber := state.sequenceNumber + 1 })

structure Ieee80211State where
  sequenceNumber : UInt16
  fcs : Bool
  deriving DecidableEq

def ieee80211InitState : Ieee80211State := ⟨0, false⟩

/-- The counter has 12 bits, the result is what it was before. -/
def ieee80211StateNextSequenceNumber (state : Ieee80211State) : UInt16 × Ieee80211State :=
  (state.sequenceNumber,
    { state with sequenceNumber := (state.sequenceNumber + 1) &&& 0x0fff })

structure Timespec where
  tvSec : Nat
  tvNsec : Nat
  normal : tvNsec < 1000000000
  deriving DecidableEq

/-- From the result of `clock_gettime`; `none` when it fails. -/
def clockTimeUs (long : LongWidth) : Option Timespec → UInt64
  | none => 0
  | some now =>
      -- `tv_sec` has the width of `long`, and so has the signed product that is widened.
      let nowUs := match long with
        | .bits32 => (Int32.ofNat now.tvSec * 1000000).toInt64.toUInt64
        | .bits64 => (Int64.ofNat now.tvSec * 1000000).toUInt64
      nowUs + UInt64.ofNat (now.tvNsec / 1000)

end Owl.State
