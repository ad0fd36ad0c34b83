import Owl.Bytes
import Owl.Ether
import Owl.Wire
import Owl.WireSafety
import Owl.Slots
import Owl.Siphash
import Owl.Hashmap
import Owl.HashmapRefine
import Owl.HashmapRun
import Owl.HashmapMemory
import Owl.Channel
import Owl.Sync
import Owl.SyncTransfer
import Owl.Election
import Owl.Peers
import Owl.PeersRefine
import Owl.PeerGrowth
import Owl.Scan
import Owl.ElectionRun
import Owl.ElectionRest
import Owl.ElectionNetwork
import Owl.ElectionResult
import Owl.AsyncRounds
import Owl.ElectionStabilizes
import Owl.State
import Owl.Frames
import Owl.ReflectedCrc
import Owl.Crc32
import Owl.Tx
import Owl.Fcs
import Owl.RxTlv
import Owl.Rx
import Owl.RxSpec
import Owl.RxAction
import Owl.RxReject
import Owl.RxData
import Owl.RxSafety
import Owl.RxPeers
import Owl.TlvLoop
import Owl.TlvLocals
import Owl.RxLocals
import Owl.RoundTrip
import Owl.Daemon
import Owl.TlvRoundTrip
import Owl.HostName
import Owl.ActionRoundTrip
import Owl.Neighbors
import Owl.CircularBuffer
import Owl.Schedule
import Owl.Transmit
import Owl.TransmitQueues
import Owl.DaemonRun
import Owl.DaemonTrace
import Owl.Counters
import Owl.ClockMaster
import Owl.Admission
import Owl.SyncClock
import Owl.SyncError
import Owl.Airtime
import Owl.EventLoop
import Owl.Retry
import Owl.Retries
import Owl.PeerChannel
import Owl.Amsdu
import Owl.Cleanup
import Owl.BoundedText
import Owl.Print
import Owl.PeerEntries
import Owl.Hopping
import Owl.Delivery
import Owl.ElectionClusters
import Owl.DaemonNetwork
import Owl.Tunnel
import Owl.Presence
