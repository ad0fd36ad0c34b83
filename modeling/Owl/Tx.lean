import Owl.Crc32
import Owl.Frames

/-!
Frame construction in `tx.c`. The functions store packed structures at a moving
pointer and return how far it moves; here each returns the bytes it stores, in
the order of `frame.h`. The length fields are computed as in the source, from
the sizes of the structures. The clock, which is read once for the action header
and once for the synchronization parameters, is a parameter.
-/

namespace Owl.Tx

open Bytes Ether Channel Sync Election Peers Wire State Frames Crc32

structure TxEnv where
  long : LongWidth
  /-- `clock_time_us` in `awdl_init_action`. -/
  actionNow : UInt64
  /-- `clock_time_us` in `awdl_init_sync_params_tlv`. -/
  syncNow : UInt64

def awdlDnsShortLocal : UInt16 := 0xc00c
def awdlDataHead : UInt16 := 0x0403
def awdlDataPad : UInt16 := 0x0000
def awdlSocialChannel6Bit : UInt16 := 0x0001
def awdlSocialChannel44Bit : UInt16 := 0x0002
def awdlSocialChannel149Bit : UInt16 := 0x0004

def syncParamsTlvSize : Nat := 36
def chanseqTlvSize : Nat := 3
def electionParamsTlvSize : Nat := 24
def electionParamsV2TlvSize : Nat := 43
def serviceParamsTlvSize : Nat := 12
def htCapabilitiesTlvSize : Nat := 11
def dataPathStateTlvSize : Nat := 18
def arpaTlvSize : Nat := 6
def versionTlvSize : Nat := 5

/-- The `struct tl` in front of a value; `length` is truncated to its field. -/
def tl (type : TlvType) (length : Nat) : List UInt8 := type.code :: le16 (UInt16.ofNat length)

def awdlInitData (state : AwdlState) : List UInt8 × AwdlState :=
  let (seq, state) := awdlStateNextSequenceNumber state
  (le16 awdlDataHead ++ le16 seq ++ le16 awdlDataPad ++ be16 ethPIpv6, state)

def awdlInitAction (env : TxEnv) (type : ActionType) : List UInt8 :=
  let steadyTime := env.actionNow.toUInt32
  [ieee80211VendorSpecific] ++ awdlOui ++ [awdlType, awdlVersionCompat, type.code, 0] ++
    le32 steadyTime ++ le32 steadyTime

def awdlChanEncodingLength : ChanEncoding → Nat
  | .simple => 1
  | .legacy => 2
  | .opclass => 2

def awdlInitChanseq (state : AwdlState) : List UInt8 :=
  [UInt8.ofNat (awdlChanseqLength - 1), state.channel.enc.code, 0, 3] ++ le16 0xffff ++
    state.channel.sequence.toList.flatMap
      fun chan => chan.toList.take (awdlChanEncodingLength state.channel.enc)

/-- The difference is an `int`; a negative one is cut off at 0. -/
def remainingAwLength (awComLength awPeriod : UInt16) (presenceMode : UInt8)
    (txDownCounter : UInt16) : UInt16 :=
  let elapsed : Int := awPeriod.toNat * presenceMode.toNat - txDownCounter.toNat
  if awComLength.toNat < elapsed then 0 else UInt16.ofInt (awComLength.toNat - elapsed)

def awdlInitSyncParamsTlv (env : TxEnv) (state : AwdlState) : List UInt8 :=
  let awPeriod := state.sync.awPeriod
  let ext := state.sync.presenceMode - 1
  let nextAwSeq := awdlSyncCurrentAw env.long env.syncNow state.sync
  let txDownCounter := awdlSyncNextAwTu env.long env.syncNow state.sync
  let chanseq := awdlInitChanseq state
  tl .synchronizatonParameters (syncParamsTlvSize + chanseq.length + 2 - tlSize) ++
    [awdlChanNum state.channel.current state.channel.enc] ++ le16 txDownCounter ++
    [awdlChanNum state.channel.master state.channel.enc, 0] ++ le16 awPeriod ++
    le16 state.psfInterval ++ le16 0x1800 ++ le16 awPeriod ++ le16 awPeriod ++
    le16 (remainingAwLength awPeriod awPeriod state.sync.presenceMode txDownCounter) ++
    [ext, ext, ext, ext] ++ state.election.masterAddr.bytes ++ [state.sync.presenceMode, 0] ++
    le16 nextAwSeq ++ le16 nextAwSeq ++ chanseq ++ [0, 0]

def awdlInitChanseqTlv (state : AwdlState) : List UInt8 :=
  let chanseq := awdlInitChanseq state
  tl .chanSeq (chanseqTlvSize + chanseq.length + 3 - tlSize) ++ chanseq ++ [0, 0, 0]

/-- The height is cut to the one byte of its field. -/
def awdlInitElectionParamsTlv (state : AwdlState) : List UInt8 :=
  tl .electionParameters (electionParamsTlvSize - tlSize) ++ [0] ++ le16 0 ++
    [state.election.height.toUInt8, 0] ++ state.election.masterAddr.bytes ++
    le32 state.election.masterMetric ++ le32 state.election.selfMetric ++ [0, 0]

def awdlInitElectionParamsV2Tlv (state : AwdlState) : List UInt8 :=
  tl .electionParametersV2 (electionParamsV2TlvSize - tlSize) ++ state.election.masterAddr.bytes ++
    state.election.syncAddr.bytes ++ le32 state.election.masterCounter ++
    le32 state.election.height ++ le32 state.election.masterMetric ++
    le32 state.election.selfMetric ++ le32 0 ++ le32 0 ++ le32 state.election.selfCounter

def awdlInitServiceParamsTlv : List UInt8 :=
  tl .serviceParameters (serviceParamsTlvSize - tlSize) ++ [0, 0, 0] ++ le16 0 ++ le32 0

def awdlInitHtCapabilitiesTlv : List UInt8 :=
  tl .enhancedDataRateCapabilities (htCapabilitiesTlvSize - tlSize) ++ le16 0 ++ le16 0x11ce ++
    [0x1b, 0xff] ++ le16 0

def awdlInitDataPathStateTlv (state : AwdlState) : List UInt8 :=
  let socialChannels :=
    if awdlChanNum state.channel.master (some .opclass) = 6 then awdlSocialChannel6Bit
    else if awdlChanNum state.channel.master (some .opclass) = 44 then awdlSocialChannel44Bit
    else awdlSocialChannel149Bit
  tl .dataPathState (dataPathStateTlvSize - tlSize) ++ le16 0x8f24 ++ [0x58, 0x30, 0] ++
    le16 socialChannels ++ state.selfAddress.bytes ++ le16 0

/-- `strlen` of an array that may hold no NUL. -/
def strlen {n : Nat} (str : Fixed UInt8 n) : Except Fault Nat :=
  if 0 ∈ str.toList then return (cString str.toList).length else throw .read

/-- `name_length` is a byte and the last two bytes are the compressed `.local`. -/
def awdlInitArpaTlv (state : AwdlState) : Except Fault (List UInt8) := do
  let len ← strlen state.name
  return tl .arpa (arpaTlvSize - tlSize + len + 1) ++ [3, UInt8.ofNat len] ++
    state.name.toList.take len ++ be16 awdlDnsShortLocal

def awdlInitVersionTlv (state : AwdlState) : List UInt8 :=
  tl .version (versionTlvSize - tlSize) ++ [state.version, state.devClass]

def ieee80211RadiotapTypeToMask (type : Nat) : UInt32 := 1 <<< UInt32.ofNat type

def ieee80211RadiotapRateToVal (rate : UInt8) : UInt8 := 2 * rate

def ieee80211InitRadiotapHeader : List UInt8 :=
  [0, 0] ++ le16 9 ++ le32 (ieee80211RadiotapTypeToMask ieee80211RadiotapRate) ++
    [ieee80211RadiotapRateToVal 12]

def ieee80211InitAwdlHdr (src dst : EtherAddr) (state : Ieee80211State) (type : UInt16) :
    List UInt8 × Ieee80211State :=
  let (seq, state) := ieee80211StateNextSequenceNumber state
  (le16 type ++ le16 0 ++ dst.bytes ++ src.bytes ++ awdlBssid.bytes ++ le16 (seq <<< 4), state)

def ieee80211InitAwdlActionHdr (src dst : EtherAddr) (state : Ieee80211State) :=
  ieee80211InitAwdlHdr src dst state (ieee80211FtypeMgmt ||| ieee80211StypeAction)

def ieee80211InitAwdlDataHdr (src dst : EtherAddr) (state : Ieee80211State) :=
  ieee80211InitAwdlHdr src dst state (ieee80211FtypeData ||| ieee80211StypeData)

def llcInitAwdlHdr : List UInt8 := [0xaa, 0xaa, 0x03] ++ awdlOui ++ be16 awdlLlcProtocolId

/-- `bytes` are those between the two pointers of the call. -/
def ieee80211AddFcs (bytes : List UInt8) : List UInt8 := le32 (crc32 bytes)

/-- Both frame builders pass the start of the buffer, in front of the radiotap header. -/
def withFcs (state : Ieee80211State) (bytes : List UInt8) : List UInt8 :=
  if state.fcs then bytes ++ ieee80211AddFcs bytes else bytes

def awdlInitFullActionFrame (env : TxEnv) (state : AwdlState) (ieee80211State : Ieee80211State)
    (type : ActionType) : Except Fault (List UInt8 × Ieee80211State) := do
  let (hdr, ieee80211State) := ieee80211InitAwdlActionHdr state.selfAddress state.dst ieee80211State
  let arpa ← if type = .mif then awdlInitArpaTlv state else pure []
  let bytes := ieee80211InitRadiotapHeader ++ hdr ++ awdlInitAction env type ++
    awdlInitSyncParamsTlv env state ++ awdlInitElectionParamsTlv state ++
    awdlInitChanseqTlv state ++ awdlInitElectionParamsV2Tlv state ++ awdlInitServiceParamsTlv ++
    (if type = .mif then awdlInitHtCapabilitiesTlv else []) ++ arpa ++
    awdlInitDataPathStateTlv state ++ awdlInitVersionTlv state
  return (withFcs ieee80211State bytes, ieee80211State)

def awdlInitFullDataFrame (src dst : EtherAddr) (payload : List UInt8) (state : AwdlState)
    (ieee80211State : Ieee80211State) : List UInt8 × AwdlState × Ieee80211State :=
  let (hdr, ieee80211State) := ieee80211InitAwdlDataHdr src dst ieee80211State
  let (data, state) := awdlInitData state
  let bytes := ieee80211InitRadiotapHeader ++ hdr ++ llcInitAwdlHdr ++ data ++ payload
  (withFcs ieee80211State bytes, state, ieee80211State)

/-- `awdl_send_data` up to `wlan_send`: the bytes it hands over, or `none` for a
frame without a complete Ethernet header. The buffer has 65535 bytes. -/
def awdlSendData (frame : Buf) (state : AwdlState) (ieee80211State : Ieee80211State) :
    Except Fault (Option (List UInt8) × AwdlState × Ieee80211State) := do
  let some _ ← readBe16 frame 12 | return (none, state, ieee80211State)
  let some dst ← readEtherAddr frame 0 | return (none, state, ieee80211State)
  let some src ← readEtherAddr frame 6 | return (none, state, ieee80211State)
  let frame := (bufStrip frame 14).getD frame
  let (bytes, state, ieee80211State) :=
    awdlInitFullDataFrame src dst frame.bytes state ieee80211State
  if bytes.length > 65535 then throw .write
  let state := { state with stats := { state.stats with txData := state.stats.txData + 1 } }
  return (some bytes, state, ieee80211State)

end Owl.Tx
