import Owl.Frames

/-!
The TLV handlers of `rx.c`. Each works on the peer that sent the frame and on
the node state and returns both, changed as far as it came before an error. A
local array that the code does not initialise is a parameter. Log messages are
left out.
-/

namespace Owl.RxTlv

open Bytes Ether Channel Election Sync Peers Wire State Frames

/-- `enum RX_RESULT`; `RX_TOO_SHORT` has the value of `RX_UNEXPECTED_VALUE`. -/
inductive RxResult where
  | ignorePeer
  | ignoreRssi
  | ignoreFailedCrc
  | ignoreNopromisc
  | ignoreFromSelf
  | ignore
  | ok
  | unexpectedFormat
  | unexpectedType
  | unexpectedValue
  deriving DecidableEq, Repr

abbrev RxResult.tooShort : RxResult := .unexpectedValue

def RxResult.code : RxResult → Int
  | .ignorePeer => 6
  | .ignoreRssi => 5
  | .ignoreFailedCrc => 4
  | .ignoreNopromisc => 3
  | .ignoreFromSelf => 2
  | .ignore => 1
  | .ok => 0
  | .unexpectedFormat => -1
  | .unexpectedType => -2
  | .unexpectedValue => -3

abbrev Handled := Except Fault (RxResult × Peer × AwdlState)

def awdlSyncThreshold : Int := 3

def awdlHandleSyncParamsTlv (long : LongWidth) (src : Peer) (val : Buf) (state : AwdlState)
    (now : UInt64) : Handled := do
  if !awdlElectionIsSyncMaster state.election src.addr then return (.ignore, src, state)
  let some timeToNextAwMaster ← readLe16 val 1 | return (.tooShort, src, state)
  let some awCounterMaster ← readLe16 val 29 | return (.tooShort, src, state)
  -- The measurement is counted before the error is known.
  let sync := { state.sync with measTotal := state.sync.measTotal + 1 }
  let syncErrTu := awdlSyncErrorTu long now timeToNextAwMaster awCounterMaster sync
  let sync :=
    if syncErrTu > awdlSyncThreshold ∨ syncErrTu < -awdlSyncThreshold then
      { sync with measErr := sync.measErr + 1 }
    else sync
  let sync := awdlSyncUpdateLast long now timeToNextAwMaster awCounterMaster sync
  return (.ok, src, { state with sync := sync })

/-- The copy loop over `list`, from entry `i` on with `count` entries to go. -/
def chanseqLoop (val : Buf) (size : Int) : Nat → Nat → Int → ChanSeq → Except Fault (Option ChanSeq)
  | 0, _, _, list => return some list
  | count + 1, i, offset, list => do
      let some chan ← readBytesCopy val offset (list.toList.getD i chanNull) size | return none
      match list.store i [chan] with
      | some list => chanseqLoop val size count (i + 1) (offset + size) list
      | none => throw .write

/-- `list` is the uninitialised array of the C function. -/
def awdlHandleChanseqTlv (list : ChanSeq) (src : Peer) (val : Buf) (state : AwdlState) :
    Handled := do
  let some count ← readU8 val 0 | return (.tooShort, src, state)
  if count.toNat + 1 ≠ awdlChanseqLength then return (.unexpectedValue, src, state)
  let some duplicateCount ← readU8 val 2 | return (.tooShort, src, state)
  if duplicateCount > 0 then return (.unexpectedValue, src, state)
  let some stepCount ← readU8 val 3 | return (.tooShort, src, state)
  if stepCount.toNat + 1 ≠ state.sync.presenceMode.toNat then
    return (.unexpectedValue, src, state)
  let some fillChannel ← readLe16 val 4 | return (.tooShort, src, state)
  if fillChannel ≠ 0xffff then return (.unexpectedValue, src, state)
  -- The encoding is read last although it stands in front of the fields above.
  let some encoding ← readU8 val 1 | return (.tooShort, src, state)
  let size := awdlChanEncodingSize (ChanEncoding.ofCode encoding)
  if size < 1 then return (.unexpectedValue, src, state)
  let some list ← chanseqLoop val size awdlChanseqLength 0 6 list | return (.tooShort, src, state)
  return (.ok, { src with sequence := list }, state)

def awdlHandleElectionParamsTlv (src : Peer) (val : Buf) (state : AwdlState) : Handled := do
  -- A peer that has sent the second version keeps its parameters.
  if src.supportsV2 then return (.ok, src, state)
  let some distanceToMaster ← readU8 val 3 | return (.tooShort, src, state)
  let src := { src with election := { src.election with height := distanceToMaster.toUInt32 } }
  let some masterAddr ← readEtherAddr val 5 | return (.tooShort, src, state)
  let src := { src with election := { src.election with masterAddr := masterAddr } }
  let some masterMetric ← readLe32 val 11 | return (.tooShort, src, state)
  let src := { src with election := { src.election with masterMetric := masterMetric } }
  let some selfMetric ← readLe32 val 15 | return (.tooShort, src, state)
  let src := { src with election := { src.election with selfMetric := selfMetric } }
  return (.ok, src, state)

def awdlHandleElectionParamsV2Tlv (src : Peer) (val : Buf) (state : AwdlState) : Handled := do
  -- Each field is stored as soon as it is read, so a short value leaves a mixture.
  let some height ← readLe32 val 16 | return (.tooShort, src, state)
  let src := { src with election := { src.election with height := height } }
  let some masterAddr ← readEtherAddr val 0 | return (.tooShort, src, state)
  let src := { src with election := { src.election with masterAddr := masterAddr } }
  let some syncAddr ← readEtherAddr val 6 | return (.tooShort, src, state)
  let src := { src with election := { src.election with syncAddr := syncAddr } }
  let some masterCounter ← readLe32 val 12 | return (.tooShort, src, state)
  let src := { src with election := { src.election with masterCounter := masterCounter } }
  let some masterMetric ← readLe32 val 20 | return (.tooShort, src, state)
  let src := { src with election := { src.election with masterMetric := masterMetric } }
  let some selfMetric ← readLe32 val 24 | return (.tooShort, src, state)
  let src := { src with election := { src.election with selfMetric := selfMetric } }
  let some selfCounter ← readLe32 val 36 | return (.tooShort, src, state)
  let src := { src with election := { src.election with selfCounter := selfCounter } }
  -- A short value does not set the flag.
  return (.ok, { src with supportsV2 := true }, state)

def awdlHandleArpaTlv (src : Peer) (val : Buf) (state : AwdlState) : Handled := do
  let some name ← readIntString val 1 src.name hostNameLengthMax | return (.tooShort, src, state)
  return (.ok, { src with name := name }, state)

def readIf {α : Type} (flag : Bool) (read : Except Fault (Option α)) (keep : α) :
    Except Fault (Option α) :=
  if flag then read else return some keep

def skipIf (flag : Bool) (offset size : Int) : Int := if flag then offset + size else offset

def awdlHandleDataPathStateTlv (src : Peer) (val : Buf) (state : AwdlState) : Handled := do
  let some flags ← readLe16 val 0 | return (.tooShort, src, state)
  -- The fields are packed: an absent one moves all that follow it forward.
  let has (flag : UInt16) : Bool := flags &&& flag != 0
  let offset := 2
  let some countryCode ← readIf (has awdlDataPathFlagCountryCode)
      (readBytesCopy val offset src.countryCode 3) src.countryCode
    | return (.tooShort, src, state)
  let src := { src with countryCode := countryCode }
  let offset := skipIf (has awdlDataPathFlagCountryCode) offset 3
  let some () ← readIf (has awdlDataPathFlagSocialChannelMap) (return readNull 2 val offset) ()
    | return (.tooShort, src, state)
  let offset := skipIf (has awdlDataPathFlagSocialChannelMap) offset 2
  let some () ← readIf (has awdlDataPathFlagInfraInfo) (return readNull 6 val offset) ()
    | return (.tooShort, src, state)
  let offset := skipIf (has awdlDataPathFlagInfraInfo) offset 6
  let some () ← readIf (has awdlDataPathFlagInfraInfo) (return readNull 2 val offset) ()
    | return (.tooShort, src, state)
  let offset := skipIf (has awdlDataPathFlagInfraInfo) offset 2
  let some infraAddr ← readIf (has awdlDataPathFlagInfraAddress)
      (readEtherAddr val offset) src.infraAddr
    | return (.tooShort, src, state)
  let src := { src with infraAddr := infraAddr }
  let offset := skipIf (has awdlDataPathFlagInfraAddress) offset 6
  let some () ← readIf (has awdlDataPathFlagAwdlAddress) (return readNull 6 val offset) ()
    | return (.tooShort, src, state)
  return (.ok, src, state)

def awdlHandleVersionTlv (src : Peer) (val : Buf) (state : AwdlState) : Handled := do
  let some version ← readU8 val 0 | return (.tooShort, src, state)
  let some devclass ← readU8 val 1 | return (.tooShort, src, state)
  return (.ok, { src with version := version, devclass := devclass }, state)

def awdlHandleTlv (long : LongWidth) (list : ChanSeq) (src : Peer) (type : UInt8) (val : Buf)
    (state : AwdlState) (tsft : UInt64) : Handled :=
  if type = TlvType.synchronizatonParameters.code then
    awdlHandleSyncParamsTlv long src val state tsft
  else if type = TlvType.chanSeq.code then awdlHandleChanseqTlv list src val state
  else if type = TlvType.electionParameters.code then awdlHandleElectionParamsTlv src val state
  else if type = TlvType.electionParametersV2.code then awdlHandleElectionParamsV2Tlv src val state
  else if type = TlvType.arpa.code then awdlHandleArpaTlv src val state
  else if type = TlvType.dataPathState.code then awdlHandleDataPathStateTlv src val state
  else if type = TlvType.version.code then awdlHandleVersionTlv src val state
  -- Every other type, service parameters among them, is skipped.
  else return (.ignore, src, state)

end Owl.RxTlv
