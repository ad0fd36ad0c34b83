import Owl.RxTlv

/-!
Frame reception in `rx.c`. `struct buf` is passed by pointer and shortened on
the way, so every function returns what is left of its view; output buffers are
returned as the list that the `out` cursor has stepped over. The peer that
`awdl_peer_get` points to is threaded through the TLV loop and stored back at
every exit, which is the same because nothing else reads the table meanwhile.

`from` and `to` in `awdl_rx` are pointers into the 802.11 header and are read
again after the header was stripped from the view. With `strict` such a read is
a fault; without, it only has to stay inside the view the pointer was taken from.

The radiotap iterator is not part of the repository and is a parameter, as are
the clock, the allocator, fresh memory and the locals without initial value.
-/

namespace Owl.Rx

open Bytes Ether Channel Sync Peers Wire State Frames RxTlv

structure RadiotapArg where
  isRadiotapNs : Bool
  thisArgIndex : Nat
  /-- The byte at `this_arg`. -/
  thisArg : UInt8
  deriving DecidableEq

/-- The arguments of a header and whether the last `next` returned `-ENOENT`. -/
structure RadiotapRun where
  args : List RadiotapArg
  complete : Bool
  deriving DecidableEq

structure RxEnv where
  /-- `none` when `ieee80211_radiotap_iterator_init` fails. -/
  radiotap : List UInt8 → Option RadiotapRun
  long : LongWidth
  now : UInt64
  alloc : Nat → Bool
  memory : Peer
  rssi : Int8
  flags : UInt8
  /-- The array `list` of `awdl_handle_chanseq_tlv`, by the bytes left in the frame. -/
  list : Nat → ChanSeq
  /-- Fresh bytes of the output buffers. -/
  output : Nat → Fixed UInt8 etherMaxLen

inductive RxEvent where
  | callback (cb : PeerCb) (addr : EtherAddr)
  | created (addr : EtherAddr)
  | tlv (addr : EtherAddr) (type : UInt8) (value : List UInt8) (result : RxResult)
  | action (addr : EtherAddr) (subtype : UInt8)
  deriving DecidableEq

def callPeerCb (cb : PeerCb) (peer : Peer) : RxEvent := .callback cb peer.addr

/-- A `const struct ether_addr *`: a local variable, or six bytes of the frame
at `offset` from the start of the view `base`. -/
inductive AddrPtr where
  | copy (addr : EtherAddr)
  | kept (base : Buf) (offset : Nat)

/-- `*addr` while the view of the frame is `frame`, a tail of `base`. -/
def deref (strict : Bool) (frame : Buf) : AddrPtr → Except Fault EtherAddr
  | .copy addr => return addr
  | .kept base offset => do
      if strict ∧ offset < base.bytes.length - frame.bytes.length then throw .stale
      let items ← load base offset 6
      return EtherAddr.ofBytes items

def awdlParseActionHdr (frame : Buf) : Except Fault (Option UInt8) := do
  let some _ := readBytes frame 0 awdlActionSize | return none
  let category ← load frame 0 1
  let oui ← load frame 1 3
  let type ← load frame 4 1
  let version ← load frame 5 1
  let subtype ← load frame 6 1
  if byteAt category 0 = ieee80211VendorSpecific ∧ oui = awdlOui ∧ byteAt type 0 = awdlType ∧
      byteAt version 0 = awdlVersionCompat ∧
      (byteAt subtype 0 = ActionType.psf.code ∨ byteAt subtype 0 = ActionType.mif.code) then
    return some (byteAt subtype 0)
  else return none

structure TlvOutcome where
  accepted : Bool
  frame : Buf
  peer : Peer
  state : AwdlState
  trace : List RxEvent

/-- One round of the `while` loop of `awdl_rx_action`; `next` are the rounds after it. -/
def tlvRound (env : RxEnv) (next : Buf → Peer → AwdlState → Except Fault TlvOutcome)
    (frame : Buf) (peer : Peer) (state : AwdlState) : Except Fault TlvOutcome := do
  let some tlv ← readTlv frame 0 | return ⟨true, frame, peer, state, []⟩
  let tlvBuf ← bufNewConst frame tlv.val tlv.len.toNat
  let (result, peer, state) ← awdlHandleTlv env.long (env.list frame.bytes.length) peer tlv.type
    tlvBuf state env.now
  let event := RxEvent.tlv peer.addr tlv.type tlvBuf.bytes result
  -- A rejected TLV stays in the view; those before it have been stripped.
  if result.code < 0 then return ⟨false, frame, peer, state, [event]⟩
  let rest ← next ((bufStrip frame tlv.result).getD frame) peer state
  return { rest with trace := event :: rest.trace }

/-- The whole loop; every round strips at least three bytes. -/
def tlvLoop (env : RxEnv) : Nat → Buf → Peer → AwdlState → Except Fault TlvOutcome
  | 0, frame, peer, state => return ⟨true, frame, peer, state, []⟩
  | fuel + 1, frame, peer, state => tlvRound env (tlvLoop env fuel) frame peer state

def storePeer (hash : EtherAddr → UInt64) (state : AwdlState) (addr : EtherAddr)
    (peer : Peer) : AwdlState :=
  { state with peers :=
      { state.peers with peers := Hashmap.storeData hash state.peers.peers addr peer } }

def addPeer (hash : EtherAddr → UInt64) (env : RxEnv) (state : AwdlState)
    (addr : EtherAddr) : PeersStatus × AwdlState × List RxEvent :=
  let added := awdlPeerAdd hash env.alloc env.memory state.peers.peers addr env.now
    (state.peerCb.map callPeerCb)
  (added.1, { state with peers := { state.peers with peers := added.2.1 } },
    (if added.1 = .ok then [.created addr] else []) ++ added.2.2)

def rejectedByRssi (hash : EtherAddr → UInt64) (state : AwdlState) (addr : EtherAddr)
    (rssi : Int8) : Bool :=
  match (awdlPeerGet hash state.peers.peers addr).1 with
  | .ok => decide (rssi.toInt < state.rssiThreshold.toInt + state.rssiGrace.toInt)
  | .missing => decide (rssi.toInt < state.rssiThreshold.toInt)
  -- Any other status lets the frame pass.
  | _ => false

structure RxOutcome where
  result : RxResult
  frame : Buf
  outputs : List Buf
  state : AwdlState
  trace : List RxEvent

def acceptAction (strict : Bool) (hash : EtherAddr → UInt64) (env : RxEnv) (frame : Buf)
    (src : AddrPtr) (subtype : UInt8) (state : AwdlState) : Except Fault RxOutcome := do
  let state := { state with stats := { state.stats with rxAction := state.stats.rxAction + 1 } }
  let addr ← deref strict frame src
  -- The sender enters the table before any of its TLVs is read.
  let (status, state, events) := addPeer hash env state addr
  if status.code < 0 then return ⟨.ignore, frame, [], state, events⟩
  let (status, peer) := awdlPeerGet hash state.peers.peers addr
  if status.code < 0 then return ⟨.ignore, frame, [], state, events⟩
  let some peer := peer | throw .read
  let loop ← tlvLoop env (frame.bytes.length + 1) frame peer state
  let state := storePeer hash loop.state addr loop.peer
  if !loop.accepted then
    return ⟨.unexpectedFormat, loop.frame, [], state, events ++ loop.trace⟩
  if bufLen loop.frame > 0 then
    return ⟨.unexpectedFormat, loop.frame, [], state, events ++ loop.trace⟩
  let state :=
    if subtype = ActionType.mif.code then
      storePeer hash state addr { loop.peer with sentMif := true }
    else state
  let addr ← deref strict loop.frame src
  -- Called again because the TLVs may have made the peer valid.
  let (_, state, again) := addPeer hash env state addr
  return ⟨.ok, loop.frame, [], state, events ++ loop.trace ++ .action addr subtype :: again⟩

def awdlRxAction (strict : Bool) (hash : EtherAddr → UInt64) (env : RxEnv) (frame : Buf)
    (rssi : Int8) (src : AddrPtr) (state : AwdlState) : Except Fault RxOutcome := do
  let some subtype ← awdlParseActionHdr frame | return ⟨.ignore, frame, [], state, []⟩
  let frame := (bufStrip frame awdlActionSize).getD frame
  if state.filterRssi then
    let addr ← deref strict frame src
    if rejectedByRssi hash state addr rssi then
      return ⟨.ignoreRssi, frame, [], state, []⟩
  acceptAction strict hash env frame src subtype state

structure LlcHdr where
  dsap : UInt8
  ssap : UInt8
  control : UInt8
  oui : Fixed UInt8 3
  pid : UInt16

def llcParse (frame : Buf) (llc : LlcHdr) : Except Fault (RxResult × LlcHdr) := do
  let some dsap ← readU8 frame 0 | return (.tooShort, llc)
  let llc := { llc with dsap := dsap }
  let some ssap ← readU8 frame 1 | return (.tooShort, llc)
  let llc := { llc with ssap := ssap }
  let some control ← readU8 frame 2 | return (.tooShort, llc)
  let llc := { llc with control := control }
  let some oui ← readBytesCopy frame 3 llc.oui 3 | return (.tooShort, llc)
  let llc := { llc with oui := oui }
  let some pid ← readBe16 frame 6 | return (.tooShort, llc)
  return (.ok, { llc with pid := pid })

/-- The header local has no initial value; a failed parse does not look at it. -/
def awdlValidLlcHeader (frame : Buf) : Except Fault Bool := do
  let (result, llc) ← llcParse frame ⟨0, 0, 0, Fixed.replicate 3 0, 0⟩
  if result.code < 0 then return false
  return decide (llc.dsap = 0xaa ∧ llc.ssap = 0xaa ∧ llc.control = 0x03 ∧
    llc.pid = awdlLlcProtocolId)

/-- The Ethernet frame that `awdl_rx_data` assembles by unchecked writes. -/
def assemble (memory : Fixed UInt8 etherMaxLen) (dst src : EtherAddr) (etherType : UInt16)
    (payload : Buf) : Except Fault Buf := do
  let out := bufNewOwned memory etherMaxLen_small
  let (written, out) ← writeEtherAddr out 0 dst
  let offset := addInt 0 written
  let (written, out) ← writeEtherAddr out offset src
  let offset := addInt offset written
  let (written, out) ← writeBe16 out offset etherType
  let offset := addInt offset written
  let (_, out) ← writeBytes out offset payload (bufLen payload)
  return out

structure DataOutcome where
  result : RxResult
  frame : Buf
  outputs : List Buf
  state : AwdlState

/-- `index` is the number of outputs the call has produced so far. -/
def awdlRxData (strict : Bool) (hash : EtherAddr → UInt64) (env : RxEnv) (frame : Buf)
    (src dst : AddrPtr) (state : AwdlState) (index : Nat) : Except Fault DataOutcome := do
  let state := { state with stats := { state.stats with rxData := state.stats.rxData + 1 } }
  let srcAddr ← deref strict frame src
  if (awdlPeerGet hash state.peers.peers srcAddr).1 ≠ .ok then
    return ⟨.ignorePeer, frame, [], state⟩
  if !(← awdlValidLlcHeader frame) then return ⟨.unexpectedFormat, frame, [], state⟩
  let frame := (bufStrip frame llcHdrSize).getD frame
  if bufLen frame < awdlDataSize then return ⟨.tooShort, frame, [], state⟩
  -- The source does not check this read; the test above makes it succeed.
  let some etherType ← readBe16 frame 6 | throw .read
  let frame := (bufStrip frame awdlDataSize).getD frame
  let dstAddr ← deref strict frame dst
  let out ← assemble (env.output index) dstAddr srcAddr etherType frame
  return ⟨.ok, frame, [out], state⟩

def amsduPadding (len : Nat) : Nat := (4 - (14 + len) % 4) % 4

def amsduRound (strict : Bool) (hash : EtherAddr → UInt64) (env : RxEnv)
    (next : Buf → AwdlState → Nat → Except Fault DataOutcome) (frame : Buf) (state : AwdlState)
    (index : Nat) : Except Fault DataOutcome := do
  if bufLen frame ≤ 0 then return ⟨.ok, frame, [], state⟩
  let some dstA ← readEtherAddr frame 0 | return ⟨.tooShort, frame, [], state⟩
  let some srcA ← readEtherAddr frame 6 | return ⟨.tooShort, frame, [], state⟩
  let some lenA ← readBe16 frame 12 | return ⟨.tooShort, frame, [], state⟩
  let some frame := bufStrip frame 14 | return ⟨.tooShort, frame, [], state⟩
  if lenA.toNat > bufLen frame then return ⟨.tooShort, frame, [], state⟩
  let subframe ← bufNewConst frame 0 lenA.toNat
  let sub ← awdlRxData strict hash env subframe (.copy srcA) (.copy dstA) state index
  if sub.result.code < 0 then return ⟨sub.result, frame, sub.outputs, sub.state⟩
  let some frame := bufStrip frame lenA.toNat | return ⟨.tooShort, frame, sub.outputs, sub.state⟩
  let some frame :=
      -- The last subframe is not padded.
      if bufLen frame > 0 then bufStrip frame (amsduPadding lenA.toNat) else some frame
    | return ⟨.tooShort, frame, sub.outputs, sub.state⟩
  let rest ← next frame sub.state (index + sub.outputs.length)
  return { rest with outputs := sub.outputs ++ rest.outputs }

def amsduLoop (strict : Bool) (hash : EtherAddr → UInt64) (env : RxEnv) :
    Nat → Buf → AwdlState → Nat → Except Fault DataOutcome
  | 0, frame, state, _ => return ⟨.ok, frame, [], state⟩
  | fuel + 1, frame, state, index =>
      amsduRound strict hash env (amsduLoop strict hash env fuel) frame state index

def awdlRxDataAmsdu (strict : Bool) (hash : EtherAddr → UInt64) (env : RxEnv) (frame : Buf)
    (state : AwdlState) : Except Fault DataOutcome :=
  amsduLoop strict hash env (frame.bytes.length + 1) frame state 0

def radiotapArg (found : Int8 × UInt8) (arg : RadiotapArg) : Int8 × UInt8 :=
  if !arg.isRadiotapNs then found
  else if arg.thisArgIndex = ieee80211RadiotapFlags then (found.1, arg.thisArg)
  else if arg.thisArgIndex = ieee80211RadiotapDbmAntsignal then (arg.thisArg.toInt8, found.2)
  else found

/-- `radiotap_parse` with `tsft` NULL, over the locals `rssi` and `flags`. -/
def radiotapParse (env : RxEnv) (frame : Buf) : RxResult × Int8 × UInt8 :=
  match env.radiotap frame.bytes with
  | none => (.unexpectedFormat, env.rssi, env.flags)
  | some run =>
      let found := run.args.foldl radiotapArg (env.rssi, env.flags)
      if run.complete then (.ok, found) else (.unexpectedFormat, found)

/-- `none` is the result -1. -/
def checkFcs (frame : Buf) (radiotapFlags : UInt8) : Option Buf :=
  if radiotapFlags &&& ieee80211RadiotapFBadfcs ≠ 0 then none
  else if radiotapFlags &&& ieee80211RadiotapFFcs ≠ 0 then bufTake frame 4
  else some frame

def DataOutcome.toRx (outcome : DataOutcome) : RxOutcome :=
  ⟨outcome.result, outcome.frame, outcome.outputs, outcome.state, []⟩

def dispatch (strict : Bool) (hash : EtherAddr → UInt64) (env : RxEnv) (frame : Buf) (rssi : Int8)
    (fc : UInt16) (source target : AddrPtr) (state : AwdlState) : Except Fault RxOutcome := do
  let kind := fc &&& (ieee80211FctlFtype ||| ieee80211FctlStype)
  if kind = (ieee80211FtypeMgmt ||| ieee80211StypeAction) then
    awdlRxAction strict hash env frame rssi source state
  else if kind = (ieee80211FtypeData ||| ieee80211StypeData ||| ieee80211StypeQosData) then
    let some qosc ← readLe16 frame 0 | return ⟨.tooShort, frame, [], state, []⟩
    let some frame := bufStrip frame ieee80211QosCtlLen | return ⟨.tooShort, frame, [], state, []⟩
    if qosc &&& ieee80211QosCtlAMsduPresent ≠ 0 then
      return (← awdlRxDataAmsdu strict hash env frame state).toRx
    else return (← awdlRxData strict hash env frame source target state 0).toRx
  else if kind = (ieee80211FtypeData ||| ieee80211StypeData) then
    return (← awdlRxData strict hash env frame source target state 0).toRx
  else return ⟨.unexpectedType, frame, [], state, []⟩

def awdlRx (strict : Bool) (hash : EtherAddr → UInt64) (env : RxEnv) (frame : Buf)
    (state : AwdlState) : Except Fault RxOutcome := do
  let (parsed, rssi, flags) := radiotapParse env frame
  if parsed.code < 0 then return ⟨.unexpectedFormat, frame, [], state, []⟩
  -- Read through a cast of the data pointer, not by a checked accessor.
  let itLen ← load frame 2 2
  let some frame := bufStrip frame (ofLe16 itLen).toNat | return ⟨.tooShort, frame, [], state, []⟩
  let some frame := checkFcs frame flags | return ⟨.ignoreFailedCrc, frame, [], state, []⟩
  let some _ := readBytes frame 0 ieee80211HdrSize | return ⟨.tooShort, frame, [], state, []⟩
  -- Both stay pointers into this view, which is stripped below.
  let source := AddrPtr.kept frame 10
  let target := AddrPtr.kept frame 4
  let fc ← load frame 0 2
  let sourceAddr ← deref strict frame source
  if compareEtherAddr sourceAddr state.selfAddress = .eq then
    return ⟨.ignoreFromSelf, frame, [], state, []⟩
  let some frame := bufStrip frame ieee80211HdrSize | return ⟨.tooShort, frame, [], state, []⟩
  dispatch strict hash env frame rssi (ofLe16 fc) source target state

end Owl.Rx
