import Owl.State

/-!
`frame.h` and `ieee80211.h`: the constants that sender and receiver share. The
header structures are packed, so their sizes are the sums of their fields; the
modules that build and parse them write the fields out in order. Values of
`radiotap.h` are those of the radiotap standard.
-/

namespace Owl.Frames

open Bytes Ether State

def awdlLlcProtocolId : UInt16 := 0x0800
def awdlOui : List UInt8 := [0x00, 0x17, 0xf2]
def awdlBssid : EtherAddr := ⟨0x00, 0x25, 0x00, 0xff, 0x94, 0x73⟩

def ieee80211VendorSpecific : UInt8 := 127
def awdlVersionCompat : UInt8 := awdlVersion 1 0
def awdlType : UInt8 := 8

def awdlDataSize : Nat := 8
def awdlActionSize : Nat := 16
def ieee80211HdrSize : Nat := 24
def llcHdrSize : Nat := 8
def tlSize : Nat := 3

inductive ActionType where
  | psf
  | mif
  deriving DecidableEq, Repr

def ActionType.code : ActionType → UInt8
  | .psf => 0
  | .mif => 3

/-- The TLV types that the code sends or handles. -/
inductive TlvType where
  | synchronizatonParameters
  | electionParameters
  | serviceParameters
  | enhancedDataRateCapabilities
  | dataPathState
  | arpa
  | chanSeq
  | synctree
  | version
  | electionParametersV2
  deriving DecidableEq, Repr

def TlvType.code : TlvType → UInt8
  | .synchronizatonParameters => 4
  | .electionParameters => 5
  | .serviceParameters => 6
  | .enhancedDataRateCapabilities => 7
  | .dataPathState => 12
  | .arpa => 16
  | .chanSeq => 18
  | .synctree => 20
  | .version => 21
  | .electionParametersV2 => 24

def awdlDataPathFlagCountryCode : UInt16 := 0x0100
def awdlDataPathFlagSocialChannelMap : UInt16 := 0x0200
def awdlDataPathFlagInfraInfo : UInt16 := 0x0001
def awdlDataPathFlagInfraAddress : UInt16 := 0x0002
def awdlDataPathFlagAwdlAddress : UInt16 := 0x0004

def ieee80211FctlFtype : UInt16 := 0x000c
def ieee80211FctlStype : UInt16 := 0x00f0
def ieee80211FtypeMgmt : UInt16 := 0x0000
def ieee80211FtypeData : UInt16 := 0x0008
def ieee80211StypeAction : UInt16 := 0x00d0
def ieee80211StypeData : UInt16 := 0x0000
def ieee80211StypeQosData : UInt16 := 0x0080
def ieee80211QosCtlLen : Nat := 2
def ieee80211QosCtlAMsduPresent : UInt16 := 0x0080

def ieee80211RadiotapFlags : Nat := 1
def ieee80211RadiotapRate : Nat := 2
def ieee80211RadiotapDbmAntsignal : Nat := 5
def ieee80211RadiotapFFcs : UInt8 := 0x10
def ieee80211RadiotapFBadfcs : UInt8 := 0x40

def etherMaxLen : Nat := 1518

theorem etherMaxLen_small : etherMaxLen < 2 ^ 31 := by decide

def ethPIpv6 : UInt16 := 0x86dd

end Owl.Frames
