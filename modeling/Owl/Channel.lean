import Owl.Bytes

/-!
`channel.c`: channel descriptors in three encodings. The union `awdl_chan` is
its two bytes; the encodings differ in which of them holds the channel number.
An encoding that comes from the air is a byte and may be unknown.
-/

namespace Owl.Channel

open Bytes

def awdlChanseqLength : Nat := 16

inductive ChanEncoding where
  | simple
  | legacy
  | opclass
  deriving DecidableEq, Repr

def ChanEncoding.code : ChanEncoding → UInt8
  | .simple => 0
  | .legacy => 1
  | .opclass => 3

def ChanEncoding.ofCode (code : UInt8) : Option ChanEncoding :=
  if code = 0 then some .simple
  else if code = 1 then some .legacy
  else if code = 3 then some .opclass
  else none

abbrev AwdlChan := Fixed UInt8 2

abbrev ChanSeq := Fixed AwdlChan awdlChanseqLength

def chanNull : AwdlChan := ⟨[0, 0x00], rfl⟩
def chanOpclass6 : AwdlChan := ⟨[6, 0x51], rfl⟩
def chanOpclass149 : AwdlChan := ⟨[149, 0x80], rfl⟩

def awdlChanNum (chan : AwdlChan) : Option ChanEncoding → UInt8
  | some .simple => byteAt chan.toList 0
  | some .legacy => byteAt chan.toList 1
  | some .opclass => byteAt chan.toList 0
  | none => 0

def awdlChanEncodingSize : Option ChanEncoding → Int
  | some .simple => 1
  | some .legacy => 2
  | some .opclass => 2
  | none => -1

def awdlChanseqInit : ChanSeq :=
  ⟨(List.range awdlChanseqLength).map fun i => if i < 8 then chanOpclass149 else chanOpclass6, rfl⟩

def awdlChanseqInitStatic (chan : AwdlChan) : ChanSeq := Fixed.replicate awdlChanseqLength chan

structure ChannelState where
  enc : ChanEncoding
  sequence : ChanSeq
  master : AwdlChan
  current : AwdlChan
  deriving DecidableEq

theorem ofCode_code (enc : ChanEncoding) : ChanEncoding.ofCode enc.code = some enc := by
  cases enc <;> decide

/-- A supported encoding fits into the two bytes of a descriptor. -/
theorem awdlChanEncodingSize_le (enc : Option ChanEncoding) : awdlChanEncodingSize enc ≤ 2 := by
  rcases enc with _ | enc
  · decide
  · cases enc <;> decide

end Owl.Channel
