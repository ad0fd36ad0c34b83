import Owl.Ether

/-!
`siphash24.c`, the hash of the peer table. Words are loaded and stored in host
order; the target is little-endian.
-/

namespace Owl.Siphash

open Bytes Ether

structure SipState where
  v0 : UInt64
  v1 : UInt64
  v2 : UInt64
  v3 : UInt64

def rotl64 (x b : UInt64) : UInt64 := (x <<< b) ||| (x >>> (64 - b))

def load64Le (src : List UInt8) : UInt64 :=
  (src.take 8).foldr (fun byte word => byte.toUInt64 ||| (word <<< 8)) 0

def sipround (s : SipState) : SipState :=
  let v0 := s.v0 + s.v1
  let v1 := rotl64 s.v1 13
  let v1 := v1 ^^^ v0
  let v0 := rotl64 v0 32
  let v2 := s.v2 + s.v3
  let v3 := rotl64 s.v3 16
  let v3 := v3 ^^^ v2
  let v0 := v0 + v3
  let v3 := rotl64 v3 21
  let v3 := v3 ^^^ v0
  let v2 := v2 + v1
  let v1 := rotl64 v1 17
  let v1 := v1 ^^^ v2
  let v2 := rotl64 v2 32
  ⟨v0, v1, v2, v3⟩

def absorb (s : SipState) (m : UInt64) : SipState :=
  let s := sipround (sipround { s with v3 := s.v3 ^^^ m })
  { s with v0 := s.v0 ^^^ m }

def absorbBlocks : Nat → List UInt8 → SipState → SipState
  | 0, _, s => s
  | blocks + 1, input, s => absorbBlocks blocks (input.drop 8) (absorb s (load64Le input))

def lastWord (input : List UInt8) : UInt64 :=
  (input.length.toUInt64 <<< 56) ||| load64Le (input.drop (input.length / 8 * 8))

def siphash24 (input key : List UInt8) : UInt64 :=
  let k0 := load64Le key
  let k1 := load64Le (key.drop 8)
  let s : SipState :=
    { v0 := 0x736f6d6570736575 ^^^ k0
      v1 := 0x646f72616e646f6d ^^^ k1
      v2 := 0x6c7967656e657261 ^^^ k0
      v3 := 0x7465646279746573 ^^^ k1 }
  let s := absorbBlocks (input.length / 8) input s
  let s := absorb s (lastWord input)
  let s := sipround (sipround (sipround (sipround { s with v2 := s.v2 ^^^ 0xff })))
  s.v0 ^^^ s.v1 ^^^ s.v2 ^^^ s.v3

/-- The hash of `hashmap_hash_int` under the seed that `hashmap_new` sets. -/
def addrHash (addr : EtherAddr) : UInt64 := siphash24 addr.bytes (List.replicate 16 0)

end Owl.Siphash
