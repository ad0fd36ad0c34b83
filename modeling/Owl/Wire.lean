import Owl.Ether

/-!
`wire.c`: bounded views of byte strings. `Buf` is the pair (data, len) that a
`struct buf` shows at one moment, so stripping and taking shorten the list of
bytes. The C code follows raw pointers after its own length comparison; here
every load, store and sub-view checks its range once more and the whole
computation ends in a `Fault` when the range leaves the view or the object.
`none` is the negative result `OUT_OF_BOUNDS`. Offsets and lengths are `int`
and their sum wraps at 32 bits. Ownership and `free` are not modelled.
-/

namespace Owl.Wire

open Bytes Ether

/-- An access that the C abstract machine does not define, or (`stale`) a read of
bytes that were stripped from the view before. -/
inductive Fault where
  | read
  | view
  | write
  | stale
  deriving DecidableEq, Repr

/-- The view (data, len) of a `struct buf`; `len` is a non-negative `int`. -/
structure Buf where
  bytes : List UInt8
  small : bytes.length < 2 ^ 31
  deriving DecidableEq

def bufLen (buf : Buf) : Int := buf.bytes.length

def addInt (a b : Int) : Int := (BitVec.ofInt 32 (a + b)).toInt

/-- `buf_new_owned` of a non-negative constant length; `memory` is what the
allocator left in the fresh bytes. -/
def bufNewOwned {len : Nat} (memory : Fixed UInt8 len) (small : len < 2 ^ 31) : Buf :=
  ⟨memory.toList, by rw [memory.size]; exact small⟩

theorem slice_small (parent : Buf) (start len : Nat) :
    (slice parent.bytes start len).length < 2 ^ 31 := by
  have small := parent.small
  simp only [slice, List.length_take, List.length_drop]
  omega

def bufNewConst (parent : Buf) (data : Int) (len : Nat) : Except Fault Buf :=
  if 0 ≤ data ∧ data + len ≤ bufLen parent then
    .ok ⟨slice parent.bytes data.toNat len, slice_small parent data.toNat len⟩
  else .error .view

def bufStrip (buf : Buf) (len : Int) : Option Buf :=
  if len > bufLen buf ∨ len < 0 then none
  else some ⟨buf.bytes.drop len.toNat, by
    have small := buf.small
    simp only [List.length_drop]
    omega⟩

def bufTake (buf : Buf) (len : Int) : Option Buf :=
  if len > bufLen buf ∨ len < 0 then none
  else some ⟨buf.bytes.take (buf.bytes.length - len.toNat), by
    have small := buf.small
    simp only [List.length_take]
    omega⟩

def load (buf : Buf) (offset : Int) (count : Nat) : Except Fault (List UInt8) :=
  if 0 ≤ offset ∧ offset + count ≤ bufLen buf then .ok (slice buf.bytes offset.toNat count)
  else .error .read

def storeBuf (buf : Buf) (offset : Int) (items : List UInt8) : Except Fault Buf :=
  if fits : 0 ≤ offset ∧ offset + items.length ≤ bufLen buf then
    .ok ⟨buf.bytes.take offset.toNat ++ items ++ buf.bytes.drop (offset.toNat + items.length), by
      have small := buf.small
      have bound := fits.2
      unfold bufLen at bound
      simp only [List.length_append, List.length_take, List.length_drop]
      omega⟩
  else .error .write

def storeField {n : Nat} (field : Fixed UInt8 n) (offset : Nat) (items : List UInt8) :
    Except Fault (Fixed UInt8 n) :=
  match field.store offset items with
  | some after => .ok after
  | none => .error .write

def OutOfBounds (buf : Buf) (offset length : Int) : Prop :=
  offset < 0 ∨ addInt offset length > bufLen buf

instance (buf : Buf) (offset length : Int) : Decidable (OutOfBounds buf offset length) :=
  inferInstanceAs (Decidable (_ ∨ _))

def writeWith (buf : Buf) (offset : Int) (items : List UInt8) : Except Fault (Int × Buf) := do
  if OutOfBounds buf offset items.length then return (-1, buf)
  let after ← storeBuf buf offset items
  return (items.length, after)

def writeU8 (buf : Buf) (offset : Int) (value : UInt8) := writeWith buf offset [value]
def writeLe16 (buf : Buf) (offset : Int) (value : UInt16) := writeWith buf offset (le16 value)
def writeBe16 (buf : Buf) (offset : Int) (value : UInt16) := writeWith buf offset (be16 value)
def writeLe32 (buf : Buf) (offset : Int) (value : UInt32) := writeWith buf offset (le32 value)
def writeBe32 (buf : Buf) (offset : Int) (value : UInt32) := writeWith buf offset (be32 value)
def writeEtherAddr (buf : Buf) (offset : Int) (addr : EtherAddr) := writeWith buf offset addr.bytes

/-- `write_bytes`: `memcpy` takes its `int` length as a `size_t`, so a negative
one leaves every object. -/
def writeBytes (buf : Buf) (offset : Int) (source : Buf) (length : Int) :
    Except Fault (Int × Buf) := do
  if OutOfBounds buf offset length then return (-1, buf)
  if length < 0 then throw .write
  let items ← load source 0 length.toNat
  let after ← storeBuf buf offset items
  return (length, after)

def readWith {α : Type} (width : Nat) (decode : List UInt8 → α) (buf : Buf) (offset : Int) :
    Except Fault (Option α) := do
  if OutOfBounds buf offset width then return none
  let items ← load buf offset width
  return some (decode items)

def readU8 := readWith 1 (byteAt · 0)
def readLe16 := readWith 2 ofLe16
def readBe16 := readWith 2 ofBe16
def readLe32 := readWith 4 ofLe32
def readBe32 := readWith 4 ofBe32
def readEtherAddr := readWith 6 EtherAddr.ofBytes

/-- The same functions with the output pointer NULL: only the comparison. -/
def readNull (width : Nat) (buf : Buf) (offset : Int) : Option Unit :=
  if OutOfBounds buf offset width then none else some ()

/-- `read_bytes`: the pointer, as an offset from `data`. -/
def readBytes (buf : Buf) (offset length : Int) : Option Int :=
  if OutOfBounds buf offset length then none else some offset

def readBytesCopy {n : Nat} (buf : Buf) (offset : Int) (field : Fixed UInt8 n) (length : Int) :
    Except Fault (Option (Fixed UInt8 n)) := do
  if OutOfBounds buf offset length then return none
  if length < 0 then throw .read
  let items ← load buf offset length.toNat
  let after ← storeField field 0 items
  return some after

def readIntString {n : Nat} (buf : Buf) (offset : Int) (str : Fixed UInt8 n) (length : Int) :
    Except Fault (Option (Fixed UInt8 n)) := do
  let some len ← readU8 buf offset | return none
  let len := if (len.toNat : Int) > length then UInt8.ofInt length else len
  let some str ← readBytesCopy buf (addInt offset 1) str len.toNat | return none
  let str ← storeField str len.toNat [0]
  return some str

structure Tlv where
  type : UInt8
  len : UInt16
  val : Int
  result : Int

def readTlv (buf : Buf) (offset : Int) : Except Fault (Option Tlv) := do
  let some type ← readU8 buf offset | return none
  let some len ← readLe16 buf (addInt offset 1) | return none
  let some val := readBytes buf (addInt offset 3) len.toNat | return none
  return some ⟨type, len, val, len.toNat + 3⟩

/-! With a non-negative offset and a sum below 2^31 the comparison decides
whether the range lies inside the view, so no load and no sub-view can fault.
The lemmas below replace each function by what it yields then. -/
section Specification

@[simp] theorem except_ok_bind {ε α β : Type} (value : α) (next : α → Except ε β) :
    (Except.ok value >>= next) = next value := rfl

@[simp] theorem except_pure {ε α : Type} (value : α) : (pure value : Except ε α) = .ok value :=
  rfl

theorem toOption_bind_some {ε α β : Type} {run : Except ε α} {next : α → Except ε β} {value : β}
    (found : (run.bind next).toOption = some value) :
    ∃ first, run = .ok first ∧ (next first).toOption = some value := by
  cases run with
  | error => cases found
  | ok first => exact ⟨first, rfl, found⟩

theorem toOption_map_some {ε α β : Type} {run : Except ε α} {view : α → β} {value : β}
    (found : (run.map view).toOption = some value) : ∃ first, run = .ok first ∧ view first = value := by
  cases run with
  | error => cases found
  | ok first => exact ⟨first, rfl, Option.some.inj found⟩

def peek {α : Type} (width : Nat) (decode : List UInt8 → α) (bytes : List UInt8)
    (offset : Nat) : Option α :=
  if offset + width ≤ bytes.length then some (decode (slice bytes offset width)) else none

def Buf.drop (buf : Buf) (count : Nat) : Buf :=
  ⟨buf.bytes.drop count, by have small := buf.small; simp only [List.length_drop]; omega⟩

def Buf.part (buf : Buf) (offset count : Nat) : Buf :=
  ⟨slice buf.bytes offset count, slice_small buf offset count⟩

theorem addInt_small (a b : Int) (lower : -2 ^ 31 ≤ a + b) (upper : a + b < 2 ^ 31) :
    addInt a b = a + b := by
  rw [addInt, BitVec.toInt_ofInt, Int.bmod_def]
  omega

theorem outOfBounds_iff (buf : Buf) (offset length : Int) (start : 0 ≤ offset)
    (count : 0 ≤ length) (small : offset + length < 2 ^ 31) :
    OutOfBounds buf offset length ↔ bufLen buf < offset + length := by
  unfold OutOfBounds
  rw [addInt_small offset length (by omega) small]
  omega

theorem load_inside (buf : Buf) (offset : Int) (count : Nat) (start : 0 ≤ offset)
    (inside : offset + count ≤ bufLen buf) :
    load buf offset count = .ok (slice buf.bytes offset.toNat count) := by
  simp [load, start, inside]

theorem readWith_eq {α : Type} (width : Nat) (decode : List UInt8 → α) (buf : Buf)
    (offset : Int) (start : 0 ≤ offset) (small : offset + width < 2 ^ 31) :
    readWith width decode buf offset = .ok (peek width decode buf.bytes offset.toNat) := by
  have bound := outOfBounds_iff buf offset width start (by omega) small
  unfold readWith
  by_cases outside : OutOfBounds buf offset width
  · have short : ¬ offset.toNat + width ≤ buf.bytes.length := by
      have beyond := bound.mp outside
      unfold bufLen at beyond
      omega
    simp [outside, peek, short]
  · have fits : offset + width ≤ bufLen buf := by
      have notBeyond := mt bound.mpr outside
      omega
    have inside : offset.toNat + width ≤ buf.bytes.length := by
      unfold bufLen at fits
      omega
    rw [load_inside buf offset width start fits]
    simp [outside, peek, inside]

section Fields

variable (buf : Buf) (offset : Int) (start : 0 ≤ offset)
include start

theorem readU8_eq (small : offset + 1 < 2 ^ 31) :
    readU8 buf offset = .ok (peek 1 (byteAt · 0) buf.bytes offset.toNat) :=
  readWith_eq 1 _ buf offset start small

theorem readLe16_eq (small : offset + 2 < 2 ^ 31) :
    readLe16 buf offset = .ok (peek 2 ofLe16 buf.bytes offset.toNat) :=
  readWith_eq 2 _ buf offset start small

theorem readBe16_eq (small : offset + 2 < 2 ^ 31) :
    readBe16 buf offset = .ok (peek 2 ofBe16 buf.bytes offset.toNat) :=
  readWith_eq 2 _ buf offset start small

theorem readLe32_eq (small : offset + 4 < 2 ^ 31) :
    readLe32 buf offset = .ok (peek 4 ofLe32 buf.bytes offset.toNat) :=
  readWith_eq 4 _ buf offset start small

theorem readEtherAddr_eq (small : offset + 6 < 2 ^ 31) :
    readEtherAddr buf offset = .ok (peek 6 EtherAddr.ofBytes buf.bytes offset.toNat) :=
  readWith_eq 6 _ buf offset start small

theorem readNull_eq (width : Nat) (small : offset + width < 2 ^ 31) :
    readNull width buf offset =
      if offset.toNat + width ≤ buf.bytes.length then some () else none := by
  have bound := outOfBounds_iff buf offset width start (by omega) small
  unfold readNull
  rw [if_congr bound rfl rfl]
  unfold bufLen
  split <;> split <;> first | rfl | omega

theorem readBytes_eq (length : Nat) (small : offset + length < 2 ^ 31) :
    readBytes buf offset length =
      if offset.toNat + length ≤ buf.bytes.length then some offset else none := by
  have bound := outOfBounds_iff buf offset length start (by omega) small
  unfold readBytes
  rw [if_congr bound rfl rfl]
  unfold bufLen
  split <;> split <;> first | rfl | omega

/-- A copy that is short enough for the array never faults. -/
theorem readBytesCopy_eq {n : Nat} (field : Fixed UInt8 n) (length : Nat)
    (room : length ≤ n) (small : offset + length < 2 ^ 31) :
    readBytesCopy buf offset field length =
      .ok (if offset.toNat + length ≤ buf.bytes.length then
        field.store 0 (slice buf.bytes offset.toNat length) else none) := by
  have bound := outOfBounds_iff buf offset length start (by omega) small
  unfold readBytesCopy
  by_cases outside : OutOfBounds buf offset length
  · have short : ¬ offset.toNat + length ≤ buf.bytes.length := by
      have beyond := bound.mp outside
      unfold bufLen at beyond
      omega
    simp [outside, short]
  · have fits : offset + length ≤ bufLen buf := by
      have notBeyond := mt bound.mpr outside
      omega
    have inside : offset.toNat + length ≤ buf.bytes.length := by
      unfold bufLen at fits
      omega
    have nonneg : ¬ (length : Int) < 0 := by omega
    have stored := field.store_isSome 0 (slice buf.bytes offset.toNat length)
      (by rw [slice_length _ _ _ inside]; omega)
    obtain ⟨after, same⟩ := Option.isSome_iff_exists.mp stored
    simp [outside, nonneg, inside, load_inside buf offset length start fits, storeField, same]

/-- The text and its NUL arrive together, the rest of the field keeps its bytes. -/
theorem readIntString_eq {n : Nat} (str : Fixed UInt8 n) (length : Nat) (byte : length ≤ 255)
    (room : length < n) (small : offset + 257 < 2 ^ 31) :
    readIntString buf offset str length =
      .ok ((peek 1 (byteAt · 0) buf.bytes offset.toNat).bind fun len =>
        if offset.toNat + 1 + min len.toNat length ≤ buf.bytes.length then
          str.store 0 (slice buf.bytes (offset.toNat + 1) (min len.toNat length) ++ [0])
        else none) := by
  have next : addInt offset 1 = offset + 1 := addInt_small offset 1 (by omega) (by omega)
  unfold readIntString
  rw [readU8_eq buf offset start (by omega), except_ok_bind, next]
  cases peek 1 (byteAt · 0) buf.bytes offset.toNat with
  | none => rfl
  | some len =>
      have cut : (if (len.toNat : Int) > length then UInt8.ofInt length else len).toNat =
          min len.toNat length := by
        split
        case isTrue longer =>
          rw [UInt8.ofInt, UInt8.toNat_ofNat']
          omega
        case isFalse => omega
      dsimp only
      rw [cut, readBytesCopy_eq buf (offset + 1) (by omega) str (min len.toNat length) (by omega)
        (by omega), except_ok_bind]
      have position : (offset + 1).toNat = offset.toNat + 1 := by omega
      rw [position]
      by_cases inside : offset.toNat + 1 + min len.toNat length ≤ buf.bytes.length
      · have width := slice_length buf.bytes (offset.toNat + 1) (min len.toNat length) inside
        have first := str.store_isSome 0 (slice buf.bytes (offset.toNat + 1) (min len.toNat length))
          (by omega)
        have whole := str.store_isSome 0
          (slice buf.bytes (offset.toNat + 1) (min len.toNat length) ++ [0])
          (by simp only [List.length_append, List.length_singleton, width]; omega)
        obtain ⟨copied, stored⟩ := Option.isSome_iff_exists.mp first
        obtain ⟨done, complete⟩ := Option.isSome_iff_exists.mp whole
        have both := Fixed.store_store str copied _ [0] stored
        rw [width, complete] at both
        simp [stored, storeField, both, complete, inside]
      · simp [inside]

end Fields

theorem readTlv_eq (buf : Buf) :
    readTlv buf 0 = .ok (
      if 3 ≤ buf.bytes.length ∧ 3 + (ofLe16 (slice buf.bytes 1 2)).toNat ≤ buf.bytes.length then
        some ⟨byteAt buf.bytes 0, ofLe16 (slice buf.bytes 1 2), 3,
          (ofLe16 (slice buf.bytes 1 2)).toNat + 3⟩
      else none) := by
  have one : addInt 0 1 = 1 := by decide
  have three : addInt 0 3 = 3 := by decide
  have value : ∀ len : UInt16, readBytes buf 3 len.toNat =
      if 3 + len.toNat ≤ buf.bytes.length then some 3 else none := by
    intro len
    have bound := len.toNat_lt
    exact readBytes_eq buf 3 (by decide) len.toNat (by omega)
  unfold readTlv
  rw [one, three, readU8_eq buf 0 (by decide) (by decide), except_ok_bind,
    readLe16_eq buf 1 (by decide) (by decide)]
  have zero : Int.toNat 0 = 0 := rfl
  have single : Int.toNat 1 = 1 := rfl
  simp only [except_ok_bind, zero, single, value]
  by_cases header : 3 ≤ buf.bytes.length
  · have type : peek 1 (byteAt · 0) buf.bytes 0 = some (byteAt buf.bytes 0) := by
      rw [peek, if_pos (by omega), byteAt_slice _ _ _ _ (by decide)]
    have found : peek 2 ofLe16 buf.bytes 1 = some (ofLe16 (slice buf.bytes 1 2)) := by
      rw [peek, if_pos (by omega)]
    simp only [type, found, header, true_and]
    by_cases inside : 3 + (ofLe16 (slice buf.bytes 1 2)).toNat ≤ buf.bytes.length
    · simp only [inside, ↓reduceIte, except_pure]
    · simp only [inside, ↓reduceIte, except_pure]
  · have missing : peek 2 ofLe16 buf.bytes 1 = none := by rw [peek, if_neg (by omega)]
    rw [missing, if_neg (fun both => header both.1)]
    cases peek 1 (byteAt · 0) buf.bytes 0 <;> rfl

theorem bufStrip_eq (buf : Buf) (len : Nat) :
    bufStrip buf len = if len ≤ buf.bytes.length then some (buf.drop len) else none := by
  unfold bufStrip bufLen
  split <;> split <;> first | rfl | omega

def patch (bytes : List UInt8) (offset : Nat) (items : List UInt8) : List UInt8 :=
  bytes.take offset ++ items ++ bytes.drop (offset + items.length)

theorem patch_append (before rest items : List UInt8) :
    patch (before ++ rest) before.length items = before ++ (items ++ rest.drop items.length) := by
  simp [patch, List.drop_append]

theorem storeBuf_inside (buf : Buf) (offset : Nat) (items : List UInt8)
    (inside : offset + items.length ≤ buf.bytes.length) :
    ∃ after, storeBuf buf offset items = .ok after ∧ after.bytes = patch buf.bytes offset items := by
  have fits : 0 ≤ (offset : Int) ∧ (offset : Int) + items.length ≤ bufLen buf := by
    unfold bufLen
    omega
  rw [storeBuf, dif_pos fits]
  exact ⟨_, rfl, rfl⟩

theorem writeWith_inside (buf : Buf) (offset : Nat) (items : List UInt8)
    (inside : offset + items.length ≤ buf.bytes.length) :
    ∃ after, writeWith buf offset items = .ok (items.length, after) ∧
      after.bytes = patch buf.bytes offset items := by
  obtain ⟨after, stored, bytes⟩ := storeBuf_inside buf offset items inside
  have small := buf.small
  have bound := outOfBounds_iff buf offset items.length (by omega) (by omega) (by omega)
  have fits : ¬ OutOfBounds buf offset items.length := by
    rw [bound]
    unfold bufLen
    omega
  refine ⟨after, ?_, bytes⟩
  rw [writeWith, if_neg fits, stored]
  rfl

/-- `write_bytes` of a whole view either fits or leaves the buffer as it is. -/
theorem writeBytes_eq (buf : Buf) (offset : Nat) (source : Buf)
    (small : offset + source.bytes.length < 2 ^ 31) :
    ∃ count after, writeBytes buf offset source (bufLen source) = .ok (count, after) ∧
      after.bytes = if offset + source.bytes.length ≤ buf.bytes.length then
        patch buf.bytes offset source.bytes else buf.bytes := by
  have bound := outOfBounds_iff buf offset (bufLen source) (by omega)
    (by unfold bufLen; omega) (by unfold bufLen; omega)
  have nonneg : ¬ bufLen source < 0 := by unfold bufLen; omega
  have whole : load source 0 (bufLen source).toNat = .ok source.bytes := by
    rw [load_inside source 0 _ (by decide) (by unfold bufLen; omega)]
    simp [slice, bufLen]
  by_cases inside : offset + source.bytes.length ≤ buf.bytes.length
  · obtain ⟨after, stored, bytes⟩ := storeBuf_inside buf offset source.bytes inside
    have fits : ¬ OutOfBounds buf offset (bufLen source) := by
      rw [bound]
      unfold bufLen
      omega
    refine ⟨bufLen source, after, ?_, by rw [bytes, if_pos inside]⟩
    rw [writeBytes, if_neg fits, if_neg nonneg, whole, except_ok_bind, stored]
    rfl
  · have outside : OutOfBounds buf offset (bufLen source) := by
      rw [bound]
      unfold bufLen
      omega
    refine ⟨-1, buf, ?_, by rw [if_neg inside]⟩
    rw [writeBytes, if_pos outside]
    rfl

theorem bufNewConst_eq (parent : Buf) (data : Int) (len : Nat) (start : 0 ≤ data)
    (inside : data.toNat + len ≤ parent.bytes.length) :
    bufNewConst parent data len = .ok (parent.part data.toNat len) := by
  have fits : 0 ≤ data ∧ data + len ≤ bufLen parent := by unfold bufLen; omega
  simp [bufNewConst, fits, Buf.part]

@[simp] theorem drop_bytes (buf : Buf) (count : Nat) :
    (buf.drop count).bytes = buf.bytes.drop count := rfl

@[simp] theorem part_bytes (buf : Buf) (offset count : Nat) :
    (buf.part offset count).bytes = slice buf.bytes offset count := rfl

end Specification

end Owl.Wire
