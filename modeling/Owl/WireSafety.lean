import Owl.Wire

/-!
The reading and writing functions of `wire.c` for every `int` argument. Each
compares `offset + length` with the length of the view, and this sum wraps: a
sum of 2^31 or more is negative and passes. A negative length passes as well when
the sum stays within the view; `memcpy` then takes it for a huge one, and
`read_bytes` stores the pointer before it returns the negative length. On all
other arguments the functions do what the comparison is meant for.
-/

namespace Owl.WireSafety

open Bytes Ether Wire

/-- What the output argument points at; `null` is a NULL pointer or no such argument. -/
inductive Out where
  | null
  | u8 (value : UInt8)
  | u16 (value : UInt16)
  | u32 (value : UInt32)
  | etherAddr (addr : EtherAddr)
  | pointer (data : Int)
  | array (bytes : List UInt8)
  deriving DecidableEq

structure Outcome where
  result : Int
  buf : Buf
  out : Out
  deriving DecidableEq

/-- A call with all its arguments but buffer and offset. An output argument comes with
what it points at before the call; arrays have room for the length. -/
inductive WireCall where
  | writeU8 (value : UInt8)
  | writeLe16 (value : UInt16)
  | writeBe16 (value : UInt16)
  | writeLe32 (value : UInt32)
  | writeBe32 (value : UInt32)
  | writeEtherAddr (addr : EtherAddr)
  | writeBytes (bytes : Buf) (length : Int32) (room : length.toInt ≤ bufLen bytes)
  | readU8 (value : Option UInt8)
  | readLe16 (value : Option UInt16)
  | readBe16 (value : Option UInt16)
  | readLe32 (value : Option UInt32)
  | readBe32 (value : Option UInt32)
  | readEtherAddr (addr : Option EtherAddr)
  | readBytes (bytes : Option Int) (length : Int32)
  | readBytesCopy (n : Nat) (bytes : Option (Fixed UInt8 n)) (length : Int32)
      (room : length.toInt ≤ n)

def stored (run : Except Fault (Int × Buf)) : Except Fault Outcome :=
  run.map fun done => ⟨done.1, done.2, .null⟩

def fetched {α : Type} (wrap : α → Out) (width : Nat) (decode : List UInt8 → α)
    (value : Option α) (buf : Buf) (offset : Int) : Except Fault Outcome :=
  match value with
  | none =>
      match readNull width buf offset with
      | some _ => .ok ⟨width, buf, .null⟩
      | none => .ok ⟨-1, buf, .null⟩
  | some old =>
      (readWith width decode buf offset).map fun found =>
        match found with
        | some new => ⟨width, buf, wrap new⟩
        | none => ⟨-1, buf, wrap old⟩

namespace WireCall

def run (buf : Buf) (offset : Int) : WireCall → Except Fault Outcome
  | writeU8 value => stored (Wire.writeU8 buf offset value)
  | writeLe16 value => stored (Wire.writeLe16 buf offset value)
  | writeBe16 value => stored (Wire.writeBe16 buf offset value)
  | writeLe32 value => stored (Wire.writeLe32 buf offset value)
  | writeBe32 value => stored (Wire.writeBe32 buf offset value)
  | writeEtherAddr addr => stored (Wire.writeEtherAddr buf offset addr)
  | writeBytes bytes length _ => stored (Wire.writeBytes buf offset bytes length.toInt)
  | readU8 value => fetched .u8 1 (byteAt · 0) value buf offset
  | readLe16 value => fetched .u16 2 ofLe16 value buf offset
  | readBe16 value => fetched .u16 2 ofBe16 value buf offset
  | readLe32 value => fetched .u32 4 ofLe32 value buf offset
  | readBe32 value => fetched .u32 4 ofBe32 value buf offset
  | readEtherAddr addr => fetched .etherAddr 6 EtherAddr.ofBytes addr buf offset
  | readBytes none length =>
      match Wire.readBytes buf offset length.toInt with
      | some _ => .ok ⟨length.toInt, buf, .null⟩
      | none => .ok ⟨-1, buf, .null⟩
  | readBytes (some old) length =>
      match Wire.readBytes buf offset length.toInt with
      | some data => .ok ⟨length.toInt, buf, .pointer data⟩
      | none => .ok ⟨-1, buf, .pointer old⟩
  | readBytesCopy _ none length _ =>
      -- Without an array the two functions do the same.
      match Wire.readBytes buf offset length.toInt with
      | some _ => .ok ⟨length.toInt, buf, .null⟩
      | none => .ok ⟨-1, buf, .null⟩
  | readBytesCopy _ (some old) length _ =>
      (Wire.readBytesCopy buf offset old length.toInt).map fun found =>
        match found with
        | some after => ⟨length.toInt, buf, .array after.toList⟩
        | none => ⟨-1, buf, .array old.toList⟩

def length : WireCall → Int
  | writeU8 _ | readU8 _ => 1
  | writeLe16 _ | writeBe16 _ | readLe16 _ | readBe16 _ => 2
  | writeLe32 _ | writeBe32 _ | readLe32 _ | readBe32 _ => 4
  | writeEtherAddr _ | readEtherAddr _ => 6
  | writeBytes _ length _ | readBytes _ length | readBytesCopy _ _ length _ => length.toInt

def before : WireCall → Out
  | writeU8 _ | writeLe16 _ | writeBe16 _ | writeLe32 _ | writeBe32 _ | writeEtherAddr _
  | writeBytes _ _ _ => .null
  | readU8 value => value.elim .null .u8
  | readLe16 value | readBe16 value => value.elim .null .u16
  | readLe32 value | readBe32 value => value.elim .null .u32
  | readEtherAddr addr => addr.elim .null .etherAddr
  | readBytes bytes _ => bytes.elim .null .pointer
  | readBytesCopy _ bytes _ _ => bytes.elim .null fun field => .array field.toList

def items (range : List UInt8) : WireCall → List UInt8
  | writeU8 value => [value]
  | writeLe16 value => le16 value
  | writeBe16 value => be16 value
  | writeLe32 value => le32 value
  | writeBe32 value => be32 value
  | writeEtherAddr addr => addr.bytes
  | writeBytes bytes length _ => slice bytes.bytes 0 length.toInt.toNat
  | _ => range

def after (offset : Int) (range : List UInt8) : WireCall → Out
  | writeU8 _ | writeLe16 _ | writeBe16 _ | writeLe32 _ | writeBe32 _ | writeEtherAddr _
  | writeBytes _ _ _ => .null
  | readU8 value => value.elim .null fun _ => .u8 (byteAt range 0)
  | readLe16 value => value.elim .null fun _ => .u16 (ofLe16 range)
  | readBe16 value => value.elim .null fun _ => .u16 (ofBe16 range)
  | readLe32 value => value.elim .null fun _ => .u32 (ofLe32 range)
  | readBe32 value => value.elim .null fun _ => .u32 (ofBe32 range)
  | readEtherAddr addr => addr.elim .null fun _ => .etherAddr (EtherAddr.ofBytes range)
  | readBytes bytes _ => bytes.elim .null fun _ => .pointer offset
  | readBytesCopy _ bytes _ _ =>
      bytes.elim .null fun field => .array (range ++ field.toList.drop range.length)

def Stores (offset : Int) : WireCall → Prop
  | readBytes bytes _ => bytes ≠ none ∧ bytes ≠ some offset
  | readBytesCopy _ bytes _ _ => bytes ≠ none
  | _ => True

end WireCall

def Fits (buf : Buf) (offset length : Int) : Prop :=
  0 ≤ offset ∧ 0 ≤ length ∧ offset + length ≤ bufLen buf

/-- The call succeeds exactly for ranges inside the view, touches nothing but the range
and fails without any effect. -/
structure Safe (call : WireCall) (buf : Buf) (offset : Int) : Prop where
  succeeds : Fits buf offset call.length → ∃ outcome, call.run buf offset = .ok outcome ∧
    outcome.result = call.length ∧
    outcome.buf.bytes = patch buf.bytes offset.toNat
      (call.items (slice buf.bytes offset.toNat call.length.toNat)) ∧
    outcome.out = call.after offset (slice buf.bytes offset.toNat call.length.toNat)
  fails : ¬ Fits buf offset call.length → ∃ outcome, call.run buf offset = .ok outcome ∧
    outcome.result < 0 ∧ outcome.buf = buf ∧ outcome.out = call.before

/-- The sum wraps, or a negative length has an effect. -/
def Escapes (call : WireCall) (buf : Buf) (offset : Int) : Prop :=
  0 ≤ offset ∧ (2 ^ 31 ≤ offset + call.length ∨
    call.length < 0 ∧ offset + call.length ≤ bufLen buf ∧ call.Stores offset)

theorem addInt_wraps (first second : Int) (large : 2 ^ 31 ≤ first + second)
    (bound : first + second < 2 ^ 32) : addInt first second < 0 := by
  rw [addInt, BitVec.toInt_ofInt, Int.bmod_def]
  omega

/-- What the comparison of `wire.c` lets through. -/
theorem passes_iff (buf : Buf) (offset length : Int) (offsetLow : -2 ^ 31 ≤ offset)
    (offsetHigh : offset < 2 ^ 31) (lengthLow : -2 ^ 31 ≤ length) (lengthHigh : length < 2 ^ 31) :
    ¬ OutOfBounds buf offset length ↔
      0 ≤ offset ∧ (2 ^ 31 ≤ offset + length ∨ offset + length ≤ bufLen buf) := by
  have room : 0 ≤ bufLen buf := Int.natCast_nonneg _
  unfold OutOfBounds
  by_cases start : 0 ≤ offset
  · by_cases wraps : 2 ^ 31 ≤ offset + length
    · have negative := addInt_wraps offset length wraps (by omega)
      constructor
      · intro _
        exact ⟨start, .inl wraps⟩
      · rintro - (before | beyond) <;> omega
    · rw [addInt_small offset length (by omega) (by omega)]
      omega
  · constructor
    · intro inside
      exact absurd (Or.inl (by omega)) inside
    · rintro ⟨again, -⟩
      exact absurd again start

theorem length_int (call : WireCall) : -2 ^ 31 ≤ call.length ∧ call.length < 2 ^ 31 := by
  cases call with
  | writeBytes _ length _ => exact ⟨length.le_toInt, length.toInt_lt⟩
  | readBytes _ length => exact ⟨length.le_toInt, length.toInt_lt⟩
  | readBytesCopy _ _ length _ => exact ⟨length.le_toInt, length.toInt_lt⟩
  | _ => simp [WireCall.length]

section Families

variable (buf : Buf) (offset : Int)

theorem stored_refused (items : List UInt8) (outside : OutOfBounds buf offset items.length) :
    stored (writeWith buf offset items) = .ok ⟨-1, buf, .null⟩ := by
  rw [writeWith, if_pos outside]
  rfl

theorem stored_fits (items : List UInt8) (fits : Fits buf offset items.length) :
    ∃ outcome, stored (writeWith buf offset items) = .ok outcome ∧
      outcome.result = items.length ∧
      outcome.buf.bytes = patch buf.bytes offset.toNat items ∧ outcome.out = .null := by
  obtain ⟨start, -, inside⟩ := fits
  obtain ⟨position, rfl⟩ := Int.eq_ofNat_of_zero_le start
  unfold bufLen at inside
  obtain ⟨after, written, bytes⟩ := writeWith_inside buf position items (by omega)
  refine ⟨⟨items.length, after, .null⟩, ?_, rfl, bytes, rfl⟩
  rw [stored, written]
  rfl

/-- Past the comparison the store leaves the view. -/
theorem stored_faults (items : List UInt8) (passes : ¬ OutOfBounds buf offset items.length)
    (beyond : bufLen buf < offset + items.length) :
    stored (writeWith buf offset items) = .error .write := by
  have outside : ¬ (0 ≤ offset ∧ offset + items.length ≤ bufLen buf) := by omega
  rw [writeWith, if_neg passes, storeBuf, dif_neg outside]
  rfl

variable {α : Type} (wrap : α → Out) (width : Nat) (decode : List UInt8 → α) (value : Option α)

theorem fetched_refused (outside : OutOfBounds buf offset width) :
    fetched wrap width decode value buf offset = .ok ⟨-1, buf, value.elim .null wrap⟩ := by
  cases value with
  | none => simp [fetched, readNull, outside]
  | some old =>
      rw [fetched, readWith, if_pos outside]
      rfl

theorem fetched_fits (fits : Fits buf offset width) (passes : ¬ OutOfBounds buf offset width) :
    fetched wrap width decode value buf offset = .ok ⟨width, buf,
      value.elim .null fun _ => wrap (decode (slice buf.bytes offset.toNat width))⟩ := by
  cases value with
  | none => simp [fetched, readNull, passes]
  | some old =>
      rw [fetched, readWith, if_neg passes, load_inside buf offset width fits.1 fits.2.2]
      rfl

theorem fetched_beyond (passes : ¬ OutOfBounds buf offset width)
    (beyond : bufLen buf < offset + width) (outcome : Outcome)
    (ended : fetched wrap width decode value buf offset = .ok outcome) : outcome.result = width := by
  cases value with
  | none =>
      simp only [fetched, readNull, passes, ↓reduceIte, Except.ok.injEq] at ended
      rw [← ended]
  | some old =>
      have outside : ¬ (0 ≤ offset ∧ offset + width ≤ bufLen buf) := by omega
      rw [fetched, readWith, if_neg passes, load, if_neg outside] at ended
      cases ended

end Families

section Calls

variable (buf : Buf) (offset : Int)

theorem run_refused (call : WireCall) (outside : OutOfBounds buf offset call.length) :
    call.run buf offset = .ok ⟨-1, buf, call.before⟩ := by
  cases call with
  | writeU8 value => exact stored_refused buf offset [value] outside
  | writeLe16 value => exact stored_refused buf offset (le16 value) outside
  | writeBe16 value => exact stored_refused buf offset (be16 value) outside
  | writeLe32 value => exact stored_refused buf offset (le32 value) outside
  | writeBe32 value => exact stored_refused buf offset (be32 value) outside
  | writeEtherAddr addr => exact stored_refused buf offset addr.bytes outside
  | writeBytes bytes length room =>
      have outside' : OutOfBounds buf offset length.toInt := outside
      simp [WireCall.run, stored, writeBytes, outside', WireCall.before, Except.map]
  | readU8 value => exact fetched_refused buf offset .u8 1 _ value outside
  | readLe16 value => exact fetched_refused buf offset .u16 2 _ value outside
  | readBe16 value => exact fetched_refused buf offset .u16 2 _ value outside
  | readLe32 value => exact fetched_refused buf offset .u32 4 _ value outside
  | readBe32 value => exact fetched_refused buf offset .u32 4 _ value outside
  | readEtherAddr addr => exact fetched_refused buf offset .etherAddr 6 _ addr outside
  | readBytes bytes length =>
      have outside' : OutOfBounds buf offset length.toInt := outside
      cases bytes <;> simp [WireCall.run, readBytes, outside', WireCall.before]
  | readBytesCopy n bytes length room =>
      have outside' : OutOfBounds buf offset length.toInt := outside
      cases bytes <;>
        simp [WireCall.run, readBytes, readBytesCopy, outside', WireCall.before, Except.map]

/-- Bytes put back where they came from. -/
theorem patch_slice (bytes : List UInt8) (start count : Nat) (inside : start + count ≤ bytes.length) :
    patch bytes start (slice bytes start count) = bytes := by
  have length := slice_length bytes start count inside
  rw [patch, length, slice, List.append_assoc, ← List.drop_drop, List.take_append_drop,
    List.take_append_drop]

/-- A read leaves the view as it is, in the words of `Safe`. -/
theorem unchanged_range (length : Int) (fits : Fits buf offset length) :
    buf.bytes = patch buf.bytes offset.toNat (slice buf.bytes offset.toNat length.toNat) := by
  obtain ⟨start, count, inside⟩ := fits
  unfold bufLen at inside
  rw [patch_slice]
  omega

theorem fetched_safe {α : Type} (wrap : α → Out) (width : Nat) (decode : List UInt8 → α)
    (value : Option α) (fits : Fits buf offset width) (passes : ¬ OutOfBounds buf offset width) :
    ∃ outcome, fetched wrap width decode value buf offset = .ok outcome ∧
      outcome.result = width ∧
      outcome.buf.bytes = patch buf.bytes offset.toNat (slice buf.bytes offset.toNat width) ∧
      outcome.out =
        value.elim .null fun _ => wrap (decode (slice buf.bytes offset.toNat width)) :=
  ⟨_, fetched_fits buf offset wrap width decode value fits passes, rfl,
    unchanged_range buf offset width fits, rfl⟩

theorem slice_count (bytes : Buf) (length : Int) (count : 0 ≤ length)
    (room : length ≤ bufLen bytes) :
    ((slice bytes.bytes 0 length.toNat).length : Int) = length := by
  unfold bufLen at room
  rw [slice_length _ _ _ (by omega)]
  omega

/-- With a length that is not negative `write_bytes` is one more of the writers. -/
theorem writeBytes_writeWith (bytes : Buf) (length : Int) (count : 0 ≤ length)
    (room : length ≤ bufLen bytes) :
    writeBytes buf offset bytes length = writeWith buf offset (slice bytes.bytes 0 length.toNat) := by
  have source : load bytes 0 length.toNat = .ok (slice bytes.bytes 0 length.toNat) := by
    rw [load_inside bytes 0 _ (by decide) (by omega)]
    rfl
  rw [writeBytes, writeWith, slice_count bytes length count room, if_neg (not_lt.mpr count), source, except_ok_bind]

theorem readBytesCopy_fits {n : Nat} (old : Fixed UInt8 n) (length : Int) (room : length ≤ n)
    (fits : Fits buf offset length) (passes : ¬ OutOfBounds buf offset length) :
    ∃ after, readBytesCopy buf offset old length = .ok (some after) ∧
      after.toList = slice buf.bytes offset.toNat length.toNat ++
        old.toList.drop (slice buf.bytes offset.toNat length.toNat).length := by
  obtain ⟨start, count, inside⟩ := fits
  have wide : (slice buf.bytes offset.toNat length.toNat).length = length.toNat := by
    unfold bufLen at inside
    exact slice_length _ _ _ (by omega)
  obtain ⟨after, stores⟩ := Option.isSome_iff_exists.mp (old.store_isSome 0
    (slice buf.bytes offset.toNat length.toNat) (by omega))
  refine ⟨after, ?_, ?_⟩
  · simp only [readBytesCopy, passes, ↓reduceIte, not_lt.mpr count,
      load_inside buf offset length.toNat start (by omega), except_ok_bind, storeField, stores,
      except_pure]
  · have content := Fixed.store_toList old after 0 _ stores
    rwa [List.take_zero, List.nil_append, Nat.zero_add] at content

theorem run_fits (call : WireCall) (fits : Fits buf offset call.length)
    (passes : ¬ OutOfBounds buf offset call.length) :
    ∃ outcome, call.run buf offset = .ok outcome ∧ outcome.result = call.length ∧
      outcome.buf.bytes = patch buf.bytes offset.toNat
        (call.items (slice buf.bytes offset.toNat call.length.toNat)) ∧
      outcome.out = call.after offset (slice buf.bytes offset.toNat call.length.toNat) := by
  cases call with
  | writeU8 value => exact stored_fits buf offset [value] fits
  | writeLe16 value => exact stored_fits buf offset (le16 value) fits
  | writeBe16 value => exact stored_fits buf offset (be16 value) fits
  | writeLe32 value => exact stored_fits buf offset (le32 value) fits
  | writeBe32 value => exact stored_fits buf offset (be32 value) fits
  | writeEtherAddr addr => exact stored_fits buf offset addr.bytes fits
  | writeBytes bytes length room =>
      have count : 0 ≤ length.toInt := fits.2.1
      have wide := slice_count bytes length.toInt count room
      obtain ⟨outcome, ended, result, content, out⟩ := stored_fits buf offset
        (slice bytes.bytes 0 length.toInt.toNat) (by rw [wide]; exact fits)
      rw [← writeBytes_writeWith buf offset bytes length.toInt count room] at ended
      exact ⟨outcome, ended, result.trans wide, content, out⟩
  | readU8 value => exact fetched_safe buf offset .u8 1 _ value fits passes
  | readLe16 value => exact fetched_safe buf offset .u16 2 _ value fits passes
  | readBe16 value => exact fetched_safe buf offset .u16 2 _ value fits passes
  | readLe32 value => exact fetched_safe buf offset .u32 4 _ value fits passes
  | readBe32 value => exact fetched_safe buf offset .u32 4 _ value fits passes
  | readEtherAddr addr => exact fetched_safe buf offset .etherAddr 6 _ addr fits passes
  | readBytes bytes length =>
      have passes' : ¬ OutOfBounds buf offset length.toInt := passes
      have kept := unchanged_range buf offset length.toInt fits
      cases bytes with
      | none =>
          exact ⟨⟨length.toInt, buf, .null⟩, by simp [WireCall.run, readBytes, passes'], rfl, kept,
            rfl⟩
      | some old =>
          exact ⟨⟨length.toInt, buf, .pointer offset⟩, by simp [WireCall.run, readBytes, passes'],
            rfl, kept, rfl⟩
  | readBytesCopy n bytes length room =>
      have passes' : ¬ OutOfBounds buf offset length.toInt := passes
      have kept := unchanged_range buf offset length.toInt fits
      cases bytes with
      | none =>
          exact ⟨⟨length.toInt, buf, .null⟩, by simp [WireCall.run, readBytes, passes'], rfl, kept,
            rfl⟩
      | some old =>
          obtain ⟨after, copied, content⟩ :=
            readBytesCopy_fits buf offset old length.toInt room fits passes
          refine ⟨⟨length.toInt, buf, .array after.toList⟩, ?_, rfl, kept,
            congrArg Out.array content⟩
          rw [WireCall.run, copied]
          rfl

/-- A range that passes although it leaves the view is never reported with a negative
result: the access faults, or the call returns its length. -/
theorem run_wraps (call : WireCall) (passes : ¬ OutOfBounds buf offset call.length)
    (beyond : bufLen buf < offset + call.length) (count : 0 ≤ call.length) (outcome : Outcome)
    (ended : call.run buf offset = .ok outcome) : 0 ≤ outcome.result := by
  have fixed : ∀ width : Nat, outcome.result = width → 0 ≤ outcome.result := by
    intro width same
    omega
  have faults : ∀ items : List UInt8, ¬ OutOfBounds buf offset items.length →
      bufLen buf < offset + items.length →
        stored (writeWith buf offset items) = .ok outcome → 0 ≤ outcome.result := by
    intro items passed outside stops
    rw [stored_faults buf offset items passed outside] at stops
    cases stops
  cases call with
  | writeU8 value => exact faults [value] passes beyond ended
  | writeLe16 value => exact faults (le16 value) passes beyond ended
  | writeBe16 value => exact faults (be16 value) passes beyond ended
  | writeLe32 value => exact faults (le32 value) passes beyond ended
  | writeBe32 value => exact faults (be32 value) passes beyond ended
  | writeEtherAddr addr => exact faults addr.bytes passes beyond ended
  | writeBytes bytes length room =>
      have count' : 0 ≤ length.toInt := count
      have wide := slice_count bytes length.toInt count' room
      rw [WireCall.run, writeBytes_writeWith buf offset bytes length.toInt count' room] at ended
      exact faults (slice bytes.bytes 0 length.toInt.toNat) (by rw [wide]; exact passes)
        (by rw [wide]; exact beyond) ended
  | readU8 value => exact fixed 1 (fetched_beyond buf offset _ 1 _ value passes beyond outcome ended)
  | readLe16 value => exact fixed 2 (fetched_beyond buf offset _ 2 _ value passes beyond outcome ended)
  | readBe16 value => exact fixed 2 (fetched_beyond buf offset _ 2 _ value passes beyond outcome ended)
  | readLe32 value => exact fixed 4 (fetched_beyond buf offset _ 4 _ value passes beyond outcome ended)
  | readBe32 value => exact fixed 4 (fetched_beyond buf offset _ 4 _ value passes beyond outcome ended)
  | readEtherAddr addr =>
      exact fixed 6 (fetched_beyond buf offset _ 6 _ addr passes beyond outcome ended)
  | readBytes bytes length =>
      have passes' : ¬ OutOfBounds buf offset length.toInt := passes
      have count' : 0 ≤ length.toInt := count
      cases bytes <;>
        simp only [WireCall.run, readBytes, passes', ↓reduceIte, Except.ok.injEq] at ended <;>
        rw [← ended] <;> exact count'
  | readBytesCopy n bytes length room =>
      have passes' : ¬ OutOfBounds buf offset length.toInt := passes
      have beyond' : bufLen buf < offset + length.toInt := beyond
      have count' : 0 ≤ length.toInt := count
      cases bytes with
      | none =>
          simp only [WireCall.run, readBytes, passes', ↓reduceIte, Except.ok.injEq] at ended
          rw [← ended]
          exact count'
      | some old =>
          have outside : ¬ (0 ≤ offset ∧ offset + length.toInt.toNat ≤ bufLen buf) := by omega
          rw [WireCall.run, readBytesCopy, if_neg passes', if_neg (not_lt.mpr count'), load,
            if_neg outside] at ended
          cases ended

/-- A negative length that passes: an effect on the output argument or a fault, unless
there is nothing to store. -/
theorem run_negative (call : WireCall) (passes : ¬ OutOfBounds buf offset call.length)
    (negative : call.length < 0) :
    (call.Stores offset → ∀ outcome, call.run buf offset = .ok outcome →
      outcome.out ≠ call.before) ∧
    (¬ call.Stores offset → call.run buf offset = .ok ⟨call.length, buf, call.before⟩) := by
  cases call with
  | writeBytes bytes length room =>
      have passes' : ¬ OutOfBounds buf offset length.toInt := passes
      have negative' : length.toInt < 0 := negative
      refine ⟨fun _ outcome ended => ?_, fun never => absurd trivial never⟩
      rw [WireCall.run, stored, writeBytes, if_neg passes', if_pos negative'] at ended
      cases ended
  | readBytes bytes length =>
      have passes' : ¬ OutOfBounds buf offset length.toInt := passes
      cases bytes with
      | none =>
          refine ⟨fun stores => absurd rfl stores.1, fun _ => ?_⟩
          simp [WireCall.run, readBytes, passes', WireCall.length, WireCall.before]
      | some old =>
          constructor
          · intro stores outcome ended same
            simp only [WireCall.run, readBytes, passes', ↓reduceIte, Except.ok.injEq] at ended
            rw [← ended] at same
            have equal : offset = old := by simpa [WireCall.before] using same
            exact stores.2 (congrArg some equal.symm)
          · intro still
            obtain rfl : old = offset := by
              by_contra other
              exact still ⟨by simp, by simpa using other⟩
            simp [WireCall.run, readBytes, passes', WireCall.length, WireCall.before]
  | readBytesCopy n bytes length room =>
      have passes' : ¬ OutOfBounds buf offset length.toInt := passes
      have negative' : length.toInt < 0 := negative
      cases bytes with
      | none =>
          refine ⟨fun stores => absurd rfl stores, fun _ => ?_⟩
          simp [WireCall.run, readBytes, passes', WireCall.length, WireCall.before]
      | some old =>
          refine ⟨fun _ outcome ended => ?_, fun never => absurd (by simp [WireCall.Stores]) never⟩
          rw [WireCall.run, readBytesCopy, if_neg passes', if_pos negative'] at ended
          cases ended
  | _ => simp [WireCall.length] at negative

end Calls

/-- Every reading and writing function is safe on exactly the arguments on which the sum
does not wrap and no negative length has an effect. -/
theorem wire_safe_iff (call : WireCall) (buf : Buf) (offset : Int32) :
    Safe call buf offset.toInt ↔ ¬ Escapes call buf offset.toInt := by
  obtain ⟨lengthLow, lengthHigh⟩ := length_int call
  have passes := passes_iff buf offset.toInt call.length offset.le_toInt offset.toInt_lt lengthLow
    lengthHigh
  have small := buf.small
  have room : 0 ≤ bufLen buf ∧ bufLen buf < 2 ^ 31 := by
    unfold bufLen
    omega
  have offsetHigh := offset.toInt_lt
  constructor
  · rintro ⟨-, fails⟩ ⟨start, wraps | ⟨negative, inside, stores⟩⟩
    · obtain ⟨outcome, ended, below, -⟩ := fails fun fits => by
        have within := fits.2.2
        omega
      have result := run_wraps buf offset.toInt call (passes.mpr ⟨start, .inl wraps⟩) (by omega)
        (by omega) outcome ended
      omega
    · obtain ⟨outcome, ended, -, -, same⟩ := fails fun fits => by
        have count := fits.2.1
        omega
      exact (run_negative buf offset.toInt call (passes.mpr ⟨start, .inr inside⟩) negative).1 stores
        outcome ended same
  · intro safe
    constructor
    · intro fits
      exact run_fits buf offset.toInt call fits (passes.mpr ⟨fits.1, .inr fits.2.2⟩)
    · intro misfit
      by_cases outside : OutOfBounds buf offset.toInt call.length
      · exact ⟨_, run_refused buf offset.toInt call outside, by simp, rfl, rfl⟩
      · obtain ⟨start, wraps | inside⟩ := passes.mp outside
        · exact absurd ⟨start, .inl wraps⟩ safe
        · -- Only a negative length keeps the sum inside without fitting.
          have negative : call.length < 0 := by
            by_contra count
            exact misfit ⟨start, not_lt.mp count, inside⟩
          have still : ¬ call.Stores offset.toInt := fun stores =>
            safe ⟨start, .inr ⟨negative, inside, stores⟩⟩
          exact ⟨_, (run_negative buf offset.toInt call outside negative).2 still, negative, rfl, rfl⟩

/-- One byte at the largest offset of an empty view. -/
theorem read_u8_escapes : ¬ Safe (.readU8 (some 0)) ⟨[], by decide⟩ (2147483647 : Int32).toInt := by
  rintro ⟨-, fails⟩
  obtain ⟨outcome, ended, -⟩ := fails (by rintro ⟨-, -, inside⟩; revert inside; decide)
  have faults : WireCall.run ⟨[], by decide⟩ (2147483647 : Int32).toInt (.readU8 (some 0)) =
      .error .read := by
    decide +kernel
  rw [faults] at ended
  cases ended

end Owl.WireSafety
