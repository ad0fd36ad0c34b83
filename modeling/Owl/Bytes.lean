import Mathlib.Data.List.Basic
import Mathlib.Data.List.TakeDrop
import Mathlib.Data.Nat.Basic

/-!
Byte strings, fixed-size arrays and the two byte orders. A fixed array keeps
its element count as a field, so a store outside of it has no result. Words
are split and joined through their values; decoding an encoded word is the
identity, and a decoder looks only at the leading bytes of its input.
-/

namespace Owl.Bytes

structure Fixed (α : Type) (n : Nat) where
  toList : List α
  size : toList.length = n
  deriving DecidableEq

namespace Fixed

variable {α : Type} {n : Nat}

def replicate (n : Nat) (value : α) : Fixed α n :=
  ⟨List.replicate n value, List.length_replicate⟩

def store (field : Fixed α n) (offset : Nat) (items : List α) : Option (Fixed α n) :=
  if fits : offset + items.length ≤ n then
    some ⟨field.toList.take offset ++ items ++ field.toList.drop (offset + items.length), by
      have length := field.size
      simp only [List.length_append, List.length_take, List.length_drop]
      omega⟩
  else none

theorem ext_list {left right : Fixed α n} (same : left.toList = right.toList) :
    left = right := by
  cases left
  cases right
  cases same
  rfl

theorem store_isSome (field : Fixed α n) (offset : Nat) (items : List α)
    (fits : offset + items.length ≤ n) : (field.store offset items).isSome := by
  simp [store, fits]

theorem store_toList (field after : Fixed α n) (offset : Nat) (items : List α)
    (stored : field.store offset items = some after) :
    after.toList =
      field.toList.take offset ++ items ++ field.toList.drop (offset + items.length) := by
  unfold store at stored
  split at stored
  · cases stored
    rfl
  · cases stored

theorem store_one_getD (field after : Fixed α n) (offset : Nat) (item default : α)
    (stored : field.store offset [item] = some after) (index : Nat) :
    after.toList.getD index default =
      if index = offset then item else field.toList.getD index default := by
  have size := field.size
  have inside : offset < field.toList.length := by
    by_contra outside
    rw [store, dif_neg (by rw [List.length_singleton]; omega)] at stored
    cases stored
  have content : after.toList = field.toList.set offset item := by
    rw [store_toList field after offset [item] stored, List.set_eq_take_append_cons_drop,
      if_pos inside, List.append_assoc, List.singleton_append, List.length_singleton]
  rw [content, List.getD_eq_getElem?_getD, List.getD_eq_getElem?_getD]
  by_cases same : index = offset
  · subst same
    simp [inside]
  · rw [if_neg same, List.getElem?_set_ne (Ne.symm same)]

/-- Overwriting every element forgets the old content. -/
theorem store_whole (field : Fixed α n) (items : List α) (whole : items.length = n) :
    field.store 0 items = some ⟨items, whole⟩ := by
  have fits : 0 + items.length ≤ n := by omega
  simp only [store, fits, ↓reduceDIte, Option.some.injEq]
  apply ext_list
  have covered : field.toList.length ≤ items.length := by rw [field.size, whole]
  simp [covered]

/-- Two adjacent stores are one. -/
theorem store_store (field after : Fixed α n) (first second : List α)
    (stored : field.store 0 first = some after) :
    after.store first.length second = field.store 0 (first ++ second) := by
  have content := store_toList field after 0 first stored
  have size := field.size
  have fits : 0 + first.length ≤ n := by
    by_contra outside
    rw [store, dif_neg outside] at stored
    cases stored
  unfold store
  by_cases room : first.length + second.length ≤ n
  · have room' : 0 + (first ++ second).length ≤ n := by simpa using room
    simp only [room, room', ↓reduceDIte, Option.some.injEq]
    apply ext_list
    simp only [content, List.take_zero, List.nil_append, Nat.zero_add, List.take_append_of_le_length,
      Nat.le_refl, List.take_length, List.length_append, List.append_assoc, List.append_cancel_left_eq]
    rw [List.drop_append, List.drop_of_length_le (by omega), List.drop_drop, List.nil_append]
    congr 1
    omega
  · have room' : ¬ 0 + (first ++ second).length ≤ n := by simpa using room
    simp only [room, room', ↓reduceDIte]

end Fixed

def le16 (word : UInt16) : List UInt8 :=
  [word.toUInt8, (word >>> 8).toUInt8]

def be16 (word : UInt16) : List UInt8 :=
  [(word >>> 8).toUInt8, word.toUInt8]

def le32 (word : UInt32) : List UInt8 :=
  [word.toUInt8, (word >>> 8).toUInt8, (word >>> 16).toUInt8, (word >>> 24).toUInt8]

def be32 (word : UInt32) : List UInt8 :=
  [(word >>> 24).toUInt8, (word >>> 16).toUInt8, (word >>> 8).toUInt8, word.toUInt8]

def byteAt (bytes : List UInt8) (index : Nat) : UInt8 := bytes.getD index 0

def ofLe16 (bytes : List UInt8) : UInt16 :=
  UInt16.ofNat ((byteAt bytes 0).toNat + 256 * (byteAt bytes 1).toNat)

def ofBe16 (bytes : List UInt8) : UInt16 :=
  UInt16.ofNat (256 * (byteAt bytes 0).toNat + (byteAt bytes 1).toNat)

def ofLe32 (bytes : List UInt8) : UInt32 :=
  UInt32.ofNat ((byteAt bytes 0).toNat + 256 * (byteAt bytes 1).toNat +
    65536 * (byteAt bytes 2).toNat + 16777216 * (byteAt bytes 3).toNat)

def ofBe32 (bytes : List UInt8) : UInt32 :=
  UInt32.ofNat (16777216 * (byteAt bytes 0).toNat + 65536 * (byteAt bytes 1).toNat +
    256 * (byteAt bytes 2).toNat + (byteAt bytes 3).toNat)

@[simp] theorem byteAt_cons_zero (byte : UInt8) (rest : List UInt8) :
    byteAt (byte :: rest) 0 = byte := rfl

@[simp] theorem byteAt_cons_succ (byte : UInt8) (rest : List UInt8) (index : Nat) :
    byteAt (byte :: rest) (index + 1) = byteAt rest index := rfl

@[simp] theorem le16_length (word : UInt16) : (le16 word).length = 2 := rfl
@[simp] theorem be16_length (word : UInt16) : (be16 word).length = 2 := rfl
@[simp] theorem le32_length (word : UInt32) : (le32 word).length = 4 := rfl
@[simp] theorem be32_length (word : UInt32) : (be32 word).length = 4 := rfl

theorem ofLe16_le16 (word : UInt16) (rest : List UInt8) :
    ofLe16 (le16 word ++ rest) = word := by
  apply UInt16.toNat_inj.mp
  have bound := word.toNat_lt
  simp [ofLe16, le16, byteAt, Nat.shiftRight_eq_div_pow]
  omega

theorem le16_ofLe16 (low high : UInt8) : le16 (ofLe16 [low, high]) = [low, high] := by
  have lowBound := low.toNat_lt
  have highBound := high.toNat_lt
  have sum : (UInt16.ofNat (low.toNat + 256 * high.toNat)).toNat =
      low.toNat + 256 * high.toNat := by
    rw [UInt16.toNat_ofNat']
    omega
  simp only [le16, ofLe16, byteAt_cons_zero, byteAt_cons_succ, List.cons.injEq, and_true,
    ← UInt8.toNat_inj, UInt16.toNat_toUInt8, UInt16.toNat_shiftRight, sum]
  constructor
  · omega
  · show (low.toNat + 256 * high.toNat) >>> 8 % 256 = high.toNat
    rw [Nat.shiftRight_eq_div_pow]
    omega

theorem ofBe16_be16 (word : UInt16) (rest : List UInt8) :
    ofBe16 (be16 word ++ rest) = word := by
  apply UInt16.toNat_inj.mp
  have bound := word.toNat_lt
  simp [ofBe16, be16, byteAt, Nat.shiftRight_eq_div_pow]
  omega

theorem ofLe32_le32 (word : UInt32) (rest : List UInt8) :
    ofLe32 (le32 word ++ rest) = word := by
  apply UInt32.toNat_inj.mp
  have bound := word.toNat_lt
  simp [ofLe32, le32, byteAt, Nat.shiftRight_eq_div_pow]
  omega

def slice (bytes : List UInt8) (offset count : Nat) : List UInt8 :=
  (bytes.drop offset).take count

theorem slice_length (bytes : List UInt8) (offset count : Nat)
    (inside : offset + count ≤ bytes.length) : (slice bytes offset count).length = count := by
  simp only [slice, List.length_take, List.length_drop]
  omega

theorem byteAt_slice (bytes : List UInt8) (offset count index : Nat) (inside : index < count) :
    byteAt (slice bytes offset count) index = byteAt bytes (offset + index) := by
  simp [byteAt, slice, List.getElem?_drop, inside]

theorem slice_append (before middle after : List UInt8) :
    slice (before ++ (middle ++ after)) before.length middle.length = middle := by
  simp [slice]

end Owl.Bytes
