import Mathlib.Data.BitVec
import Mathlib.Logic.Function.Basic

/-!
Cyclic redundancy checks in reflected form over a register of any width. The
register shifts towards its lowest bit and takes the polynomial in when the bit
that leaves it differs from the message bit. A step is linear in register and
message together, so a run over a few bits splits into the run of their
difference to the low end of the register, which is what a lookup table holds,
and a plain shift. With the top bit of the polynomial set no two registers
become the same.
-/

namespace Owl.ReflectedCrc

variable {w : Nat} (poly : BitVec w)

def feedBit (crc : BitVec w) (bit : Bool) : BitVec w :=
  if (crc.getLsbD 0 ^^ bit) = true then (crc >>> 1) ^^^ poly else crc >>> 1

def feedBits (crc : BitVec w) (bits : List Bool) : BitVec w := bits.foldl (feedBit poly) crc

def lowBits (count : Nat) (word : BitVec w) : List Bool := (List.range count).map word.getLsbD

@[simp] theorem lowBits_length (count : Nat) (word : BitVec w) :
    (lowBits count word).length = count := by
  simp [lowBits]

theorem lowBits_succ (count : Nat) (word : BitVec w) :
    lowBits (count + 1) word = word.getLsbD 0 :: lowBits count (word >>> 1) := by
  simp [lowBits, List.range_succ_eq_map, Function.comp_def, Nat.add_comm]

theorem feedBit_xor (first second : BitVec w) (left right : Bool) :
    feedBit poly (first ^^^ second) (left ^^ right) =
      feedBit poly first left ^^^ feedBit poly second right := by
  have swap : ((first ^^^ second).getLsbD 0 ^^ (left ^^ right)) =
      ((first.getLsbD 0 ^^ left) ^^ (second.getLsbD 0 ^^ right)) := by
    rw [BitVec.getLsbD_xor, Bool.xor_assoc, Bool.xor_assoc, Bool.xor_left_comm left]
  unfold feedBit
  rw [swap, BitVec.ushiftRight_xor_distrib]
  generalize first >>> 1 = one
  generalize second >>> 1 = two
  cases first.getLsbD 0 ^^ left <;> cases second.getLsbD 0 ^^ right <;>
    simp only [Bool.xor_true, Bool.xor_false, Bool.not_true, Bool.not_false, Bool.false_eq_true,
      ↓reduceIte]
  · rw [BitVec.xor_assoc]
  · rw [BitVec.xor_assoc, BitVec.xor_assoc, BitVec.xor_comm two]
  · -- both runs take the polynomial in, and it cancels
    rw [BitVec.xor_assoc, BitVec.xor_comm two poly, ← BitVec.xor_assoc poly, BitVec.xor_self,
      BitVec.zero_xor]

theorem feedBits_xor (left right : List Bool) (same : left.length = right.length)
    (first second : BitVec w) :
    feedBits poly (first ^^^ second) (List.zipWith xor left right) =
      feedBits poly first left ^^^ feedBits poly second right := by
  induction left generalizing right first second with
  | nil =>
      obtain rfl : right = [] := List.length_eq_zero_iff.mp same.symm
      rfl
  | cons bit rest ih =>
      cases right with
      | nil => cases same
      | cons other tail =>
          have shorter : rest.length = tail.length := Nat.succ.inj same
          have step := ih tail shorter (feedBit poly first bit) (feedBit poly second other)
          rw [← feedBit_xor] at step
          exact step

/-- A register that is fed its own low end never takes the polynomial in. -/
theorem feedBits_lowBits (count : Nat) (word : BitVec w) :
    feedBits poly word (lowBits count word) = word >>> count := by
  induction count generalizing word with
  | zero => simp [lowBits, feedBits]
  | succ count ih =>
      have plain : feedBit poly word (word.getLsbD 0) = word >>> 1 := by
        simp [feedBit]
      have rest := ih (word >>> 1)
      rw [← BitVec.shiftRight_add, Nat.add_comm] at rest
      rw [lowBits_succ]
      show feedBits poly (feedBit poly word (word.getLsbD 0)) _ = _
      rw [plain]
      exact rest

theorem zipWith_xor_cancel (left right : List Bool) (same : left.length = right.length) :
    List.zipWith xor (List.zipWith xor left right) right = left := by
  induction left generalizing right with
  | nil => rfl
  | cons bit rest ih =>
      cases right with
      | nil => cases same
      | cons other tail =>
          rw [List.zipWith_cons_cons, List.zipWith_cons_cons, ih tail (Nat.succ.inj same)]
          simp

/-- What table-driven implementations rest on. -/
theorem feedBits_table (crc : BitVec w) (bits : List Bool) :
    feedBits poly crc bits =
      feedBits poly 0 (List.zipWith xor bits (lowBits bits.length crc)) ^^^ crc >>> bits.length := by
  have same : bits.length = (lowBits bits.length crc).length := (lowBits_length _ _).symm
  have split := feedBits_xor poly (List.zipWith xor bits (lowBits bits.length crc))
    (lowBits bits.length crc) (by simp) 0 crc
  rw [zipWith_xor_cancel _ _ same, feedBits_lowBits] at split
  rwa [show (0 : BitVec w) ^^^ crc = crc from BitVec.zero_xor] at split

theorem feedBit_injective (top : poly.msb = true) (bit : Bool) :
    Function.Injective (feedBit poly · bit) := by
  intro first second same
  have carry : ∀ crc : BitVec w, (feedBit poly crc bit).msb = (crc.getLsbD 0 ^^ bit) := by
    intro crc
    have wide : 0 < w := by
      by_contra empty
      obtain rfl : w = 0 := by omega
      rw [BitVec.of_length_zero (x := poly)] at top
      cases top
    have clear : (crc >>> 1).msb = false := by
      rw [BitVec.msb_ushiftRight]
      simp
    unfold feedBit
    cases leaves : crc.getLsbD 0 ^^ bit <;> simp [clear, top]
  have shifted : ∀ crc : BitVec w, crc >>> 1 =
      if (feedBit poly crc bit).msb = true then feedBit poly crc bit ^^^ poly
      else feedBit poly crc bit := by
    intro crc
    rw [carry]
    unfold feedBit
    cases crc.getLsbD 0 ^^ bit with
    | false => simp
    | true => simp only [↓reduceIte, BitVec.xor_assoc, BitVec.xor_self, BitVec.xor_zero]
  have same' : feedBit poly first bit = feedBit poly second bit := same
  have low : first.getLsbD 0 = second.getLsbD 0 := by
    have leaves := carry first
    rw [same', carry second] at leaves
    simpa using leaves.symm
  have high : first >>> 1 = second >>> 1 := by
    rw [shifted first, shifted second, same']
  apply BitVec.eq_of_getLsbD_eq
  intro index inside
  cases index with
  | zero => exact low
  | succ index =>
      have bits := congrArg (BitVec.getLsbD · index) high
      simpa [Nat.add_comm] using bits

theorem feedBits_injective (top : poly.msb = true) (bits : List Bool) :
    Function.Injective (feedBits poly · bits) := by
  induction bits with
  | nil => exact fun _ _ same => same
  | cons bit rest ih => exact ih.comp (feedBit_injective poly top bit)

theorem feedBits_append (crc : BitVec w) (before after : List Bool) :
    feedBits poly crc (before ++ after) = feedBits poly (feedBits poly crc before) after :=
  List.foldl_append

end Owl.ReflectedCrc
