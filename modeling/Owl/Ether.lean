import Owl.Bytes
import Mathlib.Order.Basic
import Mathlib.Order.Compare
import Mathlib.Tactic.Ring

/-!
`struct ether_addr`, the comparison of `election.c` and the mapping of
`netutils.c` from an Ethernet address to the IPv6 link-local address that the
daemon installs as a neighbour. `memcmp` reports only the sign of its result,
so it is modelled by an `Ordering`.
-/

namespace Owl.Ether

structure EtherAddr where
  octet0 : UInt8
  octet1 : UInt8
  octet2 : UInt8
  octet3 : UInt8
  octet4 : UInt8
  octet5 : UInt8
  deriving DecidableEq, Repr

def EtherAddr.bytes (addr : EtherAddr) : List UInt8 :=
  [addr.octet0, addr.octet1, addr.octet2, addr.octet3, addr.octet4, addr.octet5]

def EtherAddr.ofBytes (bytes : List UInt8) : EtherAddr :=
  ⟨Bytes.byteAt bytes 0, Bytes.byteAt bytes 1, Bytes.byteAt bytes 2,
    Bytes.byteAt bytes 3, Bytes.byteAt bytes 4, Bytes.byteAt bytes 5⟩

def memcmp : List UInt8 → List UInt8 → Ordering
  | left :: lefts, right :: rights =>
      if left < right then .lt else if right < left then .gt else memcmp lefts rights
  | _, _ => .eq

def compareEtherAddr (a b : EtherAddr) : Ordering := memcmp a.bytes b.bytes

def EtherAddr.value (addr : EtherAddr) : Nat :=
  ((((addr.octet0.toNat * 256 + addr.octet1.toNat) * 256 + addr.octet2.toNat) * 256 +
    addr.octet3.toNat) * 256 + addr.octet4.toNat) * 256 + addr.octet5.toNat

@[simp] theorem bytes_length (addr : EtherAddr) : addr.bytes.length = 6 := rfl

theorem ofBytes_bytes (addr : EtherAddr) (rest : List UInt8) :
    EtherAddr.ofBytes (addr.bytes ++ rest) = addr := rfl

theorem value_injective : Function.Injective EtherAddr.value := by
  intro a b same
  have a1 := a.octet1.toNat_lt
  have a2 := a.octet2.toNat_lt
  have a3 := a.octet3.toNat_lt
  have a4 := a.octet4.toNat_lt
  have a5 := a.octet5.toNat_lt
  have b1 := b.octet1.toNat_lt
  have b2 := b.octet2.toNat_lt
  have b3 := b.octet3.toNat_lt
  have b4 := b.octet4.toNat_lt
  have b5 := b.octet5.toNat_lt
  unfold EtherAddr.value at same
  cases a
  cases b
  simp only [EtherAddr.mk.injEq, ← UInt8.toNat_inj]
  simp only at *
  omega

/-- The base-256 number of a byte string; `memcmp` on strings of one length
compares these numbers. -/
def number : List UInt8 → Nat
  | [] => 0
  | byte :: rest => byte.toNat * 256 ^ rest.length + number rest

theorem number_lt (bytes : List UInt8) : number bytes < 256 ^ bytes.length := by
  induction bytes with
  | nil => simp [number]
  | cons byte rest ih =>
      have bound : byte.toNat + 1 ≤ 256 := byte.toNat_lt
      calc byte.toNat * 256 ^ rest.length + number rest
          < byte.toNat * 256 ^ rest.length + 256 ^ rest.length := by omega
        _ = (byte.toNat + 1) * 256 ^ rest.length := by ring
        _ ≤ 256 * 256 ^ rest.length := Nat.mul_le_mul_right _ bound
        _ = 256 ^ (byte :: rest).length := by rw [List.length_cons, Nat.pow_succ]; ring

theorem number_cons_lt (left right : UInt8) (lefts rights : List UInt8)
    (lengths : lefts.length = rights.length) (lower : left < right) :
    number (left :: lefts) < number (right :: rights) := by
  have step : left.toNat + 1 ≤ right.toNat := UInt8.lt_iff_toNat_lt.mp lower
  calc number (left :: lefts)
      < left.toNat * 256 ^ lefts.length + 256 ^ lefts.length :=
        Nat.add_lt_add_left (number_lt lefts) _
    _ = (left.toNat + 1) * 256 ^ rights.length := by rw [lengths]; ring
    _ ≤ right.toNat * 256 ^ rights.length := Nat.mul_le_mul_right _ step
    _ ≤ number (right :: rights) := Nat.le_add_right _ _

theorem memcmp_number (lefts rights : List UInt8) (lengths : lefts.length = rights.length) :
    memcmp lefts rights = compare (number lefts) (number rights) := by
  induction lefts generalizing rights with
  | nil =>
      cases rights with
      | nil => rfl
      | cons _ _ => simp at lengths
  | cons left lefts ih =>
      cases rights with
      | nil => simp at lengths
      | cons right rights =>
          have tails : lefts.length = rights.length := by simpa using lengths
          rw [memcmp]
          split
          case isTrue lower =>
            exact (compare_lt_iff_lt.mpr (number_cons_lt left right lefts rights tails lower)).symm
          case isFalse notLower =>
            split
            case isTrue higher =>
              exact (compare_gt_iff_gt.mpr
                (number_cons_lt right left rights lefts tails.symm higher)).symm
            case isFalse notHigher =>
              have same : left = right := by
                apply UInt8.toNat_inj.mp
                rw [UInt8.lt_iff_toNat_lt] at notLower notHigher
                omega
              subst right
              rw [ih rights tails]
              simp only [number, tails, Nat.compare_eq_ite_lt]
              simp

theorem number_bytes (addr : EtherAddr) : number addr.bytes = addr.value := by
  simp only [EtherAddr.bytes, number, EtherAddr.value, List.length_cons, List.length_nil]
  ring

/-- Addresses compare as their big-endian numbers. -/
theorem compareEtherAddr_value (a b : EtherAddr) :
    compareEtherAddr a b = compare a.value b.value := by
  rw [compareEtherAddr, memcmp_number a.bytes b.bytes rfl, number_bytes, number_bytes]

theorem compareEtherAddr_eq_iff (a b : EtherAddr) :
    compareEtherAddr a b = .eq ↔ a = b := by
  rw [compareEtherAddr_value, compare_eq_iff_eq]
  exact value_injective.eq_iff

def rfc4291Addr (eth : EtherAddr) : List UInt8 :=
  [0xfe, 0x80, 0, 0, 0, 0, 0, 0, eth.octet0 ^^^ 0x02, eth.octet1, eth.octet2, 0xff,
    0xfe, eth.octet3, eth.octet4, eth.octet5]

theorem rfc4291Addr_injective : Function.Injective rfc4291Addr := by
  intro a b same
  cases a
  cases b
  simp only [rfc4291Addr, List.cons.injEq, and_true, true_and] at same
  obtain ⟨first, rest⟩ := same
  have undone := congrArg (· ^^^ (0x02 : UInt8)) first
  simp only [UInt8.xor_assoc, UInt8.xor_self, UInt8.xor_zero] at undone
  simp [undone, rest]

end Owl.Ether
