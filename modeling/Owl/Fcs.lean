import Owl.Tx

/-!
The frame check sequence of the two frame builders. A receiver computes it over
the 802.11 frame, which starts behind the radiotap header; the builders hand
`ieee80211_add_fcs` the start of their buffer instead. The nine bytes of the
radiotap header move the register away from its initial value, and no two
registers agree again behind the same bytes, so the sequence is never the one
that the receiver computes.
-/

namespace Owl.Fcs

open Bytes Ether State Frames Crc32 Tx Wire

/-- The bytes behind the radiotap header, whose length is its third and fourth byte. -/
def ieee80211Frame (bytes : List UInt8) : List UInt8 :=
  bytes.drop (ofLe16 (slice bytes 2 2)).toNat

/-- The last four bytes are the checksum of the 802.11 frame up to them. -/
def FcsVerifies (bytes : List UInt8) : Prop :=
  bytes.drop (bytes.length - 4) =
    le32 (crc32Bitwise ((ieee80211Frame bytes).take ((ieee80211Frame bytes).length - 4)))

instance (bytes : List UInt8) : Decidable (FcsVerifies bytes) :=
  inferInstanceAs (Decidable (_ = _))

theorem le32_injective : Function.Injective le32 := by
  intro first second same
  have words := congrArg (fun bytes => ofLe32 (bytes ++ [])) same
  rwa [ofLe32_le32, ofLe32_le32] at words

theorem ieee80211Frame_radiotap (mac : List UInt8) :
    ieee80211Frame (ieee80211InitRadiotapHeader ++ mac) = mac := rfl

theorem withFcs_not_verifies (state : Ieee80211State) (enabled : state.fcs = true)
    (mac : List UInt8) :
    ¬ FcsVerifies (withFcs state (ieee80211InitRadiotapHeader ++ mac)) := by
  have moved : ieee80211InitRadiotapHeader.foldl crc32Byte 0xffffffff ≠ 0xffffffff := by
    decide +kernel
  intro verifies
  unfold FcsVerifies at verifies
  rw [withFcs, if_pos enabled, ieee80211AddFcs] at verifies
  generalize sum : crc32 (ieee80211InitRadiotapHeader ++ mac) = crc at verifies
  have body : ieee80211Frame (ieee80211InitRadiotapHeader ++ mac ++ le32 crc) = mac ++ le32 crc := by
    rw [List.append_assoc, ieee80211Frame_radiotap]
  have whole : (ieee80211InitRadiotapHeader ++ mac ++ le32 crc).length - 4 =
      (ieee80211InitRadiotapHeader ++ mac).length := by
    rw [List.length_append, le32_length, Nat.add_sub_cancel]
  have inner : (mac ++ le32 crc).length - 4 = mac.length := by
    rw [List.length_append, le32_length, Nat.add_sub_cancel]
  rw [body, whole, inner, List.drop_left, List.take_left] at verifies
  exact crc32_append_ne _ mac moved (sum.trans (le32_injective verifies))

theorem awdlInitFullActionFrame_fcs (env : TxEnv) (state : AwdlState)
    (ieee80211State : Ieee80211State) (type : ActionType) (frame : List UInt8)
    (after : Ieee80211State)
    (built : awdlInitFullActionFrame env state ieee80211State type = .ok (frame, after)) :
    ∃ mac, after.fcs = ieee80211State.fcs ∧
      frame = withFcs after (ieee80211InitRadiotapHeader ++ mac) := by
  unfold awdlInitFullActionFrame at built
  cases type with
  | psf =>
      simp only [reduceCtorEq, ↓reduceIte, except_ok_bind, except_pure, Except.ok.injEq,
        Prod.mk.injEq, List.append_assoc] at built
      obtain ⟨bytes, rfl⟩ := built
      exact ⟨_, rfl, bytes.symm⟩
  | mif =>
      cases name : awdlInitArpaTlv state with
      | error =>
          simp only [name, ↓reduceIte] at built
          cases built
      | ok arpa =>
          simp only [name, ↓reduceIte, except_ok_bind, except_pure, Except.ok.injEq,
            Prod.mk.injEq, List.append_assoc] at built
          obtain ⟨bytes, rfl⟩ := built
          exact ⟨_, rfl, bytes.symm⟩

/-- With the sequence switched on, neither builder makes a frame that a receiver
accepts. -/
theorem fcs_never_verifies (env : TxEnv) (state : AwdlState) (ieee80211State : Ieee80211State)
    (type : ActionType) (src dst : EtherAddr) (payload : List UInt8)
    (enabled : ieee80211State.fcs = true) :
    (¬ ∃ frame after, awdlInitFullActionFrame env state ieee80211State type = .ok (frame, after) ∧
      FcsVerifies frame) ∧
    ¬ FcsVerifies (awdlInitFullDataFrame src dst payload state ieee80211State).1 := by
  constructor
  · rintro ⟨frame, after, built, verifies⟩
    obtain ⟨mac, same, rfl⟩ := awdlInitFullActionFrame_fcs env state ieee80211State type frame after
      built
    exact withFcs_not_verifies after (same.trans enabled) mac verifies
  · simp only [awdlInitFullDataFrame, List.append_assoc]
    exact withFcs_not_verifies _ enabled _

def plainState : AwdlState :=
  awdlInitState (Fixed.replicate _ 0) [0x6f, 0x77, 0x6c] ⟨2, 0, 0, 0, 0, 1⟩ Channel.chanNull 0

/-- An empty data frame of a fresh state. -/
theorem fcs_empty_payload : ¬ FcsVerifies
    (awdlInitFullDataFrame ⟨2, 0, 0, 0, 0, 1⟩ etherBroadcast [] plainState ⟨0, true⟩).1 := by
  decide +kernel

theorem fcs_never_verifies_mif :
    (∃ frame after, awdlInitFullActionFrame ⟨.bits64, 0, 0⟩ plainState ⟨0, true⟩ .mif =
      .ok (frame, after) ∧ ¬ FcsVerifies frame) ∧
    ¬ FcsVerifies (awdlInitFullDataFrame ⟨2, 0, 0, 0, 0, 1⟩ etherBroadcast [0x60] plainState
      ⟨0, true⟩).1 := by
  obtain ⟨action, data⟩ := fcs_never_verifies ⟨.bits64, 0, 0⟩ plainState ⟨0, true⟩ .mif
    ⟨2, 0, 0, 0, 0, 1⟩ etherBroadcast [0x60] rfl
  refine ⟨?_, data⟩
  have arpa : awdlInitFullActionFrame ⟨.bits64, 0, 0⟩ plainState ⟨0, true⟩ .mif =
    .ok (_, _) := rfl
  exact ⟨_, _, arpa, fun verifies => action ⟨_, _, arpa, verifies⟩⟩

end Owl.Fcs
