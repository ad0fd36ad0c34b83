import Owl.TlvRoundTrip

/-!
The host name from `awdl_init_state` to the name field of a receiver. `strncpy`
writes 64 bytes and ends them with NULs only when the name is shorter; the field
has one byte more, which keeps what the memory held before. `awdl_init_arpa_tlv`
takes the length from `strlen`, `read_int_string` clips at 64 bytes and adds the
NUL itself. So the last byte of the field decides about names of 64 bytes or
more, and nothing else goes wrong.
-/

namespace Owl.HostName

open Bytes Ether Channel State Peers Wire Frames Tx RxTlv TlvRoundTrip

/-- What the field holds before and after the `arpa` TLV of a node: the first 64
bytes of the host name, as a C string. -/
structure Survives (memory : Fixed UInt8 (hostNameLengthMax + 1)) (hostname : List UInt8)
    (addr : EtherAddr) (chan : AwdlChan) (now : UInt64) : Prop where
  terminated : 0 ∈ (awdlInitState memory hostname addr chan now).name.toList
  text : cString (awdlInitState memory hostname addr chan now).name.toList =
    (cString hostname).take hostNameLengthMax
  received : ∃ arpa, awdlInitArpaTlv (awdlInitState memory hostname addr chan now) = .ok arpa ∧
    ∀ (src : Peer) (val : Buf) (receiver : AwdlState), val.bytes = tlvValue arpa →
      ∃ name, awdlHandleArpaTlv src val receiver = .ok (.ok, { src with name := name }, receiver) ∧
        0 ∈ name.toList ∧ cString name.toList = (cString hostname).take hostNameLengthMax

/-- The last byte of the field, which `strncpy` does not reach. -/
def lastByte (memory : Fixed UInt8 (hostNameLengthMax + 1)) : UInt8 :=
  byteAt memory.toList hostNameLengthMax

theorem drop_lastByte (memory : Fixed UInt8 (hostNameLengthMax + 1)) :
    memory.toList.drop hostNameLengthMax = [lastByte memory] := by
  have size := memory.size
  have inside : hostNameLengthMax < memory.toList.length := by omega
  have rest : memory.toList.drop (hostNameLengthMax + 1) = [] :=
    List.drop_of_length_le (by omega)
  rw [List.drop_eq_getElem_cons inside, rest, lastByte, byteAt, List.getD_eq_getElem?_getD,
    List.getElem?_eq_getElem inside, Option.getD_some]

theorem strncpyName_short (memory : Fixed UInt8 (hostNameLengthMax + 1)) (hostname : List UInt8)
    (short : (cString hostname).length < hostNameLengthMax) :
    ∃ rest, (strncpyName memory hostname).toList = cString hostname ++ 0 :: rest := by
  obtain ⟨gap, more⟩ := Nat.exists_eq_add_of_lt short
  have filled : (List.replicate hostNameLengthMax (0 : UInt8)).take
      (hostNameLengthMax - (cString hostname).length) = 0 :: List.replicate gap 0 := by
    rw [List.take_replicate, Nat.min_eq_left (Nat.sub_le _ _), ← List.replicate_succ]
    congr 1
    omega
  refine ⟨List.replicate gap 0 ++ memory.toList.drop hostNameLengthMax, ?_⟩
  show (cString hostname ++ List.replicate hostNameLengthMax 0).take hostNameLengthMax ++ _ = _
  rw [List.take_append, List.take_of_length_le short.le, filled, List.append_assoc,
    List.cons_append]

theorem strncpyName_long (memory : Fixed UInt8 (hostNameLengthMax + 1)) (hostname : List UInt8)
    (long : hostNameLengthMax ≤ (cString hostname).length) :
    (strncpyName memory hostname).toList =
      (cString hostname).take hostNameLengthMax ++ [lastByte memory] := by
  show (cString hostname ++ List.replicate hostNameLengthMax 0).take hostNameLengthMax ++ _ = _
  rw [List.take_append_of_le_length long, drop_lastByte]

theorem mem_of_cString_short (bytes : List UInt8) (short : (cString bytes).length < bytes.length) :
    0 ∈ bytes := by
  by_contra absent
  have whole : cString bytes = bytes := by
    apply List.takeWhile_eq_self_iff.mpr
    intro byte member
    simp only [ne_eq, decide_eq_true_eq]
    rintro rfl
    exact absent member
  rw [whole] at short
  omega

/-- From a name field that ends with a NUL everything else follows. -/
theorem survives_of_text (memory : Fixed UInt8 (hostNameLengthMax + 1)) (hostname : List UInt8)
    (self : EtherAddr) (chan : AwdlChan) (now : UInt64) (rest : List UInt8)
    (field : (strncpyName memory hostname).toList =
      (cString hostname).take hostNameLengthMax ++ 0 :: rest) :
    Survives memory hostname self chan now := by
  have nonzero : ∀ byte ∈ (cString hostname).take hostNameLengthMax, byte ≠ 0 :=
    fun byte member => cString_nonzero hostname byte (List.mem_of_mem_take member)
  have terminated : 0 ∈ (awdlInitState memory hostname self chan now).name.toList := by
    show 0 ∈ (strncpyName memory hostname).toList
    rw [field]
    exact List.mem_append_right _ List.mem_cons_self
  have text : cString (awdlInitState memory hostname self chan now).name.toList =
      (cString hostname).take hostNameLengthMax := by
    show cString (strncpyName memory hostname).toList = _
    rw [field]
    exact cString_prefix _ rest nonzero
  obtain ⟨arpa, built⟩ : ∃ arpa,
      awdlInitArpaTlv (awdlInitState memory hostname self chan now) = .ok arpa := by
    rw [awdlInitArpaTlv, strlen, if_pos terminated]
    exact ⟨_, rfl⟩
  refine ⟨terminated, text, arpa, built, ?_⟩
  intro src val receiver bytes
  obtain ⟨name, same, handled⟩ := handle_arpa _ src val receiver terminated arpa built bytes
  rw [text] at same
  refine ⟨name, handled, mem_of_cString_short _ ?_, same⟩
  rw [same, List.length_take, name.size]
  omega

/-- Host names survive exactly if they have less than 64 bytes or the memory already
ended with a NUL. -/
theorem host_name_survives_iff (memory : Fixed UInt8 (hostNameLengthMax + 1))
    (hostname : List UInt8) (self : EtherAddr) (chan : AwdlChan) (now : UInt64) :
    Survives memory hostname self chan now ↔
      (cString hostname).length < hostNameLengthMax ∨ lastByte memory = 0 := by
  constructor
  · intro survives
    by_contra neither
    obtain ⟨long, last⟩ := not_or.mp neither
    have terminated : 0 ∈ (strncpyName memory hostname).toList := survives.terminated
    rw [strncpyName_long memory hostname (not_lt.mp long), List.mem_append,
      List.mem_singleton] at terminated
    rcases terminated with inside | end_byte
    · exact cString_nonzero hostname 0 (List.mem_of_mem_take inside) rfl
    · exact last end_byte.symm
  · intro either
    by_cases short : (cString hostname).length < hostNameLengthMax
    · obtain ⟨rest, field⟩ := strncpyName_short memory hostname short
      rw [← List.take_of_length_le short.le] at field
      exact survives_of_text memory hostname self chan now rest field
    · have zero := either.resolve_left short
      have field := strncpyName_long memory hostname (not_lt.mp short)
      rw [zero] at field
      exact survives_of_text memory hostname self chan now [] field

/-- A name of 64 letters over memory that was not cleared. -/
theorem host_name_unterminated :
    ¬ Survives (Fixed.replicate _ 1) (List.replicate 64 0x61) ⟨2, 0, 0, 0, 0, 1⟩ chanNull 0 := by
  intro survives
  have terminated := survives.terminated
  revert terminated
  decide +kernel

end Owl.HostName
