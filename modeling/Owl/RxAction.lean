import Owl.RxSpec

/-!
Action frames: what the TLV handlers may change. No handler faults, whatever the
value of its TLV is; each keeps the address, the time stamp and the two flags of
the peer, writes nothing of the node but its synchronization state, and only a
Version TLV that was read to its end sets version and device class. The loop
over the TLVs inherits this from its rounds.
-/

namespace Owl.RxAction

open Bytes Ether Channel Sync Election Peers Wire State Frames RxTlv Rx RxSpec

def Returns {α : Type} (run : Except Fault α) (post : α → Prop) : Prop :=
  ∃ value, run = .ok value ∧ post value

theorem Returns.ok {α : Type} {post : α → Prop} (value : α) (holds : post value) :
    Returns (.ok value) post := ⟨value, rfl, holds⟩

theorem Returns.bind {α β : Type} {run : Except Fault α} {next : α → Except Fault β}
    {mid : α → Prop} {post : β → Prop} (first : Returns run mid)
    (second : ∀ value, mid value → Returns (next value) post) : Returns (run >>= next) post := by
  obtain ⟨value, rfl, holds⟩ := first
  exact second value holds

def versionTlv (addr : EtherAddr) (value : List UInt8) : RxEvent :=
  .tlv addr TlvType.version.code value .ok

structure Kept (src peer : Peer) (state after : AwdlState) : Prop where
  addr : peer.addr = src.addr
  lastUpdate : peer.lastUpdate = src.lastUpdate
  sentMif : peer.sentMif = src.sentMif
  isValid : peer.isValid = src.isValid
  self : peer.election.selfAddr = src.election.selfAddr
  node : after = { state with sync := after.sync }

def VersionFrom (src peer : Peer) (trace : List RxEvent) : Prop :=
  peer.version = src.version ∧ peer.devclass = src.devclass ∨
    ∃ value, versionTlv src.addr value ∈ trace ∧ peer.version = byteAt value 0 ∧
      peer.devclass = byteAt value 1

theorem Kept.refl (src : Peer) (state : AwdlState) : Kept src src state state :=
  ⟨rfl, rfl, rfl, rfl, rfl, rfl⟩

theorem Kept.trans {first second third : Peer} {start mid final : AwdlState}
    (left : Kept first second start mid) (right : Kept second third mid final) :
    Kept first third start final := by
  refine ⟨right.addr.trans left.addr, right.lastUpdate.trans left.lastUpdate,
    right.sentMif.trans left.sentMif, right.isValid.trans left.isValid, right.self.trans left.self,
    ?_⟩
  rw [right.node, left.node]

theorem VersionFrom.trans {first second third : Peer} {early late : List RxEvent}
    (same : second.addr = first.addr) (left : VersionFrom first second early)
    (right : VersionFrom second third late) : VersionFrom first third (early ++ late) := by
  rcases right with ⟨version, devclass⟩ | ⟨value, mem, version, devclass⟩
  · rcases left with ⟨older, olderClass⟩ | ⟨value, mem, older, olderClass⟩
    · exact .inl ⟨version.trans older, devclass.trans olderClass⟩
    · exact .inr ⟨value, List.mem_append_left _ mem, version.trans older,
        devclass.trans olderClass⟩
  · rw [same] at mem
    exact .inr ⟨value, List.mem_append_right _ mem, version, devclass⟩

theorem peek_byte (bytes : List UInt8) (offset : Nat) (byte : UInt8)
    (found : peek 1 (byteAt · 0) bytes offset = some byte) : byte = byteAt bytes offset := by
  unfold peek at found
  split at found
  · have same : byteAt (slice bytes offset 1) 0 = byte := Option.some.inj found
    rw [← same, byteAt_slice _ _ _ _ Nat.zero_lt_one, Nat.add_zero]
  · cases found

section CopyLoop

variable (val : Buf) (width : Nat) (fits : width ≤ 2) (count i : Nat) (offset : Int)
  (start : 0 ≤ offset) (small : offset + width < 2 ^ 31) (list : ChanSeq)

include fits start small

/-- The copy of the channels ends where the value does. -/
theorem chanseqLoop_short (outside : ¬ offset.toNat + width ≤ val.bytes.length) :
    chanseqLoop val width (count + 1) i offset list = .ok none := by
  rw [chanseqLoop, readBytesCopy_eq val offset start _ width fits small, if_neg outside]
  rfl

/-- One round of it patches the entry `i`. -/
theorem chanseqLoop_step (room : i < awdlChanseqLength)
    (inside : offset.toNat + width ≤ val.bytes.length) :
    ∃ chan next, (list.toList.getD i chanNull).store 0 (slice val.bytes offset.toNat width) =
        some chan ∧ list.store i [chan] = some next ∧
      chanseqLoop val width (count + 1) i offset list =
        chanseqLoop val width count (i + 1) (offset + width) next := by
  have length := slice_length val.bytes offset.toNat width inside
  obtain ⟨chan, copied⟩ := Option.isSome_iff_exists.mp
    ((list.toList.getD i chanNull).store_isSome 0 (slice val.bytes offset.toNat width) (by omega))
  obtain ⟨next, stored⟩ := Option.isSome_iff_exists.mp (list.store_isSome i [chan]
    (by rw [List.length_singleton]; omega))
  refine ⟨chan, next, copied, stored, ?_⟩
  rw [chanseqLoop, readBytesCopy_eq val offset start _ width fits small, if_pos inside, copied,
    except_ok_bind]
  dsimp only
  rw [stored]

end CopyLoop

section Chanseq

variable (val : Buf) (state : AwdlState)

/-- The copy succeeds when the value has all the channels. -/
theorem chanseqLoop_whole (width : Nat) (positive : 1 ≤ width) (fits : width ≤ 2) (count i : Nat)
    (room : i + count ≤ awdlChanseqLength) (offset : Nat) (bound : offset + 2 * count < 2 ^ 31)
    (list : ChanSeq) (start : offset ≤ val.bytes.length) :
    Returns (chanseqLoop val width count i offset list) fun read =>
      (read.isSome ↔ offset + count * width ≤ val.bytes.length) := by
  induction count generalizing i offset list with
  | zero => exact .ok _ (iff_of_true rfl (by omega))
  | succ count ih =>
      have split : (count + 1) * width = count * width + width := Nat.succ_mul count width
      by_cases inside : offset + width ≤ val.bytes.length
      · obtain ⟨chan, next, -, -, step⟩ := chanseqLoop_step val width fits count i offset (by omega)
          (by omega) list (by omega) inside
        rw [step, split, Nat.add_comm (count * width), ← Nat.add_assoc]
        exact ih (i + 1) (by omega) (offset + width) (by omega) next inside
      · rw [chanseqLoop_short val width fits count i offset (by omega) (by omega) list inside]
        exact .ok _ (iff_of_false (by simp) (by omega))

/-- The fields in front of the channels, as the handler wants them. -/
def ChanseqHead (presenceMode : UInt8) (value : List UInt8) : Prop :=
  6 ≤ value.length ∧ (byteAt value 0).toNat + 1 = awdlChanseqLength ∧ byteAt value 2 = 0 ∧
    (byteAt value 3).toNat + 1 = presenceMode.toNat ∧ ofLe16 (slice value 4 2) = 0xffff ∧
    1 ≤ awdlChanEncodingSize (ChanEncoding.ofCode (byteAt value 1))

def chanseqTaken (src : Peer) : Option ChanSeq → RxResult × Peer × AwdlState
  | none => (.tooShort, src, state)
  | some list => (.ok, { src with sequence := list }, state)

/-- A run that refuses the fixed fields, whatever `list` and the entry hold, or copies the
channels. -/
def HeadFirst (run : ChanSeq → Peer → Handled) : Prop :=
  let size := awdlChanEncodingSize (ChanEncoding.ofCode (byteAt val.bytes 1))
  (¬ ChanseqHead state.sync.presenceMode val.bytes ∧ ∃ result : RxResult, result.code < 0 ∧
    ∀ list src, run list src = .ok (result, src, state)) ∨
  (ChanseqHead state.sync.presenceMode val.bytes ∧ ∀ list src,
    Returns (chanseqLoop val size awdlChanseqLength 0 6 list) fun read =>
      (read.isSome ↔ 6 + awdlChanseqLength * size ≤ val.bytes.length) ∧
        run list src = .ok (chanseqTaken state src read))

theorem awdlHandleChanseqTlv_headFirst :
    HeadFirst val state fun list src => awdlHandleChanseqTlv list src val state := by
  have refused : ∀ result : RxResult, result.code < 0 →
      ¬ ChanseqHead state.sync.presenceMode val.bytes →
      HeadFirst val state fun _ src => .ok (result, src, state) :=
    fun result negative not => .inl ⟨not, result, negative, fun _ _ => rfl⟩
  unfold awdlHandleChanseqTlv
  simp (disch := decide) only [readU8_eq, readLe16_eq, except_ok_bind, Int.reduceToNat, except_pure]
  by_cases long : 6 ≤ val.bytes.length
  swap
  · -- Whatever is read before the end, the fill channel is missing.
    rw [show peek 2 ofLe16 val.bytes 4 = none from peek_outside 2 _ _ 4 (by omega)]
    repeat' (first | exact refused _ (by decide) fun head => long head.1 | split)
  have byte : ∀ offset, offset < 6 → peek 1 (byteAt · 0) val.bytes offset =
      some (byteAt val.bytes offset) := by
    intro offset inside
    rw [peek_inside 1 _ _ offset (by omega), byteAt_slice _ _ _ _ Nat.zero_lt_one, Nat.add_zero]
  rw [byte 0 (by decide), byte 2 (by decide), byte 3 (by decide), byte 1 (by decide),
    peek_inside 2 _ _ 4 (by omega)]
  dsimp only
  split
  case isTrue other => exact refused _ (by decide) fun head => other head.2.1
  case isFalse count =>
  split
  case isTrue some =>
    exact refused _ (by decide) fun head => absurd some (by rw [head.2.2.1]; decide)
  case isFalse duplicates =>
  split
  case isTrue other => exact refused _ (by decide) fun head => other head.2.2.2.1
  case isFalse steps =>
  split
  case isTrue other => exact refused _ (by decide) fun head => other head.2.2.2.2.1
  case isFalse fill =>
  split
  case isTrue other => exact refused _ (by decide) fun head => Int.not_le.mpr other head.2.2.2.2.2
  case isFalse sized =>
  have positive := Int.not_lt.mp sized
  have none : byteAt val.bytes 2 = 0 := by
    by_contra some
    exact duplicates (UInt8.pos_iff_ne_zero.mpr some)
  refine .inr ⟨⟨long, not_not.mp count, none, not_not.mp steps, not_not.mp fill, positive⟩,
    fun list src => ?_⟩
  have bound := awdlChanEncodingSize_le (ChanEncoding.ofCode (byteAt val.bytes 1))
  obtain ⟨width, same⟩ := Int.eq_ofNat_of_zero_le (Int.le_trans Int.one_nonneg positive)
  rw [same] at positive bound ⊢
  obtain ⟨read, run, whole⟩ := chanseqLoop_whole val width (by omega) (by omega) awdlChanseqLength 0
    (by decide) 6 (by decide) list long
  rw [show ((6 : Nat) : Int) = 6 from rfl] at run
  refine ⟨read, run, whole.trans (by norm_cast), ?_⟩
  beta_reduce
  rw [run, except_ok_bind]
  cases read <;> rfl

end Chanseq

section Handlers

variable (src : Peer) (val : Buf) (state : AwdlState)

def Quiet (result : RxResult × Peer × AwdlState) : Prop :=
  Kept src result.2.1 state result.2.2 ∧ result.2.1.version = src.version ∧
    result.2.1.devclass = src.devclass

theorem Quiet.same (result : RxResult) : Quiet src state (result, src, state) :=
  ⟨Kept.refl src state, rfl, rfl⟩

theorem awdlHandleSyncParamsTlv_quiet (long : LongWidth) (now : UInt64) :
    Returns (awdlHandleSyncParamsTlv long src val state now) (Quiet src state) := by
  unfold awdlHandleSyncParamsTlv
  simp (disch := decide) only [readLe16_eq, except_ok_bind, Int.reduceToNat, except_pure]
  repeat' (first | exact .ok _ ⟨⟨rfl, rfl, rfl, rfl, rfl, rfl⟩, rfl, rfl⟩ | split)

theorem awdlHandleChanseqTlv_quiet (list : ChanSeq) :
    Returns (awdlHandleChanseqTlv list src val state) (Quiet src state) := by
  rcases awdlHandleChanseqTlv_headFirst val state with ⟨-, result, -, refuses⟩ | ⟨-, copies⟩
  · exact ⟨_, refuses list src, Quiet.same src state result⟩
  obtain ⟨read, -, -, run⟩ := copies list src
  refine ⟨_, run, ?_⟩
  cases read with
  | none => exact Quiet.same src state _
  | some list => exact ⟨⟨rfl, rfl, rfl, rfl, rfl, rfl⟩, rfl, rfl⟩

theorem awdlHandleElectionParamsTlv_quiet :
    Returns (awdlHandleElectionParamsTlv src val state) (Quiet src state) := by
  unfold awdlHandleElectionParamsTlv
  simp (disch := decide) only [readU8_eq, readLe32_eq, readEtherAddr_eq, except_ok_bind,
    Int.reduceToNat, except_pure]
  repeat' (first | exact .ok _ ⟨⟨rfl, rfl, rfl, rfl, rfl, rfl⟩, rfl, rfl⟩ | split)

theorem awdlHandleElectionParamsV2Tlv_quiet :
    Returns (awdlHandleElectionParamsV2Tlv src val state) (Quiet src state) := by
  unfold awdlHandleElectionParamsV2Tlv
  simp (disch := decide) only [readLe32_eq, readEtherAddr_eq, except_ok_bind, Int.reduceToNat,
    except_pure]
  repeat' (first | exact .ok _ ⟨⟨rfl, rfl, rfl, rfl, rfl, rfl⟩, rfl, rfl⟩ | split)

theorem awdlHandleArpaTlv_quiet :
    Returns (awdlHandleArpaTlv src val state) (Quiet src state) := by
  have name := readIntString_eq val 1 (by decide) src.name hostNameLengthMax (by decide)
    (by decide) (by decide)
  unfold awdlHandleArpaTlv
  simp only [name, except_ok_bind, except_pure]
  repeat' (first | exact .ok _ ⟨⟨rfl, rfl, rfl, rfl, rfl, rfl⟩, rfl, rfl⟩ | split)

theorem readIf_returns {α : Type} (flag : Bool) (read : Except Fault (Option α)) (keep : α)
    (safe : Returns read fun _ => True) : Returns (readIf flag read keep) fun _ => True := by
  cases flag with
  | true => exact safe
  | false => exact .ok _ trivial

theorem skipIf_bounds (flag : Bool) (offset size limit : Int) (start : 0 ≤ offset)
    (grows : 0 ≤ size) (bound : offset + size ≤ limit) :
    0 ≤ skipIf flag offset size ∧ skipIf flag offset size ≤ limit := by
  unfold skipIf
  split <;> omega

theorem awdlHandleDataPathStateTlv_quiet :
    Returns (awdlHandleDataPathStateTlv src val state) (Quiet src state) := by
  have country := readBytesCopy_eq val 2 (by decide) src.countryCode 3 (by decide) (by decide)
  unfold awdlHandleDataPathStateTlv
  rw [readLe16_eq val 0 (by decide) (by decide), except_ok_bind]
  split
  case h_2 => exact .ok _ (Quiet.same src state _)
  case h_1 flags _ =>
  -- only the offset of the infrastructure address has to be followed
  have afterCountry := skipIf_bounds (flags &&& awdlDataPathFlagCountryCode != 0) 2 3 5
    (by decide) (by decide) (by decide)
  have afterMap := skipIf_bounds (flags &&& awdlDataPathFlagSocialChannelMap != 0) _ 2 7
    afterCountry.1 (by decide) (by omega)
  have afterBssid := skipIf_bounds (flags &&& awdlDataPathFlagInfraInfo != 0) _ 6 13
    afterMap.1 (by decide) (by omega)
  have afterInfo := skipIf_bounds (flags &&& awdlDataPathFlagInfraInfo != 0) _ 2 15
    afterBssid.1 (by decide) (by omega)
  refine (readIf_returns _ _ _ ⟨_, country, trivial⟩).bind fun read _ => ?_
  cases read with
  | none => exact .ok _ (Quiet.same src state _)
  | some countryCode =>
  refine (readIf_returns _ _ _ (.ok _ trivial)).bind fun read _ => ?_
  cases read with
  | none => exact .ok _ ⟨⟨rfl, rfl, rfl, rfl, rfl, rfl⟩, rfl, rfl⟩
  | some _ =>
  refine (readIf_returns _ _ _ (.ok _ trivial)).bind fun read _ => ?_
  cases read with
  | none => exact .ok _ ⟨⟨rfl, rfl, rfl, rfl, rfl, rfl⟩, rfl, rfl⟩
  | some _ =>
  refine (readIf_returns _ _ _ (.ok _ trivial)).bind fun read _ => ?_
  cases read with
  | none => exact .ok _ ⟨⟨rfl, rfl, rfl, rfl, rfl, rfl⟩, rfl, rfl⟩
  | some _ =>
  refine (readIf_returns _ _ _
    ⟨_, readEtherAddr_eq val _ afterInfo.1 (by omega), trivial⟩).bind fun read _ => ?_
  cases read with
  | none => exact .ok _ ⟨⟨rfl, rfl, rfl, rfl, rfl, rfl⟩, rfl, rfl⟩
  | some infraAddr =>
  refine (readIf_returns _ _ _ (.ok _ trivial)).bind fun read _ => ?_
  cases read with
  | none => exact .ok _ ⟨⟨rfl, rfl, rfl, rfl, rfl, rfl⟩, rfl, rfl⟩
  | some _ => exact .ok _ ⟨⟨rfl, rfl, rfl, rfl, rfl, rfl⟩, rfl, rfl⟩

theorem awdlHandleVersionTlv_from :
    Returns (awdlHandleVersionTlv src val state) fun result =>
      Kept src result.2.1 state result.2.2 ∧
      VersionFrom src result.2.1 [.tlv src.addr TlvType.version.code val.bytes result.1] := by
  unfold awdlHandleVersionTlv
  simp (disch := decide) only [readU8_eq, except_ok_bind, Int.reduceToNat, except_pure]
  have kept : VersionFrom src src [.tlv src.addr TlvType.version.code val.bytes .tooShort] :=
    .inl ⟨rfl, rfl⟩
  cases version : peek 1 (byteAt · 0) val.bytes 0 with
  | none => exact .ok _ ⟨Kept.refl src state, kept⟩
  | some first =>
      cases devclass : peek 1 (byteAt · 0) val.bytes 1 with
      | none => exact .ok _ ⟨Kept.refl src state, kept⟩
      | some second =>
          refine .ok _ ⟨⟨rfl, rfl, rfl, rfl, rfl, rfl⟩, .inr ⟨val.bytes, List.mem_singleton_self _, ?_, ?_⟩⟩
          · exact (peek_byte val.bytes 0 first version)
          · exact (peek_byte val.bytes 1 second devclass)

/-- One TLV, as the loop of `awdl_rx_action` sees it. -/
theorem awdlHandleTlv_from (long : LongWidth) (list : ChanSeq) (type : UInt8) (tsft : UInt64) :
    Returns (awdlHandleTlv long list src type val state tsft) fun result =>
      Kept src result.2.1 state result.2.2 ∧
        VersionFrom src result.2.1 [.tlv src.addr type val.bytes result.1] := by
  have quiet : ∀ handled : Handled, Returns handled (Quiet src state) →
      Returns handled fun result => Kept src result.2.1 state result.2.2 ∧
        VersionFrom src result.2.1 [.tlv src.addr type val.bytes result.1] := by
    rintro handled ⟨result, same, kept, version, devclass⟩
    exact ⟨result, same, kept, .inl ⟨version, devclass⟩⟩
  unfold awdlHandleTlv
  split
  · exact quiet _ (awdlHandleSyncParamsTlv_quiet src val state long tsft)
  split
  · exact quiet _ (awdlHandleChanseqTlv_quiet src val state list)
  split
  · exact quiet _ (awdlHandleElectionParamsTlv_quiet src val state)
  split
  · exact quiet _ (awdlHandleElectionParamsV2Tlv_quiet src val state)
  split
  · exact quiet _ (awdlHandleArpaTlv_quiet src val state)
  split
  · exact quiet _ (awdlHandleDataPathStateTlv_quiet src val state)
  split
  case isTrue version =>
    subst version
    exact awdlHandleVersionTlv_from src val state
  · exact quiet _ (.ok _ (Quiet.same src state _))

end Handlers

section Loop

variable (env : RxEnv)

/-- The TLV at the start of a view, as `read_tlv` cuts it out. -/
def nextTlv (frame : Buf) : Option (UInt8 × Buf × Buf) :=
  if 3 ≤ frame.bytes.length ∧ 3 + (ofLe16 (slice frame.bytes 1 2)).toNat ≤ frame.bytes.length then
    some (byteAt frame.bytes 0, frame.part 3 (ofLe16 (slice frame.bytes 1 2)).toNat,
      frame.drop (3 + (ofLe16 (slice frame.bytes 1 2)).toNat))
  else none

/-- A round without the reads: it handles the next TLV or ends the loop. -/
theorem tlvRound_eq (next : Buf → Peer → AwdlState → Except Fault TlvOutcome) (frame : Buf)
    (peer : Peer) (state : AwdlState) :
    tlvRound env next frame peer state =
      match nextTlv frame with
      | none => .ok ⟨true, frame, peer, state, []⟩
      | some (type, val, rest) => do
          let (result, peer, state) ← awdlHandleTlv env.long (env.list frame.bytes.length) peer
            type val state env.now
          let event := RxEvent.tlv peer.addr type val.bytes result
          if result.code < 0 then return ⟨false, frame, peer, state, [event]⟩
          let rest ← next rest peer state
          return { rest with trace := event :: rest.trace } := by
  unfold tlvRound nextTlv
  rw [readTlv_eq, except_ok_bind]
  by_cases fits : 3 ≤ frame.bytes.length ∧
      3 + (ofLe16 (slice frame.bytes 1 2)).toNat ≤ frame.bytes.length
  · have view := bufNewConst_eq frame 3 (ofLe16 (slice frame.bytes 1 2)).toNat (by decide)
      (by simpa using fits.2)
    have strip := bufStrip_eq frame ((ofLe16 (slice frame.bytes 1 2)).toNat + 3)
    rw [if_pos (Nat.add_comm 3 _ ▸ fits.2), Nat.cast_add, Nat.cast_ofNat, Nat.add_comm] at strip
    rw [if_pos fits, if_pos fits]
    simp only [view, except_ok_bind, strip, Option.getD_some]
    rfl
  · rw [if_neg fits, if_neg fits]
    rfl

theorem nextTlv_length (frame val rest : Buf) (type : UInt8)
    (found : nextTlv frame = some (type, val, rest)) :
    rest.bytes.length + 3 ≤ frame.bytes.length := by
  unfold nextTlv at found
  split at found
  case isTrue fits =>
    cases found
    simp only [drop_bytes, List.length_drop]
    omega
  case isFalse => cases found

/-- The loop never faults, keeps what its rounds keep, and the version of the
peer comes from the TLVs it has seen; they are all it leaves in the trace. -/
theorem tlvLoop_kept (fuel : Nat) (frame : Buf) (peer : Peer) (state : AwdlState) :
    Returns (tlvLoop env fuel frame peer state) fun loop =>
      Kept peer loop.peer state loop.state ∧ VersionFrom peer loop.peer loop.trace ∧
        ∀ event ∈ loop.trace, ∃ type value result, event = .tlv peer.addr type value result := by
  induction fuel generalizing frame peer state with
  | zero => exact .ok _ ⟨Kept.refl peer state, .inl ⟨rfl, rfl⟩, by simp⟩
  | succ fuel ih =>
      rw [tlvLoop, tlvRound_eq]
      cases found : nextTlv frame with
      | none => exact .ok _ ⟨Kept.refl peer state, .inl ⟨rfl, rfl⟩, by simp⟩
      | some cut =>
          obtain ⟨type, val, rest⟩ := cut
          refine (awdlHandleTlv_from peer val state env.long _ type env.now).bind ?_
          rintro ⟨result, after, node⟩ ⟨kept, version⟩
          have named : after.addr = peer.addr := kept.addr
          dsimp only at kept version ⊢
          rw [named]
          split
          · refine .ok _ ⟨kept, version, ?_⟩
            intro event member
            exact ⟨type, val.bytes, result, List.mem_singleton.mp member⟩
          · refine (ih rest after node).bind ?_
            rintro loop ⟨later, newer, only⟩
            refine .ok _ ⟨kept.trans later, version.trans named newer, ?_⟩
            intro event member
            rcases List.mem_cons.mp member with rfl | member
            · exact ⟨type, val.bytes, result, rfl⟩
            · rw [← named]
              exact only event member

end Loop

/-- Whenever the lookup succeeds it hands out an entry. -/
theorem awdlPeerGet_entry (hash : EtherAddr → UInt64) (peers : PeerMap) (addr : EtherAddr)
    (found : ¬ (awdlPeerGet hash peers addr).1.code < 0) :
    ∃ peer, awdlPeerGet hash peers addr = (.ok, some peer) := by
  unfold awdlPeerGet Hashmap.hashmapGet at found ⊢
  cases search : Hashmap.locate hash peers addr with
  | none =>
      rw [search] at found
      exact absurd (show PeersStatus.missing.code < 0 by decide) found
  | some index =>
      have hit := Slots.findFrom_hit _ peers.slots _ _ index search
      cases slot : peers.slots.getD index none with
      | none =>
          rw [slot] at hit
          cases hit
      | some element => exact ⟨element.2, by simp only [slot, Option.map_some]⟩

section Frames

variable (hash : EtherAddr → UInt64) (env : RxEnv) (frame : Buf) (src : AddrPtr) (addr : EtherAddr)
  (state : AwdlState)

theorem acceptAction_returns (subtype : UInt8) (points : Points addr src) :
    Returns (acceptAction false hash env frame src subtype state) fun outcome =>
      outcome.outputs = [] := by
  have pointer : ∀ view, deref false view src = .ok addr := fun view =>
    deref_eq view src addr points
  unfold acceptAction
  simp only [pointer, except_ok_bind]
  split
  · exact .ok _ rfl
  split
  · exact .ok _ rfl
  case isFalse found =>
  obtain ⟨peer, entry⟩ := awdlPeerGet_entry _ _ _ found
  rw [entry]
  dsimp only
  refine (tlvLoop_kept env _ frame peer _).bind fun loop _ => ?_
  split
  · exact .ok _ rfl
  split
  · exact .ok _ rfl
  · exact .ok _ rfl

theorem awdlRxAction_returns (rssi : Int8) (points : Points addr src) :
    Returns (awdlRxAction false hash env frame rssi src state) fun outcome =>
      outcome.outputs = [] := by
  unfold awdlRxAction
  rw [awdlParseActionHdr_eq, except_ok_bind]
  split
  · split
    · dsimp only
      rw [deref_eq _ src addr points, except_ok_bind]
      split
      · exact .ok _ rfl
      · exact acceptAction_returns hash env _ src addr state _ points
    · exact acceptAction_returns hash env _ src addr state _ points
  · exact .ok _ rfl

end Frames

end Owl.RxAction
