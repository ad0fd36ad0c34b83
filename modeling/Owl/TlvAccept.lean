import Owl.RxReject
import Owl.TlvLocals

/-!
Which TLVs are accepted, told from their bytes. A handler refuses a value that ends
before a field it reads, and the one for channel sequences refuses another shape than
the node uses. Of entry and node three things matter: whether the sender is the sync
master of the node, the presence mode, and whether the sender has sent the second
version of the election parameters.
-/

namespace Owl.TlvAccept

open Bytes Ether Channel Sync Election Peers Wire State Frames RxTlv Rx RxSpec RxAction RxReject TlvLoop
  TlvLocals

structure Terms where
  follows : Bool
  presenceMode : UInt8
  supportsV2 : Bool

def termsOf (peer : Peer) (state : AwdlState) : Terms :=
  ⟨awdlElectionIsSyncMaster state.election peer.addr, state.sync.presenceMode, peer.supportsV2⟩

/-- Sixteen channels without duplicates, steps or fill channels of their own, each in
an encoding that has a size. -/
def ChanseqFits (presenceMode : UInt8) (value : List UInt8) : Prop :=
  let size := awdlChanEncodingSize (ChanEncoding.ofCode (byteAt value 1))
  6 ≤ value.length ∧ (byteAt value 0).toNat + 1 = awdlChanseqLength ∧ byteAt value 2 = 0 ∧
    (byteAt value 3).toNat + 1 = presenceMode.toNat ∧ ofLe16 (slice value 4 2) = 0xffff ∧
    1 ≤ size ∧ 6 + awdlChanseqLength * size ≤ value.length

def Accepted (terms : Terms) (type : UInt8) (value : List UInt8) : Prop :=
  if type = TlvType.synchronizatonParameters.code then terms.follows = true → 31 ≤ value.length
  else if type = TlvType.chanSeq.code then ChanseqFits terms.presenceMode value
  else if type = TlvType.electionParameters.code then terms.supportsV2 = true ∨ 19 ≤ value.length
  else if type = TlvType.electionParametersV2.code then 40 ≤ value.length
  else if type = TlvType.arpa.code then
    2 ≤ value.length ∧ 2 + min (byteAt value 1).toNat hostNameLengthMax ≤ value.length
  else if type = TlvType.dataPathState.code then
    2 ≤ value.length ∧ dataPathEnd (ofLe16 (slice value 0 2)) ≤ value.length
  else if type = TlvType.version.code then 2 ≤ value.length
  else True

def Terms.after (terms : Terms) (type : UInt8) : Terms :=
  { terms with
    supportsV2 := terms.supportsV2 || decide (type = TlvType.electionParametersV2.code) }

/-- The result says whether the value was accepted; then nothing else that matters has changed. -/
structure Judged (src : Peer) (state : AwdlState) (accepted : Prop) (supportsV2 : Bool)
    (result : RxResult × Peer × AwdlState) : Prop where
  code : 0 ≤ result.1.code ↔ accepted
  terms : 0 ≤ result.1.code → termsOf result.2.1 result.2.2 =
    { termsOf src state with supportsV2 := supportsV2 }

section Handlers

variable (src : Peer) (val : Buf) (state : AwdlState)

theorem Judged.refused {src peer : Peer} {state after : AwdlState} {accepted : Prop}
    {supportsV2 : Bool} {result : RxResult} (negative : result.code < 0) (not : ¬ accepted) :
    Judged src state accepted supportsV2 (result, peer, after) :=
  ⟨iff_of_false (Int.not_le.mpr negative) not, fun fine => absurd negative (Int.not_lt.mpr fine)⟩

theorem Judged.accepted {src peer : Peer} {state after : AwdlState} {accepted : Prop}
    {supportsV2 : Bool} {result : RxResult} (fine : 0 ≤ result.code) (holds : accepted)
    (same : termsOf peer after = { termsOf src state with supportsV2 := supportsV2 }) :
    Judged src state accepted supportsV2 (result, peer, after) :=
  ⟨iff_of_true fine holds, fun _ => same⟩

theorem awdlHandleSyncParamsTlv_judged (long : LongWidth) (now : UInt64) :
    Returns (awdlHandleSyncParamsTlv long src val state now)
      (Judged src state ((termsOf src state).follows = true → 31 ≤ val.bytes.length)
        src.supportsV2) := by
  unfold awdlHandleSyncParamsTlv
  simp (disch := decide) only [readLe16_eq, except_ok_bind, Int.reduceToNat, except_pure]
  by_cases follows : awdlElectionIsSyncMaster state.election src.addr = true
  swap
  · rw [Bool.not_eq_true] at follows
    rw [follows]
    exact .ok _ (.accepted (by decide) (fun is => by simp [termsOf, follows] at is) rfl)
  rw [follows]
  have refused : ¬ 31 ≤ val.bytes.length →
      ¬ ((termsOf src state).follows = true → 31 ≤ val.bytes.length) :=
    fun short fits => short (fits follows)
  by_cases first : 3 ≤ val.bytes.length
  swap
  · rw [peek_outside 2 _ _ 1 (by omega)]
    exact .ok _ (.refused (by decide) (refused (by omega)))
  rw [peek_inside 2 _ _ 1 (by omega)]
  by_cases second : 31 ≤ val.bytes.length
  swap
  · rw [peek_outside 2 _ _ 29 (by omega)]
    exact .ok _ (.refused (by decide) (refused second))
  rw [peek_inside 2 _ _ 29 (by omega)]
  refine .ok _ (.accepted (by decide) (fun _ => second) ?_)
  unfold termsOf awdlSyncUpdateLast
  dsimp only
  split <;> rfl

theorem chanseqFits_iff (presenceMode : UInt8) (value : List UInt8) :
    ChanseqFits presenceMode value ↔ ChanseqHead presenceMode value ∧
      6 + awdlChanseqLength * awdlChanEncodingSize (ChanEncoding.ofCode (byteAt value 1)) ≤
        value.length := by
  simp only [ChanseqFits, ChanseqHead, and_assoc]

theorem awdlHandleChanseqTlv_judged (list : ChanSeq) :
    Returns (awdlHandleChanseqTlv list src val state)
      (Judged src state (ChanseqFits (termsOf src state).presenceMode val.bytes)
        src.supportsV2) := by
  rw [chanseqFits_iff]
  rcases awdlHandleChanseqTlv_headFirst val state with ⟨not, result, negative, refuses⟩ | ⟨head, copies⟩
  · exact ⟨_, refuses list src, .refused negative fun fits => not fits.1⟩
  obtain ⟨read, -, whole, run⟩ := copies list src
  refine ⟨_, run, ?_⟩
  cases read with
  | none => exact .refused (by decide) fun fits => by simpa using whole.mpr fits.2
  | some sequence => exact .accepted (by decide) ⟨head, whole.mp rfl⟩ rfl

theorem awdlHandleElectionParamsTlv_judged :
    Returns (awdlHandleElectionParamsTlv src val state)
      (Judged src state (src.supportsV2 = true ∨ 19 ≤ val.bytes.length) src.supportsV2) := by
  unfold awdlHandleElectionParamsTlv
  simp (disch := decide) only [readU8_eq, readLe32_eq, readEtherAddr_eq, except_ok_bind,
    Int.reduceToNat, except_pure]
  by_cases supports : src.supportsV2 = true
  · rw [if_pos supports]
    exact .ok _ (.accepted (by decide) (.inl supports) rfl)
  rw [if_neg supports]
  by_cases whole : 19 ≤ val.bytes.length
  · rw [peek_inside 1 _ _ 3 (by omega), peek_inside 6 _ _ 5 (by omega),
      peek_inside 4 _ _ 11 (by omega), peek_inside 4 _ _ 15 whole]
    exact .ok _ (.accepted (by decide) (.inr whole) rfl)
  · have short : ¬ (src.supportsV2 = true ∨ 19 ≤ val.bytes.length) := not_or.mpr ⟨supports, whole⟩
    rw [peek_outside 4 _ _ 15 whole]
    repeat' (first | exact .ok _ (.refused (by decide) short) | split)

theorem awdlHandleElectionParamsV2Tlv_judged :
    Returns (awdlHandleElectionParamsV2Tlv src val state)
      (Judged src state (40 ≤ val.bytes.length) true) := by
  unfold awdlHandleElectionParamsV2Tlv
  simp (disch := decide) only [readLe32_eq, readEtherAddr_eq, except_ok_bind, Int.reduceToNat,
    except_pure]
  by_cases whole : 40 ≤ val.bytes.length
  · rw [peek_inside 4 _ _ 16 (by omega), peek_inside 6 _ _ 0 (by omega),
      peek_inside 6 _ _ 6 (by omega), peek_inside 4 _ _ 12 (by omega),
      peek_inside 4 _ _ 20 (by omega), peek_inside 4 _ _ 24 (by omega), peek_inside 4 _ _ 36 whole]
    exact .ok _ (.accepted (by decide) whole rfl)
  · rw [peek_outside 4 _ _ 36 whole]
    repeat' (first | exact .ok _ (.refused (by decide) whole) | split)

theorem awdlHandleArpaTlv_judged :
    Returns (awdlHandleArpaTlv src val state)
      (Judged src state (2 ≤ val.bytes.length ∧
        2 + min (byteAt val.bytes 1).toNat hostNameLengthMax ≤ val.bytes.length)
        src.supportsV2) := by
  have name := readIntString_eq val 1 (by decide) src.name hostNameLengthMax (by decide)
    (by decide) (by decide)
  unfold awdlHandleArpaTlv
  simp only [name, except_ok_bind, except_pure, Int.toNat_one]
  by_cases counted : 2 ≤ val.bytes.length
  swap
  · rw [peek_outside 1 _ _ 1 (by omega)]
    exact .ok _ (.refused (by decide) fun fits => counted fits.1)
  rw [peek_inside 1 _ _ 1 (by omega), byteAt_slice _ _ _ _ Nat.zero_lt_one, Option.bind_some]
  by_cases whole : 2 + min (byteAt val.bytes (1 + 0)).toNat hostNameLengthMax ≤ val.bytes.length
  swap
  · rw [if_neg whole]
    exact .ok _ (.refused (by decide) fun fits => whole fits.2)
  have width := slice_length val.bytes 2 _ whole
  obtain ⟨stored, fits⟩ := Option.isSome_iff_exists.mp (src.name.store_isSome 0
    (slice val.bytes 2 (min (byteAt val.bytes (1 + 0)).toNat hostNameLengthMax) ++ [0]) (by
      rw [List.length_append, width, List.length_singleton]
      omega))
  rw [if_pos whole, fits]
  exact .ok _ (.accepted (by decide) ⟨counted, whole⟩ rfl)

theorem awdlHandleVersionTlv_judged :
    Returns (awdlHandleVersionTlv src val state)
      (Judged src state (2 ≤ val.bytes.length) src.supportsV2) := by
  unfold awdlHandleVersionTlv
  simp (disch := decide) only [readU8_eq, except_ok_bind, Int.reduceToNat, except_pure]
  by_cases whole : 2 ≤ val.bytes.length
  · rw [peek_inside 1 _ _ 0 (by omega), peek_inside 1 _ _ 1 whole]
    exact .ok _ (.accepted (by decide) whole rfl)
  · rw [peek_outside 1 _ _ 1 whole]
    repeat' (first | exact .ok _ (.refused (by decide) whole) | split)

theorem awdlHandleDataPathStateTlv_judged :
    Returns (awdlHandleDataPathStateTlv src val state)
      (Judged src state (2 ≤ val.bytes.length ∧
        dataPathEnd (ofLe16 (slice val.bytes 0 2)) ≤ val.bytes.length) src.supportsV2) := by
  by_cases two : 2 ≤ val.bytes.length
  swap
  · rw [awdlHandleDataPathStateTlv_short src val state two]
    exact .ok _ (.refused (by decide) fun fits => two fits.1)
  obtain ⟨result, run, ends⟩ := awdlHandleDataPathStateTlv_ends src val state two
  refine ⟨result, run, ?_⟩
  generalize ofLe16 (slice val.bytes 0 2) = flags at ends ⊢
  obtain ⟨-, mapBounds, bssidBounds, infoBounds, infraBounds, endBounds⟩ := dataPath_bounds flags
  cases ends with
  | first short => exact .refused (by decide) fun fits => by omega
  | country country room fresh short => exact .refused (by decide) fun fits => by omega
  | infra country infra room fresh newer short =>
      exact .refused (by decide) fun fits => absurd fits.2 (Nat.not_le.mpr short)
  | done country infra whole => exact .accepted (by decide) ⟨two, whole⟩ rfl

/-- Every handler accepts what `Accepted` says. -/
theorem awdlHandleTlv_judged (long : LongWidth) (list : ChanSeq) (type : UInt8) (tsft : UInt64) :
    Returns (awdlHandleTlv long list src type val state tsft) fun result =>
      (0 ≤ result.1.code ↔ Accepted (termsOf src state) type val.bytes) ∧
        (0 ≤ result.1.code → termsOf result.2.1 result.2.2 = (termsOf src state).after type) := by
  -- Every type but one leaves `supportsV2` alone.
  have other : type ≠ TlvType.electionParametersV2.code →
      (termsOf src state).after type = { termsOf src state with supportsV2 := src.supportsV2 } := by
    intro apart
    rw [Terms.after, decide_eq_false apart, Bool.or_false]
    rfl
  have judged : ∀ {handled : Handled} {accepted : Prop}, type ≠ TlvType.electionParametersV2.code →
      Returns handled (Judged src state accepted src.supportsV2) →
      Returns handled fun result => (0 ≤ result.1.code ↔ accepted) ∧
        (0 ≤ result.1.code → termsOf result.2.1 result.2.2 = (termsOf src state).after type) := by
    rintro handled accepted apart ⟨result, run, code, terms⟩
    rw [other apart]
    exact ⟨result, run, code, terms⟩
  unfold awdlHandleTlv Accepted
  split
  case isTrue sync =>
    exact judged (by rw [sync]; decide) (awdlHandleSyncParamsTlv_judged src val state long tsft)
  split
  case isTrue chanseq =>
    exact judged (by rw [chanseq]; decide) (awdlHandleChanseqTlv_judged src val state list)
  split
  case isTrue election =>
    exact judged (by rw [election]; decide) (awdlHandleElectionParamsTlv_judged src val state)
  split
  case isTrue second =>
    obtain ⟨result, run, code, terms⟩ := awdlHandleElectionParamsV2Tlv_judged src val state
    refine ⟨result, run, code, fun fine => (terms fine).trans ?_⟩
    rw [Terms.after, decide_eq_true second, Bool.or_true]
  case isFalse apart =>
  split
  · exact judged apart (awdlHandleArpaTlv_judged src val state)
  split
  · exact judged apart (awdlHandleDataPathStateTlv_judged src val state)
  split
  · exact judged apart (awdlHandleVersionTlv_judged src val state)
  · exact judged apart (.ok _ (.accepted (by decide) trivial rfl))

end Handlers

section Loop

def AllAccepted : Terms → List (UInt8 × List UInt8) → Prop
  | _, [] => True
  | terms, tlv :: tlvs =>
      tlv.2.length < 65536 ∧ Accepted terms tlv.1 tlv.2 ∧ AllAccepted (terms.after tlv.1) tlvs

def Terms.afterAll (terms : Terms) (tlvs : List (UInt8 × List UInt8)) : Terms :=
  tlvs.foldl (fun terms tlv => terms.after tlv.1) terms

def Blocked (terms : Terms) (rest : List UInt8) : Prop :=
  ∀ (tlv : UInt8 × List UInt8) (more : List UInt8), tlv.2.length < 65536 →
    rest = encodeTlv tlv ++ more → ¬ Accepted terms tlv.1 tlv.2

variable {env : RxEnv} {rest : List UInt8} {tlvs : List (UInt8 × List UInt8)} {peer last : Peer}
  {state final : AwdlState} {calls : List RxEvent}

/-- What the loop handles is accepted. -/
theorem handles_accepted (handled : Handles env rest tlvs peer state last final calls) :
    AllAccepted (termsOf peer state) tlvs ∧
      termsOf last final = (termsOf peer state).afterAll tlvs := by
  induction handled with
  | nil => exact ⟨trivial, rfl⟩
  | cons tlv tlvs peer mid last state between final result calls short called fine later ih =>
      obtain ⟨_, run, accepted, terms⟩ := awdlHandleTlv_judged peer (tlvBuf tlv.2 short) state
        env.long (env.list ((tlv :: tlvs).flatMap encodeTlv ++ rest).length) tlv.1 env.now
      rw [run] at called
      cases called
      rw [terms fine] at ih
      exact ⟨⟨short, accepted.mp fine, ih.1⟩, ih.2⟩

/-- What is accepted the loop handles. -/
theorem accepted_handles (accepted : AllAccepted (termsOf peer state) tlvs) :
    ∃ last final calls, Handles env rest tlvs peer state last final calls ∧
      termsOf last final = (termsOf peer state).afterAll tlvs := by
  induction tlvs generalizing peer state with
  | nil => exact ⟨peer, state, [], .nil peer state, rfl⟩
  | cons tlv tlvs ih =>
      obtain ⟨short, first, behind⟩ := accepted
      obtain ⟨⟨result, mid, between⟩, run, judged, terms⟩ := awdlHandleTlv_judged peer
        (tlvBuf tlv.2 short) state env.long
        (env.list ((tlv :: tlvs).flatMap encodeTlv ++ rest).length) tlv.1 env.now
      have fine := judged.mpr first
      rw [← terms fine] at behind
      obtain ⟨last, final, calls, handled, ends⟩ := ih behind
      refine ⟨last, final, _, .cons tlv tlvs peer mid last state between final result calls short
        run fine handled, ends.trans ?_⟩
      rw [terms fine]
      rfl

/-- The loop stops in front of the next TLV when that is not accepted. -/
theorem stuck_iff (env : RxEnv) (rest : List UInt8) (peer : Peer) (state : AwdlState) :
    Stuck env rest peer state ↔ Blocked (termsOf peer state) rest := by
  have judged := fun (tlv : UInt8 × List UInt8) (short : tlv.2.length < 65536) =>
    awdlHandleTlv_judged peer (tlvBuf tlv.2 short) state env.long (env.list rest.length) tlv.1
      env.now
  constructor
  · intro stuck tlv more short next accepted
    obtain ⟨⟨result, last, final⟩, run, code, -⟩ := judged tlv short
    exact absurd (stuck tlv more short next result last final run) (Int.not_lt.mpr (code.mpr accepted))
  · intro blocked tlv more short next result last final run
    obtain ⟨_, same, code, -⟩ := judged tlv short
    rw [run] at same
    cases same
    exact Int.not_le.mp fun fine => blocked tlv more short next (code.mp fine)

end Loop

end Owl.TlvAccept
