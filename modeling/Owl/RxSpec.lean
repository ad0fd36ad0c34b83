import Owl.Rx

/-!
What the parts of `rx.c` compute, without the checks that the model carries. On
a view every read is in range once its length was compared, so each function
equals a plain expression over the bytes of the frame. These equations hold for
the reading of `from` and `to` that does not count stripped bytes as a fault.
-/

namespace Owl.RxSpec
open Bytes Ether Channel Sync Peers Wire State Frames RxTlv Rx

def Points (addr : EtherAddr) : AddrPtr → Prop
  | .copy other => other = addr
  | .kept base offset =>
      offset + 6 ≤ base.bytes.length ∧ EtherAddr.ofBytes (slice base.bytes offset 6) = addr

theorem deref_eq (frame : Buf) (ptr : AddrPtr) (addr : EtherAddr) (points : Points addr ptr) :
    deref false frame ptr = .ok addr := by
  cases ptr with
  | copy other => rw [← (points : other = addr)]; rfl
  | kept base offset =>
      obtain ⟨inside, value⟩ := points
      have read := load_inside base offset 6 (by omega) (by unfold bufLen; omega)
      simp [deref, read, value]

def ActionHeader (bytes : List UInt8) : Prop :=
  awdlActionSize ≤ bytes.length ∧ byteAt bytes 0 = ieee80211VendorSpecific ∧
    slice bytes 1 3 = awdlOui ∧ byteAt bytes 4 = awdlType ∧ byteAt bytes 5 = awdlVersionCompat ∧
    (byteAt bytes 6 = ActionType.psf.code ∨ byteAt bytes 6 = ActionType.mif.code)

instance (bytes : List UInt8) : Decidable (ActionHeader bytes) :=
  inferInstanceAs (Decidable (_ ∧ _))

theorem awdlParseActionHdr_eq (frame : Buf) :
    awdlParseActionHdr frame =
      .ok (if ActionHeader frame.bytes then some (byteAt frame.bytes 6) else none) := by
  unfold awdlParseActionHdr
  rw [readBytes_eq frame 0 (by decide) awdlActionSize (by decide)]
  by_cases long : awdlActionSize ≤ frame.bytes.length
  · have cast : ∀ (offset : Nat) (count : Nat), offset + count ≤ awdlActionSize →
        load frame offset count = .ok (slice frame.bytes offset count) := by
      intro offset count inside
      exact load_inside frame offset count (by omega) (by unfold bufLen; omega)
    have category := cast 0 1 (by decide)
    have oui := cast 1 3 (by decide)
    have type := cast 4 1 (by decide)
    have version := cast 5 1 (by decide)
    have subtype := cast 6 1 (by decide)
    simp only [Nat.cast_zero, Nat.cast_one, Nat.cast_ofNat] at category oui type version subtype
    simp only [Int.toNat_zero, Nat.zero_add, long, ↓reduceIte, category, oui, type, version, subtype,
      except_ok_bind, except_pure, byteAt_slice _ _ _ _ Nat.zero_lt_one, ActionHeader, true_and,
      Nat.add_zero]
    split <;> rfl
  · simp only [Int.toNat_zero, Nat.zero_add, long, ↓reduceIte, except_pure, ActionHeader, false_and]

def LlcValid (bytes : List UInt8) : Prop :=
  llcHdrSize ≤ bytes.length ∧ byteAt bytes 0 = 0xaa ∧ byteAt bytes 1 = 0xaa ∧
    byteAt bytes 2 = 0x03 ∧ ofBe16 (slice bytes 6 2) = awdlLlcProtocolId

instance (bytes : List UInt8) : Decidable (LlcValid bytes) :=
  inferInstanceAs (Decidable (_ ∧ _))

theorem peek_inside {α : Type} (width : Nat) (decode : List UInt8 → α) (bytes : List UInt8)
    (offset : Nat) (inside : offset + width ≤ bytes.length) :
    peek width decode bytes offset = some (decode (slice bytes offset width)) := if_pos inside

theorem peek_outside {α : Type} (width : Nat) (decode : List UInt8 → α) (bytes : List UInt8)
    (offset : Nat) (outside : ¬ offset + width ≤ bytes.length) :
    peek width decode bytes offset = none := if_neg outside

theorem awdlValidLlcHeader_eq (frame : Buf) :
    awdlValidLlcHeader frame = .ok (decide (LlcValid frame.bytes)) := by
  have oui : ∀ field : Fixed UInt8 3, readBytesCopy frame 3 field 3 =
      .ok (if 3 + 3 ≤ frame.bytes.length then field.store 0 (slice frame.bytes 3 3) else none) :=
    fun field => readBytesCopy_eq frame 3 (by decide) field 3 (by decide) (by decide)
  unfold awdlValidLlcHeader llcParse
  simp (disch := decide) only [readU8_eq, readBe16_eq, oui, except_ok_bind, Int.reduceToNat]
  by_cases long : llcHdrSize ≤ frame.bytes.length
  · have size : llcHdrSize = 8 := rfl
    have stored := (Fixed.replicate 3 (0 : UInt8)).store_isSome 0 (slice frame.bytes 3 3)
      (by rw [slice_length _ _ _ (by omega)])
    obtain ⟨copied, same⟩ := Option.isSome_iff_exists.mp stored
    rw [peek_inside 1 _ _ 0 (by omega), peek_inside 1 _ _ 1 (by omega),
      peek_inside 1 _ _ 2 (by omega), peek_inside 2 _ _ 6 (by omega)]
    have room : 3 + 3 ≤ frame.bytes.length := by omega
    have accepted : ¬ RxResult.ok.code < 0 := by decide
    simp only [room, ↓reduceIte, same, except_pure, except_ok_bind, accepted,
      byteAt_slice _ _ _ _ Nat.zero_lt_one, Nat.add_zero, LlcValid, long, true_and]
  · have size : llcHdrSize = 8 := rfl
    have short : ¬ LlcValid frame.bytes := fun valid => long valid.1
    have refused : RxResult.tooShort.code < 0 := by decide
    rw [peek_outside 2 _ _ 6 (by omega)]
    simp only [short, decide_false]
    repeat' (first | rfl | split)

theorem Buf.ext_bytes {left right : Buf} (same : left.bytes = right.bytes) : left = right := by
  cases left
  cases right
  cases same
  rfl

def etherHeader (dst src : EtherAddr) (etherType : UInt16) : List UInt8 :=
  dst.bytes ++ (src.bytes ++ be16 etherType)

theorem etherHeader_length (dst src : EtherAddr) (etherType : UInt16) :
    (etherHeader dst src etherType).length = 14 := rfl

/-- The content of an output buffer: a payload that does not fit is not written,
and the bytes that were not written are those of the fresh memory. -/
def etherBytes (memory : Fixed UInt8 etherMaxLen) (dst src : EtherAddr) (etherType : UInt16)
    (payload : List UInt8) : List UInt8 :=
  etherHeader dst src etherType ++
    if payload.length ≤ 1504 then payload ++ memory.toList.drop (14 + payload.length)
    else memory.toList.drop 14

theorem etherBytes_length (memory : Fixed UInt8 etherMaxLen) (dst src : EtherAddr)
    (etherType : UInt16) (payload : List UInt8) :
    (etherBytes memory dst src etherType payload).length = etherMaxLen := by
  have size := memory.size
  have max : etherMaxLen = 1518 := rfl
  rw [etherBytes, List.length_append, etherHeader_length]
  split
  · simp only [List.length_append, List.length_drop]
    omega
  · simp only [List.length_drop]
    omega

def etherFrame (memory : Fixed UInt8 etherMaxLen) (dst src : EtherAddr) (etherType : UInt16)
    (payload : List UInt8) : Buf :=
  ⟨etherBytes memory dst src etherType payload, by rw [etherBytes_length]; decide⟩

theorem assemble_eq (memory : Fixed UInt8 etherMaxLen) (dst src : EtherAddr) (etherType : UInt16)
    (payload : Buf) (small : 14 + payload.bytes.length < 2 ^ 31) :
    assemble memory dst src etherType payload =
      .ok (etherFrame memory dst src etherType payload.bytes) := by
  have size : memory.toList.length = 1518 := memory.size
  have dstSize : dst.bytes.length = 6 := rfl
  have srcSize : src.bytes.length = 6 := rfl
  have fresh : (bufNewOwned memory etherMaxLen_small).bytes = memory.toList := rfl
  obtain ⟨first, write1, bytes1⟩ := writeWith_inside (bufNewOwned memory etherMaxLen_small) 0 dst.bytes
    (by rw [fresh]; omega)
  have content1 : first.bytes = dst.bytes ++ memory.toList.drop 6 := by
    rw [bytes1, fresh, ← List.nil_append memory.toList]
    exact patch_append [] memory.toList dst.bytes
  have length1 : first.bytes.length = 1518 := by
    rw [content1, List.length_append, List.length_drop]; omega
  obtain ⟨second, write2, bytes2⟩ := writeWith_inside first 6 src.bytes (by omega)
  have content2 : second.bytes = (dst.bytes ++ src.bytes) ++ memory.toList.drop 12 := by
    rw [bytes2, content1, ← dstSize, patch_append, List.append_assoc, List.drop_drop]
    rfl
  have length2 : second.bytes.length = 1518 := by
    rw [content2, List.length_append, List.length_append, List.length_drop]; omega
  obtain ⟨third, write3, bytes3⟩ := writeWith_inside second 12 (be16 etherType)
    (by rw [be16_length]; omega)
  have content3 : third.bytes = etherHeader dst src etherType ++ memory.toList.drop 14 := by
    have twelve : 12 = (dst.bytes ++ src.bytes).length := rfl
    rw [bytes3, content2, twelve, patch_append, List.drop_drop]
    simp [etherHeader, dstSize, srcSize]
  have length3 : third.bytes.length = 1518 := by
    rw [content3, List.length_append, etherHeader_length, List.length_drop]; omega
  obtain ⟨count, last, write4, bytes4⟩ := writeBytes_eq third 14 payload small
  have content4 : last.bytes = etherBytes memory dst src etherType payload.bytes := by
    rw [bytes4, length3, etherBytes, content3]
    have fourteen : 14 = (etherHeader dst src etherType).length := rfl
    by_cases fits : payload.bytes.length ≤ 1504
    · rw [if_pos (by omega), if_pos fits]
      conv_lhs => rw [fourteen, patch_append, List.drop_drop]
      rfl
    · rw [if_neg (by omega), if_neg fits]
  unfold assemble writeEtherAddr writeBe16
  have at6 : addInt 0 ((dst.bytes.length : Nat) : Int) = ((6 : Nat) : Int) := by
    rw [dstSize]; decide
  have at12 : addInt ((6 : Nat) : Int) ((src.bytes.length : Nat) : Int) = ((12 : Nat) : Int) := by
    rw [srcSize]; decide
  have at14 : addInt ((12 : Nat) : Int) (((be16 etherType).length : Nat) : Int) =
      ((14 : Nat) : Int) := by
    rw [be16_length]; decide
  have start : writeWith (bufNewOwned memory etherMaxLen_small) 0 dst.bytes =
      .ok (dst.bytes.length, first) := write1
  simp only [start, except_ok_bind, at6, write2, at12, write3, at14, write4, except_pure]
  exact congrArg Except.ok (Buf.ext_bytes content4)

def countData (state : AwdlState) : AwdlState :=
  { state with stats := { state.stats with rxData := state.stats.rxData + 1 } }

def dataOutcome (hash : EtherAddr → UInt64) (env : RxEnv) (frame : Buf) (src dst : EtherAddr)
    (state : AwdlState) (index : Nat) : DataOutcome :=
  if (awdlPeerGet hash state.peers.peers src).1 ≠ .ok then
    ⟨.ignorePeer, frame, [], countData state⟩
  else if ¬ LlcValid frame.bytes then ⟨.unexpectedFormat, frame, [], countData state⟩
  else if frame.bytes.length < 16 then ⟨.tooShort, frame.drop 8, [], countData state⟩
  else
    ⟨.ok, frame.drop 16, [etherFrame (env.output index) dst src
      (ofBe16 (slice frame.bytes 14 2)) (frame.bytes.drop 16)], countData state⟩

theorem awdlRxData_eq (hash : EtherAddr → UInt64) (env : RxEnv) (frame : Buf) (src dst : AddrPtr)
    (srcAddr dstAddr : EtherAddr) (state : AwdlState) (index : Nat)
    (fromSrc : Points srcAddr src) (toDst : Points dstAddr dst) :
    awdlRxData false hash env frame src dst state index =
      .ok (dataOutcome hash env frame srcAddr dstAddr state index) := by
  have small := frame.small
  have llc : llcHdrSize = 8 := rfl
  have data : awdlDataSize = 8 := rfl
  unfold awdlRxData dataOutcome
  simp only [deref_eq _ src srcAddr fromSrc, deref_eq _ dst dstAddr toDst, except_ok_bind,
    awdlValidLlcHeader_eq]
  by_cases known : (awdlPeerGet hash state.peers.peers srcAddr).1 = .ok
  swap
  · simp only [ne_eq, known, not_false_eq_true, ↓reduceIte]
    rfl
  · simp only [ne_eq, known, not_true_eq_false, ↓reduceIte]
    by_cases valid : LlcValid frame.bytes
    · have long : 8 ≤ frame.bytes.length := valid.1
      have stripped : (bufStrip frame llcHdrSize).getD frame = frame.drop 8 := by
        rw [bufStrip_eq, llc, if_pos long]
        rfl
      have rest : (frame.drop 8).bytes.length = frame.bytes.length - 8 := List.length_drop
      simp only [valid, decide_true, Bool.not_true, Bool.false_eq_true, ↓reduceIte,
        not_true_eq_false, stripped, data]
      by_cases short : frame.bytes.length < 16
      · have less : bufLen (frame.drop 8) < ((8 : Nat) : Int) := by
          unfold bufLen
          omega
        simp only [less, short, ↓reduceIte]
        rfl
      · have enough : ¬ bufLen (frame.drop 8) < ((8 : Nat) : Int) := by
          unfold bufLen
          omega
        have whole : (bufStrip (frame.drop 8) ((8 : Nat) : Int)).getD (frame.drop 8) =
            frame.drop 16 := by
          rw [bufStrip_eq, if_pos (by omega)]
          exact Buf.ext_bytes (by simp [List.drop_drop])
        have type : readBe16 (frame.drop 8) 6 = .ok (some (ofBe16 (slice frame.bytes 14 2))) := by
          rw [readBe16_eq _ 6 (by decide) (by decide)]
          simp only [Int.reduceToNat]
          rw [peek_inside 2 _ _ 6 (by omega)]
          simp [slice, List.drop_drop]
        have made := assemble_eq (env.output index) dstAddr srcAddr
          (ofBe16 (slice frame.bytes 14 2)) (frame.drop 16) (by
            simp only [drop_bytes, List.length_drop]
            omega)
        simp only [enough, short, ↓reduceIte, type, except_ok_bind, whole, made, except_pure]
        rfl
    · simp only [valid, decide_false, Bool.not_false, ↓reduceIte, not_false_eq_true]
      rfl

def itLen (bytes : List UInt8) : Nat := (ofLe16 (slice bytes 2 2)).toNat

/-- What `ieee80211_radiotap_iterator_init` guarantees when it succeeds. -/
def RadiotapInside (env : RxEnv) : Prop :=
  ∀ bytes run, env.radiotap bytes = some run → 8 ≤ itLen bytes ∧ itLen bytes ≤ bytes.length

/-- The iterator on headers in which all present fields are single bytes: flags,
rate and antenna signal. -/
def byteRadiotap (bytes : List UInt8) : Option RadiotapRun :=
  if 8 ≤ itLen bytes ∧ itLen bytes ≤ bytes.length ∧ byteAt bytes 4 &&& 0xd9 = 0 then
    let fields := [1, 2, 5].filter fun bit => byteAt bytes 4 >>> UInt8.ofNat bit &&& 1 = 1
    some ⟨fields.mapIdx fun index field => ⟨true, field, byteAt bytes (8 + index)⟩,
      decide (8 + fields.length ≤ itLen bytes)⟩
  else none

theorem byteRadiotap_inside (bytes : List UInt8) (run : RadiotapRun)
    (accepted : byteRadiotap bytes = some run) :
    8 ≤ itLen bytes ∧ itLen bytes ≤ bytes.length := by
  unfold byteRadiotap at accepted
  split at accepted
  case isTrue fits => exact ⟨fits.1, fits.2.1⟩
  case isFalse => cases accepted

def macFrame (env : RxEnv) (frame : Buf) : Option Buf :=
  if (radiotapParse env frame).1 = .ok then
    (checkFcs (frame.drop (itLen frame.bytes)) (radiotapParse env frame).2.2).filter
      fun mac => decide (ieee80211HdrSize ≤ mac.bytes.length)
  else none

def macFc (mac : Buf) : UInt16 := ofLe16 (slice mac.bytes 0 2)

def macSource (mac : Buf) : EtherAddr := EtherAddr.ofBytes (slice mac.bytes 10 6)

def macTarget (mac : Buf) : EtherAddr := EtherAddr.ofBytes (slice mac.bytes 4 6)

theorem radiotapParse_cases (env : RxEnv) (frame : Buf) :
    (radiotapParse env frame).1 = .unexpectedFormat ∨
      (radiotapParse env frame).1 = .ok ∧ ∃ run, env.radiotap frame.bytes = some run := by
  unfold radiotapParse
  cases env.radiotap frame.bytes with
  | none => exact .inl rfl
  | some run =>
      by_cases whole : run.complete = true
      · exact .inr ⟨by simp [whole], run, rfl⟩
      · exact .inl (by simp [whole])

theorem macFrame_length (env : RxEnv) (frame mac : Buf) (found : macFrame env frame = some mac) :
    24 ≤ mac.bytes.length := by
  unfold macFrame at found
  split at found
  · exact of_decide_eq_true (Option.filter_eq_some_iff.mp found).2
  · cases found

def receiveMac (strict : Bool) (hash : EtherAddr → UInt64) (env : RxEnv) (frame : Buf)
    (rssi : Int8) (flags : UInt8) (state : AwdlState) : Except Fault RxOutcome :=
  match checkFcs frame flags with
  | none => .ok ⟨.ignoreFailedCrc, frame, [], state, []⟩
  | some mac =>
      if ieee80211HdrSize ≤ mac.bytes.length then
        if macSource mac = state.selfAddress then .ok ⟨.ignoreFromSelf, mac, [], state, []⟩
        else
          dispatch strict hash env (mac.drop 24) rssi (macFc mac) (.kept mac 10) (.kept mac 4) state
      else .ok ⟨.tooShort, mac, [], state, []⟩

theorem awdlRx_eq (strict : Bool) (hash : EtherAddr → UInt64) (env : RxEnv) (frame : Buf)
    (state : AwdlState) (inside : ∀ run, env.radiotap frame.bytes = some run →
      8 ≤ itLen frame.bytes ∧ itLen frame.bytes ≤ frame.bytes.length) :
    awdlRx strict hash env frame state =
      if (radiotapParse env frame).1 = .ok then
        receiveMac strict hash env (frame.drop (itLen frame.bytes)) (radiotapParse env frame).2.1
          (radiotapParse env frame).2.2 state
      else .ok ⟨.unexpectedFormat, frame, [], state, []⟩ := by
  unfold awdlRx receiveMac
  rcases radiotapParse_cases env frame with failed | ⟨parsed, run, accepted⟩
  · generalize radiotapParse env frame = header at failed
    obtain ⟨result, rssi, flags⟩ := header
    obtain rfl : result = .unexpectedFormat := failed
    rfl
  · obtain ⟨long, bounded⟩ := inside run accepted
    have length := load_inside frame 2 2 (by decide) (by unfold bufLen; omega)
    have strip := bufStrip_eq frame (itLen frame.bytes)
    rw [if_pos bounded] at strip
    generalize radiotapParse env frame = header at parsed
    obtain ⟨result, rssi, flags⟩ := header
    obtain rfl : result = .ok := parsed
    have accepts : ¬ RxResult.ok.code < 0 := by decide
    have itLength : (ofLe16 (slice frame.bytes (Int.toNat 2) 2)).toNat = itLen frame.bytes := rfl
    simp only [accepts, ↓reduceIte, length, except_ok_bind, itLength, strip]
    cases checkFcs (frame.drop (itLen frame.bytes)) flags with
    | none => rfl
    | some mac =>
        dsimp only
        rw [readBytes_eq mac 0 (by decide) ieee80211HdrSize (by decide)]
        by_cases header : ieee80211HdrSize ≤ mac.bytes.length
        · have long : 24 ≤ mac.bytes.length := header
          have control := load_inside mac 0 2 (by decide) (by unfold bufLen; omega)
          have source : deref strict mac (.kept mac 10) = .ok (macSource mac) := by
            have read := load_inside mac 10 6 (by decide) (by unfold bufLen; omega)
            simp only [deref, Nat.sub_self, Nat.not_lt_zero, and_false, ↓reduceIte, Nat.cast_ofNat,
              read, except_ok_bind, except_pure]
            rfl
          have body := bufStrip_eq mac ieee80211HdrSize
          rw [if_pos header] at body
          have room : Int.toNat 0 + ieee80211HdrSize ≤ mac.bytes.length := by
            simpa using header
          simp only [room, header, ↓reduceIte, control, except_ok_bind, source,
            compareEtherAddr_eq_iff, body]
          rfl
        · have room : ¬ Int.toNat 0 + ieee80211HdrSize ≤ mac.bytes.length := by
            simpa using header
          simp only [room, header, ↓reduceIte]
          rfl

/-- The two ways through `awdl_rx`: the frame is not for the protocol and nothing
happens, or the body behind the 802.11 header goes to the function for its type. -/
theorem awdlRx_cases (strict : Bool) (hash : EtherAddr → UInt64) (env : RxEnv) (frame : Buf)
    (state : AwdlState) (inside : ∀ run, env.radiotap frame.bytes = some run →
      8 ≤ itLen frame.bytes ∧ itLen frame.bytes ≤ frame.bytes.length) :
    ((∀ mac, macFrame env frame = some mac → macSource mac = state.selfAddress) ∧
      ∃ outcome, awdlRx strict hash env frame state = .ok outcome ∧ outcome.result ≠ .ok ∧
        outcome.outputs = [] ∧ outcome.state = state ∧ outcome.trace = []) ∨
    ∃ mac, macFrame env frame = some mac ∧ macSource mac ≠ state.selfAddress ∧
      awdlRx strict hash env frame state =
        dispatch strict hash env (mac.drop 24) (radiotapParse env frame).2.1 (macFc mac)
          (.kept mac 10) (.kept mac 4) state := by
  rw [awdlRx_eq strict hash env frame state inside]
  unfold macFrame receiveMac
  by_cases parsed : (radiotapParse env frame).1 = .ok
  swap
  · rw [if_neg parsed, if_neg parsed]
    exact .inl ⟨by simp, _, rfl, by simp, rfl, rfl, rfl⟩
  rw [if_pos parsed, if_pos parsed]
  cases checkFcs (frame.drop (itLen frame.bytes)) (radiotapParse env frame).2.2 with
  | none => exact .inl ⟨by simp, _, rfl, by simp, rfl, rfl, rfl⟩
  | some mac =>
      dsimp only
      by_cases header : ieee80211HdrSize ≤ mac.bytes.length
      swap
      · rw [if_neg header]
        exact .inl ⟨by simp [header], _, rfl, by simp, rfl, rfl, rfl⟩
      rw [if_pos header]
      by_cases own : macSource mac = state.selfAddress
      · rw [if_pos own]
        exact .inl ⟨by simp [own], _, rfl, by simp, rfl, rfl, rfl⟩
      · rw [if_neg own]
        exact .inr ⟨mac, by simp [header], own, rfl⟩

end Owl.RxSpec
