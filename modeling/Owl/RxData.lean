import Owl.RxAction
import Owl.Siphash

/-!
Data frames: which Ethernet frames one call of `awdl_rx` produces. The body of
an A-MSDU is cut into its subframes on the level of bytes; the loop of
`awdl_rx_data_amsdu` then delivers the subframes of known peers up to the first
one it rejects. All results are for every state and every frame, whatever
memory the output buffers are made of.
-/

namespace Owl.RxData

open Bytes Ether Channel Sync Siphash Peers Wire State Frames RxTlv Rx RxSpec RxAction

structure Subframe where
  dst : EtherAddr
  src : EtherAddr
  body : List UInt8
  deriving DecidableEq

def WellFormed (body : List UInt8) : Prop := LlcValid body ∧ 16 ≤ body.length

instance (body : List UInt8) : Decidable (WellFormed body) :=
  inferInstanceAs (Decidable (_ ∧ _))

def Known (hash : EtherAddr → UInt64) (peers : PeerMap) (src : EtherAddr) : Prop :=
  (awdlPeerGet hash peers src).1 = .ok

instance (hash : EtherAddr → UInt64) (peers : PeerMap) (src : EtherAddr) :
    Decidable (Known hash peers src) :=
  inferInstanceAs (Decidable (_ = _))

def Subframe.etherType (sub : Subframe) : UInt16 := ofBe16 (slice sub.body 14 2)

def Subframe.payload (sub : Subframe) : List UInt8 := sub.body.drop 16

def Subframe.output (sub : Subframe) (memory : Fixed UInt8 etherMaxLen) : Buf :=
  etherFrame memory sub.dst sub.src sub.etherType sub.payload

def nextSubframe (bytes : List UInt8) : Option (Subframe × List UInt8) :=
  if 14 + (ofBe16 (slice bytes 12 2)).toNat ≤ bytes.length then
    some (⟨EtherAddr.ofBytes (slice bytes 0 6), EtherAddr.ofBytes (slice bytes 6 6),
        slice bytes 14 (ofBe16 (slice bytes 12 2)).toNat⟩,
      bytes.drop (14 + (ofBe16 (slice bytes 12 2)).toNat))
  else none

/-- The bytes behind the padding of a subframe; the last one needs none. -/
def skipPadding (len : Nat) (rest : List UInt8) : Option (List UInt8) :=
  if rest.length = 0 ∨ amsduPadding len ≤ rest.length then
    some (if rest.length = 0 then rest else rest.drop (amsduPadding len))
  else none

def parseAmsdu : Nat → List UInt8 → List Subframe × Bool
  | 0, _ => ([], true)
  | fuel + 1, bytes =>
      if bytes.length = 0 then ([], true)
      else match nextSubframe bytes with
        | none => ([], false)
        | some (sub, rest) =>
            match skipPadding sub.body.length rest with
            | none => ([sub], false)
            | some next => (sub :: (parseAmsdu fuel next).1, (parseAmsdu fuel next).2)

section Loop

variable (hash : EtherAddr → UInt64) (env : RxEnv)

def Rejected (peers : PeerMap) (sub : Subframe) : Prop :=
  Known hash peers sub.src ∧ ¬ WellFormed sub.body

instance (peers : PeerMap) (sub : Subframe) : Decidable (Rejected hash peers sub) :=
  inferInstanceAs (Decidable (_ ∧ _))

/-- The subframes that are delivered: those of known peers before the first
rejected one. -/
def accepted (peers : PeerMap) (subs : List Subframe) : List Subframe :=
  (subs.takeWhile fun sub => !decide (Rejected hash peers sub)).filter
    fun sub => decide (Known hash peers sub.src)

theorem accepted_cons (peers : PeerMap) (sub : Subframe) (rest : List Subframe)
    (fine : ¬ Rejected hash peers sub) :
    accepted hash peers (sub :: rest) = accepted hash peers [sub] ++ accepted hash peers rest := by
  simp only [accepted, List.takeWhile_cons, fine, decide_false, Bool.not_false, ↓reduceIte,
    List.takeWhile_nil]
  rw [← List.filter_append]
  rfl

def emit : Nat → List Subframe → List Buf
  | _, [] => []
  | index, sub :: rest => sub.output (env.output index) :: emit (index + 1) rest

theorem emit_length (index : Nat) (subs : List Subframe) : (emit env index subs).length = subs.length := by
  induction subs generalizing index with
  | nil => rfl
  | cons sub rest ih => simp [emit, ih]

theorem emit_append (index : Nat) (left right : List Subframe) :
    emit env index (left ++ right) = emit env index left ++ emit env (index + left.length) right := by
  induction left generalizing index with
  | nil => simp [emit]
  | cons sub rest ih =>
      simp only [List.cons_append, emit, ih, List.length_cons]
      congr 3
      omega

/-- One body through `awdl_rx_data`, seen as a subframe. -/
theorem dataOutcome_cases (frame : Buf) (src dst : EtherAddr) (state : AwdlState) (index : Nat) :
    (dataOutcome hash env frame src dst state index).state = countData state ∧
      if Rejected hash state.peers.peers ⟨dst, src, frame.bytes⟩ then
        (dataOutcome hash env frame src dst state index).result.code < 0 ∧
          (dataOutcome hash env frame src dst state index).outputs = []
      else
        0 ≤ (dataOutcome hash env frame src dst state index).result.code ∧
          ((dataOutcome hash env frame src dst state index).result = .ok ↔
            Known hash state.peers.peers src) ∧
          (dataOutcome hash env frame src dst state index).outputs =
            emit env index (accepted hash state.peers.peers [⟨dst, src, frame.bytes⟩]) := by
  unfold dataOutcome
  by_cases known : (awdlPeerGet hash state.peers.peers src).1 = .ok
  · by_cases valid : LlcValid frame.bytes
    · by_cases short : frame.bytes.length < 16
      · have rejected : Rejected hash state.peers.peers ⟨dst, src, frame.bytes⟩ :=
          ⟨known, fun formed => absurd formed.2 (Nat.not_le.mpr short)⟩
        simp only [known, valid, short, rejected, ne_eq, not_true_eq_false, ↓reduceIte]
        exact ⟨trivial, by decide, trivial⟩
      · have fine : ¬ Rejected hash state.peers.peers ⟨dst, src, frame.bytes⟩ :=
          fun rejected => rejected.2 ⟨valid, by simpa using short⟩
        have there : Known hash state.peers.peers src := known
        simp only [known, valid, short, fine, ne_eq, not_true_eq_false, ↓reduceIte, true_iff]
        refine ⟨trivial, by decide, there, ?_⟩
        simp [accepted, fine, there, emit, Subframe.output, Subframe.etherType, Subframe.payload]
    · have rejected : Rejected hash state.peers.peers ⟨dst, src, frame.bytes⟩ :=
        ⟨known, fun formed => valid formed.1⟩
      simp only [known, valid, rejected, ne_eq, not_true_eq_false, not_false_eq_true, ↓reduceIte]
      exact ⟨trivial, by decide, trivial⟩
  · have absent : ¬ Known hash state.peers.peers src := known
    have fine : ¬ Rejected hash state.peers.peers ⟨dst, src, frame.bytes⟩ :=
      fun rejected => absent rejected.1
    simp only [known, fine, ne_eq, not_false_eq_true, ↓reduceIte]
    refine ⟨trivial, by decide, ?_, ?_⟩
    · simp [absent]
    · simp [accepted, fine, absent, emit]

theorem nextSubframe_length (bytes rest : List UInt8) (sub : Subframe)
    (found : nextSubframe bytes = some (sub, rest)) :
    14 ≤ bytes.length ∧ rest.length + 14 ≤ bytes.length := by
  unfold nextSubframe at found
  split at found
  case isTrue whole =>
    cases found
    simp only [List.length_drop]
    omega
  case isFalse => cases found

variable (next : Buf → AwdlState → Nat → Except Fault DataOutcome) (frame : Buf)
  (state : AwdlState) (index : Nat)

/-- An incomplete subframe ends the loop at once. -/
theorem amsduRound_incomplete (more : frame.bytes.length ≠ 0)
    (incomplete : nextSubframe frame.bytes = none) :
    ∃ left, amsduRound false hash env next frame state index = .ok ⟨.tooShort, left, [], state⟩ := by
  have nonempty : ¬ bufLen frame ≤ 0 := by unfold bufLen; omega
  have strip := bufStrip_eq frame 14
  rw [Nat.cast_ofNat] at strip
  unfold amsduRound
  simp (disch := decide) only [readEtherAddr_eq, readBe16_eq, except_ok_bind, Int.reduceToNat,
    nonempty, ↓reduceIte, strip]
  by_cases header : 14 ≤ frame.bytes.length
  · have long : ¬ 14 + (ofBe16 (slice frame.bytes 12 2)).toNat ≤ frame.bytes.length := by
      intro whole
      rw [nextSubframe, if_pos whole] at incomplete
      cases incomplete
    have beyond : ((ofBe16 (slice frame.bytes 12 2)).toNat : Int) > bufLen (frame.drop 14) := by
      unfold bufLen
      simp only [drop_bytes, List.length_drop]
      omega
    rw [peek_inside 6 _ _ 0 (by omega), peek_inside 6 _ _ 6 (by omega),
      peek_inside 2 _ _ 12 (by omega)]
    simp only [header, ↓reduceIte, beyond, except_pure]
    exact ⟨frame.drop 14, rfl⟩
  · rw [peek_outside 2 _ _ 12 (by omega)]
    refine ⟨frame, ?_⟩
    cases peek 6 EtherAddr.ofBytes frame.bytes 0 with
    | none => rfl
    | some dst => cases peek 6 EtherAddr.ofBytes frame.bytes 6 <;> rfl

/-- A complete subframe is handed to `awdl_rx_data` on a view of its own, and the
loop goes on behind its padding. -/
theorem amsduRound_complete (sub : Subframe) (rest : List UInt8)
    (found : nextSubframe frame.bytes = some (sub, rest)) :
    ∃ body left : Buf, body.bytes = sub.body ∧ left.bytes = rest ∧
      ∀ outcome, outcome = dataOutcome hash env body sub.src sub.dst state index →
        amsduRound false hash env next frame state index =
          if outcome.result.code < 0 then
            .ok ⟨outcome.result, frame.drop 14, outcome.outputs, outcome.state⟩
          else if rest.length = 0 ∨ amsduPadding sub.body.length ≤ rest.length then do
            let tail ← next (if rest.length = 0 then left
                else left.drop (amsduPadding sub.body.length))
              outcome.state (index + outcome.outputs.length)
            return { tail with outputs := outcome.outputs ++ tail.outputs }
          else .ok ⟨.tooShort, left, outcome.outputs, outcome.state⟩ := by
  unfold nextSubframe at found
  split at found
  case isFalse => cases found
  case isTrue whole =>
  obtain ⟨rfl, rfl⟩ := Prod.mk.inj (Option.some.inj found)
  have nonempty : ¬ bufLen frame ≤ 0 := by unfold bufLen; omega
  have strip := bufStrip_eq frame 14
  rw [Nat.cast_ofNat, if_pos (by omega)] at strip
  unfold amsduRound
  simp (disch := decide) only [readEtherAddr_eq, readBe16_eq, except_ok_bind, Int.reduceToNat,
    nonempty, ↓reduceIte, strip]
  rw [peek_inside 6 _ _ 0 (by omega), peek_inside 6 _ _ 6 (by omega),
    peek_inside 2 _ _ 12 (by omega)]
  generalize ofBe16 (slice frame.bytes 12 2) = len at whole
  have within : ¬ (len.toNat : Int) > bufLen (frame.drop 14) := by
    unfold bufLen
    simp only [drop_bytes, List.length_drop]
    omega
  have room : len.toNat ≤ (frame.drop 14).bytes.length := by
    simp only [drop_bytes, List.length_drop]
    omega
  have view : bufNewConst (frame.drop 14) 0 len.toNat = .ok ((frame.drop 14).part 0 len.toNat) :=
    bufNewConst_eq (frame.drop 14) 0 len.toNat (by decide) (by simpa using room)
  have cut := bufStrip_eq (frame.drop 14) len.toNat
  rw [if_pos room] at cut
  have bodyBytes : ((frame.drop 14).part 0 len.toNat).bytes = slice frame.bytes 14 len.toNat := by
    simp [slice]
  have leftBytes : ((frame.drop 14).drop len.toNat).bytes = frame.bytes.drop (14 + len.toNat) := by
    simp [List.drop_drop]
  refine ⟨(frame.drop 14).part 0 len.toNat, (frame.drop 14).drop len.toNat, bodyBytes, leftBytes, ?_⟩
  intro outcome same
  have called := awdlRxData_eq hash env ((frame.drop 14).part 0 len.toNat)
    (.copy (EtherAddr.ofBytes (slice frame.bytes 6 6)))
    (.copy (EtherAddr.ofBytes (slice frame.bytes 0 6))) _ _ state index rfl rfl
  rw [← same] at called
  have length : (slice frame.bytes 14 len.toNat).length = len.toNat :=
    slice_length _ _ _ whole
  simp only [within, ↓reduceIte, view, except_ok_bind, called, cut, length]
  have size : bufLen ((frame.drop 14).drop len.toNat) =
      ((frame.bytes.drop (14 + len.toNat)).length : Int) := by
    rw [bufLen, leftBytes]
  by_cases failed : outcome.result.code < 0
  · simp only [failed, ↓reduceIte, except_pure]
  · simp only [failed, ↓reduceIte]
    by_cases last : (frame.bytes.drop (14 + len.toNat)).length = 0
    · have finished : ¬ bufLen ((frame.drop 14).drop len.toNat) > 0 := by omega
      simp only [finished, last, ↓reduceIte, true_or]
    · have goesOn : bufLen ((frame.drop 14).drop len.toNat) > 0 := by omega
      have pad := bufStrip_eq ((frame.drop 14).drop len.toNat) (amsduPadding len.toNat)
      rw [leftBytes] at pad
      simp only [goesOn, last, ↓reduceIte, false_or, pad]
      by_cases padded : amsduPadding len.toNat ≤ (frame.bytes.drop (14 + len.toNat)).length
      · simp only [padded, ↓reduceIte]
      · simp only [padded, ↓reduceIte, except_pure]

/-- What the loop makes of a body with these subframes: it delivers the accepted ones, and
ends with `RX_OK` exactly when the subframes use up the body and none is rejected. -/
structure Unpacked (parsed : List Subframe × Bool) (outcome : DataOutcome) : Prop where
  node : outcome.state = { state with stats := outcome.state.stats }
  outputs : outcome.outputs = emit env index (accepted hash state.peers.peers parsed.1)
  ends : outcome.result = .ok ↔
    parsed.2 = true ∧ ∀ sub ∈ parsed.1, ¬ Rejected hash state.peers.peers sub

section Unpacked

variable {hash env state index} {after : AwdlState} {sub : Subframe}
  (node : after = { state with stats := after.stats })

include node

theorem Unpacked.rejected (rejected : Rejected hash state.peers.peers sub) (result : RxResult)
    (negative : result.code < 0) (view : Buf) (more : List Subframe) (whole : Bool) :
    Unpacked hash env state index (sub :: more, whole) ⟨result, view, [], after⟩ where
  node := node
  outputs := by simp [accepted, rejected, emit]
  ends := by
    have notOk : result ≠ .ok := by
      intro ok
      rw [ok] at negative
      exact absurd negative (by decide)
    simp [rejected, notOk]

theorem Unpacked.cut (first : List Buf)
    (delivered : first = emit env index (accepted hash state.peers.peers [sub])) (view : Buf) :
    Unpacked hash env state index ([sub], false) ⟨.tooShort, view, first, after⟩ where
  node := node
  outputs := delivered
  ends := by simp

theorem Unpacked.cons (fine : ¬ Rejected hash state.peers.peers sub)
    (first : List Buf) (delivered : first = emit env index (accepted hash state.peers.peers [sub]))
    (parsed : List Subframe × Bool) (tail : DataOutcome)
    (later : Unpacked hash env after (index + first.length) parsed tail) :
    Unpacked hash env state index (sub :: parsed.1, parsed.2)
      { tail with outputs := first ++ tail.outputs } := by
  obtain ⟨tailNode, tailOutputs, tailEnds⟩ := later
  have samePeers : after.peers = state.peers := by rw [node]
  rw [samePeers] at tailOutputs tailEnds
  refine ⟨?_, ?_, ?_⟩
  · dsimp only
    rw [tailNode, node]
  · dsimp only
    rw [accepted_cons hash _ sub _ fine, emit_append, tailOutputs, delivered, emit_length]
  · rw [tailEnds]
    simp [fine]

end Unpacked

/-- The loop unpacks what `parseAmsdu` finds. -/
theorem amsduLoop_outcome (fuel : Nat) (enough : frame.bytes.length < fuel) :
    ∃ outcome, amsduLoop false hash env fuel frame state index = .ok outcome ∧
      Unpacked hash env state index (parseAmsdu fuel frame.bytes) outcome := by
  induction fuel generalizing frame state index with
  | zero => omega
  | succ fuel ih =>
  rw [amsduLoop, parseAmsdu]
  by_cases empty : frame.bytes.length = 0
  · have done : bufLen frame ≤ 0 := by unfold bufLen; omega
    rw [if_pos empty]
    refine ⟨⟨.ok, frame, [], state⟩, ?_, rfl, rfl, by simp⟩
    simp only [amsduRound, done, ↓reduceIte, except_pure]
  rw [if_neg empty]
  cases found : nextSubframe frame.bytes with
  | none =>
      obtain ⟨left, round⟩ := amsduRound_incomplete hash env
        (amsduLoop false hash env fuel) frame state index empty found
      exact ⟨_, round, rfl, rfl, by simp⟩
  | some pair =>
  obtain ⟨sub, rest⟩ := pair
  dsimp only
  obtain ⟨body, left, bodyBytes, leftBytes, round⟩ := amsduRound_complete hash env
    (amsduLoop false hash env fuel) frame state index sub rest found
  have shorter := nextSubframe_length _ _ _ found
  have cases := dataOutcome_cases hash env body sub.src sub.dst state index
  have round := round _ rfl
  generalize dataOutcome hash env body sub.src sub.dst state index = outcome at cases round
  obtain ⟨counted, outcomeCase⟩ := cases
  rw [bodyBytes] at outcomeCase
  have node : outcome.state = { state with stats := outcome.state.stats } := by
    rw [counted]
    rfl
  by_cases rejected : Rejected hash state.peers.peers sub
  · simp only [rejected, ↓reduceIte] at outcomeCase
    obtain ⟨negative, silent⟩ := outcomeCase
    rw [if_pos negative, silent] at round
    refine ⟨_, round, ?_⟩
    cases skipPadding sub.body.length rest <;> exact .rejected node rejected _ negative _ _ _
  simp only [rejected, ↓reduceIte] at outcomeCase
  obtain ⟨nonnegative, -, outputs⟩ := outcomeCase
  rw [if_neg (by omega : ¬ outcome.result.code < 0)] at round
  unfold skipPadding
  by_cases free : rest.length = 0 ∨ amsduPadding sub.body.length ≤ rest.length
  swap
  · rw [if_neg free] at round ⊢
    exact ⟨_, round, .cut node _ outputs _⟩
  rw [if_pos free] at round ⊢
  dsimp only
  -- The cursor stands behind the padding, if there is a next subframe.
  have view : (if rest.length = 0 then left
      else left.drop (amsduPadding sub.body.length)).bytes =
      if rest.length = 0 then rest else rest.drop (amsduPadding sub.body.length) := by
    split
    · exact leftBytes
    · rw [drop_bytes, leftBytes]
  have length : (if rest.length = 0 then rest
      else rest.drop (amsduPadding sub.body.length)).length ≤ rest.length := by
    split
    · exact Nat.le_refl _
    · simp only [List.length_drop]
      omega
  generalize (if rest.length = 0 then rest
    else rest.drop (amsduPadding sub.body.length)) = next at view length
  generalize (if rest.length = 0 then left
    else left.drop (amsduPadding sub.body.length)) = remaining at round view
  obtain ⟨tail, run, later⟩ := ih remaining outcome.state (index + outcome.outputs.length)
    (by rw [view]; omega)
  rw [view] at later
  refine ⟨_, ?_, .cons node rejected _ outputs _ tail later⟩
  rw [round, run]
  rfl

end Loop

inductive Carried where
  | nothing
  | single (body : Buf)
  | aggregate (body : Buf)

def carried (mac : Buf) : Carried :=
  let kind := macFc mac &&& (ieee80211FctlFtype ||| ieee80211FctlStype)
  if kind = (ieee80211FtypeData ||| ieee80211StypeData ||| ieee80211StypeQosData) then
    if mac.bytes.length < 26 then .nothing
    else if ofLe16 (slice mac.bytes 24 2) &&& ieee80211QosCtlAMsduPresent ≠ 0 then
      .aggregate (mac.drop 26)
    else .single (mac.drop 26)
  else if kind = (ieee80211FtypeData ||| ieee80211StypeData) then .single (mac.drop 24)
  else .nothing

def subframes (body : Buf) : List Subframe × Bool :=
  parseAmsdu (body.bytes.length + 1) body.bytes

section Dispatch

variable (hash : EtherAddr → UInt64) (env : RxEnv) (rssi : Int8) (mac : Buf) (state : AwdlState)

def delivered (peers : PeerMap) (mac : Buf) : List Subframe :=
  match carried mac with
  | .nothing => []
  | .single body => accepted hash peers [⟨macTarget mac, macSource mac, body.bytes⟩]
  | .aggregate body => accepted hash peers (subframes body).1

def Complete (peers : PeerMap) (mac : Buf) : Prop :=
  match carried mac with
  | .nothing => False
  | .single body => Known hash peers (macSource mac) ∧ WellFormed body.bytes
  | .aggregate body => (subframes body).2 = true ∧
      ∀ sub ∈ (subframes body).1, ¬ Rejected hash peers sub

def Delivers (outcome : RxOutcome) : Prop :=
  outcome.outputs = emit env 0 (delivered hash state.peers.peers mac) ∧
    (delivered hash state.peers.peers mac ≠ [] →
      (outcome.result = .ok ↔ Complete hash state.peers.peers mac))

theorem delivers_nothing (nothing : carried mac = .nothing) (outcome : RxOutcome)
    (silent : outcome.outputs = []) : Delivers hash env mac state outcome := by
  have none : delivered hash state.peers.peers mac = [] := by rw [delivered, nothing]
  exact ⟨by rw [silent, none]; rfl, fun some => absurd none some⟩

theorem delivers_single (body : Buf) (single : carried mac = .single body) :
    Delivers hash env mac state
      (dataOutcome hash env body (macSource mac) (macTarget mac) state 0).toRx := by
  have cases := (dataOutcome_cases hash env body (macSource mac) (macTarget mac) state 0).2
  unfold Delivers Complete delivered
  rw [single]
  dsimp only [DataOutcome.toRx]
  by_cases rejected : Rejected hash state.peers.peers ⟨macTarget mac, macSource mac, body.bytes⟩
  · simp only [rejected, ↓reduceIte] at cases
    simp [accepted, rejected, cases.2, emit]
  · simp only [rejected, ↓reduceIte] at cases
    obtain ⟨-, ok, outputs⟩ := cases
    refine ⟨outputs, fun _ => ok.trans ⟨fun known => ⟨known, ?_⟩, And.left⟩⟩
    by_contra malformed
    exact rejected ⟨known, malformed⟩

theorem dispatch_delivers (long : 24 ≤ mac.bytes.length) :
    Returns (dispatch false hash env (mac.drop 24) rssi (macFc mac) (.kept mac 10) (.kept mac 4)
      state) (Delivers hash env mac state) := by
  have source : Points (macSource mac) (.kept mac 10) := ⟨by omega, rfl⟩
  have target : Points (macTarget mac) (.kept mac 4) := ⟨by omega, rfl⟩
  have single : ∀ body : Buf, awdlRxData false hash env body (.kept mac 10) (.kept mac 4) state 0 =
      .ok (dataOutcome hash env body (macSource mac) (macTarget mac) state 0) := fun body =>
    awdlRxData_eq hash env body _ _ _ _ state 0 source target
  unfold dispatch
  simp only [single, except_ok_bind, except_pure]
  split
  case isTrue action =>
    obtain ⟨outcome, run, silent⟩ := awdlRxAction_returns hash env (mac.drop 24) (.kept mac 10)
      (macSource mac) state rssi source
    have nothing : carried mac = .nothing := by
      rw [carried, action]
      rfl
    exact ⟨outcome, run, delivers_nothing hash env mac state nothing outcome silent⟩
  case isFalse =>
  split
  case isTrue qos =>
    rw [readLe16_eq _ 0 (by decide) (by decide), except_ok_bind]
    by_cases control : mac.bytes.length < 26
    · have nothing : carried mac = .nothing := by
        simp only [carried, qos, ↓reduceIte, control]
      rw [peek_outside 2 _ _ _ (by simp; omega)]
      exact .ok _ (delivers_nothing hash env mac state nothing _ rfl)
    · have strip := bufStrip_eq (mac.drop 24) ieee80211QosCtlLen
      have two : ieee80211QosCtlLen = 2 := rfl
      have rest : (mac.drop 24).bytes.length = mac.bytes.length - 24 := List.length_drop
      have whole : (mac.drop 24).drop 2 = mac.drop 26 := Buf.ext_bytes (by simp [List.drop_drop])
      have field : slice (mac.drop 24).bytes 0 2 = slice mac.bytes 24 2 := by
        simp [slice]
      rw [two, if_pos (by omega), whole] at strip
      rw [two, peek_inside 2 _ _ _ (by rw [Int.toNat_zero]; omega), Int.toNat_zero, field]
      simp only [strip]
      by_cases aggregated : ofLe16 (slice mac.bytes 24 2) &&& ieee80211QosCtlAMsduPresent ≠ 0
      · have body : carried mac = .aggregate (mac.drop 26) := by
          simp only [carried, qos, ↓reduceIte, control]
          exact if_pos aggregated
        rw [if_pos aggregated]
        obtain ⟨outcome, run, -, outputs, result⟩ := amsduLoop_outcome hash env (mac.drop 26) state
          0 ((mac.drop 26).bytes.length + 1) (Nat.lt_succ_self _)
        rw [awdlRxDataAmsdu, run, except_ok_bind]
        refine .ok _ ⟨?_, fun _ => ?_⟩
        · rw [delivered, body]
          exact outputs
        · rw [Complete, body]
          exact result
      · have body : carried mac = .single (mac.drop 26) := by
          simp only [carried, qos, ↓reduceIte, control, aggregated]
        rw [if_neg aggregated]
        exact .ok _ (delivers_single hash env mac state _ body)
  case isFalse =>
  split
  case isTrue data =>
    have body : carried mac = .single (mac.drop 24) := by
      rw [carried, data]
      rfl
    exact .ok _ (delivers_single hash env mac state _ body)
  case isFalse notQos notData =>
    have nothing : carried mac = .nothing := by
      simp only [carried, notQos, notData, ↓reduceIte]
    exact .ok _ (delivers_nothing hash env mac state nothing _ rfl)

end Dispatch

/-- What `awdl_rx` delivers, for every captured frame. -/
theorem awdlRx_delivers (hash : EtherAddr → UInt64) (env : RxEnv) (frame : Buf) (state : AwdlState)
    (inside : RadiotapInside env) :
    ∃ outcome, awdlRx false hash env frame state = .ok outcome ∧
      ((∀ mac, macFrame env frame = some mac → macSource mac = state.selfAddress) ∧
          outcome.outputs = [] ∨
        ∃ mac, macFrame env frame = some mac ∧ macSource mac ≠ state.selfAddress ∧
          Delivers hash env mac state outcome) := by
  rcases awdlRx_cases false hash env frame state (inside _) with
    ⟨foreign, outcome, run, -, outputs, -⟩ | ⟨mac, found, other, run⟩
  · exact ⟨outcome, run, .inl ⟨foreign, outputs⟩⟩
  · obtain ⟨outcome, dispatched, delivers⟩ := dispatch_delivers hash env
      (radiotapParse env frame).2.1 mac state (macFrame_length env frame mac found)
    exact ⟨outcome, run.trans dispatched, .inr ⟨mac, found, other, delivers⟩⟩

def maxNumAmpdu : Nat := 16

/-- A frame of another node with an A-MSDU in which more than `maxNumAmpdu`
subframes of known peers come before the first malformed one of a known peer. -/
def Overfull (hash : EtherAddr → UInt64) (env : RxEnv) (frame : Buf) (state : AwdlState) : Prop :=
  ∃ mac body, macFrame env frame = some mac ∧ macSource mac ≠ state.selfAddress ∧
    carried mac = .aggregate body ∧
    maxNumAmpdu < (accepted hash state.peers.peers (subframes body).1).length

/-- The bound of the array is exactly what such a frame breaks. -/
theorem outputs_fit_iff {hash : EtherAddr → UInt64} {env : RxEnv} {frame : Buf} {state : AwdlState}
    {outcome : RxOutcome} (inside : RadiotapInside env)
    (run : awdlRx false hash env frame state = .ok outcome) :
    outcome.outputs.length ≤ maxNumAmpdu ↔ ¬ Overfull hash env frame state := by
  obtain ⟨other, same, ⟨foreign, none⟩ | ⟨mac, found, apart, outputs, -⟩⟩ :=
    awdlRx_delivers hash env frame state inside
  all_goals
    obtain rfl : outcome = other := Except.ok.inj (run.symm.trans same)
  · refine iff_of_true (by simp [none]) ?_
    rintro ⟨mac, body, found, apart, -⟩
    exact apart (foreign mac found)
  · rw [outputs, emit_length, ← not_lt, not_iff_not]
    have single : ∀ sub : Subframe, (accepted hash state.peers.peers [sub]).length ≤ 1 := fun sub =>
      (List.length_filter_le _ _).trans (List.takeWhile_prefix _).length_le
    constructor
    · intro many
      refine ⟨mac, ?_⟩
      unfold delivered at many
      cases load : carried mac with
      | nothing =>
          rw [load] at many
          exact absurd many (Nat.not_lt_zero _)
      | single body =>
          rw [load] at many
          exact absurd (many.trans_le (single _)) (by decide)
      | aggregate body =>
          rw [load] at many
          exact ⟨body, found, apart, rfl, many⟩
    · rintro ⟨mac', body, found', -, load, many⟩
      obtain rfl : mac = mac' := Option.some.inj (found.symm.trans found')
      rw [delivered, load]
      exact many

theorem awdlRx_outputs_fit_iff (hash : EtherAddr → UInt64) (env : RxEnv) (frame : Buf)
    (state : AwdlState) (inside : RadiotapInside env) :
    ∃ outcome, awdlRx false hash env frame state = .ok outcome ∧
      (outcome.outputs.length ≤ maxNumAmpdu ↔ ¬ Overfull hash env frame state) := by
  obtain ⟨outcome, run, -⟩ := awdlRx_delivers hash env frame state inside
  exact ⟨outcome, run, outputs_fit_iff inside run⟩

section Overflow

def zeroEnv : RxEnv where
  radiotap := byteRadiotap
  long := .bits64
  now := 1000000
  alloc := fun _ => true
  memory := zeroPeer
  rssi := 0
  flags := 0
  list := fun _ => awdlChanseqInitStatic chanNull
  output := fun _ => Fixed.replicate _ 0

def selfAddr : EtherAddr := ⟨2, 0, 0, 0, 0, 1⟩
def peerAddr : EtherAddr := ⟨2, 0, 0, 0, 0, 2⟩

def capture (src : EtherAddr) (fc : List UInt8) (body : List UInt8) : List UInt8 :=
  [0, 0, 10, 0, 0x22, 0, 0, 0, 0, 0] ++ fc ++ [0, 0] ++ selfAddr.bytes ++ src.bytes ++
    awdlBssid.bytes ++ [0, 0] ++ body

def actionCapture (src : EtherAddr) (type : ActionType) (tlvs : List UInt8) : List UInt8 :=
  capture src [0xd0, 0] ([127] ++ awdlOui ++ [8, 0x10, type.code] ++ List.replicate 9 0 ++ tlvs)

def psfCapture : Buf := ⟨actionCapture peerAddr .psf [], by decide⟩

def psfFrom (a b : UInt8) : Buf :=
  ⟨actionCapture ⟨2, 0, 0, 0, a, b⟩ .psf [], show 50 < 2 ^ 31 by decide⟩

def dataBody (payload : List UInt8) : List UInt8 :=
  [0xaa, 0xaa, 3, 0, 0x17, 0xf2, 8, 0, 3, 4, 0, 0, 0, 0, 0x86, 0xdd] ++ payload

def subframeBytes : List UInt8 :=
  selfAddr.bytes ++ peerAddr.bytes ++ [0, 16] ++ dataBody [] ++ [0, 0]

def amsduCapture : Buf :=
  ⟨capture peerAddr [0x88, 0] ([0x80, 0] ++ (List.replicate 17 subframeBytes).flatten), by
    decide +kernel⟩

def startState : AwdlState :=
  awdlInitState (Fixed.replicate _ 0) [] selfAddr chanNull 0

/-- The peer is learnt from its PSF, then its A-MSDU fills one slot too many. -/
theorem amsdu_received : ∃ learnt outcome,
    awdlRx false addrHash zeroEnv psfCapture startState = .ok learnt ∧
      awdlRx false addrHash zeroEnv amsduCapture learnt.state = .ok outcome ∧
      outcome.outputs.length = 17 := by
  have count : ((awdlRx false addrHash zeroEnv psfCapture startState).bind fun learnt =>
      (awdlRx false addrHash zeroEnv amsduCapture learnt.state).map fun outcome =>
        outcome.outputs.length).toOption = some 17 := by decide +kernel
  obtain ⟨learnt, first, later⟩ := toOption_bind_some count
  obtain ⟨outcome, second, many⟩ := toOption_map_some later
  exact ⟨learnt, outcome, first, second, many⟩

theorem awdlRx_outputs_overflow : ∃ learnt outcome,
    awdlRx false addrHash zeroEnv psfCapture startState = .ok learnt ∧
      awdlRx false addrHash zeroEnv amsduCapture learnt.state = .ok outcome ∧
      ¬ outcome.outputs.length ≤ maxNumAmpdu := by
  obtain ⟨learnt, outcome, first, second, many⟩ := amsdu_received
  exact ⟨learnt, outcome, first, second, by rw [many]; decide⟩

theorem awdlRx_outputs_fit_iff_amsdu : RadiotapInside zeroEnv ∧ ∃ learnt outcome,
    awdlRx false addrHash zeroEnv psfCapture startState = .ok learnt ∧
      awdlRx false addrHash zeroEnv amsduCapture learnt.state = .ok outcome ∧
      (outcome.outputs.length ≤ maxNumAmpdu ↔
        ¬ Overfull addrHash zeroEnv amsduCapture learnt.state) ∧
      Overfull addrHash zeroEnv amsduCapture learnt.state := by
  obtain ⟨learnt, outcome, first, second, many⟩ := amsdu_received
  obtain ⟨same, run, fits⟩ := awdlRx_outputs_fit_iff addrHash zeroEnv amsduCapture learnt.state
    byteRadiotap_inside
  rw [second] at run
  cases run
  refine ⟨byteRadiotap_inside, learnt, outcome, first, second, fits, ?_⟩
  by_contra room
  have few := fits.mpr room
  rw [many] at few
  exact absurd few (by decide)

end Overflow

/-! The output buffers always have the length of the largest Ethernet frame, so
only a payload that fills them arrives unchanged. -/
section Exact

def Subframe.ethernet (sub : Subframe) : List UInt8 :=
  sub.dst.bytes ++ sub.src.bytes ++ be16 sub.etherType ++ sub.payload

theorem output_exact_iff (sub : Subframe) (memory : Fixed UInt8 etherMaxLen) :
    (sub.output memory).bytes = sub.ethernet ↔ sub.payload.length = 1504 := by
  have size : memory.toList.length = 1518 := memory.size
  have header : sub.ethernet = etherHeader sub.dst sub.src sub.etherType ++ sub.payload := by
    simp [Subframe.ethernet, etherHeader]
  have length : (sub.output memory).bytes.length = 1518 := etherBytes_length memory _ _ _ _
  constructor
  · intro same
    rw [same, header, List.length_append, etherHeader_length] at length
    omega
  · intro full
    rw [header]
    show etherBytes memory sub.dst sub.src sub.etherType sub.payload = _
    rw [etherBytes, if_pos (by omega), List.drop_eq_nil_of_le (by omega), List.append_nil]

theorem emit_exact_iff (env : RxEnv) (index : Nat) (subs : List Subframe) :
    (emit env index subs).map Buf.bytes = subs.map Subframe.ethernet ↔
      ∀ sub ∈ subs, sub.payload.length = 1504 := by
  induction subs generalizing index with
  | nil => simp [emit]
  | cons sub rest ih =>
      rw [emit, List.map_cons, List.map_cons, List.cons.injEq, output_exact_iff, ih,
        List.forall_mem_cons]

def FullSize (hash : EtherAddr → UInt64) (env : RxEnv) (frame : Buf) (state : AwdlState) : Prop :=
  ∀ mac, macFrame env frame = some mac → macSource mac ≠ state.selfAddress →
    Complete hash state.peers.peers mac →
    ∀ sub ∈ delivered hash state.peers.peers mac, sub.payload.length = 1504

def deliveries (hash : EtherAddr → UInt64) (env : RxEnv) (frame : Buf) (state : AwdlState) :
    List Subframe :=
  match macFrame env frame with
  | none => []
  | some mac =>
      if macSource mac = state.selfAddress then [] else delivered hash state.peers.peers mac

theorem awdlRx_exact_iff (hash : EtherAddr → UInt64) (env : RxEnv) (frame : Buf)
    (state : AwdlState) (inside : RadiotapInside env) :
    ∃ outcome, awdlRx false hash env frame state = .ok outcome ∧
      ((outcome.result = .ok → outcome.outputs.map Buf.bytes =
        (deliveries hash env frame state).map Subframe.ethernet) ↔
          FullSize hash env frame state) := by
  obtain ⟨outcome, run, ⟨foreign, none⟩ | ⟨mac, found, other, outputs, result⟩⟩ :=
    awdlRx_delivers hash env frame state inside
  · have nothing : deliveries hash env frame state = [] := by
      unfold deliveries
      cases found : macFrame env frame with
      | none => rfl
      | some mac => exact if_pos (foreign mac found)
    refine ⟨outcome, run, iff_of_true (fun _ => by rw [none, nothing]; rfl) ?_⟩
    intro mac found other
    exact absurd (foreign mac found) other
  · have all : deliveries hash env frame state = delivered hash state.peers.peers mac := by
      rw [deliveries, found]
      exact if_neg other
    refine ⟨outcome, run, ?_⟩
    rw [outputs, all, emit_exact_iff]
    constructor
    · intro exact' mac' found' _ complete sub member
      obtain rfl : mac = mac' := Option.some.inj (found.symm.trans found')
      exact exact' ((result (List.ne_nil_of_mem member)).mpr complete) sub member
    · intro full ok sub member
      exact full mac found other ((result (List.ne_nil_of_mem member)).mp ok) sub member

def dataCapture : Buf := ⟨capture peerAddr [0x08, 0] (dataBody []), by decide⟩

/-- The host gets 1518 bytes for a frame of 14. -/
theorem data_received : ∃ learnt outcome,
    awdlRx false addrHash zeroEnv psfCapture startState = .ok learnt ∧
      awdlRx false addrHash zeroEnv dataCapture learnt.state = .ok outcome ∧
      outcome.result = .ok ∧ (outcome.outputs.map Buf.bytes).map List.length = [1518] ∧
      ((deliveries addrHash zeroEnv dataCapture learnt.state).map Subframe.ethernet).map
        List.length = [14] := by
  have lengths : ((awdlRx false addrHash zeroEnv psfCapture startState).bind fun learnt =>
      (awdlRx false addrHash zeroEnv dataCapture learnt.state).map fun outcome =>
        (outcome.result, (outcome.outputs.map Buf.bytes).map List.length,
          ((deliveries addrHash zeroEnv dataCapture learnt.state).map Subframe.ethernet).map
            List.length)).toOption = some (.ok, [1518], [14]) := by decide +kernel
  obtain ⟨learnt, first, later⟩ := toOption_bind_some lengths
  obtain ⟨outcome, second, shown⟩ := toOption_map_some later
  simp only [Prod.mk.injEq] at shown
  exact ⟨learnt, outcome, first, second, shown⟩

theorem awdlRx_appends : ∃ learnt outcome,
    awdlRx false addrHash zeroEnv psfCapture startState = .ok learnt ∧
      awdlRx false addrHash zeroEnv dataCapture learnt.state = .ok outcome ∧
      outcome.result = .ok ∧
      outcome.outputs.map Buf.bytes ≠
        (deliveries addrHash zeroEnv dataCapture learnt.state).map Subframe.ethernet := by
  obtain ⟨learnt, outcome, first, second, result, long, short⟩ := data_received
  refine ⟨learnt, outcome, first, second, result, ?_⟩
  intro same
  rw [same, short] at long
  exact absurd long (by decide)

theorem awdlRx_exact_iff_data : RadiotapInside zeroEnv ∧ ∃ learnt outcome,
    awdlRx false addrHash zeroEnv psfCapture startState = .ok learnt ∧
      awdlRx false addrHash zeroEnv dataCapture learnt.state = .ok outcome ∧
      ((outcome.result = .ok → outcome.outputs.map Buf.bytes =
        (deliveries addrHash zeroEnv dataCapture learnt.state).map Subframe.ethernet) ↔
          FullSize addrHash zeroEnv dataCapture learnt.state) ∧
      ¬ FullSize addrHash zeroEnv dataCapture learnt.state := by
  obtain ⟨learnt, outcome, first, second, result, long, short⟩ := data_received
  obtain ⟨same, run, exactly⟩ := awdlRx_exact_iff addrHash zeroEnv dataCapture learnt.state
    byteRadiotap_inside
  rw [second] at run
  cases run
  refine ⟨byteRadiotap_inside, learnt, outcome, first, second, exactly, fun full => ?_⟩
  rw [exactly.mpr full result, short] at long
  exact absurd long (by decide)

end Exact

end Owl.RxData
