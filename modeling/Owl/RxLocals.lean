import Owl.TlvAccept

/-!
Reception and uninitialised memory. `awdl_rx` leaves its locals `rssi` and `flags`
to the radiotap header, and the handler for channel sequences leaves `list` to the
channels it copies. Two receptions of one frame that differ in the contents of
these locals end alike unless the header lacks a field that is used, or a channel
sequence is stored of which one byte in two was never written.
-/

namespace Owl.RxLocals

open Bytes Ether Channel Siphash Peers PeersRefine Wire State Frames RxTlv Rx RxSpec RxAction RxData
  RxPeers TlvLoop TlvLocals TlvAccept

section Action

variable (hash : EtherAddr → UInt64) (env : RxEnv) (frame : Buf) (src : AddrPtr) (addr : EtherAddr)
  (subtype : UInt8) (state : AwdlState)

def senderTerms : Terms :=
  ⟨Election.awdlElectionIsSyncMaster state.election addr, state.sync.presenceMode,
    (state.peers.peers.contents addr).any Peer.supportsV2⟩

/-- The frame leaves bytes of `list` in the entry of its sender: there is memory for
one, and of the TLVs in front of the first that is cut off or refused the last
channel sequence has one byte to a channel. -/
structure Stains (tlvs : List (UInt8 × List UInt8)) : Prop where
  memory : HasMemory hash env state addr
  accepted : AllAccepted (senderTerms addr state) tlvs
  ends : ∃ rest, frame.bytes = tlvs.flatMap encodeTlv ++ rest ∧
    Blocked ((senderTerms addr state).afterAll tlvs) rest
  simple : LastSimple tlvs

variable {hash addr} in
/-- The entry to which the TLVs are applied. -/
theorem entered_terms {entry : Peer} {events : List RxEvent} (table : PeerMap)
    (valid : TableValid hash state.peers.peers)
    (entered : Entered env addr (announcer state) state.peers.peers.contents entry events) :
    termsOf entry (withTable (countAction state) table) = senderTerms addr state := by
  have named := entered.addr_eq env addr valid.own
  unfold termsOf senderTerms
  rw [named]
  cases entered with
  | old peer found =>
      rw [found, announce_only]
      rfl
  | new absent =>
      rw [absent]
      rfl

theorem acceptAction_same (points : Points addr src) (valid : TableValid hash state.peers.peers)
    (clean : ∀ tlvs, ¬ Stains hash env frame addr state tlvs) (rssi : Int8) (flags : UInt8)
    (list : Nat → ChanSeq) :
    acceptAction false hash (withLocals env rssi flags list) frame src subtype state =
      acceptAction false hash env frame src subtype state := by
  obtain ⟨table, tableValid, ⟨refused, -, -⟩ |
    ⟨status, entry, events, added, fine, entered, contents⟩⟩ :=
      addPeer_cases hash env (countAction state) addr valid
  · have negative : PeersStatus.internal.code < 0 := by decide
    have refused' : addPeer hash (withLocals env rssi flags list) (countAction state) addr =
      (.internal, withTable (countAction state) table, []) := refused
    unfold acceptAction
    simp only [deref_eq _ src addr points, except_ok_bind]
    rw [show addPeer hash env { state with
        stats := { state.stats with rxAction := state.stats.rxAction + 1 } } addr = _ from refused,
      show addPeer hash (withLocals env rssi flags list) { state with
        stats := { state.stats with rxAction := state.stats.rxAction + 1 } } addr = _ from refused']
    simp only [negative, ↓reduceIte]
  · have get : awdlPeerGet hash table addr = (.ok, some entry) := by
      rw [awdlPeerGet_eq table tableValid.map, contents, Function.update_self]
    obtain ⟨tlvs, rest, last, final, calls, cut, handled, stuck⟩ := handles_stuck env frame entry
      (withTable (countAction state) table)
    have terms := entered_terms env state table valid entered
    have memory : HasMemory hash env state addr := by
      refine (addPeer_added_iff hash env (countAction state) addr valid).mp fun full => ?_
      rw [added] at full
      subst full
      exact absurd fine (by decide)
    obtain ⟨accepted, after⟩ := handles_accepted handled
    have blocked := (stuck_iff env rest last final).mp stuck
    rw [after, terms] at blocked
    rw [terms] at accepted
    have same := tlvLoop_same rssi flags list frame cut handled stuck fun simple =>
      clean tlvs ⟨memory, accepted, ⟨rest, cut, blocked⟩, simple⟩
    obtain ⟨loop, run, -⟩ := tlvLoop_kept env (frame.bytes.length + 1) frame entry
      (withTable (countAction state) table)
    rw [acceptAction_eq hash env frame addr subtype state src points status _ events entry loop added
        fine get run,
      acceptAction_eq hash (withLocals env rssi flags list) frame addr subtype state src points
        status _ events entry loop added fine get (same.trans run)]
    rfl

/-- The sequence that the loop leaves is the one in the table. -/
theorem closeAction_sequence (events : List RxEvent) (loop : TlvOutcome) (old : Peer)
    (valid : TableValid hash loop.state.peers.peers)
    (present : loop.state.peers.peers.contents addr = some old) (named : loop.peer.addr = addr) :
    ∃ peer, (closeAction hash env addr subtype events loop).state.peers.peers.contents addr =
      some peer ∧ peer.sequence = loop.peer.sequence := by
  obtain ⟨stored, storedEq, storedValid, storedContents⟩ := storePeer_eq hash addr loop.state valid
    old loop.peer present named
  have there : stored.contents addr = some loop.peer := by
    rw [storedContents, Function.update_self]
  unfold closeAction
  dsimp only
  rw [storedEq]
  split
  · obtain ⟨marked, markedEq, markedValid, markedContents⟩ := markMif_eq hash addr subtype
      (withTable loop.state stored) storedValid loop.peer there named
    obtain ⟨status, last, lastEq, -, lastContents⟩ := addPeer_present hash env addr
      (withTable loop.state marked) markedValid (markMif subtype loop.peer)
      (by rw [withTable_peers, markedContents, Function.update_self])
    simp only [markedEq, withTable_withTable, lastEq, withTable_peers, lastContents,
      Function.update_self]
    refine ⟨_, rfl, ?_⟩
    rw [announce_only, markMif_only]
  · exact ⟨loop.peer, there, rfl⟩

theorem acceptAction_stained (points : Points addr src) (valid : TableValid hash state.peers.peers)
    (tlvs : List (UInt8 × List UInt8)) (stains : Stains hash env frame addr state tlvs)
    (rssi : Int8) (flags : UInt8) (list : Nat → ChanSeq) :
    ∃ outcome peer left,
      acceptAction false hash (withLocals env rssi flags list) frame src subtype state =
        .ok outcome ∧
      outcome.state.peers.peers.contents addr = some peer ∧
      seconds peer.sequence = seconds (list left) := by
  obtain ⟨memory, accepted, ⟨rest, cut, blocked⟩, simple⟩ := stains
  obtain ⟨table, tableValid, ⟨refused, -⟩ |
    ⟨status, entry, events, added, fine, entered, contents⟩⟩ :=
      addPeer_cases hash env (countAction state) addr valid
  · have full := (addPeer_added_iff hash env (countAction state) addr valid).mpr memory
    rw [refused] at full
    exact absurd rfl full
  have terms := entered_terms env state table valid entered
  rw [← terms] at accepted blocked
  obtain ⟨last, final, calls, handled, after⟩ := accepted_handles accepted
  rw [← after, ← stuck_iff env] at blocked
  obtain ⟨loop, left, run, second⟩ := tlvLoop_stained rssi flags list frame cut handled blocked simple
  obtain ⟨same, again, kept, -⟩ := tlvLoop_kept (withLocals env rssi flags list)
    (frame.bytes.length + 1) frame entry (withTable (countAction state) table)
  rw [run] at again
  cases again
  have present : table.contents addr = some entry := by rw [contents, Function.update_self]
  -- The loop does not touch the table, so the entry is there to be overwritten.
  have tableSame : loop.state.peers.peers = table := by rw [kept.node]; rfl
  obtain ⟨after, there, sequence⟩ := closeAction_sequence hash (withLocals env rssi flags list) addr
    subtype events loop entry (by rw [tableSame]; exact tableValid) (by rw [tableSame]; exact present)
    (kept.addr.trans (tableValid.own addr entry present))
  refine ⟨_, after, left, acceptAction_eq hash (withLocals env rssi flags list) frame addr subtype
    state src points status _ events entry loop added fine ?_ run, there, by rw [sequence, second]⟩
  rw [withTable_peers, awdlPeerGet_eq table tableValid.map, present]

end Action

section Radiotap

def Reports (index : Nat) (run : RadiotapRun) : Prop :=
  ∃ arg ∈ run.args, arg.isRadiotapNs = true ∧ arg.thisArgIndex = index

/-- A variable that some of the arguments overwrite holds what the last of them writes. -/
theorem foldl_last {α β : Type} (writes : α → Bool) (value : α → β) (args : List α) (start : β) :
    args.foldl (fun kept arg => if writes arg then value arg else kept) start =
      ((args.filter writes).getLast?.map value).getD start := by
  induction args generalizing start with
  | nil => rfl
  | cons arg args ih =>
      rw [List.foldl_cons, ih, List.filter_cons]
      cases written : writes arg with
      | false => simp
      | true =>
          simp only [↓reduceIte, List.getLast?_cons]
          -- A later writer, if there is one, hides this one.
          cases (args.filter writes).getLast? <;> simp

theorem foldl_override {α β : Type} (writes : α → Bool) (value : α → β) (args : List α)
    (start start' : β) :
    ((∃ arg ∈ args, writes arg = true) →
        args.foldl (fun kept arg => if writes arg then value arg else kept) start =
          args.foldl (fun kept arg => if writes arg then value arg else kept) start') ∧
      ((¬ ∃ arg ∈ args, writes arg = true) →
        args.foldl (fun kept arg => if writes arg then value arg else kept) start = start) := by
  rw [foldl_last, foldl_last]
  constructor
  · rintro ⟨arg, member, written⟩
    have some_left : args.filter writes ≠ [] :=
      List.ne_nil_of_mem (List.mem_filter.mpr ⟨member, written⟩)
    rw [List.getLast?_eq_some_getLast some_left]
    rfl
  · intro none
    have nothing : args.filter writes = [] :=
      List.filter_eq_nil_iff.mpr fun arg member written => none ⟨arg, member, written⟩
    rw [nothing]
    rfl

def isFlags (arg : RadiotapArg) : Bool :=
  arg.isRadiotapNs && decide (arg.thisArgIndex = ieee80211RadiotapFlags)

def isAntsignal (arg : RadiotapArg) : Bool :=
  arg.isRadiotapNs && decide (arg.thisArgIndex = ieee80211RadiotapDbmAntsignal)

/-- The two variables are filled independently of each other. -/
theorem radiotapArg_foldl (args : List RadiotapArg) (found : Int8 × UInt8) :
    args.foldl radiotapArg found =
      (args.foldl (fun rssi arg => if isAntsignal arg then arg.thisArg.toInt8 else rssi) found.1,
        args.foldl (fun flags arg => if isFlags arg then arg.thisArg else flags) found.2) := by
  induction args generalizing found with
  | nil => rfl
  | cons arg args ih =>
      rw [List.foldl_cons, ih, List.foldl_cons, List.foldl_cons]
      unfold radiotapArg isAntsignal isFlags
      have apart : ieee80211RadiotapFlags ≠ ieee80211RadiotapDbmAntsignal := by decide
      cases arg.isRadiotapNs with
      | false => rfl
      | true =>
          by_cases flags : arg.thisArgIndex = ieee80211RadiotapFlags
          · simp [flags, apart]
          · by_cases signal : arg.thisArgIndex = ieee80211RadiotapDbmAntsignal
            · simp [signal, apart.symm]
            · simp [flags, signal]

theorem reports_flags (run : RadiotapRun) :
    Reports ieee80211RadiotapFlags run ↔ ∃ arg ∈ run.args, isFlags arg = true := by
  simp [Reports, isFlags]

theorem reports_antsignal (run : RadiotapRun) :
    Reports ieee80211RadiotapDbmAntsignal run ↔ ∃ arg ∈ run.args, isAntsignal arg = true := by
  simp [Reports, isAntsignal]

end Radiotap

section Data

variable (hash : EtherAddr → UInt64) (env : RxEnv) (rssi : Int8) (flags : UInt8)
  (list : Nat → ChanSeq)

/-- The data path uses none of the locals. -/
theorem amsduLoop_same (strict : Bool) (fuel : Nat) :
    amsduLoop strict hash (withLocals env rssi flags list) fuel =
      amsduLoop strict hash env fuel := by
  induction fuel with
  | zero => rfl
  | succ fuel ih =>
      funext frame state index
      rw [amsduLoop, amsduLoop, ih]
      rfl

/-- `RX_IGNORE_FAILED_CRC` is a result of the FCS check alone. -/
theorem dataOutcome_result (frame : Buf) (src dst : EtherAddr) (state : AwdlState) (index : Nat) :
    (dataOutcome hash env frame src dst state index).result ≠ .ignoreFailedCrc := by
  unfold dataOutcome
  repeat' split
  all_goals simp

theorem amsduLoop_result (fuel : Nat) (frame : Buf) (state : AwdlState) (index : Nat)
    (outcome : DataOutcome) (run : amsduLoop false hash env fuel frame state index = .ok outcome) :
    outcome.result ≠ .ignoreFailedCrc := by
  induction fuel generalizing frame state index outcome with
  | zero =>
      cases run
      simp
  | succ fuel ih =>
      rw [amsduLoop] at run
      by_cases empty : frame.bytes.length = 0
      · have done : bufLen frame ≤ 0 := by unfold bufLen; omega
        simp only [amsduRound, done, ↓reduceIte, except_pure] at run
        cases run
        simp
      -- One case for each way in which a round ends.
      cases found : nextSubframe frame.bytes with
      | none =>
          obtain ⟨left, round⟩ := amsduRound_incomplete hash env (amsduLoop false hash env fuel) frame
            state index empty found
          rw [round] at run
          cases run
          simp
      | some pair =>
          obtain ⟨body, left, -, -, round⟩ := amsduRound_complete hash env
            (amsduLoop false hash env fuel) frame state index pair.1 pair.2 found
          rw [round _ rfl] at run
          split at run
          · cases run
            exact dataOutcome_result hash env body _ _ state index
          split at run
          · generalize hit : amsduLoop false hash env fuel _ _ _ = later at run
            cases later with
            | error fault => cases run
            | ok tail =>
                cases run
                exact ih _ _ _ tail hit
          · cases run
            simp

end Data

section Receive

variable (hash : EtherAddr → UInt64) (env : RxEnv) (state : AwdlState)

/-- Nothing but an action frame makes `dispatch` look at the locals. -/
theorem dispatch_same (frame : Buf) (rssi rssi' : Int8) (fc : UInt16) (source target : AddrPtr)
    (other : fc &&& (ieee80211FctlFtype ||| ieee80211FctlStype) ≠
      (ieee80211FtypeMgmt ||| ieee80211StypeAction))
    (signal : Int8) (flags : UInt8) (list : Nat → ChanSeq) :
    dispatch false hash (withLocals env signal flags list) frame rssi' fc source target state =
      dispatch false hash env frame rssi fc source target state := by
  unfold dispatch awdlRxDataAmsdu
  rw [if_neg other, if_neg other]
  simp only [amsduLoop_same]
  rfl

theorem actionEffect_result {frame : Buf} {addr : EtherAddr} {subtype : UInt8}
    {outcome : RxOutcome} (effect : ActionEffect hash env frame addr subtype state outcome) :
    outcome.result ≠ .ignoreFailedCrc ∧ outcome.result ≠ .ignoreRssi := by
  cases effect <;> simp

theorem awdlRxAction_rejected (frame : Buf) (rssi : Int8) (src : AddrPtr) (addr : EtherAddr)
    (points : Points addr src) (header : ActionHeader frame.bytes)
    (filters : state.filterRssi = true) (rejected : rejectedByRssi hash state addr rssi = true) :
    awdlRxAction false hash env frame rssi src state =
      .ok ⟨.ignoreRssi, frame.drop 16, [], state, []⟩ := by
  have strip := bufStrip_eq frame awdlActionSize
  rw [if_pos header.1] at strip
  unfold awdlRxAction
  rw [awdlParseActionHdr_eq, if_pos header, except_ok_bind]
  simp only [strip, Option.getD_some, deref_eq _ src addr points, except_ok_bind, filters, rejected,
    ↓reduceIte]
  rfl

theorem awdlRxAction_headless (frame : Buf) (rssi : Int8) (src : AddrPtr)
    (header : ¬ ActionHeader frame.bytes) :
    awdlRxAction false hash env frame rssi src state = .ok ⟨.ignore, frame, [], state, []⟩ := by
  unfold awdlRxAction
  rw [awdlParseActionHdr_eq, if_neg header, except_ok_bind]
  rfl

def rssiLimit (addr : EtherAddr) : Int :=
  state.rssiThreshold.toInt +
    if (awdlPeerGet hash state.peers.peers addr).1 = .ok then state.rssiGrace.toInt else 0

theorem rejected_iff (addr : EtherAddr) (rssi : Int8) :
    rejectedByRssi hash state addr rssi = true ↔ rssi.toInt < rssiLimit hash state addr := by
  have answers : (awdlPeerGet hash state.peers.peers addr).1 = .ok ∨
      (awdlPeerGet hash state.peers.peers addr).1 = .missing := by
    unfold awdlPeerGet
    split
    · exact .inr rfl
    · exact .inl rfl
  unfold rejectedByRssi rssiLimit
  rcases answers with known | unknown
  · rw [known]
    simp
  · rw [unknown]
    simp

/-- A frame that passed the FCS check is not dropped for its FCS later on. -/
theorem dispatch_result (frame mac : Buf) (long : 24 ≤ mac.bytes.length)
    (valid : TableValid hash state.peers.peers) (rssi : Int8) (outcome : RxOutcome)
    (run : dispatch false hash env frame rssi (macFc mac) (.kept mac 10) (.kept mac 4) state =
      .ok outcome) : outcome.result ≠ .ignoreFailedCrc := by
  have source : Points (macSource mac) (.kept mac 10) := ⟨by omega, rfl⟩
  have target : Points (macTarget mac) (.kept mac 4) := ⟨by omega, rfl⟩
  have single : ∀ body : Buf, awdlRxData false hash env body (.kept mac 10) (.kept mac 4) state 0 =
      .ok (dataOutcome hash env body (macSource mac) (macTarget mac) state 0) := fun body =>
    awdlRxData_eq hash env body _ _ _ _ state 0 source target
  have data : ∀ body : Buf,
      (dataOutcome hash env body (macSource mac) (macTarget mac) state 0).toRx.result ≠
        .ignoreFailedCrc := fun body => dataOutcome_result hash env body _ _ state 0
  unfold dispatch at run
  simp only [single, except_ok_bind, except_pure] at run
  split at run
  · by_cases header : ActionHeader frame.bytes
    swap
    · rw [awdlRxAction_headless hash env state frame rssi _ header] at run
      cases run
      simp
    by_cases passes : Passes hash state (macSource mac) rssi
    · rw [awdlRxAction_accepts hash env state frame rssi _ _ source header passes] at run
      obtain ⟨same, again, effect⟩ := acceptAction_effect hash env (frame.drop 16) (macSource mac)
        (byteAt frame.bytes 6) state (.kept mac 10) source valid
      rw [run] at again
      cases again
      exact (actionEffect_result hash env state effect).1
    · obtain ⟨filters, rejects⟩ := Classical.not_imp.mp passes
      rw [awdlRxAction_rejected hash env state frame rssi _ _ source header filters
        (by simpa using rejects)] at run
      cases run
      simp
  split at run
  · rw [readLe16_eq frame 0 (by decide) (by decide), except_ok_bind] at run
    generalize peek 2 ofLe16 frame.bytes (Int.toNat 0) = control at run
    cases control with
    | none =>
        cases run
        simp
    | some control =>
    dsimp only at run
    split at run
    · split at run
      · unfold awdlRxDataAmsdu at run
        generalize hit : amsduLoop false hash env _ _ _ _ = later at run
        cases later with
        | error fault => cases run
        | ok tail =>
            cases run
            exact amsduLoop_result hash env _ _ state 0 tail hit
      · cases run
        exact data _
    · cases run
      simp
  split at run
  · cases run
    exact data _
  · cases run
    simp

theorem receiveMac_result (frame : Buf) (rssi : Int8) (flags : UInt8) (mac : Buf)
    (whole : checkFcs frame flags = some mac) (valid : TableValid hash state.peers.peers)
    (outcome : RxOutcome) (run : receiveMac false hash env frame rssi flags state = .ok outcome) :
    outcome.result ≠ .ignoreFailedCrc := by
  unfold receiveMac at run
  rw [whole] at run
  dsimp only at run
  split at run
  case isFalse =>
    cases run
    simp
  case isTrue long =>
  split at run
  · cases run
    simp
  · exact dispatch_result hash env state (mac.drop 24) mac long valid rssi outcome run

def observe (run : Except Fault RxOutcome) : Except Fault (RxResult × List Buf × AwdlState) :=
  run.map fun outcome => (outcome.result, outcome.outputs, outcome.state)

inductive Exposed (frame : Buf) : Prop where
  /-- The FCS check uses `flags`, and the header has none. -/
  | flags (run : RadiotapRun) (parsed : env.radiotap frame.bytes = some run)
      (complete : run.complete = true) (absent : ¬ Reports ieee80211RadiotapFlags run)
  /-- The filter uses `rssi`, the header has none, and not all values fare alike. -/
  | rssi (run : RadiotapRun) (parsed : env.radiotap frame.bytes = some run)
      (absent : ¬ Reports ieee80211RadiotapDbmAntsignal run) (mac : Buf)
      (found : macFrame env frame = some mac) (foreign : macSource mac ≠ state.selfAddress)
      (action : macFc mac &&& (ieee80211FctlFtype ||| ieee80211FctlStype) =
        (ieee80211FtypeMgmt ||| ieee80211StypeAction))
      (header : ActionHeader (mac.drop 24).bytes) (filters : state.filterRssi = true)
      (low : -128 < rssiLimit hash state (macSource mac))
      (high : rssiLimit hash state (macSource mac) ≤ 127)
  /-- The last channel sequence that is accepted has one byte to a channel. -/
  | list (mac : Buf) (admits : Admits hash env state frame mac)
      (tlvs : List (UInt8 × List UInt8))
      (stains : Stains hash env ((mac.drop 24).drop 16) (macSource mac) state tlvs)

variable (frame : Buf) (inside : RadiotapInside env) (valid : TableValid hash state.peers.peers)

include inside valid

theorem exposed_flags (run : RadiotapRun) (parsed : env.radiotap frame.bytes = some run)
    (complete : run.complete = true) (absent : ¬ Reports ieee80211RadiotapFlags run) :
    observe (awdlRx false hash (withLocals env 0 0x40 env.list) frame state) ≠
      observe (awdlRx false hash (withLocals env 0 0 env.list) frame state) := by
  have none := (reports_flags run).not.mp absent
  have parse : ∀ flags, ∃ rssi, radiotapParse (withLocals env 0 flags env.list) frame =
      (.ok, rssi, flags) := by
    intro flags
    unfold radiotapParse
    rw [show (withLocals env 0 flags env.list).radiotap frame.bytes = some run from parsed]
    dsimp only
    rw [if_pos complete, radiotapArg_foldl]
    exact ⟨_, by rw [(foldl_override isFlags RadiotapArg.thisArg run.args _ flags).2 none]; rfl⟩
  -- Bit 6 reports a bad FCS; without a flags field nothing sets it or clears it.
  have bad : checkFcs (frame.drop (itLen frame.bytes)) 0x40 = Option.none := rfl
  have good : checkFcs (frame.drop (itLen frame.bytes)) 0 = some (frame.drop (itLen frame.bytes)) :=
    rfl
  obtain ⟨rssi, damaged⟩ := parse 0x40
  obtain ⟨rssi', whole⟩ := parse 0
  rw [awdlRx_eq false hash (withLocals env 0 0x40 env.list) frame state (inside _),
    awdlRx_eq false hash (withLocals env 0 0 env.list) frame state (inside _), damaged, whole,
    if_pos rfl, if_pos rfl]
  dsimp only
  intro same
  have passed := receiveMac_result hash (withLocals env 0 0 env.list) state
    (frame.drop (itLen frame.bytes)) rssi' 0 _ good valid
  generalize receiveMac false hash (withLocals env 0 0 env.list) (frame.drop (itLen frame.bytes))
    rssi' 0 state = second at same passed
  rw [receiveMac, bad] at same
  cases second with
  | error fault => cases same
  | ok outcome =>
      injection same with pair
      exact passed outcome rfl (congrArg Prod.fst pair).symm

theorem exposed_rssi (run : RadiotapRun) (parsed : env.radiotap frame.bytes = some run)
    (absent : ¬ Reports ieee80211RadiotapDbmAntsignal run) (mac : Buf)
    (found : macFrame env frame = some mac) (foreign : macSource mac ≠ state.selfAddress)
    (action : macFc mac &&& (ieee80211FctlFtype ||| ieee80211FctlStype) =
      (ieee80211FtypeMgmt ||| ieee80211StypeAction))
    (header : ActionHeader (mac.drop 24).bytes) (filters : state.filterRssi = true)
    (low : -128 < rssiLimit hash state (macSource mac))
    (high : rssiLimit hash state (macSource mac) ≤ 127) :
    observe (awdlRx false hash (withLocals env (-128) env.flags env.list) frame state) ≠
      observe (awdlRx false hash (withLocals env 127 env.flags env.list) frame state) := by
  have none := (reports_antsignal run).not.mp absent
  have long := macFrame_length env frame mac found
  have source : Points (macSource mac) (.kept mac 10) := ⟨by omega, rfl⟩
  -- the flags, and with them the 802.11 frame, are those of the given call
  have parse : ∀ rssi, radiotapParse (withLocals env rssi env.flags env.list) frame =
      ((radiotapParse env frame).1, rssi, (radiotapParse env frame).2.2) := by
    intro rssi
    unfold radiotapParse
    rw [show (withLocals env rssi env.flags env.list).radiotap frame.bytes = some run from parsed,
      parsed]
    dsimp only
    rw [radiotapArg_foldl, radiotapArg_foldl]
    dsimp only
    rw [(foldl_override isAntsignal (fun arg => arg.thisArg.toInt8) run.args _ rssi).2 none]
    split <;> rfl
  have reaches : ∀ rssi, awdlRx false hash (withLocals env rssi env.flags env.list) frame state =
      awdlRxAction false hash (withLocals env rssi env.flags env.list) (mac.drop 24) rssi
        (.kept mac 10) state := by
    intro rssi
    have same : macFrame (withLocals env rssi env.flags env.list) frame = some mac := by
      rw [← found]
      unfold macFrame
      rw [parse]
    rcases awdlRx_cases false hash (withLocals env rssi env.flags env.list) frame state (inside _) with
      ⟨own, -⟩ | ⟨other, also, -, run⟩
    · exact absurd (own mac same) foreign
    · rw [same] at also
      cases also
      rw [run, dispatch, if_pos action, parse]
  -- The extreme values lie on the two sides of the limit.
  have rejected : rejectedByRssi hash state (macSource mac) (-128) = true :=
    (rejected_iff hash state _ _).mpr low
  have passes : Passes hash state (macSource mac) 127 := by
    intro _
    have kept : ¬ rejectedByRssi hash state (macSource mac) 127 = true := by
      rw [rejected_iff]
      exact Int.not_lt.mpr high
    simpa using kept
  rw [reaches, reaches, awdlRxAction_rejected hash _ state _ _ _ _ source header filters rejected,
    awdlRxAction_accepts hash _ state _ _ _ _ source header passes]
  obtain ⟨outcome, accepted, effect⟩ := acceptAction_effect hash
    (withLocals env 127 env.flags env.list) ((mac.drop 24).drop 16) (macSource mac)
    (byteAt (mac.drop 24).bytes 6) state (.kept mac 10) source valid
  rw [accepted]
  intro same
  injection same with pair
  exact (actionEffect_result hash _ state effect).2 (congrArg Prod.fst pair).symm

def filledWith (byte : UInt8) : ChanSeq := Fixed.replicate _ ⟨[0, byte], rfl⟩

theorem exposed_list (mac : Buf) (admits : Admits hash env state frame mac)
    (tlvs : List (UInt8 × List UInt8))
    (stains : Stains hash env ((mac.drop 24).drop 16) (macSource mac) state tlvs) :
    observe (awdlRx false hash (withLocals env env.rssi env.flags fun _ => filledWith 0) frame
        state) ≠
      observe (awdlRx false hash (withLocals env env.rssi env.flags fun _ => filledWith 1) frame
        state) := by
  have long := macFrame_length env frame mac admits.found
  have source : Points (macSource mac) (.kept mac 10) := ⟨by omega, rfl⟩
  -- The first bytes are those of the TLV, the second ones tell the two arrays apart.
  have stained : ∀ byte, ∃ outcome peer,
      awdlRx false hash (withLocals env env.rssi env.flags fun _ => filledWith byte) frame state =
        .ok outcome ∧
      outcome.state.peers.peers.contents (macSource mac) = some peer ∧
      seconds peer.sequence = seconds (filledWith byte) := by
    intro byte
    rcases awdlRx_cases false hash (withLocals env env.rssi env.flags fun _ => filledWith byte) frame
      state (inside _) with ⟨own, -⟩ | ⟨other, also, -, run⟩
    · exact absurd (own mac admits.found) admits.foreign
    · have same : other = mac := Option.some.inj (also.symm.trans admits.found)
      subst same
      have heard : radiotapParse (withLocals env env.rssi env.flags fun _ => filledWith byte) frame =
        radiotapParse env frame := rfl
      rw [run, dispatch, if_pos admits.action, heard,
        awdlRxAction_accepts hash _ state _ _ _ _ source admits.header admits.passes]
      obtain ⟨outcome, peer, left, accepted, there, second⟩ := acceptAction_stained hash env
        ((other.drop 24).drop 16) (.kept other 10) (macSource other)
        (byteAt (other.drop 24).bytes 6) state source valid tlvs stains env.rssi env.flags
        fun _ => filledWith byte
      exact ⟨outcome, peer, accepted, there, second⟩
  obtain ⟨outcome, peer, run, there, second⟩ := stained 0
  obtain ⟨outcome', peer', run', there', second'⟩ := stained 1
  rw [run, run']
  intro same
  injection same with pair
  have states : outcome.state = outcome'.state := congrArg (fun seen => seen.2.2) pair
  rw [states, there'] at there
  cases there
  rw [second'] at second
  exact absurd second (by decide)

omit inside valid in
/-- Without a reported strength the filter treats all values alike or is a leak. -/
theorem rejected_same (addr : EtherAddr) (rssi rssi' : Int8)
    (alike : rssi' = rssi ∨ ¬ (-128 < rssiLimit hash state addr ∧ rssiLimit hash state addr ≤ 127)) :
    rejectedByRssi hash state addr rssi' = rejectedByRssi hash state addr rssi := by
  rcases alike with rfl | outside
  · rfl
  · rw [Bool.eq_iff_iff, rejected_iff, rejected_iff]
    have least := rssi.le_toInt
    have most := rssi.toInt_lt
    have least' := rssi'.le_toInt
    have most' := rssi'.toInt_lt
    omega

omit inside valid in
/-- A header that reports the flags fixes them, and the strength if it reports that too. -/
theorem radiotapParse_pair (run : RadiotapRun) (parsed : env.radiotap frame.bytes = some run)
    (complete : run.complete = true) (flagged : Reports ieee80211RadiotapFlags run) (rssi : Int8)
    (flags : UInt8) (list : Nat → ChanSeq) :
    ∃ strength strength' flag, radiotapParse env frame = (.ok, strength, flag) ∧
      radiotapParse (withLocals env rssi flags list) frame = (.ok, strength', flag) ∧
      (Reports ieee80211RadiotapDbmAntsignal run → strength' = strength) := by
  have tapped : (withLocals env rssi flags list).radiotap = env.radiotap := rfl
  have flag := (foldl_override isFlags RadiotapArg.thisArg run.args env.flags flags).1
    ((reports_flags run).mp flagged)
  unfold radiotapParse
  rw [tapped, parsed]
  dsimp only
  rw [if_pos complete, if_pos complete, radiotapArg_foldl, radiotapArg_foldl]
  refine ⟨run.args.foldl (fun rssi arg => if isAntsignal arg then arg.thisArg.toInt8 else rssi)
      env.rssi,
    run.args.foldl (fun rssi arg => if isAntsignal arg then arg.thisArg.toInt8 else rssi) rssi,
    run.args.foldl (fun flags arg => if isFlags arg then arg.thisArg else flags) env.flags, rfl,
    ?_, ?_⟩
  · rw [flag]
    rfl
  · intro present
    exact (foldl_override isAntsignal (fun arg => arg.thisArg.toInt8) run.args rssi env.rssi).1
      ((reports_antsignal run).mp present)

theorem unexposed_same (unexposed : ¬ Exposed hash env state frame) (rssi : Int8) (flags : UInt8)
    (list : Nat → ChanSeq) :
    awdlRx false hash (withLocals env rssi flags list) frame state =
      awdlRx false hash env frame state := by
  rw [awdlRx_eq false hash (withLocals env rssi flags list) frame state (inside _),
    awdlRx_eq false hash env frame state (inside _)]
  have tapped : (withLocals env rssi flags list).radiotap = env.radiotap := rfl
  -- A header that is not parsed to its end is refused with any locals.
  cases parsed : env.radiotap frame.bytes with
  | none => simp [radiotapParse, tapped, parsed]
  | some run =>
  by_cases complete : run.complete = true
  swap
  · simp [radiotapParse, tapped, parsed, complete]
  have flagged : Reports ieee80211RadiotapFlags run := by
    by_contra absent
    exact unexposed (.flags run parsed complete absent)
  obtain ⟨strength, strength', flag, heard, heard', alike⟩ :=
    radiotapParse_pair env frame run parsed complete flagged rssi flags list
  rw [heard, heard', if_pos rfl, if_pos rfl]
  unfold receiveMac
  dsimp only
  cases checked : checkFcs (frame.drop (itLen frame.bytes)) flag with
  | none => rfl
  | some mac =>
  dsimp only
  split
  case isFalse => rfl
  case isTrue long =>
  split
  case isTrue => rfl
  case isFalse foreign =>
  -- Both runs see the same 802.11 frame from here on.
  by_cases action : macFc mac &&& (ieee80211FctlFtype ||| ieee80211FctlStype) =
      (ieee80211FtypeMgmt ||| ieee80211StypeAction)
  swap
  · exact dispatch_same hash env state _ strength strength' _ _ _ action rssi flags list
  unfold dispatch
  rw [if_pos action, if_pos action]
  by_cases header : ActionHeader (mac.drop 24).bytes
  swap
  · rw [awdlRxAction_headless hash _ state _ _ _ header,
      awdlRxAction_headless hash _ state _ _ _ header]
  have found : macFrame env frame = some mac := by
    unfold macFrame
    rw [heard, if_pos rfl, checked]
    simp [long]
  have source : Points (macSource mac) (.kept mac 10) := by
    have size : ieee80211HdrSize = 24 := rfl
    exact ⟨by omega, rfl⟩
  -- The filter answers alike although the strengths may differ.
  have fares : state.filterRssi = true →
      rejectedByRssi hash state (macSource mac) strength' =
        rejectedByRssi hash state (macSource mac) strength := by
    intro filters
    apply rejected_same
    by_cases present : Reports ieee80211RadiotapDbmAntsignal run
    · exact .inl (alike present)
    · refine .inr fun inner => unexposed ?_
      exact .rssi run parsed present mac found foreign action header filters inner.1 inner.2
  by_cases passes : Passes hash state (macSource mac) strength
  · have passes' : Passes hash state (macSource mac) strength' := fun filters =>
      (fares filters).trans (passes filters)
    rw [awdlRxAction_accepts hash _ state _ _ _ _ source header passes',
      awdlRxAction_accepts hash _ state _ _ _ _ source header passes]
    refine acceptAction_same hash env _ _ _ _ state source valid ?_ rssi flags list
    intro tlvs stains
    refine unexposed (.list mac ⟨found, foreign, action, header, ?_⟩ tlvs stains)
    rw [heard]
    exact passes
  · obtain ⟨filters, rejects⟩ := Classical.not_imp.mp passes
    have rejected : rejectedByRssi hash state (macSource mac) strength = true := by
      simpa using rejects
    rw [awdlRxAction_rejected hash _ state _ _ _ _ source header filters
        ((fares filters).trans rejected),
      awdlRxAction_rejected hash _ state _ _ _ _ source header filters rejected]

end Receive

/-- Two receptions that differ in the contents of the locals. -/
theorem locals_hidden_iff (hash : EtherAddr → UInt64) (env : RxEnv) (frame : Buf)
    (state : AwdlState) (inside : RadiotapInside env) (valid : TableValid hash state.peers.peers) :
    (∀ rssi flags list rssi' flags' list',
      observe (awdlRx false hash (withLocals env rssi flags list) frame state) =
        observe (awdlRx false hash (withLocals env rssi' flags' list') frame state)) ↔
      ¬ Exposed hash env state frame := by
  constructor
  · intro hidden exposed
    cases exposed with
    | flags run parsed complete absent =>
        exact exposed_flags hash env state frame inside valid run parsed complete absent
          (hidden _ _ _ _ _ _)
    | rssi run parsed absent mac found foreign action header filters low high =>
        exact exposed_rssi hash env state frame inside valid run parsed absent mac found foreign
          action header filters low high (hidden _ _ _ _ _ _)
    | list mac admits tlvs stains =>
        exact exposed_list hash env state frame inside valid mac admits tlvs stains
          (hidden _ _ _ _ _ _)
  · intro unexposed rssi flags list rssi' flags' list'
    rw [unexposed_same hash env state frame inside valid unexposed rssi flags list,
      unexposed_same hash env state frame inside valid unexposed rssi' flags' list']

def bareCapture : Buf := ⟨[0, 0, 8, 0, 0, 0, 0, 0] ++ psfCapture.bytes.drop 10, by decide⟩

theorem bareCapture_exposed : observe (awdlRx false addrHash
      (withLocals zeroEnv 0 0x40 zeroEnv.list) bareCapture startState) ≠
    observe (awdlRx false addrHash (withLocals zeroEnv 0 0 zeroEnv.list) bareCapture startState) := by
  refine exposed_flags addrHash zeroEnv startState bareCapture byteRadiotap_inside
    awdlPeersInit_valid ⟨[], true⟩ (by decide) rfl ?_
  rintro ⟨arg, member, -⟩
  cases member

theorem locals_hidden_iff_bare : RadiotapInside zeroEnv ∧
    TableValid addrHash startState.peers.peers ∧
    Exposed addrHash zeroEnv startState bareCapture := by
  refine ⟨byteRadiotap_inside, awdlPeersInit_valid, ?_⟩
  by_contra unexposed
  exact bareCapture_exposed ((locals_hidden_iff addrHash zeroEnv bareCapture startState
    byteRadiotap_inside awdlPeersInit_valid).mpr unexposed _ _ _ _ _ _)

/-- The frame is dropped for its FCS when bit 6 of the stale `flags` is set. -/
theorem locals_shown : ¬ ∀ rssi flags list rssi' flags' list',
    observe (awdlRx false addrHash (withLocals zeroEnv rssi flags list) bareCapture startState) =
      observe (awdlRx false addrHash (withLocals zeroEnv rssi' flags' list') bareCapture
        startState) :=
  fun hidden => bareCapture_exposed (hidden _ _ _ _ _ _)

end Owl.RxLocals
