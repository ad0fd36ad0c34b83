import Owl.DaemonRun
import Owl.RxLocals

/-!
Who gets into the peer table and through it to the host. With the filter on, an
entry is created by an action frame of its address that reaches the threshold,
and refreshed by action frames that reach the threshold plus the grace. Each
entry of a table is attributed to the two frames of the run to which it owes its
existence and its time stamp. A data frame reaches the host only under the
source address of an entry, in whichever of its three forms it arrives.
-/

namespace Owl.Admission

open Bytes Ether Channel Siphash Peers PeersRefine Wire State Frames Rx RxSpec RxAction RxData
  RxPeers RxLocals Daemon Transmit DaemonRun

section Signal

variable (env : RxEnv) (frame : Buf)

/-- The signal strength in the radiotap header; of several antennas the last one counts. -/
def reportedRssi : Option Int8 :=
  (env.radiotap frame.bytes).bind fun run =>
    (run.args.filter isAntsignal).getLast?.map fun arg => arg.thisArg.toInt8

def SignalReported : Prop :=
  ∀ run, env.radiotap frame.bytes = some run → run.complete = true →
    Reports ieee80211RadiotapDbmAntsignal run

/-- The filter sees what the header reports. -/
theorem radiotapParse_reported (parsed : (radiotapParse env frame).1 = .ok)
    (reported : SignalReported env frame) :
    reportedRssi env frame = some (radiotapParse env frame).2.1 := by
  unfold radiotapParse at parsed ⊢
  unfold reportedRssi
  cases found : env.radiotap frame.bytes with
  | none =>
      rw [found] at parsed
      cases parsed
  | some run =>
      rw [found] at parsed
      have whole : run.complete = true := by
        by_contra cut
        simp [cut] at parsed
      obtain ⟨arg, member, signal⟩ := (reports_antsignal run).mp (reported run found whole)
      -- Without the field the filter would compare a local that was never set.
      have some_left : run.args.filter isAntsignal ≠ [] :=
        List.ne_nil_of_mem (List.mem_filter.mpr ⟨member, signal⟩)
      simp only [Option.bind_some, whole, ↓reduceIte, radiotapArg_foldl, foldl_last,
        List.getLast?_eq_some_getLast some_left, Option.map_some, Option.getD_some]

end Signal

structure ActionFrom (env : RxEnv) (frame : Buf) (addr : EtherAddr) (rssi : Int8) : Prop where
  action : ∃ mac, macFrame env frame = some mac ∧ macSource mac = addr ∧
    macFc mac &&& (ieee80211FctlFtype ||| ieee80211FctlStype) =
      (ieee80211FtypeMgmt ||| ieee80211StypeAction) ∧
    ActionHeader (mac.drop 24).bytes
  signal : reportedRssi env frame = some rssi

/-- An admitted frame is an action frame, and its signal reaches the limit for its sender. -/
theorem admits_signal {hash : EtherAddr → UInt64} {env : RxEnv} {state : AwdlState}
    {frame mac : Buf} (admits : Admits hash env state frame mac) (filters : state.filterRssi = true)
    (reported : SignalReported env frame) :
    ∃ rssi, ActionFrom env frame (macSource mac) rssi ∧
      rssiLimit hash state (macSource mac) ≤ rssi.toInt := by
  have parsed : (radiotapParse env frame).1 = .ok := by
    by_contra failed
    have found := admits.found
    rw [macFrame, if_neg failed] at found
    cases found
  refine ⟨(radiotapParse env frame).2.1,
    ⟨⟨mac, admits.found, rfl, admits.action, admits.header⟩,
      radiotapParse_reported env frame parsed reported⟩, ?_⟩
  -- Too weak a signal would have been rejected in front of the table.
  have passes := admits.passes filters
  by_contra weak
  rw [(rejected_iff hash state _ _).mpr (not_le.mp weak)] at passes
  cases passes

section Attribution

variable {hash : EtherAddr → UInt64}

/-- The frame that a call received, when it is an action frame of this address
with at least this signal strength. -/
def Heard (record : Record) (addr : EtherAddr) (limit : Int) (now : UInt64) : Prop :=
  ∃ env frame rssi, record.turn = .receiveFrame env frame ∧ ActionFrom env frame addr rssi ∧
    limit ≤ rssi.toInt ∧ env.now = now

/-- The entry was created by a frame that reached the threshold, and has been
in the table ever since. -/
def CreatedBy (threshold : Int) (log : List Record) (addr : EtherAddr) : Prop :=
  ∃ early record late now, log = early ++ record :: late ∧ Heard record addr threshold now ∧
    record.before.peers.peers.contents addr = none ∧
    ∀ later ∈ record :: late, (later.after.peers.peers.contents addr).isSome

/-- The time stamp of the entry was set by a frame that reached the limit, and
has not changed since. -/
def UpdatedBy (limit : Int) (log : List Record) (addr : EtherAddr) (now : UInt64) : Prop :=
  ∃ early record late, log = early ++ record :: late ∧ Heard record addr limit now ∧
    ∀ later ∈ record :: late, ∃ peer, later.after.peers.peers.contents addr = some peer ∧
      peer.lastUpdate = now

/-- A call leaves an entry as it is, or it has admitted a frame of its address. -/
theorem changes_entry {own : EtherAddr} {record : Record} (changes : Changes hash record)
    (apart : Apart hash own record.before) {addr : EtherAddr} {peer : Peer}
    (present : record.after.peers.peers.contents addr = some peer) :
    record.before.peers.peers.contents addr = some peer ∨
      ∃ env frame mac, record.turn = .receiveFrame env frame ∧
        Admits hash env record.before frame mac ∧ macSource mac = addr ∧
        peer.lastUpdate = env.now := by
  cases changes with
  | quiet record same silent =>
      obtain ⟨_, _, _, after⟩ := same
      rw [after] at present
      exact .inl present
  | admitted before env frame mac outcome stats admits effect =>
      obtain ⟨touched, -⟩ := actionEffect_touched effect
      cases touched with
      | refused full table fewer => exact .inl (fewer addr peer present)
      | entered entry contents updated stays =>
          -- Only the entry of the sender is written.
          have there : Function.update before.peers.peers.contents (macSource mac) (some entry)
              addr = some peer := contents ▸ present
          by_cases sender : addr = macSource mac
          · subst sender
            rw [Function.update_self] at there
            cases there
            exact .inr ⟨env, frame, mac, rfl, admits, rfl, updated⟩
          · rw [Function.update_of_ne sender] at there
            exact .inl there
  | cleaned before now =>
      have filtered := (awdlCleanPeers_contents now apart.valid.table addr).symm.trans present
      exact .inl (Option.filter_eq_some_iff.mp filtered).1

structure Filtering (threshold grace : Int8) (state : AwdlState) : Prop where
  filters : state.filterRssi = true
  threshold : state.rssiThreshold = threshold
  grace : state.rssiGrace = grace

theorem changes_filtering {record : Record} {threshold grace : Int8}
    (changes : Changes hash record) (filtering : Filtering threshold grace record.before) :
    Filtering threshold grace record.after := by
  cases changes with
  | quiet record same silent =>
      obtain ⟨_, _, _, after⟩ := same
      rw [after]
      exact ⟨filtering.filters, filtering.threshold, filtering.grace⟩
  | admitted before env frame mac outcome stats admits effect =>
      obtain ⟨-, _, _, _, after⟩ := actionEffect_touched effect
      dsimp only
      rw [after]
      exact ⟨filtering.filters, filtering.threshold, filtering.grace⟩
  | cleaned before now => exact ⟨filtering.filters, filtering.threshold, filtering.grace⟩

def Reported (record : Record) : Prop :=
  ∀ env frame, record.turn = .receiveFrame env frame → SignalReported env frame

/-- The limit for a sender, from the finite map. -/
theorem rssiLimit_eq {state : AwdlState} {threshold grace : Int8}
    (valid : TableValid hash state.peers.peers) (filtering : Filtering threshold grace state)
    (addr : EtherAddr) :
    rssiLimit hash state addr = threshold.toInt +
      if (state.peers.peers.contents addr).isSome then grace.toInt else 0 := by
  unfold rssiLimit
  rw [filtering.threshold, filtering.grace, awdlPeerGet_eq _ valid.map]
  cases state.peers.peers.contents addr <;> simp

theorem CreatedBy.extend {threshold : Int} {log : List Record} {addr : EtherAddr} {record : Record}
    (created : CreatedBy threshold log addr)
    (present : (record.after.peers.peers.contents addr).isSome) :
    CreatedBy threshold (log ++ [record]) addr := by
  obtain ⟨early, first, late, now, rfl, heard, absent, since⟩ := created
  refine ⟨early, first, late ++ [record], now, by simp, heard, absent, ?_⟩
  intro later member
  rw [← List.cons_append] at member
  rcases List.mem_append.mp member with old | new
  · exact since later old
  · rw [List.mem_singleton.mp new]
    exact present

theorem UpdatedBy.extend {limit : Int} {log : List Record} {addr : EtherAddr} {peer : Peer}
    {record : Record} (updated : UpdatedBy limit log addr peer.lastUpdate)
    (present : record.after.peers.peers.contents addr = some peer) :
    UpdatedBy limit (log ++ [record]) addr peer.lastUpdate := by
  obtain ⟨early, first, late, rfl, heard, since⟩ := updated
  refine ⟨early, first, late ++ [record], by simp, heard, ?_⟩
  intro later member
  rw [← List.cons_append] at member
  rcases List.mem_append.mp member with old | new
  · exact since later old
  · rw [List.mem_singleton.mp new]
    exact ⟨peer, present, rfl⟩

structure Attributed (threshold grace : Int8) (log : List Record) (addr : EtherAddr)
    (peer : Peer) : Prop where
  created : CreatedBy threshold.toInt log addr
  updated : UpdatedBy (threshold.toInt + grace.toInt) log addr peer.lastUpdate

/-- One more call: the entry is as it was, or its sender has been heard again, or
for the first time. -/
theorem changes_attributed {own : EtherAddr} {threshold grace : Int8}
    (nonpositive : grace.toInt ≤ 0) {log : List Record} {record : Record}
    (changes : Changes hash record) (apart : Apart hash own record.before)
    (filtering : Filtering threshold grace record.before) (reported : Reported record)
    (before : ∀ addr peer, record.before.peers.peers.contents addr = some peer →
      Attributed threshold grace log addr peer)
    (addr : EtherAddr) (peer : Peer)
    (present : record.after.peers.peers.contents addr = some peer) :
    Attributed threshold grace (log ++ [record]) addr peer := by
  have there : (record.after.peers.peers.contents addr).isSome := by rw [present]; rfl
  rcases changes_entry changes apart present with
    same | ⟨env, frame, mac, turn, admits, rfl, updated⟩
  · have old := before addr peer same
    exact ⟨old.created.extend there, old.updated.extend present⟩
  · obtain ⟨rssi, action, strong⟩ :=
      admits_signal admits filtering.filters (reported env frame turn)
    rw [rssiLimit_eq apart.valid.table filtering] at strong
    -- A new sender has to reach the threshold, which with this grace is the higher limit.
    have fresh : threshold.toInt + grace.toInt ≤ rssi.toInt := by
      split at strong <;> omega
    have updates : UpdatedBy (threshold.toInt + grace.toInt) (log ++ [record]) (macSource mac)
        peer.lastUpdate := by
      refine ⟨log, record, [], rfl, ⟨env, frame, rssi, turn, action, fresh, updated.symm⟩, ?_⟩
      intro later member
      rw [List.mem_singleton.mp member]
      exact ⟨peer, present, rfl⟩
    refine ⟨?_, updates⟩
    -- The creation is an earlier call when the sender was known, else this one.
    cases known : record.before.peers.peers.contents (macSource mac) with
    | some old => exact (before _ old known).created.extend there
    | none =>
        rw [known] at strong
        have above : threshold.toInt ≤ rssi.toInt := by simpa using strong
        refine ⟨log, record, [], env.now, rfl, ⟨env, frame, rssi, turn, action, above, rfl⟩, known,
          ?_⟩
        intro later member
        rw [List.mem_singleton.mp member]
        exact there

theorem run_attributed {own : EtherAddr} {threshold grace : Int8}
    (nonpositive : grace.toInt ≤ 0) {start state : DaemonState} {log : List Record}
    (run : Run hash start log state) (apart : Apart hash own start.awdlState)
    (filtering : Filtering threshold grace start.awdlState)
    (empty : ∀ addr, start.awdlState.peers.peers.contents addr = none)
    (reported : ∀ record ∈ log, Reported record) :
    Filtering threshold grace state.awdlState ∧
      ∀ addr peer, state.awdlState.peers.peers.contents addr = some peer →
        Attributed threshold grace log addr peer := by
  -- The invariant speaks of all entries at once, as a refused frame may cost any of them.
  induction run with
  | start =>
      refine ⟨filtering, ?_⟩
      intro addr peer present
      rw [empty] at present
      cases present
  | step run turn inside handled ih =>
      obtain ⟨before, attributed⟩ := ih fun record member =>
        reported record (List.mem_append_left _ member)
      have settled := (run.effects apart).1
      have changes := (handle_effect handled).changes inside settled.valid.table
      exact ⟨changes_filtering changes before, changes_attributed nonpositive changes settled before
        (reported _ (List.mem_append_right _ List.mem_cons_self)) attributed⟩

end Attribution

section Outputs

variable {hash : EtherAddr → UInt64}

def etherSource (frame : Buf) : EtherAddr := EtherAddr.ofBytes (slice frame.bytes 6 6)

theorem output_source (sub : Subframe) (memory : Fixed UInt8 etherMaxLen) :
    etherSource (sub.output memory) = sub.src := rfl

theorem mem_emit {env : RxEnv} {index : Nat} {subs : List Subframe} {out : Buf}
    (member : out ∈ emit env index subs) :
    ∃ sub ∈ subs, ∃ memory, out = sub.output memory := by
  induction subs generalizing index with
  | nil => cases member
  | cons sub rest ih =>
      rcases List.mem_cons.mp member with rfl | later
      · exact ⟨sub, List.mem_cons_self, _, rfl⟩
      · obtain ⟨other, inside, memory, same⟩ := ih later
        exact ⟨other, List.mem_cons_of_mem _ inside, memory, same⟩

/-- Whether it came alone or in an A-MSDU, what is delivered has a known source. -/
theorem delivered_known {peers : PeerMap} {mac : Buf} {sub : Subframe}
    (member : sub ∈ delivered hash peers mac) : Known hash peers sub.src := by
  have all : ∀ subs, sub ∈ accepted hash peers subs → Known hash peers sub.src := by
    intro subs inside
    exact of_decide_eq_true (List.mem_filter.mp inside).2
  unfold delivered at member
  split at member
  · cases member
  · exact all _ member
  · exact all _ member

/-- What a call hands to the host comes from a peer, and the call leaves the table alone. -/
theorem effect_outputs {own : EtherAddr} {record : Record} (effect : Effect hash record)
    (inside : record.turn.Inside) (apart : Apart hash own record.before) {out : Buf}
    (member : out ∈ record.outputs) :
    Known hash record.before.peers.peers (etherSource out) ∧
      record.after.peers.peers = record.before.peers.peers := by
  cases effect with
  | received before env frame outcome run =>
      obtain ⟨other, same, ⟨-, none⟩ | ⟨mac, -, -, outputs, -⟩⟩ :=
        awdlRx_delivers hash env frame before inside
      · rw [run] at same
        cases same
        rw [none] at member
        cases member
      · rw [run] at same
        cases same
        have emitted := member
        rw [outputs] at emitted
        obtain ⟨sub, delivers, memory, rfl⟩ := mem_emit emitted
        refine ⟨by rw [output_source]; exact delivered_known delivers, ?_⟩
        obtain ⟨stats, after⟩ := afterReceive_eq outcome
        obtain ⟨node, -⟩ | ⟨_, _, effect⟩ :=
          awdlRx_changes hash env before inside apart.valid.table run
        · rw [after, node]
        · -- an action frame has no outputs
          cases effect <;> cases member
  | cleaned before now => cases member
  | transmitted before turn after transmits => cases member

theorem known_isSome {peers : PeerMap} (valid : TableValid hash peers) {addr : EtherAddr}
    (known : Known hash peers addr) : (peers.contents addr).isSome := by
  rw [Known, awdlPeerGet_eq peers valid.map] at known
  cases present : peers.contents addr with
  | none =>
      rw [present] at known
      cases known
  | some peer => rfl

end Outputs

section Control

variable (memory : Fixed UInt8 (hostNameLengthMax + 1)) (slots : Fin txQueueLength → Buf)
  (hostname : List UInt8) (self : EtherAddr) (chan : AwdlChan) (now : UInt64)
  (threshold grace : Int8)

def filteringDaemon : DaemonState :=
  let init := daemonInit memory slots hostname self chan now true
  { init with awdlState :=
      { init.awdlState with rssiThreshold := threshold, rssiGrace := grace } }

theorem filteringDaemon_apart (hash : EtherAddr → UInt64) :
    Apart hash self
      (filteringDaemon memory slots hostname self chan now threshold grace).awdlState := by
  have apart := daemonInit_apart hash memory slots hostname self chan now true
  exact ⟨⟨apart.valid.table, apart.valid.self, apart.valid.adds, apart.valid.removes⟩, rfl,
    apart.absent⟩

/-- Every entry of the table comes from action frames that were strong enough,
and every frame for the host from an entry. -/
theorem admission_control (hash : EtherAddr → UInt64) (nonpositive : grace.toInt ≤ 0)
    (log : List Record) (state : DaemonState)
    (run : Run hash (filteringDaemon memory slots hostname self chan now threshold grace) log state)
    (reported : ∀ record ∈ log, Reported record) :
    (∀ addr peer, state.awdlState.peers.peers.contents addr = some peer →
      peer.addr = addr ∧ Attributed threshold grace log addr peer) ∧
    ∀ record ∈ log, ∀ out ∈ record.outputs,
      Known hash record.before.peers.peers (etherSource out) ∧
        Known hash record.after.peers.peers (etherSource out) ∧ etherSource out ≠ self := by
  have apart := filteringDaemon_apart memory slots hostname self chan now threshold grace hash
  have empty : ∀ addr, (filteringDaemon memory slots hostname self chan now threshold
      grace).awdlState.peers.peers.contents addr = none := fun addr =>
    congrFun awdlPeersInit_contents addr
  obtain ⟨settled, effects⟩ := run.effects apart
  obtain ⟨-, attributed⟩ := run_attributed nonpositive run apart ⟨rfl, rfl, rfl⟩ empty reported
  refine ⟨fun addr peer present => ⟨settled.valid.table.own addr peer present,
    attributed addr peer present⟩, ?_⟩
  intro record member out emitted
  obtain ⟨before, inside, effect⟩ := effects record member
  obtain ⟨known, same⟩ := effect_outputs effect inside before emitted
  refine ⟨known, by rw [same]; exact known, ?_⟩
  intro itself
  have present := known_isSome before.valid.table known
  rw [itself, before.absent] at present
  cases present

end Control

def guardedDaemon : DaemonState :=
  filteringDaemon (Fixed.replicate _ 0) (fun _ => psfCapture) [] selfAddr chanNull 0 (-65) (-5)

def greeting : List Turn := [.receiveFrame zeroEnv psfCapture, .receiveFrame zeroEnv dataCapture]

theorem reported_zero {frame : Buf}
    (header : byteRadiotap frame.bytes = some ⟨[⟨true, 1, 0⟩, ⟨true, 5, 0⟩], true⟩) :
    SignalReported zeroEnv frame := by
  intro run found _
  obtain rfl := Option.some.inj (header.symm.trans found)
  exact ⟨⟨true, 5, 0⟩, by simp, rfl, rfl⟩

theorem greeting_reported {log : List Record} {state : DaemonState}
    (ends : runTurns addrHash greeting guardedDaemon = .ok (log, state)) :
    ∀ record ∈ log, Reported record := by
  intro record member env frame turn
  have among : record.turn ∈ greeting := by
    rw [← runTurns_turns ends]
    exact List.mem_map_of_mem member
  rw [turn] at among
  rcases List.mem_cons.mp among with first | among
  · cases first
    exact reported_zero (by decide +kernel)
  · cases List.mem_singleton.mp among
    exact reported_zero (by decide +kernel)

theorem admission_control_greeting : ∃ log state, Run addrHash guardedDaemon log state ∧
    (log.map fun record => record.outputs.length) = [0, 1] ∧
    (∀ addr peer, state.awdlState.peers.peers.contents addr = some peer →
      Attributed (-65) (-5) log addr peer) ∧
    ∀ record ∈ log, ∀ out ∈ record.outputs,
      Known addrHash record.before.peers.peers (etherSource out) ∧ etherSource out ≠ selfAddr := by
  have shown : ((runTurns addrHash greeting guardedDaemon).map fun after =>
      after.1.map fun record => record.outputs.length).toOption = some [0, 1] := by decide +kernel
  obtain ⟨⟨log, state⟩, ends, lengths⟩ := toOption_map_some shown
  have inside : ∀ turn ∈ greeting, turn.Inside := by
    intro turn member
    rcases List.mem_cons.mp member with rfl | member
    · exact byteRadiotap_inside
    · rw [List.mem_singleton.mp member]
      exact byteRadiotap_inside
  have run := runTurns_run inside .start ends
  obtain ⟨entries, outputs⟩ := admission_control (Fixed.replicate _ 0) (fun _ => psfCapture) []
    selfAddr chanNull 0 (-65) (-5) addrHash (by decide) log state run (greeting_reported ends)
  refine ⟨log, state, run, lengths, fun addr peer present => (entries addr peer present).2, ?_⟩
  intro record member out emitted
  obtain ⟨known, -, foreign⟩ := outputs record member out emitted
  exact ⟨known, foreign⟩

end Owl.Admission
