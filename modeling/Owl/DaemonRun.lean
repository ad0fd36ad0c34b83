import Owl.Transmit

/-!
Runs of the whole daemon: any order of frames received, of cleanups with their
elections and of transmissions. A call of a handler is recorded with the node
before and after it, what it delivers to the host and its events. For the node
there are only three kinds of calls: it receives a frame, it cleans up, or it
transmits, which touches counters and the current channel and nothing else.
-/

namespace Owl.DaemonRun

open Bytes Ether Channel Sync Peers PeersRefine Wire State Frames Tx Rx RxSpec RxPeers
  CircularBuffer Schedule Daemon Transmit

/-- A call of an event handler with what it gets from outside. -/
inductive Turn where
  | receiveFrame (env : RxEnv) (frame : Buf)
  | cleanPeers (now : UInt64)
  | hostDeviceReady (long : LongWidth) (reads : List HostRead) (multicastNow unicastNow : UInt64)
  | sendUnicast (long : LongWidth) (now : UInt64)
  | sendMulticast (long : LongWidth) (now : UInt64)
  | sendPsf (env : TxEnv)
  | sendMif (env : TxEnv) (now : UInt64)
  | switchChannel (long : LongWidth) (wlanIsFile : Bool) (now : UInt64)

structure Record where
  before : AwdlState
  turn : Turn
  after : AwdlState
  outputs : List Buf
  trace : List RxEvent

def Turn.handle (hash : EtherAddr → UInt64) (state : DaemonState) :
    Turn → Except Fault (DaemonState × List Buf × List RxEvent)
  | .receiveFrame env frame => do
      let (_, awdlState, outcome) ← awdlReceiveFrame hash env frame state.awdlState
      return ({ state with awdlState := awdlState }, outcome.outputs, outcome.trace)
  | .cleanPeers now =>
      let cleaned := awdlCleanPeers now state.awdlState
      .ok ({ state with awdlState := cleaned.1 }, [], cleaned.2)
  | .hostDeviceReady long reads multicastNow unicastNow => do
      let (state, _) ← Transmit.hostDeviceReady hash long reads multicastNow unicastNow state
      return (state, [], [])
  | .sendUnicast long now => do
      let (state, _) ← awdlSendUnicast hash long now state
      return (state, [], [])
  | .sendMulticast long now => do
      let (state, _) ← awdlSendMulticast long now state
      return (state, [], [])
  | .sendPsf env => do
      let (state, _) ← awdlSendPsf env state
      return (state, [], [])
  | .sendMif env now => do
      let (state, _) ← awdlSendMif env now state
      return (state, [], [])
  | .switchChannel long wlanIsFile now =>
      .ok ((awdlSwitchChannel long wlanIsFile now state).1, [], [])

def Turn.Inside : Turn → Prop
  | .receiveFrame env _ => RadiotapInside env
  | _ => True

inductive Run (hash : EtherAddr → UInt64) (start : DaemonState) :
    List Record → DaemonState → Prop where
  | start : Run hash start [] start
  | step {log : List Record} {state after : DaemonState} {outputs : List Buf}
      {trace : List RxEvent} (run : Run hash start log state) (turn : Turn) (inside : turn.Inside)
      (handled : turn.handle hash state = .ok (after, outputs, trace)) :
      Run hash start (log ++ [⟨state.awdlState, turn, after.awdlState, outputs, trace⟩]) after

def runTurns (hash : EtherAddr → UInt64) :
    List Turn → DaemonState → Except Fault (List Record × DaemonState)
  | [], state => .ok ([], state)
  | turn :: rest, state =>
      (turn.handle hash state).bind fun done =>
        (runTurns hash rest done.1).map fun later =>
          (⟨state.awdlState, turn, done.1.awdlState, done.2.1, done.2.2⟩ :: later.1, later.2)

theorem runTurns_cons {hash : EtherAddr → UInt64} {turn : Turn} {rest : List Turn}
    {state after : DaemonState} {log : List Record}
    (ends : runTurns hash (turn :: rest) state = .ok (log, after)) :
    ∃ middle outputs trace later, turn.handle hash state = .ok (middle, outputs, trace) ∧
      runTurns hash rest middle = .ok (later, after) ∧
      log = ⟨state.awdlState, turn, middle.awdlState, outputs, trace⟩ :: later := by
  rw [runTurns] at ends
  cases first : turn.handle hash state with
  | error fault =>
      rw [first] at ends
      cases ends
  | ok done =>
      rw [first, Except.bind] at ends
      cases later : runTurns hash rest done.1 with
      | error fault =>
          rw [later] at ends
          cases ends
      | ok pair =>
          rw [later] at ends
          cases ends
          exact ⟨done.1, done.2.1, done.2.2, pair.1, rfl, later, rfl⟩

theorem runTurns_run {hash : EtherAddr → UInt64} {start state after : DaemonState}
    {log more : List Record} {turns : List Turn} (inside : ∀ turn ∈ turns, turn.Inside)
    (run : Run hash start log state) (ends : runTurns hash turns state = .ok (more, after)) :
    Run hash start (log ++ more) after := by
  induction turns generalizing state log more with
  | nil =>
      cases ends
      rw [List.append_nil]
      exact run
  | cons turn rest ih =>
      obtain ⟨middle, outputs, trace, later, first, tail, rfl⟩ := runTurns_cons ends
      have step := run.step turn (inside turn List.mem_cons_self) first
      have whole := ih (fun other member => inside other (List.mem_cons_of_mem _ member)) step tail
      rwa [List.append_assoc] at whole

theorem runTurns_turns {hash : EtherAddr → UInt64} {turns : List Turn} {state after : DaemonState}
    {log : List Record} (ends : runTurns hash turns state = .ok (log, after)) :
    log.map Record.turn = turns := by
  induction turns generalizing state log with
  | nil =>
      cases ends
      rfl
  | cons turn rest ih =>
      obtain ⟨middle, outputs, trace, later, -, tail, rfl⟩ := runTurns_cons ends
      exact congrArg (turn :: ·) (ih tail)

def Transmitted (before after : AwdlState) : Prop :=
  ∃ sequenceNumber stats current, after = { before with
    sequenceNumber := sequenceNumber
    stats := stats
    channel := { before.channel with current := current } }

theorem Transmitted.refl (state : AwdlState) : Transmitted state state :=
  ⟨state.sequenceNumber, state.stats, state.channel.current, rfl⟩

theorem Transmitted.trans {first second third : AwdlState} (left : Transmitted first second)
    (right : Transmitted second third) : Transmitted first third := by
  obtain ⟨_, _, _, rfl⟩ := left
  obtain ⟨sequenceNumber, stats, current, rfl⟩ := right
  exact ⟨sequenceNumber, stats, current, rfl⟩

theorem Transmitted.stats (state : AwdlState) (stats : AwdlStats) :
    Transmitted state { state with stats := stats } :=
  ⟨state.sequenceNumber, stats, state.channel.current, rfl⟩

/-- If the computation ends without a fault, its value has the property. -/
def Ensures {α : Type} (run : Except Fault α) (property : α → Prop) : Prop :=
  ∀ value, run = .ok value → property value

theorem Ensures.ok {α : Type} {property : α → Prop} {value : α} (holds : property value) :
    Ensures (.ok value) property := by
  rintro _ ⟨⟩
  exact holds

theorem Ensures.error {α : Type} {property : α → Prop} (fault : Fault) :
    Ensures (.error fault) property := by
  rintro _ ⟨⟩

theorem Ensures.bind {α β : Type} {first : Except Fault α} {next : α → Except Fault β}
    {middle : α → Prop} {property : β → Prop} (before : Ensures first middle)
    (after : ∀ value, middle value → Ensures (next value) property) :
    Ensures (first >>= next) property := by
  cases first with
  | error fault => exact .error fault
  | ok value => exact after value (before value rfl)

/-- What comes first does not matter. -/
theorem Ensures.andThen {α β : Type} {first : Except Fault α} {next : α → Except Fault β}
    {property : β → Prop} (after : ∀ value, Ensures (next value) property) :
    Ensures (first >>= next) property :=
  Ensures.bind (fun _ _ => trivial) fun value _ => after value

theorem awdlSendData_transmits (frame : Buf) (state : AwdlState)
    (ieee80211State : Ieee80211State) :
    Ensures (awdlSendData frame state ieee80211State) fun sent =>
      Transmitted state sent.2.1 := by
  unfold awdlSendData
  -- Each failed read of the Ethernet header returns the state as it came.
  refine .andThen fun type => ?_
  cases type with
  | none => exact .ok (.refl state)
  | some type =>
  refine .andThen fun dst => ?_
  cases dst with
  | none => exact .ok (.refl state)
  | some dst =>
  refine .andThen fun src => ?_
  cases src with
  | none => exact .ok (.refl state)
  | some src =>
  dsimp only
  split
  · exact .error .write
  · exact .ok ⟨_, _, state.channel.current, rfl⟩

section Handlers

variable (hash : EtherAddr → UInt64) (long : LongWidth) (now : UInt64) (state : DaemonState)

def Transmits (after : DaemonState × List TxEvent) : Prop :=
  Transmitted state.awdlState after.1.awdlState

theorem sendNext_transmits (frame : Buf) :
    Ensures (sendNext hash long now frame state) fun sent =>
      Transmitted state.awdlState sent.2.1.awdlState := by
  unfold sendNext
  refine .andThen fun dst => ?_
  cases dst with
  | none => exact .error .read
  | some dst =>
  dsimp only
  split
  · exact .ok (.refl _)
  split
  · split
    · refine .bind (awdlSendData_transmits frame _ _) fun sent transmitted => ?_
      exact .ok (transmitted.trans (.stats _ _))
    · exact .ok (.refl _)
  · exact .ok (.refl _)

theorem awdlSendUnicast_transmits :
    Ensures (awdlSendUnicast hash long now state) (Transmits state) := by
  unfold awdlSendUnicast
  cases state.next with
  | none => exact .ok (.refl _)
  | some frame =>
      exact .bind (sendNext_transmits hash long now state frame) fun sent transmitted =>
        .ok transmitted

theorem sendOldest_transmits :
    Ensures (sendOldest long now state) fun sent =>
      Transmitted state.awdlState sent.2.1.awdlState := by
  unfold sendOldest
  dsimp only
  split
  · split
    · refine .bind (awdlSendData_transmits _ _ _) fun sent transmitted => ?_
      exact .ok (transmitted.trans (.stats _ _))
    · exact .error .read
  · exact .ok (.refl _)

theorem awdlSendMulticast_transmits :
    Ensures (awdlSendMulticast long now state) (Transmits state) := by
  unfold awdlSendMulticast
  split
  · exact .ok (.refl _)
  · exact .bind (sendOldest_transmits long now state) fun sent transmitted => .ok transmitted

theorem callIf_transmits {condition : Bool}
    {handler : DaemonState → Except Fault (DaemonState × List TxEvent)}
    (transmits : Ensures (handler state) (Transmits state)) :
    Ensures (callIf condition handler state) (Transmits state) := by
  unfold callIf
  split
  · exact transmits
  · exact .ok (.refl _)

theorem pollHostDevice_transmits (reads : List HostRead) :
    Ensures (pollHostDevice reads state) fun polled => polled.2.1.awdlState = state.awdlState := by
  induction reads generalizing state with
  | nil => exact .ok rfl
  | cons read rest ih =>
      rw [pollHostDevice]
      split
      · exact .ok rfl
      -- The loop fills the queues only, so the node is the one of the rest of the loop.
      refine .andThen fun buf => .andThen fun dst => ?_
      cases dst with
      | none => exact .ok rfl
      | some dst =>
          dsimp only
          split
          · exact .bind (ih _) fun polled same => .ok same
          · exact .bind (ih _) fun polled same => .ok same

theorem hostDeviceReady_transmits (reads : List HostRead) (unicastNow : UInt64) :
    Ensures (Transmit.hostDeviceReady hash long reads now unicastNow state) (Transmits state) := by
  unfold Transmit.hostDeviceReady
  refine .bind (pollHostDevice_transmits state reads) fun polled same => ?_
  refine .bind (callIf_transmits polled.2.1 (awdlSendMulticast_transmits long now _))
    fun multicast first => ?_
  refine .bind (callIf_transmits multicast.1 (awdlSendUnicast_transmits hash long unicastNow _))
    fun unicast second => .ok ?_
  have both := first.trans second
  rw [same] at both
  exact both

theorem awdlSendAction_transmits (env : TxEnv) (type : ActionType) :
    Ensures (awdlSendAction env type state) (Transmits state) :=
  .andThen fun _ => .ok (.stats _ _)

theorem awdlSendMif_transmits (env : TxEnv) :
    Ensures (awdlSendMif env now state) (Transmits state) :=
  .bind (callIf_transmits state (awdlSendAction_transmits state env .mif))
    fun _ transmitted => .ok transmitted

theorem awdlSwitchChannel_transmits (wlanIsFile : Bool) :
    Transmits state (awdlSwitchChannel long wlanIsFile now state) := by
  unfold awdlSwitchChannel
  dsimp only
  split
  · exact ⟨_, _, _, rfl⟩
  · exact .refl _

end Handlers

inductive Effect (hash : EtherAddr → UInt64) : Record → Prop where
  | received (before : AwdlState) (env : RxEnv) (frame : Buf) (outcome : RxOutcome)
      (run : awdlRx false hash env frame before = .ok outcome) :
      Effect hash ⟨before, .receiveFrame env frame, afterReceive outcome, outcome.outputs,
        outcome.trace⟩
  | cleaned (before : AwdlState) (now : UInt64) :
      Effect hash ⟨before, .cleanPeers now, (awdlCleanPeers now before).1, [],
        (awdlCleanPeers now before).2⟩
  | transmitted (before : AwdlState) (turn : Turn) (after : AwdlState)
      (transmits : Transmitted before after) : Effect hash ⟨before, turn, after, [], []⟩

theorem handle_effect {hash : EtherAddr → UInt64} {state after : DaemonState} {turn : Turn}
    {outputs : List Buf} {trace : List RxEvent}
    (handled : turn.handle hash state = .ok (after, outputs, trace)) :
    Effect hash ⟨state.awdlState, turn, after.awdlState, outputs, trace⟩ := by
  -- All but two handlers end in a pure return without outputs or events.
  have sends : ∀ run : Except Fault (DaemonState × List TxEvent), Ensures run (Transmits state) →
      (run >>= fun sent => pure (sent.1, [], [])) = .ok (after, outputs, trace) →
      Effect hash ⟨state.awdlState, turn, after.awdlState, outputs, trace⟩ := by
    intro run ensures same
    cases run with
    | error fault => cases same
    | ok sent =>
        cases same
        exact .transmitted _ _ _ (ensures sent rfl)
  cases turn with
  | receiveFrame env frame =>
      rw [Turn.handle] at handled
      cases run : awdlReceiveFrame hash env frame state.awdlState with
      | error fault =>
          rw [run] at handled
          cases handled
      | ok received =>
          obtain ⟨outcome, ran, -, rfl⟩ := awdlReceiveFrame_ok.mp run
          rw [run] at handled
          cases handled
          exact .received _ env frame outcome ran
  | cleanPeers now =>
      cases handled
      exact .cleaned _ now
  | hostDeviceReady long reads multicastNow unicastNow =>
      exact sends _ (hostDeviceReady_transmits hash long multicastNow state reads unicastNow)
        handled
  | sendUnicast long now => exact sends _ (awdlSendUnicast_transmits hash long now state) handled
  | sendMulticast long now => exact sends _ (awdlSendMulticast_transmits long now state) handled
  | sendPsf env => exact sends _ (awdlSendAction_transmits state env .psf) handled
  | sendMif env now => exact sends _ (awdlSendMif_transmits now state env) handled
  | switchChannel long wlanIsFile now =>
      cases handled
      exact .transmitted _ _ _ (awdlSwitchChannel_transmits long now state wlanIsFile)

section Table

variable {hash : EtherAddr → UInt64} {env : RxEnv} {frame : Buf} {addr : EtherAddr}
  {subtype : UInt8}

inductive Touched (hash : EtherAddr → UInt64) (env : RxEnv) (addr : EtherAddr)
    (before after : AwdlState) : Prop where
  /-- There was no memory for the sender. -/
  | refused (full : (addPeer hash env (countAction before) addr).1 = .internal)
      (table : after.peers.peers = (addPeer hash env (countAction before) addr).2.1.peers.peers)
      (fewer : ∀ other peer, after.peers.peers.contents other = some peer →
        before.peers.peers.contents other = some peer)
  | entered (entry : Peer)
      (contents : after.peers.peers.contents =
        Function.update before.peers.peers.contents addr (some entry))
      (updated : entry.lastUpdate = env.now)
      (valid : ∀ peer, before.peers.peers.contents addr = some peer → peer.isValid = true →
        entry.isValid = true)

def Configured (before after : AwdlState) : Prop :=
  ∃ table sync stats, after = withTable { before with sync := sync, stats := stats } table

theorem announce_isValid (cb : Option (Peer → RxEvent)) (peer : Peer)
    (valid : peer.isValid = true) : (announce cb peer).1.isValid = true := by
  rw [announce_only]
  simp [valid]

theorem entered_kept {cb : Option (Peer → RxEvent)} {contents : FiniteMap} {entry : Peer}
    {events : List RxEvent} (entered : Entered env addr cb contents entry events) :
    entry.lastUpdate = env.now ∧
      ∀ peer, contents addr = some peer → peer.isValid = true → entry.isValid = true := by
  cases entered with
  | old old found =>
      refine ⟨congrArg Peer.lastUpdate (announce_only _ _), ?_⟩
      intro peer present valid
      obtain rfl := Option.some.inj (found.symm.trans present)
      exact announce_isValid _ _ valid
  | new absent =>
      refine ⟨rfl, ?_⟩
      intro peer present
      rw [absent] at present
      cases present

theorem actionEffect_touched {state : AwdlState} {outcome : RxOutcome}
    (effect : ActionEffect hash env frame addr subtype state outcome) :
    Touched hash env addr state outcome.state ∧ Configured state outcome.state := by
  -- The loop state differs from the start in table, clock and counters only.
  have configured : ∀ entry events loop table, Parsed env frame addr state entry events loop →
      Configured state (withTable loop.state table) := by
    intro entry events loop table parsed
    obtain ⟨⟨_, kept⟩, -⟩ := parsed.kept
    rw [kept.node]
    exact ⟨table, loop.state.sync, (countAction state).stats, rfl⟩
  have remains : ∀ entry events loop, Parsed env frame addr state entry events loop →
      loop.peer.lastUpdate = env.now ∧ ∀ peer, state.peers.peers.contents addr = some peer →
        peer.isValid = true → loop.peer.isValid = true := by
    intro entry events loop parsed
    obtain ⟨⟨_, kept⟩, -⟩ := parsed.kept
    rw [kept.lastUpdate, kept.isValid]
    exact entered_kept parsed.entered
  cases effect with
  | refused table tableValid full absent fewer =>
      exact ⟨.refused (by rw [full]) (by rw [full]) fewer, table, state.sync,
        (countAction state).stats, rfl⟩
  | malformed entry events loop parsed stops table tableValid contents =>
      obtain ⟨updated, stays⟩ := remains entry events loop parsed
      exact ⟨.entered loop.peer contents updated stays, configured entry events loop table parsed⟩
  | done entry events loop parsed complete empty table tableValid last again turned contents =>
      obtain ⟨-, stays⟩ := remains entry events loop parsed
      have final : last = (announce (announcer state)
          { markMif subtype loop.peer with lastUpdate := env.now }).1 := congrArg Prod.fst turned
      refine ⟨.entered last contents ?_ ?_, configured entry events loop table parsed⟩
      · rw [final, announce_only]
      · intro peer present valid
        rw [final]
        apply announce_isValid
        rw [markMif_only]
        exact stays peer present valid

end Table

inductive Changes (hash : EtherAddr → UInt64) : Record → Prop where
  /-- A transmission, or a frame that is no admitted action frame. -/
  | quiet (record : Record) (same : Transmitted record.before record.after)
      (silent : record.trace = []) : Changes hash record
  | admitted (before : AwdlState) (env : RxEnv) (frame mac : Buf) (outcome : RxOutcome)
      (stats : AwdlStats) (admits : Admits hash env before frame mac)
      (effect : ActionEffect hash env ((mac.drop 24).drop 16) (macSource mac)
        (byteAt (mac.drop 24).bytes 6) before outcome) :
      Changes hash ⟨before, .receiveFrame env frame, { outcome.state with stats := stats },
        outcome.outputs, outcome.trace⟩
  | cleaned (before : AwdlState) (now : UInt64) :
      Changes hash ⟨before, .cleanPeers now, (awdlCleanPeers now before).1, [],
        (awdlCleanPeers now before).2⟩

theorem Effect.changes {hash : EtherAddr → UInt64} {record : Record} (effect : Effect hash record)
    (inside : record.turn.Inside) (valid : TableValid hash record.before.peers.peers) :
    Changes hash record := by
  cases effect with
  | received before env frame outcome run =>
      -- `awdl_receive_frame` may count the frame as unknown on top of what `awdl_rx` did.
      obtain ⟨stats, after⟩ := afterReceive_eq outcome
      obtain ⟨node, silent⟩ | ⟨mac, admits, effect⟩ :=
        awdlRx_changes hash env before inside valid run
      · refine .quiet _ ?_ silent
        dsimp only
        rw [after, node]
        exact .stats before stats
      · rw [after]
        exact .admitted before env frame mac outcome stats admits effect
  | cleaned before now => exact .cleaned before now
  | transmitted before turn after transmits => exact .quiet _ transmits rfl

structure Apart (hash : EtherAddr → UInt64) (own : EtherAddr) (state : AwdlState) : Prop where
  valid : NodeValid hash state
  self : state.selfAddress = own
  absent : state.peers.peers.contents own = none

theorem Apart.transmitted {hash : EtherAddr → UInt64} {own : EtherAddr} {before after : AwdlState}
    (apart : Apart hash own before) (transmits : Transmitted before after) :
    Apart hash own after := by
  obtain ⟨_, _, _, rfl⟩ := transmits
  exact ⟨⟨apart.valid.table, apart.valid.self, apart.valid.adds, apart.valid.removes⟩, apart.self,
    apart.absent⟩

theorem Touched.absent {hash : EtherAddr → UInt64} {env : RxEnv} {addr own : EtherAddr}
    {before after : AwdlState} (touched : Touched hash env addr before after) (foreign : addr ≠ own)
    (absent : before.peers.peers.contents own = none) : after.peers.peers.contents own = none := by
  cases touched with
  | refused _ _ fewer =>
      cases left : after.peers.peers.contents own with
      | none => rfl
      | some peer =>
          rw [fewer own peer left] at absent
          cases absent
  | entered entry contents => rw [contents, Function.update_of_ne foreign.symm, absent]

theorem Changes.apart {hash : EtherAddr → UInt64} {own : EtherAddr} {record : Record}
    (changes : Changes hash record) (apart : Apart hash own record.before) :
    Apart hash own record.after := by
  cases changes with
  | quiet record same silent => exact apart.transmitted same
  | admitted before env frame mac outcome stats admits effect =>
      obtain ⟨touched, table, sync, _, after⟩ := actionEffect_touched effect
      have same : outcome.state.selfAddress = before.selfAddress := by rw [after]; rfl
      -- `awdl_rx` has dropped frames from the own address before.
      have foreign : macSource mac ≠ own := apart.self ▸ admits.foreign
      exact ⟨(actionEffect_valid effect apart.valid).withStats stats, same.trans apart.self,
        touched.absent foreign apart.absent⟩
  | cleaned before now =>
      refine ⟨awdlCleanPeers_valid now apart.valid, apart.self, ?_⟩
      exact (awdlCleanPeers_contents now apart.valid.table own).trans
        (congrArg (Option.filter _) apart.absent)

section Runs

variable {hash : EtherAddr → UInt64} {own : EtherAddr} {start state : DaemonState}
  {log : List Record}

theorem Run.effects (run : Run hash start log state) (apart : Apart hash own start.awdlState) :
    Apart hash own state.awdlState ∧
      ∀ record ∈ log, Apart hash own record.before ∧ record.turn.Inside ∧ Effect hash record := by
  -- Validity of the table has to be carried along to read off the kind of the next call.
  induction run with
  | start => exact ⟨apart, by simp⟩
  | step run turn inside handled ih =>
      obtain ⟨before, earlier⟩ := ih
      have effect := handle_effect handled
      refine ⟨(effect.changes inside before.valid.table).apart before, ?_⟩
      intro record member
      rcases List.mem_append.mp member with old | new
      · exact earlier record old
      · rw [List.mem_singleton.mp new]
        exact ⟨before, inside, effect⟩

/-- Along a run every call is of one of the kinds above. -/
theorem Run.changes (run : Run hash start log state) (apart : Apart hash own start.awdlState) :
    ∀ record ∈ log, Apart hash own record.before ∧ Changes hash record := by
  intro record member
  obtain ⟨before, inside, effect⟩ := (run.effects apart).2 record member
  exact ⟨before, effect.changes inside before.valid.table⟩

end Runs

theorem daemonInit_apart (hash : EtherAddr → UInt64)
    (memory : Fixed UInt8 (hostNameLengthMax + 1)) (slots : Fin txQueueLength → Buf)
    (hostname : List UInt8) (self : EtherAddr) (chan : AwdlChan) (now : UInt64)
    (filterRssi : Bool) :
    Apart hash self (daemonInit memory slots hostname self chan now filterRssi).awdlState := by
  have empty : ∀ addr, (daemonInit memory slots hostname self chan now
      filterRssi).awdlState.peers.peers.contents addr = none := fun addr =>
    congrFun awdlPeersInit_contents addr
  refine ⟨⟨awdlPeersInit_valid, ?_, rfl, rfl⟩, rfl, empty _⟩
  intro addr peer present
  rw [empty] at present
  cases present

end Owl.DaemonRun
