import Owl.DaemonRun
import Owl.ElectionResult
import Owl.Neighbors
import Owl.SyncTransfer

/-!
Whose schedule the node follows. The clock of a node (`last_update`,
`aw_counter` and the two periods) is moved by the synchronization parameters of
one sender only, the elected sync master, and by nothing else that a handler
does. The master is the node itself or a valid peer of its table after every
handler: peers leave the table in a cleanup, which elects again at once, and
otherwise only when memory runs out while the table grows.
-/

namespace Owl.ClockMaster

open Bytes Ether Channel Sync Election ElectionRun ElectionResult SyncTransfer Peers PeersRefine
  Wire State Frames RxTlv Rx RxSpec RxAction RxData RxPeers Siphash Daemon
  Neighbors Transmit DaemonRun

def clock (sync : SyncState) : UInt64 × UInt16 × UInt16 × UInt8 :=
  (sync.lastUpdate, sync.awCounter, sync.awPeriod, sync.presenceMode)

def adoptClock (long : LongWidth) (now : UInt64) (sync : SyncState) : RxEvent → SyncState
  | .tlv _ type value .ok =>
      if type = TlvType.synchronizatonParameters.code then
        awdlSyncUpdateLast long now (ofLe16 (slice value 1 2)) (ofLe16 (slice value 29 2)) sync
      else sync
  | _ => sync

theorem awdlSyncUpdateLast_clock {first second : SyncState} (same : clock first = clock second)
    (long : LongWidth) (now : UInt64) (timeToNextAw awCounter : UInt16) :
    clock (awdlSyncUpdateLast long now timeToNextAw awCounter first) =
      clock (awdlSyncUpdateLast long now timeToNextAw awCounter second) := by
  simp only [clock, Prod.mk.injEq] at same
  obtain ⟨-, -, period, mode⟩ := same
  simp only [clock, awdlSyncUpdateLast, SyncState.eawPeriod, period, mode]

theorem adoptClock_congr {first second : SyncState} (same : clock first = clock second)
    (long : LongWidth) (now : UInt64) (event : RxEvent) :
    clock (adoptClock long now first event) = clock (adoptClock long now second event) := by
  unfold adoptClock
  split
  · split
    · exact awdlSyncUpdateLast_clock same long now _ _
    · exact same
  · exact same

theorem adoptClock_other {long : LongWidth} {now : UInt64} {sync : SyncState} {addr : EtherAddr}
    {type : UInt8} {value : List UInt8} {result : RxResult}
    (different : type ≠ TlvType.synchronizatonParameters.code) :
    adoptClock long now sync (.tlv addr type value result) = sync := by
  cases result with
  | ok => exact if_neg different
  | _ => rfl

theorem peek_value {α : Type} {width offset : Nat} {decode : List UInt8 → α} {bytes : List UInt8}
    {value : α} (found : peek width decode bytes offset = some value) :
    value = decode (slice bytes offset width) := by
  unfold peek at found
  split at found
  · exact (Option.some.inj found).symm
  · cases found

theorem adoptClocks_congr {first second : SyncState} (same : clock first = clock second)
    (long : LongWidth) (now : UInt64) (events : List RxEvent) :
    clock (events.foldl (adoptClock long now) first) =
      clock (events.foldl (adoptClock long now) second) := by
  induction events generalizing first second with
  | nil => exact same
  | cons event rest ih => exact ih (adoptClock_congr same long now event)

section Tlv

variable (src : Peer) (val : Buf) (state : AwdlState)

def Leaves (handled : Handled) : Prop := Ensures handled fun result => result.2.2 = state

theorem awdlHandleChanseqTlv_leaves (list : ChanSeq) :
    Leaves state (awdlHandleChanseqTlv list src val state) := by
  unfold awdlHandleChanseqTlv Leaves
  -- Every exit hands the node back as it came.
  repeat' (first | exact .ok rfl | refine .andThen fun _ => ?_ | split | dsimp only)

theorem awdlHandleElectionParamsTlv_leaves :
    Leaves state (awdlHandleElectionParamsTlv src val state) := by
  unfold awdlHandleElectionParamsTlv Leaves
  repeat' (first | exact .ok rfl | refine .andThen fun _ => ?_ | split)

theorem awdlHandleElectionParamsV2Tlv_leaves :
    Leaves state (awdlHandleElectionParamsV2Tlv src val state) := by
  unfold awdlHandleElectionParamsV2Tlv Leaves
  repeat' (first | exact .ok rfl | refine .andThen fun _ => ?_ | split)

theorem awdlHandleArpaTlv_leaves : Leaves state (awdlHandleArpaTlv src val state) := by
  unfold awdlHandleArpaTlv Leaves
  repeat' (first | exact .ok rfl | refine .andThen fun _ => ?_ | split)

theorem awdlHandleDataPathStateTlv_leaves :
    Leaves state (awdlHandleDataPathStateTlv src val state) := by
  unfold awdlHandleDataPathStateTlv Leaves
  repeat' (first | exact .ok rfl | refine .andThen fun _ => ?_ | split)

theorem awdlHandleVersionTlv_leaves : Leaves state (awdlHandleVersionTlv src val state) := by
  unfold awdlHandleVersionTlv Leaves
  repeat' (first | exact .ok rfl | refine .andThen fun _ => ?_ | split)

def Moves (long : LongWidth) (now : UInt64) (type : UInt8)
    (result : RxResult × Peer × AwdlState) : Prop :=
  clock result.2.2.sync =
      clock (adoptClock long now state.sync (.tlv src.addr type val.bytes result.1)) ∧
    (type = TlvType.synchronizatonParameters.code → result.1 = .ok →
      state.election.syncAddr = src.addr)

theorem awdlHandleSyncParamsTlv_moves (long : LongWidth) (now : UInt64) :
    Ensures (awdlHandleSyncParamsTlv long src val state now)
      (Moves src val state long now TlvType.synchronizatonParameters.code) := by
  unfold awdlHandleSyncParamsTlv
  simp (disch := decide) only [readLe16_eq, except_ok_bind, Int.reduceToNat, except_pure]
  -- A frame from anyone but the master is ignored before it is read.
  by_cases master : awdlElectionIsSyncMaster state.election src.addr = true
  swap
  · simp only [master, Bool.not_false, ↓reduceIte]
    exact .ok ⟨rfl, fun _ never => by cases never⟩
  simp only [master, Bool.not_true, Bool.false_eq_true, ↓reduceIte]
  have ours : state.election.syncAddr = src.addr := (isSyncMaster_iff _ _).mp master
  cases near : peek 2 ofLe16 val.bytes 1 with
  | none => exact .ok ⟨rfl, fun _ never => by cases never⟩
  | some timeToNextAw =>
  cases far : peek 2 ofLe16 val.bytes 29 with
  | none => exact .ok ⟨rfl, fun _ never => by cases never⟩
  | some awCounter =>
  refine .ok ⟨?_, fun _ _ => ours⟩
  dsimp only [adoptClock]
  rw [if_pos rfl, peek_value near, peek_value far]
  -- The measurement counters differ, the clock does not.
  apply awdlSyncUpdateLast_clock
  split <;> rfl

theorem awdlHandleTlv_moves (long : LongWidth) (list : ChanSeq) (type : UInt8) (now : UInt64) :
    Ensures (awdlHandleTlv long list src type val state now)
      (Moves src val state long now type) := by
  -- For the other handlers the event is no synchronization event.
  have other : ∀ handled, type ≠ TlvType.synchronizatonParameters.code → Leaves state handled →
      Ensures handled (Moves src val state long now type) := by
    intro handled different leaves result run
    refine ⟨?_, fun same => absurd same different⟩
    rw [leaves result run, adoptClock_other different]
  unfold awdlHandleTlv
  split
  case isTrue sync =>
    subst sync
    exact awdlHandleSyncParamsTlv_moves src val state long now
  case isFalse different =>
  split
  · exact other _ different (awdlHandleChanseqTlv_leaves src val state list)
  split
  · exact other _ different (awdlHandleElectionParamsTlv_leaves src val state)
  split
  · exact other _ different (awdlHandleElectionParamsV2Tlv_leaves src val state)
  split
  · exact other _ different (awdlHandleArpaTlv_leaves src val state)
  split
  · exact other _ different (awdlHandleDataPathStateTlv_leaves src val state)
  split
  · exact other _ different (awdlHandleVersionTlv_leaves src val state)
  · exact other _ different (.ok rfl)

end Tlv

/-- The clock is what the accepted synchronization parameters of `trace` make of
it, and these come from the master. -/
structure Follows (env : RxEnv) (before after : AwdlState) (trace : List RxEvent) : Prop where
  clock : clock after.sync = clock (trace.foldl (adoptClock env.long env.now) before.sync)
  master : ∀ sender value,
    .tlv sender TlvType.synchronizatonParameters.code value .ok ∈ trace →
      before.election.syncAddr = sender

def Still (event : RxEvent) : Prop := ∀ addr type value result, event ≠ .tlv addr type value result

theorem Follows.still {env : RxEnv} {before after : AwdlState} {trace : List RxEvent}
    (same : after.sync = before.sync) (still : ∀ event ∈ trace, Still event) :
    Follows env before after trace := by
  refine ⟨?_, fun sender value inside => absurd rfl (still _ inside _ _ _ _)⟩
  rw [same]
  clear same
  induction trace generalizing before with
  | nil => rfl
  | cons event rest ih =>
      have kept : adoptClock env.long env.now before.sync event = before.sync := by
        cases event with
        | tlv addr type value result => exact absurd rfl (still _ List.mem_cons_self _ _ _ _)
        | _ => rfl
      rw [List.foldl_cons, kept]
      exact ih fun later inside => still later (List.mem_cons_of_mem _ inside)

theorem Follows.trans {env : RxEnv} {first second third : AwdlState} {early late : List RxEvent}
    (left : Follows env first second early) (same : second.election = first.election)
    (right : Follows env second third late) : Follows env first third (early ++ late) := by
  refine ⟨?_, ?_⟩
  · rw [List.foldl_append, right.clock]
    exact adoptClocks_congr left.clock env.long env.now late
  · intro sender value inside
    rcases List.mem_append.mp inside with earlier | later
    · exact left.master sender value earlier
    · rw [← same]
      exact right.master sender value later

section Loop

variable (env : RxEnv)

/-- One TLV of the loop. -/
theorem round_follows {peer after : Peer} {state node : AwdlState} {type : UInt8} {val : Buf}
    {list : ChanSeq} {result : RxResult}
    (run : awdlHandleTlv env.long list peer type val state env.now = .ok (result, after, node)) :
    Follows env state node [.tlv peer.addr type val.bytes result] := by
  obtain ⟨moved, master⟩ := awdlHandleTlv_moves peer val state env.long list type env.now _ run
  refine ⟨moved, ?_⟩
  intro sender value inside
  obtain ⟨rfl, rfl, rfl, rfl⟩ := RxEvent.tlv.inj (List.mem_singleton.mp inside)
  exact master rfl rfl

theorem tlvLoop_follows (fuel : Nat) (frame : Buf) (peer : Peer) (state : AwdlState) :
    Returns (tlvLoop env fuel frame peer state) fun loop =>
      Follows env state loop.state loop.trace := by
  -- The election is fixed during the loop, so one master serves all rounds.
  induction fuel generalizing frame peer state with
  | zero => exact .ok _ (.still rfl (by simp))
  | succ fuel ih =>
      rw [tlvLoop, tlvRound_eq]
      cases found : nextTlv frame with
      | none => exact .ok _ (.still rfl (by simp))
      | some cut =>
          obtain ⟨type, val, rest⟩ := cut
          obtain ⟨⟨result, after, node⟩, run, kept, -⟩ := awdlHandleTlv_from peer val state env.long
            (env.list frame.bytes.length) type env.now
          have follows := round_follows env run
          dsimp only at kept ⊢
          rw [run, except_ok_bind]
          dsimp only
          rw [kept.addr]
          split
          · exact .ok _ follows
          · refine (ih rest after node).bind fun loop later => ?_
            exact .ok _ (follows.trans (by rw [kept.node]) later)

end Loop

section Action

variable {hash : EtherAddr → UInt64} {env : RxEnv} {frame : Buf} {addr : EtherAddr}
  {subtype : UInt8} {state : AwdlState}

theorem announce_still (node : AwdlState) (peer : Peer) :
    ∀ event ∈ (announce (announcer node) peer).2, Still event := by
  intro event inside
  unfold announcer at inside
  cases called : node.peerCb with
  | none =>
      rw [called, announce] at inside
      split at inside <;> cases inside
  | some cb =>
      rw [called] at inside
      rw [announce_events cb peer event inside]
      rintro sender type value result ⟨⟩

theorem entered_still {entry : Peer} {events : List RxEvent} {contents : FiniteMap}
    (entered : Entered env addr (announcer state) contents entry events) :
    ∀ event ∈ events, Still event := by
  cases entered with
  | old peer found => exact announce_still state _
  | new absent =>
      intro event inside
      rintro sender type value result rfl
      cases List.mem_singleton.mp inside

theorem parsed_follows {entry : Peer} {events : List RxEvent} {loop : TlvOutcome}
    (parsed : Parsed env frame addr state entry events loop) :
    Follows env state loop.state (events ++ loop.trace) ∧
      loop.state.election = state.election := by
  obtain ⟨⟨_, kept⟩, -⟩ := parsed.kept
  obtain ⟨entered, table, run⟩ := parsed
  obtain ⟨other, same, follows⟩ := tlvLoop_follows env (frame.bytes.length + 1) frame entry
    (withTable (countAction state) table)
  rw [run] at same
  cases same
  have begins : Follows env state (withTable (countAction state) table) events :=
    .still rfl (entered_still entered)
  exact ⟨begins.trans rfl follows, by rw [kept.node]; rfl⟩

/-- An admitted action frame moves the clock only if it comes from the master. -/
theorem actionEffect_follows {outcome : RxOutcome}
    (effect : ActionEffect hash env frame addr subtype state outcome) :
    Follows env state outcome.state outcome.trace ∧
      outcome.state.election = state.election := by
  cases effect with
  | refused => exact ⟨.still rfl (by simp), rfl⟩
  | malformed entry events loop parsed =>
      obtain ⟨⟨moved, master⟩, same⟩ := parsed_follows parsed
      exact ⟨⟨moved, master⟩, same⟩
  | done entry events loop parsed complete empty table valid last again turned =>
      obtain ⟨follows, same⟩ := parsed_follows parsed
      have quiet : ∀ event ∈ .action addr subtype :: again, Still event := by
        intro event inside
        rcases List.mem_cons.mp inside with rfl | later
        · rintro sender type value result same
          cases same
        · have silent := announce_still state
            { markMif subtype loop.peer with lastUpdate := env.now }
          rw [← turned] at silent
          exact silent event later
      have ends : Follows env loop.state (withTable loop.state table)
          (.action addr subtype :: again) := .still rfl quiet
      exact ⟨follows.trans same ends, same⟩

end Action

section Master

variable {hash : EtherAddr → UInt64}

def MasterKnown (state : AwdlState) : Prop :=
  state.election.syncAddr = state.selfAddress ∨
    ∃ peer, state.peers.peers.contents state.election.syncAddr = some peer ∧ peer.isValid = true

/-- The sender of a received frame, if it is admitted, costs the table no entry. -/
def KeepsTurn (hash : EtherAddr → UInt64) (record : Record) : Prop :=
  ∀ env frame, record.turn = .receiveFrame env frame → KeepsTable hash env frame record.before

theorem touched_master {env : RxEnv} {src : EtherAddr} {before after : AwdlState}
    (apart : TableValid hash before.peers.peers) (touched : Touched hash env src before after)
    (keeps : KeepsEntries hash env before src)
    {peer : Peer} (present : before.peers.peers.contents before.election.syncAddr = some peer)
    (valid : peer.isValid = true) :
    ∃ left, after.peers.peers.contents before.election.syncAddr = some left ∧
      left.isValid = true := by
  cases touched with
  | refused full table fewer =>
      have kept := addPeer_kept hash env (countAction before) src apart keeps full
      rw [table, kept]
      exact ⟨peer, present, valid⟩
  | entered entry contents updated stays =>
      rw [contents]
      by_cases own : before.election.syncAddr = src
      · subst own
        exact ⟨entry, Function.update_self .., stays peer present valid⟩
      · exact ⟨peer, by rw [Function.update_of_ne own, present], valid⟩

theorem changes_named {record : Record} (changes : Changes hash record) :
    record.after.election.selfAddr = record.before.election.selfAddr := by
  cases changes with
  | quiet record same silent =>
      obtain ⟨_, _, _, after⟩ := same
      rw [after]
  | admitted before env frame mac outcome stats admits effect =>
      obtain ⟨-, _, _, _, after⟩ := actionEffect_touched effect
      dsimp only
      rw [after]
      rfl
  | cleaned before now => exact electionOver_selfAddr before.election _

/-- After a cleanup the master is the node or one of the peers that are left. -/
theorem awdlCleanPeers_master {own : EtherAddr} {state : AwdlState} (now : UInt64)
    (apart : Apart hash own state) (named : state.election.selfAddr = own) :
    MasterKnown (awdlCleanPeers now state).1 := by
  have after : Apart hash own (awdlCleanPeers now state).1 :=
    Changes.apart (.cleaned state now) apart
  -- The election runs on the table that the cleanup has left.
  have foreign : Foreign hash state.election.selfAddr
      (awdlCleanPeers now state).1.peers.peers :=
    ⟨after.valid.table, after.valid.self, by rw [named]; exact after.absent⟩
  obtain ⟨reset, -⟩ | ⟨addr, peer, present, eligible, -, -, -, follows⟩ := foreign.run_cases
  · left
    show (awdlElectionRun state.election (awdlCleanPeers now state).1.peers.peers).syncAddr =
      state.selfAddress
    rw [reset, resetSelf_syncAddr, named, apart.self]
  · right
    refine ⟨peer, ?_, eligible.valid⟩
    rw [show (awdlCleanPeers now state).1.election.syncAddr = addr from follows]
    exact present

theorem changes_master {own : EtherAddr} {record : Record} (changes : Changes hash record)
    (apart : Apart hash own record.before) (named : record.before.election.selfAddr = own)
    (keeps : KeepsTurn hash record) (known : MasterKnown record.before) :
    MasterKnown record.after := by
  cases changes with
  | quiet record same silent =>
      obtain ⟨_, _, _, after⟩ := same
      rw [after]
      exact known
  | admitted before env frame mac outcome stats admits effect =>
      obtain ⟨touched, _, _, _, after⟩ := actionEffect_touched effect
      have election : outcome.state.election = before.election := by rw [after]; rfl
      have same : outcome.state.selfAddress = before.selfAddress := by rw [after]; rfl
      show outcome.state.election.syncAddr = outcome.state.selfAddress ∨ ∃ peer,
        outcome.state.peers.peers.contents outcome.state.election.syncAddr = some peer ∧
          peer.isValid = true
      rw [election, same]
      -- The election has not run, so the old master must still be in the table.
      rcases known with self | ⟨peer, present, valid⟩
      · exact .inl self
      · exact .inr (touched_master apart.valid.table touched (keeps env frame rfl mac admits) present
          valid)
  | cleaned before now => exact awdlCleanPeers_master now apart named

end Master

section Clock

variable {hash : EtherAddr → UInt64}

theorem aligned_congr {first second : SyncState} (same : clock first = clock second)
    (aligned : Aligned second) : Aligned first := by
  simp only [clock, Prod.mk.injEq] at same
  obtain ⟨-, counter, period, mode⟩ := same
  refine ⟨⟨mode.trans aligned.mode, period.trans aligned.period⟩, ?_⟩
  rw [counter]
  exact aligned.counter

theorem adoptClock_aligned {sync : SyncState} (aligned : Aligned sync) (long : LongWidth)
    (now : UInt64) (event : RxEvent) : Aligned (adoptClock long now sync event) := by
  unfold adoptClock
  split
  · split
    · refine ⟨⟨aligned.mode, aligned.period⟩, ?_⟩
      -- The mask drops the two bits that would break the alignment.
      show (_ &&& 0xfffc : UInt16).toNat % 4 = 0
      rw [mask_toNat]
      omega
    · exact aligned
  · exact aligned

theorem adoptClocks_aligned {sync : SyncState} (aligned : Aligned sync) (long : LongWidth)
    (now : UInt64) (events : List RxEvent) : Aligned (events.foldl (adoptClock long now) sync) := by
  induction events generalizing sync with
  | nil => exact aligned
  | cons event rest ih => exact ih (adoptClock_aligned aligned long now event)

theorem changes_aligned {record : Record} (changes : Changes hash record)
    (aligned : Aligned record.before.sync) : Aligned record.after.sync := by
  cases changes with
  | quiet record same silent =>
      obtain ⟨_, _, _, after⟩ := same
      rw [after]
      exact aligned
  | admitted before env frame mac outcome stats admits effect =>
      obtain ⟨follows, -⟩ := actionEffect_follows effect
      exact aligned_congr follows.clock (adoptClocks_aligned aligned env.long env.now _)
  | cleaned before now => exact aligned

/-- Without accepted synchronization parameters the clock stands. -/
theorem adoptClocks_none {long : LongWidth} {now : UInt64} {sync : SyncState}
    {events : List RxEvent} (none : ¬ ∃ sender value,
      .tlv sender TlvType.synchronizatonParameters.code value .ok ∈ events) :
    events.foldl (adoptClock long now) sync = sync := by
  induction events with
  | nil => rfl
  | cons event rest ih =>
      have kept : adoptClock long now sync event = sync := by
        unfold adoptClock
        split
        · split
          case isTrue type =>
            subst type
            exact absurd ⟨_, _, List.mem_cons_self⟩ none
          · rfl
        · rfl
      rw [List.foldl_cons, kept]
      exact ih fun ⟨sender, value, inside⟩ => none ⟨sender, value, List.mem_cons_of_mem _ inside⟩

/-- The TLVs of a frame are those of its sender. -/
theorem actionEffect_sender {env : RxEnv} {frame : Buf} {addr : EtherAddr} {subtype : UInt8}
    {state : AwdlState} {outcome : RxOutcome} (valid : NodeValid hash state)
    (effect : ActionEffect hash env frame addr subtype state outcome) {sender : EtherAddr}
    {type : UInt8} {value : List UInt8} {result : RxResult}
    (inside : .tlv sender type value result ∈ outcome.trace) : sender = addr := by
  have parsed_sender : ∀ entry events loop, Parsed env frame addr state entry events loop →
      .tlv sender type value result ∈ events ++ loop.trace → sender = addr := by
    intro entry events loop parsed member
    obtain ⟨-, -, only⟩ := parsed.kept
    rcases List.mem_append.mp member with early | late
    · exact absurd rfl (entered_still parsed.entered _ early _ _ _ _)
    · obtain ⟨_, _, _, same⟩ := only _ late
      rw [(RxEvent.tlv.inj same).1]
      exact parsed.entered.addr_eq env addr valid.table.own
  cases effect with
  | refused => cases inside
  | malformed entry events loop parsed => exact parsed_sender entry events loop parsed inside
  | done entry events loop parsed complete empty table tableValid last again turned =>
      rcases List.mem_append.mp inside with front | back
      · exact parsed_sender entry events loop parsed front
      · rcases List.mem_cons.mp back with never | later
        · cases never
        · have silent := announce_still state
            { markMif subtype loop.peer with lastUpdate := env.now }
          rw [← turned] at silent
          exact absurd rfl (silent _ later _ _ _ _)

/-- A call moves the clock only as an action frame of the sync master, which is
another node, and only by the synchronization parameters in it. -/
def FollowsMaster (record : Record) : Prop :=
  clock record.after.sync = clock record.before.sync ∨
    ∃ env frame mac, record.turn = .receiveFrame env frame ∧ macFrame env frame = some mac ∧
      macFc mac &&& (ieee80211FctlFtype ||| ieee80211FctlStype) =
        (ieee80211FtypeMgmt ||| ieee80211StypeAction) ∧
      ActionHeader (mac.drop 24).bytes ∧ macSource mac = record.before.election.syncAddr ∧
      record.before.election.syncAddr ≠ record.before.selfAddress ∧
      record.after.election = record.before.election ∧
      (∃ value, .tlv (macSource mac) TlvType.synchronizatonParameters.code value .ok ∈
        record.trace) ∧
      clock record.after.sync =
        clock (record.trace.foldl (adoptClock env.long env.now) record.before.sync)

theorem changes_follows {own : EtherAddr} {record : Record} (changes : Changes hash record)
    (apart : Apart hash own record.before) : FollowsMaster record := by
  cases changes with
  | quiet record same silent =>
      obtain ⟨_, _, _, after⟩ := same
      left
      rw [after]
  | admitted before env frame mac outcome stats admits effect =>
      obtain ⟨follows, election⟩ := actionEffect_follows effect
      by_cases sync : ∃ sender value,
          .tlv sender TlvType.synchronizatonParameters.code value .ok ∈ outcome.trace
      · obtain ⟨sender, value, inside⟩ := sync
        -- The trace names the peer; its address is the source of the frame.
        obtain rfl := actionEffect_sender apart.valid effect inside
        have master := follows.master _ value inside
        refine .inr ⟨env, frame, mac, rfl, admits.found, admits.action, admits.header, master.symm,
          ?_, election, ⟨value, inside⟩, follows.clock⟩
        exact fun itself => admits.foreign (master.symm.trans itself)
      · left
        show clock outcome.state.sync = clock before.sync
        rw [follows.clock, adoptClocks_none sync]
  | cleaned before now => exact .inl rfl

end Clock

section Runs

structure Steady (hash : EtherAddr → UInt64) (own : EtherAddr) (state : AwdlState) : Prop where
  apart : Apart hash own state
  named : state.election.selfAddr = own
  aligned : Aligned state.sync
  known : MasterKnown state

theorem changes_steady {hash : EtherAddr → UInt64} {own : EtherAddr} {record : Record}
    (changes : Changes hash record) (keeps : KeepsTurn hash record)
    (steady : Steady hash own record.before) : Steady hash own record.after := by
  exact ⟨changes.apart steady.apart, (changes_named changes).trans steady.named,
    changes_aligned changes steady.aligned,
    changes_master changes steady.apart steady.named keeps steady.known⟩

theorem run_steady {hash : EtherAddr → UInt64} {own : EtherAddr} {start state : DaemonState}
    {log : List Record} (run : Run hash start log state)
    (keeps : ∀ record ∈ log, KeepsTurn hash record) (steady : Steady hash own start.awdlState) :
    Steady hash own state.awdlState := by
  induction run with
  | start => exact steady
  | step run turn inside handled ih =>
      have before := ih fun record member => keeps record (List.mem_append_left _ member)
      -- The last call is the only one whose `KeepsTurn` is used in this step.
      have changes := (handle_effect handled).changes inside before.apart.valid.table
      exact changes_steady changes (keeps _ (List.mem_append_right _ List.mem_cons_self)) before

variable (memory : Fixed UInt8 (hostNameLengthMax + 1)) (slots : Fin txQueueLength → Buf)
  (hostname : List UInt8) (self : EtherAddr) (chan : AwdlChan) (now : UInt64) (filterRssi : Bool)

theorem daemonInit_steady (hash : EtherAddr → UInt64) :
    Steady hash self (daemonInit memory slots hostname self chan now filterRssi).awdlState :=
  ⟨daemonInit_apart hash memory slots hostname self chan now filterRssi, rfl,
    awdlSyncStateInit_aligned now, .inl rfl⟩

/-- In every run that loses no entry for want of memory, the master is the node or
a valid peer, and only the master moves the clock. -/
theorem clock_follows_master (hash : EtherAddr → UInt64) (log : List Record) (state : DaemonState)
    (run : Run hash (daemonInit memory slots hostname self chan now filterRssi) log state)
    (keeps : ∀ record ∈ log, KeepsTurn hash record) :
    MasterKnown state.awdlState ∧ state.awdlState.selfAddress = self ∧
      state.awdlState.peers.peers.contents self = none ∧ Aligned state.awdlState.sync ∧
      ∀ record ∈ log, FollowsMaster record := by
  have start := daemonInit_steady memory slots hostname self chan now filterRssi hash
  have steady := run_steady run keeps start
  refine ⟨steady.known, steady.apart.self, steady.apart.absent, steady.aligned, ?_⟩
  intro record member
  obtain ⟨apart, changes⟩ := run.changes start.apart record member
  exact changes_follows changes apart

end Runs

section Shortage

def lateEnv : RxEnv := { tightEnv with now := 3000000 }

def lonelyDaemon : DaemonState :=
  daemonInit (Fixed.replicate _ 0) (fun _ => mifFromLost) [] ⟨0, 0, 0, 0, 0, 1⟩ chanNull 0 true

theorem lonelyDaemon_apart : Apart addrHash ⟨0, 0, 0, 0, 0, 1⟩ lonelyDaemon.awdlState :=
  daemonInit_apart addrHash (Fixed.replicate _ 0) (fun _ => mifFromLost) [] ⟨0, 0, 0, 0, 0, 1⟩
    chanNull 0 true

def shortageTurns : List Turn :=
  (shortageFrames.take 8).map (.receiveFrame lateEnv) ++ [.cleanPeers 3000000] ++
    (shortageFrames.drop 8).map (.receiveFrame lateEnv)

theorem lateEnv_inside : RadiotapInside lateEnv := byteRadiotap_inside

theorem shortageTurns_inside : ∀ turn ∈ shortageTurns, turn.Inside := by
  intro turn member
  simp only [shortageTurns, List.mem_append, List.mem_map, List.mem_singleton] at member
  rcases member with (⟨frame, -, rfl⟩ | rfl) | ⟨frame, -, rfl⟩
  · exact lateEnv_inside
  · trivial
  · exact lateEnv_inside

/-- A frame that was processed has cost the table no entry. -/
theorem keepsTurn_of_action {hash : EtherAddr → UInt64} {record : Record}
    (valid : NodeValid hash record.before) (inside : record.turn.Inside) (effect : Effect hash record)
    (processed : ∀ env frame, record.turn = .receiveFrame env frame →
      ∃ addr subtype, .action addr subtype ∈ record.trace) : KeepsTurn hash record := by
  intro env frame received mac admitted
  obtain ⟨addr, subtype, member⟩ := processed env frame received
  cases effect with
  | received before env' frame' outcome run =>
      cases received
      refine processed_keepsEntries hash env before inside valid.table admitted run ?_
      obtain ⟨-, quiet⟩ | ⟨mac, -, effect⟩ := awdlRx_changes hash env before inside valid.table run
      · rw [quiet] at member
        cases member
      · exact action_ok valid effect addr subtype member
  | cleaned before now => cases received
  | transmitted before turn after transmits => cases member

def roomyEnv : RxEnv := { lateEnv with alloc := fun _ => true }

def roomyTurns : List Turn :=
  (shortageFrames.take 8).map (.receiveFrame roomyEnv) ++ [.cleanPeers 3000000] ++
    (shortageFrames.drop 8).map (.receiveFrame roomyEnv)

def processedOrCleaned (record : Record) : Bool :=
  match record.turn with
  | .receiveFrame _ _ => record.trace.any fun event =>
      match event with
      | .action _ _ => true
      | _ => false
  | _ => true

theorem clock_follows_master_grown : ∃ log state, Run addrHash lonelyDaemon log state ∧
    log.length = 11 ∧ state.awdlState.peers.peers.slots.length = 1024 ∧
    state.awdlState.election.syncAddr = lostAddr ∧ MasterKnown state.awdlState := by
  have shown : ((runTurns addrHash roomyTurns lonelyDaemon).map fun after =>
      (after.1.all processedOrCleaned, after.1.length, after.2.awdlState.peers.peers.slots.length,
        after.2.awdlState.election.syncAddr)).toOption = some (true, 11, 1024, lostAddr) := by
    decide +kernel
  obtain ⟨⟨log, state⟩, ends, seen⟩ := toOption_map_some shown
  simp only [Prod.mk.injEq, List.all_eq_true] at seen
  obtain ⟨processed, length, slots, master⟩ := seen
  have inside : ∀ turn ∈ roomyTurns, turn.Inside := by
    intro turn member
    simp only [roomyTurns, List.mem_append, List.mem_map, List.mem_singleton] at member
    rcases member with (⟨frame, -, rfl⟩ | rfl) | ⟨frame, -, rfl⟩
    · exact byteRadiotap_inside
    · trivial
    · exact byteRadiotap_inside
  have run := runTurns_run inside .start ends
  rw [List.nil_append] at run
  refine ⟨log, state, run, length, slots, master, ?_⟩
  refine (clock_follows_master _ _ _ _ _ _ _ addrHash log state run fun record member => ?_).1
  obtain ⟨apart, within, effect⟩ := (run.effects lonelyDaemon_apart).2 record member
  refine keepsTurn_of_action apart.valid within effect fun env frame received => ?_
  have acts := processed record member
  rw [processedOrCleaned, received] at acts
  obtain ⟨event, inTrace, action⟩ := List.any_eq_true.mp acts
  cases event with
  | action addr subtype => exact ⟨addr, subtype, inTrace⟩
  | created => cases action
  | callback => cases action
  | tlv => cases action

/-- The elected peer is lost while the table grows, and the node goes on to name
it as its sync master. -/
theorem sync_master_dangles : ∃ log state, Run addrHash lonelyDaemon log state ∧
    ¬ MasterKnown state.awdlState := by
  have shown : ((runTurns addrHash shortageTurns lonelyDaemon).map fun after =>
      (after.2.awdlState.election.syncAddr, after.2.awdlState.selfAddress,
        (awdlPeerGet addrHash after.2.awdlState.peers.peers lostAddr).1)).toOption =
      some (lostAddr, ⟨0, 0, 0, 0, 0, 1⟩, .missing) := by decide +kernel
  obtain ⟨⟨log, state⟩, ends, seen⟩ := toOption_map_some shown
  simp only [Prod.mk.injEq] at seen
  obtain ⟨master, own, missing⟩ := seen
  have run := runTurns_run shortageTurns_inside .start ends
  refine ⟨_, state, run, ?_⟩
  -- The entry is missing in the table, so the table's contents do not have it.
  have apart := (run.effects lonelyDaemon_apart).1
  rintro (self | ⟨peer, present, -⟩)
  · rw [master, own] at self
    exact absurd self (by decide)
  · rw [master] at present
    rw [awdlPeerGet_eq _ apart.valid.table.map, present] at missing
    cases missing

end Shortage

end Owl.ClockMaster
