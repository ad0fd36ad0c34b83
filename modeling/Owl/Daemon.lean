import Owl.ElectionRun
import Owl.RxPeers
import Owl.Siphash

/-!
The event handlers of `core.c` that receive frames and clean up, and the runs
of them from `awdl_init`. Network interfaces, timers and the dump file are left
out. A run keeps the events of all its calls in order. Along every run the peer
table stays well formed, also when memory runs out.
-/

namespace Owl.Daemon

open Bytes Ether Channel Election ElectionRun Hashmap Siphash Peers PeersRefine Wire State Frames RxTlv Rx
  RxSpec RxAction RxData RxPeers

/-- `awdl_init`, and the filter that `main` sets from its options. -/
def awdlInit (memory : Fixed UInt8 (hostNameLengthMax + 1)) (hostname : List UInt8)
    (self : EtherAddr) (chan : AwdlChan) (now : UInt64) (filterRssi : Bool) : AwdlState :=
  { awdlInitState memory hostname self chan now with
    peerCb := some .awdlNeighborAdd
    peerRemoveCb := some .awdlNeighborRemove
    filterRssi := filterRssi }

theorem awdlInit_absent (memory : Fixed UInt8 (hostNameLengthMax + 1)) (hostname : List UInt8)
    (self : EtherAddr) (chan : AwdlChan) (now : UInt64) (filterRssi : Bool) (addr : EtherAddr) :
    (awdlInit memory hostname self chan now filterRssi).peers.peers.contents addr = none :=
  congrFun awdlPeersInit_contents addr

def afterReceive (outcome : RxOutcome) : AwdlState :=
  if outcome.result.code < 0 then
    { outcome.state with stats :=
        { outcome.state.stats with rxUnknown := outcome.state.stats.rxUnknown + 1 } }
  else outcome.state

def hostFrames (outcome : RxOutcome) : List Buf :=
  if outcome.result = .ok then outcome.outputs else []

/-- `awdl_receive_frame`. The array of the output pointers is a local of
`maxNumAmpdu` elements. -/
def awdlReceiveFrame (hash : EtherAddr → UInt64) (env : RxEnv) (frame : Buf) (state : AwdlState) :
    Except Fault (List Buf × AwdlState × RxOutcome) := do
  let outcome ← awdlRx false hash env frame state
  -- `awdl_rx` has stored the pointers by now and does not know the bound.
  if outcome.outputs.length > maxNumAmpdu then throw .write
  return (hostFrames outcome, afterReceive outcome, outcome)

theorem awdlReceiveFrame_ok {hash : EtherAddr → UInt64} {env : RxEnv} {frame : Buf}
    {state : AwdlState} {received : List Buf × AwdlState × RxOutcome} :
    awdlReceiveFrame hash env frame state = .ok received ↔
      ∃ outcome, awdlRx false hash env frame state = .ok outcome ∧
        outcome.outputs.length ≤ maxNumAmpdu ∧
        received = (hostFrames outcome, afterReceive outcome, outcome) := by
  unfold awdlReceiveFrame
  cases run : awdlRx false hash env frame state with
  | error fault =>
      constructor
      · intro ends
        cases ends
      · rintro ⟨outcome, ends, -⟩
        cases ends
  | ok outcome =>
      rw [except_ok_bind]
      by_cases many : outcome.outputs.length > maxNumAmpdu
      · rw [if_pos many]
        constructor
        · intro ends
          cases ends
        · rintro ⟨other, ⟨⟩, few, -⟩
          exact absurd few (not_le.mpr many)
      · rw [if_neg many]
        constructor
        · rintro ⟨⟩
          exact ⟨outcome, rfl, not_lt.mp many, rfl⟩
        · rintro ⟨other, ⟨⟩, -, rfl⟩
          rfl

def awdlCleanPeers (now : UInt64) (state : AwdlState) : AwdlState × List RxEvent :=
  -- Unsigned: with a clock below the timeout every peer is older than this.
  let cutoffTime := now - state.peers.timeout
  let removed := awdlPeersRemove state.peers.peers cutoffTime (state.peerRemoveCb.map callPeerCb)
  -- The election runs over the table that is left.
  ({ withTable state removed.1 with election := awdlElectionRun state.election removed.1 },
    removed.2)

/-- The states and histories that calls of `awdl_rx` and `awdl_clean_peers` lead
to, in any order; `guard` restricts the frames that may arrive in a state. -/
inductive Reaches (hash : EtherAddr → UInt64) (guard : RxEnv → Buf → AwdlState → Prop) :
    AwdlState → List RxEvent → Prop where
  | init (memory : Fixed UInt8 (hostNameLengthMax + 1)) (hostname : List UInt8) (self : EtherAddr)
      (chan : AwdlChan) (now : UInt64) (filterRssi : Bool) :
      Reaches hash guard (awdlInit memory hostname self chan now filterRssi) []
  | receive (state : AwdlState) (history : List RxEvent) (env : RxEnv) (frame : Buf)
      (outcome : RxOutcome) (reached : Reaches hash guard state history)
      (inside : RadiotapInside env) (allowed : guard env frame state)
      (run : awdlRx false hash env frame state = .ok outcome) :
      Reaches hash guard (afterReceive outcome) (history ++ outcome.trace)
  | clean (state : AwdlState) (history : List RxEvent) (now : UInt64)
      (reached : Reaches hash guard state history) :
      Reaches hash guard (awdlCleanPeers now state).1 (history ++ (awdlCleanPeers now state).2)

structure NodeValid (hash : EtherAddr → UInt64) (state : AwdlState) : Prop where
  table : TableValid hash state.peers.peers
  self : ∀ addr peer, state.peers.peers.contents addr = some peer →
    peer.election.selfAddr = addr
  adds : state.peerCb = some .awdlNeighborAdd
  removes : state.peerRemoveCb = some .awdlNeighborRemove

theorem NodeValid.withStats {hash : EtherAddr → UInt64} {state : AwdlState}
    (valid : NodeValid hash state) (stats : AwdlStats) :
    NodeValid hash { state with stats := stats } :=
  ⟨valid.table, valid.self, valid.adds, valid.removes⟩

theorem afterReceive_eq (outcome : RxOutcome) :
    ∃ stats, afterReceive outcome = { outcome.state with stats := stats } := by
  unfold afterReceive
  split
  · exact ⟨_, rfl⟩
  · exact ⟨outcome.state.stats, rfl⟩

/-- An entry with the address of its election state under each key. -/
theorem update_self_addr {contents : FiniteMap} {addr : EtherAddr} {entry : Peer}
    (self : ∀ addr peer, contents addr = some peer → peer.election.selfAddr = addr)
    (named : entry.election.selfAddr = addr) (other : EtherAddr) (peer : Peer)
    (present : Function.update contents addr (some entry) other = some peer) :
    peer.election.selfAddr = other := by
  refine update_keeps self ?_ other peer present
  rintro _ ⟨⟩
  exact named

theorem entered_self {env : RxEnv} {addr : EtherAddr} {cb : Option (Peer → RxEvent)}
    {contents : FiniteMap} {entry : Peer} {events : List RxEvent}
    (entered : Entered env addr cb contents entry events)
    (self : ∀ addr peer, contents addr = some peer → peer.election.selfAddr = addr) :
    entry.election.selfAddr = addr := by
  cases entered with
  | old peer found =>
      rw [announce_only]
      exact self addr peer found
  | new absent => rfl

/-- An admitted frame keeps the node valid. -/
theorem actionEffect_valid {hash : EtherAddr → UInt64} {env : RxEnv} {frame : Buf}
    {addr : EtherAddr} {subtype : UInt8} {state : AwdlState} {outcome : RxOutcome}
    (effect : ActionEffect hash env frame addr subtype state outcome)
    (valid : NodeValid hash state) : NodeValid hash outcome.state := by
  have entered : ∀ entry events loop, Parsed env frame addr state entry events loop →
      loop.peer.election.selfAddr = addr ∧ loop.state.peerCb = state.peerCb ∧
        loop.state.peerRemoveCb = state.peerRemoveCb := by
    intro entry events loop parsed
    obtain ⟨⟨table, kept⟩, -⟩ := parsed.kept
    rw [kept.self, kept.node]
    exact ⟨entered_self parsed.entered valid.self, rfl, rfl⟩
  cases effect with
  | refused table tableValid full absent fewer =>
      exact ⟨tableValid, fun other peer present => valid.self other peer (fewer other peer present),
        valid.adds, valid.removes⟩
  | malformed entry events loop parsed stops table tableValid contents =>
      obtain ⟨named, adds, removes⟩ := entered entry events loop parsed
      refine ⟨tableValid, ?_, adds.trans valid.adds, removes.trans valid.removes⟩
      rw [withTable_peers, contents]
      exact update_self_addr valid.self named
  | done entry events loop parsed complete empty table tableValid last again turned contents =>
      obtain ⟨named, adds, removes⟩ := entered entry events loop parsed
      refine ⟨tableValid, ?_, adds.trans valid.adds, removes.trans valid.removes⟩
      rw [withTable_peers, contents]
      refine update_self_addr valid.self ?_
      have turnedSelf : last.election = _ := congrArg (fun pair => pair.1.election) turned
      rw [turnedSelf, announce_only, markMif_only]
      exact named

theorem awdlCleanPeers_contents {hash : EtherAddr → UInt64} {state : AwdlState} (now : UInt64)
    (valid : TableValid hash state.peers.peers) (addr : EtherAddr) :
    (awdlCleanPeers now state).1.peers.peers.contents addr =
      (state.peers.peers.contents addr).filter fun peer =>
        !decide (peer.lastUpdate < now - state.peers.timeout) := by
  obtain ⟨-, contents, -⟩ := awdlPeersRemove_eq state.peers.peers valid.map
    (now - state.peers.timeout) (state.peerRemoveCb.map callPeerCb)
  exact contents addr

theorem awdlCleanPeers_valid {hash : EtherAddr → UInt64} {state : AwdlState} (now : UInt64)
    (valid : NodeValid hash state) : NodeValid hash (awdlCleanPeers now state).1 := by
  obtain ⟨map, -, -⟩ := awdlPeersRemove_eq state.peers.peers valid.table.map
    (now - state.peers.timeout) (state.peerRemoveCb.map callPeerCb)
  have fewer : ∀ addr peer, (awdlCleanPeers now state).1.peers.peers.contents addr = some peer →
      state.peers.peers.contents addr = some peer := by
    intro addr peer present
    rw [awdlCleanPeers_contents now valid.table addr] at present
    exact (Option.filter_eq_some_iff.mp present).1
  exact ⟨⟨map, fun addr peer present => valid.table.own addr peer (fewer addr peer present)⟩,
    fun addr peer present => valid.self addr peer (fewer addr peer present), valid.adds,
    valid.removes⟩

theorem reaches_valid {hash : EtherAddr → UInt64} {guard : RxEnv → Buf → AwdlState → Prop}
    {state : AwdlState} {history : List RxEvent} (reached : Reaches hash guard state history) :
    NodeValid hash state := by
  induction reached with
  | init memory hostname self chan now filterRssi =>
      refine ⟨awdlPeersInit_valid, ?_, rfl, rfl⟩
      intro addr peer present
      rw [awdlInit_absent] at present
      cases present
  -- Only an admitted action frame touches the table or the callbacks.
  | receive state history env frame outcome reached inside allowed run ih =>
      obtain ⟨stats, after⟩ := afterReceive_eq outcome
      rw [after]
      obtain ⟨node, -⟩ | ⟨mac, -, effect⟩ := awdlRx_changes hash env state inside ih.table run
      · rw [node]
        exact ih.withStats stats
      · exact (actionEffect_valid effect ih).withStats stats
  | clean state history now reached ih => exact awdlCleanPeers_valid now ih

def receiveAll (hash : EtherAddr → UInt64) (env : RxEnv) :
    List Buf → AwdlState → Except Fault (AwdlState × List RxEvent)
  | [], state => .ok (state, [])
  | frame :: rest, state =>
      (awdlRx false hash env frame state).bind fun outcome =>
        (receiveAll hash env rest (afterReceive outcome)).map fun after =>
          (after.1, outcome.trace ++ after.2)

theorem receiveAll_reaches {hash : EtherAddr → UInt64} {env : RxEnv} (inside : RadiotapInside env)
    (frames : List Buf) (state after : AwdlState) (history trace : List RxEvent)
    (reached : Reaches hash (fun _ _ _ => True) state history)
    (run : receiveAll hash env frames state = .ok (after, trace)) :
    Reaches hash (fun _ _ _ => True) after (history ++ trace) := by
  induction frames generalizing state history trace with
  | nil =>
      cases run
      rw [List.append_nil]
      exact reached
  | cons frame rest ih =>
      rw [receiveAll] at run
      cases first : awdlRx false hash env frame state with
      | error fault =>
          rw [first] at run
          cases run
      | ok outcome =>
          rw [first, Except.bind] at run
          cases later : receiveAll hash env rest (afterReceive outcome) with
          | error fault =>
              rw [later] at run
              cases run
          | ok pair =>
              rw [later] at run
              cases run
              have step := Reaches.receive state history env frame outcome reached inside trivial first
              have whole := ih (afterReceive outcome) _ pair.2 step later
              rwa [List.append_assoc] at whole

/-! The peer table as a finite map, over runs of the table alone and, for the
lookup in `awdl_rx_action`, over runs of the node. -/
section PeerTable

variable {Event : Type}

theorem awdlPeerAdd_status {hash : EtherAddr → UInt64} {peers : PeerMap}
    (valid : TableValid hash peers) (addr : EtherAddr) (now : UInt64) (alloc : Nat → Bool)
    (memory : Peer) (cb : Option (Peer → Event))
    (granted : (PeerOp.add addr now alloc memory cb).granted hash peers) :
    (awdlPeerAdd hash alloc memory peers addr now cb).1 =
      if (peers.contents addr).isSome then .update else .ok := by
  have added := awdlPeerAdd_added alloc memory peers valid.map addr now cb
  have given : (awdlPeerAdd hash alloc memory peers addr now cb).1 ≠ .internal := granted
  clear granted
  generalize awdlPeerAdd hash alloc memory peers addr now cb = result at added given
  cases added with
  | update peer found => simp [found]
  | new absent => simp [absent]
  | refused => exact absurd rfl given

/-- A successful `awdl_peer_add` is followed by a successful `awdl_peer_get`. -/
theorem addPeer_found {hash : EtherAddr → UInt64} {state : AwdlState}
    (valid : TableValid hash state.peers.peers) (env : RxEnv) (addr : EtherAddr)
    (added : 0 ≤ (addPeer hash env state addr).1.code) :
    (awdlPeerGet hash (addPeer hash env state addr).2.1.peers.peers addr).1 = .ok := by
  obtain ⟨table, tableValid, ⟨same, -⟩ | ⟨status, peer, events, same, -, -, contents⟩⟩ :=
    addPeer_cases hash env state addr valid
  · rw [same] at added
    exact absurd (show 0 ≤ PeersStatus.internal.code from added) (by decide)
  · rw [same, withTable_peers, awdlPeerGet_eq table tableValid.map, contents, Function.update_self]

theorem peer_table_refines (hash : EtherAddr → UInt64) (ops : List (PeerOp Event)) (peers : PeerMap)
    (run : Runs hash ops peers) :
    (∀ addr, ((awdlPeerGet hash peers addr).1 = .ok ↔ AddedSince ops addr) ∧
      (awdlPeerGet hash peers addr).2 = FiniteMap.run ops addr) ∧
    (∀ addr now alloc memory (cb : Option (Peer → Event)),
      (PeerOp.add addr now alloc memory cb).granted hash peers →
      ((awdlPeerAdd hash alloc memory peers addr now cb).1 = .update ↔ AddedSince ops addr) ∧
      ((awdlPeerAdd hash alloc memory peers addr now cb).1 = .ok ↔ ¬ AddedSince ops addr)) ∧
    awdlPeersLength peers = Set.ncard {addr | AddedSince ops addr} ∧
    (awdlPeersIterate peers).Nodup ∧
    (∀ peer, peer ∈ awdlPeersIterate peers ↔ FiniteMap.run ops peer.addr = some peer) ∧
    (∀ limit (cb : Option (Peer → Event)) addr,
      (awdlPeerGet hash (awdlPeersRemove peers limit cb).1 addr).2 =
        ((awdlPeerGet hash peers addr).2).filter fun peer => !decide (peer.lastUpdate < limit)) ∧
    ∀ guard state history, Reaches hash guard state history → ∀ env addr,
      0 ≤ (addPeer hash env (countAction state) addr).1.code →
      (awdlPeerGet hash (addPeer hash env (countAction state) addr).2.1.peers.peers addr).1 =
        .ok := by
  obtain ⟨valid, contents⟩ := run_refines ops peers run
  have present : ∀ addr, (peers.contents addr).isSome ↔ AddedSince ops addr := by
    intro addr
    rw [contents]
    exact run_isSome_iff ops addr
  have get : ∀ table, Valid hash table → ∀ addr,
      ((awdlPeerGet hash table addr).1 = .ok ↔ (table.contents addr).isSome) ∧
        (awdlPeerGet hash table addr).2 = table.contents addr := by
    intro table tableValid addr
    rw [awdlPeerGet_eq table tableValid]
    cases table.contents addr <;> simp
  refine ⟨?_, ?_, ?_, awdlPeersIterate_nodup peers valid, ?_, ?_, ?_⟩
  · intro addr
    rw [← present, ← contents]
    exact get peers valid.map addr
  · intro addr now alloc memory cb granted
    rw [awdlPeerAdd_status valid addr now alloc memory cb granted, ← present]
    by_cases found : (peers.contents addr).isSome <;> simp [found]
  · rw [awdlPeersLength_eq peers valid.map]
    simp only [present]
  · intro peer
    rw [mem_awdlPeersIterate peers valid, contents]
  · intro limit cb addr
    obtain ⟨after, kept, -⟩ := awdlPeersRemove_eq peers valid.map limit cb
    rw [(get _ after addr).2, (get peers valid.map addr).2, kept]
  · intro guard state history reached env addr added
    have table : TableValid hash (countAction state).peers.peers := (reaches_valid reached).table
    exact addPeer_found table env addr added

theorem peer_table_refines_pair : ∃ (ops : List (PeerOp Unit)) (peers : PeerMap),
    Runs addrHash ops peers ∧ ops.length = 3 ∧
      (awdlPeersLength peers = Set.ncard {addr | AddedSince ops addr}) := by
  have first : Runs addrHash ([] ++ [PeerOp.add selfAddr 0 (fun _ => true) zeroPeer none]) _ :=
    .step [] awdlPeersInit (PeerOp.add selfAddr 0 (fun _ => true) zeroPeer (none : Option (Peer → Unit)))
      .init (show _ ≠ _ by decide +kernel)
  have second := Runs.step _ _ (PeerOp.add peerAddr 1 (fun _ => true) zeroPeer none) first
    (show _ ≠ _ by decide +kernel)
  have third := Runs.step _ _ (PeerOp.remove selfAddr none) second trivial
  exact ⟨_, _, third, rfl, (peer_table_refines addrHash _ _ third).2.2.1⟩

end PeerTable

end Owl.Daemon
