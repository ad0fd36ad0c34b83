import Owl.PeersRefine
import Owl.HashmapMemory
import Owl.RxData

/-!
The peer table under action frames. On a well-formed table `awdl_rx_action`
refuses the sender when there is no memory for it, stops at a TLV that it cannot
handle, or takes the frame. Each way is given by what it does to the finite map
behind the table and by the events it leaves, so that whatever is to hold of the
table along a run can be shown without the code.
-/

namespace Owl.RxPeers

open Bytes Ether Hashmap Peers PeersRefine Wire State Frames RxTlv Rx RxSpec RxAction RxData

def withTable (state : AwdlState) (table : PeerMap) : AwdlState :=
  { state with peers := { state.peers with peers := table } }

@[simp] theorem withTable_peers (state : AwdlState) (table : PeerMap) :
    (withTable state table).peers.peers = table := rfl

@[simp] theorem withTable_withTable (state : AwdlState) (first second : PeerMap) :
    withTable (withTable state first) second = withTable state second := rfl

def announcer (state : AwdlState) : Option (Peer → RxEvent) := state.peerCb.map callPeerCb

section Add

variable (hash : EtherAddr → UInt64) (env : RxEnv) (state : AwdlState) (addr : EtherAddr)

inductive Entered (cb : Option (Peer → RxEvent)) (contents : FiniteMap) :
    Peer → List RxEvent → Prop where
  | old (peer : Peer) (found : contents addr = some peer) :
      Entered cb contents (announce cb { peer with lastUpdate := env.now }).1
        (announce cb { peer with lastUpdate := env.now }).2
  | new (absent : contents addr = none) :
      Entered cb contents { awdlPeerNew env.memory addr with lastUpdate := env.now } [.created addr]

theorem Entered.addr_eq {cb : Option (Peer → RxEvent)} {contents : FiniteMap} {peer : Peer}
    {events : List RxEvent} (entered : Entered env addr cb contents peer events)
    (own : ∀ addr peer, contents addr = some peer → peer.addr = addr) : peer.addr = addr := by
  cases entered with
  | old peer found => exact (congrArg Peer.addr (announce_only _ _)).trans (own addr peer found)
  | new absent => rfl

/-- `awdl_peer_add` fails only for want of memory; then the table may shrink. -/
theorem addPeer_cases (valid : TableValid hash state.peers.peers) :
    ∃ table, TableValid hash table ∧
      ((addPeer hash env state addr = (.internal, withTable state table, []) ∧
          state.peers.peers.contents addr = none ∧
          ∀ other peer, table.contents other = some peer →
            state.peers.peers.contents other = some peer) ∨
        ∃ status peer events, addPeer hash env state addr = (status, withTable state table, events) ∧
          0 ≤ status.code ∧
          Entered env addr (announcer state) state.peers.peers.contents peer events ∧
          table.contents = Function.update state.peers.peers.contents addr (some peer)) := by
  have added := awdlPeerAdd_added env.alloc env.memory state.peers.peers valid.map addr env.now
    (announcer state)
  have after := added.valid valid.own
  unfold addPeer
  rw [show state.peerCb.map callPeerCb = announcer state from rfl]
  generalize awdlPeerAdd hash env.alloc env.memory state.peers.peers addr env.now
    (announcer state) = result at added after
  cases added with
  | update peer found table _ contents =>
      exact ⟨table, after, .inr ⟨.update, _, _, rfl, by decide, .old peer found, contents⟩⟩
  | new absent table _ contents =>
      exact ⟨table, after, .inr ⟨.ok, _, _, rfl, by decide, .new absent, contents⟩⟩
  | refused absent table _ fewer =>
      exact ⟨table, after, .inl ⟨rfl, absent, fewer⟩⟩

def newEntry : Peer := { awdlPeerNew env.memory addr with lastUpdate := env.now }

/-- A sender without entry is put into the table, which may want memory. -/
theorem addPeer_absent (valid : TableValid hash state.peers.peers)
    (absent : state.peers.peers.contents addr = none) :
    ∃ status after, hashmapPut hash env.alloc state.peers.peers addr (newEntry env addr) =
        (status, after) ∧
      (status = .ok ∧ (addPeer hash env state addr).1 = .ok ∨
        status = .omem ∧ (addPeer hash env state addr).1 = .internal ∧
          (addPeer hash env state addr).2.1.peers.peers = after) := by
  unfold addPeer awdlPeerAdd
  rw [hashmapGet_keep _ valid.map addr, absent]
  dsimp only
  generalize put : hashmapPut hash env.alloc state.peers.peers
    ({ awdlPeerNew env.memory addr with lastUpdate := env.now } : Peer).addr
    { awdlPeerNew env.memory addr with lastUpdate := env.now } = result
  obtain ⟨status, after⟩ := result
  have ends : status = .ok ∨ status = .omem := by
    rw [← show (hashmapPut hash env.alloc state.peers.peers _ _).1 = status from
      congrArg Prod.fst put]
    exact hashmapPut_status _ _ _
  refine ⟨status, after, put, ?_⟩
  rcases ends with rfl | rfl
  · exact .inl ⟨rfl, rfl⟩
  · exact .inr ⟨rfl, rfl, rfl⟩

/-- The sender has an entry already, or gets a seat in the table. -/
def HasMemory : Prop :=
  addr ∈ state.peers.peers.keys ∨ Finds hash env.alloc state.peers.peers addr

theorem addPeer_added_iff (valid : TableValid hash state.peers.peers) :
    (addPeer hash env state addr).1 ≠ .internal ↔ HasMemory hash env state addr := by
  unfold HasMemory
  cases found : state.peers.peers.contents addr with
  | some peer =>
      have present : addr ∈ state.peers.peers.keys := by
        by_contra absent
        rw [(contents_none_iff _ addr).mpr absent] at found
        cases found
      refine iff_of_true ?_ (.inl present)
      unfold addPeer awdlPeerAdd
      rw [hashmapGet_keep _ valid.map addr, found]
      simp
  | none =>
      obtain ⟨status, after, put, ends⟩ := addPeer_absent hash env state addr valid found
      rw [or_iff_right ((contents_none_iff _ addr).mp found), ← put_ok_iff _ valid.map.room, put]
      rcases ends with ⟨rfl, added⟩ | ⟨rfl, full, -⟩
      · simp [added]
      · simp [full]

/-- The sender has an entry already, or adding it costs the table no other. -/
def KeepsEntries : Prop :=
  addr ∈ state.peers.peers.keys ∨ KeepsPairs hash env.alloc state.peers.peers addr

/-- `awdl_peer_add` without memory leaves the entries, then. -/
theorem addPeer_kept (valid : TableValid hash state.peers.peers)
    (keeps : KeepsEntries hash env state addr)
    (full : (addPeer hash env state addr).1 = .internal) :
    (addPeer hash env state addr).2.1.peers.peers.contents = state.peers.peers.contents := by
  have missing : addr ∉ state.peers.peers.keys := fun present =>
    (addPeer_added_iff hash env state addr valid).mpr (.inl present) full
  obtain ⟨status, after, put, ⟨-, added⟩ | ⟨rfl, -, same⟩⟩ :=
    addPeer_absent hash env state addr valid ((contents_none_iff _ addr).mpr missing)
  · rw [full] at added
    cases added
  · rw [same]
    exact hashmapPut_kept valid.map (keeps.resolve_left missing) put

/-- A call that finds memory keeps the entries anyway. -/
theorem keepsEntries_of_added (valid : TableValid hash state.peers.peers)
    (added : (addPeer hash env state addr).1 ≠ .internal) : KeepsEntries hash env state addr := by
  rcases (addPeer_added_iff hash env state addr valid).mp added with present | seats
  · exact .inl present
  · generalize put : hashmapPut hash env.alloc state.peers.peers addr (newEntry env addr) = result
    obtain ⟨status, after⟩ := result
    have done : status = .ok := by
      rw [← put_ok_iff _ valid.map.room, put] at seats
      exact seats
    subst done
    exact .inr (keepsPairs_of_ok valid.map.room put)

end Add

section Accept

variable (hash : EtherAddr → UInt64) (env : RxEnv) (frame : Buf) (addr : EtherAddr)
  (subtype : UInt8) (state : AwdlState)

def countAction (state : AwdlState) : AwdlState :=
  { state with stats := { state.stats with rxAction := state.stats.rxAction + 1 } }

def markMif (subtype : UInt8) (peer : Peer) : Peer :=
  if subtype = ActionType.mif.code then { peer with sentMif := true } else peer

theorem markMif_only (subtype : UInt8) (peer : Peer) : markMif subtype peer =
    { peer with sentMif := peer.sentMif || decide (subtype = ActionType.mif.code) } := by
  unfold markMif
  split
  case isTrue mif => simp [mif]
  case isFalse other => simp [other]

structure Parsed (entry : Peer) (events : List RxEvent) (loop : TlvOutcome) : Prop where
  entered : Entered env addr (announcer state) state.peers.peers.contents entry events
  run : ∃ table, tlvLoop env (frame.bytes.length + 1) frame entry
    (withTable (countAction state) table) = .ok loop

/-- What the loop leaves of the entry and of the node. -/
theorem Parsed.kept {entry : Peer} {events : List RxEvent} {loop : TlvOutcome}
    (parsed : Parsed env frame addr state entry events loop) :
    (∃ table, Kept entry loop.peer (withTable (countAction state) table) loop.state) ∧
      VersionFrom entry loop.peer loop.trace ∧
      ∀ event ∈ loop.trace, ∃ type value result, event = .tlv entry.addr type value result := by
  obtain ⟨-, table, run⟩ := parsed
  obtain ⟨other, same, kept, rest⟩ := tlvLoop_kept env (frame.bytes.length + 1) frame entry
    (withTable (countAction state) table)
  rw [run] at same
  cases same
  exact ⟨⟨table, kept⟩, rest⟩

/-- What `awdl_rx_action` does with a frame that it has not filtered. -/
inductive ActionEffect : RxOutcome → Prop where
  | refused (table : PeerMap) (valid : TableValid hash table)
      (full : addPeer hash env (countAction state) addr =
        (.internal, withTable (countAction state) table, []))
      (absent : state.peers.peers.contents addr = none)
      (fewer : ∀ other peer, table.contents other = some peer →
        state.peers.peers.contents other = some peer) :
      ActionEffect ⟨.ignore, frame, [], withTable (countAction state) table, []⟩
  | malformed (entry : Peer) (events : List RxEvent) (loop : TlvOutcome)
      (parsed : Parsed env frame addr state entry events loop)
      (stops : loop.accepted = false ∨ loop.frame.bytes ≠ []) (table : PeerMap)
      (valid : TableValid hash table)
      (contents : table.contents =
        Function.update state.peers.peers.contents addr (some loop.peer)) :
      ActionEffect ⟨.unexpectedFormat, loop.frame, [], withTable loop.state table,
        events ++ loop.trace⟩
  | done (entry : Peer) (events : List RxEvent) (loop : TlvOutcome)
      (parsed : Parsed env frame addr state entry events loop)
      (complete : loop.accepted = true) (empty : loop.frame.bytes = []) (table : PeerMap)
      (valid : TableValid hash table) (last : Peer) (again : List RxEvent)
      (turned : (last, again) = announce (announcer state)
        { markMif subtype loop.peer with lastUpdate := env.now })
      (contents : table.contents = Function.update state.peers.peers.contents addr (some last)) :
      ActionEffect ⟨.ok, loop.frame, [], withTable loop.state table,
        events ++ loop.trace ++ .action addr subtype :: again⟩

/-- Writing a present entry through its pointer. -/
theorem storePeer_eq (valid : TableValid hash state.peers.peers) (old peer : Peer)
    (present : state.peers.peers.contents addr = some old) (named : peer.addr = addr) :
    ∃ table, storePeer hash state addr peer = withTable state table ∧ TableValid hash table ∧
      table.contents = Function.update state.peers.peers.contents addr (some peer) := by
  obtain ⟨after, contents, -⟩ := storeData_present state.peers.peers valid.map addr old peer present
  refine ⟨_, rfl, ⟨after, ?_⟩, contents⟩
  rw [contents]
  refine update_keeps valid.own ?_
  rintro entry ⟨⟩
  exact named

/-- The store of `sent_mif`, when it happens. -/
theorem markMif_eq (valid : TableValid hash state.peers.peers) (peer : Peer)
    (present : state.peers.peers.contents addr = some peer) (named : peer.addr = addr) :
    ∃ table, (if subtype = ActionType.mif.code then
        storePeer hash state addr { peer with sentMif := true } else state) =
          withTable state table ∧
      TableValid hash table ∧ table.contents =
        Function.update state.peers.peers.contents addr (some (markMif subtype peer)) := by
  unfold markMif
  split
  · exact storePeer_eq hash addr state valid peer _ present named
  · refine ⟨state.peers.peers, rfl, valid, ?_⟩
    rw [← present, Function.update_eq_self]

/-- `awdl_peer_add` of a present peer. -/
theorem addPeer_present (valid : TableValid hash state.peers.peers) (peer : Peer)
    (present : state.peers.peers.contents addr = some peer) :
    ∃ status table, addPeer hash env state addr = (status, withTable state table,
        (announce (announcer state) { peer with lastUpdate := env.now }).2) ∧
      TableValid hash table ∧ table.contents = Function.update state.peers.peers.contents addr
        (some (announce (announcer state) { peer with lastUpdate := env.now }).1) := by
  obtain ⟨table, tableValid, ⟨-, absent, -⟩ | ⟨status, entry, events, added, -, entered, contents⟩⟩ :=
    addPeer_cases hash env state addr valid
  · rw [present] at absent
    cases absent
  -- A present peer is neither refused nor created.
  · cases entered with
    | old other found =>
        rw [present] at found
        cases found
        exact ⟨status, table, added, tableValid, contents⟩
    | new absent =>
        rw [present] at absent
        cases absent

def closeAction (events : List RxEvent) (loop : TlvOutcome) : RxOutcome :=
  let stored := storePeer hash loop.state addr loop.peer
  if loop.accepted = true ∧ loop.frame.bytes = [] then
    let marked :=
      if subtype = ActionType.mif.code then
        storePeer hash stored addr { loop.peer with sentMif := true }
      else stored
    let added := addPeer hash env marked addr
    ⟨.ok, loop.frame, [], added.2.1, events ++ loop.trace ++ .action addr subtype :: added.2.2⟩
  else ⟨.unexpectedFormat, loop.frame, [], stored, events ++ loop.trace⟩

/-- The frames of a sender that got an entry. -/
theorem acceptAction_eq (src : AddrPtr) (points : Points addr src) (status : PeersStatus)
    (before : AwdlState) (events : List RxEvent) (entry : Peer) (loop : TlvOutcome)
    (added : addPeer hash env (countAction state) addr = (status, before, events))
    (admitted : 0 ≤ status.code)
    (found : awdlPeerGet hash before.peers.peers addr = (.ok, some entry))
    (run : tlvLoop env (frame.bytes.length + 1) frame entry before = .ok loop) :
    acceptAction false hash env frame src subtype state =
      .ok (closeAction hash env addr subtype events loop) := by
  -- Without `strict` the source pointer is good for every view of the frame.
  have pointer : ∀ view, deref false view src = .ok addr := fun view =>
    deref_eq view src addr points
  have accepts : ¬ status.code < 0 := by omega
  have present : ¬ PeersStatus.ok.code < 0 := by decide
  unfold acceptAction closeAction
  simp only [pointer, except_ok_bind]
  rw [show addPeer hash env { state with
    stats := { state.stats with rxAction := state.stats.rxAction + 1 } } addr = _ from added]
  simp only [accepts, ↓reduceIte, found, present, run, except_ok_bind]
  by_cases complete : loop.accepted = true
  swap
  · simp [complete]
  by_cases empty : loop.frame.bytes = []
  · have nothing : ¬ bufLen loop.frame > 0 := by
      unfold bufLen
      rw [empty]
      decide
    simp only [complete, Bool.not_true, Bool.false_eq_true, nothing, ↓reduceIte, empty, and_self]
    rfl
  · have more : bufLen loop.frame > 0 := by
      have positive := List.length_pos_of_ne_nil empty
      unfold bufLen
      omega
    simp only [complete, Bool.not_true, Bool.false_eq_true, more, ↓reduceIte, empty, and_false]
    rfl

/-- Without memory for the sender the frame is ignored. -/
theorem acceptAction_refused (src : AddrPtr) (points : Points addr src) (after : AwdlState)
    (events : List RxEvent)
    (refused : addPeer hash env (countAction state) addr = (.internal, after, events)) :
    acceptAction false hash env frame src subtype state = .ok ⟨.ignore, frame, [], after, events⟩ := by
  have negative : PeersStatus.internal.code < 0 := by decide
  unfold acceptAction
  simp only [deref_eq _ src addr points, except_ok_bind]
  rw [show addPeer hash env { state with
      stats := { state.stats with rxAction := state.stats.rxAction + 1 } } addr = _ from refused]
  simp only [negative, ↓reduceIte]
  rfl

theorem acceptAction_effect (src : AddrPtr) (points : Points addr src)
    (valid : TableValid hash state.peers.peers) :
    ∃ outcome, acceptAction false hash env frame src subtype state = .ok outcome ∧
      ActionEffect hash env frame addr subtype state outcome := by
  obtain ⟨table, tableValid, ⟨refused, absent, fewer⟩ |
    ⟨status, entry, events, added, fine, entered, contents⟩⟩ :=
      addPeer_cases hash env (countAction state) addr valid
  · exact ⟨_, acceptAction_refused hash env frame addr subtype state src points _ _ refused,
      .refused table tableValid refused absent fewer⟩
  · have present : table.contents addr = some entry := by rw [contents, Function.update_self]
    have get : awdlPeerGet hash table addr = (.ok, some entry) := by
      rw [awdlPeerGet_eq table tableValid.map, present]
    obtain ⟨loop, run, kept, -⟩ := tlvLoop_kept env (frame.bytes.length + 1) frame entry
      (withTable (countAction state) table)
    -- The handlers move the clock of the node and nothing else of it.
    have node : loop.state = { withTable (countAction state) table with sync := loop.state.sync } :=
      kept.node
    have tableSame : loop.state.peers.peers = table := by rw [node]; rfl
    have cbSame : announcer loop.state = announcer state := by rw [node]; rfl
    have named : loop.peer.addr = addr := kept.addr.trans (entered.addr_eq env addr valid.own)
    have parsed : Parsed env frame addr state entry events loop := ⟨entered, table, run⟩
    obtain ⟨stored, storedEq, storedValid, storedContents⟩ := storePeer_eq hash addr loop.state
      (by rw [tableSame]; exact tableValid) entry loop.peer (by rw [tableSame]; exact present) named
    rw [tableSame, contents, Function.update_idem] at storedContents
    refine ⟨_, acceptAction_eq hash env frame addr subtype state src points status _ events entry
      loop added fine get run, ?_⟩
    unfold closeAction
    rw [storedEq]
    by_cases complete : loop.accepted = true ∧ loop.frame.bytes = []
    swap
    · rw [if_neg complete]
      refine .malformed entry events loop parsed ?_ stored storedValid storedContents
      by_cases refused : loop.accepted = true
      · exact .inr fun empty => complete ⟨refused, empty⟩
      · exact .inl (by simpa using refused)
    -- Three writes to one entry collapse into the last.
    have there : stored.contents addr = some loop.peer := by
      rw [storedContents, Function.update_self]
    obtain ⟨marked, markedEq, markedValid, markedContents⟩ := markMif_eq hash addr subtype
      (withTable loop.state stored) storedValid loop.peer there named
    obtain ⟨status, last, lastEq, lastValid, lastContents⟩ := addPeer_present hash env addr
      (withTable loop.state marked) markedValid (markMif subtype loop.peer)
      (by rw [withTable_peers, markedContents, Function.update_self])
    rw [withTable_peers, markedContents, withTable_peers, Function.update_idem, storedContents,
      Function.update_idem] at lastContents
    have cbLast : announcer (withTable loop.state marked) = announcer state := cbSame
    rw [cbLast] at lastEq lastContents
    rw [if_pos complete]
    simp only [markedEq, withTable_withTable, lastEq]
    exact .done entry events loop parsed complete.1 complete.2 last lastValid _ _ rfl lastContents

end Accept

section Receive

variable (hash : EtherAddr → UInt64) (env : RxEnv) (state : AwdlState)

def Passes (addr : EtherAddr) (rssi : Int8) : Prop :=
  state.filterRssi = true → rejectedByRssi hash state addr rssi = false

theorem awdlRxAction_accepts (frame : Buf) (rssi : Int8) (src : AddrPtr) (addr : EtherAddr)
    (points : Points addr src) (header : ActionHeader frame.bytes)
    (passes : Passes hash state addr rssi) :
    awdlRxAction false hash env frame rssi src state =
      acceptAction false hash env (frame.drop 16) src (byteAt frame.bytes 6) state := by
  have strip := bufStrip_eq frame awdlActionSize
  rw [if_pos header.1] at strip
  unfold awdlRxAction
  rw [awdlParseActionHdr_eq, if_pos header, except_ok_bind]
  simp only [strip, Option.getD_some, deref_eq _ src addr points, except_ok_bind]
  by_cases filters : state.filterRssi = true
  · rw [if_pos filters, passes filters]
    rfl
  · rw [if_neg filters]
    rfl

theorem awdlRxAction_drops (frame : Buf) (rssi : Int8) (src : AddrPtr) (addr : EtherAddr)
    (points : Points addr src)
    (dropped : ¬ (ActionHeader frame.bytes ∧ Passes hash state addr rssi)) :
    ∃ result left, awdlRxAction false hash env frame rssi src state =
      .ok ⟨result, left, [], state, []⟩ := by
  unfold awdlRxAction
  rw [awdlParseActionHdr_eq, except_ok_bind]
  by_cases header : ActionHeader frame.bytes
  · rw [if_pos header]
    dsimp only
    rw [deref_eq _ src addr points, except_ok_bind]
    have filters : state.filterRssi = true ∧ rejectedByRssi hash state addr rssi = true := by
      by_contra passing
      refine dropped ⟨header, fun filters => ?_⟩
      cases rejected : rejectedByRssi hash state addr rssi with
      | false => rfl
      | true => exact absurd ⟨filters, rejected⟩ passing
    rw [if_pos filters.1, if_pos filters.2]
    exact ⟨_, _, rfl⟩
  · rw [if_neg header]
    exact ⟨_, _, rfl⟩

structure Admits (frame mac : Buf) : Prop where
  found : macFrame env frame = some mac
  foreign : macSource mac ≠ state.selfAddress
  action : macFc mac &&& (ieee80211FctlFtype ||| ieee80211FctlStype) =
    (ieee80211FtypeMgmt ||| ieee80211StypeAction)
  header : ActionHeader (mac.drop 24).bytes
  passes : Passes hash state (macSource mac) (radiotapParse env frame).2.1

theorem dispatch_admitted (frame mac : Buf) (valid : TableValid hash state.peers.peers)
    (admitted : Admits hash env state frame mac) :
    ∃ outcome, dispatch false hash env (mac.drop 24) (radiotapParse env frame).2.1 (macFc mac)
        (.kept mac 10) (.kept mac 4) state = .ok outcome ∧
      ActionEffect hash env ((mac.drop 24).drop 16) (macSource mac) (byteAt (mac.drop 24).bytes 6)
        state outcome := by
  have long := macFrame_length env frame mac admitted.found
  have source : Points (macSource mac) (.kept mac 10) := ⟨by omega, rfl⟩
  unfold dispatch
  rw [if_pos admitted.action,
    awdlRxAction_accepts hash env state _ _ _ _ source admitted.header admitted.passes]
  exact acceptAction_effect hash env ((mac.drop 24).drop 16) (macSource mac) _ state (.kept mac 10)
    source valid

/-- `awdl_rx` changes the table only by an admitted action frame. -/
theorem awdlRx_effect (frame : Buf) (inside : RadiotapInside env)
    (valid : TableValid hash state.peers.peers) :
    ∃ outcome, awdlRx false hash env frame state = .ok outcome ∧
      (outcome.state = { state with stats := outcome.state.stats } ∧ outcome.trace = [] ∨
        ∃ mac, Admits hash env state frame mac ∧
          ActionEffect hash env ((mac.drop 24).drop 16) (macSource mac)
            (byteAt (mac.drop 24).bytes 6) state outcome) := by
  rcases awdlRx_cases false hash env frame state (inside _) with
    ⟨-, outcome, run, -, -, same, quiet⟩ | ⟨mac, found, foreign, run⟩
  · exact ⟨outcome, run, .inl ⟨by rw [same], quiet⟩⟩
  · have long := macFrame_length env frame mac found
    have source : Points (macSource mac) (.kept mac 10) := ⟨by omega, rfl⟩
    have target : Points (macTarget mac) (.kept mac 4) := ⟨by omega, rfl⟩
    -- Both data branches without aggregation end in the same call.
    have single : ∀ body : Buf, awdlRxData false hash env body (.kept mac 10) (.kept mac 4) state
        0 = .ok (dataOutcome hash env body (macSource mac) (macTarget mac) state 0) := fun body =>
      awdlRxData_eq hash env body _ _ _ _ state 0 source target
    have node : ∀ body : Buf,
        (dataOutcome hash env body (macSource mac) (macTarget mac) state 0).toRx.state =
          { state with stats :=
            (dataOutcome hash env body (macSource mac) (macTarget mac) state 0).toRx.state.stats } := by
      intro body
      dsimp only [DataOutcome.toRx]
      rw [(dataOutcome_cases hash env body (macSource mac) (macTarget mac) state 0).1]
      rfl
    rw [run]
    unfold dispatch
    simp only [single, except_ok_bind, except_pure]
    split
    case isTrue action =>
      by_cases admitted : ActionHeader (mac.drop 24).bytes ∧
          Passes hash state (macSource mac) (radiotapParse env frame).2.1
      · have admits : Admits hash env state frame mac :=
          ⟨found, foreign, action, admitted.1, admitted.2⟩
        obtain ⟨outcome, dispatched, effect⟩ := dispatch_admitted hash env state frame mac valid admits
        rw [dispatch, if_pos action] at dispatched
        exact ⟨outcome, dispatched, .inr ⟨mac, admits, effect⟩⟩
      · obtain ⟨result, left, dropped⟩ := awdlRxAction_drops hash env state (mac.drop 24)
          (radiotapParse env frame).2.1 (.kept mac 10) (macSource mac) source admitted
        exact ⟨_, dropped, .inl ⟨rfl, rfl⟩⟩
    case isFalse =>
    split
    · rw [readLe16_eq _ 0 (by decide) (by decide), except_ok_bind]
      cases peek 2 ofLe16 (mac.drop 24).bytes (Int.toNat 0) with
      | none => exact ⟨_, rfl, .inl ⟨rfl, rfl⟩⟩
      | some control =>
          dsimp only
          cases bufStrip (mac.drop 24) ieee80211QosCtlLen with
          | none => exact ⟨_, rfl, .inl ⟨rfl, rfl⟩⟩
          | some body =>
              dsimp only
              split
              · obtain ⟨outcome, looped, kept, -⟩ := amsduLoop_outcome hash env body state 0
                  (body.bytes.length + 1) (Nat.lt_succ_self _)
                rw [awdlRxDataAmsdu, looped, except_ok_bind]
                exact ⟨_, rfl, .inl ⟨kept, rfl⟩⟩
              · exact ⟨_, rfl, .inl ⟨node _, rfl⟩⟩
    · split
      · exact ⟨_, rfl, .inl ⟨node _, rfl⟩⟩
      · exact ⟨_, rfl, .inl ⟨rfl, rfl⟩⟩

/-- A processed frame has found memory for its sender. -/
theorem processed_keepsEntries {frame mac : Buf} {outcome : RxOutcome} (inside : RadiotapInside env)
    (valid : TableValid hash state.peers.peers) (admitted : Admits hash env state frame mac)
    (run : awdlRx false hash env frame state = .ok outcome) (processed : outcome.result = .ok) :
    KeepsEntries hash env state (macSource mac) := by
  have long := macFrame_length env frame mac admitted.found
  have source : Points (macSource mac) (.kept mac 10) := ⟨by omega, rfl⟩
  refine keepsEntries_of_added hash env (countAction state) (macSource mac) valid fun full => ?_
  rcases awdlRx_cases false hash env frame state (inside _) with ⟨own, -⟩ | ⟨other, found, -, ran⟩
  · exact absurd (own mac admitted.found) admitted.foreign
  · obtain rfl : mac = other := Option.some.inj (admitted.found.symm.trans found)
    generalize added : addPeer hash env (countAction state) (macSource mac) = result at full
    obtain ⟨status, after, events⟩ := result
    obtain rfl : status = .internal := full
    rw [dispatch, if_pos admitted.action,
      awdlRxAction_accepts hash env state _ _ _ _ source admitted.header admitted.passes,
      acceptAction_refused hash env _ _ _ state _ source after events added, run] at ran
    cases ran
    cases processed

/-- `awdlRx_effect` for a given outcome. -/
theorem awdlRx_changes {frame : Buf} {outcome : RxOutcome} (inside : RadiotapInside env)
    (valid : TableValid hash state.peers.peers)
    (run : awdlRx false hash env frame state = .ok outcome) :
    outcome.state = { state with stats := outcome.state.stats } ∧ outcome.trace = [] ∨
      ∃ mac, Admits hash env state frame mac ∧
        ActionEffect hash env ((mac.drop 24).drop 16) (macSource mac)
          (byteAt (mac.drop 24).bytes 6) state outcome := by
  obtain ⟨other, same, effect⟩ := awdlRx_effect hash env state frame inside valid
  rw [run] at same
  cases same
  exact effect

end Receive

end Owl.RxPeers
