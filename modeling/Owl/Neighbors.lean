import Owl.Daemon
import Owl.Siphash

/-!
The neighbour set of the operating system. The daemon installs two callbacks,
and each address has a life of its own: its entry is created, touched, filled by
TLVs, marked by a MIF and dropped, and only touching and dropping can call back.
A ledger for one address says what the history of its events has to do with its
entry; every turn of a life keeps it, and every handler is a sequence of turns
for every address.
-/

namespace Owl.Neighbors

open Bytes Ether Channel Siphash Peers PeersRefine Wire State Frames RxTlv Rx RxSpec RxAction RxData
  RxPeers Daemon

def eventAddr : RxEvent → EtherAddr
  | .callback _ addr => addr
  | .created addr => addr
  | .tlv addr _ _ _ => addr
  | .action addr _ => addr

def callbackOf (addr : EtherAddr) : RxEvent → Option PeerCb
  | .callback cb other => if other = addr then some cb else none
  | _ => none

def callbacks (addr : EtherAddr) (history : List RxEvent) : List PeerCb :=
  history.filterMap (callbackOf addr)

def Alternates (calls : List PeerCb) : Prop :=
  ∀ i cb, calls[i]? = some cb →
    cb = if i % 2 = 0 then .awdlNeighborAdd else .awdlNeighborRemove

theorem alternates_last (calls : List PeerCb) (alternates : Alternates calls) :
    calls.getLast? = some .awdlNeighborAdd ↔ calls.length % 2 = 1 := by
  rw [List.getLast?_eq_getElem?]
  cases last : calls[calls.length - 1]? with
  | none =>
      have empty : calls.length = 0 := by
        have outside := List.getElem?_eq_none_iff.mp last
        omega
      simp [empty]
  | some cb =>
      have inside : calls.length - 1 < calls.length := (List.getElem?_eq_some_iff.mp last).1
      have value := alternates _ cb last
      rw [value, Option.some.injEq]
      by_cases even : (calls.length - 1) % 2 = 0
      · simp only [even, ↓reduceIte, true_iff]
        omega
      · simp only [even, ↓reduceIte, reduceCtorEq, false_iff]
        omega

theorem alternates_append (calls : List PeerCb) (alternates : Alternates calls) (cb : PeerCb)
    (fits : cb = if calls.length % 2 = 0 then .awdlNeighborAdd else .awdlNeighborRemove) :
    Alternates (calls ++ [cb]) := by
  intro i found present
  by_cases inside : i < calls.length
  · rw [List.getElem?_append_left inside] at present
    exact alternates i found present
  · have length := (List.getElem?_eq_some_iff.mp present).1
    rw [List.length_append, List.length_singleton] at length
    obtain rfl : i = calls.length := by omega
    rw [List.getElem?_append_right (Nat.le_refl _), Nat.sub_self] at present
    cases present
    exact fits

/-- Since the last creation of its entry the address has sent a MIF that was
processed with `RX_OK` and a Version TLV that announces a version and a class. -/
def Justified (addr : EtherAddr) (history : List RxEvent) : Prop :=
  ∃ earlier later, history = earlier ++ .created addr :: later ∧ .created addr ∉ later ∧
    .action addr ActionType.mif.code ∈ later ∧
    ∃ value, versionTlv addr value ∈ later ∧ byteAt value 0 ≠ 0 ∧ byteAt value 1 ≠ 0

def Since (addr : EtherAddr) (peer : Peer) (history : List RxEvent) : Prop :=
  ∃ earlier later, history = earlier ++ .created addr :: later ∧ .created addr ∉ later ∧
    (peer.sentMif = true → .action addr ActionType.mif.code ∈ later) ∧
    (peer.version ≠ 0 → peer.devclass ≠ 0 →
      ∃ value, versionTlv addr value ∈ later ∧ byteAt value 0 ≠ 0 ∧ byteAt value 1 ≠ 0)

theorem Since.append {addr : EtherAddr} {peer : Peer} {history : List RxEvent}
    (since : Since addr peer history) (new : List RxEvent) (kept : .created addr ∉ new) :
    Since addr peer (history ++ new) := by
  obtain ⟨earlier, later, rfl, unique, mif, version⟩ := since
  refine ⟨earlier, later ++ new, by simp, by simp [unique, kept], ?_, ?_⟩
  · intro sent
    exact List.mem_append_left _ (mif sent)
  · intro nonzero nonzeroClass
    obtain ⟨value, member, rest⟩ := version nonzero nonzeroClass
    exact ⟨value, List.mem_append_left _ member, rest⟩

theorem Since.justified {addr : EtherAddr} {peer : Peer} {history : List RxEvent}
    (since : Since addr peer history) (valid : awdlPeerIsValid peer = true) :
    Justified addr history := by
  obtain ⟨earlier, later, split, unique, mif, version⟩ := since
  simp only [awdlPeerIsValid, Bool.and_eq_true, bne_iff_ne, ne_eq] at valid
  exact ⟨earlier, later, split, unique, mif valid.1.1, version valid.2 valid.1.2⟩

structure Ledger (addr : EtherAddr) (entry : Option Peer) (history : List RxEvent) : Prop where
  alternates : Alternates (callbacks addr history)
  mirrors : (callbacks addr history).getLast? = some .awdlNeighborAdd ↔
    ∃ peer, entry = some peer ∧ peer.isValid = true
  since : ∀ peer, entry = some peer → Since addr peer history
  named : ∀ peer, entry = some peer → peer.addr = addr
  justified : ∀ before after, history = before ++ .callback .awdlNeighborAdd addr :: after →
    Justified addr before

inductive Turn (addr : EtherAddr) : Option Peer → List RxEvent → Option Peer → Prop where
  | other (entry : Option Peer) (events : List RxEvent)
      (elsewhere : ∀ event ∈ events, eventAddr event ≠ addr) : Turn addr entry events entry
  | create (peer : Peer) (named : peer.addr = addr) (silent : peer.sentMif = false)
      (plain : peer.version = 0) (invalid : peer.isValid = false) :
      Turn addr none [.created addr] (some peer)
  | touch (peer : Peer) (now : UInt64) :
      Turn addr (some peer)
        (announce (some (callPeerCb .awdlNeighborAdd)) { peer with lastUpdate := now }).2
        (some (announce (some (callPeerCb .awdlNeighborAdd)) { peer with lastUpdate := now }).1)
  | parse (peer after : Peer) (trace : List RxEvent) (named : after.addr = peer.addr)
      (sentMif : after.sentMif = peer.sentMif) (isValid : after.isValid = peer.isValid)
      (version : VersionFrom peer after trace)
      (only : ∀ event ∈ trace, ∃ type value result, event = .tlv peer.addr type value result) :
      Turn addr (some peer) trace (some after)
  | action (peer : Peer) (subtype : UInt8) :
      Turn addr (some peer) [.action addr subtype] (some (markMif subtype peer))
  | drop (peer : Peer) :
      Turn addr (some peer) (farewell (some (callPeerCb .awdlNeighborRemove)) peer) none

theorem callbacks_append (addr : EtherAddr) (history new : List RxEvent) :
    callbacks addr (history ++ new) = callbacks addr history ++ callbacks addr new :=
  List.filterMap_append

theorem callbacks_callback (addr : EtherAddr) (history : List RxEvent) (cb : PeerCb) :
    callbacks addr (history ++ [.callback cb addr]) = callbacks addr history ++ [cb] := by
  rw [callbacks_append]
  simp [callbacks, callbackOf]

/-- An event in a longer history is an old one or a new one. -/
theorem split_append {property : List RxEvent → Prop} {event : RxEvent}
    {history new : List RxEvent}
    (old : ∀ before after, history = before ++ event :: after → property before)
    (fresh : ∀ before after, new = before ++ event :: after → property (history ++ before))
    (before after : List RxEvent) (split : history ++ new = before ++ event :: after) :
    property before := by
  rcases List.append_eq_append_iff.mp split with ⟨rest, rfl, tail⟩ | ⟨rest, head, tail⟩
  · exact fresh rest after tail
  · cases rest with
    | nil =>
        rw [List.append_nil] at head
        subst head
        have start := fresh [] after (by simpa using tail.symm)
        rwa [List.append_nil] at start
    | cons first rest =>
        injection tail with same
        subst same
        exact old before rest head

/-- Turns that make no callback for the address keep what is said about them. -/
theorem Ledger.quiet {addr : EtherAddr} {entry after : Option Peer} {history new : List RxEvent}
    (ledger : Ledger addr entry history) (silent : callbacks addr new = [])
    (mirrors : (∃ peer, after = some peer ∧ peer.isValid = true) ↔
      ∃ peer, entry = some peer ∧ peer.isValid = true)
    (since : ∀ peer, after = some peer → Since addr peer (history ++ new))
    (named : ∀ peer, after = some peer → peer.addr = addr) : Ledger addr after (history ++ new) := by
  have same : callbacks addr (history ++ new) = callbacks addr history := by
    rw [callbacks_append, silent, List.append_nil]
  refine ⟨by rw [same]; exact ledger.alternates, by rw [same, mirrors]; exact ledger.mirrors, since,
    named, split_append ledger.justified ?_⟩
  rintro before after rfl
  rw [callbacks_append] at silent
  simp [callbacks, callbackOf] at silent

theorem callbacks_tlvs (addr : EtherAddr) (trace : List RxEvent)
    (only : ∀ event ∈ trace, ∃ other type value result, event = .tlv other type value result) :
    callbacks addr trace = [] := by
  refine List.filterMap_eq_nil_iff.mpr ?_
  intro event member
  obtain ⟨other, type, value, result, rfl⟩ := only event member
  rfl

theorem callbacks_elsewhere (addr : EtherAddr) (events : List RxEvent)
    (elsewhere : ∀ event ∈ events, eventAddr event ≠ addr) : callbacks addr events = [] := by
  refine List.filterMap_eq_nil_iff.mpr ?_
  intro event member
  have away := elsewhere event member
  cases event with
  | callback cb other => exact if_neg away
  | created other => rfl
  | tlv other type value result => rfl
  | action other subtype => rfl

/-- A touched entry that turns valid is announced, once and with good reason. -/
theorem Ledger.touch {addr : EtherAddr} {peer : Peer} {history : List RxEvent}
    (ledger : Ledger addr (some peer) history) (now : UInt64) :
    Ledger addr
      (some (announce (some (callPeerCb .awdlNeighborAdd)) { peer with lastUpdate := now }).1)
      (history ++
        (announce (some (callPeerCb .awdlNeighborAdd)) { peer with lastUpdate := now }).2) := by
  have since := ledger.since peer rfl
  have named := ledger.named peer rfl
  unfold announce
  split
  case isTrue turns =>
    simp only [Bool.and_eq_true, Bool.not_eq_true'] at turns
    obtain ⟨invalid, valid⟩ := turns
    have calls : callbacks addr (history ++ [.callback .awdlNeighborAdd peer.addr]) =
        callbacks addr history ++ [.awdlNeighborAdd] := by
      rw [named]
      exact callbacks_callback addr history .awdlNeighborAdd
    -- An entry that is not valid yet has no neighbour, so the next call must be an add.
    have last : ¬ (callbacks addr history).getLast? = some .awdlNeighborAdd := by
      rw [ledger.mirrors]
      rintro ⟨other, same, valid⟩
      cases same
      rw [invalid] at valid
      cases valid
    have even : (callbacks addr history).length % 2 = 0 := by
      rw [alternates_last _ ledger.alternates] at last
      omega
    have since' : Since addr { peer with lastUpdate := now, isValid := true }
        (history ++ [.callback .awdlNeighborAdd peer.addr]) :=
      since.append [.callback .awdlNeighborAdd peer.addr] (by simp)
    refine ⟨?_, ?_, ?_, ?_, ?_⟩
    · refine (congrArg Alternates calls).mpr (alternates_append _ ledger.alternates _ ?_)
      rw [if_pos even]
    · refine iff_of_true ?_ ⟨_, rfl, rfl⟩
      exact (congrArg List.getLast? calls).trans (by simp)
    · intro other same
      cases same
      exact since'
    · intro other same
      cases same
      exact named
    · refine split_append ledger.justified ?_
      intro before after split
      -- The only new callback is the one that the history ends with.
      have shape : [RxEvent.callback .awdlNeighborAdd peer.addr] =
        before ++ .callback .awdlNeighborAdd addr :: after := split
      obtain rfl : before = [] := by
        cases before with
        | nil => rfl
        | cons first rest => simp at shape
      rw [List.append_nil]
      exact since.justified valid
  case isFalse =>
    refine ledger.quiet rfl ?_ ?_ ?_
    · exact ⟨fun ⟨_, same, valid⟩ => ⟨peer, rfl, by cases same; exact valid⟩,
        fun ⟨_, same, valid⟩ => ⟨_, rfl, by cases same; exact valid⟩⟩
    · intro other same
      cases same
      exact since.append [] (by simp)
    · intro other same
      cases same
      exact named

/-- A dropped entry takes its neighbour with it. -/
theorem Ledger.drop {addr : EtherAddr} {peer : Peer} {history : List RxEvent}
    (ledger : Ledger addr (some peer) history) :
    Ledger addr none
      (history ++ farewell (some (callPeerCb .awdlNeighborRemove)) peer) := by
  have named := ledger.named peer rfl
  by_cases valid : peer.isValid = true
  · have events : farewell (some (callPeerCb .awdlNeighborRemove)) peer =
        [.callback .awdlNeighborRemove addr] := by
      simp [farewell, valid, callPeerCb, named]
    have calls := callbacks_callback addr history .awdlNeighborRemove
    have odd := (alternates_last _ ledger.alternates).mp (ledger.mirrors.mpr ⟨peer, rfl, valid⟩)
    rw [events]
    refine ⟨?_, ?_, by simp, by simp, split_append ledger.justified ?_⟩
    · rw [calls]
      refine alternates_append _ ledger.alternates _ ?_
      rw [if_neg (by omega)]
    · rw [calls]
      simp
    · intro before after split
      exfalso
      cases before with
      | nil => simp at split
      | cons first rest => simp at split
  · have events : farewell (some (callPeerCb .awdlNeighborRemove)) peer = [] := by
      simp [farewell, valid]
    rw [events]
    exact ledger.quiet rfl (by simp [valid]) (by simp) (by simp)

/-- The TLVs of a frame account for the fields they set. -/
theorem Since.parse {addr : EtherAddr} {peer after : Peer} {history trace : List RxEvent}
    (since : Since addr peer history) (own : peer.addr = addr)
    (sentMif : after.sentMif = peer.sentMif) (version : VersionFrom peer after trace)
    (only : ∀ event ∈ trace, ∃ type value result, event = .tlv peer.addr type value result) :
    Since addr after (history ++ trace) := by
  have kept : .created addr ∉ trace := by
    intro member
    obtain ⟨type, value, result, same⟩ := only _ member
    cases same
  obtain ⟨earlier, later, split, unique, mif, older⟩ := since
  refine ⟨earlier, later ++ trace, by simp [split], by simp [unique, kept], ?_, ?_⟩
  · intro sent
    rw [sentMif] at sent
    exact List.mem_append_left _ (mif sent)
  · intro nonzero nonzeroClass
    -- The version is the stored one or that of a TLV of this frame.
    rcases version with ⟨same, sameClass⟩ | ⟨value, member, same, sameClass⟩
    · rw [same] at nonzero
      rw [sameClass] at nonzeroClass
      obtain ⟨value, member, rest⟩ := older nonzero nonzeroClass
      exact ⟨value, List.mem_append_left _ member, rest⟩
    · rw [own] at member
      rw [same] at nonzero
      rw [sameClass] at nonzeroClass
      exact ⟨value, List.mem_append_right _ member, nonzero, nonzeroClass⟩

theorem Since.action {addr : EtherAddr} {peer : Peer} {history : List RxEvent}
    (since : Since addr peer history) (subtype : UInt8) :
    Since addr (markMif subtype peer) (history ++ [.action addr subtype]) := by
  obtain ⟨earlier, later, split, unique, mif, version⟩ := since
  refine ⟨earlier, later ++ [.action addr subtype], by simp [split], by simp [unique], ?_, ?_⟩
  · unfold markMif
    split
    case isTrue same =>
      intro _
      simp [same]
    case isFalse =>
      intro sent
      exact List.mem_append_left _ (mif sent)
  · rw [markMif_only]
    intro nonzero nonzeroClass
    obtain ⟨value, member, rest⟩ := version nonzero nonzeroClass
    exact ⟨value, List.mem_append_left _ member, rest⟩

theorem Ledger.turn {addr : EtherAddr} {entry after : Option Peer} {history new : List RxEvent}
    (ledger : Ledger addr entry history) (turn : Turn addr entry new after) :
    Ledger addr after (history ++ new) := by
  cases turn with
  | other _ _ elsewhere =>
      refine ledger.quiet (callbacks_elsewhere addr new elsewhere) Iff.rfl ?_ ledger.named
      intro peer present
      refine (ledger.since peer present).append new ?_
      intro member
      exact elsewhere _ member rfl
  | create peer named silent plain invalid =>
      refine ledger.quiet rfl ?_ ?_ ?_
      · refine iff_of_false ?_ (by simp)
        rintro ⟨other, same, valid⟩
        cases same
        rw [invalid] at valid
        cases valid
      · intro other same
        cases same
        refine ⟨history, [], rfl, by simp, ?_, ?_⟩
        · intro sent
          rw [silent] at sent
          cases sent
        · intro nonzero
          exact absurd plain nonzero
      · intro other same
        cases same
        exact named
  | touch peer now => exact ledger.touch now
  | parse peer after trace named sentMif isValid version only =>
      have own := ledger.named peer rfl
      have silent : callbacks addr new = [] := callbacks_tlvs addr new fun event member =>
        ⟨peer.addr, only event member⟩
      refine ledger.quiet silent ?_ ?_ ?_
      · exact ⟨fun ⟨_, same, valid⟩ => ⟨peer, rfl, by cases same; rw [← isValid]; exact valid⟩,
          fun ⟨_, same, valid⟩ => ⟨after, rfl, by cases same; rw [isValid]; exact valid⟩⟩
      · intro other same
        cases same
        exact (ledger.since peer rfl).parse own sentMif version only
      · intro other same
        cases same
        exact named.trans own
  | action peer subtype =>
      refine ledger.quiet rfl ?_ ?_ ?_
      · simp only [Option.some.injEq, exists_eq_left', markMif_only]
      · intro other same
        cases same
        exact (ledger.since peer rfl).action subtype
      · intro other same
        cases same
        rw [markMif_only]
        exact ledger.named peer rfl
  | drop peer => exact ledger.drop

inductive Turns (addr : EtherAddr) : Option Peer → List RxEvent → Option Peer → Prop where
  | done (entry : Option Peer) : Turns addr entry [] entry
  | next {entry mid after : Option Peer} {first rest : List RxEvent}
      (turn : Turn addr entry first mid) (later : Turns addr mid rest after) :
      Turns addr entry (first ++ rest) after

theorem Turns.single {addr : EtherAddr} {entry after : Option Peer} {events : List RxEvent}
    (turn : Turn addr entry events after) : Turns addr entry events after := by
  rw [← List.append_nil events]
  exact .next turn (.done after)

theorem Ledger.turns {addr : EtherAddr} {entry after : Option Peer} {history new : List RxEvent}
    (ledger : Ledger addr entry history) (turns : Turns addr entry new after) :
    Ledger addr after (history ++ new) := by
  induction turns generalizing history with
  | done entry =>
      rw [List.append_nil]
      exact ledger
  | next turn later ih =>
      rw [← List.append_assoc]
      exact ih (ledger.turn turn)

section Handlers

variable {hash : EtherAddr → UInt64} {env : RxEnv} {state : AwdlState}

theorem announce_events (cb : PeerCb) (peer : Peer) :
    ∀ event ∈ (announce (some (callPeerCb cb)) peer).2, event = .callback cb peer.addr := by
  unfold announce
  split
  · intro event member
    exact List.mem_singleton.mp member
  · simp

theorem announcer_eq (valid : NodeValid hash state) :
    announcer state = some (callPeerCb .awdlNeighborAdd) := by
  rw [announcer, valid.adds]
  rfl

theorem entered_turn {src : EtherAddr} {entry : Peer} {events : List RxEvent}
    (valid : NodeValid hash state)
    (entered : Entered env src (announcer state) state.peers.peers.contents entry events) :
    Turn src (state.peers.peers.contents src) events (some entry) ∧
      ∀ event ∈ events, eventAddr event = src := by
  rw [announcer_eq valid] at entered
  cases entered with
  | old peer found =>
      rw [found]
      refine ⟨.touch peer env.now, ?_⟩
      intro event member
      rw [announce_events _ _ event member]
      exact valid.table.own src peer found
  | new absent =>
      rw [absent]
      refine ⟨.create _ rfl rfl rfl rfl, ?_⟩
      intro event member
      rw [List.mem_singleton.mp member]
      rfl

/-- The turns of the sender up to the end of the TLV loop. -/
theorem parsed_turns {frame : Buf} {src : EtherAddr} {entry : Peer} {events : List RxEvent}
    {loop : TlvOutcome} (valid : NodeValid hash state)
    (parsed : Parsed env frame src state entry events loop) :
    (∀ rest after, Turns src (some loop.peer) rest after →
      Turns src (state.peers.peers.contents src) (events ++ loop.trace ++ rest) after) ∧
      (∀ event ∈ events ++ loop.trace, eventAddr event = src) ∧ loop.peer.addr = src := by
  obtain ⟨turn, about⟩ := entered_turn valid parsed.entered
  obtain ⟨⟨table, kept⟩, version, only⟩ := parsed.kept
  have own := parsed.entered.addr_eq env src valid.table.own
  refine ⟨?_, ?_, kept.addr.trans own⟩
  · intro rest after later
    rw [List.append_assoc]
    exact .next turn (.next (.parse entry loop.peer loop.trace kept.addr kept.sentMif kept.isValid
      version only) later)
  · intro event member
    rcases List.mem_append.mp member with early | late
    · exact about event early
    · obtain ⟨type, value, result, rfl⟩ := only event late
      exact own

theorem receive_turns {frame : Buf} {src : EtherAddr} {subtype : UInt8} {outcome : RxOutcome}
    (valid : NodeValid hash state)
    (effect : ActionEffect hash env frame src subtype state outcome)
    (keeps : KeepsEntries hash env state src) (addr : EtherAddr) :
    Turns addr (state.peers.peers.contents addr) outcome.trace
      (outcome.state.peers.peers.contents addr) := by
  cases effect with
  | refused table tableValid full absent fewer =>
      have kept := addPeer_kept hash env (countAction state) src valid.table keeps (by rw [full])
      rw [full] at kept
      rw [withTable_peers, show table.contents = state.peers.peers.contents from kept]
      exact .done _
  | malformed entry events loop parsed stops table tableValid contents =>
      obtain ⟨turns, about, named⟩ := parsed_turns valid parsed
      rw [withTable_peers, contents]
      by_cases same : addr = src
      · subst same
        rw [Function.update_self]
        have whole := turns [] _ (.done _)
        rwa [List.append_nil] at whole
      · rw [Function.update_of_ne same]
        refine .single (.other _ _ ?_)
        intro event member
        rw [about event member]
        exact Ne.symm same
  | done entry events loop parsed complete empty table tableValid last again turned contents =>
      obtain ⟨turns, about, named⟩ := parsed_turns valid parsed
      rw [announcer_eq valid] at turned
      rw [withTable_peers, contents]
      by_cases same : addr = src
      · subst same
        -- The second `awdl_peer_add` is a turn of its own, behind the mark of the MIF.
        have touched : Turn addr (some (markMif subtype loop.peer)) _ _ :=
          .touch (markMif subtype loop.peer) env.now
        rw [← turned] at touched
        rw [Function.update_self]
        exact turns ([.action addr subtype] ++ again) _
          (.next (.action loop.peer subtype) (.single touched))
      · rw [Function.update_of_ne same]
        refine .single (.other _ _ ?_)
        intro event member
        have sent : eventAddr event = src := by
          rcases List.mem_append.mp member with early | late
          · exact about event early
          · rcases List.mem_cons.mp late with rfl | last
            · rfl
            · have events := congrArg Prod.snd turned
              dsimp only at events
              rw [events] at last
              rw [announce_events _ _ event last, eventAddr, markMif_only]
              exact named
        rw [sent]
        exact Ne.symm same

theorem farewells_elsewhere (addr : EtherAddr) (elements : List (EtherAddr × Peer))
    (absent : addr ∉ elements.map Prod.fst)
    (own : ∀ element ∈ elements, element.2.addr = element.1) :
    ∀ event ∈ elements.flatMap
      (fun element => farewell (some (callPeerCb .awdlNeighborRemove)) element.2),
      eventAddr event ≠ addr := by
  intro event member same
  obtain ⟨element, inside, made⟩ := List.mem_flatMap.mp member
  unfold farewell at made
  split at made
  · obtain rfl := List.mem_singleton.mp made
    apply absent
    rw [← same, show eventAddr (callPeerCb .awdlNeighborRemove element.2) = element.2.addr from rfl,
      own element inside]
    exact List.mem_map_of_mem inside
  · cases made

/-- The entries that the cleanup drops, one for each key. -/
theorem stale_entries (valid : NodeValid hash state) (cutoff : UInt64) :
    ((state.peers.peers.entries.filter fun element =>
        decide (element.2.lastUpdate < cutoff)).map Prod.fst).Nodup ∧
      ∀ element ∈ state.peers.peers.entries.filter fun element =>
          decide (element.2.lastUpdate < cutoff),
        state.peers.peers.contents element.1 = some element.2 ∧ element.2.addr = element.1 ∧
          element.2.lastUpdate < cutoff := by
  refine ⟨valid.table.map.distinct.sublist (List.filter_sublist.map Prod.fst), ?_⟩
  intro element member
  obtain ⟨inside, stale⟩ := List.mem_filter.mp member
  have present := (Hashmap.contents_some_iff _ valid.table.map.distinct _ _).mpr inside
  exact ⟨present, valid.table.own _ _ present, of_decide_eq_true stale⟩

theorem clean_events (valid : NodeValid hash state) (now : UInt64) :
    (awdlCleanPeers now state).2 =
      (state.peers.peers.entries.filter fun element =>
        decide (element.2.lastUpdate < now - state.peers.timeout)).flatMap
          fun element => farewell (some (callPeerCb .awdlNeighborRemove)) element.2 := by
  obtain ⟨-, -, events⟩ := awdlPeersRemove_eq state.peers.peers valid.table.map
    (now - state.peers.timeout) (state.peerRemoveCb.map callPeerCb)
  rw [valid.removes] at events
  rw [awdlCleanPeers, valid.removes]
  exact events

/-- No callback is for an address without a stale entry. -/
theorem clean_elsewhere (valid : NodeValid hash state) (now : UInt64) (addr : EtherAddr)
    (recent : ∀ peer, state.peers.peers.contents addr = some peer →
      ¬ peer.lastUpdate < now - state.peers.timeout) :
    ∀ event ∈ (awdlCleanPeers now state).2, eventAddr event ≠ addr := by
  obtain ⟨-, stored⟩ := stale_entries valid (now - state.peers.timeout)
  rw [clean_events valid]
  refine farewells_elsewhere addr _ ?_ fun element inside => (stored element inside).2.1
  intro member
  obtain ⟨⟨key, peer⟩, inside, same⟩ := List.mem_map.mp member
  obtain rfl : key = addr := same
  obtain ⟨present, -, stale⟩ := stored _ inside
  exact recent peer present stale

/-- The cleanup drops each stale entry once. -/
theorem clean_turns (valid : NodeValid hash state) (now : UInt64) (addr : EtherAddr) :
    Turns addr (state.peers.peers.contents addr) (awdlCleanPeers now state).2
      ((awdlCleanPeers now state).1.peers.peers.contents addr) := by
  obtain ⟨keys, stored⟩ := stale_entries valid (now - state.peers.timeout)
  rw [awdlCleanPeers_contents now valid.table addr]
  by_cases listed : ∃ peer, state.peers.peers.contents addr = some peer ∧
      peer.lastUpdate < now - state.peers.timeout
  · obtain ⟨peer, present, stale⟩ := listed
    have member : (addr, peer) ∈ state.peers.peers.entries.filter fun element =>
        decide (element.2.lastUpdate < now - state.peers.timeout) :=
      List.mem_filter.mpr
        ⟨(Hashmap.contents_some_iff _ valid.table.map.distinct _ _).mp present, by simpa using stale⟩
    rw [present, Option.filter_some, if_neg (by simpa using stale), clean_events valid]
    -- The farewells before and behind that of `addr` are for other addresses.
    obtain ⟨left, right, split⟩ := List.append_of_mem member
    rw [split] at keys stored ⊢
    rw [List.map_append, List.map_cons, List.nodup_middle, List.nodup_cons, List.mem_append,
      not_or] at keys
    rw [List.flatMap_append, List.flatMap_cons]
    have early := farewells_elsewhere addr left keys.1.1 fun element inside =>
      (stored element (List.mem_append_left _ inside)).2.1
    have late := farewells_elsewhere addr right keys.1.2 fun element inside =>
      (stored element (List.mem_append_right _ (List.mem_cons_of_mem _ inside))).2.1
    exact .next (.other _ _ early) (.next (.drop peer) (.single (.other _ _ late)))
  · have recent : ∀ peer, state.peers.peers.contents addr = some peer →
        ¬ peer.lastUpdate < now - state.peers.timeout := fun peer present stale =>
      listed ⟨peer, present, stale⟩
    have unchanged : (state.peers.peers.contents addr).filter
        (fun peer => !decide (peer.lastUpdate < now - state.peers.timeout)) =
          state.peers.peers.contents addr := by
      cases present : state.peers.peers.contents addr with
      | none => rfl
      | some peer =>
          rw [Option.filter_some, if_pos (by simpa using recent peer present)]
    rw [unchanged]
    exact .single (.other _ _ (clean_elsewhere valid now addr recent))

end Handlers

/-- The sender of the frame, if it is admitted, costs the table no entry. -/
def KeepsTable (hash : EtherAddr → UInt64) (env : RxEnv) (frame : Buf) (state : AwdlState) : Prop :=
  ∀ mac, Admits hash env state frame mac → KeepsEntries hash env state (macSource mac)

theorem reaches_ledger {hash : EtherAddr → UInt64} {state : AwdlState} {history : List RxEvent}
    (reached : Reaches hash (KeepsTable hash) state history) (addr : EtherAddr) :
    Ledger addr (state.peers.peers.contents addr) history := by
  induction reached with
  | init memory hostname self chan now filterRssi =>
      rw [awdlInit_absent]
      refine ⟨?_, by simp [callbacks], by simp, by simp, by simp⟩
      intro i cb present
      simp [callbacks] at present
  | receive state history env frame outcome reached inside keeps run ih =>
      have valid := reaches_valid reached
      obtain ⟨stats, after⟩ := afterReceive_eq outcome
      rw [after]
      obtain ⟨node, quiet⟩ | ⟨mac, admitted, effect⟩ :=
        awdlRx_changes hash env state inside valid.table run
      · rw [quiet, List.append_nil, node]
        exact ih
      · exact ih.turns (receive_turns valid effect (keeps mac admitted) addr)
  | clean state history now reached ih =>
      exact ih.turns (clean_turns (reaches_valid reached) now addr)

/-- The event that stands for a processed frame is left only by calls that return `RX_OK`. -/
theorem action_ok {hash : EtherAddr → UInt64} {env : RxEnv} {frame : Buf} {src : EtherAddr}
    {subtype : UInt8} {state : AwdlState} {outcome : RxOutcome} (valid : NodeValid hash state)
    (effect : ActionEffect hash env frame src subtype state outcome) (addr : EtherAddr)
    (kind : UInt8) (member : .action addr kind ∈ outcome.trace) : outcome.result = .ok := by
  cases effect with
  | refused => cases member
  | malformed entry events loop parsed stops table tableValid contents =>
      -- Neither an announcement nor a TLV is such an event.
      exfalso
      obtain ⟨-, -, only⟩ := parsed.kept
      have entered := parsed.entered
      rw [announcer_eq valid] at entered
      rcases List.mem_append.mp member with early | late
      · cases entered with
        | old peer found => cases announce_events _ _ _ early
        | new absent => simp at early
      · obtain ⟨type, value, result, same⟩ := only _ late
        cases same
  | done => rfl

/-- In every run in which memory shortage costs no entry, the callbacks of
each address alternate, the neighbours that are left are the valid peers, every
one of them has earned its place since its entry was created, and no two of them
share an IPv6 address. -/
theorem neighbours_mirror_valid_peers (hash : EtherAddr → UInt64) (state : AwdlState)
    (history : List RxEvent) (reached : Reaches hash (KeepsTable hash) state history) :
    (∀ addr, Alternates (callbacks addr history)) ∧
      (∀ addr, (callbacks addr history).getLast? = some .awdlNeighborAdd ↔
        ∃ peer, awdlPeerGet hash state.peers.peers addr = (.ok, some peer) ∧
          peer.isValid = true) ∧
      (∀ addr before after, history = before ++ .callback .awdlNeighborAdd addr :: after →
        Justified addr before) ∧
      (∀ env frame outcome, RadiotapInside env → awdlRx false hash env frame state = .ok outcome →
        ∀ addr subtype, .action addr subtype ∈ outcome.trace → outcome.result = .ok) ∧
      Function.Injective rfc4291Addr := by
  have valid := reaches_valid reached
  refine ⟨fun addr => (reaches_ledger reached addr).alternates, ?_,
    fun addr => (reaches_ledger reached addr).justified, ?_, rfc4291Addr_injective⟩
  · intro addr
    rw [(reaches_ledger reached addr).mirrors, awdlPeerGet_eq _ valid.table.map]
    cases state.peers.peers.contents addr with
    | none => simp
    | some peer => simp
  · intro env frame outcome inside run addr subtype member
    obtain ⟨-, quiet⟩ | ⟨mac, -, effect⟩ := awdlRx_changes hash env state inside valid.table run
    · rw [quiet] at member
      cases member
    · exact action_ok valid effect addr subtype member

section Shortage

def tightEnv : RxEnv := { zeroEnv with alloc := fun slots => slots ≤ 512 }

def versionBytes : List UInt8 := [21, 2, 0, 0x34, 1]

def lostAddr : EtherAddr := ⟨2, 0, 0, 0, 2, 198⟩

def mifFromLost : Buf := ⟨actionCapture lostAddr .mif versionBytes, by decide⟩

/-- Seven peers in the slots 248 to 254, the lost one in slot 255, one that wraps
around to slot 0 and one that finds its window full. -/
def shortageFrames : List Buf :=
  [psfFrom 1 178, psfFrom 0 109, psfFrom 0 3, psfFrom 0 1, psfFrom 1 118, psfFrom 5 70,
    psfFrom 2 25, mifFromLost, psfFrom 2 189, psfFrom 4 143]

def shortageStart : AwdlState :=
  awdlInit (Fixed.replicate _ 0) [] ⟨2, 0, 0, 0, 9, 9⟩ chanNull 0 true

/-- While the table grows, the wrapped entry takes the last slot of the window of
the lost one, the second doubling fails, and a valid peer is gone without a
callback. -/
theorem neighbour_outlives_peer : ∃ state history,
    Reaches addrHash (fun _ _ _ => True) state history ∧
      (callbacks lostAddr history).getLast? = some .awdlNeighborAdd ∧
      (awdlPeerGet addrHash state.peers.peers lostAddr).1 = .missing := by
  have shown : ((receiveAll addrHash tightEnv shortageFrames shortageStart).map fun after =>
      ((callbacks lostAddr after.2).getLast?,
        (awdlPeerGet addrHash after.1.peers.peers lostAddr).1)).toOption =
      some (some .awdlNeighborAdd, .missing) := by decide +kernel
  obtain ⟨⟨state, history⟩, run, seen⟩ := toOption_map_some shown
  injection seen with last missing
  have inside : RadiotapInside tightEnv := byteRadiotap_inside
  have reached := receiveAll_reaches inside shortageFrames shortageStart state [] history
    (.init _ _ _ _ _ _) run
  exact ⟨state, history, reached, last, missing⟩

def processAll (hash : EtherAddr → UInt64) (env : RxEnv) :
    List Buf → AwdlState → Option (AwdlState × List RxEvent)
  | [], state => some (state, [])
  | frame :: rest, state =>
      match awdlRx false hash env frame state with
      | .ok outcome =>
          if outcome.result = .ok then
            (processAll hash env rest (afterReceive outcome)).map fun after =>
              (after.1, outcome.trace ++ after.2)
          else none
      | .error _ => none

theorem processAll_reaches {hash : EtherAddr → UInt64} {env : RxEnv} (inside : RadiotapInside env)
    (frames : List Buf) (state after : AwdlState) (history trace : List RxEvent)
    (reached : Reaches hash (KeepsTable hash) state history)
    (run : processAll hash env frames state = some (after, trace)) :
    Reaches hash (KeepsTable hash) after (history ++ trace) := by
  induction frames generalizing state history trace with
  | nil =>
      cases run
      rw [List.append_nil]
      exact reached
  | cons frame rest ih =>
      rw [processAll] at run
      split at run
      case h_1 outcome first =>
        split at run
        case isTrue processed =>
          obtain ⟨pair, later, rfl, rfl⟩ : ∃ pair, processAll hash env rest (afterReceive outcome) =
              some pair ∧ pair.1 = after ∧ outcome.trace ++ pair.2 = trace := by
            simpa [Option.map_eq_some_iff, Prod.ext_iff] using run
          have keeps : KeepsTable hash env frame state := fun mac admitted =>
            processed_keepsEntries hash env state inside (reaches_valid reached).table admitted first
              processed
          have step := Reaches.receive state history env frame outcome reached inside keeps first
          rw [← List.append_assoc]
          exact ih (afterReceive outcome) _ pair.2 step later
        case isFalse => cases run
      case h_2 => cases run

/-- With memory for both doublings the same frames leave every peer in the table. -/
theorem neighbours_mirror_valid_peers_grown : ∃ state history,
    Reaches addrHash (KeepsTable addrHash) state history ∧
      state.peers.peers.slots.length = 1024 ∧ state.peers.peers.entries.length = 10 ∧
      (callbacks lostAddr history).getLast? = some .awdlNeighborAdd ∧
      ∃ peer, awdlPeerGet addrHash state.peers.peers lostAddr = (.ok, some peer) ∧
        peer.isValid = true := by
  have shown : ((processAll addrHash zeroEnv shortageFrames shortageStart).map fun after =>
      (after.1.peers.peers.slots.length, after.1.peers.peers.entries.length,
        (callbacks lostAddr after.2).getLast?)) = some (1024, 10, some .awdlNeighborAdd) := by
    decide +kernel
  obtain ⟨⟨state, history⟩, run, seen⟩ := Option.map_eq_some_iff.mp shown
  simp only [Prod.mk.injEq] at seen
  obtain ⟨slots, entries, last⟩ := seen
  have inside : RadiotapInside zeroEnv := byteRadiotap_inside
  have reached := processAll_reaches inside shortageFrames shortageStart state [] history
    (.init _ _ _ _ _ _) run
  rw [List.nil_append] at reached
  refine ⟨state, history, reached, slots, entries, last, ?_⟩
  exact ((neighbours_mirror_valid_peers addrHash state history reached).2.1 lostAddr).mp last

end Shortage

end Owl.Neighbors
