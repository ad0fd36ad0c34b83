import Owl.DaemonTrace
import Owl.Print

/-!
What holds of every entry in the peer table of a running daemon. An entry is made by
`awdl_peer_new`, changed by the TLV handlers, and marked with the time of its last
frame, with its first MIF and as valid; so a property that all of these keep holds of
the whole table after any calls. No handler sets `sync_offset`: the slots of a peer
are taken at the time of the node itself. And every name is a C string, as the
printers rely on: `awdl_peer_new` starts with an empty one, and only
`awdl_handle_arpa_tlv` stores another, with the NUL that `read_int_string` adds.
-/

namespace Owl.PeerEntries

open Bytes Ether Channel Sync Peers PeersRefine Wire State Frames RxTlv Rx RxSpec RxData RxAction RxPeers Daemon
  Transmit RoundTrip ActionRoundTrip Siphash DaemonRun DaemonTrace Print BoundedText

structure EntryInvariant (property : Peer → Prop) : Prop where
  fresh : ∀ memory addr, property (awdlPeerNew memory addr)
  handled : ∀ long list src type val state tsft, property src →
    Ensures (awdlHandleTlv long list src type val state tsft) fun result => property result.2.1
  marked : ∀ peer lastUpdate sentMif isValid, property peer →
    property { peer with lastUpdate := lastUpdate, sentMif := sentMif, isValid := isValid }

def Entries (property : Peer → Prop) (state : AwdlState) : Prop :=
  ∀ addr peer, state.peers.peers.contents addr = some peer → property peer

theorem performed_apart {hash : EtherAddr → UInt64} {own : EtherAddr} {start state : DaemonState}
    {reports : List Report} (run : Performed hash start reports state)
    (apart : Apart hash own start.awdlState) : Apart hash own state.awdlState := by
  induction run with
  | start => exact apart
  | step run turn inside performed ih => exact (perform_changes ih inside performed).apart ih

section Invariant

variable {property : Peer → Prop} (invariant : EntryInvariant property)

include invariant

theorem tlvLoop_entry (env : RxEnv) (fuel : Nat) (frame : Buf) (peer : Peer) (state : AwdlState)
    (holds : property peer) :
    Ensures (tlvLoop env fuel frame peer state) fun loop => property loop.peer := by
  induction fuel generalizing frame peer state with
  | zero => exact .ok holds
  | succ fuel ih =>
      rw [tlvLoop, tlvRound_eq]
      cases nextTlv frame with
      | none => exact .ok holds
      | some cut =>
          obtain ⟨type, val, rest⟩ := cut
          refine .bind (invariant.handled env.long _ peer type val state env.now holds)
            fun handled after => ?_
          dsimp only
          split
          · exact .ok after
          · exact .bind (ih rest handled.2.1 handled.2.2 after) fun loop later => .ok later

theorem announce_entry {Event : Type} (cb : Option (Peer → Event)) (peer : Peer)
    (holds : property peer) : property (announce cb peer).1 := by
  rw [announce_only]
  exact invariant.marked peer peer.lastUpdate peer.sentMif _ holds

theorem actionEffect_entries {hash : EtherAddr → UInt64} {env : RxEnv} {frame : Buf}
    {addr : EtherAddr} {subtype : UInt8} {state : AwdlState} {outcome : RxOutcome}
    (effect : ActionEffect hash env frame addr subtype state outcome)
    (entries : Entries property state) : Entries property outcome.state := by
  have parsedHolds : ∀ entry events loop, Parsed env frame addr state entry events loop →
      property loop.peer := by
    rintro entry events loop ⟨entered, table, run⟩
    refine tlvLoop_entry invariant env _ frame entry _ ?_ loop run
    cases entered with
    | old peer found =>
        exact announce_entry invariant _ _
          (invariant.marked peer env.now peer.sentMif peer.isValid (entries addr peer found))
    | new absent =>
        exact invariant.marked _ env.now false false (invariant.fresh env.memory addr)
  unfold Entries
  cases effect with
  | refused table tableValid full absent fewer =>
      exact fun other peer present => entries other peer (fewer other peer present)
  | malformed entry events loop parsed stops table tableValid contents =>
      rw [withTable_peers, contents]
      refine update_keeps entries ?_
      rintro _ ⟨⟩
      exact parsedHolds entry events loop parsed
  | done entry events loop parsed complete empty table tableValid last again turned contents =>
      rw [withTable_peers, contents]
      refine update_keeps entries ?_
      rintro _ ⟨⟩
      have same : last = _ := congrArg Prod.fst turned
      rw [same, markMif_only]
      exact announce_entry invariant _ _
        (invariant.marked loop.peer env.now _ loop.peer.isValid (parsedHolds entry events loop parsed))

theorem changes_entries {hash : EtherAddr → UInt64} {own : EtherAddr} {record : Record}
    (changes : Changes hash record) (apart : Apart hash own record.before)
    (entries : Entries property record.before) : Entries property record.after := by
  cases changes with
  | quiet record same silent =>
      obtain ⟨_, _, _, after⟩ := same
      rw [after]
      exact entries
  | admitted before env frame mac outcome stats admits effect =>
      exact actionEffect_entries invariant effect entries
  | cleaned before now =>
      intro addr peer present
      rw [awdlCleanPeers_contents now apart.valid.table addr] at present
      exact entries addr peer (Option.filter_eq_some_iff.mp present).1

theorem performed_entries {hash : EtherAddr → UInt64} {own : EtherAddr} {start state : DaemonState}
    {reports : List Report} (run : Performed hash start reports state)
    (apart : Apart hash own start.awdlState) (entries : Entries property start.awdlState) :
    Entries property state.awdlState := by
  induction run with
  | start => exact entries
  | step run turn inside performed ih =>
      have before := performed_apart run apart
      exact changes_entries invariant (perform_changes before inside performed) before ih

end Invariant

/-- A read that is tested at once. -/
theorem ensures_read {α β : Type} {first : Except Fault (Option α)}
    {next : Option α → Except Fault β} {property : β → Prop} (short : Ensures (next none) property)
    (holds : ∀ value, Ensures (next (some value)) property) : Ensures (first >>= next) property := by
  refine .andThen fun value => ?_
  cases value with
  | none => exact short
  | some value => exact holds value

section Fields

variable (src : Peer) (val : Buf) (state : AwdlState)

def Keeps (result : RxResult × Peer × AwdlState) : Prop :=
  result.2.1.name = src.name ∧ result.2.1.syncOffset = src.syncOffset

/-- Only `awdl_handle_arpa_tlv` stores a name, and no handler an offset. -/
theorem awdlHandleTlv_keeps (long : LongWidth) (list : ChanSeq) (type : UInt8) (tsft : UInt64)
    (other : type ≠ TlvType.arpa.code) :
    Ensures (awdlHandleTlv long list src type val state tsft) (Keeps src) := by
  unfold awdlHandleTlv
  split
  · unfold awdlHandleSyncParamsTlv
    repeat' (first | exact .ok ⟨rfl, rfl⟩ | refine ensures_read ?_ fun _ => ?_ | dsimp only | split)
  split
  · unfold awdlHandleChanseqTlv
    repeat' (first | exact .ok ⟨rfl, rfl⟩ | refine ensures_read ?_ fun _ => ?_ | dsimp only | split)
  split
  · unfold awdlHandleElectionParamsTlv
    repeat' (first | exact .ok ⟨rfl, rfl⟩ | refine ensures_read ?_ fun _ => ?_ | dsimp only | split)
  split
  · unfold awdlHandleElectionParamsV2Tlv
    repeat' (first | exact .ok ⟨rfl, rfl⟩ | refine ensures_read ?_ fun _ => ?_)
  split
  · unfold awdlHandleDataPathStateTlv
    repeat' (first | exact .ok ⟨rfl, rfl⟩ | refine ensures_read ?_ fun _ => ?_)
  split
  · unfold awdlHandleVersionTlv
    repeat' (first | exact .ok ⟨rfl, rfl⟩ | refine ensures_read ?_ fun _ => ?_)
  · exact .ok ⟨rfl, rfl⟩

theorem awdlHandleTlv_arpa (long : LongWidth) (list : ChanSeq) (tsft : UInt64) :
    awdlHandleTlv long list src TlvType.arpa.code val state tsft = awdlHandleArpaTlv src val state :=
  rfl

end Fields

section Offset

/-- The peer is taken to run with the clock of the node. -/
def Unshifted (peer : Peer) : Prop := peer.syncOffset = 0

theorem awdlHandleArpaTlv_offset (src : Peer) (val : Buf) (state : AwdlState) :
    Ensures (awdlHandleArpaTlv src val state) fun result =>
      result.2.1.syncOffset = src.syncOffset := by
  unfold awdlHandleArpaTlv
  repeat' (first | exact .ok rfl | refine ensures_read ?_ fun _ => ?_)

theorem unshifted_invariant : EntryInvariant Unshifted where
  fresh _ _ := rfl
  handled long list src type val state tsft unshifted := by
    by_cases arpa : type = TlvType.arpa.code
    · subst arpa
      rw [awdlHandleTlv_arpa]
      exact fun result run => (awdlHandleArpaTlv_offset src val state result run).trans unshifted
    · exact fun result run =>
        (awdlHandleTlv_keeps src val state long list type tsft arpa result run).2.trans unshifted
  marked _ _ _ _ unshifted := unshifted

end Offset

section Names

def Named (peer : Peer) : Prop := 0 ∈ peer.name.toList

theorem storeField_named {n : Nat} (field : Fixed UInt8 n) (offset : Nat) :
    Ensures (storeField field offset [0]) fun after => 0 ∈ Fixed.toList after := by
  unfold storeField
  cases kept : field.store offset [0] with
  | none => exact .error _
  | some after =>
      refine .ok ?_
      rw [Fixed.store_toList field after offset [0] kept]
      simp

/-- The string that is read ends with the NUL that `read_int_string` adds. -/
theorem readIntString_named {n : Nat} (val : Buf) (offset : Int) (str : Fixed UInt8 n) (length : Int) :
    Ensures (readIntString val offset str length) fun read =>
      ∀ name, read = some name → 0 ∈ Fixed.toList name := by
  unfold readIntString
  refine ensures_read (.ok (by simp)) fun len => ?_
  refine ensures_read (.ok (by simp)) fun copied => ?_
  refine .bind (storeField_named copied _) fun after ends => .ok ?_
  rintro _ ⟨⟩
  exact ends

theorem awdlHandleArpaTlv_named (src : Peer) (val : Buf) (state : AwdlState) (named : Named src) :
    Ensures (awdlHandleArpaTlv src val state) fun result => Named result.2.1 := by
  unfold awdlHandleArpaTlv
  refine .bind (readIntString_named val 1 src.name hostNameLengthMax) fun read ends => ?_
  cases read with
  | none => exact .ok named
  | some name => exact .ok (ends name rfl)

theorem named_invariant : EntryInvariant Named where
  fresh _ _ := List.mem_cons_self
  handled long list src type val state tsft named := by
    by_cases arpa : type = TlvType.arpa.code
    · subst arpa
      rw [awdlHandleTlv_arpa]
      exact awdlHandleArpaTlv_named src val state named
    · intro result run
      have same := (awdlHandleTlv_keeps src val state long list type tsft arpa result run).1
      unfold Named
      rw [same]
      exact named
  marked _ _ _ _ named := named

variable (memory : Fixed UInt8 (hostNameLengthMax + 1)) (slots : Fin txQueueLength → Buf)
  (hostname : List UInt8) (self : EtherAddr) (chan : AwdlChan) (now : UInt64) (filterRssi : Bool)

/-- The table of a running daemon can be printed into any buffer, at any time. -/
theorem running_peers_print (hash : EtherAddr → UInt64) (reports : List Report) (state : DaemonState)
    (run : Performed hash (daemonInit memory slots hostname self chan now filterRssi) reports state)
    (str : List UInt8) (offset len : Nat) (positive : 1 ≤ len) (int : len < 2 ^ 31)
    (room : offset + len ≤ str.length)
    (small : (peersText (awdlPeersIterate state.awdlState.peers.peers)).length < 2 ^ 31) :
    awdlPeersPrint state.awdlState.peers.peers str offset len =
      .ok ((peersText (awdlPeersIterate state.awdlState.peers.peers)).length,
        shown 0 str offset len (peersText (awdlPeersIterate state.awdlState.peers.peers))) := by
  have apart := daemonInit_apart hash memory slots hostname self chan now filterRssi
  have named := performed_entries named_invariant run apart fun addr first present => by
    rw [show (daemonInit memory slots hostname self chan now filterRssi).awdlState =
      awdlInit memory hostname self chan now filterRssi from rfl, awdlInit_absent] at present
    cases present
  have table : TableValid hash state.awdlState.peers.peers := (performed_apart run apart).valid.table
  refine awdlPeersPrint_shown room positive int state.awdlState.peers.peers ?_ small
  intro peer listed
  exact named peer.addr peer ((mem_awdlPeersIterate _ table peer).mp listed)

def namedCapture : Buf :=
  ⟨actionCapture peerAddr .psf [0x10, 7, 0, 3, 3, 0x6f, 0x77, 0x6c, 0xc0, 0x0c], by decide⟩

/-- The daemon has learnt the name, and the buffer cuts the text. -/
theorem running_peers_print_named : ∃ reports state,
    Performed addrHash chatterStart reports state ∧
      awdlPeersPrint state.awdlState.peers.peers (List.replicate 24 0xff) (4 : Nat) (16 : Nat) =
        .ok (33, List.replicate 4 0xff ++ (ascii "owl: 2:0:0:0:0:" ++ [0]) ++
          List.replicate 4 0xff) := by
  have shown : ((performAll addrHash (chatterTurns ++ [.receiveFrame zeroEnv namedCapture])
      chatterStart).map fun done => peersText (awdlPeersIterate done.2.awdlState.peers.peers)).toOption =
        some (ascii "owl: 2:0:0:0:0:2 (met 60, ctr 0)\n") := by decide +kernel
  obtain ⟨⟨reports, state⟩, ends, text⟩ := toOption_map_some shown
  have inside : ∀ turn ∈ chatterTurns ++ [.receiveFrame zeroEnv namedCapture], turn.Inside := by
    intro turn member
    rcases List.mem_append.mp member with chatter | naming
    · exact chatterTurns_inside turn chatter
    · rw [List.mem_singleton.mp naming]
      exact byteRadiotap_inside
  have run := performAll_performed inside .start ends
  have printed := running_peers_print _ _ _ _ _ _ _ addrHash reports state run
    (List.replicate 24 0xff) 4 16 (by decide) (by decide) (by decide) (by rw [text]; decide)
  rw [text] at printed
  exact ⟨reports, state, run, printed.trans (by decide +kernel)⟩

end Names

end Owl.PeerEntries
