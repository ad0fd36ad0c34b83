import Owl.Peers
import Owl.HashmapRefine
import Owl.Scan
import Mathlib.Data.Prod.Lex

/-!
`awdl_election_run`: one scan over the peer table. The running `master_state`
of the C loop points either to the node's own reset state or to the election
state of a peer; here it is `none` or that state. The tree printed to the log
afterwards is left out. The scan is an instance of `Scan.scan` for the
lexicographic key (top-master counter and metric, smaller height, larger
address).
-/

namespace Owl.ElectionRun

open Ether Election Peers Hashmap

def consider (state : ElectionState) (masterState : Option ElectionState) (peer : Peer) :
    Option ElectionState :=
  let peerState := peer.election
  let master := masterState.getD state
  if !peer.isValid then masterState
  else if peerState.height + 1 > awdlElectionTreeMaxHeight then masterState
  else if awdlElectionIsSyncMaster peerState state.selfAddr then masterState
  else match awdlElectionCompareMaster peerState master with
    -- Counter and metric decide first; only a tie looks at height and address.
    | .lt => masterState
    | .eq =>
        if peerState.height > master.height then masterState
        else if peerState.height = master.height then
          -- The larger address wins, which also settles the scan order.
          if compareEtherAddr peerState.selfAddr master.selfAddr ≠ .gt then masterState
          else some peerState
        else some peerState
    | .gt => some peerState

def adopt (state master : ElectionState) : ElectionState :=
  { state with
    masterAddr := master.masterAddr
    syncAddr := master.selfAddr
    masterMetric := master.masterMetric
    masterCounter := master.masterCounter
    height := master.height + 1 }

@[simp] theorem adopt_rank (state master : ElectionState) :
    (adopt state master).rank = master.rank := rfl

/-- The 32-bit increment of a small height is exact. -/
theorem adopt_height (state master : ElectionState) (small : master.height.toNat ≤ 10) :
    (adopt state master).height.toNat = master.height.toNat + 1 := by
  simp only [adopt, UInt32.toNat_add]
  have one : (1 : UInt32).toNat = 1 := rfl
  omega

def electionOver (state : ElectionState) (peers : List Peer) : ElectionState :=
  let reset := awdlElectionResetSelf state
  match peers.foldl (consider reset) none with
  | none => reset
  | some master => adopt reset master

def awdlElectionRun (state : ElectionState) (peers : PeerMap) : ElectionState :=
  electionOver state (awdlPeersIterate peers)

structure Eligible (own : EtherAddr) (peer : Peer) : Prop where
  valid : peer.isValid = true
  room : peer.election.height + 1 ≤ awdlElectionTreeMaxHeight
  notChild : peer.election.syncAddr ≠ own

instance (own : EtherAddr) (peer : Peer) : Decidable (Eligible own peer) :=
  decidable_of_iff (peer.isValid = true ∧ peer.election.height + 1 ≤ awdlElectionTreeMaxHeight ∧
    peer.election.syncAddr ≠ own)
    ⟨fun parts => ⟨parts.1, parts.2.1, parts.2.2⟩,
      fun parts => ⟨parts.valid, parts.room, parts.notChild⟩⟩

def key (state : ElectionState) : ℕ ×ₗ (ℕᵒᵈ ×ₗ ℕ) :=
  toLex (state.rank, toLex (OrderDual.toDual state.height.toNat, state.selfAddr.value))

theorem key_lt_iff (a b : ElectionState) :
    key a < key b ↔ a.rank < b.rank ∨ a.rank = b.rank ∧
      (b.height.toNat < a.height.toNat ∨
        b.height.toNat = a.height.toNat ∧ a.selfAddr.value < b.selfAddr.value) := by
  simp only [key, Prod.Lex.toLex_lt_toLex, OrderDual.toDual_lt_toDual, OrderDual.toDual_inj]
  grind

theorem key_le_iff (a b : ElectionState) :
    key a ≤ key b ↔ a.rank < b.rank ∨ a.rank = b.rank ∧
      (b.height.toNat < a.height.toNat ∨
        b.height.toNat = a.height.toNat ∧ a.selfAddr.value ≤ b.selfAddr.value) := by
  simp only [key, Prod.Lex.toLex_le_toLex, OrderDual.toDual_lt_toDual, OrderDual.toDual_inj]
  grind

def offer (own : EtherAddr) (peer : Peer) : Option ElectionState :=
  if Eligible own peer then some peer.election else none

theorem offer_iff (own : EtherAddr) (peer : Peer) (state : ElectionState) :
    offer own peer = some state ↔ Eligible own peer ∧ peer.election = state := by
  unfold offer
  split
  case isTrue eligible => simp [eligible]
  case isFalse rejected => simp [rejected]

/-- The nested comparisons of the loop are one strict comparison of keys. -/
theorem consider_step (state : ElectionState) (masterState : Option ElectionState) (peer : Peer) :
    consider state masterState peer =
      Scan.step key (offer state.selfAddr) state masterState peer := by
  by_cases eligible : Eligible state.selfAddr peer
  · have accepted := (offer_iff state.selfAddr peer _).mpr ⟨eligible, rfl⟩
    have valid := eligible.valid
    have room : ¬ peer.election.height + 1 > awdlElectionTreeMaxHeight := by
      have := eligible.room
      simpa using this
    have child : awdlElectionIsSyncMaster peer.election state.selfAddr = false := by
      rw [Bool.eq_false_iff]
      exact mt (isSyncMaster_iff _ _).mp eligible.notChild
    -- Both sides in numbers; the three-way splits below follow the C comparison.
    simp only [consider, Scan.step, accepted, valid, room, child, compareMaster_rank,
      compareEtherAddr_value, key_lt_iff, Bool.not_true, Bool.false_eq_true, ↓reduceIte,
      ← UInt32.toNat_inj, UInt32.lt_iff_toNat_lt, GT.gt, Nat.compare_eq_ite_lt]
    generalize masterState.getD state = master
    rcases lt_trichotomy peer.election.rank master.rank with lower | same | higher
    · have notHigher : ¬ master.rank < peer.election.rank := by omega
      have different : master.rank ≠ peer.election.rank := by omega
      simp [lower, notHigher, different]
    · simp only [same, lt_irrefl, ↓reduceIte, false_or, true_and]
      rcases lt_trichotomy peer.election.height.toNat master.height.toNat with less | equal | more
      · simp [less, Nat.not_lt_of_lt less, Nat.ne_of_lt less]
      · by_cases larger : master.selfAddr.value < peer.election.selfAddr.value
        · simp [equal, larger, Nat.not_lt_of_lt larger]
        · simp only [equal, larger, lt_irrefl, ↓reduceIte, and_false, or_false]
          split <;> simp
      · simp [more, Nat.not_lt_of_lt more, Nat.ne_of_gt more]
    · simp [higher, Nat.not_lt_of_lt higher]
  · have skipped : offer state.selfAddr peer = none := if_neg eligible
    simp only [Scan.step, skipped, consider]
    by_cases valid : peer.isValid = true
    · by_cases room : peer.election.height + 1 > awdlElectionTreeMaxHeight
      · simp [valid, room]
      · have child : awdlElectionIsSyncMaster peer.election state.selfAddr = true := by
          rw [isSyncMaster_iff]
          by_contra notChild
          exact eligible ⟨valid, by simpa using room, notChild⟩
        simp [valid, room, child]
    · simp [valid]

inductive Outcome (state : ElectionState) (peers : List Peer) : ElectionState → Prop where
  | own (upper : ∀ peer ∈ peers, Eligible state.selfAddr peer →
      key peer.election ≤ key (awdlElectionResetSelf state)) :
      Outcome state peers (awdlElectionResetSelf state)
  | follow (winner : Peer) (member : winner ∈ peers) (eligible : Eligible state.selfAddr winner)
      (above : key (awdlElectionResetSelf state) < key winner.election)
      (upper : ∀ peer ∈ peers, Eligible state.selfAddr peer →
        key peer.election ≤ key winner.election) :
      Outcome state peers (adopt (awdlElectionResetSelf state) winner.election)

theorem electionOver_outcome (state : ElectionState) (peers : List Peer) :
    Outcome state peers (electionOver state peers) := by
  have rounds : consider (awdlElectionResetSelf state) =
      Scan.step key (offer state.selfAddr) (awdlElectionResetSelf state) := by
    funext masterState peer
    exact consider_step _ masterState peer
  have best := Scan.scan_best key (offer state.selfAddr) (awdlElectionResetSelf state) peers
  simp only [electionOver, rounds]
  rw [Scan.scan] at best
  cases found : peers.foldl
      (Scan.step key (offer state.selfAddr) (awdlElectionResetSelf state)) none with
  | none =>
      rw [found] at best
      apply Outcome.own
      intro peer member eligible
      exact best.upper peer member _ ((offer_iff _ _ _).mpr ⟨eligible, rfl⟩)
  | some master =>
      rw [found] at best
      obtain ⟨winner, member, admitted⟩ := best.source master rfl
      obtain ⟨eligible, same⟩ := (offer_iff _ _ _).mp admitted
      have above := best.above master rfl
      subst same
      apply Outcome.follow winner member eligible above
      intro peer present candidate
      exact best.upper peer present _ ((offer_iff _ _ _).mpr ⟨candidate, rfl⟩)

@[simp] theorem electionOver_selfAddr (state : ElectionState) (peers : List Peer) :
    (electionOver state peers).selfAddr = state.selfAddr := by
  unfold electionOver
  dsimp only
  split <;> rfl

@[simp] theorem electionOver_selfRank (state : ElectionState) (peers : List Peer) :
    (electionOver state peers).selfRank = state.selfRank := by
  unfold electionOver
  dsimp only
  split <;> rfl

end Owl.ElectionRun
