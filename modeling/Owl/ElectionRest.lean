import Owl.ElectionRun
import Mathlib.Combinatorics.SimpleGraph.Metric
import Mathlib.Data.Fintype.Lattice

/-!
Networks at rest. Every node's table holds exactly its neighbours, valid and
with their current election state, and a further `awdl_election_run` changes
no node. Such a state is characterised only as a fixpoint, so nothing is known
about masters, heights or sync addresses beforehand. Each node is then either
its own master or one hop behind a neighbour; following the sync addresses
ends at a node that advertises its own counter and metric. Both results below
compare these roots.
-/

namespace Owl.ElectionRest

open Ether Election Peers ElectionRun

variable {Node : Type} {G : SimpleGraph Node} {addr : Node → EtherAddr}
  {state : Node → ElectionState} {peers : Node → PeerMap}

/-- The tables mirror the links and no election changes anything. -/
structure AtRest (G : SimpleGraph Node) (addr : Node → EtherAddr)
    (state : Node → ElectionState) (peers : Node → PeerMap) : Prop where
  distinct : Function.Injective addr
  own : ∀ i, (state i).selfAddr = addr i
  entries : ∀ i, ∀ peer ∈ awdlPeersIterate (peers i),
    peer.isValid = true ∧ ∃ j, G.Adj i j ∧ peer.addr = addr j ∧ peer.election = state j
  heard : ∀ i j, G.Adj i j →
    ∃ peer ∈ awdlPeersIterate (peers i), peer.addr = addr j ∧ peer.election = state j
  fixed : ∀ i, awdlElectionRun (state i) (peers i) = state i

def Candidate (addr : Node → EtherAddr) (state : Node → ElectionState) (i j : Node) : Prop :=
  (state j).height + 1 ≤ awdlElectionTreeMaxHeight ∧ (state j).syncAddr ≠ addr i

inductive Position (G : SimpleGraph Node) (addr : Node → EtherAddr)
    (state : Node → ElectionState) (i : Node) : Prop where
  | root (reset : state i = awdlElectionResetSelf (state i))
      (upper : ∀ j, G.Adj i j → Candidate addr state i j →
        key (state j) ≤ key (awdlElectionResetSelf (state i)))
  | behind (j : Node) (link : G.Adj i j) (candidate : Candidate addr state i j)
      (adopted : state i = adopt (awdlElectionResetSelf (state i)) (state j))
      (above : key (awdlElectionResetSelf (state i)) < key (state j))
      (upper : ∀ k, G.Adj i k → Candidate addr state i k → key (state k) ≤ key (state j))

theorem position (rest : AtRest G addr state peers) (i : Node) : Position G addr state i := by
  have outcome := electionOver_outcome (state i) (awdlPeersIterate (peers i))
  have fixed := rest.fixed i
  unfold awdlElectionRun at fixed
  -- In a network at rest candidates and eligible entries are the same.
  have neighbour : ∀ j, G.Adj i j → Candidate addr state i j →
      ∃ peer ∈ awdlPeersIterate (peers i), Eligible (state i).selfAddr peer ∧
        peer.election = state j := by
    intro j link candidate
    obtain ⟨peer, member, -, same⟩ := rest.heard i j link
    refine ⟨peer, member, ⟨(rest.entries i peer member).1, ?_, ?_⟩, same⟩
    · rw [same]; exact candidate.1
    · rw [same, rest.own]; exact candidate.2
  generalize electionOver (state i) (awdlPeersIterate (peers i)) = result at outcome fixed
  cases outcome with
  | own upper =>
      apply Position.root fixed.symm
      intro j link candidate
      obtain ⟨peer, member, eligible, same⟩ := neighbour j link candidate
      rw [← same]
      exact upper peer member eligible
  | follow winner member eligible above upper =>
      obtain ⟨-, j, link, -, same⟩ := rest.entries i winner member
      have candidate : Candidate addr state i j := by
        rw [Candidate, ← same, ← rest.own]
        exact ⟨eligible.room, eligible.notChild⟩
      rw [same] at above upper fixed
      refine Position.behind j link candidate fixed.symm above ?_
      intro k other known
      obtain ⟨peer, present, known', equal⟩ := neighbour k other known
      rw [← equal]
      exact upper peer present known'

theorem height_bound (rest : AtRest G addr state peers) (i : Node) :
    (state i).height.toNat ≤ 10 := by
  cases position rest i with
  | root reset _ =>
      rw [reset]
      simp
  | behind j _ candidate adopted _ _ =>
      have bound := candidate.1
      rw [UInt32.le_iff_toNat_le] at bound
      rw [adopted]
      exact bound

theorem adopted_height (rest : AtRest G addr state peers) (i j : Node)
    (adopted : state i = adopt (awdlElectionResetSelf (state i)) (state j)) :
    (state i).height.toNat = (state j).height.toNat + 1 := by
  conv_lhs => rw [adopted]
  exact adopt_height _ _ (height_bound rest j)

theorem root_rank (i : Node) (reset : state i = awdlElectionResetSelf (state i)) :
    (state i).rank = (state i).selfRank := by
  conv_lhs => rw [reset]
  exact resetSelf_rank _

theorem root_height (i : Node) (reset : state i = awdlElectionResetSelf (state i)) :
    (state i).height.toNat = 0 := by
  rw [reset]
  rfl

/-- The sync chain of a node ends at a root after as many links as its height
says, and the root's own values are what the node advertises. -/
theorem chain_root (rest : AtRest G addr state peers) (i : Node) :
    ∃ r, (state i).rank = (state r).selfRank ∧ (state i).masterAddr = addr r ∧
      (state i).masterCounter = (state r).selfCounter ∧
      (state i).masterMetric = (state r).selfMetric ∧
      ∃ walk : G.Walk i r, walk.length = (state i).height.toNat := by
  -- By induction on the height, which each hop lowers by one.
  generalize steps : (state i).height.toNat = height
  induction height generalizing i with
  | zero =>
      cases position rest i with
      | root reset _ =>
          refine ⟨i, root_rank i reset, ?_, ?_, ?_, SimpleGraph.Walk.nil, rfl⟩
          · rw [reset, ← rest.own]; rfl
          · rw [reset]; rfl
          · rw [reset]; rfl
      | behind j _ _ adopted _ _ =>
          have higher := adopted_height rest i j adopted
          omega
  | succ height ih =>
      cases position rest i with
      | root reset _ =>
          have zero := root_height i reset
          omega
      | behind j link _ adopted _ _ =>
          have higher := adopted_height rest i j adopted
          obtain ⟨r, rank, master, counter, metric, walk, length⟩ := ih j (by omega)
          refine ⟨r, ?_, ?_, ?_, ?_, SimpleGraph.Walk.cons link walk, ?_⟩
          · rw [adopted]; exact rank
          · rw [adopted]; exact master
          · rw [adopted]; exact counter
          · rw [adopted]; exact metric
          · simp [length]

def selfPair (s : ElectionState) : ℕ ×ₗ ℕ := toLex (s.selfCounter.toNat, s.selfMetric.toNat)

def selfTriple (s : ElectionState) : ℕ ×ₗ (ℕ ×ₗ ℕ) :=
  toLex (s.selfCounter.toNat, toLex (s.selfMetric.toNat, s.selfAddr.value))

theorem selfPair_lt_iff (a b : ElectionState) : selfPair a < selfPair b ↔ a.selfRank < b.selfRank := by
  have aMetric := a.selfMetric.toNat_lt
  have bMetric := b.selfMetric.toNat_lt
  simp only [selfPair, Prod.Lex.toLex_lt_toLex, ElectionState.selfRank]
  omega

theorem selfTriple_le_iff (a b : ElectionState) :
    selfTriple a ≤ selfTriple b ↔ a.selfRank < b.selfRank ∨
      a.selfRank = b.selfRank ∧ a.selfAddr.value ≤ b.selfAddr.value := by
  have aMetric := a.selfMetric.toNat_lt
  have bMetric := b.selfMetric.toNat_lt
  simp only [selfTriple, Prod.Lex.toLex_le_toLex, ElectionState.selfRank]
  omega

section Multihop

variable {M : Node} (largest : ∀ j, j ≠ M → selfPair (state j) < selfPair (state M))
include largest

theorem selfRank_le (j : Node) : (state j).selfRank ≤ (state M).selfRank := by
  by_cases same : j = M
  · rw [same]
  · exact le_of_lt ((selfPair_lt_iff _ _).mp (largest j same))

theorem selfRank_eq (j : Node) (equal : (state j).selfRank = (state M).selfRank) : j = M := by
  by_contra different
  have less := (selfPair_lt_iff _ _).mp (largest j different)
  omega

variable (rest : AtRest G addr state peers)
include rest

theorem rank_le (j : Node) : (state j).rank ≤ (state M).selfRank := by
  obtain ⟨r, rank, -⟩ := chain_root rest j
  rw [rank]
  exact selfRank_le largest r

/-- A node that advertises the largest values has M at the end of its chain. -/
theorem chain_to_largest (j : Node) (rank : (state j).rank = (state M).selfRank) :
    (state j).masterAddr = addr M ∧ (state j).masterCounter = (state M).selfCounter ∧
      (state j).masterMetric = (state M).selfMetric ∧ G.Reachable j M ∧
      G.dist j M ≤ (state j).height.toNat := by
  obtain ⟨r, value, master, counter, metric, walk, length⟩ := chain_root rest j
  have same : r = M := selfRank_eq largest r (by omega)
  subst same
  exact ⟨master, counter, metric, ⟨walk⟩, by rw [← length]; exact SimpleGraph.dist_le walk⟩

theorem largest_is_root : state M = awdlElectionResetSelf (state M) := by
  cases position rest M with
  | root reset _ => exact reset
  | behind j link _ _ above _ =>
      exfalso
      rw [key_lt_iff] at above
      simp only [resetSelf_rank, resetSelf_height, resetSelf_selfAddr] at above
      have bound := rank_le largest rest j
      have zero : (0 : UInt32).toNat = 0 := rfl
      -- A neighbour with the same rank at height 0 would be M itself.
      cases position rest j with
      | root reset _ =>
          have rank := root_rank j reset
          have same := selfRank_eq largest j (by omega)
          exact G.loopless.irrefl M (same ▸ link)
      | behind k _ _ adopted _ _ =>
          have higher := adopted_height rest j k adopted
          omega

/-- The induction over the hop distance. The neighbour one hop closer is a
candidate, so the winner advertises M; its height cannot be below its own
distance, hence it is one hop closer as well. -/
theorem settled (d : Nat) (near : d ≤ 10) (i : Node) (reach : G.Reachable i M)
    (distance : G.dist i M = d) :
    (state i).rank = (state M).selfRank ∧ (state i).height.toNat = d ∧
      (0 < d → ∃ j, G.Adj i j ∧ G.Reachable j M ∧ G.dist j M + 1 = d ∧
        (state i).syncAddr = addr j) := by
  induction d generalizing i with
  | zero =>
      have same : i = M := reach.dist_eq_zero_iff.mp distance
      subst same
      have reset := largest_is_root largest rest
      exact ⟨root_rank i reset, root_height i reset, fun positive => absurd positive (lt_irrefl 0)⟩
  | succ d ih =>
      obtain ⟨walk, length⟩ := reach.exists_walk_length_eq_dist
      obtain ⟨closer, link, tail, tailLength⟩ :
          ∃ closer, G.Adj i closer ∧ ∃ tail : G.Walk closer M, tail.length = d := by
        cases walk with
        | nil => rw [SimpleGraph.dist_self] at distance; omega
        | cons link tail =>
            rw [SimpleGraph.Walk.length_cons] at length
            exact ⟨_, link, tail, by omega⟩
      have upper : G.dist closer M ≤ d := tailLength ▸ SimpleGraph.dist_le tail
      have lower : d ≤ G.dist closer M := by
        obtain ⟨short, shortLength⟩ := tail.reachable.exists_walk_length_eq_dist
        have through := SimpleGraph.dist_le (SimpleGraph.Walk.cons link short)
        simp only [SimpleGraph.Walk.length_cons] at through
        omega
      obtain ⟨closerRank, closerHeight, closerSync⟩ :=
        ih (by omega) closer tail.reachable (by omega)
      -- The closer neighbour follows M or a node closer still, never this one.
      have notChild : (state closer).syncAddr ≠ addr i := by
        intro child
        by_cases first : d = 0
        · have same : closer = M := tail.reachable.dist_eq_zero_iff.mp (by omega)
          subst same
          rw [largest_is_root largest rest, resetSelf_syncAddr, rest.own] at child
          have loop : closer = i := rest.distinct child
          rw [loop, SimpleGraph.dist_self] at distance
          omega
        · obtain ⟨next, -, -, nextDistance, nextSync⟩ := closerSync (by omega)
          have same : next = i := rest.distinct (nextSync ▸ child)
          subst same
          omega
      have candidate : Candidate addr state i closer := by
        refine ⟨?_, notChild⟩
        rw [UInt32.le_iff_toNat_le, UInt32.toNat_add, closerHeight]
        have one : (1 : UInt32).toNat = 1 := rfl
        have ten : awdlElectionTreeMaxHeight.toNat = 10 := rfl
        omega
      cases position rest i with
      | root reset best =>
          have bound := (key_le_iff _ _).mp (best closer link candidate)
          simp only [resetSelf_rank, closerRank] at bound
          have top := selfRank_le largest i
          have same := selfRank_eq largest i (by omega)
          rw [same, SimpleGraph.dist_self] at distance
          omega
      | behind j edge _ adopted _ best =>
          have bound := (key_le_iff _ _).mp (best closer link candidate)
          rw [closerRank, closerHeight] at bound
          have top := rank_le largest rest j
          -- The winner has at most this rank and height, which M's distance bounds from below.
          obtain ⟨-, -, -, jReach, jDistance⟩ := chain_to_largest largest rest j (by omega)
          obtain ⟨short, shortLength⟩ := jReach.exists_walk_length_eq_dist
          have through := SimpleGraph.dist_le (SimpleGraph.Walk.cons edge short)
          simp only [SimpleGraph.Walk.length_cons] at through
          have height := adopted_height rest i j adopted
          have rank : (state i).rank = (state j).rank := by rw [adopted]; rfl
          have sync : (state i).syncAddr = addr j := by rw [adopted, ← rest.own]; rfl
          exact ⟨by omega, by omega, fun _ => ⟨j, edge, jReach, by omega, sync⟩⟩

end Multihop

/-- With symmetric links and one node M of strictly largest own values, every
node at most ten hops from M follows M along a shortest path. -/
theorem multihop_agreement (rest : AtRest G addr state peers) (M : Node)
    (largest : ∀ j, j ≠ M → selfPair (state j) < selfPair (state M)) (i : Node)
    (reach : G.Reachable i M) (near : G.dist i M ≤ 10) :
    (state i).masterAddr = addr M ∧ (state i).height.toNat = G.dist i M ∧
      (state i).masterCounter = (state M).selfCounter ∧
      (state i).masterMetric = (state M).selfMetric ∧
      (0 < G.dist i M → ∃ j, G.Adj i j ∧ G.Reachable j M ∧ G.dist j M + 1 = G.dist i M ∧
        (state i).syncAddr = addr j) := by
  obtain ⟨rank, height, sync⟩ := settled largest rest _ near i reach rfl
  obtain ⟨master, counter, metric, -⟩ := chain_to_largest largest rest i rank
  exact ⟨master, height, counter, metric, sync⟩

/-! Three nodes in a row: node 0 has the largest counter, the two others tie. -/
section Line

instance threeNodes : NeZero 3 := ⟨by decide⟩

def nodeAddr (i : Fin 3) : EtherAddr := ⟨2, 0, 0, 0, 0, i.val.toUInt8⟩

def tableOf (state : Fin 3 → ElectionState) (others : List (Fin 3)) : PeerMap where
  slots := others.map fun j => some (nodeAddr j,
    { awdlPeerNew zeroPeer (nodeAddr j) with election := state j, isValid := true })
  size := others.length

def line : SimpleGraph (Fin 3) where
  Adj i j := i.val + 1 = j.val ∨ j.val + 1 = i.val
  symm := ⟨fun _ _ link => link.symm⟩
  loopless := ⟨fun _ link => by omega⟩

instance : DecidableRel line.Adj := fun i j =>
  inferInstanceAs (Decidable (i.val + 1 = j.val ∨ j.val + 1 = i.val))

def lineState : Fin 3 → ElectionState
  | 0 => ⟨nodeAddr 0, nodeAddr 0, nodeAddr 0, 0, 60, 60, 5, 5⟩
  | 1 => ⟨nodeAddr 0, nodeAddr 0, nodeAddr 1, 1, 60, 60, 5, 0⟩
  | 2 => ⟨nodeAddr 0, nodeAddr 1, nodeAddr 2, 2, 60, 60, 5, 0⟩

def linePeers : Fin 3 → PeerMap
  | 0 => tableOf lineState [1]
  | 1 => tableOf lineState [2, 0]
  | 2 => tableOf lineState [1]

theorem line_atRest : AtRest line nodeAddr lineState linePeers where
  distinct := by decide
  own := by decide
  entries := by decide
  heard := by decide
  fixed := by decide

theorem multihop_agreement_line :
    line.dist 2 0 = 2 ∧ (lineState 2).masterAddr = nodeAddr 0 ∧
      (lineState 2).height.toNat = line.dist 2 0 := by
  have walk : line.Walk 2 0 := .cons (show line.Adj 2 1 by decide)
    (.cons (show line.Adj 1 0 by decide) .nil)
  have height : (lineState 2).height.toNat = 2 := rfl
  have near : line.dist 2 0 ≤ 10 :=
    le_trans (SimpleGraph.dist_le (.cons (show line.Adj 2 1 by decide)
      (.cons (show line.Adj 1 0 by decide) .nil))) (by decide)
  obtain ⟨master, hops, -⟩ :=
    multihop_agreement line_atRest 0 (by decide) 2 ⟨walk⟩ near
  exact ⟨by rw [← hops, height], master, hops⟩

end Line

section Mesh

variable {M : Node} (largest : ∀ j, selfTriple (state j) ≤ selfTriple (state M))
include largest

theorem mesh_selfRank (j : Node) : (state j).selfRank ≤ (state M).selfRank := by
  have bound := (selfTriple_le_iff _ _).mp (largest j)
  omega

variable (rest : AtRest G addr state peers)
include rest

/-- Ties in counter and metric are decided by the address. -/
theorem mesh_unique (j : Node) (rank : (state j).selfRank = (state M).selfRank)
    (larger : (state M).selfAddr.value ≤ (state j).selfAddr.value) : j = M := by
  have bound := (selfTriple_le_iff _ _).mp (largest j)
  have same : (state j).selfAddr = (state M).selfAddr := value_injective (by omega)
  rw [rest.own, rest.own] at same
  exact rest.distinct same

/-- No node advertises more than the maximum, and one that advertises it at
height 0 advertises its own values. -/
theorem mesh_rank (j : Node) : (state j).rank ≤ (state M).selfRank ∧
    ((state j).height.toNat = 0 → state j = awdlElectionResetSelf (state j)) := by
  constructor
  · obtain ⟨r, rank, -⟩ := chain_root rest j
    rw [rank]
    exact mesh_selfRank largest r
  · intro flat
    cases position rest j with
    | root reset _ => exact reset
    | behind k _ _ adopted _ _ =>
        have higher := adopted_height rest j k adopted
        omega

theorem mesh_root : state M = awdlElectionResetSelf (state M) := by
  cases position rest M with
  | root reset _ => exact reset
  | behind j link _ _ above _ =>
      exfalso
      rw [key_lt_iff] at above
      simp only [resetSelf_rank, resetSelf_height, resetSelf_selfAddr] at above
      have zero : (0 : UInt32).toNat = 0 := rfl
      obtain ⟨bound, flat⟩ := mesh_rank largest rest j
      have reset := flat (by omega)
      have rank := root_rank j reset
      have same : j = M := mesh_unique largest rest j (by omega) (by omega)
      exact G.loopless.irrefl M (same ▸ link)

/-- A node that hears M is behind M. -/
theorem mesh_behind (i : Node) (link : G.Adj i M) :
    state i = adopt (awdlElectionResetSelf (state i)) (state M) := by
  have different : i ≠ M := G.ne_of_adj link
  have root := mesh_root largest rest
  have rootRank := root_rank M root
  have rootHeight := root_height M root
  have candidate : Candidate addr state i M := by
    constructor
    · rw [root, resetSelf_height]
      decide
    · rw [root, resetSelf_syncAddr, rest.own]
      exact fun same => different (rest.distinct same).symm
  -- M competes in every election, and nothing beats it.
  cases position rest i with
  | root reset upper =>
      have bound := (key_le_iff _ _).mp (upper M link candidate)
      simp only [resetSelf_rank, resetSelf_height, resetSelf_selfAddr] at bound
      have zero : (0 : UInt32).toNat = 0 := rfl
      have top := mesh_selfRank largest i
      exact absurd (mesh_unique largest rest i (by omega) (by omega)) different
  | behind j _ _ adopted _ upper =>
      have bound := (key_le_iff _ _).mp (upper M link candidate)
      obtain ⟨top, flat⟩ := mesh_rank largest rest j
      have rank := root_rank j (flat (by omega))
      have same : j = M := mesh_unique largest rest j (by omega) (by omega)
      rw [← same]
      exact adopted

end Mesh

/-- In a full mesh exactly one node is its own master: the one with the largest
counter, metric and address. All others are one hop behind it. -/
theorem mesh_unique_master [Finite Node] [Nonempty Node]
    (rest : AtRest (⊤ : SimpleGraph Node) addr state peers) :
    ∃ M, (∀ i, (state i).masterAddr = addr i ↔ i = M) ∧
      (∀ i, selfTriple (state i) ≤ selfTriple (state M)) ∧
      ∀ i, i ≠ M → (state i).masterAddr = addr M ∧ (state i).syncAddr = addr M ∧
        (state i).height = 1 := by
  obtain ⟨M, largest⟩ := Finite.exists_max fun i => selfTriple (state i)
  have root := mesh_root largest rest
  have master : (state M).masterAddr = addr M := by
    rw [root, ← rest.own]
    rfl
  have others : ∀ i, i ≠ M → (state i).masterAddr = addr M ∧ (state i).syncAddr = addr M ∧
      (state i).height = 1 := by
    intro i different
    have adopted := mesh_behind largest rest i ((SimpleGraph.top_adj i M).mpr different)
    refine ⟨?_, ?_, ?_⟩
    · rw [adopted]; exact master
    · rw [adopted]; exact rest.own M
    · rw [adopted, root]; rfl
  refine ⟨M, ?_, largest, others⟩
  intro i
  constructor
  · intro own
    by_contra different
    rw [(others i different).1] at own
    exact different (rest.distinct own).symm
  · rintro rfl
    exact master

/-! Three nodes that all hear each other and tie in counter and metric. -/
section Triangle

def triangleState : Fin 3 → ElectionState
  | 0 => ⟨nodeAddr 2, nodeAddr 2, nodeAddr 0, 1, 60, 60, 0, 0⟩
  | 1 => ⟨nodeAddr 2, nodeAddr 2, nodeAddr 1, 1, 60, 60, 0, 0⟩
  | 2 => ⟨nodeAddr 2, nodeAddr 2, nodeAddr 2, 0, 60, 60, 0, 0⟩

def trianglePeers : Fin 3 → PeerMap
  | 0 => tableOf triangleState [1, 2]
  | 1 => tableOf triangleState [2, 0]
  | 2 => tableOf triangleState [0, 1]

theorem triangle_atRest :
    AtRest (⊤ : SimpleGraph (Fin 3)) nodeAddr triangleState trianglePeers where
  distinct := by decide
  own := by decide
  entries := by decide
  heard := by decide
  fixed := by decide

theorem mesh_unique_master_triangle : ∃ M : Fin 3,
    ∀ i, (triangleState i).masterAddr = nodeAddr i ↔ i = M := by
  obtain ⟨M, own, -⟩ := mesh_unique_master triangle_atRest
  exact ⟨M, own⟩

end Triangle

end Owl.ElectionRest
