import Owl.AsyncRounds
import Owl.ElectionNetwork
import Mathlib.Tactic.FinCases

/-!
The election recovers from any state. Nodes may start with arbitrary election
states, tables and snapshots in flight, say after counters have changed or a
master has left. A round is over when every node has run its election and has
since been heard by its neighbours. A trace of a master that does not exist
moves one level down its tree in each round and dies out at the height limit;
from then on the tree of the node with the largest counter and metric grows by
one hop in each round. All neighbours are heard often enough here that
`awdl_clean_peers` removes none of them.
-/

namespace Owl.ElectionStabilizes

open Ether Election Peers ElectionRun ElectionRest ElectionNetwork AsyncRounds

section Levels

variable {Node : Type} (links : Node → Node → Prop) (addr : Node → EtherAddr)

inductive Walk (M : Node) : Nat → Node → Prop where
  | start : Walk M 0 M
  | hop {d : Nat} {j i : Node} (walk : Walk M d j) (link : links j i) : Walk M (d + 1) i

/-- The address is that of the node in front of `j` on such a way; that of a root is its own. -/
inductive Parent (M : Node) : Nat → Node → EtherAddr → Prop where
  | root : Parent M 0 M (addr M)
  | child {d : Nat} {k j : Node} (walk : Walk links M d k) (link : links k j) :
      Parent M (d + 1) j (addr k)

structure Hops (roots : Node → Prop) (d : Nat) (j : Node) : Prop where
  walk : ∃ M, roots M ∧ Walk links M d j
  shortest : ∀ e M, roots M → Walk links M e j → d ≤ e

variable {links} {roots : Node → Prop}

theorem walk_zero {M j : Node} (walk : Walk links M 0 j) : j = M := by
  cases walk
  rfl

theorem Parent.own {addr : Node → EtherAddr} {M : Node} {sync : EtherAddr} (same : sync = addr M) :
    Parent links addr M 0 M sync := by
  rw [same]
  exact .root

theorem Parent.zero {addr : Node → EtherAddr} {M j : Node} {sync : EtherAddr}
    (parent : Parent links addr M 0 j sync) : j = M ∧ sync = addr M := by
  cases parent
  exact ⟨rfl, rfl⟩

theorem Parent.one {addr : Node → EtherAddr} {M j : Node} {sync : EtherAddr}
    (parent : Parent links addr M 1 j sync) : links M j ∧ sync = addr M := by
  cases parent with
  | child walk link =>
      obtain rfl := walk_zero walk
      exact ⟨link, rfl⟩

theorem Hops.root {j : Node} (hops : Hops links roots 0 j) : roots j := by
  obtain ⟨M, root, walk⟩ := hops.walk
  obtain rfl := walk_zero walk
  exact root

/-- The last hop of a shortest way. -/
theorem Hops.pred {d : Nat} {i : Node} (hops : Hops links roots (d + 1) i) :
    ∃ k, links k i ∧ Hops links roots d k := by
  obtain ⟨M, root, walk⟩ := hops.walk
  cases walk with
  | hop walk link =>
      refine ⟨_, link, ⟨M, root, walk⟩, ?_⟩
      intro e L other walk'
      exact Nat.le_of_succ_le_succ (hops.shortest (e + 1) L other (walk'.hop link))

variable (links) (ranks : Node → Nat)

structure Home (i : Node) (s : ElectionState) : Prop where
  self : s.selfAddr = addr i
  rank : s.selfRank = ranks i

section Places

variable (roots : Node → Prop) (top : Nat)

/-- The state claims less than `top` or is behind a root that is so far away. -/
def Honest (j : Node) (s : ElectionState) : Prop :=
  s.rank < top ∨ s.rank = top ∧ ∃ M, roots M ∧ s.masterAddr = addr M ∧ Walk links M s.height.toNat j

structure Placed (d : Nat) (j : Node) (s : ElectionState) : Prop where
  rank : s.rank = top
  height : s.height.toNat = d
  master : ∃ M, roots M ∧ s.masterAddr = addr M ∧ Parent links addr M d j s.syncAddr

end Places

variable (M : Node)

structure Settled (n : Nat) (j : Node) (s : ElectionState) : Prop where
  own : 1 ≤ n → s.selfAddr = addr j ∧ s.height.toNat ≤ 10
  honest : 1 ≤ n → Honest links addr (· = M) (ranks M) j s ∨ n ≤ s.height.toNat + 1
  placed : ∀ d, d ≤ 10 → 13 + d ≤ n → Hops links (· = M) d j →
    Placed links addr (· = M) (ranks M) d j s

structure Shows (view : Node → Set ElectionState) (peers : List Peer) : Prop where
  entries : ∀ peer ∈ peers, peer.isValid = true → ∃ j, peer.election ∈ view j
  known : ∀ j, ∀ s ∈ view j, ∃ peer ∈ peers, peer.isValid = true ∧ peer.election = s

def Elects (view : Node → Set ElectionState) (s s' : ElectionState) : Prop :=
  ∃ peers, Shows view peers ∧ s' = electionOver s peers

end Levels

section Elect

variable {Node : Type} {links : Node → Node → Prop} {addr : Node → EtherAddr} {i : Node}
  {s : ElectionState} {view : Node → Set ElectionState} {peers : List Peer}

section Places

variable {roots : Node → Prop} {top : Nat}

theorem adopt_honest {j : Node} {t : ElectionState} (link : links j i) (low : t.height.toNat ≤ 10)
    (honest : Honest links addr roots top j t) :
    Honest links addr roots top i (adopt (awdlElectionResetSelf s) t) := by
  rcases honest with lower | ⟨rank, M, root, master, walk⟩
  · exact .inl lower
  · refine .inr ⟨rank, M, root, master, ?_⟩
    rw [adopt_height _ _ low]
    exact walk.hop link

/-- A neighbour that is one hop closer to a root and has its place competes. -/
theorem closer_competes (distinct : Function.Injective addr) (shows : Shows view peers)
    (self : s.selfAddr = addr i) {d : Nat} (near : d + 1 ≤ 10)
    (places : ∀ j, ∀ t ∈ view j, Hops links roots d j → Placed links addr roots top d j t)
    (present : ∀ j, links j i → (view j).Nonempty) (hops : Hops links roots (d + 1) i) :
    ∃ peer ∈ peers, Eligible s.selfAddr peer ∧ peer.election.rank = top ∧
      peer.election.height.toNat = d := by
  obtain ⟨k, link, closer⟩ := hops.pred
  obtain ⟨t, held⟩ := present k link
  obtain ⟨peer, member, valid, rfl⟩ := shows.known k t held
  have placed := places k _ held closer
  refine ⟨peer, member, ⟨valid, ?_, ?_⟩, placed.rank, placed.height⟩
  · have one : (1 : UInt32).toNat = 1 := rfl
    have ten : awdlElectionTreeMaxHeight.toNat = 10 := rfl
    rw [UInt32.le_iff_toNat_le, UInt32.toNat_add, placed.height]
    omega
  -- Its own parent is closer still, so it is not the child of this node.
  · rw [self]
    intro child
    obtain ⟨M, root, -, parent⟩ := placed.master
    rw [child] at parent
    generalize own : addr i = sync at parent
    cases parent with
    | root =>
        obtain rfl := distinct own
        have := hops.shortest 0 i root .start
        omega
    | child walk link =>
        obtain rfl := distinct own
        have := hops.shortest _ M root walk
        omega

/-- The way through an honest winner is no shorter than the shortest one. -/
theorem follow_placed {j : Node} {t : ElectionState} {d : Nat} (link : links j i)
    (self : t.selfAddr = addr j) (low : t.height.toNat ≤ 10)
    (honest : Honest links addr roots top j t) (hops : Hops links roots (d + 1) i)
    (best : top < t.rank ∨ top = t.rank ∧ t.height.toNat ≤ d) :
    Placed links addr roots top (d + 1) i (adopt (awdlElectionResetSelf s) t) := by
  rcases honest with lower | ⟨rank, M, root, master, walk⟩
  · omega
  · have least := hops.shortest _ M root (walk.hop link)
    have exactly : t.height.toNat = d := by omega
    rw [exactly] at walk
    refine ⟨rank, by rw [adopt_height _ _ low, exactly], M, root, master, ?_⟩
    show Parent links addr M (d + 1) i t.selfAddr
    rw [self]
    exact .child walk link

end Places

variable {M : Node} {ranks : Node → Nat} {n : Nat}

theorem Settled.certain {j : Node} {t : ElectionState} (settled : Settled links addr ranks M n j t)
    (late : 12 ≤ n) : Honest links addr (· = M) (ranks M) j t := by
  obtain ⟨-, low⟩ := settled.own (by omega)
  rcases settled.honest (by omega) with honest | high
  · exact honest
  · omega

theorem reset_honest (largest : ∀ j, j ≠ M → ranks j < ranks M) (home : Home addr ranks i s) :
    Honest links addr (· = M) (ranks M) i (awdlElectionResetSelf s) := by
  by_cases same : i = M
  · subst same
    exact .inr ⟨home.rank, i, rfl, home.self, .start⟩
  · left
    rw [resetSelf_rank, home.rank]
    exact largest i same

section View

variable (distinct : Function.Injective addr) (loopless : ∀ j, ¬ links j j)
  (largest : ∀ j, j ≠ M → ranks j < ranks M)
  (settled : ∀ j, ∀ t ∈ view j, links j i ∧ Settled links addr ranks M n j t)
  (shows : Shows view peers) (home : Home addr ranks i s)
include distinct loopless largest settled shows home

theorem elected_placed (late : 12 ≤ n) (present : 13 ≤ n → ∀ j, links j i → (view j).Nonempty)
    {d : Nat} (near : d ≤ 10) (reached : 13 + d ≤ n + 1) (hops : Hops links (· = M) d i) :
    Placed links addr (· = M) (ranks M) d i (electionOver s peers) := by
  have outcome := electionOver_outcome s peers
  generalize electionOver s peers = result at outcome
  cases d with
  | zero =>
      obtain rfl : i = M := hops.root
      cases outcome with
      | own upper => exact ⟨home.rank, rfl, i, rfl, home.self, Parent.own home.self⟩
      | follow winner member eligible above upper =>
          -- Whoever reaches `M` in no hop is `M`, which does not hear itself.
          exfalso
          obtain ⟨j, held⟩ := shows.entries winner member eligible.valid
          obtain ⟨link, known⟩ := settled j _ held
          rw [key_lt_iff, resetSelf_rank, resetSelf_height, home.rank] at above
          have zero : (0 : UInt32).toNat = 0 := rfl
          rcases known.certain late with lower | ⟨rank, M, rfl, -, walk⟩
          · omega
          · have flat : winner.election.height.toNat = 0 := by omega
            rw [flat] at walk
            obtain rfl := walk_zero walk
            exact loopless j link
  | succ d =>
      obtain ⟨peer, present, candidate, rank, height⟩ := closer_competes distinct shows home.self near
        (fun j t held => (settled j t held).2.placed d (by omega) (by omega)) (present (by omega)) hops
      cases outcome with
      | own upper =>
          have different : i ≠ M := by
            rintro rfl
            have := hops.shortest 0 i rfl .start
            omega
          have less := largest i different
          have bound := (key_le_iff _ _).mp (upper peer present candidate)
          rw [resetSelf_rank, home.rank] at bound
          omega
      | follow winner member eligible above upper =>
          obtain ⟨j, held⟩ := shows.entries winner member eligible.valid
          obtain ⟨link, known⟩ := settled j _ held
          obtain ⟨self, low⟩ := known.own (by omega)
          have bound := (key_le_iff _ _).mp (upper peer present candidate)
          exact follow_placed link self low (known.certain late) hops (by omega)

/-- A node that holds states of one level elects a state of the next. -/
theorem elected_settled (present : 13 ≤ n → ∀ j, links j i → (view j).Nonempty) :
    Settled links addr ranks M (n + 1) i (electionOver s peers) := by
  have outcome := electionOver_outcome s peers
  have placed : ∀ d, d ≤ 10 → 13 + d ≤ n + 1 → Hops links (· = M) d i →
      Placed links addr (· = M) (ranks M) d i (electionOver s peers) := fun d near reached hops =>
    elected_placed distinct loopless largest settled shows home (by omega) present near reached hops
  generalize electionOver s peers = result at outcome placed
  refine ⟨fun _ => ?_, fun _ => ?_, placed⟩
  · cases outcome with
    | own upper => exact ⟨home.self, Nat.zero_le _⟩
    | follow winner member eligible above upper =>
        exact ⟨home.self, UInt32.le_iff_toNat_le.mp eligible.room⟩
  · cases outcome with
    | own upper => exact .inl (reset_honest largest home)
    | follow winner member eligible above upper =>
        obtain ⟨j, held⟩ := shows.entries winner member eligible.valid
        obtain ⟨link, known⟩ := settled j _ held
        rcases Nat.eq_zero_or_pos n with rfl | positive
        · exact .inr (by omega)
        · obtain ⟨-, low⟩ := known.own positive
          rcases known.honest positive with honest | high
          · exact .inl (adopt_honest link low honest)
          · rw [adopt_height _ _ low]
            exact .inr (by omega)

end View

end Elect

section Worlds

variable {Node : Type} [DecidableEq Node] (links : Node → Node → Prop) [DecidableRel links]
  (addr : Node → EtherAddr)

/-- The steps of the network with their labels. No peer is removed. -/
inductive Move : World Node → Label Node → World Node → Prop where
  | broadcast (world : World Node) (j : Node) :
      Move world (.send j) { world with queue := enqueue links world j }
  | lose (world : World Node) (j i : Node) (earlier later : List ElectionState)
      (lost : ElectionState) (flight : world.queue j i = earlier ++ lost :: later) :
      Move world (.lose j i earlier.length)
        { world with queue := replaceQueue world.queue j i (earlier ++ later) }
  | deliver (world : World Node) (j i : Node) (link : links j i) (other : j ≠ i)
      (snapshot : ElectionState) (later : List ElectionState)
      (flight : world.queue j i = snapshot :: later) (table : PeerMap)
      (stored : Delivered (addr j) snapshot (world.peers i) table) :
      Move world (.receive j i) { world with
        peers := Function.update world.peers i table
        queue := replaceQueue world.queue j i later }
  | elect (world : World Node) (i : Node) :
      Move world (.update i) { world with
        state := Function.update world.state i (awdlElectionRun (world.state i) (world.peers i)) }

theorem step_move {before after : World Node} (step : Step links addr before after) :
    ∃ label, Move links addr before label after := by
  cases step with
  | broadcast j => exact ⟨_, .broadcast before j⟩
  | lose j i earlier later lost flight => exact ⟨_, .lose before j i earlier later lost flight⟩
  | deliver j i link other snapshot later flight table stored =>
      exact ⟨_, .deliver before j i link other snapshot later flight table stored⟩
  | elect i => exact ⟨_, .elect before i⟩

theorem steps_run {before after : World Node}
    (steps : Relation.ReflTransGen (Step links addr) before after) :
    ∃ labels, Run (Move links addr) before labels after := by
  induction steps using Relation.ReflTransGen.head_induction_on with
  | refl => exact ⟨[], .nil after⟩
  | head step _ ih =>
      obtain ⟨label, move⟩ := step_move links addr step
      obtain ⟨labels, run⟩ := ih
      exact ⟨label :: labels, .cons move run⟩

def Hears (j i : Node) : Prop := links j i ∧ j ≠ i

def electionNet : Network (World Node) Node ElectionState where
  links := Hears links
  state := World.state
  view world i j := {s | Holds addr world i j s}
  queue := World.queue
  rule _ := Elects

def Neighbouring (world : World Node) : Prop :=
  ∀ i, ∀ peer ∈ awdlPeersIterate (world.peers i), peer.isValid = true →
    ∃ j, Hears links j i ∧ peer.addr = addr j

variable {links addr}

theorem move_neighbouring {before after : World Node} {label : Label Node}
    (known : Neighbouring links addr before) (move : Move links addr before label after) :
    Neighbouring links addr after := by
  cases move with
  | broadcast j => exact known
  | lose j i earlier later lost flight => exact known
  | elect i => exact known
  | deliver j i link other snapshot later flight table stored =>
      obtain ⟨entry, -, named, -, members⟩ := stored
      intro l peer member valid
      by_cases receiver : l = i
      · subst receiver
        simp only [Function.update_self, members] at member
        rcases member with rfl | ⟨old, -⟩
        · exact ⟨j, ⟨link, other⟩, named⟩
        · exact known l peer old valid
      · simp only [Function.update_of_ne receiver] at member
        exact known l peer member valid

theorem move_change (distinct : Function.Injective addr) {before after : World Node}
    {label : Label Node} (known : Neighbouring links addr before)
    (move : Move links addr before label after) :
    Change (electionNet links addr) before after label := by
  have elsewhere : ∀ (queue : Node → Node → List ElectionState) j i messages k l,
      (k, l) ≠ (j, i) → replaceQueue queue j i messages k l = queue k l := by
    intro queue j i messages k l different
    exact if_neg fun same => different (Prod.ext same.1 same.2)
  cases move with
  | broadcast j =>
      refine .send j rfl rfl ?_ ?_
      · exact fun i link => if_pos ⟨rfl, link.1⟩
      · exact fun k i different => if_neg fun same => different same.1
  | lose j i earlier later lost flight =>
      exact .lose j i earlier later lost rfl rfl flight (if_pos ⟨rfl, rfl⟩)
        (elsewhere before.queue j i (earlier ++ later))
  | deliver j i link other snapshot later flight table stored =>
      have holds := delivered_holds distinct j i snapshot later table stored
      refine .receive j i snapshot later ⟨link, other⟩ rfl flight (if_pos ⟨rfl, rfl⟩) ?_ ?_
        (elsewhere before.queue j i later)
      · ext s
        exact (holds i j s).trans (by simp)
      · intro l k different
        ext s
        exact (holds l k s).trans (by rw [if_neg fun same => different (Prod.ext same.2 same.1)]; rfl)
  | elect i =>
      refine .update i ⟨awdlPeersIterate (before.peers i), ⟨?_, ?_⟩, ?_⟩ ?_ rfl rfl
      · intro peer member valid
        obtain ⟨j, -, named⟩ := known i peer member valid
        exact ⟨j, peer, member, valid, named, rfl⟩
      · rintro j s ⟨peer, member, valid, -, same⟩
        exact ⟨peer, member, valid, same⟩
      · exact Function.update_self i _ _
      · exact fun k different => Function.update_of_ne different _ _

omit [DecidableEq Node] [DecidableRel links] in
/-- One more election; a start without false masters is `ahead` by the rounds that
get rid of them. -/
theorem electionNet_gains (distinct : Function.Injective addr) {M : Node} {ranks : Node → Nat}
    (largest : ∀ j, j ≠ M → ranks j < ranks M) (ahead : Nat) (few : ahead ≤ 12) :
    Gains (electionNet links addr) (Home addr ranks)
      fun n => Settled (Hears links) addr ranks M (n + ahead) where
  mono := by
    intro n i s settled
    refine ⟨fun _ => settled.own (by omega), ?_, ?_⟩
    · intro positive
      exact (settled.honest (by omega)).imp id fun high => by omega
    · intro d near reached hops
      exact settled.placed d near (by omega) hops
  gain := by
    rintro n i view s s' within present home ⟨peers, shows, rfl⟩
    have settled := elected_settled distinct (fun j loop => loop.2 rfl) largest within shows home
      fun late => present (by omega)
    refine ⟨⟨?_, ?_⟩, ?_⟩
    · rw [electionOver_selfAddr]
      exact home.self
    · rw [electionOver_selfRank]
      exact home.rank
    · rwa [Nat.add_right_comm] at settled

/-- The place of a node in the tree of a nearest root, in the words of the state; `home` are the
states that the roots had at the start. -/
structure InTree (links : Node → Node → Prop) (addr : Node → EtherAddr) (roots : Node → Prop)
    (home : Node → ElectionState) (d : Nat) (j : Node) (s : ElectionState) : Prop where
  height : s.height.toNat = d
  master : ∃ M, roots M ∧ s.masterAddr = addr M ∧ s.masterCounter = (home M).selfCounter ∧
    s.masterMetric = (home M).selfMetric ∧ Parent (Hears links) addr M d j s.syncAddr

omit [DecidableEq Node] [DecidableRel links] in
theorem Placed.inTree {roots : Node → Prop} {top : Nat} {home : Node → ElectionState} {d : Nat}
    {j : Node} {s : ElectionState} (placed : Placed (Hears links) addr roots top d j s)
    (rank : ∀ M, roots M → (home M).selfRank = top) : InTree links addr roots home d j s := by
  obtain ⟨M, root, master, parent⟩ := placed.master
  have equal := placed.rank.trans (rank M root).symm
  have metric := s.masterMetric.toNat_lt
  have rootMetric := (home M).selfMetric.toNat_lt
  unfold ElectionState.rank ElectionState.selfRank at equal
  refine ⟨placed.height, M, root, master, ?_, ?_, parent⟩
  · rw [← UInt32.toNat_inj]
    omega
  · rw [← UInt32.toNat_inj]
    omega

/-- Rounds gain levels, and further steps keep them. -/
theorem rounds_level {home : Node → ElectionState → Prop} {level : Nat → Node → ElectionState → Prop}
    (gains : Gains (electionNet links addr) home level) (distinct : Function.Injective addr)
    {start world later : World Node} (known : Neighbouring links addr start)
    (within : Within (electionNet links addr) home (level 0) start) {n : Nat}
    (rounds : Rounds (electionNet links addr) (Move links addr) start n world)
    (after : Relation.ReflTransGen (Step links addr) world later) (j : Node) :
    level n j (later.state j) := by
  obtain ⟨labels, run⟩ := steps_run links addr after
  exact (rounds_later gains (fun _ _ _ => move_neighbouring)
    (fun _ _ _ => move_change distinct) known within rounds run).state j

omit [DecidableEq Node] [DecidableRel links] in
/-- A start of which nothing is known but the own addresses and the neighbours. -/
theorem unknown_within (distinct : Function.Injective addr) {start : World Node}
    {level : Node → ElectionState → Prop} (own : ∀ i, (start.state i).selfAddr = addr i)
    (known : Neighbouring links addr start) (unknown : ∀ j s, level j s) :
    Within (electionNet links addr) (Home addr fun i => (start.state i).selfRank) level start := by
  refine ⟨fun i => ⟨own i, rfl⟩, fun i => unknown i _, ?_, fun j i _ s _ => unknown j s⟩
  rintro i j s ⟨peer, member, valid, named, -⟩
  obtain ⟨k, hears, same⟩ := known i peer member valid
  obtain rfl : j = k := distinct (named.symm.trans same)
  exact ⟨hears, unknown j s⟩

/-- Whatever the nodes believe and hear at the start, each node within ten hops of
the one with the largest counter and metric takes its place in the tree of
that node in the 13 rounds after which false masters are gone, and one more
for each hop, and keeps it. -/
theorem election_stabilizes (distinct : Function.Injective addr) (start world later : World Node)
    (own : ∀ i, (start.state i).selfAddr = addr i) (known : Neighbouring links addr start) (M : Node)
    (largest : ∀ j, j ≠ M → selfPair (start.state j) < selfPair (start.state M)) (d : Nat)
    (near : d ≤ 10)
    (rounds : Rounds (electionNet links addr) (Move links addr) start (13 + d) world)
    (after : Relation.ReflTransGen (Step links addr) world later) (j : Node)
    (hops : Hops (Hears links) (· = M) d j) :
    InTree links addr (· = M) start.state d j (later.state j) := by
  have ranks : ∀ j, j ≠ M → (start.state j).selfRank < (start.state M).selfRank :=
    fun j different => (selfPair_lt_iff _ _).mp (largest j different)
  have gains : Gains (electionNet links addr) _ _ := electionNet_gains distinct ranks 0 (by omega)
  have within := unknown_within distinct own known fun j s =>
    show Settled (Hears links) addr (fun i => (start.state i).selfRank) M 0 j s from
      ⟨by omega, by omega, by omega⟩
  have settled := rounds_level gains distinct known within rounds after j
  exact (settled.placed d near (by omega) hops).inTree fun L same => by rw [same]

/-- From a start in which every node is its own master, the tree grows by one hop
in each round. -/
theorem election_converges (distinct : Function.Injective addr) (start world later : World Node)
    (initial : Initial addr start) (M : Node)
    (largest : ∀ j, j ≠ M → selfPair (start.state j) < selfPair (start.state M)) (d : Nat)
    (near : d ≤ 10) (rounds : Rounds (electionNet links addr) (Move links addr) start (d + 1) world)
    (after : Relation.ReflTransGen (Step links addr) world later) (j : Node)
    (hops : Hops (Hears links) (· = M) d j) :
    InTree links addr (· = M) start.state d j (later.state j) := by
  have ranks : ∀ j, j ≠ M → (start.state j).selfRank < (start.state M).selfRank :=
    fun j different => (selfPair_lt_iff _ _).mp (largest j different)
  have unheard : ∀ i, ∀ peer ∈ awdlPeersIterate (start.peers i), peer.isValid ≠ true := by
    intro i peer member valid
    rw [initial.peers i peer member] at valid
    cases valid
  have gains : Gains (electionNet links addr) _ _ := electionNet_gains distinct ranks 12 (le_refl _)
  have home : ∀ i, Home addr (fun i => (start.state i).selfRank) i (start.state i) :=
    fun i => ⟨initial.own i, rfl⟩
  have settled := rounds_level gains distinct
    (fun i peer member valid => absurd valid (unheard i peer member)) ?_ rounds after j
  · exact (settled.placed d near (by omega) hops).inTree fun L same => by rw [same]
  refine ⟨home, ?_, ?_, ?_⟩
  · intro i
    have honest : Honest (Hears links) addr (· = M) _ i _ := reset_honest ranks (home i)
    rw [← initial.reset i] at honest
    have flat := root_height i (initial.reset i)
    refine ⟨fun _ => ⟨initial.own i, ?_⟩, fun _ => .inl honest, by omega⟩
    exact le_of_eq_of_le flat (by omega)
  · rintro i j s ⟨peer, member, valid, -⟩
    exact absurd valid (unheard i peer member)
  · intro j i _ s flight
    rw [show (electionNet links addr).queue start j i = [] from initial.queue j i] at flight
    cases flight

end Worlds

/-! Two nodes that tell each other of a master that does not exist, and a third that
hears nobody. -/
section Ghost

def pair (j i : Fin 3) : Prop := j ≠ 2 ∧ i ≠ 2 ∧ j ≠ i

instance : DecidableRel pair := fun j i => inferInstanceAs (Decidable (j ≠ 2 ∧ i ≠ 2 ∧ j ≠ i))

def ghostAddr : EtherAddr := ⟨2, 0, 0, 0, 0, 9⟩

def ghostState : Fin 3 → ElectionState
  | 0 => ⟨ghostAddr, nodeAddr 1, nodeAddr 0, 4, 60, 60, 9, 5⟩
  | 1 => ⟨ghostAddr, nodeAddr 0, nodeAddr 1, 5, 60, 60, 9, 0⟩
  | 2 => ⟨ghostAddr, ghostAddr, nodeAddr 2, 1, 60, 60, 9, 0⟩

def holding (j : Fin 3) : Option ElectionState → PeerMap
  | none => tableOf ghostState []
  | some s => tableOf (fun _ => s) [j]

def pairPeers (zero one : Option ElectionState) : Fin 3 → PeerMap
  | 0 => holding 1 one
  | 1 => holding 0 zero
  | 2 => holding 0 none

def pairWorld (state : Fin 3 → ElectionState) (zero one : Option ElectionState) : World (Fin 3) :=
  ⟨state, pairPeers zero one, fun _ _ => []⟩

def pairLabels : List (Label (Fin 3)) :=
  [.update 0, .update 1, .update 2, .send 0, .send 1, .receive 0 1, .receive 1 0]

theorem holding_delivered (old : Option ElectionState) (s : ElectionState) (j : Fin 3) :
    Delivered (nodeAddr j) s (holding j old) (holding j (some s)) := by
  have single : ∀ t, awdlPeersIterate (holding j (some t)) =
      [{ awdlPeerNew zeroPeer (nodeAddr j) with election := t, isValid := true }] := fun _ => rfl
  have named : ∀ peer ∈ awdlPeersIterate (holding j old), peer.addr = nodeAddr j := by
    cases old with
    | none => intro peer member; cases member
    | some t =>
        intro peer member
        rw [single, List.mem_singleton] at member
        rw [member]
        rfl
  refine ⟨{ awdlPeerNew zeroPeer (nodeAddr j) with election := s, isValid := true }, rfl, rfl, rfl, ?_⟩
  intro peer
  rw [single, List.mem_singleton]
  constructor
  · exact .inl
  · rintro (same | ⟨held, different⟩)
    · exact same
    · exact absurd (named peer held) different

theorem pair_run (state : Fin 3 → ElectionState) (zero one : Option ElectionState) :
    ∃ state', Run (Move pair nodeAddr) (pairWorld state zero one) pairLabels
      (pairWorld state' (some (state' 0)) (some (state' 1))) := by
  refine ⟨fun i => awdlElectionRun (state i) (pairPeers zero one i), ?_⟩
  refine .cons (.elect _ 0) (.cons (.elect _ 1) (.cons (.elect _ 2) (.cons (.broadcast _ 0)
    (.cons (.broadcast _ 1) (.cons (.deliver _ 0 1 (by decide) (by decide) _ [] rfl _
      (holding_delivered zero _ 0)) (.cons (.deliver _ 1 0 (by decide) (by decide) _ [] rfl _
      (holding_delivered one _ 1)) ?_))))))
  have same : ∀ a b : World (Fin 3), (∀ i, a.state i = b.state i) → (∀ i, a.peers i = b.peers i) →
      (∀ j i, a.queue j i = b.queue j i) → Run (Move pair nodeAddr) a [] b := by
    rintro ⟨_, _, _⟩ ⟨_, _, _⟩ states tables queues
    obtain rfl := funext states
    obtain rfl := funext tables
    obtain rfl : _ = _ := funext fun j => funext fun i => queues j i
    exact .nil _
  apply same
  · intro i
    fin_cases i <;> rfl
  · intro i
    fin_cases i <;> rfl
  · intro j i
    fin_cases j <;> fin_cases i <;> rfl

theorem pair_round (state : Fin 3 → ElectionState) (zero one : Option ElectionState) :
    IsRound (electionNet pair nodeAddr) (pairWorld state zero one) pairLabels := by
  have length : (fun j i => ((electionNet pair nodeAddr).queue (pairWorld state zero one) j i).length) =
      fun _ _ => 0 := rfl
  rw [IsRound, length]
  refine ⟨by decide, ?_⟩
  have heard : ∀ j i, pair j i → (pairLabels.foldl Marks.next (.start fun _ _ => 0)).heard j i = true := by
    decide
  exact fun j i hears => heard j i hears.1

theorem pair_rounds (state : Fin 3 → ElectionState) (zero one : Option ElectionState) (n : Nat) :
    ∃ state' zero' one', Rounds (electionNet pair nodeAddr) (Move pair nodeAddr)
      (pairWorld state zero one) n (pairWorld state' zero' one') := by
  induction n with
  | zero => exact ⟨state, zero, one, .zero⟩
  | succ n ih =>
      obtain ⟨middle, zero', one', rounds⟩ := ih
      obtain ⟨state', run⟩ := pair_run middle zero' one'
      exact ⟨state', _, _, rounds.succ run (pair_round middle zero' one')⟩

def ghostZero : ElectionState := ⟨ghostAddr, ghostAddr, nodeAddr 0, 1, 60, 60, 9, 5⟩

def ghostOne : ElectionState := ⟨ghostAddr, ghostAddr, nodeAddr 1, 2, 60, 60, 9, 0⟩

def ghostWorld : World (Fin 3) := pairWorld ghostState (some ghostZero) (some ghostOne)

theorem ghost_neighbouring : Neighbouring pair nodeAddr ghostWorld := by
  intro i peer member _
  fin_cases i
  · rw [List.mem_singleton.mp member]
    exact ⟨1, ⟨by decide, by decide⟩, rfl⟩
  · rw [List.mem_singleton.mp member]
    exact ⟨0, ⟨by decide, by decide⟩, rfl⟩
  · cases member

theorem pair_hops : Hops (Hears pair) (· = 0) 1 1 := by
  refine ⟨⟨0, rfl, .hop .start ⟨by decide, by decide⟩⟩, ?_⟩
  rintro e M rfl walk
  cases walk with
  | hop walk link => omega

theorem election_stabilizes_ghost : ∃ world,
    Rounds (electionNet pair nodeAddr) (Move pair nodeAddr) ghostWorld 14 world ∧
      (ghostWorld.state 1).masterAddr = ghostAddr ∧ (world.state 1).masterAddr = nodeAddr 0 ∧
      (world.state 1).height.toNat = 1 := by
  obtain ⟨state, zero, one, rounds⟩ := pair_rounds ghostState (some ghostZero) (some ghostOne) 14
  have settled := election_stabilizes (by decide) ghostWorld _ _ (by decide) ghost_neighbouring 0
    (by decide) 1 (by decide) rounds .refl 1 pair_hops
  obtain ⟨M, rfl, master, -⟩ := settled.master
  exact ⟨_, rounds, rfl, master, settled.height⟩

def pairStart : World (Fin 3) := pairWorld (fun i => awdlElectionResetSelf (ghostState i)) none none

theorem pairStart_initial : Initial nodeAddr pairStart where
  own := by decide
  reset := by decide
  peers := by decide
  queue := by decide

theorem election_converges_pair : ∃ world,
    Rounds (electionNet pair nodeAddr) (Move pair nodeAddr) pairStart 2 world ∧
      (pairStart.state 1).masterAddr = nodeAddr 1 ∧ (world.state 1).masterAddr = nodeAddr 0 ∧
      (world.state 1).height.toNat = 1 := by
  obtain ⟨state, zero, one, rounds⟩ := pair_rounds (fun i => awdlElectionResetSelf (ghostState i))
    none none 2
  have settled := election_converges (by decide) pairStart _ _ pairStart_initial 0 (by decide) 1
    (by decide) rounds .refl 1 pair_hops
  obtain ⟨M, rfl, master, -⟩ := settled.master
  exact ⟨_, rounds, rfl, master, settled.height⟩

end Ghost

end Owl.ElectionStabilizes
