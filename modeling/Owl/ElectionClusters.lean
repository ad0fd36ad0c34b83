import Owl.ElectionStabilizes
import Mathlib.Data.Set.Card

/-!
The outcome of the election in an arbitrary network. Several nodes may share the
largest counter and metric; in a network of daemons all of them do. Among these
a node looks at height and address only, and as its own height is zero it follows
no one but a neighbour that is its own master and has a larger address. So the
leaders are chosen greedily by their addresses, and no two of them hear each
other. All other nodes join the tree of a nearest leader.

Who leads is settled in the order of the addresses. A trace of a node that no
longer leads is shorter than the way to any leader and gains one level in each
round, like the trace of a master that does not exist.
-/

namespace Owl.ElectionClusters

open Ether Election Peers ElectionRun ElectionRest ElectionNetwork AsyncRounds
open ElectionStabilizes (Walk walk_zero Parent Hops Home Honest Placed Shows Elects adopt_honest closer_competes
  follow_placed Move Hears Neighbouring electionNet unknown_within rounds_level InTree
  pair pairWorld pair_rounds ghostAddr ghostState ghostZero ghostOne ghost_neighbouring)

section Leaders

theorem value_lt (addr : EtherAddr) : addr.value < 256 ^ 6 := by
  rw [← number_bytes, ← bytes_length addr]
  exact number_lt addr.bytes

variable {Node : Type} (links : Node → Node → Prop) (addr : Node → EtherAddr) (ranks : Node → Nat)

def Top (i : Node) : Prop := ∀ j, ranks j ≤ ranks i

/-- A node at the top leads unless it hears of a leader with a larger address. -/
def Leads (i : Node) : Prop :=
  Top ranks i ∧ ∀ j, links j i → (addr i).value < (addr j).value → ¬ Leads j
termination_by 256 ^ 6 - (addr i).value
decreasing_by
  have bound := value_lt (addr j)
  omega

noncomputable def ahead (i : Node) : Nat := {j | (addr i).value < (addr j).value}.ncard

variable {links addr ranks}

theorem leads_iff (i : Node) : Leads links addr ranks i ↔
    Top ranks i ∧ ∀ j, links j i → (addr i).value < (addr j).value → ¬ Leads links addr ranks j := by
  rw [Leads]

theorem ahead_lt [Finite Node] {i j : Node} (larger : (addr i).value < (addr j).value) :
    ahead addr j < ahead addr i := by
  refine Set.ncard_lt_ncard ⟨?_, ?_⟩ (Set.toFinite _)
  · intro k above
    exact Nat.lt_trans larger above
  · intro covered
    exact absurd (covered larger) (Nat.lt_irrefl _)

theorem ahead_card [Finite Node] (i : Node) : ahead addr i < Nat.card Node := by
  rw [← Set.ncard_univ]
  refine Set.ncard_lt_ncard ⟨Set.subset_univ _, ?_⟩ (Set.toFinite _)
  intro covered
  exact absurd (covered (Set.mem_univ i)) (Nat.lt_irrefl _)

/-- A node at the top that does not lead hears a leader. -/
theorem hears_leader {i : Node} (top : Top ranks i) (yields : ¬ Leads links addr ranks i) :
    ∃ j, links j i ∧ (addr i).value < (addr j).value ∧ Leads links addr ranks j := by
  rw [leads_iff] at yields
  simpa only [top, true_and, not_forall, not_not, exists_prop] using yields

/-- Of two leaders that hear each other the one with the smaller address would not lead. -/
theorem leads_apart (distinct : Function.Injective addr) {i j : Node} (other : i ≠ j)
    (first : Leads links addr ranks i) (second : Leads links addr ranks j) :
    ¬ (links i j ∧ links j i) := by
  rintro ⟨link, back⟩
  have apart : (addr i).value ≠ (addr j).value := fun same =>
    other (distinct (value_injective same))
  rcases Nat.lt_or_gt_of_ne apart with larger | larger
  · exact ((leads_iff i).mp first).2 j back larger second
  · exact ((leads_iff j).mp second).2 i link larger first

theorem leads_hops {i : Node} (leads : Leads links addr ranks i) :
    Hops links (Leads links addr ranks) 0 i :=
  ⟨⟨i, leads, .start⟩, fun _ _ _ _ => Nat.zero_le _⟩

theorem yields_hops {i : Node} (top : Top ranks i) (yields : ¬ Leads links addr ranks i) :
    Hops links (Leads links addr ranks) 1 i := by
  obtain ⟨j, link, -, leads⟩ := hears_leader top yields
  refine ⟨⟨j, leads, .hop .start link⟩, ?_⟩
  intro e M other walk
  refine Nat.one_le_iff_ne_zero.mpr ?_
  rintro rfl
  obtain rfl := walk_zero walk
  exact yields other

end Leaders

section Levels

variable {Node : Type} (links : Node → Node → Prop) (addr : Node → EtherAddr) (ranks : Node → Nat)
  (M : Node) (border : Nat)

/-- What is known of a snapshot of `j` after `n` rounds, when `M` is at the top and all leaders
are known by the round `border`. -/
structure Settled (n : Nat) (j : Node) (s : ElectionState) : Prop where
  own : 1 ≤ n → s.selfAddr = addr j ∧ s.height.toNat ≤ 10
  root : 2 ≤ n → s.height.toNat = 0 →
    s.rank = ranks j ∧ s.masterAddr = addr j ∧ s.syncAddr = addr j
  low : 1 ≤ n → s.rank ≤ ranks M ∨ n ≤ s.height.toNat + 1
  leads : 13 + ahead addr j ≤ n → Leads links addr ranks j → s.height.toNat = 0
  yields : 13 + ahead addr j ≤ n → Top ranks j → ¬ Leads links addr ranks j → 1 ≤ s.height.toNat
  honest : border ≤ n → Honest links addr (Leads links addr ranks) (ranks M) j s ∨
    n ≤ border + s.height.toNat
  placed : ∀ d, d ≤ 10 → border + 11 + d ≤ n → Hops links (Leads links addr ranks) d j →
    Placed links addr (Leads links addr ranks) (ranks M) d j s

end Levels

section Elect

variable {Node : Type} {links : Node → Node → Prop} {addr : Node → EtherAddr} {ranks : Node → Nat}
  {M : Node} {border n : Nat} {i : Node} {s : ElectionState}

theorem Settled.bounded {j : Node} {t : ElectionState}
    (settled : Settled links addr ranks M border n j t) (late : 12 ≤ n) : t.rank ≤ ranks M := by
  obtain ⟨-, low⟩ := settled.own (by omega)
  rcases settled.low (by omega) with bounded | high
  · exact bounded
  · omega

theorem Settled.certain {j : Node} {t : ElectionState}
    (settled : Settled links addr ranks M border n j t) (late : border + 11 ≤ n) :
    Honest links addr (Leads links addr ranks) (ranks M) j t := by
  obtain ⟨-, low⟩ := settled.own (by omega)
  rcases settled.honest (by omega) with honest | high
  · exact honest
  · omega

/-- A state of height zero is that of a root. -/
theorem Settled.leader {j : Node} {t : ElectionState}
    (settled : Settled links addr ranks M border n j t) (late : 13 + ahead addr j ≤ n)
    (leads : Leads links addr ranks j) (top : Top ranks M) :
    t.height.toNat = 0 ∧ t.rank = ranks M ∧ t.masterAddr = addr j ∧ t.syncAddr = addr j := by
  have flat := settled.leads late leads
  obtain ⟨rank, master, sync⟩ := settled.root (by omega) flat
  rw [leads_iff] at leads
  exact ⟨flat, rank.trans (Nat.le_antisymm (top j) (leads.1 M)), master, sync⟩

theorem zero_toNat : (0 : UInt32).toNat = 0 := rfl

theorem elected_own (peers : List Peer) (home : Home addr ranks i s) :
    (electionOver s peers).selfAddr = addr i ∧ (electionOver s peers).height.toNat ≤ 10 := by
  have outcome := electionOver_outcome s peers
  generalize electionOver s peers = result at outcome
  cases outcome with
  | own upper => exact ⟨home.self, Nat.zero_le _⟩
  | follow winner member eligible above upper =>
      exact ⟨home.self, UInt32.le_iff_toNat_le.mp eligible.room⟩

section View

variable {view : Node → Set ElectionState} {peers : List Peer}
  (settled : ∀ j, ∀ t ∈ view j, links j i ∧ Settled links addr ranks M border n j t)
  (shows : Shows view peers) (home : Home addr ranks i s)
include settled shows home

omit home in
theorem elected_root (late : 1 ≤ n) (flat : (electionOver s peers).height.toNat = 0) :
    electionOver s peers = awdlElectionResetSelf s := by
  have outcome := electionOver_outcome s peers
  generalize electionOver s peers = result at outcome flat
  cases outcome with
  | own upper => rfl
  | follow winner member eligible above upper =>
      obtain ⟨j, held⟩ := shows.entries winner member eligible.valid
      obtain ⟨-, low⟩ := (settled j _ held).2.own late
      rw [adopt_height _ _ low] at flat
      omega

theorem elected_low (top : Top ranks M) :
    (electionOver s peers).rank ≤ ranks M ∨ n ≤ (electionOver s peers).height.toNat := by
  have outcome := electionOver_outcome s peers
  generalize electionOver s peers = result at outcome
  cases outcome with
  | own upper =>
      left
      rw [resetSelf_rank, home.rank]
      exact top i
  | follow winner member eligible above upper =>
      obtain ⟨j, held⟩ := shows.entries winner member eligible.valid
      obtain ⟨-, known⟩ := settled j _ held
      rcases Nat.eq_zero_or_pos n with rfl | positive
      · exact .inr (Nat.zero_le _)
      · rw [adopt_rank, adopt_height _ _ (known.own positive).2]
        exact known.low positive

variable [Finite Node] (top : Top ranks M)
include top

omit top in
/-- A leader does not follow anyone. -/
theorem elected_leads (late : 12 + ahead addr i ≤ n) (leads : Leads links addr ranks i) :
    electionOver s peers = awdlElectionResetSelf s := by
  have outcome := electionOver_outcome s peers
  generalize electionOver s peers = result at outcome
  rw [leads_iff] at leads
  obtain ⟨highest, alone⟩ := leads
  cases outcome with
  | own upper => rfl
  | follow winner member eligible above upper =>
      exfalso
      obtain ⟨j, held⟩ := shows.entries winner member eligible.valid
      obtain ⟨link, known⟩ := settled j _ held
      have bounded := known.bounded (by omega)
      have rank := highest M
      rw [key_lt_iff, resetSelf_rank, resetSelf_height, home.rank, resetSelf_selfAddr, home.self,
        zero_toNat, (known.own (by omega)).1] at above
      -- The winner is a root at the top with a larger address.
      have flat : winner.election.height.toNat = 0 := by omega
      have larger : (addr i).value < (addr j).value := by omega
      have same : winner.election.rank = ranks i := by omega
      obtain ⟨rooted, -, -⟩ := known.root (by omega) flat
      have equal : Top ranks j := fun k => (highest k).trans_eq (same.symm.trans rooted)
      have fewer : ahead addr j < ahead addr i := ahead_lt larger
      have below := known.yields (by omega) equal (alone j link larger)
      omega

/-- A node at the top that hears a leader with a larger address follows someone. -/
theorem elected_yields (distinct : Function.Injective addr) (late : 12 + ahead addr i ≤ n)
    (present : ∀ j, links j i → (view j).Nonempty) (highest : Top ranks i)
    (leads : ¬ Leads links addr ranks i) : 1 ≤ (electionOver s peers).height.toNat := by
  have outcome := electionOver_outcome s peers
  generalize electionOver s peers = result at outcome
  obtain ⟨j, link, larger, leader⟩ := hears_leader highest leads
  obtain ⟨t, held⟩ := present j link
  have fewer : ahead addr j < ahead addr i := ahead_lt larger
  cases outcome with
  | own upper =>
      exfalso
      obtain ⟨flat, rank, -, sync⟩ := (settled j t held).2.leader (by omega) leader top
      have self := ((settled j t held).2.own (by omega)).1
      obtain ⟨peer, member, valid, rfl⟩ := shows.known j t held
      have eligible : Eligible s.selfAddr peer := by
        refine ⟨valid, ?_, ?_⟩
        · rw [UInt32.le_iff_toNat_le, UInt32.toNat_add, flat]
          decide
        · rw [home.self, sync]
          intro same
          obtain rfl := distinct same
          exact Nat.lt_irrefl _ larger
      have bound := upper peer member eligible
      have rank' := highest M
      rw [key_le_iff, resetSelf_rank, resetSelf_height, home.rank, resetSelf_selfAddr, home.self,
        zero_toNat, self] at bound
      have atTop := top i
      omega
  | follow winner member eligible above upper =>
      obtain ⟨k, known⟩ := shows.entries winner member eligible.valid
      rw [adopt_height _ _ ((settled k _ known).2.own (by omega)).2]
      exact Nat.le_add_left 1 _

theorem elected_honest (distinct : Function.Injective addr) (late : border ≤ n)
    (known : ∀ j, 12 + ahead addr j ≤ border) (present : ∀ j, links j i → (view j).Nonempty) :
    Honest links addr (Leads links addr ranks) (ranks M) i (electionOver s peers) ∨
      n + 1 ≤ border + (electionOver s peers).height.toNat := by
  have enough := known i
  have leads := elected_leads settled shows home (by omega)
  have yields := elected_yields settled shows home top distinct (by omega) present
  have outcome := electionOver_outcome s peers
  generalize electionOver s peers = result at outcome leads yields
  cases outcome with
  | own upper =>
      left
      by_cases highest : Top ranks i
      · have leader : Leads links addr ranks i := by
          by_contra other
          exact Nat.not_succ_le_zero 0 (yields highest other)
        exact .inr ⟨home.rank.trans (Nat.le_antisymm (top i) (highest M)), i, leader, home.self, .start⟩
      · refine .inl ?_
        rw [resetSelf_rank, home.rank]
        refine Nat.lt_of_not_le fun reaches => highest fun k => ?_
        exact Nat.le_trans (top k) reaches
  | follow winner member eligible above upper =>
      obtain ⟨j, held⟩ := shows.entries winner member eligible.valid
      obtain ⟨link, settled⟩ := settled j _ held
      rw [Honest, adopt_rank, adopt_height _ _ (settled.own (by omega)).2]
      rcases settled.honest late with (lower | ⟨rank, L, leader, master, walk⟩) | high
      · exact .inl (.inl lower)
      · exact .inl (.inr ⟨rank, L, leader, master, walk.hop link⟩)
      · exact .inr (by omega)

theorem elected_placed (distinct : Function.Injective addr)
    (known : ∀ j, 12 + ahead addr j ≤ border) (present : ∀ j, links j i → (view j).Nonempty)
    {d : Nat} (near : d ≤ 10) (late : border + 11 + d ≤ n + 1)
    (hops : Hops links (Leads links addr ranks) d i) :
    Placed links addr (Leads links addr ranks) (ranks M) d i (electionOver s peers) := by
  have enough := known i
  have leads := elected_leads settled shows home (by omega)
  have yields := elected_yields settled shows home top distinct (by omega) present
  cases d with
  | zero =>
      have leader := hops.root
      rw [leads leader]
      have highest := leader
      rw [leads_iff] at highest
      exact ⟨home.rank.trans (Nat.le_antisymm (top i) (highest.1 M)), rfl, i, leader, home.self,
        Parent.own home.self⟩
  | succ d =>
      obtain ⟨peer, present, candidate, rank, height⟩ := closer_competes distinct shows home.self near
        (fun j t held => (settled j t held).2.placed d (by omega) (by omega)) present hops
      have outcome := electionOver_outcome s peers
      generalize electionOver s peers = result at outcome yields
      cases outcome with
      | own upper =>
          exfalso
          have bound := (key_le_iff _ _).mp (upper peer present candidate)
          rw [resetSelf_rank, home.rank, rank] at bound
          have highest : Top ranks i := fun k => Nat.le_trans (top k) (by omega)
          refine Nat.not_succ_le_zero 0 (yields highest fun leader => ?_)
          exact absurd (hops.shortest 0 i leader .start) (Nat.not_succ_le_zero d)
      | follow winner member eligible above upper =>
          obtain ⟨j, held⟩ := shows.entries winner member eligible.valid
          obtain ⟨link, settled⟩ := settled j _ held
          obtain ⟨self, low⟩ := settled.own (by omega)
          have bound := (key_le_iff _ _).mp (upper peer present candidate)
          exact follow_placed link self low (settled.certain (by omega)) hops (by omega)

/-- A node that holds states of one level elects a state of the next. -/
theorem elected_settled (distinct : Function.Injective addr)
    (known : ∀ j, 12 + ahead addr j ≤ border)
    (present : 0 < n → ∀ j, links j i → (view j).Nonempty) :
    Settled links addr ranks M border (n + 1) i (electionOver s peers) := by
  have enough := known i
  refine ⟨fun _ => elected_own peers home, ?_, ?_, ?_, ?_, ?_, ?_⟩
  · intro late flat
    rw [elected_root settled shows (by omega) flat]
    exact ⟨home.rank, home.self, home.self⟩
  · intro _
    exact (elected_low settled shows home top).imp id fun high => by omega
  · intro late leader
    rw [elected_leads settled shows home (by omega) leader]
    rfl
  · intro late highest other
    exact elected_yields settled shows home top distinct (by omega) (present (by omega)) highest other
  · intro late
    rcases Nat.lt_or_ge n border with before | after
    · exact .inr (by omega)
    · exact elected_honest settled shows home top distinct after known (present (by omega))
  · intro d near late hops
    exact elected_placed settled shows home top distinct known (present (by omega)) near late hops

end View

variable [Finite Node]

/-- Every network of nodes with this rule gains a level in each round. -/
theorem clusters_gains {World : Type} {net : Network World Node ElectionState}
    (rule : net.rule = fun _ => Elects) (distinct : Function.Injective addr) (top : Top ranks M)
    (known : ∀ j, 12 + ahead addr j ≤ border) :
    Gains net (Home addr ranks) (Settled net.links addr ranks M border) where
  mono := by
    intro n i s settled
    refine ⟨fun _ => settled.own (by omega), fun _ => settled.root (by omega), ?_, fun late =>
      settled.leads (by omega), fun late => settled.yields (by omega), ?_, ?_⟩
    · intro positive
      exact (settled.low (by omega)).imp id fun high => by omega
    · intro late
      exact (settled.honest (by omega)).imp id fun high => by omega
    · intro d near late hops
      exact settled.placed d near (by omega) hops
  gain := by
    rintro n i view s s' within present home elects
    rw [rule] at elects
    obtain ⟨peers, shows, rfl⟩ := elects
    refine ⟨⟨?_, ?_⟩, elected_settled within shows home top distinct known present⟩
    · rw [electionOver_selfAddr]
      exact home.self
    · rw [electionOver_selfRank]
      exact home.rank

end Elect

section Worlds

variable {Node : Type} [DecidableEq Node] [Finite Node] {links : Node → Node → Prop}
  [DecidableRel links] {addr : Node → EtherAddr}

/-- Whatever the nodes believe and hear at the start, each node within ten hops of a leader
takes its place in the tree of a nearest one, and keeps it. No two leaders hear each other. -/
theorem clusters_form (distinct : Function.Injective addr) (start world later : World Node)
    (own : ∀ i, (start.state i).selfAddr = addr i) (known : Neighbouring links addr start) (d : Nat)
    (near : d ≤ 10)
    (rounds : Rounds (electionNet links addr) (Move links addr) start (Nat.card Node + 22 + d) world)
    (after : Relation.ReflTransGen (Step links addr) world later) (j : Node)
    (hops : Hops (Hears links) (Leads (Hears links) addr fun i => (start.state i).selfRank) d j) :
    InTree links addr (Leads (Hears links) addr fun i => (start.state i).selfRank) start.state d j
        (later.state j) ∧
      ∀ L L', Leads (Hears links) addr (fun i => (start.state i).selfRank) L →
        Leads (Hears links) addr (fun i => (start.state i).selfRank) L' →
        ¬ (Hears links L L' ∧ Hears links L' L) := by
  refine ⟨?_, fun L L' first second both => leads_apart distinct both.1.2 first second both⟩
  obtain ⟨M, leader, -⟩ := hops.walk
  rw [leads_iff] at leader
  obtain ⟨top, -⟩ := leader
  have few : ∀ i, 12 + ahead addr i ≤ 11 + Nat.card Node := fun i => by
    have bound : ahead addr i < Nat.card Node := ahead_card i
    omega
  have gains : Gains (electionNet links addr) _ _ := clusters_gains rfl distinct top few
  have within := unknown_within distinct own known fun j s =>
    show Settled (Hears links) addr (fun i => (start.state i).selfRank) M (11 + Nat.card Node) 0 j s from
      ⟨by omega, by omega, by omega, by omega, by omega, by omega, by omega⟩
  have settled := rounds_level gains distinct known within rounds after j
  refine (settled.placed d near (by omega) hops).inTree fun L leads => ?_
  rw [leads_iff] at leads
  exact Nat.le_antisymm (top L) (leads.1 M)

end Worlds

section Pair

def evenState (i : Fin 3) : ElectionState := { ghostState i with selfCounter := 0 }

def evenWorld : World (Fin 3) := pairWorld evenState (some ghostZero) (some ghostOne)

theorem even_top (i : Fin 3) : Top (fun i => (evenWorld.state i).selfRank) i := by
  intro j
  revert i j
  decide

theorem even_leads : Leads (Hears pair) nodeAddr (fun i => (evenWorld.state i).selfRank) 1 := by
  rw [leads_iff]
  have largest : ∀ j : Fin 3, pair j 1 → ¬ (nodeAddr 1).value < (nodeAddr j).value := by decide
  exact ⟨even_top 1, fun j hears larger => absurd larger (largest j hears.1)⟩

/-- The first node hears the second one, which has a larger address. -/
theorem even_hops : Hops (Hears pair)
    (Leads (Hears pair) nodeAddr fun i => (evenWorld.state i).selfRank) 1 0 := by
  refine yields_hops (even_top 0) fun leads => ?_
  rw [leads_iff] at leads
  exact leads.2 1 ⟨by decide, by decide⟩ (by decide) even_leads

theorem clusters_form_pair : ∃ world,
    Rounds (electionNet pair nodeAddr) (Move pair nodeAddr) evenWorld 26 world ∧
      (evenWorld.state 0).masterAddr = ghostAddr ∧ (world.state 0).masterAddr = nodeAddr 1 ∧
      (world.state 0).height.toNat = 1 := by
  obtain ⟨state, zero, one, rounds⟩ := pair_rounds evenState (some ghostZero) (some ghostOne) 26
  have enough : Nat.card (Fin 3) + 22 + 1 = 26 := by rw [Nat.card_fin]
  have settled := (clusters_form (by decide) evenWorld _ _ (by decide) ghost_neighbouring 1 (by decide)
    (enough ▸ rounds) .refl 0 even_hops).1
  obtain ⟨M, -, master, -, -, parent⟩ := settled.master
  have neighbour : ∀ j : Fin 3, pair j 0 → j = 1 := by decide
  obtain rfl := neighbour M parent.one.1.1
  exact ⟨_, rounds, rfl, master, settled.height⟩

end Pair

end Owl.ElectionClusters
