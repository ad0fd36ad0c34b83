import Owl.ElectionRest
import Mathlib.Logic.Relation
import Mathlib.Data.Fintype.Card
import Mathlib.Logic.Function.Basic

/-!
A network of honest nodes under asynchrony. Each node has its election state
and its peer table; each link has a queue of snapshots in flight. Nodes elect
on whatever their tables hold, so decisions rest on old snapshots.

Two facts carry the whole development. Every snapshot in circulation is below
the present state of its sender, and it comes with a chain of distinct nodes,
one for each level of its tree, which are still at that level or better. With
at most eleven nodes a chain of full height visits everyone, hence the height
limit never takes a node's parent away.
-/

namespace Owl.ElectionNetwork

open Ether Election Peers ElectionRun ElectionRest

variable {Node : Type} [DecidableEq Node]

structure World (Node : Type) where
  state : Node → ElectionState
  peers : Node → PeerMap
  /-- Snapshots in flight from the first node to the second, oldest first. -/
  queue : Node → Node → List ElectionState

def Delivered (addr : EtherAddr) (snapshot : ElectionState) (old new : PeerMap) : Prop :=
  ∃ entry : Peer, entry.isValid = true ∧ entry.addr = addr ∧ entry.election = snapshot ∧
    ∀ peer, peer ∈ awdlPeersIterate new ↔
      peer = entry ∨ peer ∈ awdlPeersIterate old ∧ peer.addr ≠ addr

def enqueue (links : Node → Node → Prop) [DecidableRel links] (world : World Node) (j : Node) :
    Node → Node → List ElectionState :=
  fun source target =>
    if source = j ∧ links j target then world.queue source target ++ [world.state j]
    else world.queue source target

def replaceQueue (queue : Node → Node → List ElectionState) (j i : Node)
    (messages : List ElectionState) : Node → Node → List ElectionState :=
  fun source target => if source = j ∧ target = i then messages else queue source target

inductive Step (links : Node → Node → Prop) [DecidableRel links] (addr : Node → EtherAddr) :
    World Node → World Node → Prop where
  | broadcast (world : World Node) (j : Node) :
      Step links addr world { world with queue := enqueue links world j }
  | lose (world : World Node) (j i : Node) (earlier later : List ElectionState)
      (lost : ElectionState) (flight : world.queue j i = earlier ++ lost :: later) :
      Step links addr world { world with queue := replaceQueue world.queue j i (earlier ++ later) }
  | deliver (world : World Node) (j i : Node) (link : links j i) (other : j ≠ i)
      (snapshot : ElectionState) (later : List ElectionState)
      (flight : world.queue j i = snapshot :: later) (table : PeerMap)
      (stored : Delivered (addr j) snapshot (world.peers i) table) :
      Step links addr world { world with
        peers := Function.update world.peers i table
        queue := replaceQueue world.queue j i later }
  | elect (world : World Node) (i : Node) :
      Step links addr world { world with
        state := Function.update world.state i (awdlElectionRun (world.state i) (world.peers i)) }

/-- Every node is its own master, nothing is in flight and no peer is valid. -/
structure Initial (addr : Node → EtherAddr) (world : World Node) : Prop where
  own : ∀ i, (world.state i).selfAddr = addr i
  reset : ∀ i, world.state i = awdlElectionResetSelf (world.state i)
  peers : ∀ i, ∀ peer ∈ awdlPeersIterate (world.peers i), peer.isValid = false
  queue : ∀ j i, world.queue j i = []

def triple (s : ElectionState) : ℕ ×ₗ (ℕ ×ₗ ℤ) :=
  toLex (s.masterCounter.toNat, toLex (s.masterMetric.toNat, -(s.height.toNat : ℤ)))

def SyncsTo (addr : Node → EtherAddr) (state : Node → ElectionState) (i j : Node) : Prop :=
  (state i).syncAddr ≠ addr i ∧ (state i).syncAddr = addr j

def Reaches (s : ElectionState) (rank height : Nat) : Prop :=
  rank < s.rank ∨ rank = s.rank ∧ s.height.toNat ≤ height

def Below (a b : ElectionState) : Prop := Reaches b a.rank a.height.toNat

def Behind (a b : ElectionState) : Prop :=
  a.rank < b.rank ∨ a.rank = b.rank ∧ b.height.toNat < a.height.toNat

theorem triple_le_iff (a b : ElectionState) : triple a ≤ triple b ↔ Below a b := by
  have aMetric := a.masterMetric.toNat_lt
  have bMetric := b.masterMetric.toNat_lt
  simp only [triple, Below, Reaches, Prod.Lex.toLex_le_toLex, ElectionState.rank]
  omega

theorem Below.refl (a : ElectionState) : Below a a := .inr ⟨rfl, le_refl _⟩

theorem Below.trans {a b c : ElectionState} (first : Below a b) (second : Below b c) :
    Below a c := by
  unfold Below Reaches at *
  omega

theorem Reaches.below {a b : ElectionState} {rank height : Nat} (reached : Reaches a rank height)
    (better : Below a b) : Reaches b rank height := by
  unfold Below Reaches at *
  omega

theorem Behind.below {a b c : ElectionState} (parent : Behind a b) (better : Below b c) :
    Behind a c := by
  unfold Below Behind Reaches at *
  omega

theorem Behind.trans {a b c : ElectionState} (first : Behind a b) (second : Behind b c) :
    Behind a c := by
  unfold Behind at *
  omega

theorem Behind.irrefl (a : ElectionState) : ¬ Behind a a := by
  unfold Behind
  omega

def Holds (addr : Node → EtherAddr) (world : World Node) (i j : Node) (s : ElectionState) : Prop :=
  ∃ peer ∈ awdlPeersIterate (world.peers i), peer.isValid = true ∧ peer.addr = addr j ∧
    peer.election = s

inductive Circulates (addr : Node → EtherAddr) (world : World Node) (j : Node) :
    ElectionState → Prop where
  | current : Circulates addr world j (world.state j)
  | queued (i : Node) (s : ElectionState) (flight : s ∈ world.queue j i) :
      Circulates addr world j s
  | stored (i : Node) (s : ElectionState) (held : Holds addr world i j s) :
      Circulates addr world j s

def Chain (state : Node → ElectionState) (j : Node) (s : ElectionState) : Prop :=
  ∃ nodes : List Node, nodes.Nodup ∧ nodes.length = s.height.toNat + 1 ∧
    nodes.getLast? = some j ∧
    ∀ level node, nodes[level]? = some node → Reaches (state node) s.rank level

structure Snapshot (addr : Node → EtherAddr) (state : Node → ElectionState) (j : Node)
    (s : ElectionState) : Prop where
  own : s.selfAddr = addr j
  height : s.height.toNat ≤ 10
  below : Below s (state j)
  parent : s.height.toNat = 0 ∧ s.syncAddr = addr j ∧ s.rank = (state j).selfRank ∨
    0 < s.height.toNat ∧ ∃ k, k ≠ j ∧ s.syncAddr = addr k ∧ Behind s (state k)
  chain : Chain state j s

structure Sound (addr : Node → EtherAddr) (world : World Node) : Prop where
  own : ∀ i, (world.state i).selfAddr = addr i
  pairs : ∀ i j, (world.state i).selfRank = (world.state j).selfRank → i = j
  entries : ∀ i, ∀ peer ∈ awdlPeersIterate (world.peers i), peer.isValid = true →
    ∃ j, j ≠ i ∧ peer.addr = addr j
  snapshots : ∀ j s, Circulates addr world j s → Snapshot addr world.state j s
  sorted : ∀ j i, (world.queue j i).Pairwise Below
  fresher : ∀ i j s, Holds addr world i j s → ∀ later ∈ world.queue j i, Below s later
  follows : ∀ i, world.state i = awdlElectionResetSelf (world.state i) ∨
    ∃ j s, j ≠ i ∧ Holds addr world i j s ∧ (world.state i).syncAddr = addr j ∧
      Behind (world.state i) s

omit [DecidableEq Node] in
/-- Snapshots stay what they are while the states improve. -/
theorem Snapshot.mono {addr : Node → EtherAddr} {state state' : Node → ElectionState}
    (grows : ∀ k, Below (state k) (state' k)) (same : ∀ k, (state' k).selfRank = (state k).selfRank)
    {j : Node} {s : ElectionState} (snapshot : Snapshot addr state j s) :
    Snapshot addr state' j s where
  own := snapshot.own
  height := snapshot.height
  below := snapshot.below.trans (grows j)
  parent := by
    rcases snapshot.parent with ⟨flat, sync, rank⟩ | ⟨positive, k, other, sync, behind⟩
    · exact .inl ⟨flat, sync, rank.trans (same j).symm⟩
    · exact .inr ⟨positive, k, other, sync, behind.below (grows k)⟩
  chain := by
    obtain ⟨nodes, distinct, length, last, levels⟩ := snapshot.chain
    exact ⟨nodes, distinct, length, last,
      fun level node found => (levels level node found).below (grows node)⟩

section Elect

variable {addr : Node → EtherAddr} {world : World Node} (sound : Sound addr world)
include sound

omit [DecidableEq Node] in
theorem entry_snapshot (i : Node) (peer : Peer) (member : peer ∈ awdlPeersIterate (world.peers i))
    (valid : peer.isValid = true) :
    ∃ j, j ≠ i ∧ Holds addr world i j peer.election ∧
      Snapshot addr world.state j peer.election := by
  obtain ⟨j, other, known⟩ := sound.entries i peer member valid
  have held : Holds addr world i j peer.election := ⟨peer, member, valid, known, rfl⟩
  exact ⟨j, other, held, sound.snapshots j _ (.stored i _ held)⟩

omit [DecidableEq Node] in
/-- The entry a node follows never drops out of its election: a child would be
behind itself, and a snapshot of full height has a chain through the node. -/
theorem parent_eligible [Fintype Node] (small : Fintype.card Node ≤ 11)
    (distinct : Function.Injective addr) (i j : Node) (other : j ≠ i) (peer : Peer)
    (valid : peer.isValid = true) (snapshot : Snapshot addr world.state j peer.election)
    (behind : Behind (world.state i) peer.election) :
    Eligible (world.state i).selfAddr peer where
  valid := valid
  room := by
    rw [UInt32.le_iff_toNat_le, UInt32.toNat_add]
    have one : (1 : UInt32).toNat = 1 := rfl
    have ten : awdlElectionTreeMaxHeight.toNat = 10 := rfl
    have bound := snapshot.height
    by_contra full
    obtain ⟨nodes, nodup, length, -, levels⟩ := snapshot.chain
    -- Eleven different nodes on the chain leave none out.
    have visited : i ∈ nodes := by
      by_contra missing
      have count := (List.nodup_cons.mpr ⟨missing, nodup⟩).length_le_card
      simp only [List.length_cons] at count
      omega
    obtain ⟨level, found⟩ := List.mem_iff_getElem?.mp visited
    obtain ⟨inside, -⟩ := List.getElem?_eq_some_iff.mp found
    have reached := levels level i found
    unfold Reaches at reached
    unfold Behind at behind
    omega
  notChild := by
    rw [sound.own]
    intro child
    rcases snapshot.parent with ⟨-, sync, -⟩ | ⟨-, k, -, sync, upper⟩
    · exact other (distinct (sync ▸ child))
    · have same : k = i := distinct (sync ▸ child)
      subst same
      exact Behind.irrefl _ (behind.trans upper)

omit [DecidableEq Node] in
/-- An election never makes a node worse. -/
theorem elect_grows [Fintype Node] (small : Fintype.card Node ≤ 11)
    (distinct : Function.Injective addr) (i : Node) :
    Below (world.state i) (awdlElectionRun (world.state i) (world.peers i)) := by
  have outcome := electionOver_outcome (world.state i) (awdlPeersIterate (world.peers i))
  unfold awdlElectionRun
  generalize electionOver (world.state i) (awdlPeersIterate (world.peers i)) = result at outcome
  rcases sound.follows i with reset | ⟨j, s, other, ⟨peer, member, valid, known, rfl⟩, -, behind⟩
  · cases outcome with
    | own upper =>
        rw [← reset]
        exact Below.refl _
    | follow winner member eligible above upper =>
        obtain ⟨j, other, -, snapshot⟩ := entry_snapshot sound i winner member eligible.valid
        rw [← reset] at above ⊢
        rw [key_lt_iff] at above
        have selfRank := root_rank i reset
        have flat := root_height i reset
        -- An equal rank at height 0 would be another node with the same pair.
        have higher : (world.state i).rank < winner.election.rank := by
          rcases above with higher | ⟨equal, low⟩
          · exact higher
          · rcases snapshot.parent with ⟨-, -, own⟩ | ⟨positive, -⟩
            · exact absurd (sound.pairs j i (by omega)) other
            · omega
        exact .inl higher
  -- The old parent still competes, so the winner is no worse than it.
  · have snapshot : Snapshot addr world.state j peer.election :=
      sound.snapshots j _ (.stored i _ ⟨peer, member, valid, known, rfl⟩)
    have eligible := parent_eligible sound small distinct i j other peer valid snapshot behind
    unfold Behind at behind
    unfold Below Reaches
    cases outcome with
    | own upper =>
        have bound := (key_le_iff _ _).mp (upper peer member eligible)
        omega
    | follow winner present candidate _ upper =>
        have bound := (key_le_iff _ _).mp (upper peer member eligible)
        obtain ⟨k, -, -, winnerSnapshot⟩ := entry_snapshot sound i winner present candidate.valid
        rw [adopt_rank, adopt_height _ _ winnerSnapshot.height]
        omega

omit sound in
/-- The chain of the winner does not contain the node that adopts it, since the
node would fall below a level it has reached. -/
theorem adopted_chain (i j : Node) (s : ElectionState) (snapshot : Snapshot addr world.state j s)
    (grows : Below (world.state i) (adopt (awdlElectionResetSelf (world.state i)) s)) :
    Chain (Function.update world.state i (adopt (awdlElectionResetSelf (world.state i)) s)) i
      (adopt (awdlElectionResetSelf (world.state i)) s) := by
  obtain ⟨nodes, distinct, length, -, levels⟩ := snapshot.chain
  have height := adopt_height (awdlElectionResetSelf (world.state i)) s snapshot.height
  -- On the chain the node would already have reached a better level than it adopts.
  have fresh : i ∉ nodes := by
    intro visited
    obtain ⟨level, found⟩ := List.mem_iff_getElem?.mp visited
    obtain ⟨inside, -⟩ := List.getElem?_eq_some_iff.mp found
    have reached := (levels level i found).below grows
    unfold Reaches at reached
    rw [adopt_rank] at reached
    omega
  refine ⟨nodes ++ [i], ?_, by simp; omega, by simp, ?_⟩
  · exact List.nodup_append.mpr ⟨distinct, List.nodup_singleton i, by grind⟩
  · intro level node found
    rw [List.getElem?_append] at found
    split at found
    case isTrue inside =>
      have reached := levels level node found
      have different : node ≠ i := fun same => fresh (same ▸ List.mem_of_getElem? found)
      rw [Function.update_of_ne different]
      exact reached
    case isFalse outside =>
      obtain ⟨inside, same⟩ := List.getElem?_eq_some_iff.mp found
      simp only [List.length_singleton] at inside
      have node_eq : node = i := by simpa using same.symm
      subst node_eq
      rw [Function.update_self]
      exact .inr ⟨rfl, by omega⟩

theorem elect_snapshot (i : Node)
    (grows : Below (world.state i) (awdlElectionRun (world.state i) (world.peers i))) :
    Snapshot addr (Function.update world.state i
      (awdlElectionRun (world.state i) (world.peers i))) i
      (awdlElectionRun (world.state i) (world.peers i)) := by
  have outcome := electionOver_outcome (world.state i) (awdlPeersIterate (world.peers i))
  unfold awdlElectionRun at grows ⊢
  generalize electionOver (world.state i) (awdlPeersIterate (world.peers i)) = result
    at outcome grows
  cases outcome with
  | own upper =>
      refine ⟨sound.own i, by simp, by simpa using Below.refl _, .inl ⟨by simp, ?_, ?_⟩, ?_⟩
      · exact sound.own i
      · rw [Function.update_self]; rfl
      · refine ⟨[i], by simp, by simp, rfl, ?_⟩
        intro level node found
        obtain ⟨inside, same⟩ := List.getElem?_eq_some_iff.mp found
        have node_eq : node = i := by simpa using same.symm
        subst node_eq
        rw [Function.update_self]
        exact .inr ⟨rfl, by simp⟩
  | follow winner member eligible above upper =>
      obtain ⟨j, other, -, snapshot⟩ := entry_snapshot sound i winner member eligible.valid
      have height := adopt_height (awdlElectionResetSelf (world.state i)) _ snapshot.height
      have room := eligible.room
      rw [UInt32.le_iff_toNat_le] at room
      refine ⟨sound.own i, room, by simpa using Below.refl _,
        .inr ⟨by omega, j, other, snapshot.own, ?_⟩,
        adopted_chain i j _ snapshot grows⟩
      rw [Function.update_of_ne other]
      -- The parent may have improved since the snapshot was taken.
      have behind : Behind (adopt (awdlElectionResetSelf (world.state i)) winner.election)
          winner.election := .inr ⟨rfl, by omega⟩
      exact behind.below snapshot.below

theorem elect_sound [Fintype Node] (small : Fintype.card Node ≤ 11)
    (distinct : Function.Injective addr) (i : Node) :
    Sound addr { world with
      state := Function.update world.state i
        (awdlElectionRun (world.state i) (world.peers i)) } := by
  have grows := elect_grows sound small distinct i
  have fresh := elect_snapshot sound i grows
  have outcome := electionOver_outcome (world.state i) (awdlPeersIterate (world.peers i))
  have keepAddr : (awdlElectionRun (world.state i) (world.peers i)).selfAddr =
      (world.state i).selfAddr := electionOver_selfAddr _ _
  have keepRank : (awdlElectionRun (world.state i) (world.peers i)).selfRank =
      (world.state i).selfRank := electionOver_selfRank _ _
  change Outcome _ _ (awdlElectionRun (world.state i) (world.peers i)) at outcome
  generalize awdlElectionRun (world.state i) (world.peers i) = result at *
  -- Only the state of `i` changes, and it improves.
  have better : ∀ k, Below (world.state k) (Function.update world.state i result k) := by
    intro k
    by_cases same : k = i
    · subst same; simpa using grows
    · rw [Function.update_of_ne same]; exact Below.refl _
  have ranks : ∀ k, (Function.update world.state i result k).selfRank =
      (world.state k).selfRank := by
    intro k
    by_cases same : k = i
    · subst same; simpa using keepRank
    · rw [Function.update_of_ne same]
  constructor
  case own =>
    intro k
    by_cases same : k = i
    · subst same; simpa using keepAddr.trans (sound.own k)
    · simpa [Function.update_of_ne same] using sound.own k
  case pairs =>
    intro k l equal
    simp only [ranks] at equal
    exact sound.pairs k l equal
  case entries => exact sound.entries
  case snapshots =>
    intro j s place
    cases place with
    | current =>
        by_cases same : j = i
        · subst same; simpa using fresh
        · have old := (sound.snapshots j _ .current).mono better ranks
          simpa [Function.update_of_ne same] using old
    | queued k _ flight => exact (sound.snapshots j s (.queued k s flight)).mono better ranks
    | stored k _ held => exact (sound.snapshots j s (.stored k s held)).mono better ranks
  case sorted => exact sound.sorted
  case fresher => exact sound.fresher
  case follows =>
    intro k
    by_cases same : k = i
    · subst same
      simp only [Function.update_self]
      cases outcome with
      | own upper => exact .inl rfl
      | follow winner member eligible above upper =>
          obtain ⟨j, other, held, snapshot⟩ := entry_snapshot sound k winner member eligible.valid
          have height := adopt_height (awdlElectionResetSelf (world.state k)) _ snapshot.height
          exact .inr ⟨j, _, other, held, snapshot.own, .inr ⟨rfl, by omega⟩⟩
    · simp only [Function.update_of_ne same]
      exact sound.follows k

end Elect

omit [DecidableEq Node] in
/-- Changes to the tables and queues that bring in no new snapshot. -/
theorem circulation_sound {addr : Node → EtherAddr} {world world' : World Node}
    (sound : Sound addr world) (same : world'.state = world.state)
    (entries : ∀ i, ∀ peer ∈ awdlPeersIterate (world'.peers i), peer.isValid = true →
      ∃ j, j ≠ i ∧ peer.addr = addr j)
    (old : ∀ j s, Circulates addr world' j s → Circulates addr world j s)
    (sorted : ∀ j i, (world'.queue j i).Pairwise Below)
    (fresher : ∀ i j s, Holds addr world' i j s → ∀ later ∈ world'.queue j i, Below s later)
    (renewed : ∀ i j s, Holds addr world i j s →
      ∃ s', Holds addr world' i j s' ∧ Below s s') :
    Sound addr world' := by
  constructor
  case own => rw [same]; exact sound.own
  case pairs => rw [same]; exact sound.pairs
  case entries => exact entries
  case snapshots =>
    intro j s place
    rw [same]
    exact sound.snapshots j s (old j s place)
  case sorted => exact sorted
  case fresher => exact fresher
  case follows =>
    intro i
    rw [same]
    rcases sound.follows i with reset | ⟨j, s, other, held, sync, behind⟩
    · exact .inl reset
    · obtain ⟨s', held', better⟩ := renewed i j s held
      exact .inr ⟨j, s', other, held', sync, behind.below better⟩

section Messages

variable {addr : Node → EtherAddr} {world : World Node} (sound : Sound addr world)
include sound

theorem broadcast_sound (links : Node → Node → Prop) [DecidableRel links] (j : Node) :
    Sound addr { world with queue := enqueue links world j } := by
  -- What is in flight is older than what the sender is now.
  have known : ∀ k i, ∀ s ∈ world.queue k i, Below s (world.state k) :=
    fun k i s flight => (sound.snapshots k s (.queued i s flight)).below
  apply circulation_sound sound
  case same => rfl
  case entries => exact sound.entries
  case old =>
    intro k s place
    cases place with
    | current => exact .current
    | queued i _ flight =>
        simp only [enqueue] at flight
        split at flight
        case isTrue sender =>
          rcases List.mem_append.mp flight with earlier | last
          · exact .queued i s earlier
          · rw [List.mem_singleton.mp last, ← sender.1]
            exact .current
        case isFalse => exact .queued i s flight
    | stored i _ held => exact .stored i s held
  case sorted =>
    intro k i
    simp only [enqueue]
    split
    case isTrue sender =>
      refine List.pairwise_append.mpr ⟨sound.sorted k i, List.pairwise_singleton _ _, ?_⟩
      intro s flight last same
      rw [List.mem_singleton.mp same, ← sender.1]
      exact known k i s flight
    case isFalse => exact sound.sorted k i
  case fresher =>
    intro i k s held later flight
    simp only [enqueue] at flight
    split at flight
    case isTrue sender =>
      rcases List.mem_append.mp flight with earlier | last
      · exact sound.fresher i k s held later earlier
      · rw [List.mem_singleton.mp last, ← sender.1]
        exact (sound.snapshots k s (.stored i s held)).below
    case isFalse => exact sound.fresher i k s held later flight
  case renewed => exact fun i k s held => ⟨s, held, Below.refl s⟩

theorem lose_sound (j i : Node) (earlier later : List ElectionState) (lost : ElectionState)
    (flight : world.queue j i = earlier ++ lost :: later) :
    Sound addr { world with queue := replaceQueue world.queue j i (earlier ++ later) } := by
  have fewer : ∀ k l, (replaceQueue world.queue j i (earlier ++ later) k l).Sublist
      (world.queue k l) := by
    intro k l
    simp only [replaceQueue]
    split
    case isTrue link =>
      rw [link.1, link.2, flight]
      exact (List.Sublist.refl earlier).append (List.sublist_cons_self lost later)
    case isFalse => exact List.Sublist.refl _
  apply circulation_sound sound
  case same => rfl
  case entries => exact sound.entries
  case old =>
    intro k s place
    cases place with
    | current => exact .current
    | queued l _ present => exact .queued l s ((fewer k l).subset present)
    | stored l _ held => exact .stored l s held
  case sorted => exact fun k l => (sound.sorted k l).sublist (fewer k l)
  case fresher =>
    exact fun l k s held next present => sound.fresher l k s held next ((fewer k l).subset present)
  case renewed => exact fun l k s held => ⟨s, held, Below.refl s⟩

omit sound in
/-- After a delivery the receiver holds the new snapshot of the sender and the
old ones of all others. -/
theorem delivered_holds (distinct : Function.Injective addr) (j i : Node) (snapshot : ElectionState)
    (later : List ElectionState) (table : PeerMap)
    (stored : Delivered (addr j) snapshot (world.peers i) table) (l k : Node) (s : ElectionState) :
    Holds addr { world with
      peers := Function.update world.peers i table
      queue := replaceQueue world.queue j i later } l k s ↔
      if l = i ∧ k = j then s = snapshot else Holds addr world l k s := by
  obtain ⟨entry, valid, known, election, members⟩ := stored
  by_cases receiver : l = i
  · subst receiver
    simp only [Holds, Function.update_self, members, true_and]
    by_cases sender : k = j
    · subst sender
      simp only [↓reduceIte]
      constructor
      · rintro ⟨peer, rfl | ⟨-, different⟩, -, same, held⟩
        · exact held.symm.trans election
        · exact absurd same different
      · rintro rfl
        exact ⟨entry, .inl rfl, valid, known, election⟩
    · simp only [sender, ↓reduceIte]
      have different : addr k ≠ addr j := fun same => sender (distinct same)
      constructor
      · rintro ⟨peer, rfl | ⟨member, -⟩, usable, same, held⟩
        · exact absurd (same.symm.trans known) different
        · exact ⟨peer, member, usable, same, held⟩
      · rintro ⟨peer, member, usable, same, held⟩
        exact ⟨peer, .inr ⟨member, same ▸ different⟩, usable, same, held⟩
  · simp only [Holds, receiver, false_and, ↓reduceIte, Function.update_of_ne receiver]

theorem deliver_sound (distinct : Function.Injective addr) (j i : Node) (other : j ≠ i)
    (snapshot : ElectionState) (later : List ElectionState)
    (flight : world.queue j i = snapshot :: later) (table : PeerMap)
    (stored : Delivered (addr j) snapshot (world.peers i) table) :
    Sound addr { world with
      peers := Function.update world.peers i table
      queue := replaceQueue world.queue j i later } := by
  have holds := delivered_holds distinct j i snapshot later table stored
  have sorted := sound.sorted j i
  rw [flight] at sorted
  -- Queues only get shorter; the snapshot that leaves one enters a table.
  have fewer : ∀ k l, (replaceQueue world.queue j i later k l).Sublist (world.queue k l) := by
    intro k l
    simp only [replaceQueue]
    split
    case isTrue link =>
      rw [link.1, link.2, flight]
      exact List.sublist_cons_self snapshot later
    case isFalse => exact List.Sublist.refl _
  apply circulation_sound sound
  case same => rfl
  case entries =>
    obtain ⟨entry, -, known, -, members⟩ := stored
    intro l peer member valid
    by_cases receiver : l = i
    · subst receiver
      simp only [Function.update_self, members] at member
      rcases member with rfl | ⟨member, -⟩
      · exact ⟨j, other, known⟩
      · exact sound.entries l peer member valid
    · simp only [Function.update_of_ne receiver] at member
      exact sound.entries l peer member valid
  case old =>
    intro k s place
    cases place with
    | current => exact .current
    | queued l _ present => exact .queued l s ((fewer k l).subset present)
    | stored l _ held =>
        rw [holds] at held
        split at held
        case isTrue link =>
          obtain ⟨rfl, rfl⟩ := link
          exact .queued l s (by rw [flight, held]; exact List.mem_cons_self)
        case isFalse => exact .stored l s held
  case sorted => exact fun k l => (sound.sorted k l).sublist (fewer k l)
  case fresher =>
    intro l k s held next present
    rw [holds] at held
    split at held
    case isTrue link =>
      obtain ⟨rfl, rfl⟩ := link
      simp only [replaceQueue, and_self, ↓reduceIte] at present
      rw [held]
      exact List.rel_of_pairwise_cons sorted present
    case isFalse => exact sound.fresher l k s held next ((fewer k l).subset present)
  case renewed =>
    intro l k s held
    by_cases link : l = i ∧ k = j
    · refine ⟨snapshot, (holds l k snapshot).mpr (by simp [link]), ?_⟩
      obtain ⟨rfl, rfl⟩ := link
      exact sound.fresher l k s held snapshot (by rw [flight]; exact List.mem_cons_self)
    · exact ⟨s, (holds l k s).mpr (by simpa [link] using held), Below.refl s⟩

end Messages

section Runs

variable {addr : Node → EtherAddr} {links : Node → Node → Prop} [DecidableRel links]

omit [DecidableEq Node] in
theorem initial_sound {world : World Node} (start : Initial addr world)
    (pairs : Function.Injective fun i => selfPair (world.state i)) : Sound addr world := by
  -- Tables without valid entries hold no snapshot.
  have unheld : ∀ i j s, ¬ Holds addr world i j s := by
    rintro i j s ⟨peer, member, valid, -⟩
    rw [start.peers i peer member] at valid
    exact absurd valid (by decide)
  constructor
  case own => exact start.own
  case pairs =>
    intro i j equal
    apply pairs
    have notLess := mt (selfPair_lt_iff (world.state i) (world.state j)).mp (by omega)
    have notMore := mt (selfPair_lt_iff (world.state j) (world.state i)).mp (by omega)
    exact le_antisymm (not_lt.mp notMore) (not_lt.mp notLess)
  case entries =>
    intro i peer member valid
    rw [start.peers i peer member] at valid
    exact absurd valid (by decide)
  case snapshots =>
    intro j s place
    cases place with
    | current =>
        have reset := start.reset j
        have flat := root_height j reset
        refine ⟨start.own j, by omega, Below.refl _,
          .inl ⟨flat, ?_, root_rank j reset⟩, [j], by simp, by simp [flat], rfl, ?_⟩
        · rw [reset]; exact start.own j
        · intro level node found
          obtain ⟨inside, same⟩ := List.getElem?_eq_some_iff.mp found
          have node_eq : node = j := by simpa using same.symm
          subst node_eq
          exact .inr ⟨rfl, by omega⟩
    | queued i _ flight => rw [start.queue] at flight; exact absurd flight List.not_mem_nil
    | stored i _ held => exact absurd held (unheld i j s)
  case sorted => intro j i; rw [start.queue]; exact List.Pairwise.nil
  case fresher => exact fun i j s held => absurd held (unheld i j s)
  case follows => exact fun i => .inl (start.reset i)

theorem step_sound [Fintype Node] (small : Fintype.card Node ≤ 11)
    (distinct : Function.Injective addr) {world world' : World Node} (sound : Sound addr world)
    (step : Step links addr world world') :
    Sound addr world' ∧ ∀ i, Below (world.state i) (world'.state i) := by
  cases step with
  | broadcast j => exact ⟨broadcast_sound sound links j, fun i => Below.refl _⟩
  | lose j i earlier later lost flight =>
      exact ⟨lose_sound sound j i earlier later lost flight, fun i => Below.refl _⟩
  | deliver j i link other snapshot later flight table stored =>
      exact ⟨deliver_sound sound distinct j i other snapshot later flight table stored,
        fun i => Below.refl _⟩
  | elect i =>
      refine ⟨elect_sound sound small distinct i, ?_⟩
      intro k
      by_cases same : k = i
      · subst same
        simpa using elect_grows sound small distinct k
      · simp only [Function.update_of_ne same]
        exact Below.refl _

theorem run_sound [Fintype Node] (small : Fintype.card Node ≤ 11)
    (distinct : Function.Injective addr) {world world' : World Node} (sound : Sound addr world)
    (run : Relation.ReflTransGen (Step links addr) world world') :
    Sound addr world' ∧ ∀ i, Below (world.state i) (world'.state i) := by
  induction run with
  | refl => exact ⟨sound, fun i => Below.refl _⟩
  | tail _ step ih =>
      obtain ⟨next, better⟩ := step_sound small distinct ih.1 step
      exact ⟨next, fun i => (ih.2 i).trans (better i)⟩

omit [DecidableEq Node] in
/-- A parent is strictly better at present, whatever snapshot was adopted. -/
theorem syncsTo_behind (distinct : Function.Injective addr) {world : World Node}
    (sound : Sound addr world) {i j : Node} (edge : SyncsTo addr world.state i j) :
    Behind (world.state i) (world.state j) := by
  rcases (sound.snapshots i _ .current).parent with ⟨-, own, -⟩ | ⟨-, k, -, sync, behind⟩
  · exact absurd own edge.1
  · have same : k = j := distinct (sync.symm.trans edge.2)
    exact same ▸ behind

omit [DecidableEq Node] in
theorem path_behind (distinct : Function.Injective addr) {world : World Node}
    (sound : Sound addr world) {i j : Node}
    (path : Relation.TransGen (SyncsTo addr world.state) i j) :
    Behind (world.state i) (world.state j) := by
  induction path with
  | single edge => exact syncsTo_behind distinct sound edge
  | tail _ edge ih => exact ih.trans (syncsTo_behind distinct sound edge)

/-- In a network of at most eleven nodes no election ever worsens a node, and
the sync addresses never form a cycle. -/
theorem sync_tree_safety [Fintype Node] (small : Fintype.card Node ≤ 11)
    (distinct : Function.Injective addr) (start world world' : World Node)
    (initial : Initial addr start)
    (pairs : Function.Injective fun i => selfPair (start.state i))
    (before : Relation.ReflTransGen (Step links addr) start world)
    (after : Relation.ReflTransGen (Step links addr) world world') :
    (∀ i, triple (world.state i) ≤ triple (world'.state i)) ∧
      ∀ i, ¬ Relation.TransGen (SyncsTo addr world'.state) i i := by
  obtain ⟨sound, -⟩ := run_sound small distinct (initial_sound initial pairs) before
  obtain ⟨final, better⟩ := run_sound small distinct sound after
  refine ⟨fun i => (triple_le_iff _ _).mpr (better i), ?_⟩
  intro i cycle
  exact Behind.irrefl _ (path_behind distinct final cycle)

end Runs

/-! Three nodes in a row; the node in the middle hears node 0 and elects it. -/
section Line

def lineStart : World (Fin 3) where
  state i := awdlElectionResetSelf
    ⟨nodeAddr i, nodeAddr i, nodeAddr i, 0, 60, 60, 0, 5 - i.val.toUInt32⟩
  peers _ := tableOf lineState []
  queue _ _ := []

def lineSent : World (Fin 3) :=
  { lineStart with queue := enqueue line.Adj lineStart 0 }

def lineHeard : World (Fin 3) :=
  { lineSent with
    peers := Function.update lineSent.peers 1 (tableOf lineStart.state [0])
    queue := replaceQueue lineSent.queue 0 1 [] }

def lineElected : World (Fin 3) :=
  { lineHeard with
    state := Function.update lineHeard.state 1
      (awdlElectionRun (lineHeard.state 1) (lineHeard.peers 1)) }

theorem line_initial : Initial nodeAddr lineStart where
  own := by decide
  reset := by decide
  peers := by decide
  queue := by decide

theorem line_run : Relation.ReflTransGen (Step line.Adj nodeAddr) lineStart lineElected := by
  have sent : Step line.Adj nodeAddr lineStart lineSent := .broadcast lineStart 0
  have heard : Step line.Adj nodeAddr lineSent lineHeard := by
    refine .deliver lineSent 0 1 (by decide) (by decide) (lineStart.state 0) [] rfl _ ?_
    refine ⟨{ awdlPeerNew zeroPeer (nodeAddr 0) with
      election := lineStart.state 0, isValid := true }, rfl, rfl, rfl, ?_⟩
    intro peer
    have before : awdlPeersIterate (lineSent.peers 1) = [] := by decide
    rw [before]
    simp [awdlPeersIterate, tableOf, Hashmap.hashmapIterate, Hashmap.iterate,
      Hashmap.hashmapItNext, Slots.firstFrom]
  exact ((Relation.ReflTransGen.single sent).tail heard).tail (.elect lineHeard 1)

theorem sync_tree_safety_line : (lineElected.state 1).masterAddr = nodeAddr 0 ∧
    (∀ i, triple (lineStart.state i) ≤ triple (lineElected.state i)) ∧
    ∀ i, ¬ Relation.TransGen (SyncsTo nodeAddr lineElected.state) i i :=
  ⟨by decide, sync_tree_safety (by decide) (by decide) lineStart lineStart lineElected
    line_initial (by decide) .refl line_run⟩

end Line

end Owl.ElectionNetwork
