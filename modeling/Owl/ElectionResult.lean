import Owl.ElectionRun
import Owl.PeersRefine
import Owl.Siphash

/-!
What one `awdl_election_run` makes of a peer table. The table is one that frame
reception builds: every entry advertises its key as its own address, and the
node itself is not in it. The node's own reset state and the eligible peers then
form a strict total order, the run adopts its maximum, and everything else about
the result is read off that maximum: it does not depend on the layout of the
table, and it goes wrong in height and in top master exactly when the maximum is
a peer for which `election.c` has no check.
-/

namespace Owl.ElectionResult

open Ether Election Siphash Hashmap Peers PeersRefine ElectionRun

/-- The tables that frame reception builds at the node `own`. -/
structure Foreign (hash : EtherAddr → UInt64) (own : EtherAddr) (table : PeerMap) : Prop where
  valid : TableValid hash table
  self : ∀ addr peer, table.contents addr = some peer → peer.election.selfAddr = addr
  absent : table.contents own = none

/-- `a` is preferred to `b`: larger counter, larger metric, smaller height, larger
address, in this order. -/
def Beats (a b : ElectionState) : Prop :=
  b.masterCounter < a.masterCounter ∨ b.masterCounter = a.masterCounter ∧
    (b.masterMetric < a.masterMetric ∨ b.masterMetric = a.masterMetric ∧
      (a.height < b.height ∨ a.height = b.height ∧ b.selfAddr.value < a.selfAddr.value))

theorem beats_iff (a b : ElectionState) : Beats a b ↔ key b < key a := by
  have aMetric := a.masterMetric.toNat_lt
  have bMetric := b.masterMetric.toNat_lt
  simp only [Beats, key_lt_iff, ElectionState.rank, UInt32.lt_iff_toNat_lt, ← UInt32.toNat_inj]
  omega

inductive Candidate (state : ElectionState) (table : PeerMap) : ElectionState → Prop where
  | own : Candidate state table (awdlElectionResetSelf state)
  | peer (addr : EtherAddr) (peer : Peer) (present : table.contents addr = some peer)
      (eligible : Eligible state.selfAddr peer) : Candidate state table peer.election

structure Elected (state : ElectionState) (table : PeerMap) (best : ElectionState) : Prop where
  candidate : Candidate state table best
  beats : ∀ other, Candidate state table other → other ≠ best → Beats best other

def follow (state best : ElectionState) : ElectionState :=
  if best.selfAddr = state.selfAddr then awdlElectionResetSelf state
  else adopt (awdlElectionResetSelf state) best

section Maximum

variable {hash : EtherAddr → UInt64} {state : ElectionState} {table : PeerMap}

theorem Elected.unique {a b : ElectionState} (first : Elected state table a)
    (second : Elected state table b) : a = b := by
  by_contra different
  have up := (beats_iff _ _).mp (second.beats a first.candidate different)
  have down := (beats_iff _ _).mp (first.beats b second.candidate (Ne.symm different))
  exact lt_asymm up down

theorem Foreign.peer_ne (foreign : Foreign hash state.selfAddr table) {addr : EtherAddr}
    {peer : Peer} (present : table.contents addr = some peer) :
    peer.election.selfAddr ≠ state.selfAddr := by
  intro same
  have key := foreign.self addr peer present
  rw [← key, same, foreign.absent] at present
  cases present

/-- Candidates with the same address are one candidate. -/
theorem Foreign.candidate_ext (foreign : Foreign hash state.selfAddr table) {a b : ElectionState}
    (first : Candidate state table a) (second : Candidate state table b)
    (same : a.selfAddr = b.selfAddr) : a = b := by
  cases first with
  | own =>
      cases second with
      | own => rfl
      | peer addr peer present eligible => exact absurd same.symm (foreign.peer_ne present)
  | peer addr peer present eligible =>
      cases second with
      | own => exact absurd same (foreign.peer_ne present)
      | peer other rival also candidate =>
          rw [foreign.self addr peer present, foreign.self other rival also] at same
          subst same
          rw [present] at also
          cases also
          rfl

/-- Different candidates have different keys, so a largest one is the only one. -/
theorem Foreign.elected (foreign : Foreign hash state.selfAddr table) {best : ElectionState}
    (candidate : Candidate state table best)
    (upper : ∀ other, Candidate state table other → key other ≤ key best) :
    Elected state table best := by
  refine ⟨candidate, ?_⟩
  intro other present different
  rw [beats_iff]
  refine lt_of_le_of_ne (upper other present) ?_
  intro same
  -- The address is the last component of the key.
  have addresses : other.selfAddr = best.selfAddr := by
    apply value_injective
    have pair := congrArg (fun place => (ofLex (ofLex place).2).2) same
    exact pair
  exact different (foreign.candidate_ext present candidate addresses)

theorem Foreign.mem_iff (foreign : Foreign hash state.selfAddr table) (peer : Peer) :
    peer ∈ awdlPeersIterate table ↔ ∃ addr, table.contents addr = some peer := by
  rw [mem_awdlPeersIterate table foreign.valid]
  constructor
  · intro present
    exact ⟨peer.addr, present⟩
  · rintro ⟨addr, present⟩
    rw [foreign.valid.own addr peer present]
    exact present

/-- The run adopts the best candidate. -/
theorem Foreign.run (foreign : Foreign hash state.selfAddr table) :
    ∃ best, Elected state table best ∧ awdlElectionRun state table = follow state best := by
  have outcome := electionOver_outcome state (awdlPeersIterate table)
  unfold awdlElectionRun
  -- `Outcome` speaks of the list that the iterator yields, in the order of the slots.
  generalize electionOver state (awdlPeersIterate table) = result at outcome
  cases outcome with
  | own upper =>
      refine ⟨awdlElectionResetSelf state, foreign.elected .own ?_, ?_⟩
      · intro other candidate
        cases candidate with
        | own => exact le_rfl
        | peer addr peer present eligible =>
            exact upper peer ((foreign.mem_iff peer).mpr ⟨addr, present⟩) eligible
      · exact (if_pos (resetSelf_selfAddr state)).symm
  | follow winner member eligible above upper =>
      obtain ⟨addr, present⟩ := (foreign.mem_iff winner).mp member
      refine ⟨winner.election, foreign.elected (.peer addr winner present eligible) ?_, ?_⟩
      · intro other candidate
        cases candidate with
        | own => exact le_of_lt above
        | peer other rival also fits =>
            exact upper rival ((foreign.mem_iff rival).mpr ⟨other, also⟩) fits
      · exact (if_neg (foreign.peer_ne present)).symm

/-- A run that follows a peer follows an entry of the table. -/
theorem Foreign.run_cases (foreign : Foreign hash state.selfAddr table) :
    awdlElectionRun state table = awdlElectionResetSelf state ∧
        Elected state table (awdlElectionResetSelf state) ∨
      ∃ addr peer, table.contents addr = some peer ∧ Eligible state.selfAddr peer ∧
        Elected state table peer.election ∧ addr ≠ state.selfAddr ∧
        awdlElectionRun state table = adopt (awdlElectionResetSelf state) peer.election ∧
        (awdlElectionRun state table).syncAddr = addr := by
  obtain ⟨best, elected, run⟩ := foreign.run
  rw [run]
  have candidate := elected.candidate
  cases candidate with
  | own => exact .inl ⟨if_pos (resetSelf_selfAddr state), elected⟩
  | peer addr peer present eligible =>
      have adopted : follow state peer.election =
          adopt (awdlElectionResetSelf state) peer.election := if_neg (foreign.peer_ne present)
      have key := foreign.self addr peer present
      have away := foreign.peer_ne present
      rw [key] at away
      exact .inr ⟨addr, peer, present, eligible, elected, away, adopted, by rw [adopted]; exact key⟩

end Maximum

section Layout

variable {hash : EtherAddr → UInt64} {state : ElectionState} {table : PeerMap}

theorem resetSelf_run (state : ElectionState) (table : PeerMap) :
    awdlElectionResetSelf (awdlElectionRun state table) = awdlElectionResetSelf state := by
  unfold awdlElectionRun electionOver
  dsimp only
  split <;> rfl

theorem electionOver_reset {first second : ElectionState} (peers : List Peer)
    (same : awdlElectionResetSelf first = awdlElectionResetSelf second) :
    electionOver first peers = electionOver second peers := by
  unfold electionOver
  rw [same]

/-- Tables with the same valid peers have the same candidates. -/
theorem candidate_congr {other : PeerMap}
    (same : ∀ addr peer, peer.isValid = true →
      (table.contents addr = some peer ↔ other.contents addr = some peer))
    (candidate : ElectionState) :
    Candidate state table candidate ↔ Candidate state other candidate := by
  constructor
  · intro compared
    cases compared with
    | own => exact .own
    | peer addr peer present eligible =>
        exact .peer addr peer ((same addr peer eligible.valid).mp present) eligible
  · intro compared
    cases compared with
    | own => exact .own
    | peer addr peer present eligible =>
        exact .peer addr peer ((same addr peer eligible.valid).mpr present) eligible

theorem Elected.congr {other : PeerMap} {best : ElectionState}
    (same : ∀ candidate, Candidate state table candidate ↔ Candidate state other candidate)
    (elected : Elected state table best) : Elected state other best := by
  refine ⟨(same best).mp elected.candidate, ?_⟩
  intro rival candidate different
  exact elected.beats rival ((same rival).mpr candidate) different

/-- The run adopts the unique maximum of the own state and the eligible peers, whatever
the layout of the table and whatever else is in it, and a second run changes nothing. -/
theorem election_adopts_maximum (hash : EtherAddr → UInt64) (state : ElectionState)
    (table : PeerMap) (foreign : Foreign hash state.selfAddr table) :
    (∃ best, Elected state table best ∧ (∀ other, Elected state table other → other = best) ∧
        awdlElectionRun state table = follow state best) ∧
      (∀ hash' other, Foreign hash' state.selfAddr other →
        (∀ addr peer, peer.isValid = true →
          (table.contents addr = some peer ↔ other.contents addr = some peer)) →
        awdlElectionRun state other = awdlElectionRun state table) ∧
      awdlElectionRun (awdlElectionRun state table) table = awdlElectionRun state table := by
  obtain ⟨best, elected, run⟩ := foreign.run
  refine ⟨⟨best, elected, fun other also => also.unique elected, run⟩, ?_, ?_⟩
  · intro hash' other otherForeign same
    obtain ⟨winner, alsoElected, otherRun⟩ := otherForeign.run
    -- The candidates do not depend on the layout, so neither does the best of them.
    have here := elected.congr (candidate_congr same)
    rw [otherRun, run, alsoElected.unique here]
  · exact electionOver_reset _ (resetSelf_run state table)

end Layout

section OneRival

def ownAddr : EtherAddr := ⟨2, 0, 0, 0, 0, 1⟩
def rivalAddr : EtherAddr := ⟨2, 0, 0, 0, 0, 2⟩

def rivalTable (election : ElectionState) : PeerMap :=
  storeData addrHash (awdlPeerAdd addrHash (fun _ => true) zeroPeer awdlPeersInit rivalAddr 0
      (none : Option (Peer → Unit))).2.1 rivalAddr
    { awdlPeerNew zeroPeer rivalAddr with election := election, isValid := true }

def rivalPeer (election : ElectionState) : Peer :=
  { awdlPeerNew zeroPeer rivalAddr with election := election, isValid := true }

theorem rivalTable_contents (election : ElectionState) :
    Valid addrHash (rivalTable election) ∧
      (rivalTable election).contents =
        Function.update (fun _ => none) rivalAddr (some (rivalPeer election)) := by
  have added := awdlPeerAdd_added (fun _ => true) zeroPeer awdlPeersInit
    (awdlPeersInit_valid : TableValid addrHash awdlPeersInit).map rivalAddr 0
    (none : Option (Peer → Unit))
  have granted : (awdlPeerAdd addrHash (fun _ => true) zeroPeer awdlPeersInit rivalAddr 0
      (none : Option (Peer → Unit))).1 = .ok := by decide +kernel
  unfold rivalTable
  generalize awdlPeerAdd addrHash (fun _ => true) zeroPeer awdlPeersInit rivalAddr 0
    (none : Option (Peer → Unit)) = result at added granted
  cases added with
  | update peer found after valid contents => cases granted
  | refused absent after valid fewer => cases granted
  | new absent after valid contents =>
      obtain ⟨storedValid, stored, -⟩ := storeData_present after valid rivalAddr
        { awdlPeerNew zeroPeer rivalAddr with lastUpdate := 0 } (rivalPeer election)
        (by rw [contents, Function.update_self])
      rw [contents, Function.update_idem, awdlPeersInit_contents] at stored
      exact ⟨storedValid, stored⟩

theorem rivalTable_only (election : ElectionState) (addr : EtherAddr) (peer : Peer)
    (present : (rivalTable election).contents addr = some peer) :
    addr = rivalAddr ∧ peer = rivalPeer election := by
  rw [(rivalTable_contents election).2] at present
  by_cases same : addr = rivalAddr
  · subst same
    rw [Function.update_self] at present
    exact ⟨rfl, (Option.some.inj present).symm⟩
  · rw [Function.update_of_ne same] at present
    cases present

theorem rivalTable_foreign (election : ElectionState) (self : election.selfAddr = rivalAddr) :
    Foreign addrHash ownAddr (rivalTable election) := by
  obtain ⟨valid, contents⟩ := rivalTable_contents election
  refine ⟨⟨valid, ?_⟩, ?_, ?_⟩
  · intro addr peer present
    obtain ⟨rfl, rfl⟩ := rivalTable_only election addr peer present
    rfl
  · intro addr peer present
    obtain ⟨rfl, rfl⟩ := rivalTable_only election addr peer present
    exact self
  · rw [contents]
    exact Function.update_of_ne (by decide) _ _

theorem rivalTable_peers (election : ElectionState) (self : election.selfAddr = rivalAddr) :
    awdlPeersIterate (rivalTable election) = [rivalPeer election] := by
  have foreign : Foreign addrHash (awdlElectionStateInit ownAddr).selfAddr (rivalTable election) :=
    rivalTable_foreign election self
  have nodup := awdlPeersIterate_nodup (rivalTable election) foreign.valid
  refine List.perm_singleton.mp ((List.perm_ext_iff_of_nodup nodup (List.nodup_singleton _)).mpr ?_)
  intro peer
  rw [foreign.mem_iff, List.mem_singleton]
  constructor
  · rintro ⟨addr, present⟩
    exact (rivalTable_only election addr peer present).2
  · rintro rfl
    exact ⟨rivalAddr, by rw [(rivalTable_contents election).2, Function.update_self]⟩

theorem rivalTable_run (election : ElectionState) (self : election.selfAddr = rivalAddr) :
    awdlElectionRun (awdlElectionStateInit ownAddr) (rivalTable election) =
      electionOver (awdlElectionStateInit ownAddr) [rivalPeer election] := by
  rw [awdlElectionRun, rivalTable_peers election self]

def betterRival : ElectionState := ⟨rivalAddr, rivalAddr, rivalAddr, 0, 1000, 1000, 0, 0⟩

end OneRival

/-! Two eligible peers and one that is not valid, and the eligible ones in another layout. -/
section Rivals

def lastAddr : EtherAddr := ⟨2, 0, 0, 0, 0, 3⟩

def enter (hash : EtherAddr → UInt64) (table : PeerMap) (peer : Peer) : PeerMap :=
  (hashmapPut hash (fun _ => true) table peer.addr peer).2

theorem enter_foreign {hash : EtherAddr → UInt64} {own : EtherAddr} {table : PeerMap}
    (foreign : Foreign hash own table) (peer : Peer) (absent : table.contents peer.addr = none)
    (self : peer.election.selfAddr = peer.addr) (apart : own ≠ peer.addr)
    (done : (hashmapPut hash (fun _ => true) table peer.addr peer).1 = .ok) :
    Foreign hash own (enter hash table peer) ∧
      (enter hash table peer).contents = Function.update table.contents peer.addr (some peer) := by
  obtain ⟨valid, contents⟩ := hashmapPut_fresh (fun _ => true) table (enter hash table peer)
    foreign.valid.map peer.addr peer absent (Prod.ext done rfl)
  refine ⟨⟨⟨valid, ?_⟩, ?_, ?_⟩, contents⟩
  · rw [contents]
    exact update_keeps foreign.valid.own (by rintro _ ⟨⟩; rfl)
  · rw [contents]
    exact update_keeps foreign.self (by rintro _ ⟨⟩; exact self)
  · rw [contents, Function.update_of_ne apart]
    exact foreign.absent

def betterPeer : Peer := rivalPeer betterRival

def bestPeer : Peer :=
  { awdlPeerNew zeroPeer lastAddr with
    election := ⟨lastAddr, lastAddr, lastAddr, 0, 2000, 2000, 0, 0⟩, isValid := true }

def silentPeer : Peer :=
  { awdlPeerNew zeroPeer ⟨2, 0, 0, 0, 0, 4⟩ with
    election := ⟨⟨2, 0, 0, 0, 0, 4⟩, ⟨2, 0, 0, 0, 0, 4⟩, ⟨2, 0, 0, 0, 0, 4⟩, 0, 3000, 3000, 0, 0⟩ }

def crowdedTable : PeerMap :=
  enter addrHash (enter addrHash (enter addrHash awdlPeersInit betterPeer) bestPeer) silentPeer

def chainedTable : PeerMap :=
  enter (fun _ => 7) (enter (fun _ => 7) awdlPeersInit betterPeer) bestPeer

theorem crowdedTable_foreign : Foreign addrHash ownAddr crowdedTable ∧
    crowdedTable.contents = Function.update (Function.update (Function.update (fun _ => none)
      rivalAddr (some betterPeer)) lastAddr (some bestPeer)) silentPeer.addr (some silentPeer) := by
  have start : Foreign addrHash ownAddr awdlPeersInit :=
    ⟨awdlPeersInit_valid, by simp [awdlPeersInit_contents], by simp [awdlPeersInit_contents]⟩
  obtain ⟨one, first⟩ := enter_foreign start betterPeer (by rw [awdlPeersInit_contents]) rfl
    (by decide) (by decide +kernel)
  obtain ⟨two, second⟩ := enter_foreign one bestPeer (by
    rw [first, awdlPeersInit_contents, Function.update_of_ne (by decide)]) rfl (by decide)
    (by decide +kernel)
  obtain ⟨three, third⟩ := enter_foreign two silentPeer (by
    rw [second, first, awdlPeersInit_contents, Function.update_of_ne (by decide),
      Function.update_of_ne (by decide)]) rfl (by decide) (by decide +kernel)
  refine ⟨three, ?_⟩
  rw [crowdedTable, third, second, first, awdlPeersInit_contents]
  rfl

theorem chainedTable_foreign : Foreign (fun _ => 7) ownAddr chainedTable ∧
    chainedTable.contents = Function.update (Function.update (fun _ => none)
      rivalAddr (some betterPeer)) lastAddr (some bestPeer) := by
  have start : Foreign (fun _ => 7) ownAddr awdlPeersInit :=
    ⟨awdlPeersInit_valid, by simp [awdlPeersInit_contents], by simp [awdlPeersInit_contents]⟩
  obtain ⟨one, first⟩ := enter_foreign start betterPeer (by rw [awdlPeersInit_contents]) rfl
    (by decide) (by decide +kernel)
  obtain ⟨two, second⟩ := enter_foreign one bestPeer (by
    rw [first, awdlPeersInit_contents, Function.update_of_ne (by decide)]) rfl (by decide)
    (by decide +kernel)
  refine ⟨two, ?_⟩
  rw [chainedTable, second, first, awdlPeersInit_contents]
  rfl

theorem same_valid (addr : EtherAddr) (peer : Peer) (valid : peer.isValid = true) :
    crowdedTable.contents addr = some peer ↔ chainedTable.contents addr = some peer := by
  rw [crowdedTable_foreign.2, chainedTable_foreign.2]
  by_cases silent : addr = silentPeer.addr
  · subst silent
    rw [Function.update_self, Function.update_of_ne (by decide), Function.update_of_ne (by decide)]
    refine iff_of_false ?_ (by simp)
    rintro ⟨⟩
    cases valid
  · rw [Function.update_of_ne silent]

/-- In either layout the node follows the better of the two valid peers. -/
theorem election_adopts_maximum_rivals : Foreign addrHash ownAddr crowdedTable ∧
    Foreign (fun _ => 7) ownAddr chainedTable ∧
    awdlPeersIterate crowdedTable ≠ awdlPeersIterate chainedTable ∧
    (awdlElectionRun (awdlElectionStateInit ownAddr) crowdedTable).syncAddr = lastAddr ∧
    awdlElectionRun (awdlElectionStateInit ownAddr) chainedTable =
      awdlElectionRun (awdlElectionStateInit ownAddr) crowdedTable ∧
    awdlElectionRun (awdlElectionRun (awdlElectionStateInit ownAddr) crowdedTable) crowdedTable =
      awdlElectionRun (awdlElectionStateInit ownAddr) crowdedTable := by
  have foreign := crowdedTable_foreign.1
  have chained := chainedTable_foreign.1
  obtain ⟨-, layouts, again⟩ := election_adopts_maximum addrHash (awdlElectionStateInit ownAddr)
    crowdedTable foreign
  exact ⟨foreign, chained, by decide +kernel, by decide +kernel,
    layouts _ chainedTable chained same_valid, again⟩

end Rivals

/-! The limit on the height is checked after a 32-bit increment, which takes the
largest height to zero. -/
section Height

/-- A peer of height 2^32 - 1 has a better top master than the node itself and than every
eligible peer of another height. -/
def WrapsHeight (state : ElectionState) (table : PeerMap) : Prop :=
  ∃ addr peer, table.contents addr = some peer ∧ Eligible state.selfAddr peer ∧
    peer.election.height = 0xffffffff ∧ state.selfRank < peer.election.rank ∧
    ∀ other rival, table.contents other = some rival → Eligible state.selfAddr rival →
      rival.election.height ≠ 0xffffffff → rival.election.rank < peer.election.rank

theorem wrapped_height (height : UInt32) (room : height + 1 ≤ awdlElectionTreeMaxHeight)
    (regular : height ≠ 0xffffffff) : height.toNat + 1 ≤ 10 ∧ (height + 1).toNat = height.toNat + 1 := by
  have bound := height.toNat_lt
  have different : height.toNat ≠ 0xffffffff := fun same => regular (UInt32.toNat_inj.mp same)
  have one : (1 : UInt32).toNat = 1 := rfl
  -- 2^32 - 1 is the only height at which the increment is not exact.
  have sum : (height + 1).toNat = height.toNat + 1 := by
    rw [UInt32.toNat_add, one]
    omega
  have limit : (height + 1).toNat ≤ 10 := room
  omega

variable {hash : EtherAddr → UInt64} {state : ElectionState} {table : PeerMap}

/-- The best candidate has the wrapping height exactly when the table wraps. -/
theorem Elected.wraps_iff {best : ElectionState} (elected : Elected state table best) :
    WrapsHeight state table ↔ best.height = 0xffffffff := by
  have upper : ∀ other, Candidate state table other → key other ≤ key best := by
    intro other candidate
    by_cases same : other = best
    · rw [same]
    · exact le_of_lt ((beats_iff _ _).mp (elected.beats other candidate same))
  constructor
  · rintro ⟨addr, peer, present, eligible, -, above, regulars⟩
    have atLeast := (key_le_iff _ _).mp (upper _ (.peer addr peer present eligible))
    have candidate := elected.candidate
    by_contra regular
    cases candidate with
    | own =>
        rw [resetSelf_rank] at atLeast
        omega
    | peer other rival also fits =>
        have lower := regulars other rival also fits regular
        omega
  · intro wraps
    have candidate := elected.candidate
    have largest : best.height.toNat = 0xffffffff := by rw [wraps]; rfl
    cases candidate with
    | own => cases wraps
    | peer addr peer present eligible =>
        -- The largest height loses every tie, so the rank of the winner must be strictly larger.
        have own := (key_le_iff _ _).mp (upper _ .own)
        have zero : (awdlElectionResetSelf state).height.toNat = 0 := rfl
        rw [resetSelf_rank, zero, largest] at own
        refine ⟨addr, peer, present, eligible, wraps, by omega, ?_⟩
        intro other rival also fits regular
        have lower := (key_le_iff _ _).mp (upper _ (.peer other rival also fits))
        have small := (wrapped_height _ fits.room regular).1
        omega

theorem election_height_iff (hash : EtherAddr → UInt64) (state : ElectionState)
    (table : PeerMap) (foreign : Foreign hash state.selfAddr table) :
    ((awdlElectionRun state table).height ≤ awdlElectionTreeMaxHeight ∧
        ((awdlElectionRun state table).height = 0 ↔
          (awdlElectionRun state table).syncAddr = state.selfAddr) ∧
        ((awdlElectionRun state table).syncAddr ≠ state.selfAddr →
          ∃ peer, table.contents (awdlElectionRun state table).syncAddr = some peer ∧
            (awdlElectionRun state table).height.toNat = peer.election.height.toNat + 1)) ↔
      ¬ WrapsHeight state table := by
  rcases foreign.run_cases with ⟨run, elected⟩ |
    ⟨addr, peer, present, eligible, elected, away, run, sync⟩
  · rw [elected.wraps_iff, run]
    have never : ¬ (awdlElectionResetSelf state).height = 0xffffffff := by
      rw [resetSelf_height]
      decide
    refine iff_of_true ⟨?_, ?_, ?_⟩ never
    · rw [resetSelf_height]
      decide
    · exact iff_of_true rfl rfl
    · exact fun other => absurd rfl other
  · rw [elected.wraps_iff, sync]
    have height : (awdlElectionRun state table).height = peer.election.height + 1 := by rw [run]; rfl
    rw [height]
    constructor
    · rintro ⟨-, zero, -⟩ wraps
      -- The adopted height is 0 although the node follows another.
      refine away (zero.mp ?_)
      rw [wraps]
      rfl
    · intro regular
      obtain ⟨small, exact⟩ := wrapped_height _ eligible.room regular
      refine ⟨eligible.room, iff_of_false ?_ away, fun _ => ⟨peer, present, exact⟩⟩
      intro zero
      rw [zero] at exact
      have none : (0 : UInt32).toNat = 0 := rfl
      omega

def deepRival : ElectionState := ⟨rivalAddr, rivalAddr, rivalAddr, 0xffffffff, 1000, 1000, 0, 0⟩

theorem deepRival_run :
    awdlElectionRun (awdlElectionStateInit ownAddr) (rivalTable deepRival) =
      ⟨rivalAddr, rivalAddr, ownAddr, 0, 1000, 60, 0, 0⟩ := by
  rw [rivalTable_run deepRival rfl]
  decide

/-- The node follows the rival and takes itself for the root. -/
theorem election_height_wraps :
    Foreign addrHash ownAddr (rivalTable deepRival) ∧
      (awdlElectionRun (awdlElectionStateInit ownAddr) (rivalTable deepRival)).syncAddr ≠
        ownAddr ∧
      (awdlElectionRun (awdlElectionStateInit ownAddr) (rivalTable deepRival)).height = 0 := by
  rw [deepRival_run]
  exact ⟨rivalTable_foreign deepRival rfl, by decide, rfl⟩

theorem election_height_iff_deep :
    Foreign addrHash ownAddr (rivalTable deepRival) ∧
      WrapsHeight (awdlElectionStateInit ownAddr) (rivalTable deepRival) := by
  have foreign := rivalTable_foreign deepRival rfl
  refine ⟨foreign, ?_⟩
  by_contra regular
  obtain ⟨-, zero, -⟩ := (election_height_iff addrHash (awdlElectionStateInit ownAddr)
    (rivalTable deepRival) foreign).mpr regular
  rw [deepRival_run] at zero
  exact absurd (zero.mp rfl) (by decide)

end Height

/-! Cycles are looked for in the advertised sync master only, not in the advertised
top master. -/
section Rooted

/-- The best of all candidates is a peer that has this node as its top master. -/
def SelfRooted (state : ElectionState) (table : PeerMap) : Prop :=
  ∃ addr peer, table.contents addr = some peer ∧ Eligible state.selfAddr peer ∧
    peer.election.masterAddr = state.selfAddr ∧
    Beats peer.election (awdlElectionResetSelf state) ∧
    ∀ other rival, table.contents other = some rival → Eligible state.selfAddr rival →
      other ≠ addr → Beats peer.election rival.election

variable {hash : EtherAddr → UInt64} {state : ElectionState} {table : PeerMap}

theorem Foreign.rooted_iff (foreign : Foreign hash state.selfAddr table) :
    SelfRooted state table ↔ ∃ addr peer, table.contents addr = some peer ∧
      Elected state table peer.election ∧ peer.election.masterAddr = state.selfAddr := by
  constructor
  · rintro ⟨addr, peer, present, eligible, root, own, others⟩
    refine ⟨addr, peer, present, ⟨.peer addr peer present eligible, ?_⟩, root⟩
    intro other candidate different
    cases candidate with
    | own => exact own
    | peer place rival also fits =>
        refine others place rival also fits ?_
        rintro rfl
        rw [present] at also
        cases also
        exact different rfl
  · rintro ⟨addr, peer, present, elected, root⟩
    -- An elected state is that of an eligible peer; addresses tell the peers apart.
    have compared : ∀ best, Elected state table best → best = peer.election →
        Eligible state.selfAddr peer := by
      intro best chosen same
      have candidate := chosen.candidate
      cases candidate with
      | own => exact absurd (congrArg ElectionState.selfAddr same).symm (foreign.peer_ne present)
      | peer place rival also fits =>
          have addresses := congrArg ElectionState.selfAddr same
          rw [foreign.self place rival also, foreign.self addr peer present] at addresses
          subst addresses
          rw [present] at also
          cases also
          exact fits
    have distinct : ∀ other, other ≠ addr → ∀ rival, table.contents other = some rival →
        rival.election ≠ peer.election := by
      intro other different rival also same
      have addresses := congrArg ElectionState.selfAddr same
      rw [foreign.self other rival also, foreign.self addr peer present] at addresses
      exact different addresses
    refine ⟨addr, peer, present, compared _ elected rfl, root, ?_, ?_⟩
    · exact elected.beats _ .own fun same =>
        foreign.peer_ne present (congrArg ElectionState.selfAddr same).symm
    · intro other rival also fits different
      exact elected.beats _ (.peer other rival also fits) (distinct other different rival also)

/-- A node follows a peer that has it as its top master exactly when that peer is the
best candidate. -/
theorem election_self_rooted_iff (hash : EtherAddr → UInt64) (state : ElectionState)
    (table : PeerMap) (foreign : Foreign hash state.selfAddr table) :
    ((awdlElectionRun state table).syncAddr ≠ state.selfAddr →
        (awdlElectionRun state table).masterAddr ≠ state.selfAddr ∧
        ∀ peer, table.contents (awdlElectionRun state table).syncAddr = some peer →
          peer.election.masterAddr ≠ state.selfAddr ∧
          peer.election.syncAddr ≠ state.selfAddr) ↔
      ¬ SelfRooted state table := by
  rw [foreign.rooted_iff]
  rcases foreign.run_cases with ⟨run, elected⟩ |
    ⟨addr, peer, present, eligible, elected, away, run, sync⟩
  · have own : (awdlElectionRun state table).syncAddr = state.selfAddr := by rw [run]; rfl
    refine iff_of_true (fun other => absurd own other) ?_
    rintro ⟨addr, peer, present, also, -⟩
    have same : peer.election = awdlElectionResetSelf state := also.unique elected
    refine foreign.peer_ne present ?_
    rw [same]
    rfl
  · have master : (awdlElectionRun state table).masterAddr = peer.election.masterAddr := by
      rw [run]
      rfl
    rw [sync, master]
    constructor
    · rintro rootless ⟨other, rival, also, chosen, root⟩
      rw [chosen.unique elected] at root
      exact (rootless away).1 root
    · intro rootless _
      have other : peer.election.masterAddr ≠ state.selfAddr := fun root =>
        rootless ⟨addr, peer, present, elected, root⟩
      refine ⟨other, fun stored found => ?_⟩
      rw [present] at found
      cases found
      exact ⟨other, eligible.notChild⟩

def childRival : ElectionState := ⟨ownAddr, rivalAddr, rivalAddr, 1, 1000, 1000, 0, 0⟩

theorem childRival_run :
    awdlElectionRun (awdlElectionStateInit ownAddr) (rivalTable childRival) =
      ⟨ownAddr, rivalAddr, ownAddr, 2, 1000, 60, 0, 0⟩ := by
  rw [rivalTable_run childRival rfl]
  decide

/-- The two nodes follow each other. -/
theorem election_follows_child :
    Foreign addrHash ownAddr (rivalTable childRival) ∧
      (awdlElectionRun (awdlElectionStateInit ownAddr) (rivalTable childRival)).syncAddr ≠
        ownAddr ∧
      (awdlElectionRun (awdlElectionStateInit ownAddr) (rivalTable childRival)).masterAddr =
        ownAddr := by
  rw [childRival_run]
  exact ⟨rivalTable_foreign childRival rfl, by decide, rfl⟩

theorem election_self_rooted_iff_child :
    Foreign addrHash ownAddr (rivalTable childRival) ∧
      SelfRooted (awdlElectionStateInit ownAddr) (rivalTable childRival) := by
  have foreign := rivalTable_foreign childRival rfl
  refine ⟨foreign, ?_⟩
  by_contra rootless
  have away := (election_self_rooted_iff addrHash (awdlElectionStateInit ownAddr)
    (rivalTable childRival) foreign).mpr rootless
  rw [childRival_run] at away
  exact (away (by decide)).1 rfl

end Rooted

end Owl.ElectionResult
