import Owl.PeersRefine
import Owl.HashmapMemory
import Owl.Siphash

/-!
How far the peer table grows. `hashmap_put` doubles the table when it is half
full, and also when the eight slots of one probe window are taken, however few
elements there are. Doublings of the first kind stay in proportion to the number
of peers: the table then holds half as many peers as it has slots, and copying
them cannot fill half of the larger table. Doublings of the second kind do not:
nine addresses that share a home slot are enough for the first one, and with
the seed that `hashmap_new` sets they can be computed in advance.
-/

namespace Owl.PeerGrowth

open Ether Hashmap Peers PeersRefine Siphash Slots

section Put

variable {K V : Type} [DecidableEq K]

/-- One after the other each key finds a free slot in its window. -/
def Spreads (hash : K → UInt64) : List (Option K) → Int → List K → Prop
  | _, _, [] => True
  | slots, count, key :: rest =>
      match seat hash slots count key with
      | some index => Spreads hash (slots.set index (some key)) (count + 1) rest
      | none => False

def settle (hash : K → UInt64) : List (Option K) → Int → List K → List (Option K)
  | slots, _, [] => slots
  | slots, count, key :: rest =>
      match seat hash slots count key with
      | some index => settle hash (slots.set index (some key)) (count + 1) rest
      | none => slots

/-- Below half, the window of the new key has a free slot; from half on, the keys of the
table in slot order and the new one do not crowd a window of a table of twice the size. -/
def Uncrowded (hash : K → UInt64) (m : HashmapMap K V) (key : K) : Prop :=
  if m.size < (m.slots.length / 2 : Nat) then (seat hash m.seats m.size key).isSome = true
  else Spreads hash (List.replicate (2 * m.slots.length) none) 0 (m.keys ++ [key])

variable {hash : K → UInt64} {alloc : Nat → Bool}

theorem hashmapPut_found (alloc : Nat → Bool) {m : HashmapMap K V} {key : K} {index : Nat} (value : V)
    (found : hashmapHash hash m key = some index) :
    hashmapPut hash alloc m key value =
      (.ok, ⟨m.slots.set index (some (key, value)), m.size + 1⟩) :=
  hashmapPutFuel_found alloc 30 m key value index found

/-- The first of keys that spread finds its slot at once. -/
theorem hashmapPut_spreads (alloc : Nat → Bool) {m : HashmapMap K V} {key : K} (value : V)
    {rest : List K} (spreads : Spreads hash m.seats m.size (key :: rest)) :
    ∃ after : HashmapMap K V, hashmapPut hash alloc m key value = (.ok, after) ∧
      after.slots.length = m.slots.length ∧ after.size = m.size + 1 ∧
      settle hash m.seats m.size (key :: rest) = settle hash after.seats after.size rest ∧
      Spreads hash after.seats after.size rest := by
  rw [Spreads] at spreads
  rw [settle]
  cases found : seat hash m.seats m.size key with
  | none =>
      rw [found] at spreads
      exact spreads.elim
  | some index =>
      rw [found] at spreads
      have taken : (⟨m.slots.set index (some (key, value)), m.size + 1⟩ : HashmapMap K V).seats =
          m.seats.set index (some key) := List.map_set
      refine ⟨_, hashmapPut_found alloc value (by rwa [hashmapHash_seat]), List.length_set, rfl, ?_, ?_⟩
      · rw [taken]
      · rw [taken]
        exact spreads

/-- A copy whose keys spread finds a slot for every pair at once. -/
theorem rehashLoop_spreads (alloc : Nat → Bool) (slots : List (Option (K × V))) (m : HashmapMap K V) (rest : List K)
    (spreads : Spreads hash m.seats m.size (slots.reduceOption.map Prod.fst ++ rest)) :
    ∃ after, rehashLoop (hashmapPut hash alloc) slots m = (.ok, after) ∧
      after.slots.length = m.slots.length ∧ after.size = m.size + slots.reduceOption.length ∧
      settle hash m.seats m.size (slots.reduceOption.map Prod.fst ++ rest) =
        settle hash after.seats after.size rest ∧
      Spreads hash after.seats after.size rest := by
  induction slots generalizing m with
  | nil => exact ⟨m, rfl, rfl, by simp, rfl, spreads⟩
  | cons slot behind ih =>
      cases slot with
      | none =>
          rw [List.reduceOption_cons_of_none] at spreads ⊢
          exact ih m spreads
      | some element =>
          obtain ⟨key, value⟩ := element
          rw [List.reduceOption_cons_of_some] at spreads ⊢
          obtain ⟨next, stored, same, one, first, later⟩ := hashmapPut_spreads alloc value spreads
          obtain ⟨after, run, wide, size, settled, left⟩ := ih next later
          refine ⟨after, ?_, wide.trans same, ?_, first.trans settled, left⟩
          · rw [rehashLoop_next stored, run]
          · rw [size, one, List.length_cons, Nat.cast_add, Nat.cast_one, Int.add_assoc,
              Int.add_comm 1]

/-- What `hashmap_put` does with a new key that meets no crowded window: it stores it, it
gets no memory, or it doubles a table that is half full, once. -/
inductive Grown (hash : K → UInt64) (alloc : Nat → Bool) (m : HashmapMap K V) (key : K) : HashmapMap K V → Prop
  | stored (index : Nat) (value : V) (found : seat hash m.seats m.size key = some index) :
      Grown hash alloc m key ⟨m.slots.set index (some (key, value)), m.size + 1⟩
  | refused (refused : callocOk alloc (2 * m.slots.length) = false) : Grown hash alloc m key m
  | doubled (after : HashmapMap K V) (half : (m.slots.length / 2 : Nat) ≤ m.size)
      (wide : after.slots.length = 2 * m.slots.length) (size : after.size = m.entries.length + 1)
      (settled : after.seats =
        settle hash (List.replicate (2 * m.slots.length) none) 0 (m.keys ++ [key])) :
      Grown hash alloc m key after

theorem hashmapPut_grown (alloc : Nat → Bool) {m : HashmapMap K V} {key : K} (value : V) (room : 0 < m.slots.length)
    (uncrowded : callocOk alloc (2 * m.slots.length) = false ∨ Uncrowded hash m key) :
    Grown hash alloc m key (hashmapPut hash alloc m key value).2 := by
  cases found : hashmapHash hash m key with
  | some index =>
      rw [hashmapPut_found alloc value found]
      exact .stored index value (by rwa [← hashmapHash_seat])
  | none =>
      rw [hashmapPut_eq alloc m room key value, found]
      cases granted : callocOk alloc (2 * m.slots.length) with
      | false =>
          rw [hashmapRehash_refused granted]
          exact .refused granted
      | true =>
          rw [granted, Uncrowded, ← hashmapHash_seat, found] at uncrowded
          obtain ⟨half, spreads⟩ : (m.slots.length / 2 : Nat) ≤ m.size ∧
              Spreads hash (List.replicate (2 * m.slots.length) none) 0 (m.keys ++ [key]) := by
            simpa using uncrowded
          obtain ⟨next, copied, wide, size, moved, left⟩ := rehashLoop_spreads alloc m.slots
            (⟨List.replicate (2 * m.slots.length) none, 0⟩ : HashmapMap K V) [key]
            (by rw [fresh_seats]; exact spreads)
          obtain ⟨after, stored, same, one, settled, -⟩ := hashmapPut_spreads alloc value left
          rw [hashmapRehash, if_pos granted, copied]
          simp only [stored]
          rw [fresh_seats] at moved
          simp only [List.length_replicate, zero_add] at wide size
          exact .doubled after half (same.trans wide) (by rw [one, size]; rfl)
            (moved.trans settled).symm

/-- An uncrowded `hashmap_put` doubles a table that is half full, once, and no other. -/
theorem Grown.half {m after : HashmapMap K V} {key : K} (grown : Grown hash alloc m key after)
    (valid : Valid hash m) (half : m.size ≤ (m.slots.length / 2 : Nat)) :
    after.size ≤ (after.slots.length / 2 : Nat) ∧
      (after.slots.length = m.slots.length ∨
        after.slots.length = 2 * m.slots.length ∧ m.size = (m.slots.length / 2 : Nat)) := by
  cases grown with
  | stored index value found =>
      have below : m.size < (m.slots.length / 2 : Nat) := by
        unfold seat at found
        rw [seats_length] at found
        split at found
        · cases found
        case isFalse less => omega
      simp only [List.length_set, true_or, and_true]
      omega
  | refused => exact ⟨half, .inl rfl⟩
  | doubled _ full wide size =>
      have room := valid.room
      have counted := valid.counted
      omega

/-! Keys with distinct home slots are never in each other's way. -/

def Homed (hash : K → UInt64) (slots : List (Option K)) : Prop :=
  ∀ (index : Nat) (key : K), slots[index]? = some (some key) →
    index = (hash key).toNat % slots.length

omit [DecidableEq K] in
theorem home_free {slots : List (Option K)} {key : K} (homed : Homed hash slots)
    (room : 0 < slots.length)
    (apart : ∀ other ∈ slots.reduceOption,
      (hash other).toNat % slots.length ≠ (hash key).toNat % slots.length) :
    slots[(hash key).toNat % slots.length]? = some none := by
  have inside : (hash key).toNat % slots.length < slots.length := Nat.mod_lt _ room
  rw [List.getElem?_eq_getElem inside]
  cases slot : slots[(hash key).toNat % slots.length] with
  | none => rfl
  | some other =>
      have used : slots[(hash key).toNat % slots.length]? = some (some other) := by
        rw [List.getElem?_eq_getElem inside, slot]
      exact absurd (homed _ other used).symm
        (apart other ((mem_reduceOption_iff_get slots other).mpr ⟨_, used⟩))

theorem seat_home {slots : List (Option K)} (count : Int) {key : K}
    (few : count < (slots.length / 2 : Nat))
    (free : slots[(hash key).toNat % slots.length]? = some none) :
    seat hash slots count key = some ((hash key).toNat % slots.length) := by
  have hole : slots.getD ((hash key).toNat % slots.length) none = none := by
    rw [List.getD_eq_getElem?_getD, free]
    rfl
  rw [seat, if_neg (by omega), maxChainLength, findFrom, hole]
  rfl

omit [DecidableEq K] in
theorem homed_set {slots : List (Option K)} (homed : Homed hash slots) (key : K) :
    Homed hash (slots.set ((hash key).toNat % slots.length) (some key)) := by
  intro index other used
  rw [List.length_set]
  by_cases same : (hash key).toNat % slots.length = index
  · rw [List.getElem?_set, if_pos same] at used
    split at used
    · cases used
      exact same.symm
    · cases used
  · rw [List.getElem?_set, if_neg same] at used
    exact homed index other used

theorem spreads_homes (keys : List K) (slots : List (Option K)) (count : Int)
    (homed : Homed hash slots) (room : 0 < slots.length)
    (few : count + keys.length ≤ (slots.length / 2 : Nat))
    (distinct : ((slots.reduceOption ++ keys).map fun key =>
      (hash key).toNat % slots.length).Nodup) :
    Spreads hash slots count keys ∧ Homed hash (settle hash slots count keys) := by
  induction keys generalizing slots count with
  | nil => exact ⟨trivial, homed⟩
  | cons key rest ih =>
      rw [List.map_append, List.map_cons, List.nodup_middle, ← List.map_append] at distinct
      obtain ⟨fresh, others⟩ := List.nodup_cons.mp distinct
      have free : slots[(hash key).toNat % slots.length]? = some none := by
        refine home_free homed room fun other present same => fresh ?_
        rw [← same]
        exact List.mem_map_of_mem (List.mem_append_left _ present)
      rw [List.length_cons, Nat.cast_add, Nat.cast_one] at few
      have found := seat_home count (by omega) free
      have filled := fill_perm slots _ key free
      have next := ih (slots.set ((hash key).toNat % slots.length) (some key)) (count + 1)
        (homed_set homed key) (by rwa [List.length_set]) (by rw [List.length_set]; omega) (by
          rw [List.length_set]
          have moved := (filled.append_right rest).map fun other => (hash other).toNat % slots.length
          rw [moved.nodup_iff, List.cons_append, List.map_cons]
          exact List.nodup_cons.mpr ⟨fresh, others⟩)
      rw [Spreads, settle, found]
      exact next

end Put

section Runs

variable {Event : Type}

def tableRun (hash : EtherAddr → UInt64) (peers : PeerMap) (ops : List (PeerOp Event)) : PeerMap :=
  ops.foldl (PeerOp.run hash) peers

def peak (hash : EtherAddr → UInt64) (peers : PeerMap) : List (PeerOp Event) → Nat
  | [] => (awdlPeersIterate peers).length
  | op :: rest => max (awdlPeersIterate peers).length (peak hash (op.run hash peers) rest)

/-- `awdl_peer_add` of an address that is not in the table meets no crowded window, unless
the table could not grow anyway. -/
def AddUncrowded (hash : EtherAddr → UInt64) (peers : PeerMap) : PeerOp Event → Prop
  | .add addr _ alloc _ _ =>
      addr ∈ peers.keys ∨ callocOk alloc (2 * peers.slots.length) = false ∨ Uncrowded hash peers addr
  | _ => True

def RunUncrowded (hash : EtherAddr → UInt64) (peers : PeerMap) : List (PeerOp Event) → Prop
  | [] => True
  | op :: rest => AddUncrowded hash peers op ∧ RunUncrowded hash (op.run hash peers) rest

variable {hash : EtherAddr → UInt64}

theorem length_of_seats {K V : Type} {m after : HashmapMap K V} (same : after.seats = m.seats) :
    after.slots.length = m.slots.length := by
  rw [← seats_length after, same, seats_length]

theorem storeData_shape {K V : Type} [DecidableEq K] (hash : K → UInt64) (m : HashmapMap K V)
    (key : K) (value : V) :
    (storeData hash m key value).seats = m.seats ∧ (storeData hash m key value).size = m.size := by
  unfold storeData
  cases found : locate hash m key with
  | none => exact ⟨rfl, rfl⟩
  | some curr =>
      refine ⟨?_, rfl⟩
      -- The slot holds the key already.
      have hit := findFrom_hit _ _ _ _ _ found
      cases slot : m.slots.getD curr none with
      | none =>
          rw [slot] at hit
          cases hit
      | some element =>
          rw [slot] at hit
          have same : element.1 = key := by simpa [keyIs] using hit
          have used := (getD_some_iff m.slots curr element).mp slot
          apply List.ext_getElem?
          intro index
          unfold HashmapMap.seats
          rw [List.getElem?_map, List.getElem?_map, List.getElem?_set]
          split
          case isTrue here =>
            subst here
            obtain ⟨inside, -⟩ := List.getElem?_eq_some_iff.mp used
            rw [used, if_pos inside]
            simp [same]
          case isFalse => rfl

theorem hashmapGet_shape {K V : Type} [DecidableEq K] (hash : K → UInt64) (m : HashmapMap K V)
    (key : K) :
    (hashmapGet hash m key true).2.2.slots.length = m.slots.length ∧
      (hashmapGet hash m key true).2.2.size ≤ m.size := by
  unfold hashmapGet
  cases locate hash m key with
  | none => exact ⟨rfl, le_refl _⟩
  | some index => exact ⟨List.length_set, Int.sub_le_self _ Int.one_nonneg⟩

theorem hashmapItRemove_shape {K V : Type} (m : HashmapMap K V) (index : Nat) :
    (hashmapItRemove m index).2.slots.length = m.slots.length ∧
      (hashmapItRemove m index).2.size ≤ m.size := by
  unfold hashmapItRemove
  cases m.slots.getD index none with
  | none => exact ⟨rfl, le_refl _⟩
  | some element => exact ⟨List.length_set, Int.sub_le_self _ Int.one_nonneg⟩

theorem awdlPeerAdd_shape (alloc : Nat → Bool) (memory : Peer) (peers : PeerMap) (addr : EtherAddr)
    (now : UInt64) (cb : Option (Peer → Event))
    (missing : hashmapGet hash peers addr false = (.missing, none, peers)) :
    (awdlPeerAdd hash alloc memory peers addr now cb).2.1.seats =
        (hashmapPut hash alloc peers addr
          { awdlPeerNew memory addr with lastUpdate := now }).2.seats ∧
      (awdlPeerAdd hash alloc memory peers addr now cb).2.1.size =
        (hashmapPut hash alloc peers addr
          { awdlPeerNew memory addr with lastUpdate := now }).2.size := by
  unfold awdlPeerAdd
  rw [missing]
  dsimp only
  generalize put : hashmapPut hash alloc peers addr
    { awdlPeerNew memory addr with lastUpdate := now } = result
  have inserted : hashmapPut hash alloc peers
      ({ awdlPeerNew memory addr with lastUpdate := now } : Peer).addr
      { awdlPeerNew memory addr with lastUpdate := now } = result := put
  rw [inserted]
  obtain ⟨status, next⟩ := result
  cases status with
  | ok => exact storeData_shape hash next addr _
  | omem => exact ⟨rfl, rfl⟩
  | full => exact ⟨rfl, rfl⟩
  | missing => exact ⟨rfl, rfl⟩

theorem peersRemoveLoop_shape (limit : UInt64) (cb : Option (Peer → Event)) (fuel pos : Nat)
    (peers : PeerMap) :
    (peersRemoveLoop limit cb fuel pos peers).1.slots.length = peers.slots.length ∧
      (peersRemoveLoop limit cb fuel pos peers).1.size ≤ peers.size := by
  induction fuel generalizing pos peers with
  | zero => exact ⟨rfl, le_refl _⟩
  | succ fuel ih =>
      rw [peersRemoveLoop]
      split
      · exact ⟨rfl, le_refl _⟩
      · rename_i index key peer found
        have cleared := hashmapItRemove_shape peers index
        split
        · obtain ⟨length, size⟩ := ih (index + 1) (hashmapItRemove peers index).2
          exact ⟨length.trans cleared.1, size.trans cleared.2⟩
        · exact ih (index + 1) peers

theorem run_valid (peers : PeerMap) (valid : TableValid hash peers) (op : PeerOp Event) :
    TableValid hash (op.run hash peers) := by
  cases op with
  | add addr now alloc memory cb =>
      exact (awdlPeerAdd_added alloc memory peers valid.map addr now cb).valid valid.own
  | get addr => exact valid
  | remove addr cb => exact (step_refines peers valid (.remove addr cb) trivial).1
  | purge limit cb => exact (step_refines peers valid (.purge limit cb) trivial).1
  | edit addr change =>
      exact (step_refines peers valid (.edit addr change : PeerOp Event) trivial).1

/-- What a call does to the number of slots and elements: nothing more than a removal,
unless it inserts a new address. -/
theorem run_shape (peers : PeerMap) (valid : TableValid hash peers) (op : PeerOp Event) :
    (op.run hash peers).slots.length = peers.slots.length ∧
        (op.run hash peers).size ≤ peers.size ∨
      ∃ addr now alloc memory cb, op = .add addr now alloc memory cb ∧
        addr ∉ peers.keys ∧
        (op.run hash peers).seats = (hashmapPut hash alloc peers addr
          { awdlPeerNew memory addr with lastUpdate := now }).2.seats ∧
        (op.run hash peers).size = (hashmapPut hash alloc peers addr
          { awdlPeerNew memory addr with lastUpdate := now }).2.size := by
  cases op with
  | add addr now alloc memory cb =>
      have search := hashmapGet_keep peers valid.map addr
      cases found : peers.contents addr with
      | some peer =>
          rw [found] at search
          simp only [PeerOp.run, awdlPeerAdd, search]
          obtain ⟨seats, size⟩ := storeData_shape hash peers addr
            (announce cb { peer with lastUpdate := now }).1
          exact .inl ⟨length_of_seats seats, size.le⟩
      | none =>
          rw [found] at search
          obtain ⟨seats, size⟩ := awdlPeerAdd_shape alloc memory peers addr now cb search
          exact .inr ⟨addr, now, alloc, memory, cb, rfl, (contents_none_iff peers addr).mp found, seats,
            size⟩
  | get addr => exact .inl ⟨rfl, le_refl _⟩
  | remove addr cb =>
      have table : PeerOp.run hash peers (.remove addr cb) = (hashmapGet hash peers addr true).2.2 := by
        simp only [PeerOp.run, awdlPeerRemove]
        split <;> simp_all
      rw [table]
      exact .inl (hashmapGet_shape hash peers addr)
  | purge limit cb =>
      exact .inl (peersRemoveLoop_shape limit cb (peers.slots.length + 1) 0 peers)
  | edit addr change =>
      simp only [PeerOp.run]
      split
      · rename_i peer found
        obtain ⟨seats, size⟩ := storeData_shape hash peers addr
          { change peer with addr := peer.addr }
        exact .inl ⟨length_of_seats seats, size.le⟩
      · exact .inl ⟨rfl, le_refl _⟩

/-- One call: the table keeps its number of slots or, half full, doubles it. -/
theorem run_uncrowded (peers : PeerMap) (valid : TableValid hash peers) (op : PeerOp Event)
    (uncrowded : AddUncrowded hash peers op) (half : peers.size ≤ (peers.slots.length / 2 : Nat)) :
    (op.run hash peers).size ≤ ((op.run hash peers).slots.length / 2 : Nat) ∧
      ((op.run hash peers).slots.length = peers.slots.length ∨
        (op.run hash peers).slots.length = 2 * peers.slots.length ∧
          peers.size = (peers.slots.length / 2 : Nat)) := by
  rcases run_shape peers valid op with
    ⟨length, size⟩ | ⟨addr, now, alloc, memory, cb, rfl, missing, seats, size⟩
  · rw [length]
    exact ⟨size.trans half, .inl rfl⟩
  · rw [length_of_seats seats, size]
    exact (hashmapPut_grown alloc _ valid.map.room (uncrowded.resolve_left missing)).half valid.map half

theorem size_peers (peers : PeerMap) (valid : TableValid hash peers) :
    peers.size = (awdlPeersIterate peers).length := by
  rw [valid.map.counted, awdlPeersIterate_eq, List.length_map]

theorem run_size (peers : PeerMap) (valid : TableValid hash peers) (op : PeerOp Event) :
    (op.run hash peers).size ≤ peers.size + 1 := by
  rcases run_shape peers valid op with
    ⟨-, size⟩ | ⟨addr, now, alloc, memory, cb, rfl, -, -, size⟩
  · omega
  · have placed : Placed hash peers :=
      ⟨valid.map.room, valid.map.window, valid.map.counted.ge⟩
    obtain ⟨-, done, failed⟩ := hashmapPut_sized alloc peers addr
      { awdlPeerNew memory addr with lastUpdate := now } placed
    rw [size]
    by_cases stored : (hashmapPut hash alloc peers addr
        { awdlPeerNew memory addr with lastUpdate := now }).1 = .ok
    · exact done stored
    · have bound := failed stored
      omega

/-- A call brings at most one peer. -/
theorem peak_le (ops : List (PeerOp Event)) (peers : PeerMap) (valid : TableValid hash peers) :
    peak hash peers ops ≤ (awdlPeersIterate peers).length + ops.length := by
  induction ops generalizing peers with
  | nil => exact le_refl _
  | cons op rest ih =>
      have later := ih (op.run hash peers) (run_valid peers valid op)
      have before := size_peers peers valid
      have after := size_peers _ (run_valid peers valid op)
      have step := run_size peers valid op
      rw [peak, List.length_cons]
      omega

/-- Half of a table that doubles is peers. -/
theorem tableRun_bound (ops : List (PeerOp Event)) (peers : PeerMap) (valid : TableValid hash peers)
    (half : peers.size ≤ (peers.slots.length / 2 : Nat)) (wide : 2 ≤ peers.slots.length)
    (earlier : Nat) (bound : peers.slots.length ≤ max 256 (8 * earlier))
    (uncrowded : RunUncrowded hash peers ops) :
    (tableRun hash peers ops).slots.length ≤ max 256 (8 * max earlier (peak hash peers ops)) := by
  induction ops generalizing peers earlier with
  | nil =>
      show peers.slots.length ≤ _
      omega
  | cons op rest ih =>
      obtain ⟨first, later⟩ := uncrowded
      obtain ⟨halfAfter, shape⟩ := run_uncrowded peers valid op first half
      have present := size_peers peers valid
      have boundAfter : (op.run hash peers).slots.length ≤
          max 256 (8 * max earlier (awdlPeersIterate peers).length) := by
        omega
      have run := ih (op.run hash peers) (run_valid peers valid op) halfAfter (by omega) _ boundAfter
        later
      rw [max_assoc] at run
      exact run

/-- As long as no new address finds its window crowded, in the table while it is less than
half full and otherwise in the larger one among the addresses that move there, the table
has at most 256 slots or eight for each peer of the largest set of peers that were in it
together. -/
theorem peer_table_proportional (hash : EtherAddr → UInt64) (ops : List (PeerOp Event))
    (uncrowded : RunUncrowded hash awdlPeersInit ops) :
    (tableRun hash awdlPeersInit ops).slots.length ≤ max 256 (8 * peak hash awdlPeersInit ops) := by
  have wide : (awdlPeersInit : PeerMap).slots.length = 256 := List.length_replicate
  have empty : (awdlPeersInit : PeerMap).size = 0 := rfl
  have start := tableRun_bound ops awdlPeersInit awdlPeersInit_valid (by omega) (by omega) 0
    (by omega) uncrowded
  rwa [Nat.zero_max] at start

def sameHome : List EtherAddr :=
  [⟨2, 0, 0, 0, 0, 12⟩, ⟨2, 0, 0, 0, 0, 54⟩, ⟨2, 0, 0, 0, 0, 90⟩, ⟨2, 0, 0, 0, 0, 183⟩,
    ⟨2, 0, 0, 0, 0, 238⟩, ⟨2, 0, 0, 0, 2, 75⟩, ⟨2, 0, 0, 0, 2, 203⟩, ⟨2, 0, 0, 0, 2, 206⟩,
    ⟨2, 0, 0, 0, 2, 216⟩]

def sameHomeAdds : List (PeerOp Empty) :=
  sameHome.map fun addr => .add addr 0 (fun _ => true) zeroPeer none

/-- Nine peers, more than 256 slots. -/
theorem nine_peers_grow :
    max 256 (8 * peak addrHash awdlPeersInit sameHomeAdds) <
      (tableRun addrHash awdlPeersInit sameHomeAdds).slots.length := by
  have grown : (tableRun addrHash awdlPeersInit sameHomeAdds).slots.length = 512 := by
    decide +kernel
  have few := peak_le sameHomeAdds awdlPeersInit (@awdlPeersInit_valid addrHash)
  have none : (awdlPeersIterate awdlPeersInit).length = 0 := by
    rw [awdlPeersIterate_eq]
    simp [awdlPeersInit, hashmapNew, HashmapMap.entries]
  have nine : sameHomeAdds.length = 9 := rfl
  omega

def firstHome (hash : EtherAddr → UInt64) (addr : EtherAddr) : Nat := (hash addr).toNat % 256

structure Settled (hash : EtherAddr → UInt64) (added : List EtherAddr) (peers : PeerMap) :
    Prop where
  valid : TableValid hash peers
  homed : Homed hash peers.seats
  slots : peers.slots.length = 256 ∨ peers.slots.length = 512
  half : peers.size ≤ (peers.slots.length / 2 : Nat)
  among : ∀ addr ∈ peers.keys, addr ∈ added
  counted : peers.size = added.length

variable {added : List EtherAddr} {peers : PeerMap} {addr : EtherAddr}

/-- Slots that differ in the first table differ in every larger one. -/
theorem Settled.distinct (settled : Settled hash added peers)
    (spread : ((addr :: added).map (firstHome hash)).Nodup) {slots : Nat} (wide : 256 ∣ slots) :
    ((peers.keys ++ [addr]).map fun key => (hash key).toNat % slots).Nodup := by
  have among : ∀ key ∈ peers.keys ++ [addr], key ∈ addr :: added := by
    intro key present
    rcases List.mem_append.mp present with old | new
    · exact List.mem_cons_of_mem _ (settled.among key old)
    · rw [List.mem_singleton.mp new]
      exact List.mem_cons_self
  have fresh : addr ∉ peers.keys := fun present =>
    (List.nodup_cons.mp spread).1 (List.mem_map_of_mem (settled.among addr present))
  refine List.Nodup.map_on ?_ ?_
  · intro first left second right same
    refine List.inj_on_of_nodup_map spread (among first left) (among second right) ?_
    rw [firstHome, firstHome, ← Nat.mod_mod_of_dvd _ wide, same, Nat.mod_mod_of_dvd _ wide]
  · refine List.nodup_append.mpr ⟨settled.valid.map.distinct, List.nodup_singleton _, ?_⟩
    rintro first present second new rfl
    rw [List.mem_singleton.mp new] at present
    exact fresh present

theorem empty_homed (count : Nat) : Homed hash (List.replicate count (none : Option EtherAddr)) := by
  intro index key used
  simp [List.getElem?_replicate] at used

theorem Settled.uncrowded (settled : Settled hash added peers)
    (spread : ((addr :: added).map (firstHome hash)).Nodup) : Uncrowded hash peers addr ∧
      Homed hash (settle hash (List.replicate (2 * peers.slots.length) none) 0 (peers.keys ++ [addr])) ∧
      peers.seats[(hash addr).toNat % peers.seats.length]? = some none := by
  have room := settled.valid.map.room
  have wide : 256 ∣ peers.slots.length := by
    rcases settled.slots with first | second
    · exact ⟨1, by omega⟩
    · exact ⟨2, by omega⟩
  have keys : (peers.keys.length : Int) = peers.size := by
    rw [HashmapMap.keys, List.length_map, settled.valid.map.counted]
  have half := settled.half
  obtain ⟨spreads, homed⟩ := spreads_homes (peers.keys ++ [addr])
    (List.replicate (2 * peers.slots.length) none) 0 (empty_homed _) (by simp; omega)
    (by rw [List.length_replicate, List.length_append, List.length_singleton]; omega)
    (by
      rw [List.length_replicate, List.reduceOption_replicate_none, List.nil_append]
      exact settled.distinct spread (wide.mul_left 2))
  have free : peers.seats[(hash addr).toNat % peers.seats.length]? = some none := by
    refine home_free settled.homed (by rwa [seats_length]) fun other present same => ?_
    rw [seats_reduceOption] at present
    have apart := settled.distinct spread wide
    rw [List.map_append, List.map_singleton, List.nodup_append] at apart
    rw [seats_length] at same
    exact apart.2.2 _ (List.mem_map_of_mem present) _ List.mem_cons_self same
  refine ⟨?_, homed, free⟩
  rw [Uncrowded]
  split
  case isTrue few =>
    rw [seat_home peers.size (by rwa [seats_length]) free]
    rfl
  case isFalse => exact spreads

def addAll (addrs : List EtherAddr) : List (PeerOp Empty) :=
  addrs.map fun addr => .add addr 0 (fun _ => true) zeroPeer none

theorem Settled.keys_add (settled : Settled hash added peers) (absent : peers.contents addr = none) :
    ∀ key ∈ (PeerOp.run hash peers
      (.add addr 0 (fun _ => true) zeroPeer none : PeerOp Empty)).keys, key ∈ addr :: added := by
  intro key present
  have listed : (awdlPeerAdd hash (fun _ => true) zeroPeer peers addr 0
      (none : Option (Peer → Empty))).2.1.contents key ≠ none := fun gone =>
    (contents_none_iff _ key).mp gone present
  have before : peers.contents key ≠ none → key ∈ addr :: added := fun kept =>
    List.mem_cons_of_mem _ (settled.among key (by
      by_contra lost
      exact kept ((contents_none_iff peers key).mpr lost)))
  have outcome := awdlPeerAdd_added (fun _ => true) zeroPeer peers settled.valid.map addr 0
    (none : Option (Peer → Empty))
  generalize awdlPeerAdd hash (fun _ => true) zeroPeer peers addr 0
    (none : Option (Peer → Empty)) = result at listed outcome
  cases outcome with
  | update peer found =>
      rw [absent] at found
      cases found
  | new _ after valid contents =>
      by_cases same : key = addr
      · rw [same]
        exact List.mem_cons_self
      · rw [contents, Function.update_of_ne same] at listed
        exact before listed
  | refused _ after valid fewer =>
      obtain ⟨peer, found⟩ := Option.ne_none_iff_exists'.mp listed
      exact before (by rw [fewer key peer found]; simp)

/-- A new address goes to its home slot, or all do in the larger table. -/
theorem Settled.grown (settled : Settled hash added peers) (few : added.length < 256)
    (spread : ((addr :: added).map (firstHome hash)).Nodup) {after : PeerMap}
    (grown : Grown hash (fun _ => true) peers addr after) :
    Homed hash after.seats ∧ (after.slots.length = 256 ∨ after.slots.length = 512) ∧
      after.size ≤ (after.slots.length / 2 : Nat) ∧ after.size = (addr :: added).length := by
  obtain ⟨-, homed, free⟩ := settled.uncrowded spread
  obtain ⟨half, -⟩ := grown.half settled.valid.map settled.half
  have counted := settled.counted
  rw [List.length_cons]
  cases grown with
  | stored index value found =>
      have home : index = (hash addr).toNat % peers.seats.length := by
        by_cases few : peers.size < (peers.seats.length / 2 : Nat)
        · rw [seat_home peers.size few free] at found
          exact (Option.some.inj found).symm
        · rw [seat, if_pos (by omega)] at found
          cases found
      refine ⟨?_, by simpa using settled.slots, half, by simp [counted]⟩
      rw [HashmapMap.seats, List.map_set, home]
      exact homed_set settled.homed addr
  | refused refused =>
      rcases settled.slots with slots | slots <;> rw [slots] at refused <;> cases refused
  | doubled _ full wide size same =>
      have entries := settled.valid.map.counted
      refine ⟨same ▸ homed, ?_, half, by omega⟩
      rcases settled.slots with slots | slots <;> omega

theorem Settled.add (settled : Settled hash added peers) (few : added.length < 256)
    (spread : ((addr :: added).map (firstHome hash)).Nodup) :
    Settled hash (addr :: added)
      (PeerOp.run hash peers (.add addr 0 (fun _ => true) zeroPeer none : PeerOp Empty)) := by
  have absent : peers.contents addr = none := (contents_none_iff peers addr).mpr fun present =>
    (List.nodup_cons.mp spread).1 (List.mem_map_of_mem (settled.among addr present))
  have missing := hashmapGet_keep peers settled.valid.map addr
  rw [absent] at missing
  obtain ⟨seats, size⟩ := awdlPeerAdd_shape (fun _ => true) zeroPeer peers addr 0
    (none : Option (Peer → Empty)) missing
  obtain ⟨homed, slots, half, counted⟩ := settled.grown few spread
    (hashmapPut_grown (fun _ => true) { awdlPeerNew zeroPeer addr with lastUpdate := 0 }
      settled.valid.map.room (.inr (settled.uncrowded spread).1))
  have length := length_of_seats seats
  refine ⟨run_valid peers settled.valid _, ?_, ?_, ?_, settled.keys_add absent, ?_⟩
  · exact seats ▸ homed
  · exact length ▸ slots
  · exact length ▸ size ▸ half
  · exact size.trans counted

/-- Addresses with distinct home slots in the first table never crowd a window. -/
theorem Settled.addAll (addrs : List EtherAddr) (settled : Settled hash added peers)
    (few : addrs.length + added.length ≤ 256)
    (spread : ((addrs.reverse ++ added).map (firstHome hash)).Nodup) :
    RunUncrowded hash peers (addAll addrs) ∧
      Settled hash (addrs.reverse ++ added) (tableRun hash peers (addAll addrs)) := by
  induction addrs generalizing added peers with
  | nil => exact ⟨trivial, settled⟩
  | cons addr rest ih =>
      rw [List.reverse_cons, List.append_assoc, List.singleton_append] at spread ⊢
      have here : ((addr :: added).map (firstHome hash)).Nodup := by
        rw [List.map_append] at spread
        exact (List.nodup_append.mp spread).2.1
      rw [List.length_cons] at few
      obtain ⟨later, last⟩ := ih (settled.add (by omega) here)
        (by rw [List.length_cons]; omega) spread
      exact ⟨⟨.inr (.inr (settled.uncrowded here).1), later⟩, last⟩

def distinctHomes : List EtherAddr :=
  [1, 2, 3, 4, 5, 6, 7, 8, 9, 10, 11, 12, 13, 14, 15, 16, 17, 18, 19, 20, 21, 22, 23, 24, 25,
    26, 27, 28, 29, 30, 31, 32, 33, 34, 35, 36, 37, 38, 39, 40, 41, 42, 44, 45, 47, 48, 49, 50,
    51, 55, 57, 58, 59, 60, 62, 64, 65, 66, 67, 68, 70, 72, 75, 76, 77, 79, 80, 81, 82, 83, 86,
    87, 89, 91, 92, 93, 94, 95, 96, 97, 98, 102, 103, 105, 106, 109, 110, 111, 112, 113, 114, 116,
    117, 118, 119, 120, 122, 124, 127, 129, 130, 131, 132, 133, 134, 135, 136, 137, 140, 145, 146,
    147, 149, 152, 153, 154, 156, 157, 161, 163, 165, 166, 167, 171, 176, 179, 180, 181, 187].map
    fun last => ⟨2, 0, 0, 0, 0, last⟩

/-- The 129th of these peers makes the table double. -/
theorem peer_table_proportional_grown :
    (tableRun addrHash awdlPeersInit (addAll distinctHomes)).slots.length = 512 ∧
      512 ≤ max 256 (8 * peak addrHash awdlPeersInit (addAll distinctHomes)) := by
  have empty : Settled addrHash [] awdlPeersInit :=
    ⟨awdlPeersInit_valid, (fresh_seats initialSize).symm ▸ empty_homed initialSize,
      .inl List.length_replicate, by decide, by decide, rfl⟩
  have spread : ((distinctHomes.reverse ++ []).map (firstHome addrHash)).Nodup := by
    decide +kernel
  have many : distinctHomes.length = 129 := by decide +kernel
  obtain ⟨uncrowded, settled⟩ := empty.addAll distinctHomes
    (by rw [many, List.length_nil]; omega) spread
  have bound := peer_table_proportional addrHash (addAll distinctHomes) uncrowded
  have counted := settled.counted
  rw [List.append_nil, List.length_reverse, many] at counted
  have half := settled.half
  have slots : (tableRun addrHash awdlPeersInit (addAll distinctHomes)).slots.length = 512 := by
    rcases settled.slots with small | large
    · omega
    · exact large
  exact ⟨slots, slots ▸ bound⟩

end Runs

end Owl.PeerGrowth
