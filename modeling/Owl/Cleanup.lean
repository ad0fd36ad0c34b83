import Owl.Neighbors

/-!
The age of peers. `awdl_clean_peers` compares the stored readings of the clock with
a cutoff two seconds before its own reading, all as unsigned numbers. The readings
wrap: the cutoff below zero, and with a 32-bit `long` the clock itself, whose
seconds become microseconds in a signed product of that width. The theorem at the
end says for which pairs of times the comparison still tells a fresh peer from a
stale one.
-/

namespace Owl.Cleanup

open Bytes Ether Channel Siphash Sync Peers PeersRefine Wire State RxTlv Rx RxSpec RxData Daemon
  Neighbors

section Clock

def nanos (time : Timespec) : Nat := time.tvSec * 1000000000 + time.tvNsec

def micros (time : Timespec) : Nat := time.tvSec * 1000000 + time.tvNsec / 1000

theorem micros_nanos (time : Timespec) : micros time = nanos time / 1000 := by
  have split : nanos time = 1000 * (time.tvSec * 1000000) + time.tvNsec := by
    unfold nanos
    omega
  rw [split, Nat.mul_add_div (by decide)]
  rfl

/-- How often the product of the seconds has turned negative. -/
def laps (long : LongWidth) (time : Timespec) : Nat :=
  match long with
  | .bits32 => (time.tvSec * 1000000 + 2 ^ 31) / 2 ^ 32
  | .bits64 => 0

/-- The microseconds, less what the product has lost. -/
def reading (long : LongWidth) (time : Timespec) : Int :=
  ((micros time : Int) - 2 ^ 32 * laps long time) % 2 ^ 64

theorem toUInt64_emod (value : Int64) : (value.toUInt64.toNat : Int) = value.toInt % 2 ^ 64 := by
  have signed : value.toInt = (value.toUInt64.toNat : Int).bmod (2 ^ 64) :=
    BitVec.toInt_eq_toNat_bmod value.toBitVec
  have wrapped : (value.toUInt64.toNat : Int).bmod (2 ^ 64) % ((2 ^ 64 : Nat) : Int) =
      (value.toUInt64.toNat : Int) % ((2 ^ 64 : Nat) : Int) := Int.bmod_emod
  have small := value.toUInt64.toNat_lt
  rw [signed]
  omega

theorem product_laps (seconds : Nat) : (Int32.ofNat seconds * 1000000).toInt =
    ((seconds * 1000000 : Nat) : Int) - 2 ^ 32 * ((seconds * 1000000 + 2 ^ 31) / 2 ^ 32 : Nat) := by
  have factor : (1000000 : Int32).toInt = 1000000 := rfl
  have balanced : (Int32.ofNat seconds * 1000000).toInt =
      ((seconds * 1000000 : Nat) : Int).bmod (2 ^ 32) := by
    rw [Int32.toInt_mul, Int32.toInt_ofNat', factor, Int32.size, Int.bmod_mul_bmod]
    push_cast
    rfl
  rw [balanced, Int.bmod_def]
  split <;> omega

theorem clockTimeUs_reading (long : LongWidth) (time : Timespec) :
    ((clockTimeUs long (some time)).toNat : Int) = reading long time := by
  unfold clockTimeUs reading micros laps
  cases long with
  | bits32 =>
      have widened := toUInt64_emod (Int32.ofNat time.tvSec * 1000000).toInt64
      rw [Int32.toInt_toInt64, product_laps] at widened
      dsimp only
      generalize (time.tvSec * 1000000 + 2 ^ 31) / 2 ^ 32 = laps at widened
      rw [UInt64.toNat_add, UInt64.toNat_ofNat', Int.natCast_mod, Nat.cast_add, widened]
      omega
  | bits64 =>
      have factor : (Int64.toUInt64 1000000).toNat = 1000000 := rfl
      simp only [Int64.toUInt64_mul, Int64.toUInt64_ofNat', UInt64.toNat_add, UInt64.toNat_mul,
        UInt64.toNat_ofNat', factor]
      omega

/-- The test of the cleanup on two readings. -/
theorem stale_iff (long : LongWidth) (first later : Timespec) :
    clockTimeUs long (some first) < clockTimeUs long (some later) - 2000000 ↔
      reading long first < (reading long later - 2000000) % 2 ^ 64 := by
  have small := (clockTimeUs long (some later)).toNat_lt
  have timeout : (2000000 : UInt64).toNat = 2000000 := rfl
  rw [← clockTimeUs_reading, ← clockTimeUs_reading, UInt64.lt_iff_toNat_lt, UInt64.toNat_sub, timeout]
  omega

theorem reading_bounds (long : LongWidth) (time : Timespec) :
    0 ≤ reading long time ∧ reading long time < 2 ^ 64 := by
  unfold reading
  omega

end Clock

section Ages

variable (long : LongWidth) (first later : Timespec)

/-- The product has not turned negative between the times, and they are not both in
the two seconds after the clock was zero. -/
def FreshSafe : Prop :=
  laps long first = laps long later ∧
    ¬ (reading long first ≤ reading long later ∧ reading long later < 2000000)

/-- The later reading is more than two seconds ahead, where one in the first two
seconds after zero is ahead of all but the last ones before. -/
def StaleSafe : Prop :=
  reading long first + 2000000 < reading long later ∨
    reading long later < 2000000 ∧ reading long first + 2000000 < reading long later + 2 ^ 64

def Sound : Prop :=
  (nanos later ≤ nanos first + 1000000000 → FreshSafe long first later) ∧
    (nanos first + 2100000000 < nanos later → StaleSafe long first later)

variable {long first later}

theorem micros_mono (order : nanos first ≤ nanos later) : micros first ≤ micros later := by
  rw [micros_nanos, micros_nanos]
  exact Nat.div_le_div_right order

/-- At most a second apart, so the product grows by one second at most. -/
theorem fresh_distance (order : nanos first ≤ nanos later)
    (near : nanos later ≤ nanos first + 1000000000) :
    micros later ≤ micros first + 1000000 ∧ first.tvSec ≤ later.tvSec ∧
      later.tvSec ≤ first.tvSec + 1 := by
  refine ⟨?_, ?_⟩
  · rw [micros_nanos, micros_nanos]
    omega
  · have left := first.normal
    have right := later.normal
    unfold nanos at order near
    omega

theorem stale_distance (far : nanos first + 2100000000 < nanos later) :
    micros first + 2000000 < micros later := by
  rw [micros_nanos, micros_nanos]
  omega

/-- A product that turns negative takes the reading from the middle of its range to
the end. -/
theorem stale_turned (order : nanos first ≤ nanos later)
    (near : nanos later ≤ nanos first + 1000000000) (turned : laps long first ≠ laps long later) :
    reading long first < (reading long later - 2000000) % 2 ^ 64 := by
  have forward := micros_mono order
  obtain ⟨close, seconds, next⟩ := fresh_distance order near
  cases long with
  | bits64 => exact absurd rfl turned
  | bits32 =>
      have once : laps .bits32 later = laps .bits32 first + 1 := by
        clear order near forward close
        simp only [laps] at turned ⊢
        omega
      have middle : 2 ^ 32 * laps .bits32 first + 2 ^ 31 ≤ first.tvSec * 1000000 + 1000000 ∧
          first.tvSec * 1000000 < 2 ^ 32 * laps .bits32 first + 2 ^ 31 := by
        clear order near forward close turned
        simp only [laps] at once ⊢
        omega
      have around : 2 ^ 32 * (laps .bits32 first : Int) + 2 ^ 31 - 1000000 ≤ micros first ∧
          (micros first : Int) < 2 ^ 32 * laps .bits32 first + 2 ^ 31 + 1000000 := by
        have left := first.normal
        unfold micros
        clear order near forward close turned once
        omega
      unfold reading
      rw [once, Nat.cast_add, Nat.cast_one]
      generalize laps .bits32 first = lap at around ⊢
      have before : ((micros first : Int) - 2 ^ 32 * lap) % 2 ^ 64 = micros first - 2 ^ 32 * lap :=
        Int.emod_eq_of_lt (by omega) (by omega)
      have after : ((micros later : Int) - 2 ^ 32 * (lap + 1)) % 2 ^ 64 =
          micros later - 2 ^ 32 * (lap + 1) + 2 ^ 64 := by
        rw [← Int.add_emod_right]
        exact Int.emod_eq_of_lt (by omega) (by omega)
      have cutoff : ((micros later : Int) - 2 ^ 32 * (lap + 1) + 2 ^ 64 - 2000000) % 2 ^ 64 =
          micros later - 2 ^ 32 * (lap + 1) + 2 ^ 64 - 2000000 :=
        Int.emod_eq_of_lt (by omega) (by omega)
      rw [before, after, cutoff]
      omega

theorem fresh_kept_iff (order : nanos first ≤ nanos later)
    (near : nanos later ≤ nanos first + 1000000000) :
    ¬ reading long first < (reading long later - 2000000) % 2 ^ 64 ↔ FreshSafe long first later := by
  have forward := micros_mono order
  obtain ⟨close, -⟩ := fresh_distance order near
  unfold FreshSafe
  by_cases same : laps long first = laps long later
  · unfold reading
    rw [same]
    omega
  · have stale := stale_turned order near same
    exact iff_of_false (fun kept => kept stale) fun safe => same safe.1

theorem stale_removed_iff :
    reading long first < (reading long later - 2000000) % 2 ^ 64 ↔ StaleSafe long first later := by
  obtain ⟨low, high⟩ := reading_bounds long first
  obtain ⟨lowLater, highLater⟩ := reading_bounds long later
  unfold StaleSafe
  omega

theorem reading_bits64 (time : Timespec) (early : micros time < 2 ^ 64) :
    reading .bits64 time = micros time := by
  simp only [reading, laps]
  omega

/-- With a 64-bit `long` only the first two seconds of the clock are in danger. -/
theorem sound_bits64 (order : nanos first ≤ nanos later) (early : micros later < 2 ^ 64) :
    Sound .bits64 first later ↔
      (nanos later ≤ nanos first + 1000000000 → 2000000 ≤ micros later) := by
  have forward := micros_mono order
  have start := reading_bits64 first (forward.trans_lt early)
  have finish := reading_bits64 later early
  have fresh : FreshSafe .bits64 first later ↔ 2000000 ≤ micros later := by
    simp only [FreshSafe, start, finish, laps, true_and]
    omega
  have stale : nanos first + 2100000000 < nanos later → StaleSafe .bits64 first later := by
    intro far
    refine .inl ?_
    rw [start, finish]
    exact_mod_cast stale_distance far
  unfold Sound
  rw [fresh]
  exact ⟨fun sound => sound.1, fun safe => ⟨safe, stale⟩⟩

end Ages

/-! What becomes of one entry of the table. -/
section Table

variable (hash : EtherAddr → UInt64) (long : LongWidth) (state : AwdlState) (addr : EtherAddr)
  (peer : Peer) (first later : Timespec)

/-- A peer last seen at `first` outlives a cleanup within a second and no cleanup
after more than 2.1 seconds. -/
def Cleans : Prop :=
  (nanos later ≤ nanos first + 1000000000 →
    awdlPeerGet hash (awdlCleanPeers (clockTimeUs long (some later)) state).1.peers.peers addr =
        (.ok, some peer) ∧
      .awdlNeighborRemove ∉
        callbacks addr (awdlCleanPeers (clockTimeUs long (some later)) state).2) ∧
  (nanos first + 2100000000 < nanos later →
    awdlPeerGet hash (awdlCleanPeers (clockTimeUs long (some later)) state).1.peers.peers addr =
      (.missing, none))

variable {hash state addr peer}

/-- The cleanup removes the entry exactly when its reading is below the cutoff. -/
theorem awdlCleanPeers_entry (valid : NodeValid hash state) (now : UInt64)
    (present : awdlPeerGet hash state.peers.peers addr = (.ok, some peer)) :
    awdlPeerGet hash (awdlCleanPeers now state).1.peers.peers addr =
      if peer.lastUpdate < now - state.peers.timeout then (.missing, none) else (.ok, some peer) := by
  have entry : state.peers.peers.contents addr = some peer := by
    rw [awdlPeerGet_eq _ valid.table.map] at present
    cases stored : state.peers.peers.contents addr with
    | none =>
        rw [stored] at present
        cases present
    | some other =>
        rw [stored] at present
        cases present
        rfl
  have after := awdlCleanPeers_contents now valid.table addr
  rw [entry, Option.filter_some] at after
  rw [awdlPeerGet_eq _ (awdlCleanPeers_valid now valid).table.map, after]
  by_cases stale : peer.lastUpdate < now - state.peers.timeout
  · simp [stale]
  · simp [stale]

theorem clean_silent (valid : NodeValid hash state) (now : UInt64)
    (present : awdlPeerGet hash state.peers.peers addr = (.ok, some peer))
    (recent : ¬ peer.lastUpdate < now - state.peers.timeout) :
    callbacks addr (awdlCleanPeers now state).2 = [] := by
  refine callbacks_elsewhere addr _ (clean_elsewhere valid now addr ?_)
  intro other entry
  rw [awdlPeerGet_eq _ valid.table.map, entry] at present
  cases present
  exact recent

theorem cleans_iff_sound (valid : NodeValid hash state) (default : state.peers.timeout = 2000000)
    (present : awdlPeerGet hash state.peers.peers addr = (.ok, some peer))
    (updated : peer.lastUpdate = clockTimeUs long (some first)) (order : nanos first ≤ nanos later) :
    Cleans hash long state addr peer first later ↔ Sound long first later := by
  have entry := awdlCleanPeers_entry valid (clockTimeUs long (some later)) present
  have silent := clean_silent valid (clockTimeUs long (some later)) present
  rw [updated, default] at entry silent
  simp only [stale_iff] at entry silent
  unfold Cleans Sound
  refine and_congr (imp_congr_right fun near => ?_) (imp_congr_right fun _ => ?_)
  · rw [← fresh_kept_iff order near, entry]
    constructor
    · intro kept stale
      rw [if_pos stale] at kept
      cases kept.1
    · intro kept
      rw [if_neg kept, silent kept]
      exact ⟨rfl, List.not_mem_nil⟩
  · rw [← stale_removed_iff, entry]
    constructor
    · intro removed
      by_contra kept
      rw [if_neg kept] at removed
      cases removed
    · intro stale
      exact if_pos stale

/-- With a 64-bit `long` a fresh peer is in danger in the first two seconds only. -/
theorem clean_peers_iff (valid : NodeValid hash state) (default : state.peers.timeout = 2000000)
    (present : awdlPeerGet hash state.peers.peers addr = (.ok, some peer))
    (updated : peer.lastUpdate = clockTimeUs long (some first)) (order : nanos first ≤ nanos later) :
    (Cleans hash long state addr peer first later ↔ Sound long first later) ∧
      (long = .bits64 → micros later < 2 ^ 64 →
        (Cleans hash long state addr peer first later ↔
          (nanos later ≤ nanos first + 1000000000 → 2000000 ≤ micros later))) := by
  have exactly := cleans_iff_sound long first later valid default present updated order
  refine ⟨exactly, ?_⟩
  rintro rfl early
  exact exactly.trans (sound_bits64 order early)

end Table

section Boot

def bootTime : Timespec := ⟨1, 0, by decide⟩
def soonAfter : Timespec := ⟨1, 500000000, by decide⟩

/-- A peer that the node hears one second after the start of the clock. -/
theorem peer_at_boot : ∃ state history peer,
    Reaches addrHash (fun _ _ _ => True) state history ∧ state.peers.timeout = 2000000 ∧
      awdlPeerGet addrHash state.peers.peers peerAddr = (.ok, some peer) ∧
      peer.lastUpdate = 1000000 := by
  have shown : ((receiveAll addrHash zeroEnv [psfCapture]
      (awdlInit (Fixed.replicate _ 0) [] selfAddr chanNull 0 true)).map fun after =>
        (after.1.peers.timeout, (awdlPeerGet addrHash after.1.peers.peers peerAddr).1,
          (awdlPeerGet addrHash after.1.peers.peers peerAddr).2.map Peer.lastUpdate)).toOption =
      some (2000000, .ok, some 1000000) := by decide +kernel
  obtain ⟨⟨state, history⟩, run, seen⟩ := toOption_map_some shown
  simp only [Prod.mk.injEq, Option.map_eq_some_iff] at seen
  obtain ⟨timeout, found, peer, entry, updated⟩ := seen
  have inside : RadiotapInside zeroEnv := byteRadiotap_inside
  have reached := receiveAll_reaches inside [psfCapture] _ state [] history (.init _ _ _ _ _ _) run
  exact ⟨state, history, peer, reached, timeout, Prod.ext found entry, updated⟩

/-- Half a second later, on either platform, the cutoff has wrapped and the peer is
removed. -/
theorem fresh_peer_dropped : ∃ state history peer,
    Reaches addrHash (fun _ _ _ => True) state history ∧ state.peers.timeout = 2000000 ∧
      awdlPeerGet addrHash state.peers.peers peerAddr = (.ok, some peer) ∧
      ∀ long, peer.lastUpdate = clockTimeUs long (some bootTime) ∧
        ¬ Cleans addrHash long state peerAddr peer bootTime soonAfter := by
  obtain ⟨state, history, peer, reached, timeout, present, updated⟩ := peer_at_boot
  refine ⟨state, history, peer, reached, timeout, present, fun long => ⟨?_, ?_⟩⟩
  · rw [updated]
    cases long <;> rfl
  · intro cleans
    have kept := (cleans.1 (by decide)).1
    rw [awdlCleanPeers_entry (reaches_valid reached) _ present, timeout, updated,
      if_pos (by cases long <;> decide)] at kept
    cases kept

theorem clean_peers_iff_boot : ∃ state peer,
    NodeValid addrHash state ∧ state.peers.timeout = 2000000 ∧
      awdlPeerGet addrHash state.peers.peers peerAddr = (.ok, some peer) ∧
      peer.lastUpdate = clockTimeUs .bits64 (some bootTime) ∧ nanos bootTime ≤ nanos soonAfter ∧
      (Cleans addrHash .bits64 state peerAddr peer bootTime soonAfter ↔
        (nanos soonAfter ≤ nanos bootTime + 1000000000 → 2000000 ≤ micros soonAfter)) := by
  obtain ⟨state, history, peer, reached, timeout, present, updated⟩ := peer_at_boot
  have valid := reaches_valid reached
  have order : nanos bootTime ≤ nanos soonAfter := by decide
  exact ⟨state, peer, valid, timeout, present, updated, order,
    (clean_peers_iff .bits64 bootTime soonAfter valid timeout present updated order).2 rfl (by decide)⟩

end Boot

end Owl.Cleanup
