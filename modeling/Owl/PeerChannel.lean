import Owl.Airtime

/-!
From a channel sequence on the air to the decision to send. A peer advertises its
channels in an encoding of its choice, which says which byte of an entry is the
channel number. `awdl_handle_chanseq_tlv` copies the entries and forgets the
encoding; `awdl_same_channel_as_peer` later reads them in the encoding of this node.
-/

namespace Owl.PeerChannel

open Bytes Channel Sync SyncClock Peers Wire State RxTlv RxSpec RxAction RxData Schedule Airtime

section Stored

variable (val : Buf)

/-- The entry at `slot` once the handler has copied the value: one byte over the entry of
`list`, or both. -/
def storedEntry (list : ChanSeq) (enc : ChanEncoding) (bytes : List UInt8) (slot : Nat) : AwdlChan :=
  match enc with
  | .simple => ⟨[byteAt bytes (6 + slot), byteAt (list.toList.getD slot chanNull).toList 1], rfl⟩
  | .legacy | .opclass => ⟨[byteAt bytes (6 + 2 * slot), byteAt bytes (7 + 2 * slot)], rfl⟩

/-- The copy loop writes the entries from `i` on and no other. -/
theorem chanseqLoop_stores (width : Nat) (positive : 1 ≤ width) (fits : width ≤ 2) (count i : Nat)
    (room : i + count ≤ awdlChanseqLength) (offset : Nat) (bound : offset + 2 * count < 2 ^ 31)
    (list after : ChanSeq)
    (run : chanseqLoop val width count i offset list = .ok (some after)) (slot : Nat) :
    (slot < i ∨ i + count ≤ slot →
      after.toList.getD slot chanNull = list.toList.getD slot chanNull) ∧
    (i ≤ slot → slot < i + count → (after.toList.getD slot chanNull).toList =
      slice val.bytes (offset + (slot - i) * width) width ++
        (list.toList.getD slot chanNull).toList.drop width) := by
  induction count generalizing i offset list with
  | zero =>
      cases run
      exact ⟨fun _ => rfl, fun _ _ => by omega⟩
  | succ count ih =>
      by_cases inside : offset + width ≤ val.bytes.length
      swap
      · rw [chanseqLoop_short val width fits count i offset (by omega) (by omega) list inside] at run
        cases run
      have length := slice_length val.bytes offset width inside
      obtain ⟨chan, next, copied, stored, step⟩ := chanseqLoop_step val width fits count i offset
        (by omega) (by omega) list (by omega) inside
      have content := Fixed.store_toList _ chan 0 _ copied
      rw [Int.toNat_natCast] at content
      have entry := Fixed.store_one_getD list next i chan chanNull stored slot
      rw [step] at run
      obtain ⟨same, new⟩ := ih (i + 1) (by omega) (offset + width) (by omega) next run
      constructor
      · intro outside
        rw [same (by omega), entry, if_neg (by omega)]
      · intro start below
        by_cases first : slot = i
        · subst first
          rw [same (by omega), entry, if_pos rfl, content, length, Nat.sub_self, Nat.zero_mul,
            List.take_zero, List.nil_append, Nat.zero_add, Nat.add_zero]
        · have later : offset + width + (slot - (i + 1)) * width = offset + (slot - i) * width := by
            obtain ⟨gap, rfl⟩ : ∃ gap, slot = i + 1 + gap := ⟨slot - (i + 1), by omega⟩
            rw [Nat.add_sub_cancel_left, show i + 1 + gap - i = gap + 1 by omega, Nat.succ_mul]
            omega
          rw [new (by omega) (by omega), entry, if_neg first, later]

theorem chan_ext {left right : AwdlChan} (first : byteAt left.toList 0 = byteAt right.toList 0)
    (second : byteAt left.toList 1 = byteAt right.toList 1) : left = right := by
  apply Fixed.ext_list
  match left, right with
  | ⟨[a, b], _⟩, ⟨[c, d], _⟩ =>
      have low : a = c := first
      have high : b = d := second
      rw [low, high]

/-- A byte of an entry whose first bytes were overwritten. -/
theorem patched_byte {chan old : AwdlChan} {bytes : List UInt8} {offset width : Nat}
    (content : chan.toList = slice bytes offset width ++ old.toList.drop width)
    (fits : width ≤ 2) (index : Nat) :
    byteAt chan.toList index =
      if index < width then byteAt bytes (offset + index) else byteAt old.toList index := by
  have size := chan.size
  have oldSize := old.size
  have length : (slice bytes offset width).length = width := by
    have both := congrArg List.length content
    rw [List.length_append, List.length_drop] at both
    omega
  rw [content]
  split
  case isTrue inside =>
    rw [← byteAt_slice bytes offset width index inside, byteAt, byteAt,
      List.getD_append _ _ _ _ (by omega)]
  case isFalse outside =>
    rw [byteAt, byteAt, List.getD_append_right _ _ _ _ (by omega), length,
      List.getD_eq_getElem?_getD, List.getD_eq_getElem?_getD, List.getElem?_drop]
    congr 2
    omega

/-- An entry that was overwritten as a whole. -/
theorem patched_whole {chan old : AwdlChan} {bytes : List UInt8} (slot : Nat)
    (content : chan.toList = slice bytes (6 + slot * 2) 2 ++ old.toList.drop 2) :
    chan = ⟨[byteAt bytes (6 + 2 * slot), byteAt bytes (7 + 2 * slot)], rfl⟩ := by
  have copied := patched_byte content (by decide)
  refine chan_ext ?_ ?_
  · rw [copied 0, if_pos (by decide), Nat.mul_comm]
    rfl
  · rw [copied 1, if_pos (by decide), Nat.mul_comm, Nat.add_right_comm]
    rfl

variable {val} {list : ChanSeq} {src after : Peer} {state state' : AwdlState}

/-- An accepted value is in a known encoding and was copied to the end. -/
theorem chanseq_accepted
    (accepted : awdlHandleChanseqTlv list src val state = .ok (.ok, after, state')) :
    ∃ enc sequence, ChanEncoding.ofCode (byteAt val.bytes 1) = some enc ∧
      chanseqLoop val (awdlChanEncodingSize (some enc)) awdlChanseqLength 0 6 list =
        .ok (some sequence) ∧ after = { src with sequence := sequence } := by
  rcases awdlHandleChanseqTlv_headFirst val state with ⟨-, result, negative, refuses⟩ | ⟨head, copies⟩
  · cases accepted.symm.trans (refuses list src)
    exact absurd negative (by decide)
  obtain ⟨read, loop, -, run⟩ := copies list src
  have taken := run.symm.trans accepted
  cases known : ChanEncoding.ofCode (byteAt val.bytes 1) with
  | none =>
      have sized := head.2.2.2.2.2
      rw [known] at sized
      exact absurd sized (by decide)
  | some enc =>
      rw [known] at loop
      cases read with
      | none => cases taken
      | some sequence =>
          cases taken
          exact ⟨enc, sequence, rfl, loop, rfl⟩

/-- The entries of the peer after an accepted value. -/
theorem accepted_entry
    (accepted : awdlHandleChanseqTlv list src val state = .ok (.ok, after, state')) :
    ∃ enc, ChanEncoding.ofCode (byteAt val.bytes 1) = some enc ∧
      after.syncOffset = src.syncOffset ∧ ∀ slot, slot < 16 →
        after.sequence.toList.getD slot chanNull = storedEntry list enc val.bytes slot := by
  obtain ⟨enc, sequence, known, run, rfl⟩ := chanseq_accepted accepted
  refine ⟨enc, known, rfl, ?_⟩
  intro slot inside
  have copies : ∀ width : Nat, 1 ≤ width → width ≤ 2 →
      chanseqLoop val width awdlChanseqLength 0 6 list = .ok (some sequence) →
      (sequence.toList.getD slot chanNull).toList =
        slice val.bytes (6 + slot * width) width ++
          (list.toList.getD slot chanNull).toList.drop width := fun width positive fits copied =>
    (chanseqLoop_stores val width positive fits awdlChanseqLength 0 (by decide) 6 (by decide) list
      sequence copied slot).2 (Nat.zero_le _) (by rw [Nat.zero_add]; exact inside)
  cases enc with
  | simple =>
      have copied := patched_byte (copies 1 (by decide) (by decide) run) (by decide)
      refine chan_ext ?_ ?_
      · rw [copied 0, if_pos (by decide), Nat.mul_one]
        rfl
      · rw [copied 1, if_neg (by decide)]
        rfl
  | legacy => exact patched_whole slot (copies 2 (by decide) (by decide) run)
  | opclass => exact patched_whole slot (copies 2 (by decide) (by decide) run)

end Stored

section Decision

/-- The entry at `slot` as it stands in the value; one of a single byte has no second. -/
def tlvEntry (enc : ChanEncoding) (bytes : List UInt8) (slot : Nat) : AwdlChan :=
  match enc with
  | .simple => ⟨[byteAt bytes (6 + slot), 0], rfl⟩
  | .legacy | .opclass => ⟨[byteAt bytes (6 + 2 * slot), byteAt bytes (7 + 2 * slot)], rfl⟩

/-- What the peer gets from memory is not looked at in its own encoding. -/
theorem storedEntry_chanNum (list : ChanSeq) (enc : ChanEncoding) (bytes : List UInt8) (slot : Nat) :
    awdlChanNum (storedEntry list enc bytes slot) (some enc) =
      awdlChanNum (tlvEntry enc bytes slot) (some enc) := by
  cases enc <;> rfl

def peerSlot (long : LongWidth) (node : AwdlState) (now : UInt64) (peer : Peer) : Nat :=
  slot long (now + peer.syncOffset) node.sync

def ownChan (long : LongWidth) (node : AwdlState) (now : UInt64) : UInt8 :=
  chanInSlot node node.channel.sequence (slot long now node.sync)

theorem sameChannel_entry (long : LongWidth) (node : AwdlState) (now : UInt64) (peer : Peer) :
    awdlSameChannelAsPeer long node now peer = true ↔
      ownChan long node now ≠ 0 ∧ ownChan long node now =
        awdlChanNum (peer.sequence.toList.getD (peerSlot long node now peer) chanNull)
          node.channel.enc := by
  unfold awdlSameChannelAsPeer ownChan chanInSlot peerSlot slot
  simp only [chanAt_slot, Bool.and_eq_true, bne_iff_ne, beq_iff_eq]

/-- One of the two encodings is the legacy one, which has the number in the second byte
of the entry, and only one of the two bytes is the number `own`. -/
def Misread (ours theirs : ChanEncoding) (own : UInt8) (entry : AwdlChan) : Prop :=
  (ours = .legacy ↔ theirs ≠ .legacy) ∧ own ≠ 0 ∧
    (byteAt entry.toList 0 = own ↔ byteAt entry.toList 1 ≠ own)

theorem chanNum_byte (enc : ChanEncoding) (entry : AwdlChan) :
    awdlChanNum entry (some enc) =
      if enc = .legacy then byteAt entry.toList 1 else byteAt entry.toList 0 := by
  cases enc <;> rfl

theorem misread_iff (ours theirs : ChanEncoding) (own : UInt8) (entry : AwdlChan) :
    ((own ≠ 0 ∧ own = awdlChanNum entry (some ours)) ↔
        (own ≠ 0 ∧ own = awdlChanNum entry (some theirs))) ↔
      ¬ Misread ours theirs own entry := by
  have first : own = byteAt entry.toList 0 ↔ byteAt entry.toList 0 = own := eq_comm
  have second : own = byteAt entry.toList 1 ↔ byteAt entry.toList 1 = own := eq_comm
  unfold Misread
  rw [chanNum_byte, chanNum_byte]
  by_cases our : ours = .legacy
  · by_cases their : theirs = .legacy
    · simp [our, their]
    · simp only [our, their, ↓reduceIte, first, second]
      tauto
  · by_cases their : theirs = .legacy
    · simp only [our, their, ↓reduceIte, first, second]
      tauto
    · simp [our, their]

/-- Whether the scheduler sends on the channel that the peer has advertised. -/
theorem scheduler_decodes_iff (list : ChanSeq) (src after : Peer) (val : Buf)
    (state state' : AwdlState)
    (accepted : awdlHandleChanseqTlv list src val state = .ok (.ok, after, state')) :
    ∃ enc, ChanEncoding.ofCode (byteAt val.bytes 1) = some enc ∧
      ∀ (long : LongWidth) (node : AwdlState) (now : UInt64),
        (awdlSameChannelAsPeer long node now after = true ↔
            ownChan long node now ≠ 0 ∧ ownChan long node now =
              awdlChanNum (tlvEntry enc val.bytes (peerSlot long node now src)) (some enc)) ↔
          ¬ Misread node.channel.enc enc (ownChan long node now)
            (storedEntry list enc val.bytes (peerSlot long node now src)) := by
  obtain ⟨enc, known, synced, entries⟩ := accepted_entry accepted
  refine ⟨enc, known, ?_⟩
  intro long node now
  have same : peerSlot long node now after = peerSlot long node now src := by
    rw [peerSlot, peerSlot, synced]
  rw [sameChannel_entry, same, entries (peerSlot long node now src) (slot_lt long _ node.sync),
    ← storedEntry_chanNum list]
  exact misread_iff node.channel.enc enc _ _

def legacySix : Buf :=
  ⟨[15, 1, 0, 3, 0xff, 0xff] ++ (List.replicate 16 [0x81, 6]).flatten, by decide⟩

theorem legacySix_accepted : ∃ after state',
    awdlHandleChanseqTlv (awdlChanseqInitStatic chanNull) tunedPeer legacySix tunedState =
        .ok (.ok, after, state') ∧
      awdlSameChannelAsPeer .bits64 tunedState 0 after = false := by
  have shown : ((awdlHandleChanseqTlv (awdlChanseqInitStatic chanNull) tunedPeer legacySix
      tunedState).map fun handled => (handled.1,
        awdlSameChannelAsPeer .bits64 tunedState 0 handled.2.1)).toOption = some (.ok, false) := by
    decide +kernel
  obtain ⟨⟨result, after, state'⟩, handled, same⟩ := toOption_map_some shown
  simp only [Prod.mk.injEq] at same
  obtain ⟨rfl, apart⟩ := same
  exact ⟨after, state', handled, apart⟩

/-- Both nodes are on channel 6 all the time, and the scheduler does not see it. -/
theorem scheduler_misreads_legacy : ∃ after state',
    awdlHandleChanseqTlv (awdlChanseqInitStatic chanNull) tunedPeer legacySix tunedState =
        .ok (.ok, after, state') ∧
      ChanEncoding.ofCode (byteAt legacySix.bytes 1) = some .legacy ∧
      ¬ (awdlSameChannelAsPeer .bits64 tunedState 0 after = true ↔
        ownChan .bits64 tunedState 0 ≠ 0 ∧ ownChan .bits64 tunedState 0 =
          awdlChanNum (tlvEntry .legacy legacySix.bytes
            (peerSlot .bits64 tunedState 0 tunedPeer)) (some .legacy)) := by
  obtain ⟨after, state', handled, apart⟩ := legacySix_accepted
  refine ⟨after, state', handled, by decide, ?_⟩
  rw [apart]
  decide

theorem scheduler_decodes_iff_legacy : ∃ after state' enc,
    awdlHandleChanseqTlv (awdlChanseqInitStatic chanNull) tunedPeer legacySix tunedState =
        .ok (.ok, after, state') ∧
      ¬ (awdlSameChannelAsPeer .bits64 tunedState 0 after = true ↔
        ownChan .bits64 tunedState 0 ≠ 0 ∧ ownChan .bits64 tunedState 0 =
          awdlChanNum (tlvEntry enc legacySix.bytes
            (peerSlot .bits64 tunedState 0 tunedPeer)) (some enc)) := by
  obtain ⟨after, state', handled, -⟩ := legacySix_accepted
  obtain ⟨enc, known, decodes⟩ := scheduler_decodes_iff _ _ after _ _ state' handled
  obtain rfl : ChanEncoding.legacy = enc := Option.some.inj ((show _ = _ by decide).symm.trans known)
  refine ⟨after, state', .legacy, handled, ?_⟩
  rw [decodes]
  unfold Misread
  decide

end Decision

end Owl.PeerChannel
