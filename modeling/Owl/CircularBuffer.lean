import Owl.Slots
import Mathlib.Data.Fin.Basic
import Mathlib.Data.Nat.ModEq
import Mathlib.Logic.Function.Basic

/-!
`circular_buffer.c`: an array with two indices and a flag that tells a full
buffer from an empty one. The array holds what `malloc` left in it until a slot
is written; the indices stay inside the array and a full buffer has them
at the same slot. The queue that the buffer stands for is the list of the slots
from `tail` on, oldest first: `circular_buf_put` appends to it as long as there
is room and replaces the oldest element afterwards, `circular_buf_get` takes
the oldest element away. Any sequence of calls is answered as the list bounded
by the capacity answers it.
-/

namespace Owl.CircularBuffer

open Slots

structure CircularBuf (α : Type) (max : Nat) where
  buffer : Fin max → α
  head : Fin max
  tail : Fin max
  full : Bool
  meets : full = true → head = tail

variable {α : Type} {max : Nat}

/-- `(index + 1) % cbuf->max`; the sum is at most `max`. -/
def next (index : Fin max) : Fin max := ⟨(index + 1) % max, Nat.mod_lt _ index.pos⟩

def advancePointer (cbuf : CircularBuf α max) : CircularBuf α max :=
  -- Writing to a full buffer has replaced the oldest element.
  let tail := if cbuf.full then next cbuf.tail else cbuf.tail
  let head := next cbuf.head
  { cbuf with head := head, tail := tail, full := decide (head = tail), meets := of_decide_eq_true }

def retreatPointer (cbuf : CircularBuf α max) : CircularBuf α max :=
  { cbuf with tail := next cbuf.tail, full := false, meets := by simp }

def circularBufReset (room : 0 < max) (cbuf : CircularBuf α max) : CircularBuf α max :=
  { cbuf with head := ⟨0, room⟩, tail := ⟨0, room⟩, full := false, meets := by simp }

/-- `memory` is what the allocator left in the slots; `size * sizeof(void *)` bytes
hold `max` of them as long as the product does not wrap. -/
def circularBufInit (memory : Fin max → α) (room : 0 < max) : CircularBuf α max :=
  circularBufReset room ⟨memory, ⟨0, room⟩, ⟨0, room⟩, false, by simp⟩

def circularBufEmpty (cbuf : CircularBuf α max) : Bool := !cbuf.full && cbuf.head == cbuf.tail

def circularBufFull (cbuf : CircularBuf α max) : Bool := cbuf.full

def circularBufSize (cbuf : CircularBuf α max) : Nat :=
  if cbuf.full then max
  else if cbuf.tail ≤ cbuf.head then cbuf.head - cbuf.tail
  else max + cbuf.head - cbuf.tail

def circularBufPut (cbuf : CircularBuf α max) (data : α) : CircularBuf α max :=
  advancePointer { cbuf with buffer := Function.update cbuf.buffer cbuf.head data }

/-- The result is whether there was room, which the source reports as 0 or -1. -/
def circularBufPut2 (cbuf : CircularBuf α max) (data : α) : Bool × CircularBuf α max :=
  if circularBufFull cbuf then (false, cbuf) else (true, circularBufPut cbuf data)

/-- The result is the element behind `data`, or nothing for the negative code. -/
def circularBufGet (cbuf : CircularBuf α max) (peek : Bool) : Option α × CircularBuf α max :=
  if circularBufEmpty cbuf then (none, cbuf)
  else (some (cbuf.buffer cbuf.tail), if peek then cbuf else retreatPointer cbuf)

def slotAt (start : Fin max) (distance : Nat) : Fin max :=
  ⟨(start + distance) % max, Nat.mod_lt _ start.pos⟩

def contents (cbuf : CircularBuf α max) : List α :=
  (List.range (circularBufSize cbuf)).map fun distance => cbuf.buffer (slotAt cbuf.tail distance)

@[simp] theorem slotAt_zero (start : Fin max) : slotAt start 0 = start :=
  Fin.ext (Nat.mod_eq_of_lt start.isLt)

theorem slotAt_next (start : Fin max) (distance : Nat) :
    slotAt (next start) distance = slotAt start (distance + 1) :=
  Fin.ext (window_step start distance max)

theorem next_slotAt (start : Fin max) (distance : Nat) :
    next (slotAt start distance) = slotAt start (distance + 1) := by
  apply Fin.ext
  show ((start + distance) % max + 1) % max = (start + (distance + 1)) % max
  rw [Nat.mod_add_mod, Nat.add_assoc]

/-- Less than a whole turn leads to another slot each time. -/
theorem slotAt_injective (start : Fin max) (first second : Nat) (firstLt : first < max)
    (secondLt : second < max) (same : slotAt start first = slotAt start second) :
    first = second := by
  have values : (start + first) % max = (start + second) % max := congrArg Fin.val same
  have congruent : first % max = second % max := Nat.ModEq.add_left_cancel' (start : Nat) values
  rwa [Nat.mod_eq_of_lt firstLt, Nat.mod_eq_of_lt secondLt] at congruent

theorem slotAt_max (start : Fin max) : slotAt start max = start := by
  apply Fin.ext
  show (start + max) % max = start
  rw [Nat.add_mod_right, Nat.mod_eq_of_lt start.isLt]

structure Measures (cbuf : CircularBuf α max) (size : Nat) : Prop where
  bound : size ≤ max
  leads : slotAt cbuf.tail size = cbuf.head
  whole : cbuf.full = true ↔ size = max

theorem circularBufSize_measures (cbuf : CircularBuf α max) :
    Measures cbuf (circularBufSize cbuf) := by
  have headLt := cbuf.head.isLt
  have tailLt := cbuf.tail.isLt
  unfold circularBufSize
  by_cases full : cbuf.full = true
  · rw [if_pos full]
    exact ⟨le_refl _, by rw [slotAt_max, cbuf.meets full], by simp [full]⟩
  · rw [if_neg full]
    by_cases order : cbuf.tail ≤ cbuf.head
    · have order' : (cbuf.tail : Nat) ≤ cbuf.head := order
      rw [if_pos order]
      refine ⟨by omega, Fin.ext ?_, iff_of_false full (by omega)⟩
      show (cbuf.tail + (cbuf.head - cbuf.tail : Nat)) % max = cbuf.head
      rw [Nat.add_sub_cancel' order', Nat.mod_eq_of_lt headLt]
    · have order' : (cbuf.head : Nat) < cbuf.tail := not_le.mp order
      rw [if_neg order]
      refine ⟨by omega, Fin.ext ?_, iff_of_false full (by omega)⟩
      show (cbuf.tail + (max + cbuf.head - cbuf.tail : Nat)) % max = cbuf.head
      rw [Nat.add_sub_cancel' (by omega), Nat.add_mod_left, Nat.mod_eq_of_lt headLt]

/-- The two indices and the flag determine the size. -/
theorem Measures.unique {cbuf : CircularBuf α max} {first second : Nat}
    (left : Measures cbuf first) (right : Measures cbuf second) : first = second := by
  by_cases full : cbuf.full = true
  · rw [left.whole.mp full, right.whole.mp full]
  · have firstLt : first < max := lt_of_le_of_ne left.bound (full ∘ left.whole.mpr)
    have secondLt : second < max := lt_of_le_of_ne right.bound (full ∘ right.whole.mpr)
    exact slotAt_injective cbuf.tail first second firstLt secondLt
      (left.leads.trans right.leads.symm)

theorem contents_eq {cbuf : CircularBuf α max} {size : Nat} (measured : Measures cbuf size) :
    contents cbuf = (List.range size).map fun distance =>
      cbuf.buffer (slotAt cbuf.tail distance) := by
  unfold contents
  rw [(circularBufSize_measures cbuf).unique measured]

theorem contents_length (cbuf : CircularBuf α max) :
    (contents cbuf).length = circularBufSize cbuf := by
  simp [contents]

theorem full_iff (cbuf : CircularBuf α max) :
    circularBufFull cbuf = true ↔ (contents cbuf).length = max := by
  rw [contents_length]
  exact (circularBufSize_measures cbuf).whole

theorem empty_iff (cbuf : CircularBuf α max) :
    circularBufEmpty cbuf = true ↔ contents cbuf = [] := by
  have measured := circularBufSize_measures cbuf
  have some_room : 0 < max := cbuf.head.pos
  rw [← List.length_eq_zero_iff, contents_length]
  constructor
  · intro empty
    obtain ⟨notFull, same⟩ : cbuf.full = false ∧ cbuf.head = cbuf.tail := by
      simpa [circularBufEmpty] using empty
    -- Size 0 fits the indices and the flag as well.
    refine measured.unique ⟨Nat.zero_le _, ?_, ?_⟩
    · rw [slotAt_zero, same]
    · simp only [notFull]
      constructor
      · intro never
        cases never
      · intro whole
        omega
  · intro zero
    rw [zero] at measured
    have notFull : ¬ cbuf.full = true := fun full => absurd (measured.whole.mp full) (by omega)
    have same := measured.leads
    rw [slotAt_zero] at same
    simp [circularBufEmpty, notFull, same]

theorem circularBufInit_contents (memory : Fin max → α) (room : 0 < max) :
    contents (circularBufInit memory room) = [] := by
  rw [← empty_iff]
  simp [circularBufEmpty, circularBufInit, circularBufReset]

theorem put_measures {cbuf : CircularBuf α max} (room : circularBufFull cbuf = false) (data : α) :
    Measures (circularBufPut cbuf data) (circularBufSize cbuf + 1) := by
  have measured := circularBufSize_measures cbuf
  have notFull : ¬ cbuf.full = true := Bool.not_eq_true _ ▸ room
  have less : circularBufSize cbuf < max :=
    lt_of_le_of_ne measured.bound (notFull ∘ measured.whole.mpr)
  have kept : (circularBufPut cbuf data).tail = cbuf.tail := if_neg notFull
  have moved : slotAt cbuf.tail (circularBufSize cbuf + 1) = next cbuf.head := by
    rw [← next_slotAt, measured.leads]
  have flag : (circularBufPut cbuf data).full = decide (next cbuf.head = cbuf.tail) :=
    congrArg (fun tail => decide (next cbuf.head = tail)) kept
  refine ⟨less, kept ▸ moved, ?_⟩
  rw [flag, decide_eq_true_iff, ← moved]
  constructor
  · -- short of a whole turn the new head would be another slot
    intro back
    by_contra short
    have again : circularBufSize cbuf + 1 = 0 :=
      slotAt_injective cbuf.tail _ 0 (lt_of_le_of_ne less short) (Nat.zero_lt_of_lt less)
        (back.trans (slotAt_zero cbuf.tail).symm)
    omega
  · intro whole
    rw [whole, slotAt_max]

/-- With room in the buffer the new element is the youngest of the queue. -/
theorem put_contents (cbuf : CircularBuf α max) (room : circularBufFull cbuf = false) (data : α) :
    contents (circularBufPut cbuf data) = contents cbuf ++ [data] := by
  have measured := circularBufSize_measures cbuf
  have notFull : ¬ cbuf.full = true := Bool.not_eq_true _ ▸ room
  have less : circularBufSize cbuf < max :=
    lt_of_le_of_ne measured.bound (notFull ∘ measured.whole.mpr)
  have kept : (circularBufPut cbuf data).tail = cbuf.tail := if_neg notFull
  have written : (circularBufPut cbuf data).buffer =
      Function.update cbuf.buffer cbuf.head data := rfl
  rw [contents_eq (put_measures room data), kept, written, List.range_succ, List.map_append,
    List.map_singleton, measured.leads, Function.update_self, contents]
  congr 1
  apply List.map_congr_left
  intro distance inside
  -- The written slot lies behind all that are in the queue.
  apply Function.update_of_ne
  intro hit
  have before := List.mem_range.mp inside
  have same := slotAt_injective cbuf.tail distance _ (before.trans less) less
    (hit.trans measured.leads.symm)
  omega

/-- A full buffer stays full and loses its oldest element. -/
theorem put_contents_full (cbuf : CircularBuf α max) (full : circularBufFull cbuf = true)
    (data : α) : contents (circularBufPut cbuf data) = (contents cbuf).tail ++ [data] := by
  have meets : cbuf.head = cbuf.tail := cbuf.meets full
  have moved : (circularBufPut cbuf data).tail = next cbuf.tail := if_pos full
  have written : (circularBufPut cbuf data).buffer =
      Function.update cbuf.buffer cbuf.tail data := by
    rw [← meets]
    rfl
  have again : (circularBufPut cbuf data).full = true := by
    show decide (next cbuf.head = (circularBufPut cbuf data).tail) = true
    rw [moved, meets, decide_eq_true rfl]
  obtain ⟨count, rfl⟩ : ∃ count, max = count + 1 :=
    Nat.exists_eq_succ_of_ne_zero cbuf.head.pos.ne'
  have size : circularBufSize cbuf = count + 1 := (circularBufSize_measures cbuf).whole.mp full
  have sizeAfter := (circularBufSize_measures (circularBufPut cbuf data)).whole.mp again
  unfold contents
  rw [sizeAfter, size, moved, written]
  simp only [slotAt_next]
  rw [List.range_succ, List.map_append, List.map_singleton, slotAt_max, Function.update_self,
    ← List.range_succ, List.range_succ_eq_map, List.map_cons, List.tail_cons, List.map_map]
  congr 1
  apply List.map_congr_left
  intro distance inside
  -- The written slot is the one the tail has just left.
  apply Function.update_of_ne
  intro hit
  have before := List.mem_range.mp inside
  have same := slotAt_injective cbuf.tail (distance + 1) 0 (by omega) (by omega)
    (hit.trans (slotAt_zero cbuf.tail).symm)
  omega

/-- The oldest element comes out first. -/
theorem get_contents (cbuf : CircularBuf α max) (some_left : circularBufEmpty cbuf = false) :
    ∃ data, circularBufGet cbuf false = (some data, retreatPointer cbuf) ∧
      contents cbuf = data :: contents (retreatPointer cbuf) := by
  have measured := circularBufSize_measures cbuf
  have positive : circularBufSize cbuf ≠ 0 := by
    intro zero
    have nothing : contents cbuf = [] := by rw [contents, zero]; rfl
    rw [← empty_iff, some_left] at nothing
    cases nothing
  obtain ⟨rest, size⟩ := Nat.exists_eq_succ_of_ne_zero positive
  rw [size] at measured
  have fewer : Measures (retreatPointer cbuf) rest := by
    refine ⟨Nat.le_of_succ_le measured.bound, ?_, ?_⟩
    · exact (slotAt_next cbuf.tail rest).trans measured.leads
    · have bound := measured.bound
      exact iff_of_false Bool.false_ne_true (by omega)
  refine ⟨cbuf.buffer cbuf.tail, by simp [circularBufGet, some_left], ?_⟩
  rw [contents_eq measured, contents_eq fewer, List.range_succ_eq_map, List.map_cons, slotAt_zero,
    List.map_map]
  congr 1
  apply List.map_congr_left
  intro distance _
  exact congrArg cbuf.buffer (slotAt_next cbuf.tail distance).symm

section Runs

inductive BufOp (α : Type) where
  | put (data : α)
  | put2 (data : α)
  | get (peek : Bool)
  | reset

inductive BufReply (α : Type) where
  | none
  | put2 (accepted : Bool)
  | get (data : Option α)

def bufStep (room : 0 < max) (cbuf : CircularBuf α max) :
    BufOp α → BufReply α × CircularBuf α max
  | .put data => (.none, circularBufPut cbuf data)
  | .put2 data => (.put2 (circularBufPut2 cbuf data).1, (circularBufPut2 cbuf data).2)
  | .get peek => (.get (circularBufGet cbuf peek).1, (circularBufGet cbuf peek).2)
  | .reset => (.none, circularBufReset room cbuf)

def queueStep (capacity : Nat) (queue : List α) : BufOp α → BufReply α × List α
  | .put data => (.none, (if queue.length < capacity then queue else queue.tail) ++ [data])
  | .put2 data =>
      if queue.length < capacity then (.put2 true, queue ++ [data]) else (.put2 false, queue)
  | .get peek => (.get queue.head?, if peek then queue else queue.tail)
  | .reset => (.none, [])

def runOps {σ : Type} (step : σ → BufOp α → BufReply α × σ) : List (BufOp α) → σ →
    List (BufReply α) × σ
  | [], state => ([], state)
  | op :: rest, state =>
      ((step state op).1 :: (runOps step rest (step state op).2).1,
        (runOps step rest (step state op).2).2)

theorem not_full_iff (cbuf : CircularBuf α max) :
    circularBufFull cbuf = false ↔ (contents cbuf).length < max := by
  have bound := (circularBufSize_measures cbuf).bound
  rw [← contents_length] at bound
  rw [← Bool.not_eq_true, full_iff]
  omega

theorem reset_contents (room : 0 < max) (cbuf : CircularBuf α max) :
    contents (circularBufReset room cbuf) = [] := by
  rw [← empty_iff]
  simp [circularBufEmpty, circularBufReset]

theorem put_bounded (cbuf : CircularBuf α max) (data : α) :
    contents (circularBufPut cbuf data) =
      (if (contents cbuf).length < max then contents cbuf else (contents cbuf).tail) ++ [data] := by
  cases full : circularBufFull cbuf with
  | true =>
      have whole := (full_iff cbuf).mp full
      rw [if_neg (by omega), put_contents_full cbuf full]
  | false => rw [if_pos ((not_full_iff cbuf).mp full), put_contents cbuf full]

theorem get_head (cbuf : CircularBuf α max) (peek : Bool) :
    (circularBufGet cbuf peek).1 = (contents cbuf).head? ∧
      contents (circularBufGet cbuf peek).2 =
        if peek then contents cbuf else (contents cbuf).tail := by
  cases empty : circularBufEmpty cbuf with
  | true =>
      have nothing := (empty_iff cbuf).mp empty
      simp [circularBufGet, empty, nothing]
  | false =>
      obtain ⟨data, fetched, split⟩ := get_contents cbuf empty
      have oldest : cbuf.buffer cbuf.tail = data := by
        simpa [circularBufGet, empty] using congrArg Prod.fst fetched
      cases peek <;> simp [circularBufGet, empty, oldest, split]

theorem bufStep_contents (room : 0 < max) (cbuf : CircularBuf α max) (op : BufOp α) :
    queueStep max (contents cbuf) op =
      ((bufStep room cbuf op).1, contents (bufStep room cbuf op).2) := by
  cases op with
  | put data => rw [queueStep, bufStep, put_bounded]
  | put2 data =>
      cases full : circularBufFull cbuf with
      | true =>
          have whole := (full_iff cbuf).mp full
          simp [queueStep, bufStep, circularBufPut2, full, whole]
      | false =>
          have less := (not_full_iff cbuf).mp full
          simp [queueStep, bufStep, circularBufPut2, full, less, put_contents cbuf full]
  | get peek =>
      obtain ⟨oldest, left⟩ := get_head cbuf peek
      rw [queueStep, bufStep, oldest, left]
  | reset => rw [queueStep, bufStep, reset_contents]

theorem runOps_contents (room : 0 < max) (ops : List (BufOp α)) (cbuf : CircularBuf α max) :
    runOps (queueStep max) ops (contents cbuf) =
      ((runOps (bufStep room) ops cbuf).1, contents (runOps (bufStep room) ops cbuf).2) := by
  induction ops generalizing cbuf with
  | nil => rfl
  | cons op rest ih =>
      have first := bufStep_contents room cbuf op
      have later := ih (bufStep room cbuf op).2
      simp only [runOps, first, later]

/-- Every sequence of calls on a new buffer gets the replies of the bounded list,
and size and flags are those of that list. -/
theorem circularBuf_fifo (room : 0 < max) (memory : Fin max → α) (ops : List (BufOp α)) :
    (runOps (bufStep room) ops (circularBufInit memory room)).1 =
        (runOps (queueStep max) ops []).1 ∧
      contents (runOps (bufStep room) ops (circularBufInit memory room)).2 =
        (runOps (queueStep max) ops []).2 ∧
      circularBufSize (runOps (bufStep room) ops (circularBufInit memory room)).2 =
        (runOps (queueStep max) ops []).2.length ∧
      (circularBufEmpty (runOps (bufStep room) ops (circularBufInit memory room)).2 = true ↔
        (runOps (queueStep max) ops []).2.length = 0) ∧
      (circularBufFull (runOps (bufStep room) ops (circularBufInit memory room)).2 = true ↔
        (runOps (queueStep max) ops []).2.length = max) ∧
      (runOps (queueStep max) ops []).2.length ≤ max := by
  have run := runOps_contents room ops (circularBufInit memory room)
  rw [circularBufInit_contents] at run
  rw [run]
  generalize (runOps (bufStep room) ops (circularBufInit memory room)).2 = cbuf
  have bound := (circularBufSize_measures cbuf).bound
  rw [List.length_eq_zero_iff]
  refine ⟨rfl, rfl, (contents_length cbuf).symm, empty_iff cbuf, full_iff cbuf, ?_⟩
  rw [contents_length]
  exact bound

/-- Three slots: the fourth `put` replaces the oldest element, a peek leaves the next
one in place, and head and tail both go round. -/
theorem circularBuf_fifo_three :
    (runOps (bufStep (by decide)) [.put 1, .put 2, .put 3, .put 4, .get true, .put2 5, .get false,
      .put2 6, .get false, .get false, .get false, .get false]
      (circularBufInit (fun _ : Fin 3 => (0 : Nat)) (by decide))).1 =
        [.none, .none, .none, .none, .get (some 2), .put2 false, .get (some 2), .put2 true,
          .get (some 3), .get (some 4), .get (some 6), .get none] :=
  (circularBuf_fifo (by decide) (fun _ : Fin 3 => (0 : Nat))
    [.put 1, .put 2, .put 3, .put 4, .get true, .put2 5, .get false, .put2 6, .get false, .get false,
      .get false, .get false]).1

end Runs

end Owl.CircularBuffer
