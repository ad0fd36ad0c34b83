import Owl.HashmapMoves

/-!
`hashmap_put` when memory runs out. A doubling that gets no memory leaves the
table alone. Once the larger array is there, the pairs move into it one by one
through `hashmap_put` itself, which may ask for a still larger array; when that
is refused, the old array has already been given up and what had not moved yet
is gone. Such a loss always shows in the length. The tables are those of the
whole interface: keys may have been put while they were present, so a table may
hold a key twice and count more elements than it has. Copies of a key become one
when the table doubles, and the count becomes right.
-/

namespace Owl.Hashmap

open Slots

variable {K V : Type} [DecidableEq K]

/-- Every table that calls of the interface lead to, with any pattern of allocation
failures; `store` is a write through the data pointer of a pair. -/
inductive Reachable (hash : K → UInt64) : HashmapMap K V → Prop
  | new : Reachable hash hashmapNew
  | put {m : HashmapMap K V} (alloc : Nat → Bool) (key : K) (value : V) :
      Reachable hash m → Reachable hash (hashmapPut hash alloc m key value).2
  | get {m : HashmapMap K V} (key : K) (remove : Bool) :
      Reachable hash m → Reachable hash (hashmapGet hash m key remove).2.2
  | store {m : HashmapMap K V} (key : K) (value : V) :
      Reachable hash m → Reachable hash (storeData hash m key value)
  | itRemove {m : HashmapMap K V} (index : Nat) :
      Reachable hash m → Reachable hash (hashmapItRemove m index).2

structure Placed (hash : K → UInt64) (m : HashmapMap K V) : Prop where
  room : 0 < m.slots.length
  window : ∀ (index : Nat) (element : K × V), m.slots[index]? = some (some element) →
    ∃ d < maxChainLength, index = (hashmapHashInt hash m element.1 + d) % m.slots.length
  counted : (m.entries.length : Int) ≤ m.size

structure Unchanged (hash : K → UInt64) (m after : HashmapMap K V) : Prop where
  get : ∀ key, (hashmapGet hash after key false).1 = (hashmapGet hash m key false).1 ∧
    (hashmapGet hash after key false).2.1 = (hashmapGet hash m key false).2.1
  length : hashmapLength after = hashmapLength m

/-- A lookup shows the pair that comes last in slot order, which only a table that
holds a key twice may fail to do. -/
def ReadsLast (hash : K → UInt64) (m : HashmapMap K V) : Prop :=
  ∀ key, (hashmapGet hash m key false).2.1 = lastCopy m.entries key

section Invariant

variable {hash : K → UInt64}

omit [DecidableEq K] in
theorem empty_placed (count : Nat) (room : 0 < count) :
    Placed hash (⟨List.replicate count none, 0⟩ : HashmapMap K V) := by
  obtain ⟨room, window, -, counted⟩ := @empty_valid K V hash count room
  exact ⟨room, window, by omega⟩

omit [DecidableEq K] in
/-- A slot of the key's window takes a pair; the table counts it as new or as the
one that was there. -/
theorem set_placed {m : HashmapMap K V} (placed : Placed hash m) (index : Nat) (key : K) (value : V)
    (place : ∃ d < maxChainLength, index = (hashmapHashInt hash m key + d) % m.slots.length)
    (size : Int)
    (counted : ((m.slots.set index (some (key, value))).reduceOption.length : Int) ≤ size) :
    Placed hash (⟨m.slots.set index (some (key, value)), size⟩ : HashmapMap K V) := by
  refine ⟨by simpa using placed.room, ?_, counted⟩
  intro other element stored
  by_cases same : index = other
  · subst same
    obtain ⟨inside, -⟩ := List.getElem?_eq_some_iff.mp stored
    have within : index < m.slots.length := by simpa using inside
    have equal : (key, value) = element := by simpa [within] using stored
    subst equal
    simpa [hashmapHashInt] using place
  · have before : m.slots[other]? = some (some element) := by
      simpa [List.getElem?_set, same] using stored
    simpa [hashmapHashInt] using placed.window other element before

theorem hashmapHash_place (m : HashmapMap K V) (placed : Placed hash m) (key : K) (index : Nat)
    (found : hashmapHash hash m key = some index) :
    index < m.slots.length ∧
      ∃ d < maxChainLength, index = (hashmapHashInt hash m key + d) % m.slots.length := by
  unfold hashmapHash at found
  split at found
  · cases found
  · obtain ⟨inside, -, place⟩ := findFrom_some _ m.slots _ _ index
      (Nat.mod_lt _ placed.room) found
    exact ⟨inside, place⟩

theorem locate_place (m : HashmapMap K V) (placed : Placed hash m) (key : K) (index : Nat)
    (found : locate hash m key = some index) :
    (∃ value, m.slots[index]? = some (some (key, value))) ∧
      ∃ d < maxChainLength, index = (hashmapHashInt hash m key + d) % m.slots.length := by
  obtain ⟨inside, hit, place⟩ := findFrom_some _ m.slots _ _ index (Nat.mod_lt _ placed.room) found
  refine ⟨?_, place⟩
  cases slot : m.slots.getD index none with
  | none => rw [slot] at hit; cases hit
  | some element =>
      obtain ⟨other, value⟩ := element
      obtain rfl : other = key := by rw [slot] at hit; simpa [keyIs] using hit
      exact ⟨value, (getD_some_iff m.slots index _).mp slot⟩

omit [DecidableEq K] in
theorem clear_placed {m : HashmapMap K V} (placed : Placed hash m) (index : Nat) (element : K × V)
    (used : m.slots[index]? = some (some element)) :
    Placed hash (⟨m.slots.set index none, m.size - 1⟩ : HashmapMap K V) := by
  refine ⟨by simpa using placed.room, ?_, ?_⟩
  · intro other stored slot
    have before : m.slots[other]? = some (some stored) := by
      by_cases same : index = other
      · subst same
        simp [List.getElem?_set] at slot
      · simpa [List.getElem?_set, same] using slot
    simpa [hashmapHashInt] using placed.window other stored before
  · have fewer := (clear_perm m.slots index element used).length_eq
    have counted := placed.counted
    simp only [List.length_cons] at fewer
    simp only [HashmapMap.entries] at counted ⊢
    omega

def Sized (hash : K → UInt64) (put : Put K V) : Prop :=
  ∀ m key value, Placed hash m → Placed hash (put m key value).2 ∧
    ((put m key value).1 = .ok → (put m key value).2.size ≤ m.size + 1) ∧
    ((put m key value).1 ≠ .ok → (put m key value).2.size ≤ m.size)

omit [DecidableEq K] in
/-- A copy that fails leaves fewer elements than there were to copy. -/
theorem rehashLoop_sized (put : Put K V) (sized : Sized hash put) (slots : List (Option (K × V)))
    (m after : HashmapMap K V) (placed : Placed hash m) (status : MapStatus)
    (run : rehashLoop put slots m = (status, after)) :
    Placed hash after ∧ (status = .ok → after.size ≤ m.size + slots.reduceOption.length) ∧
      (status ≠ .ok → after.size < m.size + slots.reduceOption.length) := by
  have copies := rehashLoop_copies run
  clear run
  induction copies with
  | ended done => exact ⟨placed, fun _ => by simp, fun never => absurd done never⟩
  | skip later ih =>
      rw [List.reduceOption_cons_of_none]
      exact ih placed
  | @next key value rest m table stored later ih =>
      have first := sized m key value placed
      rw [stored] at first
      obtain ⟨nextPlaced, done, -⟩ := first
      have one : table.size ≤ m.size + 1 := done rfl
      obtain ⟨afterPlaced, whole, short⟩ := ih nextPlaced
      rw [List.reduceOption_cons_of_some, List.length_cons, Nat.cast_add, Nat.cast_one]
      refine ⟨afterPlaced, fun ended => ?_, fun ended => ?_⟩
      · have bound := whole ended
        omega
      · have bound := short ended
        omega
  | @stop key value rest m refused failed =>
      have first := sized m key value placed
      rw [refused] at first
      obtain ⟨afterPlaced, -, kept⟩ := first
      have bound : after.size ≤ m.size := kept failed
      rw [List.reduceOption_cons_of_some, List.length_cons, Nat.cast_add, Nat.cast_one]
      exact ⟨afterPlaced, fun ended => absurd ended failed, fun _ => by omega⟩

omit [DecidableEq K] in
theorem hashmapRehash_sized (put : Put K V) (sized : Sized hash put) (alloc : Nat → Bool)
    (m after : HashmapMap K V) (placed : Placed hash m) (status : MapStatus)
    (run : hashmapRehash put alloc m = (status, after)) :
    Placed hash after ∧ after.size ≤ m.size ∧
      (callocOk alloc (2 * m.slots.length) = true → after.size ≤ m.entries.length ∧
        (status ≠ .ok → after.size < m.size)) := by
  unfold hashmapRehash at run
  split at run
  case isTrue granted =>
    have room : 0 < 2 * m.slots.length := by have := placed.room; omega
    have counted : (m.slots.reduceOption.length : Int) ≤ m.size := placed.counted
    obtain ⟨afterPlaced, whole, short⟩ :=
      rehashLoop_sized put sized m.slots _ after (empty_placed _ room) status run
    simp only [zero_add] at whole short
    have bound : after.size ≤ m.slots.reduceOption.length := by
      by_cases ended : status = .ok
      · exact whole ended
      · exact (short ended).le
    exact ⟨afterPlaced, bound.trans counted, fun _ =>
      ⟨bound, fun ended => lt_of_lt_of_le (short ended) counted⟩⟩
  case isFalse refused =>
    cases run
    exact ⟨placed, le_refl _, fun granted => absurd granted refused⟩

theorem put_found_sized (m : HashmapMap K V) (placed : Placed hash m) (key : K) (value : V)
    (index : Nat) (found : hashmapHash hash m key = some index) :
    Placed hash (⟨m.slots.set index (some (key, value)), m.size + 1⟩ : HashmapMap K V) := by
  obtain ⟨inside, place⟩ := hashmapHash_place m placed key index found
  refine set_placed placed index key value place _ ?_
  -- The slot was free or held a pair.
  have before := reduceOption_split m.slots index _ (List.getElem?_eq_getElem inside)
  have after := reduceOption_set m.slots index (some (key, value)) inside
  have counted := placed.counted
  unfold HashmapMap.entries at counted
  rw [before] at counted
  rw [after]
  simp only [List.length_append, Option.toList_some, List.length_singleton] at counted ⊢
  omega

theorem hashmapPutFuel_sized (alloc : Nat → Bool) (fuel : Nat) :
    Sized hash (hashmapPutFuel hash alloc fuel : Put K V) := by
  induction fuel using Nat.strong_induction_on with
  | _ fuel ih =>
      intro m key value placed
      generalize run : hashmapPutFuel hash alloc fuel m key value = result
      obtain ⟨status, after⟩ := result
      cases hashmapPutFuel_puts run with
      | found slot =>
          exact ⟨put_found_sized m placed key value _ slot, fun _ => le_refl _,
            fun never => absurd rfl never⟩
      | spent full => exact ⟨placed, fun never => (by cases never), fun _ => le_refl _⟩
      | @refused less _ full grown =>
          obtain ⟨afterPlaced, fewer, -⟩ :=
            hashmapRehash_sized _ (ih less (Nat.lt_succ_self less)) alloc m after placed _ grown
          exact ⟨afterPlaced, fun never => (by cases never), fun _ => fewer⟩
      | @again less next _ _ full grown later =>
          have inner := ih less (Nat.lt_succ_self less)
          obtain ⟨nextPlaced, fewer, -⟩ := hashmapRehash_sized _ inner alloc m next placed _ grown
          have second := inner next key value nextPlaced
          rw [later] at second
          obtain ⟨afterPlaced, done, failed⟩ := second
          refine ⟨afterPlaced, fun ended => ?_, fun ended => ?_⟩
          · have bound : after.size ≤ next.size + 1 := done ended
            show after.size ≤ m.size + 1
            omega
          · exact le_trans (failed ended) fewer

theorem hashmapPut_sized (alloc : Nat → Bool) : Sized hash (hashmapPut hash alloc : Put K V) :=
  hashmapPutFuel_sized alloc 30

theorem reachable_placed (m : HashmapMap K V) (reached : Reachable hash m) : Placed hash m := by
  induction reached with
  | new => exact empty_placed initialSize (by decide)
  | put alloc key value _ placed => exact (hashmapPut_sized alloc _ key value placed).1
  | @get m key remove _ placed =>
      unfold hashmapGet
      cases found : locate hash m key with
      | none => exact placed
      | some index =>
          obtain ⟨⟨value, used⟩, -⟩ := locate_place m placed key index found
          cases remove with
          | false => exact placed
          | true => exact clear_placed placed index _ used
  | @store m key value _ placed =>
      unfold storeData
      cases found : locate hash m key with
      | none => exact placed
      | some index =>
          obtain ⟨⟨old, used⟩, place⟩ := locate_place m placed key index found
          obtain ⟨inside, -⟩ := List.getElem?_eq_some_iff.mp used
          refine set_placed placed index key value place _ ?_
          have counted := placed.counted
          unfold HashmapMap.entries at counted
          rw [reduceOption_split m.slots index _ used] at counted
          rw [reduceOption_set m.slots index _ inside]
          simpa using counted
  | @itRemove m index _ placed =>
      unfold hashmapItRemove
      cases slot : m.slots.getD index none with
      | none => exact placed
      | some element =>
          exact clear_placed placed index element ((getD_some_iff m.slots index element).mp slot)

end Invariant

section OutOfMemory

variable {hash : K → UInt64} {alloc : Nat → Bool} {key : K} {value : V}

theorem hashmapPut_status (m : HashmapMap K V) (key : K) (value : V) :
    (hashmapPut hash alloc m key value).1 = .ok ∨ (hashmapPut hash alloc m key value).1 = .omem :=
  hashmapPutFuel_status alloc 30 m key value

omit [DecidableEq K] in
theorem hashmapRehash_refused {m : HashmapMap K V} {put : Put K V}
    (refused : callocOk alloc (2 * m.slots.length) = false) :
    hashmapRehash put alloc m = (.omem, m) := by
  simp [hashmapRehash, refused]

theorem hashmapPut_omem_full {m after : HashmapMap K V} (room : 0 < m.slots.length)
    (failed : hashmapPut hash alloc m key value = (.omem, after)) :
    seat hash m.seats m.size key = none := by
  rw [← hashmapHash_seat]
  cases hashmapPut_runs room failed with
  | refused full => exact full
  | again full => exact full

/-- Refused at once, a `hashmap_put` leaves the table alone. -/
theorem put_omem_refused {m after : HashmapMap K V} (room : 0 < m.slots.length)
    (failed : hashmapPut hash alloc m key value = (.omem, after))
    (refused : callocOk alloc (2 * m.slots.length) = false) : after = m := by
  cases hashmapPut_runs room failed with
  | refused full grown =>
      rw [hashmapRehash_refused refused] at grown
      cases grown
      rfl
  | again full granted =>
      rw [refused] at granted
      cases granted

/-- What a failed `hashmap_put` leaves when all pairs were moved: the table as it was or
one that shows the last copy of each key, with as many elements as the queue has moved. -/
structure Regrown (hash : K → UInt64) (alloc : Nat → Bool) (key : K) (m after : HashmapMap K V) :
    Prop where
  shows : callocOk alloc (2 * m.slots.length) = false ∧ after = m ∨
    Tight hash after ∧ after.contents = lastCopy m.entries
  queue : ∀ total, Regrows hash alloc key True m.seats m.size [] total ↔ total = after.size

/-- A failed `hashmap_put` has moved every pair, or its table counts fewer elements. -/
theorem put_omem_regrown (m after : HashmapMap K V) (placed : Placed hash m)
    (failed : hashmapPut hash alloc m key value = (.omem, after)) :
    Regrown hash alloc key m after ∨
      after.size < m.size ∧ ∀ total, ¬ Regrows hash alloc key True m.seats m.size [] total := by
  -- Every doubling comes closer to the largest table size.
  induction left : 2 ^ 31 - m.slots.length using Nat.strong_induction_on generalizing m with
  | _ left ih =>
      have larger_answers : ∀ next : HashmapMap K V, 2 * m.slots.length ≤ next.slots.length →
          Answers hash alloc key True (hashmapPut hash alloc) next := by
        intro next larger
        exact hashmapPut_answers next (by have := placed.room; omega)
      cases hashmapPut_runs placed.room failed with
      | refused full grown =>
          cases granted : callocOk alloc (2 * m.slots.length) with
          | false =>
              rw [hashmapRehash_refused granted] at grown
              cases grown
              rw [hashmapHash_seat] at full
              exact .inl ⟨.inl ⟨granted, rfl⟩, fun total =>
                regrows_refused_iff full (by rwa [seats_length])⟩
          | true =>
              obtain ⟨-, -, short⟩ :=
                hashmapRehash_sized _ (hashmapPut_sized alloc) alloc m after placed _ grown
              exact .inr ⟨(short granted).2 (by simp), fun total =>
                (hashmapRehash_answers [] larger_answers full granted grown total).2 rfl⟩
      | @again next _ _ full granted larger grown later =>
          obtain ⟨nextPlaced, fewer, -⟩ :=
            hashmapRehash_sized _ (hashmapPut_sized alloc) alloc m next placed _ grown
          obtain ⟨tight, contents⟩ := hashmapRehash_overwrites _
            (hashmapPutFuel_overwrites alloc 30) placed.room grown
          have queue := fun total =>
            (hashmapRehash_answers [] larger_answers full granted grown total).1 rfl
          have room := placed.room
          have inside : 2 * m.slots.length < 2 ^ 31 := by
            simp only [callocOk, Bool.and_eq_true, decide_eq_true_eq] at granted
            exact granted.1
          rcases ih _ (by omega) next nextPlaced later rfl with ⟨shows, moved⟩ | ⟨shorter, lost⟩
          · refine .inl ⟨.inr ?_, fun total => (queue total).trans (moved total)⟩
            rcases shows with ⟨-, rfl⟩ | ⟨afterTight, same⟩
            · exact ⟨tight, contents⟩
            · exact ⟨afterTight, by rw [same, lastCopy_distinct tight.distinct, contents]⟩
          · exact .inr ⟨lt_of_lt_of_le shorter fewer, fun total moved =>
              lost total ((queue total).mp moved)⟩

/-- Behind a first doubling the queue is the keys of the table. -/
theorem put_omem_queue {m after : HashmapMap K V} (room : 0 < m.slots.length)
    (failed : hashmapPut hash alloc m key value = (.omem, after))
    (granted : callocOk alloc (2 * m.slots.length) = true) (total : Int) :
    Regrows hash alloc key True m.seats m.size [] total ↔
      Regrows hash alloc key True (List.replicate (2 * m.slots.length) none) 0 m.keys total := by
  have full := hashmapPut_omem_full room failed
  rw [regrows_doubled_last_iff full (by rwa [seats_length]), seats_length, seats_reduceOption]

theorem hashmapGet_tight {m : HashmapMap K V} (tight : Tight hash m) (key : K) :
    (hashmapGet hash m key false).2.1 = m.contents key := by
  -- The lookup does not read the count, so that may be made right.
  have valid : Valid hash (⟨m.slots, m.entries.length⟩ : HashmapMap K V) := by
    refine ⟨tight.room, fun index element used => ?_, tight.distinct, rfl⟩
    obtain ⟨d, bound, place, -⟩ := tight.chain index element used
    exact ⟨d, bound, place⟩
  have same : (hashmapGet hash m key false).2.1 =
      (hashmapGet hash (⟨m.slots, m.entries.length⟩ : HashmapMap K V) key false).2.1 := by
    have located : locate hash (⟨m.slots, m.entries.length⟩ : HashmapMap K V) key =
        locate hash m key := rfl
    simp only [hashmapGet, located]
    cases locate hash m key <;> rfl
  have contents : (⟨m.slots, m.entries.length⟩ : HashmapMap K V).contents key = m.contents key := rfl
  rw [same, hashmapGet_keep _ valid, contents]
  cases m.contents key <;> rfl

/-- The status of a lookup tells whether it has a value. -/
theorem hashmapGet_status (m : HashmapMap K V) (key : K) :
    (hashmapGet hash m key false).1 =
      if (hashmapGet hash m key false).2.1.isSome then .ok else .missing := by
  unfold hashmapGet
  cases found : locate hash m key with
  | none => rfl
  | some curr =>
      have hit := findFrom_hit _ _ _ _ _ found
      cases slot : m.slots.getD curr none with
      | none =>
          rw [slot] at hit
          cases hit
      | some element =>
          simp only [slot]
          rfl

theorem unchanged_iff (m after : HashmapMap K V) : Unchanged hash m after ↔
    (∀ key, (hashmapGet hash after key false).2.1 = (hashmapGet hash m key false).2.1) ∧
      after.size = m.size := by
  constructor
  · rintro ⟨get, length⟩
    exact ⟨fun key => (get key).2, length⟩
  · rintro ⟨get, length⟩
    exact ⟨fun key => ⟨by rw [hashmapGet_status, hashmapGet_status m, get], get key⟩, length⟩

/-- For every table that calls lead to and every failing `hashmap_put`: lookups and
length stay as they are exactly if the first doubling gets no memory, or no `calloc` is
refused while the keys of the table queue for seats in the larger one, as many of them
as the table counts, and lookups show the last copy of each key already before. -/
theorem put_omem_unchanged (hash : K → UInt64) (alloc : Nat → Bool) (m after : HashmapMap K V)
    (reached : Reachable hash m) (key : K) (value : V)
    (failed : hashmapPut hash alloc m key value = (.omem, after)) :
    Unchanged hash m after ↔
      callocOk alloc (2 * m.slots.length) = false ∨
        Regrows hash alloc key True (List.replicate (2 * m.slots.length) none) 0 m.keys m.size ∧
          ReadsLast hash m := by
  have placed := reachable_placed m reached
  cases granted : callocOk alloc (2 * m.slots.length) with
  | false =>
      obtain rfl := put_omem_refused placed.room failed granted
      exact ⟨fun _ => .inl rfl, fun _ => (unchanged_iff after after).mpr ⟨fun _ => rfl, rfl⟩⟩
  | true =>
      rw [unchanged_iff, ← put_omem_queue placed.room failed granted]
      rcases put_omem_regrown m after placed failed with ⟨shows, queue⟩ | ⟨shorter, lost⟩
      · obtain ⟨tight, contents⟩ : Tight hash after ∧ after.contents = lastCopy m.entries := by
          rcases shows with ⟨refused, -⟩ | moved
          · rw [granted] at refused
            cases refused
          · exact moved
        have reads : (∀ key, (hashmapGet hash after key false).2.1 =
            (hashmapGet hash m key false).2.1) ↔ ReadsLast hash m := by
          refine forall_congr' fun other => ?_
          rw [hashmapGet_tight tight, contents]
          exact eq_comm
        rw [reads, queue, or_iff_right (by simp), and_comm, eq_comm]
      · constructor
        · rintro ⟨-, same⟩
          omega
        · rintro (never | ⟨moved, -⟩)
          · cases never
          · exact absurd moved (lost _)

/-- With distinct keys the table keeps its pairs under a failing put. -/
theorem hashmapPut_kept {m after : HashmapMap K V} (valid : Valid hash m)
    (keeps : KeepsPairs hash alloc m key)
    (failed : hashmapPut hash alloc m key value = (.omem, after)) : after.contents = m.contents := by
  cases granted : callocOk alloc (2 * m.slots.length) with
  | false => rw [put_omem_refused valid.room failed granted]
  | true =>
      rcases keeps with free | refused | ⟨total, moved⟩
      · rw [hashmapPut_omem_full valid.room failed] at free
        cases free
      · rw [granted] at refused
        cases refused
      · rw [← put_omem_queue valid.room failed granted] at moved
        have placed : Placed hash m := ⟨valid.room, valid.window, valid.counted.ge⟩
        rcases put_omem_regrown m after placed failed with ⟨shows, -⟩ | ⟨-, lost⟩
        · rcases shows with ⟨-, rfl⟩ | ⟨-, contents⟩
          · rfl
          · rw [contents, lastCopy_distinct valid.distinct]
        · exact absurd moved (lost total)

/-- A put that succeeds has moved every pair. -/
theorem put_ok_regrows (spare : Prop) {m after : HashmapMap K V} (room : 0 < m.slots.length)
    (done : hashmapPut hash alloc m key value = (.ok, after)) :
    ∃ total, Regrows hash alloc key spare m.seats m.size [] total := by
  induction left : 2 ^ 31 - m.slots.length using Nat.strong_induction_on generalizing m with
  | _ left ih =>
      cases hashmapPut_runs room done with
      | found slot =>
          rw [hashmapHash_seat] at slot
          exact ⟨_, .stored slot⟩
      | @again next _ _ full granted larger grown later =>
          have inside : 2 * m.slots.length < 2 ^ 31 := by
            simp only [callocOk, Bool.and_eq_true, decide_eq_true_eq] at granted
            exact granted.1
          obtain ⟨total, moved⟩ := ih _ (by omega) (by omega) later rfl
          have answers : ∀ other : HashmapMap K V, 2 * m.slots.length ≤ other.slots.length →
              Answers hash alloc key spare (hashmapPut hash alloc) other := fun other bound =>
            hashmapPut_answers other (by omega)
          exact ⟨total, ((hashmapRehash_answers [] answers full granted grown total).1 rfl).mpr moved⟩

theorem put_omem_not_finds {m after : HashmapMap K V} (room : 0 < m.slots.length)
    (failed : hashmapPut hash alloc m key value = (.omem, after)) : ¬ Finds hash alloc m key := by
  induction left : 2 ^ 31 - m.slots.length using Nat.strong_induction_on generalizing m with
  | _ left ih =>
      have answers : ∀ other : HashmapMap K V, 2 * m.slots.length ≤ other.slots.length →
          Answers hash alloc key False (hashmapPut hash alloc) other := fun other bound =>
        hashmapPut_answers other (by omega)
      rintro ⟨total, moved⟩
      cases hashmapPut_runs room failed with
      | refused full grown =>
          cases granted : callocOk alloc (2 * m.slots.length) with
          | false =>
              rw [hashmapHash_seat] at full
              exact not_regrows_last full (by rwa [seats_length]) moved
          | true => exact (hashmapRehash_answers [] answers full granted grown total).2 rfl moved
      | @again next _ _ full granted larger grown later =>
          have inside : 2 * m.slots.length < 2 ^ 31 := by
            simp only [callocOk, Bool.and_eq_true, decide_eq_true_eq] at granted
            exact granted.1
          have behind := ((hashmapRehash_answers [] answers full granted grown total).1 rfl).mp moved
          exact ih _ (by omega) (by omega) later rfl ⟨total, behind⟩

theorem put_ok_iff (m : HashmapMap K V) (room : 0 < m.slots.length) :
    (hashmapPut hash alloc m key value).1 = .ok ↔ Finds hash alloc m key := by
  generalize put : hashmapPut hash alloc m key value = result
  obtain ⟨status, after⟩ := result
  have ends : status = .ok ∨ status = .omem := by
    rw [← show (hashmapPut hash alloc m key value).1 = status from congrArg Prod.fst put]
    exact hashmapPut_status m key value
  rcases ends with rfl | rfl
  · exact iff_of_true rfl (put_ok_regrows False room put)
  · exact iff_of_false (by simp) (put_omem_not_finds room put)

theorem keepsPairs_of_ok {m after : HashmapMap K V} (room : 0 < m.slots.length)
    (done : hashmapPut hash alloc m key value = (.ok, after)) : KeepsPairs hash alloc m key := by
  cases hashmapPut_runs room done with
  | found slot =>
      rw [hashmapHash_seat] at slot
      exact .inl (by rw [slot]; rfl)
  | again full granted =>
      obtain ⟨total, moved⟩ := put_ok_regrows True room done
      rw [hashmapHash_seat] at full
      rw [regrows_doubled_last_iff full (by rwa [seats_length]), seats_length, seats_reduceOption]
        at moved
      exact .inr (.inr ⟨total, moved⟩)

def edgeHash : Fin 10 → UInt64 := fun key => if key < 2 then 255 else 256

/-- The window of slots 0 to 7 is full, one of the two keys from slot 255 is in it. -/
def edgeTable : HashmapMap (Fin 10) Nat :=
  mapRun edgeHash (fun _ => true) hashmapNew
    [.put 0 0, .put 1 1, .put 2 2, .put 3 3, .put 4 4, .put 5 5, .put 6 6, .put 7 7, .put 8 8]

theorem mapRun_reachable {hash : K → UInt64} (alloc : Nat → Bool) (ops : List (MapOp K V))
    (m : HashmapMap K V) (reached : Reachable hash m) : Reachable hash (mapRun hash alloc m ops) := by
  induction ops generalizing m with
  | nil => exact reached
  | cons op rest ih =>
      apply ih
      cases op with
      | put key value => exact .put alloc key value reached
      | get key remove => exact .get key remove reached
      | iterate => exact reached

theorem edgeTable_reachable : Reachable edgeHash edgeTable := mapRun_reachable _ _ _ .new

/-- The larger table takes the pairs in array order, the key from slot 255 comes last
and finds its window full; without memory for a third table it is lost. -/
theorem put_omem_loses : Reachable edgeHash edgeTable ∧
    (hashmapPut edgeHash (fun count => decide (count < 1024)) edgeTable 9 9).1 = .omem ∧
      ¬ Unchanged edgeHash edgeTable
        (hashmapPut edgeHash (fun count => decide (count < 1024)) edgeTable 9 9).2 := by
  refine ⟨edgeTable_reachable, by decide +kernel, ?_⟩
  intro unchanged
  have before : (hashmapGet edgeHash edgeTable 0 false).2.1 = some 0 := by decide +kernel
  have after : (hashmapGet edgeHash (hashmapPut edgeHash (fun count => decide (count < 1024))
      edgeTable 9 9).2 0 false).2.1 = none := by decide +kernel
  have same := (unchanged.get 0).2
  rw [before, after] at same
  cases same

def twinHash : Fin 11 → UInt64 := fun key => if key < 9 then 0 else 16

/-- The window of slot 0 is full, and key 9 is in slot 16 and in slot 17. -/
def twinTable : HashmapMap (Fin 11) Nat :=
  mapRun twinHash (fun _ => true) hashmapNew
    [.put 0 0, .put 1 1, .put 2 2, .put 3 3, .put 4 4, .put 5 5, .put 6 6, .put 7 7, .put 10 10,
      .put 9 9, .get 10 true, .put 9 9]

/-- The first doubling moves all pairs of a table that holds a key twice, and does not help
the ninth key; the second gets no memory. -/
theorem put_omem_unchanged_twin : ∃ after,
    hashmapPut twinHash (fun count => decide (count < 1024)) twinTable 8 8 = (.omem, after) ∧
      after.slots.length = 512 ∧ twinTable.entries.length = 10 ∧ after.entries.length = 9 ∧
      Unchanged twinHash twinTable after := by
  generalize run : hashmapPut twinHash (fun count => decide (count < 1024)) twinTable 8 8 = result
  obtain ⟨status, after⟩ := result
  have seen : ((hashmapPut twinHash (fun count => decide (count < 1024)) twinTable 8 8).1,
      (hashmapPut twinHash (fun count => decide (count < 1024)) twinTable 8 8).2.slots.length,
      twinTable.entries.length,
      (hashmapPut twinHash (fun count => decide (count < 1024)) twinTable 8 8).2.entries.length,
      (hashmapPut twinHash (fun count => decide (count < 1024)) twinTable 8 8).2.size,
      twinTable.size, callocOk (fun count => decide (count < 1024)) (2 * twinTable.slots.length)) =
      (.omem, 512, 10, 9, 10, 10, true) := by decide +kernel
  rw [run] at seen
  simp only [Prod.mk.injEq] at seen
  obtain ⟨rfl, slots, before, left, size, counted, granted⟩ := seen
  have reached : Reachable twinHash twinTable := mapRun_reachable _ _ _ .new
  refine ⟨after, rfl, slots, before, left, ?_⟩
  apply (put_omem_unchanged twinHash _ twinTable after reached 8 8 run).mpr
  refine .inr ⟨?_, by unfold ReadsLast; decide +kernel⟩
  have placed := reachable_placed twinTable reached
  refine (put_omem_queue placed.room run granted _).mp ?_
  -- The count is as before, so no pair is lost.
  rcases put_omem_regrown twinTable after placed run with ⟨-, queue⟩ | ⟨shorter, -⟩
  · exact (queue _).mpr (counted.trans size.symm)
  · omega

end OutOfMemory

end Owl.Hashmap
