import Owl.HashmapRun

/-!
What a growing table does with its keys, seen without the code that does it.
The keys queue up in slot order and take their seats one after another, each
the first slot of its window that is free. When one finds none, or the table is
half full, the table doubles and those seated so far queue up again, before the
others. `hashmap_put` and `hashmap_rehash` call each other to do this; the queue
has neither calls nor values in it. A key that comes again takes its old slot,
so after a doubling each key has the value of its last pair in slot order.
-/

namespace Owl.Hashmap

open Slots

variable {K V : Type} [DecidableEq K]

def freeOrTakenBy (key : K) : Option K → Bool
  | some other => decide (other = key)
  | none => true

def HashmapMap.seats (m : HashmapMap K V) : List (Option K) := m.slots.map (Option.map Prod.fst)

section Queue

variable (hash : K → UInt64)

def seat (slots : List (Option K)) (count : Int) (key : K) : Option Nat :=
  if count ≥ ((slots.length / 2 : Nat) : Int) then none
  else findFrom (freeOrTakenBy key) slots maxChainLength ((hash key).toNat % slots.length)

/-- From `slots`, of which `count` count as taken, the queue gets its seats and
then `key` its own, or a refused `calloc` where `spare` lets it do without; none is
refused while a key is in the queue. `total` keys have been seated since the last
doubling. -/
inductive Regrows (alloc : Nat → Bool) (key : K) (spare : Prop) :
    List (Option K) → Int → List K → Int → Prop
  | stored {slots : List (Option K)} {count : Int} {index : Nat}
      (free : seat hash slots count key = some index) : Regrows alloc key spare slots count [] count
  | refused {slots : List (Option K)} {count : Int} (allowed : spare)
      (full : seat hash slots count key = none)
      (refused : callocOk alloc (2 * slots.length) = false) :
      Regrows alloc key spare slots count [] count
  | moved {slots : List (Option K)} {count total : Int} {index : Nat} {head : K} {rest : List K}
      (free : seat hash slots count head = some index)
      (later : Regrows alloc key spare (slots.set index (some head)) (count + 1) rest total) :
      Regrows alloc key spare slots count (head :: rest) total
  | doubled {slots : List (Option K)} {count total : Int} {queue : List K}
      (full : seat hash slots count (queue.headD key) = none)
      (granted : callocOk alloc (2 * slots.length) = true)
      (later : Regrows alloc key spare (List.replicate (2 * slots.length) none) 0
        (slots.reduceOption ++ queue) total) : Regrows alloc key spare slots count queue total

def Finds (alloc : Nat → Bool) (m : HashmapMap K V) (key : K) : Prop :=
  ∃ total, Regrows hash alloc key False m.seats m.size [] total

/-- A put of `key` loses no pair: there is a seat for it, the first doubling gets no
memory, or no later one is refused its memory while pairs are still to move. -/
def KeepsPairs (alloc : Nat → Bool) (m : HashmapMap K V) (key : K) : Prop :=
  (seat hash m.seats m.size key).isSome ∨
    callocOk alloc (2 * m.slots.length) = false ∨
    ∃ total, Regrows hash alloc key True (List.replicate (2 * m.slots.length) none) 0 m.keys total

end Queue

section Steps

variable {hash : K → UInt64} {alloc : Nat → Bool} {key : K} {spare : Prop}
  {slots : List (Option K)} {count total : Int} {queue : List K}

theorem regrows_moved_iff {head : K} {rest : List K} {index : Nat}
    (free : seat hash slots count head = some index) :
    Regrows hash alloc key spare slots count (head :: rest) total ↔
      Regrows hash alloc key spare (slots.set index (some head)) (count + 1) rest total := by
  constructor
  · intro grows
    cases grows with
    | moved found later =>
        rw [free] at found
        cases found
        exact later
    | doubled full =>
        rw [List.headD_cons, free] at full
        cases full
  · exact .moved free

theorem regrows_doubled_iff (full : seat hash slots count (queue.headD key) = none)
    (granted : callocOk alloc (2 * slots.length) = true) :
    Regrows hash alloc key spare slots count queue total ↔
      Regrows hash alloc key spare (List.replicate (2 * slots.length) none) 0
        (slots.reduceOption ++ queue) total := by
  constructor
  · intro grows
    cases grows with
    | stored free =>
        rw [List.headD_nil, free] at full
        cases full
    | refused _ _ refused =>
        rw [granted] at refused
        cases refused
    | moved free =>
        rw [List.headD_cons, free] at full
        cases full
    | doubled _ _ later => exact later
  · exact .doubled full granted

theorem regrows_doubled_last_iff (full : seat hash slots count key = none)
    (granted : callocOk alloc (2 * slots.length) = true) :
    Regrows hash alloc key spare slots count [] total ↔
      Regrows hash alloc key spare (List.replicate (2 * slots.length) none) 0 slots.reduceOption total := by
  have empty : seat hash slots count (([] : List K).headD key) = none := full
  rw [regrows_doubled_iff empty granted, List.append_nil]

/-- A `calloc` is refused while `head` waits. -/
theorem not_regrows_refused {head : K} {rest : List K} (full : seat hash slots count head = none)
    (refused : callocOk alloc (2 * slots.length) = false) :
    ¬ Regrows hash alloc key spare slots count (head :: rest) total := by
  intro grows
  cases grows with
  | moved free =>
      rw [full] at free
      cases free
  | doubled _ granted =>
      rw [refused] at granted
      cases granted

theorem regrows_refused_iff (full : seat hash slots count key = none)
    (refused : callocOk alloc (2 * slots.length) = false) :
    Regrows hash alloc key True slots count [] total ↔ total = count := by
  constructor
  · intro grows
    cases grows with
    | stored => rfl
    | refused => rfl
    | doubled _ granted =>
        rw [refused] at granted
        cases granted
  · rintro rfl
    exact .refused trivial full refused

/-- Refused its memory, a key that must have a seat gets none. -/
theorem not_regrows_last (full : seat hash slots count key = none)
    (refused : callocOk alloc (2 * slots.length) = false) :
    ¬ Regrows hash alloc key False slots count [] total := by
  intro grows
  cases grows with
  | stored free =>
      rw [full] at free
      cases free
  | refused allowed => exact allowed
  | doubled _ granted =>
      rw [refused] at granted
      cases granted

end Steps

/-! The queue is what `hashmap_put` and `hashmap_rehash` do. -/
section Answers

omit [DecidableEq K] in
@[simp] theorem seats_length (m : HashmapMap K V) : m.seats.length = m.slots.length :=
  List.length_map _

omit [DecidableEq K] in
theorem seats_reduceOption (m : HashmapMap K V) : m.seats.reduceOption = m.keys := by
  unfold HashmapMap.seats HashmapMap.keys HashmapMap.entries
  rw [List.reduceOption_map]

variable {hash : K → UInt64} {alloc : Nat → Bool} {last : K} {spare : Prop}

theorem hashmapHash_seat (m : HashmapMap K V) (key : K) :
    hashmapHash hash m key = seat hash m.seats m.size key := by
  have same : freeOrTakenBy key ∘ Option.map Prod.fst = freeOrKeyIs (V := V) key := by
    funext slot
    cases slot <;> rfl
  unfold hashmapHash seat hashmapHashInt HashmapMap.seats
  rw [List.length_map, findFrom_map, same]

/-- `hashmap_put` without its bound: it finds a slot, or fails in its rehash, or goes
on in the larger table. -/
inductive PutRuns (hash : K → UInt64) (alloc : Nat → Bool) (m : HashmapMap K V) (key : K) (value : V) :
    MapStatus → HashmapMap K V → Prop
  | found {index : Nat} (slot : hashmapHash hash m key = some index) :
      PutRuns hash alloc m key value .ok ⟨m.slots.set index (some (key, value)), m.size + 1⟩
  | refused {after : HashmapMap K V} (full : hashmapHash hash m key = none)
      (grown : hashmapRehash (hashmapPut hash alloc) alloc m = (.omem, after)) :
      PutRuns hash alloc m key value .omem after
  | again {next after : HashmapMap K V} {status : MapStatus} (full : hashmapHash hash m key = none)
      (granted : callocOk alloc (2 * m.slots.length) = true)
      (larger : 2 * m.slots.length ≤ next.slots.length)
      (grown : hashmapRehash (hashmapPut hash alloc) alloc m = (.ok, next))
      (later : hashmapPut hash alloc next key value = (status, after)) :
      PutRuns hash alloc m key value status after

theorem hashmapPut_runs {m after : HashmapMap K V} (room : 0 < m.slots.length) {key : K} {value : V}
    {status : MapStatus} (run : hashmapPut hash alloc m key value = (status, after)) :
    PutRuns hash alloc m key value status after := by
  have ends := hashmapRehash_status (hashmapPut hash alloc) alloc (hashmapPutFuel_status alloc 30) m
  rw [hashmapPut_eq alloc m room key value] at run
  cases slot : hashmapHash hash m key with
  | some index =>
      rw [slot] at run
      cases run
      exact .found slot
  | none =>
      simp only [slot] at run
      generalize grown : hashmapRehash (hashmapPut hash alloc) alloc m = result at ends run
      obtain ⟨code, next⟩ := result
      rcases ends with same | same
      · cases same
        have larger := hashmapRehash_doubles _ (hashmapPutFuel_grows alloc 30) alloc m next .ok
          (by simp) grown
        refine .again slot ?_ larger grown run
        by_contra refused
        rw [hashmapRehash, if_neg refused] at grown
        cases grown
      · cases same
        cases run
        exact .refused slot grown

/-- What a put does to the head of the queue, whatever waits behind it. -/
structure Answers (hash : K → UInt64) (alloc : Nat → Bool) (last : K) (spare : Prop) (put : Put K V)
    (m : HashmapMap K V) : Prop where
  ok : ∀ key value after, put m key value = (.ok, after) → ∀ rest total,
    (Regrows hash alloc last spare m.seats m.size (key :: rest) total ↔
      Regrows hash alloc last spare after.seats after.size rest total)
  omem : ∀ key value after, put m key value = (.omem, after) → ∀ rest total,
    ¬ Regrows hash alloc last spare m.seats m.size (key :: rest) total

/-- The copy loop serves the keys of the old array. -/
theorem rehashLoop_answers {put : Put K V} {bound : Nat} (grows : Grows put)
    (answers : ∀ m : HashmapMap K V, bound ≤ m.slots.length → Answers hash alloc last spare put m)
    {slots : List (Option (K × V))} {m after : HashmapMap K V} {status : MapStatus}
    (large : bound ≤ m.slots.length) (run : rehashLoop put slots m = (status, after)) (rest : List K)
    (total : Int) :
    (status = .ok →
        (Regrows hash alloc last spare m.seats m.size (slots.reduceOption.map Prod.fst ++ rest) total ↔
          Regrows hash alloc last spare after.seats after.size rest total)) ∧
      (status = .omem →
        ¬ Regrows hash alloc last spare m.seats m.size (slots.reduceOption.map Prod.fst ++ rest) total) := by
  have copies := rehashLoop_copies run
  clear run
  induction copies with
  | ended done =>
      subst done
      exact ⟨fun _ => Iff.rfl, nofun⟩
  | skip later ih =>
      rw [List.reduceOption_cons_of_none]
      exact ih large
  | @next key value behind m table stored later ih =>
      rw [List.reduceOption_cons_of_some, List.map_cons, List.cons_append,
        (answers m large).ok key value table stored]
      have longer := grows m key value
      rw [stored] at longer
      exact ih (Nat.le_trans large longer)
  | @stop key value behind m refused failed =>
      rw [List.reduceOption_cons_of_some, List.map_cons, List.cons_append]
      refine ⟨fun never => absurd never failed, ?_⟩
      rintro rfl
      exact (answers m large).omem key value after refused _ total

omit [DecidableEq K] in
theorem fresh_seats (count : Nat) :
    (⟨List.replicate count none, 0⟩ : HashmapMap K V).seats = List.replicate count none :=
  List.map_replicate

/-- A doubling that gets its memory serves all keys of the table before the queue. -/
theorem hashmapRehash_answers {m after : HashmapMap K V} {status : MapStatus} (queue : List K)
    (answers : ∀ next : HashmapMap K V, 2 * m.slots.length ≤ next.slots.length →
      Answers hash alloc last spare (hashmapPut hash alloc) next)
    (full : hashmapHash hash m (queue.headD last) = none)
    (granted : callocOk alloc (2 * m.slots.length) = true)
    (run : hashmapRehash (hashmapPut hash alloc) alloc m = (status, after)) (total : Int) :
    (status = .ok → (Regrows hash alloc last spare m.seats m.size queue total ↔
        Regrows hash alloc last spare after.seats after.size queue total)) ∧
      (status = .omem → ¬ Regrows hash alloc last spare m.seats m.size queue total) := by
  rw [hashmapHash_seat] at full
  rw [hashmapRehash, if_pos granted] at run
  have served := rehashLoop_answers (hashmapPutFuel_grows alloc 30) answers (by simp) run queue total
  rwa [fresh_seats, show m.slots.reduceOption.map Prod.fst = m.seats.reduceOption from
    (seats_reduceOption m).symm, ← seats_length m,
    ← regrows_doubled_iff full (by rwa [seats_length])] at served

theorem hashmapPut_answers (m : HashmapMap K V) (room : 0 < m.slots.length) :
    Answers hash alloc last spare (hashmapPut hash alloc) m := by
  -- Every doubling comes closer to the largest table size.
  induction left : 2 ^ 31 - m.slots.length using Nat.strong_induction_on generalizing m with
  | _ left ih =>
      have inner : callocOk alloc (2 * m.slots.length) = true → ∀ next : HashmapMap K V,
          2 * m.slots.length ≤ next.slots.length →
            Answers hash alloc last spare (hashmapPut hash alloc) next := by
        intro granted next larger
        have inside : 2 * m.slots.length < 2 ^ 31 := by
          simp only [callocOk, Bool.and_eq_true, decide_eq_true_eq] at granted
          exact granted.1
        exact ih _ (by omega) next (by omega) rfl
      refine ⟨fun key value after run rest total => ?_, fun key value after run rest total => ?_⟩
      · cases hashmapPut_runs room run with
        | found slot =>
            rw [hashmapHash_seat] at slot
            rw [regrows_moved_iff slot, HashmapMap.seats, HashmapMap.seats, List.map_set]
            rfl
        | again full granted larger grown later =>
            rw [((hashmapRehash_answers (key :: rest) (inner granted) full granted grown
              total).1 rfl)]
            exact (inner granted _ larger).ok key value after later rest total
      · cases hashmapPut_runs room run with
        | refused full grown =>
            cases granted : callocOk alloc (2 * m.slots.length) with
            | true =>
                exact (hashmapRehash_answers (key :: rest) (inner granted) full granted
                  grown total).2 rfl
            | false =>
                rw [hashmapHash_seat] at full
                exact not_regrows_refused full (by rwa [seats_length])
        | again full granted larger grown later =>
            rw [((hashmapRehash_answers (key :: rest) (inner granted) full granted grown
              total).1 rfl)]
            exact (inner granted _ larger).omem key value after later rest total

end Answers

/-! Tables that have only been put into: no hole stands before a key in its window,
so a key that comes again is found. -/
section Insertions

def lastCopy (pairs : List (K × V)) (key : K) : Option V :=
  (pairs.reverse.find? (fun pair => decide (pair.1 = key))).map Prod.snd

/-- Each key is in its window behind used slots only, and none is there twice. -/
structure Tight (hash : K → UInt64) (m : HashmapMap K V) : Prop where
  room : 0 < m.slots.length
  chain : ∀ (index : Nat) (element : K × V), m.slots[index]? = some (some element) →
    ∃ d < maxChainLength, index = (hashmapHashInt hash m element.1 + d) % m.slots.length ∧
      ∀ e < d, m.slots.getD ((hashmapHashInt hash m element.1 + e) % m.slots.length) none ≠ none
  distinct : m.keys.Nodup

variable {hash : K → UInt64} {alloc : Nat → Bool}

omit [DecidableEq K] in
theorem empty_tight (count : Nat) (room : 0 < count) :
    Tight hash (⟨List.replicate count none, 0⟩ : HashmapMap K V) where
  room := by simpa using room
  chain := by
    intro index element used
    simp [List.getElem?_replicate] at used
  distinct := (@empty_valid K V hash count room).distinct

/-- `hashmap_hash` stops at the key, or at a hole when the key is not there. -/
theorem hashmapHash_tight {m : HashmapMap K V} (tight : Tight hash m) {key : K} {index : Nat}
    (found : hashmapHash hash m key = some index) :
    (∃ old, m.slots[index]? = some (some (key, old))) ∨
      m.slots[index]? = some none ∧ key ∉ m.keys := by
  unfold hashmapHash at found
  split at found
  · cases found
  · have start : hashmapHashInt hash m key < m.slots.length := Nat.mod_lt _ tight.room
    obtain ⟨inside, hit, -⟩ := findFrom_some _ m.slots _ _ index start found
    obtain ⟨d, -, place, passed⟩ := findFrom_first _ m.slots _ _ index start found
    cases slot : m.slots.getD index none with
    | some element =>
        left
        obtain ⟨other, old⟩ := element
        obtain rfl : other = key := by rw [slot] at hit; simpa [freeOrKeyIs] using hit
        exact ⟨old, (getD_some_iff m.slots index _).mp slot⟩
    | none =>
        refine .inr ⟨getD_none_inside m.slots index inside slot, fun present => ?_⟩
        obtain ⟨old, member⟩ := (mem_keys_iff m key).mp present
        obtain ⟨other, used⟩ := (mem_reduceOption_iff_get m.slots _).mp member
        obtain ⟨d', -, place', chain⟩ := tight.chain other _ used
        have stored : m.slots.getD other none = some (key, old) := (getD_some_iff _ _ _).mpr used
        -- The hole cannot come before the key, nor the key before the hole.
        rcases Nat.lt_trichotomy d d' with early | rfl | late
        · exact chain d early (place ▸ slot)
        · rw [place', ← place, slot] at stored
          cases stored
        · have missed := passed d' late
          rw [← place', stored] at missed
          simp [freeOrKeyIs] at missed

/-- Without the pair of its key the table holds that key nowhere. -/
theorem hashmapHash_others {m : HashmapMap K V} (tight : Tight hash m) {key : K} {index : Nat}
    (found : hashmapHash hash m key = some index) :
    ∃ left own right, index < m.slots.length ∧ m.entries = left ++ own ++ right ∧
      (∀ pair ∈ own, pair.1 = key) ∧ ((left ++ right).map Prod.fst).Nodup ∧
      key ∉ (left ++ right).map Prod.fst ∧
      ∀ value, (m.slots.set index (some (key, value))).reduceOption =
        left ++ [(key, value)] ++ right := by
  have distinct := tight.distinct
  unfold HashmapMap.keys HashmapMap.entries at distinct
  rcases hashmapHash_tight tight found with ⟨old, used⟩ | ⟨hole, fresh⟩
  · obtain ⟨inside, -⟩ := List.getElem?_eq_some_iff.mp used
    have split := reduceOption_split m.slots index _ used
    rw [split, Option.toList_some, List.append_assoc, List.singleton_append, List.map_append,
      List.map_cons, List.nodup_middle, ← List.map_append, List.nodup_cons] at distinct
    refine ⟨_, _, _, inside, split, ?_, distinct.2, distinct.1, fun value => ?_⟩
    · intro pair member
      rw [Option.toList_some, List.mem_singleton] at member
      rw [member]
    · exact reduceOption_set m.slots index _ inside
  · obtain ⟨inside, -⟩ := List.getElem?_eq_some_iff.mp hole
    have split := reduceOption_split m.slots index _ hole
    have same : m.keys = ((m.slots.take index).reduceOption ++
        (m.slots.drop (index + 1)).reduceOption).map Prod.fst := by
      unfold HashmapMap.keys HashmapMap.entries
      rw [split, Option.toList_none, List.append_nil]
    refine ⟨_, _, _, inside, split, by simp, ?_, same ▸ fresh, fun value => ?_⟩
    · rw [← same]
      exact tight.distinct
    · exact reduceOption_set m.slots index _ inside

/-- A slot that is taken leaves every chain behind it whole. -/
theorem put_found_chain {m : HashmapMap K V} (tight : Tight hash m) {key : K} (value : V)
    {index : Nat} (inside : index < m.slots.length) (found : hashmapHash hash m key = some index)
    (place : Nat) (element : K × V)
    (stored : (m.slots.set index (some (key, value)))[place]? = some (some element)) :
    ∃ d < maxChainLength,
      place = ((hash element.1).toNat % m.slots.length + d) % m.slots.length ∧
        ∀ e < d, (m.slots.set index (some (key, value))).getD
          (((hash element.1).toNat % m.slots.length + e) % m.slots.length) none ≠ none := by
  have stays : ∀ other, m.slots.getD other none ≠ none →
      (m.slots.set index (some (key, value))).getD other none ≠ none := by
    intro other full
    by_cases equal : index = other
    · subst equal
      simp [List.getD_eq_getElem?_getD, inside]
    · simpa [List.getD_eq_getElem?_getD, List.getElem?_set, equal] using full
  by_cases equal : index = place
  · subst equal
    obtain rfl : (key, value) = element := by simpa [inside] using stored
    unfold hashmapHash at found
    split at found
    · cases found
    · obtain ⟨d, bound, here, passed⟩ := findFrom_first _ m.slots _ _ index
        (Nat.mod_lt _ tight.room) found
      refine ⟨d, bound, here, fun e early => stays _ fun hole => ?_⟩
      have missed := passed e early
      rw [hole] at missed
      cases missed
  · have kept : m.slots[place]? = some (some element) := by
      simpa [List.getElem?_set, equal] using stored
    obtain ⟨d, bound, here, chain⟩ := tight.chain place element kept
    exact ⟨d, bound, here, fun e early => stays _ (chain e early)⟩

/-- A pair that is stored is one update of the finite map, whether its key is new or not. -/
theorem put_found_tight {m : HashmapMap K V} (tight : Tight hash m) {key : K} (value : V)
    {index : Nat} (found : hashmapHash hash m key = some index) :
    Tight hash (⟨m.slots.set index (some (key, value)), m.size + 1⟩ : HashmapMap K V) ∧
      (⟨m.slots.set index (some (key, value)), m.size + 1⟩ : HashmapMap K V).contents =
        Function.update m.contents key (some value) := by
  obtain ⟨left, own, right, inside, before, same, others, fresh, after⟩ :=
    hashmapHash_others tight found
  have distinct : (⟨m.slots.set index (some (key, value)), m.size + 1⟩ :
      HashmapMap K V).keys.Nodup := by
    unfold HashmapMap.keys HashmapMap.entries
    rw [after, List.append_assoc, List.singleton_append, List.map_append, List.map_cons,
      List.nodup_middle, ← List.map_append]
    exact List.nodup_cons.mpr ⟨fresh, others⟩
  refine ⟨⟨by simpa using tight.room, ?_, distinct⟩, ?_⟩
  · intro place element stored
    simpa [hashmapHashInt] using put_found_chain tight value inside found place element stored
  · funext other
    by_cases equal : other = key
    · subst equal
      rw [Function.update_self, contents_some_iff _ distinct, HashmapMap.entries, after]
      simp
    · rw [Function.update_of_ne equal]
      apply Option.ext
      intro data
      rw [contents_some_iff _ distinct, contents_some_iff m tight.distinct, before,
        HashmapMap.entries, after]
      have apart : (other, data) ∉ own := fun member => equal (same _ member)
      simp [apart, equal]

def Overwrites (hash : K → UInt64) (put : Put K V) : Prop :=
  ∀ m key value after, Tight hash m → put m key value = (.ok, after) →
    Tight hash after ∧ after.contents = Function.update m.contents key (some value)

theorem lastCopy_cons (key : K) (value : V) (rest : List (K × V)) (found : K → Option V) :
    (fun other => (lastCopy ((key, value) :: rest) other).or (found other)) =
      fun other => (lastCopy rest other).or (Function.update found key (some value) other) := by
  funext other
  unfold lastCopy
  rw [List.reverse_cons, List.find?_append]
  cases rest.reverse.find? (fun pair => decide (pair.1 = other)) with
  | some pair => rfl
  | none =>
      by_cases same : other = key
      · subst same
        simp
      · simp [same, Ne.symm same]

theorem rehashLoop_overwrites (put : Put K V) (overwrites : Overwrites hash put)
    (slots : List (Option (K × V))) (m after : HashmapMap K V) (tight : Tight hash m)
    (done : rehashLoop put slots m = (.ok, after)) :
    Tight hash after ∧
      after.contents = fun key => (lastCopy slots.reduceOption key).or (m.contents key) := by
  have copies := rehashLoop_copies done
  clear done
  induction copies with
  | ended => exact ⟨tight, rfl⟩
  | skip later ih => exact ih tight
  | @next key value rest m table stored later ih =>
      obtain ⟨nextTight, contents⟩ := overwrites m key value table tight stored
      obtain ⟨afterTight, all⟩ := ih nextTight
      refine ⟨afterTight, ?_⟩
      rw [all, contents, List.reduceOption_cons_of_some, lastCopy_cons]
  | stop refused failed => exact absurd rfl failed

/-- A doubling that moves all pairs keeps the last copy of each key. -/
theorem hashmapRehash_overwrites (put : Put K V) (overwrites : Overwrites hash put)
    {m after : HashmapMap K V} (room : 0 < m.slots.length)
    (done : hashmapRehash put alloc m = (.ok, after)) :
    Tight hash after ∧ after.contents = lastCopy m.entries := by
  unfold hashmapRehash at done
  split at done
  · obtain ⟨tight, contents⟩ := rehashLoop_overwrites put overwrites m.slots _ after
      (empty_tight _ (by omega)) done
    refine ⟨tight, contents.trans ?_⟩
    funext key
    rw [show (⟨List.replicate (2 * m.slots.length) none, 0⟩ : HashmapMap K V).contents key = none by
      simp [HashmapMap.contents, HashmapMap.entries]]
    exact Option.or_none
  · cases done

theorem lastCopy_distinct {m : HashmapMap K V} (distinct : m.keys.Nodup) :
    lastCopy m.entries = m.contents := by
  have turned : (⟨m.slots.reverse, m.size⟩ : HashmapMap K V).entries = m.entries.reverse := by
    unfold HashmapMap.entries
    exact List.filterMap_reverse
  have reversed : (⟨m.slots.reverse, m.size⟩ : HashmapMap K V).keys.Nodup := by
    unfold HashmapMap.keys
    rw [turned, List.map_reverse, List.nodup_reverse]
    exact distinct
  funext key
  have same : lastCopy m.entries key =
      (⟨m.slots.reverse, m.size⟩ : HashmapMap K V).contents key := by
    unfold lastCopy HashmapMap.contents
    rw [turned]
  rw [same]
  apply Option.ext
  intro value
  rw [contents_some_iff _ reversed, contents_some_iff m distinct, turned, List.mem_reverse]

theorem hashmapPutFuel_overwrites (alloc : Nat → Bool) (fuel : Nat) :
    Overwrites hash (hashmapPutFuel hash alloc fuel : Put K V) := by
  induction fuel using Nat.strong_induction_on with
  | _ fuel ih =>
      intro m key value after tight done
      cases hashmapPutFuel_puts done with
      | found slot => exact put_found_tight tight value slot
      | @again less next _ _ full grown later =>
          have inner := ih less (Nat.lt_succ_self less)
          obtain ⟨nextTight, contents⟩ := hashmapRehash_overwrites _ inner tight.room grown
          rw [← lastCopy_distinct tight.distinct, ← contents]
          exact inner next key value after nextTight later

end Insertions

end Owl.Hashmap
