import Owl.Hashmap
import Mathlib.Data.Set.Card

/-!
The table of `hashmap.c` stands for a finite map. A lookup inspects all eight
slots of the window, so the holes that removals leave do not matter; an
insertion of a fresh key stops at the first hole of its window; growing puts
every pair of the old array into a larger one and may itself grow again half
way. The results speak about calls that return `MAP_OK`.
-/

namespace Owl.Hashmap

open Slots

variable {K V : Type} {hash : K → UInt64}

theorem mem_keys_iff (m : HashmapMap K V) (key : K) :
    key ∈ m.keys ↔ ∃ value, (key, value) ∈ m.entries := by
  simp [HashmapMap.keys]

theorem empty_valid (count : Nat) (room : 0 < count) :
    Valid hash (⟨List.replicate count none, 0⟩ : HashmapMap K V) where
  room := by simpa using room
  window := by
    intro index element used
    simp [List.getElem?_replicate] at used
  distinct := by simp [HashmapMap.keys, HashmapMap.entries]
  counted := by simp [HashmapMap.entries]

theorem hashmapNew_valid : Valid hash (hashmapNew : HashmapMap K V) :=
  empty_valid initialSize (by decide)

theorem hashInt_lt (m : HashmapMap K V) (valid : Valid hash m) (key : K) :
    hashmapHashInt hash m key < m.slots.length := Nat.mod_lt _ valid.room

variable [DecidableEq K]

theorem contents_none_iff (m : HashmapMap K V) (key : K) :
    m.contents key = none ↔ key ∉ m.keys := by
  rw [mem_keys_iff]
  simp only [HashmapMap.contents, Option.map_eq_none_iff, List.find?_eq_none, decide_eq_true_eq]
  constructor
  · rintro absent ⟨value, member⟩
    exact absent _ member rfl
  · rintro absent ⟨other, value⟩ member rfl
    exact absent ⟨value, member⟩

theorem contents_some_iff (m : HashmapMap K V) (distinct : m.keys.Nodup) (key : K) (value : V) :
    m.contents key = some value ↔ (key, value) ∈ m.entries := by
  constructor
  · intro found
    simp only [HashmapMap.contents, Option.map_eq_some_iff] at found
    obtain ⟨⟨other, data⟩, first, same⟩ := found
    have hit := List.find?_some first
    simp only [decide_eq_true_eq] at hit same
    subst hit
    subst same
    exact List.mem_of_find?_eq_some first
  · intro member
    cases found : m.contents key with
    | none =>
        exact absurd ((mem_keys_iff m key).mpr ⟨value, member⟩)
          ((contents_none_iff m key).mp found)
    | some data =>
        simp only [HashmapMap.contents, Option.map_eq_some_iff] at found
        obtain ⟨⟨other, first⟩, stored, same⟩ := found
        have hit := List.find?_some stored
        simp only [decide_eq_true_eq] at hit same
        subst hit
        subst same
        have equal := List.inj_on_of_nodup_map distinct (List.mem_of_find?_eq_some stored) member rfl
        exact congrArg some (Prod.mk.inj equal).2

theorem hashmapNew_contents :
    (hashmapNew : HashmapMap K V).contents = fun _ => none := by
  funext key
  rw [contents_none_iff]
  simp [hashmapNew, HashmapMap.keys, HashmapMap.entries]

theorem contents_ncard (m : HashmapMap K V) (valid : Valid hash m) :
    ({key | (m.contents key).isSome} : Set K).ncard = m.entries.length := by
  have present : ({key | (m.contents key).isSome} : Set K) = m.keys.toFinset := by
    ext key
    have absent := contents_none_iff m key
    rw [Set.mem_ofPred_eq, List.coe_toFinset, Set.mem_ofPred_eq, ← not_iff_not, ← absent,
      Option.not_isSome_iff_eq_none]
  rw [present, Set.ncard_coe_finset, List.toFinset_card_of_nodup valid.distinct, HashmapMap.keys,
    List.length_map]

theorem locate_present (m : HashmapMap K V) (valid : Valid hash m) (key : K) (value : V)
    (member : (key, value) ∈ m.entries) :
    ∃ index, locate hash m key = some index ∧ m.slots[index]? = some (some (key, value)) := by
  obtain ⟨place, used⟩ := (mem_reduceOption_iff_get m.slots (key, value)).mp member
  obtain ⟨d, bound, position⟩ := valid.window place _ used
  have start := hashInt_lt m valid key
  -- The window contains the key's slot, so the search ends there or at an equal key.
  cases found : locate hash m key with
  | none =>
      have miss := findFrom_none _ m.slots _ _ start found d bound
      rw [← position, (getD_some_iff m.slots place _).mpr used] at miss
      simp [keyIs] at miss
  | some index =>
      obtain ⟨inside, hit, -⟩ := findFrom_some _ m.slots _ _ index start found
      cases slot : m.slots.getD index none with
      | none => rw [slot] at hit; cases hit
      | some element =>
          have same : element.1 = key := by rw [slot] at hit; simpa [keyIs] using hit
          have stored := (getD_some_iff m.slots index element).mp slot
          have equal := index_unique m.slots Prod.fst valid.distinct index place element _
            stored used same
          exact ⟨index, rfl, by rw [equal]; exact used⟩

theorem locate_absent (m : HashmapMap K V) (valid : Valid hash m) (key : K)
    (absent : key ∉ m.keys) : locate hash m key = none := by
  cases found : locate hash m key with
  | none => rfl
  | some index =>
      obtain ⟨-, hit, -⟩ := findFrom_some _ m.slots _ _ index (hashInt_lt m valid key) found
      cases slot : m.slots.getD index none with
      | none => rw [slot] at hit; cases hit
      | some element =>
          have same : element.1 = key := by rw [slot] at hit; simpa [keyIs] using hit
          have stored := (getD_some_iff m.slots index element).mp slot
          have member := (mem_reduceOption_iff_get m.slots element).mpr ⟨index, stored⟩
          exact absurd ((mem_keys_iff m key).mpr ⟨element.2, by rw [← same]; exact member⟩) absent

/-- `hashmap_get` without removal reads the finite map. -/
theorem hashmapGet_keep (m : HashmapMap K V) (valid : Valid hash m) (key : K) :
    hashmapGet hash m key false =
      match m.contents key with
      | some value => (.ok, some value, m)
      | none => (.missing, none, m) := by
  cases found : m.contents key with
  | none =>
      have search := locate_absent m valid key ((contents_none_iff m key).mp found)
      simp [hashmapGet, search]
  | some value =>
      obtain ⟨index, search, used⟩ := locate_present m valid key value
        ((contents_some_iff m valid.distinct key value).mp found)
      simp [hashmapGet, search, used]

/-- Emptying a used slot removes its pair and nothing else. -/
theorem clear_valid (m : HashmapMap K V) (valid : Valid hash m) (index : Nat) (key : K) (value : V)
    (used : m.slots[index]? = some (some (key, value))) :
    Valid hash (⟨m.slots.set index none, m.size - 1⟩ : HashmapMap K V) ∧
      (⟨m.slots.set index none, m.size - 1⟩ : HashmapMap K V).contents =
        Function.update m.contents key none := by
  -- Entries up to permutation; the slots of the others stay.
  have perm := clear_perm m.slots index (key, value) used
  have keysPerm := perm.map Prod.fst
  have distinct := keysPerm.nodup_iff.mp valid.distinct
  rw [List.map_cons, List.nodup_cons] at distinct
  have after : Valid hash (⟨m.slots.set index none, m.size - 1⟩ : HashmapMap K V) := by
    refine ⟨by simpa using valid.room, ?_, distinct.2, ?_⟩
    · intro place element stored
      have before : m.slots[place]? = some (some element) := by
        by_cases same : place = index
        · subst same
          simp [List.getElem?_set] at stored
        · simpa [List.getElem?_set, Ne.symm same] using stored
      simpa [hashmapHashInt] using valid.window place element before
    · have length := perm.length_eq
      simp only [List.length_cons] at length
      simp only [HashmapMap.entries, valid.counted]
      omega
  refine ⟨after, ?_⟩
  funext other
  by_cases same : other = key
  · subst same
    rw [Function.update_self, contents_none_iff]
    exact distinct.1
  · rw [Function.update_of_ne same]
    apply Option.ext
    intro data
    rw [contents_some_iff _ after.distinct, contents_some_iff _ valid.distinct]
    unfold HashmapMap.entries
    rw [perm.mem_iff, List.mem_cons]
    constructor
    · exact Or.inr
    · rintro (head | tail)
      · exact absurd (Prod.mk.inj head).1 same
      · exact tail

/-- `hashmap_get` with removal: same answer, and the key is gone afterwards. -/
theorem hashmapGet_remove (m : HashmapMap K V) (valid : Valid hash m) (key : K) :
    (hashmapGet hash m key true).1 = (if (m.contents key).isSome then .ok else .missing) ∧
      (hashmapGet hash m key true).2.1 = m.contents key ∧
      Valid hash (hashmapGet hash m key true).2.2 ∧
      (hashmapGet hash m key true).2.2.contents = Function.update m.contents key none := by
  cases found : m.contents key with
  | none =>
      have search := locate_absent m valid key ((contents_none_iff m key).mp found)
      have unchanged : Function.update m.contents key none = m.contents := by
        rw [← found, Function.update_eq_self]
      simp [hashmapGet, search, valid, unchanged]
  | some value =>
      obtain ⟨index, search, used⟩ := locate_present m valid key value
        ((contents_some_iff m valid.distinct key value).mp found)
      have cleared := clear_valid m valid index key value used
      simp [hashmapGet, search, used, cleared]

/-- Storing through the pointer of a present key changes its value only. -/
theorem storeData_present (m : HashmapMap K V) (valid : Valid hash m) (key : K) (old value : V)
    (present : m.contents key = some old) :
    Valid hash (storeData hash m key value) ∧
      (storeData hash m key value).contents = Function.update m.contents key (some value) ∧
      (storeData hash m key value).size = m.size := by
  obtain ⟨index, search, used⟩ := locate_present m valid key old
    ((contents_some_iff m valid.distinct key old).mp present)
  obtain ⟨inside, -⟩ := List.getElem?_eq_some_iff.mp used
  have before := reduceOption_split m.slots index _ used
  have after := reduceOption_set m.slots index (some (key, value)) inside
  have keysSame : ((m.slots.set index (some (key, value))).reduceOption).map Prod.fst =
      m.slots.reduceOption.map Prod.fst := by
    rw [before, after]
    simp
  have stored : Valid hash (⟨m.slots.set index (some (key, value)), m.size⟩ : HashmapMap K V) := by
    refine ⟨by simpa using valid.room, ?_, ?_, ?_⟩
    · intro place element slot
      by_cases same : index = place
      · subst same
        have equal : (key, value) = element := by simpa [inside] using slot
        subst equal
        simpa [hashmapHashInt] using valid.window index (key, old) used
      · have kept : m.slots[place]? = some (some element) := by
          simpa [List.getElem?_set, same] using slot
        simpa [hashmapHashInt] using valid.window place element kept
    · unfold HashmapMap.keys HashmapMap.entries
      rw [keysSame]
      exact valid.distinct
    · have length := congrArg List.length keysSame
      simp only [List.length_map] at length
      rw [HashmapMap.entries, length]
      exact valid.counted
  have unfolded : storeData hash m key value = ⟨m.slots.set index (some (key, value)), m.size⟩ := by
    simp [storeData, search]
  rw [unfolded]
  refine ⟨stored, ?_, rfl⟩
  funext other
  by_cases same : other = key
  · subst same
    rw [Function.update_self, contents_some_iff _ stored.distinct]
    exact (mem_reduceOption_iff_get _ _).mpr ⟨index, by simp [inside]⟩
  · rw [Function.update_of_ne same]
    apply Option.ext
    intro data
    rw [contents_some_iff _ stored.distinct, contents_some_iff m valid.distinct]
    unfold HashmapMap.entries
    rw [before, after]
    simp [same]

def Inserts (hash : K → UInt64) (put : Put K V) : Prop :=
  ∀ m key value after, Valid hash m → key ∉ m.keys → put m key value = (.ok, after) →
    Valid hash after ∧ after.entries.Perm ((key, value) :: m.entries)

/-- `hashmap_hash` finds a hole of the window for a key that is not there. -/
theorem hashmapHash_fresh (m : HashmapMap K V) (valid : Valid hash m) (key : K)
    (fresh : key ∉ m.keys) (index : Nat) (found : hashmapHash hash m key = some index) :
    m.slots[index]? = some none ∧
      ∃ d < maxChainLength, index = (hashmapHashInt hash m key + d) % m.slots.length := by
  unfold hashmapHash at found
  split at found
  · cases found
  · obtain ⟨inside, hit, place⟩ :=
      findFrom_some _ m.slots _ _ index (hashInt_lt m valid key) found
    refine ⟨?_, place⟩
    -- The search stops at a hole or at the key, which is not in the table.
    cases slot : m.slots.getD index none with
    | none => exact getD_none_inside m.slots index inside slot
    | some element =>
        have same : element.1 = key := by rw [slot] at hit; simpa [freeOrKeyIs] using hit
        have stored := (getD_some_iff m.slots index element).mp slot
        have member := (mem_reduceOption_iff_get m.slots element).mpr ⟨index, stored⟩
        exact absurd ((mem_keys_iff m key).mpr ⟨element.2, by rw [← same]; exact member⟩) fresh

theorem fill_valid (m : HashmapMap K V) (valid : Valid hash m) (key : K) (value : V)
    (fresh : key ∉ m.keys) (index : Nat) (found : hashmapHash hash m key = some index) :
    Valid hash (⟨m.slots.set index (some (key, value)), m.size + 1⟩ : HashmapMap K V) ∧
      (⟨m.slots.set index (some (key, value)), m.size + 1⟩ : HashmapMap K V).entries.Perm
        ((key, value) :: m.entries) := by
  obtain ⟨hole, place⟩ := hashmapHash_fresh m valid key fresh index found
  have perm := fill_perm m.slots index (key, value) hole
  refine ⟨⟨by simpa using valid.room, ?_, ?_, ?_⟩, perm⟩
  · intro other element stored
    by_cases same : index = other
    · subst same
      obtain ⟨inside, -⟩ := List.getElem?_eq_some_iff.mp hole
      have equal : (key, value) = element := by simpa [inside] using stored
      subst equal
      simpa [hashmapHashInt] using place
    · have before : m.slots[other]? = some (some element) := by
        simpa [List.getElem?_set, same] using stored
      simpa [hashmapHashInt] using valid.window other element before
  · have keysPerm := perm.map Prod.fst
    exact keysPerm.nodup_iff.mpr (List.nodup_cons.mpr ⟨fresh, valid.distinct⟩)
  · have length := perm.length_eq
    simp only [List.length_cons] at length
    simp only [HashmapMap.entries, valid.counted]
    omega

omit [DecidableEq K] in
theorem rehashLoop_next {put : Put K V} {key : K} {value : V} {m next : HashmapMap K V}
    (step : put m key value = (.ok, next)) (rest : List (Option (K × V))) :
    rehashLoop put (some (key, value) :: rest) m = rehashLoop put rest next := by
  rw [rehashLoop, step]

omit [DecidableEq K] in
theorem rehashLoop_stop {put : Put K V} {key : K} {value : V} {m next : HashmapMap K V}
    {status : MapStatus} (step : put m key value = (status, next)) (failed : status ≠ .ok)
    (rest : List (Option (K × V))) :
    rehashLoop put (some (key, value) :: rest) m = (status, next) := by
  rw [rehashLoop, step]
  cases status with
  | ok => exact absurd rfl failed
  | omem => rfl
  | full => rfl
  | missing => rfl

inductive Copies (put : Put K V) (status : MapStatus) (after : HashmapMap K V) :
    List (Option (K × V)) → HashmapMap K V → Prop
  | ended (done : status = .ok) : Copies put status after [] after
  | skip {rest : List (Option (K × V))} {m : HashmapMap K V}
      (later : Copies put status after rest m) : Copies put status after (none :: rest) m
  | next {key : K} {value : V} {rest : List (Option (K × V))} {m table : HashmapMap K V}
      (stored : put m key value = (.ok, table)) (later : Copies put status after rest table) :
      Copies put status after (some (key, value) :: rest) m
  | stop {key : K} {value : V} {rest : List (Option (K × V))} {m : HashmapMap K V}
      (refused : put m key value = (status, after)) (failed : status ≠ .ok) :
      Copies put status after (some (key, value) :: rest) m

omit [DecidableEq K] in
theorem rehashLoop_copies {put : Put K V} {slots : List (Option (K × V))}
    {m after : HashmapMap K V} {status : MapStatus} (run : rehashLoop put slots m = (status, after)) :
    Copies put status after slots m := by
  induction slots generalizing m with
  | nil =>
      cases run
      exact .ended rfl
  | cons slot rest ih =>
      cases slot with
      | none => exact .skip (ih run)
      | some element =>
          obtain ⟨key, value⟩ := element
          generalize step : put m key value = result
          obtain ⟨code, table⟩ := result
          by_cases stored : code = .ok
          · subst stored
            rw [rehashLoop_next step] at run
            exact .next step (ih run)
          · rw [rehashLoop_stop step stored] at run
            cases run
            exact .stop step stored

omit [DecidableEq K] in
theorem Copies.run {put : Put K V} {slots : List (Option (K × V))} {m after : HashmapMap K V}
    {status : MapStatus} (copies : Copies put status after slots m) :
    rehashLoop put slots m = (status, after) := by
  induction copies with
  | ended done =>
      rw [done]
      rfl
  | skip later ih => exact ih
  | next stored later ih => rw [rehashLoop_next stored, ih]
  | stop refused failed => exact rehashLoop_stop refused failed _

omit [DecidableEq K] in
theorem fresh_of_distinct {key : K} {value : V} {rest : List (K × V)} {m : HashmapMap K V}
    (distinct : (((key, value) :: (rest ++ m.entries)).map Prod.fst).Nodup) : key ∉ m.keys := by
  rw [List.map_cons, List.nodup_cons] at distinct
  intro member
  apply distinct.1
  rw [List.map_append]
  exact List.mem_append_right _ member

omit [DecidableEq K] in
/-- One pair moves from the pairs still to copy to the new table. -/
theorem moved_one {put : Put K V} (inserts : Inserts hash put) {m next : HashmapMap K V}
    (valid : Valid hash m) {key : K} {value : V} {rest : List (K × V)}
    (distinct : (((key, value) :: (rest ++ m.entries)).map Prod.fst).Nodup)
    (step : put m key value = (.ok, next)) :
    Valid hash next ∧ ((rest ++ next.entries).map Prod.fst).Nodup ∧
      (rest ++ next.entries).Perm ((key, value) :: (rest ++ m.entries)) := by
  obtain ⟨nextValid, added⟩ := inserts m key value next valid (fresh_of_distinct distinct) step
  have moved : (rest ++ next.entries).Perm ((key, value) :: (rest ++ m.entries)) :=
    (List.Perm.append_left _ added).trans List.perm_middle
  exact ⟨nextValid, (moved.map Prod.fst).nodup_iff.mpr distinct, moved⟩

omit [DecidableEq K] in
/-- The copy loop moves every pair of the old array, whatever the inner
insertions do to the size of the new one. -/
theorem rehashLoop_inserts (put : Put K V) (inserts : Inserts hash put)
    (slots : List (Option (K × V))) (m after : HashmapMap K V) (valid : Valid hash m)
    (distinct : ((slots.reduceOption ++ m.entries).map Prod.fst).Nodup)
    (done : rehashLoop put slots m = (.ok, after)) :
    Valid hash after ∧ after.entries.Perm (slots.reduceOption ++ m.entries) := by
  have copies := rehashLoop_copies done
  clear done
  -- Old pairs still to move and pairs already moved are together duplicate-free.
  induction copies with
  | ended => exact ⟨valid, by simp⟩
  | skip later ih => exact ih valid (by simpa using distinct)
  | next stored later ih =>
      rw [List.reduceOption_cons_of_some, List.cons_append] at distinct
      obtain ⟨nextValid, nextDistinct, moved⟩ := moved_one inserts valid distinct stored
      obtain ⟨afterValid, perm⟩ := ih nextValid nextDistinct
      exact ⟨afterValid, by simpa using perm.trans moved⟩
  | stop refused failed => exact absurd rfl failed

omit [DecidableEq K] in
theorem hashmapRehash_keeps (put : Put K V) (inserts : Inserts hash put) (alloc : Nat → Bool)
    (m after : HashmapMap K V) (valid : Valid hash m)
    (done : hashmapRehash put alloc m = (.ok, after)) :
    Valid hash after ∧ after.entries.Perm m.entries := by
  unfold hashmapRehash at done
  split at done
  · have room : 0 < 2 * m.slots.length := by have := valid.room; omega
    have grown := rehashLoop_inserts put inserts m.slots _ after (empty_valid _ room)
      (by simpa [HashmapMap.entries, HashmapMap.keys] using valid.distinct) done
    simpa [HashmapMap.entries] using grown
  · cases done

omit [DecidableEq K] in
/-- The copy loop ends with `MAP_OK` or with the status of a failed insertion. -/
theorem rehashLoop_status (put : Put K V)
    (known : ∀ m key value, (put m key value).1 = .ok ∨ (put m key value).1 = .omem)
    (slots : List (Option (K × V))) (m : HashmapMap K V) :
    (rehashLoop put slots m).1 = .ok ∨ (rehashLoop put slots m).1 = .omem := by
  generalize run : rehashLoop put slots m = result
  obtain ⟨status, after⟩ := result
  induction rehashLoop_copies run with
  | ended done => exact .inl done
  | skip later ih => exact ih later.run
  | next stored later ih => exact ih later.run
  | @stop key value rest m refused failed =>
      have first := known m key value
      rwa [refused] at first

omit [DecidableEq K] in
theorem hashmapRehash_status (put : Put K V) (alloc : Nat → Bool)
    (known : ∀ m key value, (put m key value).1 = .ok ∨ (put m key value).1 = .omem)
    (m : HashmapMap K V) :
    (hashmapRehash put alloc m).1 = .ok ∨ (hashmapRehash put alloc m).1 = .omem := by
  unfold hashmapRehash
  split
  · exact rehashLoop_status put known _ _
  · exact Or.inr rfl

theorem hashmapPutFuel_found (alloc : Nat → Bool) (fuel : Nat) (m : HashmapMap K V) (key : K)
    (value : V) (index : Nat) (found : hashmapHash hash m key = some index) :
    hashmapPutFuel hash alloc fuel m key value =
      (.ok, ⟨m.slots.set index (some (key, value)), m.size + 1⟩) := by
  cases fuel <;> simp [hashmapPutFuel, found]

theorem hashmapPutFuel_status (alloc : Nat → Bool) (fuel : Nat) (m : HashmapMap K V) (key : K)
    (value : V) :
    (hashmapPutFuel hash alloc fuel m key value).1 = .ok ∨
      (hashmapPutFuel hash alloc fuel m key value).1 = .omem := by
  induction fuel generalizing m key value with
  | zero =>
      rw [hashmapPutFuel]
      split
      · exact Or.inl rfl
      · exact Or.inr rfl
  | succ fuel ih =>
      rw [hashmapPutFuel]
      split
      · exact Or.inl rfl
      · split
        · exact Or.inr rfl
        · exact ih _ key value

inductive Puts (hash : K → UInt64) (alloc : Nat → Bool) (m : HashmapMap K V) (key : K) (value : V) :
    Nat → MapStatus → HashmapMap K V → Prop
  | found {fuel index : Nat} (slot : hashmapHash hash m key = some index) :
      Puts hash alloc m key value fuel .ok ⟨m.slots.set index (some (key, value)), m.size + 1⟩
  | spent (full : hashmapHash hash m key = none) : Puts hash alloc m key value 0 .omem m
  | refused {fuel : Nat} {after : HashmapMap K V} (full : hashmapHash hash m key = none)
      (grown : hashmapRehash (hashmapPutFuel hash alloc fuel) alloc m = (.omem, after)) :
      Puts hash alloc m key value (fuel + 1) .omem after
  | again {fuel : Nat} {next after : HashmapMap K V} {status : MapStatus}
      (full : hashmapHash hash m key = none)
      (grown : hashmapRehash (hashmapPutFuel hash alloc fuel) alloc m = (.ok, next))
      (later : hashmapPutFuel hash alloc fuel next key value = (status, after)) :
      Puts hash alloc m key value (fuel + 1) status after

theorem hashmapPutFuel_puts {alloc : Nat → Bool} {fuel : Nat} {m after : HashmapMap K V} {key : K}
    {value : V} {status : MapStatus}
    (run : hashmapPutFuel hash alloc fuel m key value = (status, after)) :
    Puts hash alloc m key value fuel status after := by
  cases found : hashmapHash hash m key with
  | some index =>
      rw [hashmapPutFuel_found alloc fuel m key value index found] at run
      cases run
      exact .found found
  | none =>
      cases fuel with
      | zero =>
          rw [hashmapPutFuel, found] at run
          cases run
          exact .spent found
      | succ fuel =>
          have ends := hashmapRehash_status (hashmapPutFuel hash alloc fuel) alloc
            (hashmapPutFuel_status alloc fuel) m
          rw [hashmapPutFuel, found] at run
          generalize grown : hashmapRehash (hashmapPutFuel hash alloc fuel) alloc m = result at ends run
          obtain ⟨code, next⟩ := result
          rcases ends with same | same
          · cases same
            exact .again found grown run
          · cases same
            cases run
            exact .refused found grown

omit [DecidableEq K] in
theorem fresh_of_perm {m next : HashmapMap K V} (same : next.entries.Perm m.entries) {key : K}
    (fresh : key ∉ m.keys) : key ∉ next.keys := by
  unfold HashmapMap.keys at fresh ⊢
  rwa [(same.map Prod.fst).mem_iff]

theorem hashmapPutFuel_inserts (alloc : Nat → Bool) (fuel : Nat) :
    Inserts hash (hashmapPutFuel hash alloc fuel : Put K V) := by
  -- The insertions of the rehash have one doubling less to go.
  induction fuel using Nat.strong_induction_on with
  | _ fuel ih =>
      intro m key value after valid fresh done
      cases hashmapPutFuel_puts done with
      | found slot => exact fill_valid m valid key value fresh _ slot
      | @again less next _ _ full grown later =>
          have inner := ih less (Nat.lt_succ_self less)
          obtain ⟨nextValid, same⟩ := hashmapRehash_keeps _ inner alloc m next valid grown
          have nextFresh := fresh_of_perm same fresh
          obtain ⟨afterValid, perm⟩ := inner next key value after nextValid nextFresh later
          exact ⟨afterValid, perm.trans (same.cons _)⟩

/-- A successful `hashmap_put` of a fresh key is one update of the finite map. -/
theorem hashmapPut_fresh (alloc : Nat → Bool) (m after : HashmapMap K V) (valid : Valid hash m)
    (key : K) (value : V) (fresh : m.contents key = none)
    (done : hashmapPut hash alloc m key value = (.ok, after)) :
    Valid hash after ∧ after.contents = Function.update m.contents key (some value) := by
  have absent := (contents_none_iff m key).mp fresh
  obtain ⟨afterValid, perm⟩ := hashmapPutFuel_inserts alloc 30 m key value after valid absent done
  refine ⟨afterValid, ?_⟩
  funext other
  by_cases same : other = key
  · subst same
    rw [Function.update_self, contents_some_iff after afterValid.distinct, perm.mem_iff]
    exact List.mem_cons_self
  · rw [Function.update_of_ne same]
    apply Option.ext
    intro data
    rw [contents_some_iff after afterValid.distinct, contents_some_iff m valid.distinct,
      perm.mem_iff, List.mem_cons]
    constructor
    · rintro (head | tail)
      · exact absurd (Prod.mk.inj head).1 same
      · exact tail
    · exact Or.inr

/-! A rehash that runs out of memory leaves the table with the pairs it had
moved so far: still a valid table, but pairs can be missing. -/
section OutOfMemory

def Loses (hash : K → UInt64) (put : Put K V) : Prop :=
  ∀ m key value after, Valid hash m → key ∉ m.keys → put m key value = (.omem, after) →
    Valid hash after ∧ after.entries ⊆ m.entries

omit [DecidableEq K] in
theorem rehashLoop_loses (put : Put K V) (inserts : Inserts hash put) (loses : Loses hash put)
    (slots : List (Option (K × V))) (m after : HashmapMap K V) (valid : Valid hash m)
    (distinct : ((slots.reduceOption ++ m.entries).map Prod.fst).Nodup)
    (failed : rehashLoop put slots m = (.omem, after)) :
    Valid hash after ∧ after.entries ⊆ slots.reduceOption ++ m.entries := by
  have copies := rehashLoop_copies failed
  clear failed
  induction copies with
  | ended done => cases done
  | skip later ih => simpa using ih valid (by simpa using distinct)
  | next stored later ih =>
      rw [List.reduceOption_cons_of_some, List.cons_append] at distinct
      obtain ⟨nextValid, nextDistinct, moved⟩ := moved_one inserts valid distinct stored
      obtain ⟨afterValid, kept⟩ := ih nextValid nextDistinct
      exact ⟨afterValid, by simpa using List.Subset.trans kept moved.subset⟩
  -- The old array has been given up: what was still to move is lost.
  | stop refused =>
      rw [List.reduceOption_cons_of_some, List.cons_append] at distinct
      obtain ⟨afterValid, kept⟩ := loses _ _ _ after valid (fresh_of_distinct distinct) refused
      exact ⟨afterValid, fun pair member => List.mem_append_right _ (kept member)⟩

omit [DecidableEq K] in
theorem hashmapRehash_loses (put : Put K V) (inserts : Inserts hash put) (loses : Loses hash put)
    (alloc : Nat → Bool) (m after : HashmapMap K V) (valid : Valid hash m)
    (failed : hashmapRehash put alloc m = (.omem, after)) :
    Valid hash after ∧ after.entries ⊆ m.entries := by
  unfold hashmapRehash at failed
  split at failed
  · have room : 0 < 2 * m.slots.length := by have := valid.room; omega
    have grown := rehashLoop_loses put inserts loses m.slots _ after (empty_valid _ room)
      (by simpa [HashmapMap.entries, HashmapMap.keys] using valid.distinct) failed
    simpa [HashmapMap.entries] using grown
  · cases failed
    exact ⟨valid, List.Subset.refl _⟩

theorem hashmapPutFuel_loses (alloc : Nat → Bool) (fuel : Nat) :
    Loses hash (hashmapPutFuel hash alloc fuel : Put K V) := by
  induction fuel using Nat.strong_induction_on with
  | _ fuel ih =>
      intro m key value after valid fresh failed
      cases hashmapPutFuel_puts failed with
      | spent full => exact ⟨valid, List.Subset.refl _⟩
      | @refused less _ full grown =>
          exact hashmapRehash_loses _ (hashmapPutFuel_inserts alloc less)
            (ih less (Nat.lt_succ_self less)) alloc m after valid grown
      | @again less next _ _ full grown later =>
          obtain ⟨nextValid, same⟩ :=
            hashmapRehash_keeps _ (hashmapPutFuel_inserts alloc less) alloc m next valid grown
          have nextFresh := fresh_of_perm same fresh
          obtain ⟨afterValid, kept⟩ :=
            ih less (Nat.lt_succ_self less) next key value after nextValid nextFresh later
          exact ⟨afterValid, List.Subset.trans kept same.subset⟩

/-- A `hashmap_put` of a fresh key that fails keeps the table valid and adds nothing. -/
theorem hashmapPut_omem (alloc : Nat → Bool) (m after : HashmapMap K V) (valid : Valid hash m)
    (key : K) (value : V) (fresh : m.contents key = none)
    (failed : hashmapPut hash alloc m key value = (.omem, after)) :
    Valid hash after ∧ ∀ other data, after.contents other = some data →
      m.contents other = some data := by
  have absent := (contents_none_iff m key).mp fresh
  obtain ⟨afterValid, kept⟩ := hashmapPutFuel_loses alloc 30 m key value after valid absent failed
  refine ⟨afterValid, ?_⟩
  intro other data present
  rw [contents_some_iff after afterValid.distinct] at present
  exact (contents_some_iff m valid.distinct other data).mpr (kept present)

end OutOfMemory

/-! Tables never shrink, so thirty doublings are as good as any number of them. -/
section Doublings

def Grows (put : Put K V) : Prop :=
  ∀ m key value, m.slots.length ≤ (put m key value).2.slots.length

omit [DecidableEq K] in
theorem rehashLoop_grows (put : Put K V) (grows : Grows put) (slots : List (Option (K × V)))
    (m : HashmapMap K V) : m.slots.length ≤ (rehashLoop put slots m).2.slots.length := by
  generalize run : rehashLoop put slots m = result
  obtain ⟨status, after⟩ := result
  induction rehashLoop_copies run with
  | ended => exact Nat.le_refl _
  | skip later ih => exact ih later.run
  | @next key value rest m table stored later ih =>
      have first := grows m key value
      rw [stored] at first
      exact Nat.le_trans first (ih later.run)
  | @stop key value rest m refused failed =>
      have first := grows m key value
      rwa [refused] at first

omit [DecidableEq K] in
theorem hashmapRehash_grows (put : Put K V) (grows : Grows put) (alloc : Nat → Bool)
    (m : HashmapMap K V) : m.slots.length ≤ (hashmapRehash put alloc m).2.slots.length := by
  unfold hashmapRehash
  split
  · have loop := rehashLoop_grows put grows m.slots ⟨List.replicate (2 * m.slots.length) none, 0⟩
    simp only [List.length_replicate] at loop
    omega
  · exact Nat.le_refl _

theorem hashmapPutFuel_grows (alloc : Nat → Bool) (fuel : Nat) :
    Grows (hashmapPutFuel hash alloc fuel : Put K V) := by
  induction fuel using Nat.strong_induction_on with
  | _ fuel ih =>
      intro m key value
      generalize run : hashmapPutFuel hash alloc fuel m key value = result
      obtain ⟨status, after⟩ := result
      cases hashmapPutFuel_puts run with
      | found slot => simp
      | spent full => exact Nat.le_refl _
      | @refused less _ full grown =>
          have first := hashmapRehash_grows _ (ih less (Nat.lt_succ_self less)) alloc m
          rwa [grown] at first
      | @again less next _ _ full grown later =>
          have first := hashmapRehash_grows _ (ih less (Nat.lt_succ_self less)) alloc m
          have second := ih less (Nat.lt_succ_self less) next key value
          rw [grown] at first
          rw [later] at second
          exact Nat.le_trans first second

omit [DecidableEq K] in
theorem rehashLoop_congr (left right : Put K V) (bound : Nat) (grows : Grows right)
    (same : ∀ m key value, bound ≤ m.slots.length → left m key value = right m key value)
    (slots : List (Option (K × V))) (m : HashmapMap K V) (large : bound ≤ m.slots.length) :
    rehashLoop left slots m = rehashLoop right slots m := by
  generalize run : rehashLoop right slots m = result
  obtain ⟨status, after⟩ := result
  apply Copies.run
  induction rehashLoop_copies run with
  | ended done => exact .ended done
  | skip later ih => exact .skip (ih large later.run)
  | @next key value rest m table stored later ih =>
      have first := grows m key value
      rw [stored] at first
      exact .next ((same m key value large).trans stored) (ih (Nat.le_trans large first) later.run)
  | @stop key value rest m refused failed =>
      exact .stop ((same m key value large).trans refused) failed

omit [DecidableEq K] in
theorem hashmapRehash_congr (left right : Put K V) (alloc : Nat → Bool) (grows : Grows right)
    (m : HashmapMap K V)
    (same : ∀ next key value, 2 * m.slots.length ≤ next.slots.length →
      left next key value = right next key value) :
    hashmapRehash left alloc m = hashmapRehash right alloc m := by
  unfold hashmapRehash
  split
  · exact rehashLoop_congr left right _ grows same _ _ (by simp)
  · rfl

omit [DecidableEq K] in
theorem hashmapRehash_doubles (put : Put K V) (grows : Grows put) (alloc : Nat → Bool)
    (m next : HashmapMap K V) (status : MapStatus) (notOmem : status ≠ .omem)
    (done : hashmapRehash put alloc m = (status, next)) :
    2 * m.slots.length ≤ next.slots.length := by
  unfold hashmapRehash at done
  split at done
  · have loop := rehashLoop_grows put grows m.slots ⟨List.replicate (2 * m.slots.length) none, 0⟩
    rw [done] at loop
    simpa using loop
  · cases done
    exact absurd rfl notOmem

theorem hashmapPutFuel_succ (alloc : Nat → Bool) (fuel : Nat) (m : HashmapMap K V) (key : K)
    (value : V) (enough : 2 ^ 30 ≤ m.slots.length * 2 ^ fuel) :
    hashmapPutFuel hash alloc (fuel + 1) m key value = hashmapPutFuel hash alloc fuel m key value := by
  induction fuel generalizing m key value with
  | zero =>
      -- A table of 2^30 slots cannot double, so more fuel is never used.
      have refused : callocOk alloc (2 * m.slots.length) = false := by
        simp only [callocOk, Bool.and_eq_false_iff, decide_eq_false_iff_not]
        left
        omega
      rw [hashmapPutFuel, hashmapPutFuel]
      cases hashmapHash hash m key <;> simp [hashmapRehash, refused]
  | succ fuel ih =>
      have inner : ∀ (next : HashmapMap K V) key value, 2 * m.slots.length ≤ next.slots.length →
          hashmapPutFuel hash alloc (fuel + 1) next key value =
            hashmapPutFuel hash alloc fuel next key value := by
        intro next key value large
        apply ih
        calc 2 ^ 30 ≤ m.slots.length * 2 ^ (fuel + 1) := enough
          _ = 2 * m.slots.length * 2 ^ fuel := by ring
          _ ≤ next.slots.length * 2 ^ fuel := Nat.mul_le_mul_right _ large
      have grows : Grows (hashmapPutFuel hash alloc fuel : Put K V) :=
        hashmapPutFuel_grows alloc fuel
      have rehash := hashmapRehash_congr _ _ alloc grows m inner
      rw [hashmapPutFuel, rehash]
      conv_rhs => rw [hashmapPutFuel]
      cases hashmapHash hash m key with
      | some index => rfl
      | none =>
          cases step : hashmapRehash (hashmapPutFuel hash alloc fuel) alloc m with
          | mk status next =>
              cases status with
              | omem => rfl
              | ok =>
                  exact inner next key value
                    (hashmapRehash_doubles _ grows alloc m next _ (by simp) step)
              | full =>
                  exact inner next key value
                    (hashmapRehash_doubles _ grows alloc m next _ (by simp) step)
              | missing =>
                  exact inner next key value
                    (hashmapRehash_doubles _ grows alloc m next _ (by simp) step)

/-- `hashmap_put` satisfies the equation of its C body: probe, else rehash with
`hashmap_put` itself and try again. -/
theorem hashmapPut_eq (alloc : Nat → Bool) (m : HashmapMap K V) (room : 0 < m.slots.length) (key : K)
    (value : V) :
    hashmapPut hash alloc m key value =
      match hashmapHash hash m key with
      | some index => (.ok, ⟨m.slots.set index (some (key, value)), m.size + 1⟩)
      | none =>
          match hashmapRehash (hashmapPut hash alloc) alloc m with
          | (.omem, m) => (.omem, m)
          | (_, m) => hashmapPut hash alloc m key value := by
  have last : hashmapPutFuel hash alloc 31 m key value = hashmapPutFuel hash alloc 30 m key value :=
    hashmapPutFuel_succ alloc 30 m key value (by omega)
  rw [hashmapPutFuel] at last
  exact last.symm

end Doublings

/-! An iterator visits the used slots in array order, each once. -/

omit [DecidableEq K] in
theorem iterate_entries (m : HashmapMap K V) (fuel pos : Nat) (inside : pos ≤ m.slots.length)
    (enough : m.slots.length < pos + fuel) :
    iterate m fuel pos = (m.slots.drop pos).reduceOption := by
  induction fuel generalizing pos with
  | zero => omega
  | succ fuel ih =>
      rw [iterate]
      cases next : hashmapItNext m pos with
      | none => exact (firstFrom_none m.slots _ pos (by omega) next).symm
      | some found =>
          obtain ⟨index, element⟩ := found
          -- The slots that were passed over are holes.
          obtain ⟨lower, used, tail⟩ := firstFrom_some m.slots _ pos index element (by omega) next
          obtain ⟨within, -⟩ := List.getElem?_eq_some_iff.mp used
          rw [tail]
          exact congrArg _ (ih (index + 1) within (by omega))

omit [DecidableEq K] in
theorem hashmapIterate_entries (m : HashmapMap K V) : hashmapIterate m = m.entries := by
  rw [hashmapIterate, iterate_entries m _ 0 (Nat.zero_le _) (by omega), List.drop_zero]
  rfl

end Owl.Hashmap
