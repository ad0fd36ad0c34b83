import Mathlib.Data.List.ReduceOption
import Mathlib.Data.List.Perm.Basic
import Mathlib.Data.List.Nodup

/-!
Arrays with holes, as open addressing uses them. `reduceOption` lists the
used slots in array order; setting one slot adds, drops or replaces one
element of that list up to permutation. `findFrom` is a walk over a circular
window of bounded length, and `firstFrom` the search for the next used slot
that an iterator makes.
-/

namespace Owl.Slots

variable {α κ : Type}

theorem reduceOption_split (slots : List (Option α)) (index : Nat) (slot : Option α)
    (found : slots[index]? = some slot) :
    slots.reduceOption =
      (slots.take index).reduceOption ++ slot.toList ++ (slots.drop (index + 1)).reduceOption := by
  obtain ⟨inside, value⟩ := List.getElem?_eq_some_iff.mp found
  have split : slots = slots.take index ++ slot :: slots.drop (index + 1) := by
    rw [← value, List.getElem_cons_drop, List.take_append_drop]
  conv_lhs => rw [split]
  cases slot <;> simp [List.reduceOption_append]

theorem reduceOption_set (slots : List (Option α)) (index : Nat) (slot : Option α)
    (inside : index < slots.length) :
    (slots.set index slot).reduceOption =
      (slots.take index).reduceOption ++ slot.toList ++ (slots.drop (index + 1)).reduceOption := by
  have found : (slots.set index slot)[index]? = some slot := by simp [inside]
  rw [reduceOption_split _ index slot found]
  congr 2
  · rw [List.take_set_of_le (Nat.le_refl index)]
  · rw [List.drop_set_of_lt (Nat.lt_succ_self index)]

/-- Filling a hole adds one element. -/
theorem fill_perm (slots : List (Option α)) (index : Nat) (item : α)
    (hole : slots[index]? = some none) :
    ((slots.set index (some item)).reduceOption).Perm (item :: slots.reduceOption) := by
  obtain ⟨inside, _⟩ := List.getElem?_eq_some_iff.mp hole
  rw [reduceOption_set slots index _ inside, reduceOption_split slots index none hole]
  simp

/-- Clearing a used slot drops its element. -/
theorem clear_perm (slots : List (Option α)) (index : Nat) (item : α)
    (used : slots[index]? = some (some item)) :
    slots.reduceOption.Perm (item :: (slots.set index none).reduceOption) := by
  obtain ⟨inside, _⟩ := List.getElem?_eq_some_iff.mp used
  rw [reduceOption_set slots index _ inside, reduceOption_split slots index _ used]
  simp

theorem mem_reduceOption_iff_get (slots : List (Option α)) (item : α) :
    item ∈ slots.reduceOption ↔ ∃ index : Nat, slots[index]? = some (some item) := by
  rw [List.reduceOption_mem_iff, List.mem_iff_getElem?]

/-- With distinct keys the slot of a key is determined. -/
theorem index_unique (slots : List (Option α)) (key : α → κ)
    (distinct : (slots.reduceOption.map key).Nodup) (i j : Nat) (a b : α)
    (first : slots[i]? = some (some a)) (second : slots[j]? = some (some b))
    (same : key a = key b) : i = j := by
  induction slots generalizing i j with
  | nil => simp at first
  | cons slot rest ih =>
      have tailDistinct : (rest.reduceOption.map key).Nodup := by
        cases slot with
        | none => simpa using distinct
        | some item =>
            rw [List.reduceOption_cons_of_some, List.map_cons] at distinct
            exact (List.nodup_cons.mp distinct).2
      have headFresh : ∀ item, slot = some item → ∀ (other : α) (index : Nat),
          rest[index]? = some (some other) → key item ≠ key other := by
        rintro item rfl other index used equal
        rw [List.reduceOption_cons_of_some, List.map_cons] at distinct
        apply (List.nodup_cons.mp distinct).1
        rw [equal]
        exact List.mem_map_of_mem ((mem_reduceOption_iff_get rest other).mpr ⟨index, used⟩)
      cases i with
      | zero =>
          cases j with
          | zero => rfl
          | succ j =>
              have head : slot = some a := by simpa using first
              exact absurd same (headFresh a head b j (by simpa using second))
      | succ i =>
          cases j with
          | zero =>
              have head : slot = some b := by simpa using second
              exact absurd same.symm (headFresh b head a i (by simpa using first))
          | succ j =>
              exact congrArg Nat.succ
                (ih tailDistinct i j (by simpa using first) (by simpa using second))

/-- At most `count` slots from `curr` on, in circular order, up to the first
one that passes the test. -/
def findFrom (test : Option α → Bool) (slots : List (Option α)) : Nat → Nat → Option Nat
  | 0, _ => none
  | count + 1, curr =>
      if test (slots.getD curr none) then some curr
      else findFrom test slots count ((curr + 1) % slots.length)

theorem window_step (curr d n : Nat) : ((curr + 1) % n + d) % n = (curr + (d + 1)) % n := by
  rw [Nat.mod_add_mod, Nat.add_assoc, Nat.add_comm 1 d]

theorem findFrom_hit (test : Option α → Bool) (slots : List (Option α)) (count curr index : Nat)
    (found : findFrom test slots count curr = some index) : test (slots.getD index none) = true := by
  induction count generalizing curr with
  | zero => cases found
  | succ count ih =>
      rw [findFrom] at found
      split at found
      case isTrue hit =>
        cases found
        exact hit
      case isFalse => exact ih _ found

theorem findFrom_some (test : Option α → Bool) (slots : List (Option α)) (count curr index : Nat)
    (start : curr < slots.length) (found : findFrom test slots count curr = some index) :
    index < slots.length ∧ test (slots.getD index none) = true ∧
      ∃ d < count, index = (curr + d) % slots.length := by
  have hit := findFrom_hit test slots count curr index found
  induction count generalizing curr with
  | zero => simp [findFrom] at found
  | succ count ih =>
      rw [findFrom] at found
      split at found
      · cases found
        exact ⟨start, hit, 0, Nat.succ_pos count, (Nat.mod_eq_of_lt start).symm⟩
      · have next : (curr + 1) % slots.length < slots.length :=
          Nat.mod_lt _ (Nat.zero_lt_of_lt start)
        obtain ⟨inside, -, d, bound, place⟩ := ih _ next found
        refine ⟨inside, hit, d + 1, Nat.succ_lt_succ bound, ?_⟩
        rw [place, window_step]

theorem findFrom_none (test : Option α → Bool) (slots : List (Option α)) (count curr : Nat)
    (start : curr < slots.length) (absent : findFrom test slots count curr = none) (d : Nat)
    (bound : d < count) : test (slots.getD ((curr + d) % slots.length) none) = false := by
  induction count generalizing curr d with
  | zero => omega
  | succ count ih =>
      rw [findFrom] at absent
      split at absent
      case isTrue => cases absent
      case isFalse miss =>
        cases d with
        | zero => simpa [Nat.mod_eq_of_lt start] using miss
        | succ d =>
            have next : (curr + 1) % slots.length < slots.length :=
              Nat.mod_lt _ (Nat.zero_lt_of_lt start)
            rw [← window_step]
            exact ih _ next absent d (Nat.lt_of_succ_lt_succ bound)

/-- The walk passes over what fails the test. -/
theorem findFrom_first (test : Option α → Bool) (slots : List (Option α)) (count curr index : Nat)
    (start : curr < slots.length) (found : findFrom test slots count curr = some index) :
    ∃ d < count, index = (curr + d) % slots.length ∧
      ∀ e < d, test (slots.getD ((curr + e) % slots.length) none) = false := by
  induction count generalizing curr with
  | zero => cases found
  | succ count ih =>
      rw [findFrom] at found
      split at found
      case isTrue =>
        cases found
        exact ⟨0, Nat.succ_pos count, (Nat.mod_eq_of_lt start).symm, fun e never => by omega⟩
      case isFalse miss =>
        have next : (curr + 1) % slots.length < slots.length :=
          Nat.mod_lt _ (Nat.zero_lt_of_lt start)
        obtain ⟨d, bound, place, before⟩ := ih _ next found
        refine ⟨d + 1, Nat.succ_lt_succ bound, by rw [place, window_step], ?_⟩
        intro e early
        cases e with
        | zero => simpa [Nat.mod_eq_of_lt start] using miss
        | succ e =>
            rw [← window_step]
            exact before e (Nat.lt_of_succ_lt_succ early)

theorem findFrom_map (image : α → κ) (test : Option κ → Bool) (slots : List (Option α))
    (count curr : Nat) : findFrom test (slots.map (Option.map image)) count curr =
      findFrom (test ∘ Option.map image) slots count curr := by
  have read : ∀ index : Nat, (slots.map (Option.map image)).getD index none =
      (slots.getD index none).map image := by
    intro index
    rw [List.getD_eq_getElem?_getD, List.getD_eq_getElem?_getD, List.getElem?_map]
    cases slots[index]? <;> rfl
  induction count generalizing curr with
  | zero => rfl
  | succ count ih => rw [findFrom, findFrom, read, List.length_map, ih, Function.comp_apply]

theorem getD_some_iff (slots : List (Option α)) (index : Nat) (item : α) :
    slots.getD index none = some item ↔ slots[index]? = some (some item) := by
  rw [List.getD_eq_getElem?_getD]
  cases slots[index]? <;> simp

theorem getD_none_inside (slots : List (Option α)) (index : Nat) (inside : index < slots.length)
    (hole : slots.getD index none = none) : slots[index]? = some none := by
  rw [List.getD_eq_getElem?_getD, List.getElem?_eq_getElem inside] at hole
  rw [List.getElem?_eq_getElem inside]
  simpa using hole

def firstFrom (slots : List (Option α)) : Nat → Nat → Option (Nat × α)
  | 0, _ => none
  | count + 1, pos =>
      match slots.getD pos none with
      | some item => some (pos, item)
      | none => firstFrom slots count (pos + 1)

theorem drop_cons (slots : List (Option α)) (pos : Nat) (inside : pos < slots.length) :
    slots.drop pos = slots.getD pos none :: slots.drop (pos + 1) := by
  rw [List.getD_eq_getElem?_getD, List.getElem?_eq_getElem inside, Option.getD_some,
    List.getElem_cons_drop]

/-- An iterator at `pos` has exactly the used slots from `pos` on before it. -/
theorem firstFrom_none (slots : List (Option α)) (count pos : Nat)
    (whole : pos + count = slots.length) (absent : firstFrom slots count pos = none) :
    (slots.drop pos).reduceOption = [] := by
  induction count generalizing pos with
  | zero => rw [List.drop_of_length_le (by omega), List.reduceOption_nil]
  | succ count ih =>
      rw [firstFrom] at absent
      rw [drop_cons slots pos (by omega)]
      cases slot : slots.getD pos none with
      | some used => rw [slot] at absent; cases absent
      | none =>
          rw [slot] at absent
          rw [List.reduceOption_cons_of_none]
          exact ih (pos + 1) (by omega) absent

theorem firstFrom_some (slots : List (Option α)) (count pos index : Nat) (item : α)
    (whole : pos + count = slots.length)
    (found : firstFrom slots count pos = some (index, item)) :
    pos ≤ index ∧ slots[index]? = some (some item) ∧
      (slots.drop pos).reduceOption = item :: (slots.drop (index + 1)).reduceOption := by
  induction count generalizing pos with
  | zero => simp [firstFrom] at found
  | succ count ih =>
      rw [firstFrom] at found
      rw [drop_cons slots pos (by omega)]
      cases slot : slots.getD pos none with
      | some used =>
          rw [slot] at found
          cases found
          exact ⟨Nat.le_refl _, (getD_some_iff slots index item).mp slot,
            List.reduceOption_cons_of_some item _⟩
      | none =>
          rw [slot] at found
          obtain ⟨lower, used, tail⟩ := ih (pos + 1) (by omega) found
          refine ⟨by omega, used, ?_⟩
          rw [List.reduceOption_cons_of_none, tail]

end Owl.Slots
