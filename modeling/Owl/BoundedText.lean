import Mathlib.Data.List.Basic
import Mathlib.Data.List.TakeDrop

/-!
Text that is written piece by piece into a bounded part of a memory, each piece
cut off at the bound and closed with a terminator over which the next piece
starts. After every piece the part holds the beginning of all that was written,
as if it had been written at once; pieces behind the bound change nothing.
-/

namespace Owl.BoundedText

variable {α : Type} (nul : α)

def overwrite (memory : List α) (start : Nat) (items : List α) : Option (List α) :=
  if start + items.length ≤ memory.length then
    some (memory.take start ++ items ++ memory.drop (start + items.length))
  else none

/-- The memory behind whose `start` the first `len` elements show `text`. -/
def shown (memory : List α) (start len : Nat) (text : List α) : List α :=
  if text = [] then memory
  else memory.take start ++ (text.take (len - 1) ++ [nul]) ++
    memory.drop (start + (text.take (len - 1)).length + 1)

section Pieces

variable {memory : List α} {start len : Nat}

theorem shown_of_ne_nil {text : List α} (some_text : text ≠ []) :
    shown nul memory start len text = memory.take start ++ (text.take (len - 1) ++ [nul]) ++
      memory.drop (start + (text.take (len - 1)).length + 1) :=
  if_neg some_text

/-- Before the bound the text so far is whole, and only its terminator is written over. -/
theorem shown_inside (room : start + len ≤ memory.length) {done : List α} (inside : done.length < len) :
    (shown nul memory start len done).length = memory.length ∧
      (shown nul memory start len done).take (start + done.length) = memory.take start ++ done ∧
      ∀ count, 1 ≤ count → (shown nul memory start len done).drop (start + done.length + count) =
        memory.drop (start + done.length + count) := by
  by_cases empty : done = []
  · subst empty
    simp [shown]
  · have whole : done.take (len - 1) = done := List.take_of_length_le (by omega)
    have before : (memory.take start).length = start := by
      rw [List.length_take]
      omega
    have front : (memory.take start ++ done).length = start + done.length := by
      rw [List.length_append, before]
    rw [shown_of_ne_nil nul empty, whole, ← List.append_assoc (memory.take start)]
    refine ⟨?_, ?_, ?_⟩
    · simp only [List.length_append, List.length_singleton, List.length_drop, before]
      omega
    · rw [List.append_assoc, ← front, List.take_left]
    · intro count positive
      have closed : (memory.take start ++ done ++ [nul]).length = start + done.length + 1 := by
        rw [List.length_append, front, List.length_singleton]
      obtain ⟨more, rfl⟩ := Nat.exists_eq_add_of_le positive
      rw [← Nat.add_assoc, ← List.drop_drop, ← closed, List.drop_left, closed, List.drop_drop]

/-- A piece that starts before the bound. -/
theorem overwrite_shown (room : start + len ≤ memory.length) {done text : List α}
    (inside : done.length < len) (some_text : text ≠ []) :
    overwrite (shown nul memory start len done) (start + done.length)
        (text.take (len - done.length - 1) ++ [nul]) =
      some (shown nul memory start len (done ++ text)) := by
  obtain ⟨length, front, back⟩ := shown_inside nul room inside
  have cut : (done ++ text).take (len - 1) = done ++ text.take (len - done.length - 1) := by
    rw [List.take_append, List.take_of_length_le (by omega)]
    congr 2
    omega
  have fits : (text.take (len - done.length - 1) ++ [nul]).length ≤ len - done.length := by
    rw [List.length_append, List.length_take, List.length_singleton]
    omega
  have both : done ++ text ≠ [] := by simp [some_text]
  rw [overwrite, if_pos (by omega), front, back _ (by simp), shown_of_ne_nil nul both, cut]
  simp only [List.length_append, List.length_singleton, List.append_assoc, Nat.add_assoc]

/-- A piece that starts at the bound or behind it. -/
theorem shown_beyond (positive : 1 ≤ len) {done : List α} (beyond : len ≤ done.length)
    (text : List α) :
    shown nul memory start len (done ++ text) = shown nul memory start len done := by
  have some_done : done ≠ [] := by
    rintro rfl
    simp only [List.length_nil] at beyond
    omega
  rw [shown_of_ne_nil nul some_done, shown_of_ne_nil nul (by simp [some_done]),
    List.take_append_of_le_length (by omega)]

/-- Nothing in front of the part or behind it changes. -/
theorem shown_outside (room : start + len ≤ memory.length) (positive : 1 ≤ len) (text : List α) :
    (shown nul memory start len text).take start = memory.take start ∧
      (shown nul memory start len text).drop (start + len) = memory.drop (start + len) := by
  by_cases empty : text = []
  · subst empty
    simp [shown]
  · have before : (memory.take start).length = start := by
      rw [List.length_take]
      omega
    have cut : (text.take (len - 1)).length ≤ len - 1 := by
      rw [List.length_take]
      omega
    have closed : (memory.take start ++ (text.take (len - 1) ++ [nul])).length =
        start + (text.take (len - 1)).length + 1 := by
      rw [List.length_append, before, List.length_append, List.length_singleton, Nat.add_assoc]
    rw [shown_of_ne_nil nul empty]
    constructor
    · rw [List.append_assoc, List.take_append_of_le_length (by omega), List.take_take,
        Nat.min_self]
    · obtain ⟨gap, more⟩ := Nat.exists_eq_add_of_le
        (show start + (text.take (len - 1)).length + 1 ≤ start + len by omega)
      rw [more, ← List.drop_drop, ← closed, List.drop_left, closed, List.drop_drop]

end Pieces

end Owl.BoundedText
