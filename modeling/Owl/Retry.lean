import Mathlib.Data.Nat.Find
import Mathlib.Data.Nat.Basic

/-!
Trying again until it works. From a state a process moves on to another one or is
done; a rank that falls with every move bounds the number of moves. For processes
that wait on a cycle of `period` points there is the distance to the next point
with a property.
-/

namespace Owl.Retry

section Rank

variable {State : Type} (move : State → State → Prop)

inductive Moves : Nat → State → State → Prop where
  | here (state : State) : Moves 0 state state
  | again {count : Nat} {state next last : State} (first : move state next)
      (rest : Moves count next last) : Moves (count + 1) state last

theorem moves_of_rank {done : State → Prop} {rank : State → Nat}
    (progress : ∀ state, done state ∨ ∃ next, move state next ∧ rank next < rank state)
    (state : State) :
    ∃ count last, count ≤ rank state ∧ Moves move count state last ∧ done last := by
  induction bound : rank state using Nat.strong_induction_on generalizing state with
  | _ bound' ih =>
      rcases progress state with finished | ⟨next, first, less⟩
      · exact ⟨0, state, Nat.zero_le _, .here state, finished⟩
      · obtain ⟨count, last, few, rest, finished⟩ := ih (rank next) (bound ▸ less) next rfl
        exact ⟨count + 1, last, by omega, .again first rest, finished⟩

end Rank

section Cycle

variable (period : Nat) (property : Nat → Prop)

def Somewhere : Prop := ∃ point, point < period ∧ property point

variable {period property}

/-- The next point with the property is less than a whole cycle away. -/
theorem Somewhere.ahead (somewhere : Somewhere period property) (start : Nat) :
    ∃ steps, steps < period ∧ property ((start + steps) % period) := by
  obtain ⟨point, inside, holds⟩ := somewhere
  have positive : 0 < period := by omega
  refine ⟨(point + (period - start % period)) % period, Nat.mod_lt _ positive, ?_⟩
  have within := Nat.mod_lt start positive
  have arrives : (start + (point + (period - start % period)) % period) % period = point := by
    rw [Nat.add_mod_mod, ← Nat.mod_add_mod,
      show start % period + (point + (period - start % period)) = point + period by omega,
      Nat.add_mod_right, Nat.mod_eq_of_lt inside]
  rw [arrives]
  exact holds

theorem Somewhere.exists_ahead (somewhere : Somewhere period property) (start : Nat) :
    ∃ steps, property ((start + steps) % period) := by
  obtain ⟨steps, -, holds⟩ := somewhere.ahead start
  exact ⟨steps, holds⟩

variable [DecidablePred property]

def distance (somewhere : Somewhere period property) (start : Nat) : Nat :=
  Nat.find (somewhere.exists_ahead start)

theorem distance_le (somewhere : Somewhere period property) (start steps : Nat)
    (holds : property ((start + steps) % period)) : distance somewhere start ≤ steps :=
  Nat.find_min' _ holds

theorem distance_lt (somewhere : Somewhere period property) (start : Nat) :
    distance somewhere start < period := by
  obtain ⟨steps, less, holds⟩ := somewhere.ahead start
  exact Nat.lt_of_le_of_lt (distance_le somewhere start steps holds) less

/-- A step from a point without the property brings the next one closer. -/
theorem distance_step (somewhere : Somewhere period property) (start : Nat)
    (lacks : ¬ property (start % period)) :
    distance somewhere ((start + 1) % period) + 1 = distance somewhere start := by
  have spec : property ((start + distance somewhere start) % period) :=
    Nat.find_spec (somewhere.exists_ahead start)
  obtain ⟨steps, enough⟩ : ∃ steps, distance somewhere start = steps + 1 := by
    refine Nat.exists_eq_succ_of_ne_zero ?_
    intro zero
    rw [zero, Nat.add_zero] at spec
    exact lacks spec
  have shift : ∀ steps, ((start + 1) % period + steps) % period = (start + (steps + 1)) % period := by
    intro steps
    rw [Nat.mod_add_mod, Nat.add_assoc, Nat.add_comm 1]
  have least : distance somewhere ((start + 1) % period) ≤ steps := by
    refine distance_le somewhere _ steps ?_
    rw [shift, ← enough]
    exact spec
  have most : distance somewhere start ≤ distance somewhere ((start + 1) % period) + 1 := by
    refine distance_le somewhere start _ ?_
    rw [← shift]
    exact Nat.find_spec (somewhere.exists_ahead ((start + 1) % period))
  omega

end Cycle

end Owl.Retry
