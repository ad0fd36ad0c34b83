import Mathlib.Order.Lattice
import Mathlib.Data.List.Induction

/-!
A scan with a running best. Items that are not admitted are skipped; an
admitted one replaces the best so far when its key is strictly larger. The
start value competes with its key but is not an item: `none` means that no
admitted item beat it.
-/

namespace Owl.Scan

variable {α β κ : Type} [LinearOrder κ]

def step (key : α → κ) (offer : β → Option α) (start : α) (best : Option α) (item : β) :
    Option α :=
  match offer item with
  | none => best
  | some candidate => if key (best.getD start) < key candidate then some candidate else best

def scan (key : α → κ) (offer : β → Option α) (start : α) (items : List β) : Option α :=
  items.foldl (step key offer start) none

structure Best (key : α → κ) (offer : β → Option α) (start : α) (items : List β)
    (best : Option α) : Prop where
  above : ∀ winner, best = some winner → key start < key winner
  source : ∀ winner, best = some winner → ∃ item ∈ items, offer item = some winner
  upper : ∀ item ∈ items, ∀ candidate, offer item = some candidate →
    key candidate ≤ key (best.getD start)

theorem best_nil (key : α → κ) (offer : β → Option α) (start : α) :
    Best key offer start [] none where
  above := by intro winner absent; cases absent
  source := by intro winner absent; cases absent
  upper := by intro item member; cases member

theorem best_step (key : α → κ) (offer : β → Option α) (start : α) (items : List β)
    (best : Option α) (item : β) (found : Best key offer start items best) :
    Best key offer start (items ++ [item]) (step key offer start best item) := by
  -- The running best never falls below the start value.
  have baseline : key start ≤ key (best.getD start) := by
    cases best with
    | none => exact le_refl _
    | some winner => exact le_of_lt (found.above winner rfl)
  have kept : ∀ winner, best = some winner → ∃ other ∈ items ++ [item], offer other = some winner := by
    intro winner same
    obtain ⟨other, member, admitted⟩ := found.source winner same
    exact ⟨other, List.mem_append_left _ member, admitted⟩
  cases admitted : offer item with
  | none =>
      simp only [step, admitted]
      refine ⟨found.above, kept, ?_⟩
      intro other member candidate source
      rcases List.mem_append.mp member with old | new
      · exact found.upper other old candidate source
      · rw [List.mem_singleton.mp new, admitted] at source
        cases source
  | some candidate =>
      by_cases better : key (best.getD start) < key candidate
      · simp only [step, admitted, better, ↓reduceIte]
        refine ⟨?_, ?_, ?_⟩
        · rintro winner ⟨⟩
          exact lt_of_le_of_lt baseline better
        · rintro winner ⟨⟩
          exact ⟨item, List.mem_append_right _ List.mem_cons_self, admitted⟩
        · intro other member challenger source
          rcases List.mem_append.mp member with old | new
          · exact le_of_lt (lt_of_le_of_lt (found.upper other old challenger source) better)
          · rw [List.mem_singleton.mp new, admitted] at source
            cases source
            exact le_refl _
      · simp only [step, admitted, better, ↓reduceIte]
        refine ⟨found.above, kept, ?_⟩
        intro other member challenger source
        rcases List.mem_append.mp member with old | new
        · exact found.upper other old challenger source
        · rw [List.mem_singleton.mp new, admitted] at source
          cases source
          exact not_lt.mp better

theorem scan_best (key : α → κ) (offer : β → Option α) (start : α) (items : List β) :
    Best key offer start items (scan key offer start items) := by
  -- From the back, since a fold over a snoc is a fold and one step.
  induction items using List.reverseRecOn with
  | nil => exact best_nil key offer start
  | append_singleton items item ih =>
      rw [scan, List.foldl_append]
      exact best_step key offer start items _ item ih

end Owl.Scan
