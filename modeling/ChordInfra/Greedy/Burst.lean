/-
# Greedy choices

A choice takes one of the candidates with the best score and lowers its score by a fixed
cost; a burst is a sequence of choices.  Ties are broken in any way.

However long the burst, no candidate ends above one that was chosen by more than the cost
(`Burst.balanced`), so candidates that start with the same score are chosen equally often, up to
one choice (`Burst.count_le`).
-/

import Mathlib.Algebra.Order.Group.Defs
import Mathlib.Algebra.Group.Basic
import Mathlib.Algebra.Order.Monoid.Unbundled.Pow
import Mathlib.Data.List.Count
import Mathlib.Logic.Function.Basic
import Mathlib.Tactic.Abel

namespace ChordInfra
namespace Greedy

variable {ι α : Type} [DecidableEq ι] [AddCommGroup α] [LinearOrder α]

/-- The candidate `i` has the best score of those in `l`. -/
def Best (l : List ι) (f : ι → α) (i : ι) : Prop := i ∈ l ∧ ∀ j ∈ l, f j ≤ f i

/-- The scores after `i` was chosen. -/
def charged (cost : α) (f : ι → α) (i : ι) : ι → α := Function.update f i (f i - cost)

/-- A sequence of choices, from the scores before it to those after it. -/
inductive Burst (l : List ι) (cost : α) : (ι → α) → List ι → (ι → α) → Prop
  | done (f : ι → α) : Burst l cost f [] f
  | choose {f g : ι → α} {i : ι} {chosen : List ι} (hi : Best l f i)
      (hrest : Burst l cost (charged cost f i) chosen g) : Burst l cost f (i :: chosen) g

namespace Burst

variable {l : List ι} {cost : α} {f g : ι → α} {chosen : List ι} {i j : ι}

/-- A score is lowered once for each time its candidate is chosen. -/
theorem score_eq (h : Burst l cost f chosen g) (i : ι) : g i = f i - chosen.count i • cost := by
  induction h with
  | done f => simp
  | @choose f g k chosen hk hrest ih =>
    rw [ih, List.count_cons]
    unfold charged
    by_cases hik : i = k
    · subst hik
      rw [Function.update_self, if_pos (beq_self_eq_true i), succ_nsmul]
      abel
    · rw [Function.update_of_ne hik, if_neg (by simpa using Ne.symm hik), Nat.add_zero]

theorem mem (h : Burst l cost f chosen g) (hj : j ∈ chosen) : j ∈ l := by
  induction h with
  | done f => cases hj
  | choose hk _ ih =>
    rcases List.mem_cons.1 hj with rfl | hj
    · exact hk.1
    · exact ih hj

variable [IsOrderedAddMonoid α]

theorem score_le (h : Burst l cost f chosen g) (hcost : 0 ≤ cost) (i : ι) : g i ≤ f i := by
  rw [h.score_eq i]
  exact sub_le_self _ (nsmul_nonneg hcost _)

/-- **No candidate ends above one that was chosen by more than the cost of a choice**: when it was
chosen for the last time it was the best, and scores only fall. -/
theorem balanced (h : Burst l cost f chosen g) (hcost : 0 ≤ cost) (hi : i ∈ l) (hj : j ∈ chosen) :
    g i ≤ g j + cost := by
  induction h with
  | done f => cases hj
  | @choose f g k chosen hk hrest ih =>
    by_cases hmem : j ∈ chosen
    · exact ih hmem
    · obtain rfl : j = k := (List.mem_cons.1 hj).resolve_right hmem
      have hlast : g j = f j - cost := by
        rw [hrest.score_eq j, List.count_eq_zero.2 hmem, zero_nsmul, sub_zero]
        exact Function.update_self ..
      have hfell : charged cost f j i ≤ f i := by
        unfold charged
        by_cases hij : i = j
        · subst hij
          rw [Function.update_self]
          exact sub_le_self _ hcost
        · rw [Function.update_of_ne hij]
      calc g i ≤ charged cost f j i := hrest.score_le hcost i
        _ ≤ f i := hfell
        _ ≤ f j := hk.2 i hi
        _ = g j + cost := by rw [hlast, sub_add_cancel]

/-- **Candidates that start with the same score are chosen equally often**, up to one choice. -/
theorem count_le (h : Burst l cost f chosen g) (hcost : 0 < cost) (hi : i ∈ l) (hf : f i = f j) :
    chosen.count j ≤ chosen.count i + 1 := by
  by_cases hj : j ∈ chosen
  · have hle := h.balanced hcost.le hi hj
    rw [h.score_eq i, h.score_eq j, hf, sub_add, sub_le_sub_iff_left] at hle
    rw [← nsmul_le_nsmul_iff_left hcost, succ_nsmul]
    exact sub_le_iff_le_add.1 hle
  · rw [List.count_eq_zero.2 hj]
    exact Nat.zero_le _

end Burst

end Greedy
end ChordInfra
