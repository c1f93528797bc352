/-
# Infinite runs

A run is a function on the naturals.  What a fair run is depends on the system;
the facts here do not.  A measure that never rises is level from some point on
(`eventually_const`), a value that changes later changes first somewhere
(`exists_first_change`), and where each of finitely many parties can always take
a turn there is a run in which each takes one again and again (`exists_turns`).
-/

import Mathlib.Data.List.Basic
import Mathlib.Data.Nat.Find
import Mathlib.Order.Monotone.Basic
import Mathlib.Order.WellFounded
import Mathlib.Data.Set.Operations

namespace ChordInfra
namespace Fair

/-- **A measure that never rises is level from some point on.** -/
theorem eventually_const {g : ℕ → ℕ} (h : ∀ t, g (t + 1) ≤ g t) : ∃ T, ∀ t, T ≤ t → g t = g T := by
  have hanti : Antitone g := antitone_nat_of_succ_le h
  obtain ⟨v, ⟨T, rfl⟩, hmin⟩ :=
    WellFounded.has_min (wellFounded_lt (α := ℕ)) (Set.range g) ⟨g 0, 0, rfl⟩
  exact ⟨T, fun t ht => Nat.le_antisymm (hanti ht) (Nat.not_lt.1 (hmin (g t) ⟨t, rfl⟩))⟩

/-- A value that changes at a later step has changed first at some step. -/
theorem exists_first_change {α : Type*} {g : ℕ → α} {t u : ℕ} (htu : t ≤ u) (h : g (u + 1) ≠ g u) :
    ∃ v, t ≤ v ∧ g v = g t ∧ g (v + 1) ≠ g v := by
  classical
  have hex : ∃ v, t ≤ v ∧ g (v + 1) ≠ g v := ⟨u, htu, h⟩
  obtain ⟨hle, hchange⟩ := Nat.find_spec hex
  refine ⟨Nat.find hex, hle, ?_, hchange⟩
  have hsame : ∀ w, t ≤ w → w ≤ Nat.find hex → g w = g t := by
    intro w hw
    induction w, hw using Nat.le_induction with
    | base => exact fun _ => rfl
    | succ w hw ih =>
      intro hfirst
      have hkeep : g (w + 1) = g w := by
        by_contra hne
        exact Nat.find_min hex hfirst ⟨hw, hne⟩
      exact hkeep.trans (ih (by omega))
  exact hsame _ hle le_rfl

/-- What holds of each member of a list from some point on holds of all of them together. -/
theorem eventually_all {ι : Type*} {P : ι → ℕ → Prop} (l : List ι)
    (h : ∀ i ∈ l, ∃ T, ∀ t, T ≤ t → P i t) : ∃ T, ∀ t, T ≤ t → ∀ i ∈ l, P i t := by
  induction l with
  | nil => exact ⟨0, fun _ _ _ hi => absurd hi List.not_mem_nil⟩
  | cons i l ih =>
    obtain ⟨T, hT⟩ := h i List.mem_cons_self
    obtain ⟨T', hT'⟩ := ih fun j hj => h j (List.mem_cons_of_mem _ hj)
    refine ⟨max T T', fun t ht j hj => ?_⟩
    rcases List.mem_cons.1 hj with rfl | hj
    · exact hT t ((le_max_left ..).trans ht)
    · exact hT' t ((le_max_right ..).trans ht) j hj

/-- **Everybody gets a turn again and again** in some run, where everybody can
be given one in every state that satisfies `Inv`. -/
theorem exists_turns {S ι : Type*} (Inv : S → Prop) (turn : ι → S → S → Prop) {l : List ι}
    (hturn : ∀ s, Inv s → ∀ i ∈ l, ∃ s', Inv s' ∧ turn i s s') (hl : l ≠ []) {s₀ : S}
    (h₀ : Inv s₀) :
    ∃ f : ℕ → S, f 0 = s₀ ∧ (∀ t, ∃ i ∈ l, turn i (f t) (f (t + 1))) ∧
      ∀ i ∈ l, ∀ t, ∃ u, t ≤ u ∧ turn i (f u) (f (u + 1)) := by
  classical
  have hpos : 0 < l.length := List.length_pos_iff.2 hl
  -- in turn `t` it is the turn of the member at place `t` modulo the length
  let who (t : ℕ) : ι := l.get ⟨t % l.length, Nat.mod_lt t hpos⟩
  have hwho : ∀ t, who t ∈ l := fun t => List.get_mem ..
  choose! next hnext using hturn
  let f : ℕ → S := fun t => Nat.rec s₀ (fun t s => next s (who t)) t
  have hinv : ∀ t, Inv (f t) := by
    intro t
    induction t with
    | zero => exact h₀
    | succ t ih => exact (hnext (f t) ih (who t) (hwho t)).1
  have hstep : ∀ t, turn (who t) (f t) (f (t + 1)) := fun t =>
    (hnext (f t) (hinv t) (who t) (hwho t)).2
  refine ⟨f, rfl, fun t => ⟨who t, hwho t, hstep t⟩, fun i hi t => ?_⟩
  obtain ⟨p, hp, rfl⟩ := List.getElem_of_mem hi
  refine ⟨t * l.length + p, Nat.le_add_right_of_le (Nat.le_mul_of_pos_right t hpos), ?_⟩
  have hplace : who (t * l.length + p) = l[p] := by
    have hmod : (t * l.length + p) % l.length = p := by
      rw [Nat.mul_comm, Nat.mul_add_mod, Nat.mod_eq_of_lt hp]
    simp only [who, hmod, List.get_eq_getElem]
  rw [← hplace]
  exact hstep _

end Fair
end ChordInfra
