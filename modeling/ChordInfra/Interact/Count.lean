/-
# Counting threads

How many threads of a pool have a property of their ghost states, and what a step does to that
number: the acting thread may come to have the property or lose it, and the thread that it launches
does not have it.
-/

import ChordInfra.Interact.Pool
import Mathlib.Data.Set.Card

namespace ChordInfra
namespace Interact

variable {ι G : Type} {φ : G → Prop} {γ : ι → Option G}

/-- The threads with a property. -/
def having (φ : G → Prop) (γ : ι → Option G) : Set ι := {i | ∃ g, γ i = some g ∧ φ g}

/-- How many threads have a property. -/
noncomputable def headcount (φ : G → Prop) (γ : ι → Option G) : ℕ := (having φ γ).ncard

/-- There are finitely many threads. -/
def Few (γ : ι → Option G) : Prop := {i | γ i ≠ none}.Finite

theorem few_none : Few fun _ : ι => (none : Option G) := by
  simp [Few]

theorem Few.having (h : Few γ) (φ : G → Prop) : (having φ γ).Finite := by
  refine h.subset fun i hi => ?_
  obtain ⟨g, hg, -⟩ := hi
  exact fun hnone => absurd (hg.symm.trans hnone) (by simp)

theorem headcount_none : headcount φ (fun _ : ι => none) = 0 := by
  have hempty : Interact.having φ (fun _ : ι => none) = ∅ := by
    ext i
    simp [Interact.having]
  rw [headcount, hempty, Set.ncard_empty]

section Step

variable [DecidableEq ι] {i slot : ι} {g g' : G} {launched : Option G}

/-- The ghost states after a step. -/
abbrev stepped (γ : ι → Option G) (i : ι) (g' : G) (slot : ι) (launched : Option G) :
    ι → Option G :=
  Pool.place (Function.update γ i (some g')) slot launched

theorem Few.enter (h : Few γ) (i : ι) (g : G) : Few (Function.update γ i (some g)) := by
  refine (h.insert i).subset fun j hj => ?_
  by_cases hji : j = i
  · exact .inl hji
  · exact .inr fun hnone => hj (by rw [Function.update_of_ne hji, hnone])

theorem Few.stepped (h : Few γ) (i : ι) (g' : G) (slot : ι) (launched : Option G) :
    Few (stepped γ i g' slot launched) := by
  cases launched with
  | none => exact h.enter i g'
  | some t => exact (h.enter i g').enter slot t

/-- The slot of a thread that is launched was free. -/
theorem stepped_self (hi : γ i = some g) (hslot : ∀ t, launched = some t → γ slot = none) :
    stepped γ i g' slot launched i = some g' := by
  cases launched with
  | none => exact Function.update_self ..
  | some t =>
    have hne : i ≠ slot := by
      rintro rfl
      exact absurd (hi.symm.trans (hslot t rfl)) (by simp)
    exact (Function.update_of_ne hne ..).trans (Function.update_self ..)

/-- The other threads, and the one that is launched. -/
theorem stepped_other {j : ι} (hj : j ≠ i) (hslot : ∀ t, launched = some t → γ slot = none) :
    stepped γ i g' slot launched j = γ j ∨
      γ j = none ∧ ∃ t, launched = some t ∧ stepped γ i g' slot launched j = some t := by
  cases launched with
  | none => exact .inl (Function.update_of_ne hj ..)
  | some t =>
    by_cases hjs : j = slot
    · subst hjs
      exact .inr ⟨hslot t rfl, t, rfl, Function.update_self ..⟩
    · exact .inl ((Function.update_of_ne hjs ..).trans (Function.update_of_ne hj ..))

/-- What every thread has, when the acting thread and the one that is launched come to have it. -/
theorem forall_stepped {ψ : G → Prop} (h : ∀ j g, γ j = some g → ψ g) (hi : γ i = some g)
    (hslot : ∀ t, launched = some t → γ slot = none) (hg' : ψ g')
    (hlaunched : ∀ t, launched = some t → ψ t) {j : ι} {x : G}
    (hj : stepped γ i g' slot launched j = some x) : ψ x := by
  by_cases hji : j = i
  · subst hji
    rw [stepped_self hi hslot] at hj
    exact Option.some.inj hj ▸ hg'
  · rcases stepped_other hji hslot with hsame | ⟨-, t, ht, hnew⟩
    · exact h j x (hsame.symm.trans hj)
    · exact Option.some.inj (hnew.symm.trans hj) ▸ hlaunched t ht

/-- The acting thread apart, the same threads have the property. -/
theorem having_stepped (hslot : ∀ t, launched = some t → γ slot = none)
    (hlaunched : ∀ t, launched = some t → ¬φ t) {j : ι} (hj : j ≠ i) :
    j ∈ having φ (stepped γ i g' slot launched) ↔ j ∈ having φ γ := by
  have hother : stepped γ i g' slot launched j = γ j ∨
      γ j = none ∧ ∃ t, launched = some t ∧ stepped γ i g' slot launched j = some t :=
    stepped_other hj hslot
  rcases hother with hsame | ⟨hnone, t, ht, hnew⟩
  · simp only [having, Set.mem_ofPred_eq, hsame]
  · constructor
    · rintro ⟨x, hx, hφ⟩
      obtain rfl : t = x := Option.some.inj (hnew.symm.trans hx)
      exact absurd hφ (hlaunched t ht)
    · rintro ⟨x, hx, -⟩
      exact absurd (hnone.symm.trans hx) (by simp)

variable (hfew : Few γ) (hi : γ i = some g) (hslot : ∀ t, launched = some t → γ slot = none)
  (hlaunched : ∀ t, launched = some t → ¬φ t)

include hi hslot hlaunched

/-- A step that leaves whether the acting thread has the property. -/
theorem headcount_same (h : φ g' ↔ φ g) :
    headcount φ (stepped γ i g' slot launched) = headcount φ γ := by
  have hsame : having φ (stepped γ i g' slot launched) = having φ γ := by
    ext j
    by_cases hj : j = i
    · subst hj
      simp only [having, Set.mem_ofPred_eq, stepped_self hi hslot, hi, Option.some.injEq,
        exists_eq_left', h]
    · exact having_stepped hslot hlaunched hj
  rw [headcount, hsame, headcount]

include hfew in
/-- A step after which the acting thread has the property. -/
theorem headcount_gain (hg : ¬φ g) (hg' : φ g') :
    headcount φ (stepped γ i g' slot launched) = headcount φ γ + 1 := by
  have hnot : i ∉ having φ γ := by
    rintro ⟨x, hx, hφ⟩
    exact hg (Option.some.inj (hi.symm.trans hx) ▸ hφ)
  have hinsert : having φ (stepped γ i g' slot launched) = insert i (having φ γ) := by
    ext j
    by_cases hj : j = i
    · subst hj
      simp only [Set.mem_insert_iff, true_or, iff_true]
      exact ⟨g', stepped_self hi hslot, hg'⟩
    · rw [having_stepped hslot hlaunched hj, Set.mem_insert_iff, or_iff_right hj]
  rw [headcount, hinsert, Set.ncard_insert_of_notMem hnot (hfew.having φ), headcount]

include hfew in
/-- A step after which the acting thread has the property no longer. -/
theorem headcount_loss (hg : φ g) (hg' : ¬φ g') :
    headcount φ (stepped γ i g' slot launched) + 1 = headcount φ γ := by
  have hnot : i ∉ having φ (stepped γ i g' slot launched) := by
    rintro ⟨x, hx, hφ⟩
    rw [stepped_self hi hslot] at hx
    exact hg' (Option.some.inj hx ▸ hφ)
  have hinsert : having φ γ = insert i (having φ (stepped γ i g' slot launched)) := by
    ext j
    by_cases hj : j = i
    · subst hj
      simp only [Set.mem_insert_iff, true_or, iff_true]
      exact ⟨g, hi, hg⟩
    · rw [Set.mem_insert_iff, having_stepped hslot hlaunched hj, or_iff_right hj]
  rw [headcount, headcount, hinsert,
    Set.ncard_insert_of_notMem hnot ((hfew.stepped i g' slot launched).having φ)]

include hfew in
/-- A step after which no more threads have the property. -/
theorem headcount_le (h : φ g' → φ g) :
    headcount φ (stepped γ i g' slot launched) ≤ headcount φ γ := by
  refine Set.ncard_le_ncard (fun j hj => ?_) (hfew.having φ)
  by_cases hji : j = i
  · subst hji
    obtain ⟨x, hx, hφ⟩ := hj
    rw [stepped_self hi hslot] at hx
    exact ⟨g, hi, h (Option.some.inj hx ▸ hφ)⟩
  · exact (having_stepped hslot hlaunched hji).1 hj

end Step

/-- A thread that comes in without the property. -/
theorem headcount_enter [DecidableEq ι] {i : ι} {g : G} (hi : γ i = none) (hg : ¬φ g) :
    headcount φ (Function.update γ i (some g)) = headcount φ γ := by
  have hsame : having φ (Function.update γ i (some g)) = having φ γ := by
    ext j
    by_cases hj : j = i
    · subst hj
      simp [having, hi, hg]
    · simp only [having, Set.mem_ofPred_eq, Function.update_of_ne hj]
  rw [headcount, hsame, headcount]

end Interact
end ChordInfra
