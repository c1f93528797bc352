/-
# Tokens that threads hold

A shared list of tokens and threads of which each holds at most one: the list
has exactly the tokens that are held, and no token is held twice
(`Holding`).  A thread may take a token that is not in the list, put its token
back, or pass it on to another thread; each keeps the bookkeeping right, and
there are never more holders than tokens (`Holding.ncard_le`).
-/

import Mathlib.Data.Set.Card
import Mathlib.Logic.Function.Basic

namespace ChordInfra
namespace Interact

variable {ι κ : Type} {held : ι → Option κ} {tokens : List κ} {i j : ι} {t : κ}

/-- The tokens are those that are held, each by one thread. -/
structure Holding (held : ι → Option κ) (tokens : List κ) : Prop where
  nodup : tokens.Nodup
  mem_iff : ∀ t, t ∈ tokens ↔ ∃ i, held i = some t
  unique : ∀ i j t, held i = some t → held j = some t → i = j

theorem Holding.none : Holding (fun _ : ι => (none : Option κ)) [] :=
  ⟨List.nodup_nil, fun t => by simp, fun i j t h => by cases h⟩

theorem Holding.mem (h : Holding held tokens) (hi : held i = some t) : t ∈ tokens :=
  (h.mem_iff t).2 ⟨i, hi⟩

/-- Some of the threads that hold a token are no more than there are tokens. -/
theorem Holding.ncard_le [DecidableEq κ] (h : Holding held tokens) {s : Set ι}
    (hs : ∀ i ∈ s, (held i).isSome) : s.Finite ∧ s.ncard ≤ tokens.length := by
  have hmem : Set.MapsTo held s ((tokens.map some).toFinset : Set (Option κ)) := by
    intro i hi
    obtain ⟨t, ht⟩ := Option.isSome_iff_exists.1 (hs i hi)
    rw [ht, Finset.mem_coe, List.mem_toFinset]
    exact List.mem_map_of_mem (h.mem ht)
  have hinj : Set.InjOn held s := by
    intro i hi j _ hij
    obtain ⟨t, ht⟩ := Option.isSome_iff_exists.1 (hs i hi)
    exact h.unique i j t ht (hij ▸ ht)
  refine ⟨Set.Finite.of_injOn hmem hinj (Finset.finite_toSet _), ?_⟩
  calc s.ncard ≤ ((tokens.map some).toFinset : Set (Option κ)).ncard :=
        Set.ncard_le_ncard_of_injOn held hmem hinj (Finset.finite_toSet _)
    _ = (tokens.map some).toFinset.card := Set.ncard_coe_finset _
    _ ≤ (tokens.map some).length := List.toFinset_card_le _
    _ = tokens.length := List.length_map _

variable [DecidableEq ι]

/-- A thread takes a token that nobody holds. -/
theorem Holding.take (h : Holding held tokens) (hi : held i = Option.none) (ht : t ∉ tokens) :
    Holding (Function.update held i (some t)) (t :: tokens) := by
  have hother : ∀ j, j ≠ i → Function.update held i (some t) j = held j :=
    fun j hj => Function.update_of_ne hj ..
  have hself : Function.update held i (some t) i = some t := Function.update_self ..
  refine ⟨List.nodup_cons.2 ⟨ht, h.nodup⟩, fun u => ⟨fun hu => ?_, ?_⟩, fun j k u hj hk => ?_⟩
  · rcases List.mem_cons.1 hu with rfl | hu
    · exact ⟨i, hself⟩
    · obtain ⟨j, hj⟩ := (h.mem_iff u).1 hu
      have hji : j ≠ i := fun he => by rw [he, hi] at hj; cases hj
      exact ⟨j, (hother j hji).trans hj⟩
  · rintro ⟨j, hj⟩
    by_cases hji : j = i
    · subst hji
      rw [hself] at hj
      exact Option.some.inj hj ▸ List.mem_cons_self
    · rw [hother j hji] at hj
      exact List.mem_cons_of_mem _ (h.mem hj)
  · by_cases hji : j = i <;> by_cases hki : k = i
    · rw [hji, hki]
    · rw [hji, hself] at hj
      rw [hother k hki, ← hj] at hk
      exact absurd (h.mem hk) ht
    · rw [hki, hself] at hk
      rw [hother j hji, ← hk] at hj
      exact absurd (h.mem hj) ht
    · rw [hother j hji] at hj
      rw [hother k hki] at hk
      exact h.unique j k u hj hk

/-- A thread puts its token back. -/
theorem Holding.drop [DecidableEq κ] (h : Holding held tokens) (hi : held i = some t) :
    Holding (Function.update held i Option.none) (tokens.filter fun u => u ≠ t) := by
  have hother : ∀ j, j ≠ i → Function.update held i Option.none j = held j :=
    fun j hj => Function.update_of_ne hj ..
  have hkeeps : ∀ j u, Function.update held i Option.none j = some u → j ≠ i ∧ held j = some u := by
    intro j u hj
    have hji : j ≠ i := fun he => by rw [he, Function.update_self] at hj; cases hj
    exact ⟨hji, (hother j hji).symm.trans hj⟩
  refine ⟨h.nodup.filter _, fun u => ⟨fun hu => ?_, ?_⟩, fun j k u hj hk => ?_⟩
  · obtain ⟨hu, hut⟩ := List.mem_filter.1 hu
    obtain ⟨j, hj⟩ := (h.mem_iff u).1 hu
    have hji : j ≠ i := by
      rintro rfl
      exact of_decide_eq_true hut (Option.some.inj (hj.symm.trans hi))
    exact ⟨j, (hother j hji).trans hj⟩
  · rintro ⟨j, hj⟩
    obtain ⟨hji, hj⟩ := hkeeps j u hj
    refine List.mem_filter.2 ⟨h.mem hj, decide_eq_true ?_⟩
    rintro rfl
    exact hji (h.unique j i u hj hi)
  · exact h.unique j k u (hkeeps j u hj).2 (hkeeps k u hk).2

/-- A thread passes its token on to one that has none. -/
theorem Holding.pass (h : Holding held tokens) (hi : held i = some t) (hj : held j = Option.none) :
    Holding (Function.update (Function.update held i Option.none) j (some t)) tokens := by
  have hij : i ≠ j := fun he => by rw [he, hj] at hi; cases hi
  have hself : Function.update (Function.update held i Option.none) j (some t) j = some t :=
    Function.update_self ..
  have hother : ∀ k, k ≠ j → k ≠ i →
      Function.update (Function.update held i Option.none) j (some t) k = held k :=
    fun k hkj hki => (Function.update_of_ne hkj ..).trans (Function.update_of_ne hki ..)
  -- who holds what afterwards
  have hcases : ∀ k u, Function.update (Function.update held i Option.none) j (some t) k = some u →
      k = j ∧ u = t ∨ k ≠ j ∧ k ≠ i ∧ held k = some u := by
    intro k u hk
    by_cases hkj : k = j
    · subst hkj
      rw [hself] at hk
      exact .inl ⟨rfl, (Option.some.inj hk).symm⟩
    · by_cases hki : k = i
      · subst hki
        rw [Function.update_of_ne hkj, Function.update_self] at hk
        cases hk
      · exact .inr ⟨hkj, hki, (hother k hkj hki).symm.trans hk⟩
  refine ⟨h.nodup, fun u => ⟨fun hu => ?_, ?_⟩, fun k l u hk hl => ?_⟩
  · obtain ⟨k, hk⟩ := (h.mem_iff u).1 hu
    by_cases hki : k = i
    · subst hki
      obtain rfl : t = u := Option.some.inj (hi.symm.trans hk)
      exact ⟨j, hself⟩
    · have hkj : k ≠ j := fun he => by rw [he, hj] at hk; cases hk
      exact ⟨k, (hother k hkj hki).trans hk⟩
  · rintro ⟨k, hk⟩
    rcases hcases k u hk with ⟨-, rfl⟩ | ⟨-, -, hk⟩
    · exact h.mem hi
    · exact h.mem hk
  · rcases hcases k u hk with ⟨rfl, rfl⟩ | ⟨-, hki, hk'⟩ <;>
      rcases hcases l u hl with ⟨hlj, hut⟩ | ⟨-, hli, hl'⟩
    · exact hlj.symm
    · exact absurd (h.unique l i u hl' hi) hli
    · exact absurd (h.unique k i u hk' (hut ▸ hi)) hki
    · exact h.unique k l u hk' hl'

end Interact
end ChordInfra
