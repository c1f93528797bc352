/-
# Taking turns

The elements of a list are taken in turn, from the first again after the last.
After any number of turns the element at a place was taken as often as there
are turns congruent to the place, so two elements differ by at most one turn
(`count_turns_le_add_one`) and an earlier one never has fewer
(`count_turns_le_of_le`).
-/

import Mathlib.Data.Int.CardIntervalMod
import Mathlib.Data.List.Nodup

namespace ChordInfra
namespace Greedy

variable {α β : Type}

/-- The elements of `l` taken in the `n` turns from turn `i` on. -/
def turns (l : List α) (i n : ℕ) : List α := (List.range' i n).filterMap fun t => l[t % l.length]?

@[simp] theorem turns_zero (l : List α) (i : ℕ) : turns l i 0 = [] := rfl

/-- The first turn, and those after it. -/
theorem turns_succ {l : List α} {i : ℕ} {a : α} (h : l[i % l.length]? = some a) (n : ℕ) :
    turns l i (n + 1) = a :: turns l (i + 1) n := by
  unfold turns
  rw [List.range'_succ]
  exact List.filterMap_cons_some h

theorem length_turns {l : List α} (hl : l ≠ []) (i n : ℕ) : (turns l i n).length = n := by
  induction n generalizing i with
  | zero => rfl
  | succ n ih =>
    have hlt : i % l.length < l.length := Nat.mod_lt _ (List.length_pos_of_ne_nil hl)
    rw [turns_succ (List.getElem?_eq_getElem hlt), List.length_cons, ih]

theorem map_turns (f : α → β) (l : List α) (i n : ℕ) : (turns l i n).map f = turns (l.map f) i n := by
  unfold turns
  rw [List.map_filterMap]
  simp only [List.length_map, List.getElem?_map]

section Counts

variable [DecidableEq α] {l : List α} {a b : α} {p q : ℕ}

/-- An element is taken in the turns congruent to its place. -/
theorem count_turns (hl : l.Nodup) (ha : l[p]? = some a) (n : ℕ) :
    (turns l 0 n).count a = n.count (· ≡ p [MOD l.length]) := by
  obtain ⟨hp, rfl⟩ := List.getElem?_eq_some_iff.1 ha
  induction n with
  | zero => rw [turns_zero, List.count_nil, Nat.count_zero]
  | succ n ih =>
    have hlt : n % l.length < l.length := Nat.mod_lt _ (by omega)
    have hlast : turns l 0 (n + 1) = turns l 0 n ++ [l[n % l.length]] := by
      unfold turns
      rw [List.range'_concat, List.filterMap_append, Nat.one_mul, Nat.zero_add]
      exact congrArg _ (List.filterMap_cons_some (List.getElem?_eq_getElem hlt))
    have hturn : l[n % l.length] = l[p] ↔ n ≡ p [MOD l.length] := by
      rw [hl.getElem_inj_iff]
      unfold Nat.ModEq
      rw [Nat.mod_eq_of_lt hp]
    rw [hlast, List.count_append, ih, Nat.count_succ, List.count_singleton]
    simp only [beq_iff_eq, hturn]

/-- The full rounds, and one more for the places of the last round that was begun. -/
theorem count_turns_eq (hl : l.Nodup) (ha : l[p]? = some a) (n : ℕ) :
    (turns l 0 n).count a = n / l.length + if p < n % l.length then 1 else 0 := by
  have hp : p < l.length := (List.getElem?_eq_some_iff.1 ha).1
  rw [count_turns hl ha, Nat.count_modEq_card _ (by omega), Nat.mod_eq_of_lt hp]

/-- **Two elements differ by at most one turn.** -/
theorem count_turns_le_add_one (hl : l.Nodup) (ha : a ∈ l) (hb : b ∈ l) (n : ℕ) :
    (turns l 0 n).count a ≤ (turns l 0 n).count b + 1 := by
  obtain ⟨p, hp⟩ := List.getElem?_of_mem ha
  obtain ⟨q, hq⟩ := List.getElem?_of_mem hb
  rw [count_turns_eq hl hp, count_turns_eq hl hq]
  split_ifs <;> omega

/-- An earlier element was taken no less often. -/
theorem count_turns_le_of_le (hl : l.Nodup) (ha : l[p]? = some a) (hb : l[q]? = some b)
    (hpq : p ≤ q) (n : ℕ) : (turns l 0 n).count b ≤ (turns l 0 n).count a := by
  rw [count_turns_eq hl ha, count_turns_eq hl hb]
  split_ifs <;> omega

end Counts

end Greedy
end ChordInfra
