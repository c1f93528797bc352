/-
# Arcs of a cycle of `N` identifiers

Two clockwise distances on the identifiers `0, …, N - 1`.  `dist N a b` counts
the steps from `a` to `b` and is `0` from a point to itself; `arc N a b` is the
length of the half-open arc `(a, b]`, so that a point is a full turn `N` away
from itself.  The second is the one that makes intervals of the cycle additive
without a special case: `arc_add_arc_of_lt` splits an arc at any point strictly
inside it, also when the arc is the whole cycle.
-/

import Mathlib.Data.Nat.Basic
import Mathlib.Tactic.SplitIfs

namespace ChordInfra
namespace Cyclic

/-- Steps clockwise from `a` to `b`, `0` when they are equal. -/
def dist (N a b : ℕ) : ℕ := if a ≤ b then b - a else b + N - a

/-- The length of the arc `(a, b]`, a full turn when the ends are equal. -/
def arc (N a b : ℕ) : ℕ := if a < b then b - a else b + N - a

variable {N a b c : ℕ}

@[simp] theorem arc_self (a : ℕ) : arc N a a = N := by simp [arc]

@[simp] theorem dist_self (a : ℕ) : dist N a a = 0 := by simp [dist]

theorem arc_pos (ha : a < N) : 0 < arc N a b := by
  unfold arc; split_ifs <;> omega

theorem arc_le (ha : a < N) (hb : b < N) : arc N a b ≤ N := by
  unfold arc; split_ifs <;> omega

theorem arc_lt_of_ne (ha : a < N) (hb : b < N) (h : a ≠ b) : arc N a b < N := by
  unfold arc; split_ifs <;> omega

theorem dist_lt (hb : b < N) : dist N a b < N := by
  unfold dist; split_ifs <;> omega

theorem eq_of_dist_eq_zero (ha : a < N) (h : dist N a b = 0) : a = b := by
  unfold dist at h; split_ifs at h <;> omega

/-- **A point inside an arc splits it.**  The arc may be the full turn from a
point to itself. -/
theorem arc_add_arc_of_lt (ha : a < N) (hb : b < N) (hc : c < N) (h : arc N a b < arc N a c) :
    arc N a b + arc N b c = arc N a c := by
  unfold arc at *; split_ifs at * <;> omega

/-- Two consecutive arcs that do not overshoot one turn are the arc between the
outer ends. -/
theorem arc_eq_add_of_le (ha : a < N) (hb : b < N) (h : arc N a b + arc N b c ≤ N) :
    arc N a c = arc N a b + arc N b c := by
  unfold arc at *; split_ifs at * <;> omega

/-- Distances from a fixed point tell points apart. -/
theorem eq_of_arc_eq (ha : a < N) (hb : b < N) (hc : c < N) (h : arc N a b = arc N a c) : b = c := by
  unfold arc at h; split_ifs at h <;> omega

theorem eq_of_dist_eq (ha : a < N) (hb : b < N) (hc : c < N) (h : dist N a b = dist N a c) : b = c := by
  unfold dist at h; split_ifs at h <;> omega

/-- Seen from a point `k` of the arc `(a, b]`, what lies at `b` or beyond it is
reached through `b`. -/
theorem dist_le_dist_of_arc_le (ha : a < N) (hb : b < N) {k : ℕ} (hk : k < N)
    (hkb : arc N a k ≤ arc N a b) (hbc : arc N a b ≤ arc N a c) : dist N k b ≤ dist N k c := by
  unfold arc dist at *; split_ifs at * <;> omega

/-- How far it is from `t` ahead of `a`: the rest of the way, or the way round. -/
theorem dist_add_mod {t : ℕ} (ha : a < N) (hb : b < N) (ht : t < N) :
    dist N ((a + t) % N) b = if t ≤ dist N a b then dist N a b - t else dist N a b + N - t := by
  rcases Nat.lt_or_ge (a + t) N with hlt | hge
  · rw [Nat.mod_eq_of_lt hlt]
    unfold dist
    split_ifs <;> omega
  · rw [Nat.mod_eq_sub_mod hge, Nat.mod_eq_of_lt (by omega)]
    unfold dist
    split_ifs <;> omega

/-- What comes first from `t` ahead of `a` on is at least `t` ahead of `a`, unless it is `a`. -/
theorem le_dist_of_first {t : ℕ} (ha : a < N) (hb : b < N) (ht : 0 < t) (htN : t < N)
    (hab : b ≠ a) (h : dist N ((a + t) % N) b ≤ dist N ((a + t) % N) a) : t ≤ dist N a b := by
  have hpos : dist N a b ≠ 0 := fun hzero => hab (eq_of_dist_eq_zero ha hzero).symm
  rw [dist_add_mod ha hb htN, dist_add_mod ha ha htN, dist_self] at h
  split_ifs at h <;> omega

/-- It comes no later than what is at least `t` ahead. -/
theorem dist_le_of_first {t : ℕ} (ha : a < N) (hb : b < N) (hc : c < N) (ht : 0 < t)
    (htc : t ≤ dist N a c) (h : dist N ((a + t) % N) b ≤ dist N ((a + t) % N) c) :
    b ≠ a ∧ dist N a b ≤ dist N a c := by
  have htN : t < N := Nat.lt_of_le_of_lt htc (dist_lt hc)
  have hcN : dist N a c < N := dist_lt hc
  rw [dist_add_mod ha hb htN, dist_add_mod ha hc htN, if_pos htc] at h
  split_ifs at h with htb
  · refine ⟨?_, by omega⟩
    rintro rfl
    rw [dist_self] at htb
    omega
  · omega

/-- A way splits at a point of it. -/
theorem dist_add_dist_of_arc {k : ℕ} (ha : a < N) (hb : b < N) (hk : k < N) (hc : c < N)
    (hlt : arc N a b < arc N a k) (hle : arc N c k ≤ arc N b k) :
    dist N a b + dist N b c = dist N a c := by
  unfold arc at hlt hle
  unfold dist
  split_ifs at * <;> omega

/-- What is no farther than a point before the key is itself before the key. -/
theorem arc_lt_of_dist_le {k : ℕ} (ha : a < N) (hb : b < N) (hk : k < N) (hc : c < N)
    (hba : b ≠ a) (hle : arc N c k ≤ arc N a k) (hbc : dist N a b ≤ dist N a c) :
    arc N a b < arc N a k := by
  unfold dist at hbc
  unfold arc at *
  split_ifs at * <;> omega

end Cyclic
end ChordInfra
