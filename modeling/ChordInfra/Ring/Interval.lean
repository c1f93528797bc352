/-
# `in_range` is modular distance

`chord/node.py: in_range` compares identifiers as plain numbers and tests for
the wraparound by itself.  Here its answer is put in terms of the distance
`(x - a) mod N`, for every order the three points can stand in, and the arcs
`(id, next id clockwise]` of any set of ids are shown to be a partition: the
reason why a key belongs to exactly one node.
-/

import ChordInfra.Ring.Node
import ChordInfra.Cyclic.Partition
import Mathlib.Data.Int.ModEq

namespace ChordInfra
namespace Ring

open Cyclic

variable {N x a b : ℕ}

theorem sub_emod_eq_dist (hx : x < N) (ha : a < N) : ((x : ℤ) - a) % N = (dist N a x : ℕ) := by
  unfold Cyclic.dist
  split_ifs with h
  · rw [Int.emod_eq_of_lt (by omega) (by omega)]
    omega
  · rw [← Int.add_emod_right, Int.emod_eq_of_lt (by omega) (by omega)]
    omega

/-- The exclusive test, with distinct bounds. -/
theorem inRange_exclusive_iff_emod (hx : x < N) (ha : a < N) (hb : b < N) (hab : a ≠ b) :
    inRange x a b false = true ↔
      0 < ((x : ℤ) - a) % N ∧ ((x : ℤ) - a) % N < ((b : ℤ) - a) % N := by
  rw [inRange_exclusive hx ha hb hab, sub_emod_eq_dist hx ha, sub_emod_eq_dist hb ha]
  unfold arc Cyclic.dist
  split_ifs <;> omega

/-- The inclusive test, with distinct bounds. -/
theorem inRange_inclusive_iff_emod (hx : x < N) (ha : a < N) (hb : b < N) (hab : a ≠ b) :
    inRange x a b true = true ↔
      0 < ((x : ℤ) - a) % N ∧ ((x : ℤ) - a) % N ≤ ((b : ℤ) - a) % N := by
  rw [inRange_inclusive hx ha hb, sub_emod_eq_dist hx ha, sub_emod_eq_dist hb ha]
  unfold arc Cyclic.dist
  split_ifs <;> omega

/-- With several ids around, every id lies in exactly one arc from an id to the
next. -/
theorem existsUnique_inRange {S : Finset ℕ} (hS : ∀ s ∈ S, s < N) (hne : S.Nonempty) (hx : x < N) :
    ∃! p : ℕ × ℕ, p.1 ∈ S ∧ IsNext N S p.1 p.2 ∧ inRange x p.1 p.2 true = true := by
  refine (existsUnique_congr fun p => ?_).2 (existsUnique_arc hS hne hx)
  refine and_congr_right fun ha => and_congr_right fun hb => ?_
  exact inRange_inclusive hx (hS p.1 ha) (hS p.2 hb.1)

/-- **`in_range` is modular distance, and the arcs of any set of ids are a
partition.**  With distinct bounds the linear comparisons say where `x` lies
going clockwise from `a`, in every order of the three points.  Hence among at
least two ids each has one next id, another one, and every `x` lies in exactly
one of the half-open arcs.  Equal bounds mean the entire ring. -/
theorem inRange_iff_modular (N : ℕ) :
    (∀ x a b : ℕ, x < N → a < N → b < N →
      (a ≠ b →
        (inRange x a b false = true ↔
          0 < ((x : ℤ) - a) % N ∧ ((x : ℤ) - a) % N < ((b : ℤ) - a) % N) ∧
        (inRange x a b true = true ↔
          0 < ((x : ℤ) - a) % N ∧ ((x : ℤ) - a) % N ≤ ((b : ℤ) - a) % N)) ∧
      (a = b → inRange x a b true = true)) ∧
    (∀ S : Finset ℕ, (∀ s ∈ S, s < N) → 2 ≤ S.card →
      (∀ a ∈ S, ∃! b, IsNext N S a b ∧ b ≠ a) ∧
      ∀ x < N, ∃! p : ℕ × ℕ, p.1 ∈ S ∧ IsNext N S p.1 p.2 ∧ inRange x p.1 p.2 true = true) := by
  refine ⟨fun x a b hx ha hb => ⟨fun hab => ?_, ?_⟩, fun S hS hcard => ⟨fun a ha => ?_, ?_⟩⟩
  · exact ⟨inRange_exclusive_iff_emod hx ha hb hab, inRange_inclusive_iff_emod hx ha hb hab⟩
  · rintro rfl
    exact inRange_self x a true
  · obtain ⟨b, hb⟩ := exists_isNext (N := N) ⟨a, ha⟩ a
    exact ⟨b, ⟨hb, hb.ne hS ha hcard⟩, fun c hc => IsNext.unique hS (hS a ha) hc.1 hb⟩
  · exact fun x hx => existsUnique_inRange hS (Finset.card_pos.1 (by omega)) hx

/-- The ring of 256 ids with nodes at `3`, `8` and `200`. -/
theorem inRange_iff_modular_ring :
    (inRange 250 200 3 true = true ↔
      0 < ((250 : ℤ) - 200) % 256 ∧ ((250 : ℤ) - 200) % 256 ≤ ((3 : ℤ) - 200) % 256) ∧
    ∃! p : ℕ × ℕ, p.1 ∈ ({3, 8, 200} : Finset ℕ) ∧ IsNext 256 {3, 8, 200} p.1 p.2 ∧
      inRange 250 p.1 p.2 true = true :=
  ⟨(((inRange_iff_modular 256).1 250 200 3 (by decide) (by decide) (by decide)).1 (by decide)).2,
    ((inRange_iff_modular 256).2 {3, 8, 200} (by decide) (by decide)).2 250 (by decide)⟩

end Ring
end ChordInfra
