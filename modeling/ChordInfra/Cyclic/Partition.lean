/-
# The arcs of a finite set of identifiers

A finite set of identifiers cuts the cycle into the half-open arcs from each of
them to the next one clockwise.  `existsUnique_arc` says that the arcs are a
partition: every identifier of the cycle lies in exactly one of them.  The next
one of a lone identifier is itself, and its arc is the full turn, so one
identifier is no special case.
-/

import ChordInfra.Cyclic.Arc
import Mathlib.Data.Finset.Max
import Mathlib.Order.Basic

namespace ChordInfra
namespace Cyclic

variable {N a b c x : ℕ} {S : Finset ℕ}

/-- `b` is the identifier of `S` that comes first going clockwise from `a`; `a`
itself comes last, after a full turn. -/
def IsNext (N : ℕ) (S : Finset ℕ) (a b : ℕ) : Prop := b ∈ S ∧ ∀ c ∈ S, arc N a b ≤ arc N a c

theorem exists_isNext (hS : S.Nonempty) (a : ℕ) : ∃ b, IsNext N S a b :=
  S.exists_min_image (fun b => arc N a b) hS

theorem IsNext.unique (hS : ∀ s ∈ S, s < N) (ha : a < N) (hb : IsNext N S a b)
    (hc : IsNext N S a c) : b = c :=
  eq_of_arc_eq ha (hS b hb.1) (hS c hc.1) (Nat.le_antisymm (hb.2 c hc.1) (hc.2 b hb.1))

/-- Among several identifiers the next one is another one. -/
theorem IsNext.ne (hS : ∀ s ∈ S, s < N) (ha : a ∈ S) (h : 1 < S.card) (hb : IsNext N S a b) :
    b ≠ a := by
  rintro rfl
  obtain ⟨c, hc, hcb⟩ := Finset.exists_mem_ne h b
  have hle : arc N b b ≤ arc N b c := hb.2 c hc
  have hlt : arc N b c < N := arc_lt_of_ne (hS b ha) (hS c hc) (Ne.symm hcb)
  rw [arc_self] at hle
  exact absurd hlt (Nat.not_lt.2 hle)

/-- No point lies in the arcs between two points both ways. -/
theorem eq_of_arc_le_arc (ha : a < N) (hb : b < N) (hab : arc N a x ≤ arc N a b)
    (hba : arc N b x ≤ arc N b a) : a = b := by
  unfold arc at *
  split_ifs at * <;> omega

/-- **The arcs are a partition.**  Every identifier of the cycle lies in the arc
from exactly one identifier of the set to the next: the one that comes last
before it. -/
theorem existsUnique_arc (hS : ∀ s ∈ S, s < N) (hne : S.Nonempty) (hx : x < N) :
    ∃! p : ℕ × ℕ, p.1 ∈ S ∧ IsNext N S p.1 p.2 ∧ arc N p.1 x ≤ arc N p.1 p.2 := by
  obtain ⟨a, ha, hmin⟩ := S.exists_min_image (fun a => arc N a x) hne
  obtain ⟨b, hb⟩ := exists_isNext (N := N) hne a
  have hin : arc N a x ≤ arc N a b := by
    -- a point past `b` would be closer to `b` than to `a`
    by_contra hlt
    have hsplit : arc N a b + arc N b x = arc N a x :=
      arc_add_arc_of_lt (hS a ha) (hS b hb.1) hx (Nat.lt_of_not_le hlt)
    have hcloser : arc N a x ≤ arc N b x := hmin b hb.1
    have hpos : 0 < arc N a b := arc_pos (hS a ha)
    omega
  refine ⟨(a, b), ⟨ha, hb, hin⟩, ?_⟩
  rintro ⟨a', b'⟩ ⟨ha', hb', hin'⟩
  obtain rfl : a' = a :=
    eq_of_arc_le_arc (hS a' ha') (hS a ha) (hin'.trans (hb'.2 a ha)) (hin.trans (hb.2 a' ha'))
  exact Prod.ext rfl (IsNext.unique hS (hS a' ha') hb' hb)

end Cyclic
end ChordInfra
