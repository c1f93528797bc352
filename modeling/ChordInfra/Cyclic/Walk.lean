/-
# Walks along successor pointers

Every vertex holds at most one pointer (`next`) and sits at a position of the
cycle of `N` identifiers (`pos`).  `Walk N pos next u v L` follows pointers from
`u` to `v` and `L` is the total clockwise length of the pointers followed.

`Walk.redirect` is the one fact the pointer protocols rest on: moving the
pointer of `n` from `c` back to a vertex `x` strictly inside the arc `(n, c]`
that walks to `c` without overshooting keeps every walk there was, with its
length.  It covers the first pointer of a lone vertex to itself, whose arc is
the full turn.  `exists_trail` turns a closed walk of one turn into the list of
the vertices it visits, in clockwise order, and `mem_trail_of_cycle` shows that
a cycle reaching it is that one.
-/

import ChordInfra.Cyclic.Arc
import Mathlib.Logic.Relation
import Mathlib.Data.List.Chain

namespace ChordInfra
namespace Cyclic

variable {V : Type*} {N : ℕ} {pos : V → ℕ} {next next' : V → Option V} {u v w n c x : V} {L L' : ℕ}

/-- One pointer followed. -/
def Points (next : V → Option V) (u v : V) : Prop := next u = some v

theorem points_unique (h : Points next u v) (h' : Points next u w) : v = w :=
  Option.some.inj (Eq.trans (Eq.symm h) h')

/-- Pointers followed from `u` to `v`, at least one, of total length `L`. -/
inductive Walk (N : ℕ) (pos : V → ℕ) (next : V → Option V) : V → V → ℕ → Prop
  | edge {u v : V} : Points next u v → Walk N pos next u v (arc N (pos u) (pos v))
  | cons {u w v : V} {L : ℕ} : Points next u w → Walk N pos next w v L →
      Walk N pos next u v (arc N (pos u) (pos w) + L)

theorem Walk.trans (h : Walk N pos next u v L) (h' : Walk N pos next v w L') :
    Walk N pos next u w (L + L') := by
  induction h with
  | edge hp => exact .cons hp h'
  | cons hp _ ih => rw [Nat.add_assoc]; exact .cons hp (ih h')

theorem Walk.reaches (h : Walk N pos next u v L) : Relation.TransGen (Points next) u v := by
  induction h with
  | edge hp => exact .single hp
  | cons hp _ ih => exact .head hp ih

theorem exists_walk (h : Relation.TransGen (Points next) u v) : ∃ L, Walk N pos next u v L := by
  induction h using Relation.TransGen.head_induction_on with
  | single hp => exact ⟨_, .edge hp⟩
  | head hp _ ih => obtain ⟨L, hL⟩ := ih; exact ⟨_, .cons hp hL⟩

/-- Adding pointers to vertices that had none keeps every walk. -/
theorem Walk.mono {pos' : V → ℕ}
    (hsub : ∀ a b, Points next a b → Points next' a b ∧ pos' a = pos a ∧ pos' b = pos b)
    (h : Walk N pos next u v L) : Walk N pos' next' u v L := by
  induction h with
  | edge hp =>
    obtain ⟨hp', ha, hb⟩ := hsub _ _ hp
    rw [← ha, ← hb]
    exact .edge hp'
  | cons hp _ ih =>
    obtain ⟨hp', ha, hb⟩ := hsub _ _ hp
    rw [← ha, ← hb]
    exact .cons hp' ih

/-! ### Moving one pointer back -/

/-- A walk shorter than the pointer of `n` does not follow it. -/
theorem Walk.avoid (hn : Points next n c) (hoff : ∀ a, a ≠ n → next' a = next a)
    (h : Walk N pos next u v L) (hL : L < arc N (pos n) (pos c)) : Walk N pos next' u v L := by
  induction h with
  | @edge u v hp =>
    have hne : u ≠ n := by
      rintro rfl
      rw [points_unique hp hn] at hL
      exact Nat.lt_irrefl _ hL
    exact .edge ((hoff u hne).trans hp)
  | @cons u w v L hp _ ih =>
    have hne : u ≠ n := by
      rintro rfl
      rw [points_unique hp hn] at hL
      omega
    exact .cons ((hoff u hne).trans hp) (ih (by omega))

/-- **Moving a pointer back keeps every walk and its length.**  `x` lies
strictly inside the arc `(n, c]` and walks to `c` without overshooting, so the
old pointer of `n` is the new one followed by that walk. -/
theorem Walk.redirect (hpn : pos n < N) (hpx : pos x < N) (hpc : pos c < N) (hn : Points next n c)
    (hx : arc N (pos n) (pos x) < arc N (pos n) (pos c))
    (hxc : Walk N pos next x c (arc N (pos x) (pos c)))
    (hnew : Points next' n x) (hoff : ∀ a, a ≠ n → next' a = next a)
    (h : Walk N pos next u v L) : Walk N pos next' u v L := by
  have hsplit := arc_add_arc_of_lt hpn hpx hpc hx
  have hlt : arc N (pos x) (pos c) < arc N (pos n) (pos c) := by
    have := arc_pos (b := pos x) hpn
    omega
  have hnc : Walk N pos next' n c (arc N (pos n) (pos c)) := by
    rw [← hsplit]
    exact .cons hnew (hxc.avoid hn hoff hlt)
  induction h with
  | @edge u v hp =>
    by_cases hu : u = n
    · subst hu
      rwa [points_unique hp hn]
    · exact .edge ((hoff u hu).trans hp)
  | @cons u w v L hp _ ih =>
    by_cases hu : u = n
    · subst hu
      rw [points_unique hp hn] at ih ⊢
      exact hnc.trans ih
    · exact .cons ((hoff u hu).trans hp) ih

/-! ### A closed walk of one turn -/

/-- **The vertices of a walk of at most one turn.**  They are listed in the
order of the pointers, which is the clockwise order from the start. -/
theorem Walk.exists_trail (hpos : ∀ a b, Points next a b → pos a < N ∧ pos b < N)
    (h : Walk N pos next u v L) (hL : L ≤ N) :
    ∃ vs : List V, (u :: vs).IsChain (Points next) ∧ vs.getLast? = some v ∧
      vs.Pairwise (fun a b => arc N (pos u) (pos a) < arc N (pos u) (pos b)) ∧
      ∀ a ∈ vs, arc N (pos u) (pos a) ≤ L := by
  induction h with
  | @edge u v hp =>
    exact ⟨[v], by simpa using hp, rfl, List.pairwise_singleton _ _, by simp⟩
  | @cons u w v L hp hw ih =>
    obtain ⟨vs, hchain, hlast, hsorted, hle⟩ := ih (by omega)
    have hu := (hpos _ _ hp).1
    have hw' := (hpos _ _ hp).2
    have hfar : ∀ a ∈ vs, arc N (pos u) (pos a) = arc N (pos u) (pos w) + arc N (pos w) (pos a) :=
      fun a ha => arc_eq_add_of_le hu hw' (by have := hle a ha; omega)
    refine ⟨w :: vs, List.isChain_cons_cons.2 ⟨hp, hchain⟩, ?_, ?_, ?_⟩
    · cases vs with
      | nil => simp at hlast
      | cons a vs => simpa using hlast
    · refine List.pairwise_cons.2 ⟨fun a ha => ?_, hsorted.imp_of_mem fun ha hb hab => ?_⟩
      · rw [hfar a ha]
        have := arc_pos (b := pos a) hw'
        omega
      · rw [hfar _ ha, hfar _ hb]
        omega
    · intro a ha
      rcases List.mem_cons.1 ha with rfl | ha
      · omega
      · rw [hfar a ha]
        have := hle a ha
        omega

/-- On a functional graph a vertex of a cycle is reached back from everything
it reaches. -/
theorem reaches_back (hcyc : Relation.TransGen (Points next) u u)
    (h : Relation.ReflTransGen (Points next) u v) : Relation.ReflTransGen (Points next) v u := by
  induction h using Relation.ReflTransGen.head_induction_on with
  | refl => exact .refl
  | @head a a₁ hp _ ih =>
    have hback : Relation.ReflTransGen (Points next) a₁ a := by
      obtain ⟨d, hd, hda⟩ := Relation.TransGen.head'_iff.1 hcyc
      rwa [points_unique hp hd]
    exact (ih (.tail' hback hp)).trans hback

/-- **The cycle is the only one.**  A vertex that lies on a cycle and reaches
the closed trail `vs` is one of `vs`. -/
theorem mem_trail_of_cycle {b : V} {vs : List V} (hchain : (b :: vs).IsChain (Points next))
    (hlast : vs.getLast? = some b) (hreach : Relation.ReflTransGen (Points next) u b)
    (hcyc : Relation.TransGen (Points next) u u) : u ∈ vs := by
  have hb : b ∈ vs := List.mem_of_getLast? hlast
  have hclosed : ∀ a ∈ vs, ∀ d, Points next a d → d ∈ vs := by
    intro a ha d hd
    obtain ⟨s, t, rfl⟩ := List.append_of_mem ha
    cases t with
    | nil =>
      obtain rfl : a = b := by simpa using hlast
      cases s with
      | nil =>
        have hp : Points next a a := by simpa using hchain
        simp [points_unique hd hp]
      | cons e s =>
        have hp : Points next a e := (List.isChain_cons_cons.1 hchain).1
        simp [points_unique hd hp]
    | cons e t =>
      have hp : Points next a e := by
        have h := List.isChain_append.1 (List.isChain_cons.1 hchain).2
        exact (List.isChain_cons_cons.1 h.2.1).1
      simp [points_unique hd hp]
  have hall : ∀ a, Relation.ReflTransGen (Points next) b a → a ∈ vs := by
    intro a ha
    induction ha with
    | refl => exact hb
    | tail _ hp ih => exact hclosed _ ih _ hp
  exact hall u (reaches_back hcyc hreach)

/-- Conversely every vertex of a closed trail lies on a cycle. -/
theorem cycle_of_mem_trail {b : V} {vs : List V} (hchain : (b :: vs).IsChain (Points next))
    (hlast : vs.getLast? = some b) (hu : u ∈ vs) : Relation.TransGen (Points next) u u := by
  have hreach : ∀ (vs : List V) (a : V), (a :: vs).IsChain (Points next) →
      ∀ d ∈ vs, Relation.TransGen (Points next) a d := by
    intro vs
    induction vs with
    | nil => intro a _ d hd; exact absurd hd List.not_mem_nil
    | cons e vs ih =>
      intro a h d hd
      obtain ⟨hp, h⟩ := List.isChain_cons_cons.1 h
      rcases List.mem_cons.1 hd with rfl | hd
      · exact .single hp
      · exact .head hp (ih e h d hd)
  have hbu := hreach vs b hchain u hu
  have hbb := hreach vs b hchain b (List.mem_of_getLast? hlast)
  exact Relation.TransGen.trans_right (reaches_back hbb hbu.to_reflTransGen) hbu

/-- In the clockwise order from `b` on, what comes before `a` or after `c` is no
nearer to `a` than `c` is. -/
theorem arc_le_of_outside {a b c v : ℕ} (ha : a < N) (hb : b < N) (hc : c < N)
    (hac : arc N b a < arc N b c) (hout : arc N b v ≤ arc N b a ∨ arc N b c ≤ arc N b v) :
    arc N a c ≤ arc N a v := by
  unfold arc at *
  split_ifs at * <;> omega

/-- **The pointers of a closed trail in clockwise order lead to the next vertex.** -/
theorem trail_next {a b : V} {vs : List V} (hchain : (b :: vs).IsChain (Points next))
    (hlast : vs.getLast? = some b)
    (hsorted : vs.Pairwise fun u v => arc N (pos b) (pos u) < arc N (pos b) (pos v))
    (hpos : ∀ v ∈ vs, pos v < N) (ha : a ∈ vs) (hp : Points next a c) :
    ∀ v ∈ vs, arc N (pos a) (pos c) ≤ arc N (pos a) (pos v) := by
  intro v hv
  have hb : b ∈ vs := List.mem_of_getLast? hlast
  obtain ⟨l, r, rfl⟩ := List.append_of_mem ha
  cases r with
  | nil =>
    -- the last vertex is `b`, and its pointer leads to the first one
    obtain rfl : a = b := by simpa using hlast
    cases l with
    | nil =>
      have hself : Points next a a := by simpa using hchain
      obtain rfl := points_unique hp hself
      rw [List.mem_singleton.1 hv]
    | cons e l =>
      obtain rfl : c = e := points_unique hp (List.isChain_cons_cons.1 hchain).1
      rcases List.mem_cons.1 hv with rfl | hv
      · exact le_rfl
      · exact ((List.pairwise_cons.1 hsorted).1 v hv).le
  | cons e r =>
    have hae : Points next a e := by
      have h := List.isChain_append.1 (List.isChain_cons.1 hchain).2
      exact (List.isChain_cons_cons.1 h.2.1).1
    obtain rfl := points_unique hp hae
    obtain ⟨-, hright, hacross⟩ := List.pairwise_append.1 hsorted
    obtain ⟨hafter, hright⟩ := List.pairwise_cons.1 hright
    have hac : arc N (pos b) (pos a) < arc N (pos b) (pos c) := hafter c List.mem_cons_self
    refine arc_le_of_outside (hpos a ha) (hpos b hb) (hpos c (by simp)) hac ?_
    rcases List.mem_append.1 hv with hv | hv
    · exact .inl (hacross v hv a List.mem_cons_self).le
    · rcases List.mem_cons.1 hv with rfl | hv
      · exact .inl le_rfl
      · rcases List.mem_cons.1 hv with rfl | hv
        · exact .inr le_rfl
        · exact .inr ((List.pairwise_cons.1 hright).1 v hv).le

end Cyclic
end ChordInfra
