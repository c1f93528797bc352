/-
# The stable ring of given nodes

For every list of ids and addresses without repetitions there is a stable ring
with these members: each node with the successor, the predecessor and the
fingers that it should have (`canonical`, `canonical_stable`).  It is what
joins, `stabilize` and `fix_fingers` lead to.
-/

import ChordInfra.Ring.Joining

namespace ChordInfra
namespace Ring

open Cyclic

namespace Members

variable {M : ℕ} {refs : List NodeRef} {q : NodeRef} {k : ℕ}

/-- The first of some nodes with the least measure, `q` if there are none. -/
def nearestBy (measure : NodeRef → ℕ) (refs : List NodeRef) (q : NodeRef) : NodeRef :=
  (refs.argmin measure).getD q

theorem nearestBy_spec (measure : NodeRef → ℕ) (hq : q ∈ refs) :
    nearestBy measure refs q ∈ refs ∧ ∀ p ∈ refs, measure (nearestBy measure refs q) ≤ measure p := by
  have hne : refs.argmin measure ≠ none :=
    fun h => List.ne_nil_of_mem hq (List.argmin_eq_none.1 h)
  obtain ⟨p, hp⟩ := Option.ne_none_iff_exists'.1 hne
  unfold nearestBy
  rw [hp]
  exact ⟨List.argmin_mem hp, fun p' hp' => List.le_of_mem_argmin (f := measure) hp' hp⟩

/-- The first of some nodes at or clockwise after an id. -/
def ownerOf (M : ℕ) (refs : List NodeRef) (q : NodeRef) (k : ℕ) : NodeRef :=
  nearestBy (fun p => Cyclic.dist (2 ^ M) k p.id) refs q

/-- The node `q` with all pointers right. -/
def canonicalNode (M : ℕ) (refs : List NodeRef) (q : NodeRef) : ChordNode M where
  address := q.address
  nodeId := q.id
  predecessor := some (nearestBy (fun p => arc (2 ^ M) p.id q.id) refs q)
  fingers i :=
    let start := (q.id + 2 ^ i.val) % 2 ^ M
    let owner := ownerOf M refs q start
    ⟨start, owner.id, owner.address⟩

@[simp] theorem canonicalNode_ref (M : ℕ) (refs : List NodeRef) (q : NodeRef) :
    (canonicalNode M refs q).ref = q := rfl

/-- Ids and addresses that may be those of a ring. -/
structure Valid (M : ℕ) (refs : List NodeRef) : Prop where
  nonempty : refs ≠ []
  ids_lt : ∀ q ∈ refs, q.id < 2 ^ M
  ids_distinct : (refs.map NodeRef.id).Nodup
  addresses_distinct : (refs.map NodeRef.address).Nodup

instance (M : ℕ) (refs : List NodeRef) : Decidable (Valid M refs) :=
  decidable_of_iff (refs ≠ [] ∧ (∀ q ∈ refs, q.id < 2 ^ M) ∧ (refs.map NodeRef.id).Nodup ∧
      (refs.map NodeRef.address).Nodup)
    ⟨fun h => ⟨h.1, h.2.1, h.2.2.1, h.2.2.2⟩,
      fun h => ⟨h.nonempty, h.ids_lt, h.ids_distinct, h.addresses_distinct⟩⟩

/-- The stable ring of the given nodes. -/
def canonical (refs : List NodeRef) (h : Valid M refs) : Members M where
  nodes := refs.map (canonicalNode M refs)
  nonempty := fun hnil => h.nonempty (List.map_eq_nil_iff.1 hnil)
  ids_lt := by
    intro n hn
    obtain ⟨q, hq, rfl⟩ := List.mem_map.1 hn
    exact h.ids_lt q hq
  ids_distinct := by
    rw [List.map_map]
    exact h.ids_distinct
  addresses_distinct := by
    rw [List.map_map]
    exact h.addresses_distinct

theorem canonicalNode_mem (h : Valid M refs) (hq : q ∈ refs) :
    canonicalNode M refs q ∈ (canonical refs h).nodes :=
  List.mem_map_of_mem hq

/-- The owner of an id among the given nodes is its owner in the ring. -/
theorem firstAt_canonical (h : Valid M refs) (hq : q ∈ refs) (k : ℕ) :
    (canonical refs h).FirstAt k (canonicalNode M refs (ownerOf M refs q k)) := by
  obtain ⟨hmem, hleast⟩ := nearestBy_spec (fun p => Cyclic.dist (2 ^ M) k p.id) hq
  refine ⟨canonicalNode_mem h hmem, fun m hm => ?_⟩
  obtain ⟨p, hp, rfl⟩ := List.mem_map.1 hm
  exact hleast p hp

/-- The arc to a point is one step and the way from there. -/
theorem arc_eq_dist_add_one {N a b : ℕ} (ha : a < N) (hb : b < N) :
    arc N a b = Cyclic.dist N ((a + 1) % N) b + 1 := by
  rcases Nat.lt_or_ge (a + 1) N with hlt | hge
  · rw [Nat.mod_eq_of_lt hlt]
    unfold arc Cyclic.dist
    split_ifs <;> omega
  · rw [show a + 1 = N by omega, Nat.mod_self]
    unfold arc Cyclic.dist
    split_ifs <;> omega

variable [NeZero M]

theorem canonical_next (h : Valid M refs) (hq : q ∈ refs) :
    ∃ m, (canonical refs h).NextAfter (canonicalNode M refs q) m ∧
      (canonicalNode M refs q).successor = m.ref := by
  have hfirst := firstAt_canonical h hq ((q.id + 1) % 2 ^ M)
  refine ⟨_, ⟨hfirst.1, fun m hm => ?_⟩, ?_⟩
  · rw [show (canonicalNode M refs q).nodeId = q.id from rfl,
      arc_eq_dist_add_one (h.ids_lt q hq) ((canonical refs h).ids_lt _ hfirst.1),
      arc_eq_dist_add_one (h.ids_lt q hq) ((canonical refs h).ids_lt m hm)]
    exact Nat.succ_le_succ (hfirst.2 m hm)
  · unfold ChordNode.successor canonicalNode
    simp only [FingerEntry.ref, ChordNode.ref, Fin.val_zero, pow_zero]

/-- **It is stable**, and every predecessor is right. -/
theorem canonical_stable (h : Valid M refs) : (canonical refs h).Stable := by
  refine ⟨fun n hn => ?_, fun n hn i _ => ?_, fun n hn i _ => ?_⟩
  · obtain ⟨q, hq, rfl⟩ := List.mem_map.1 hn
    exact canonical_next h hq
  · obtain ⟨q, -, rfl⟩ := List.mem_map.1 hn
    rfl
  · obtain ⟨q, hq, rfl⟩ := List.mem_map.1 hn
    exact ⟨_, firstAt_canonical h hq _, rfl⟩

omit [NeZero M] in
theorem canonical_predecessors (h : Valid M refs) : ∀ m ∈ (canonical refs h).nodes,
    ∃ p ∈ (canonical refs h).nodes, (canonical refs h).NextAfter p m ∧ m.predecessor = some p.ref := by
  intro m hm
  obtain ⟨q, hq, rfl⟩ := List.mem_map.1 hm
  obtain ⟨hmem, hleast⟩ := nearestBy_spec (fun p => arc (2 ^ M) p.id q.id) hq
  refine ⟨_, canonicalNode_mem h hmem, ⟨hm, fun m' hm' => ?_⟩, rfl⟩
  obtain ⟨p', hp', rfl⟩ := List.mem_map.1 hm'
  have hpq := hleast p' hp'
  have hqq := hleast q hq
  have hp := h.ids_lt _ hmem
  have hq' := h.ids_lt q hq
  have hp'' := h.ids_lt p' hp'
  have hinj : p'.id = q.id → p' = q := fun he => List.inj_on_of_nodup_map h.ids_distinct hp' hq he
  generalize nearestBy (fun p => arc (2 ^ M) p.id q.id) refs q = p at *
  unfold canonicalNode
  dsimp only at *
  unfold arc at *
  split_ifs at * <;> omega

end Members
end Ring
end ChordInfra
