/-
# A ring without one of its members

`Members.without` drops a member from a ring.  The members before and after it become
neighbours (`NextAfter.skip`), every other pair of neighbours stays one (`NextAfter.without`),
and the keys of the member fall to the one after it (`FirstAt.skip`).

A network is linked as a ring (`Members.Linked`) when every member is at its address, with the
pointers of the ring.
-/

import ChordInfra.Ring.Lookup

namespace ChordInfra
namespace Ring

open Cyclic

variable {M : ℕ}

namespace Members

variable {r : Members M} {n m m' p q s t : ChordNode M} {k : ℕ}

/-- The members other than `n`. -/
def without (r : Members M) (n : ChordNode M) (h : ∃ m ∈ r.nodes, m.nodeId ≠ n.nodeId) : Members M where
  nodes := r.nodes.filter fun m => m.nodeId ≠ n.nodeId
  nonempty := by
    obtain ⟨m, hm, hne⟩ := h
    exact List.ne_nil_of_mem (List.mem_filter.2 ⟨hm, decide_eq_true hne⟩)
  ids_lt := fun m hm => r.ids_lt m (List.mem_filter.1 hm).1
  ids_distinct := r.ids_distinct.sublist (List.filter_sublist.map _)
  addresses_distinct := r.addresses_distinct.sublist (List.filter_sublist.map _)

theorem mem_without (h : ∃ m ∈ r.nodes, m.nodeId ≠ n.nodeId) :
    m ∈ (r.without n h).nodes ↔ m ∈ r.nodes ∧ m.nodeId ≠ n.nodeId := by
  simp [without]

theorem eq_of_address (hm : m ∈ r.nodes) (hm' : m' ∈ r.nodes) (h : m.address = m'.address) : m = m' :=
  List.inj_on_of_nodup_map r.addresses_distinct hm hm' h

/-! ### Neighbours -/

theorem NextAfter.unique (h : r.NextAfter n m) (h' : r.NextAfter n m') (hn : n ∈ r.nodes) : m = m' := by
  have he := Nat.le_antisymm (h.2 m' h'.1) (h'.2 m h.1)
  exact eq_of_nodeId h.1 h'.1
    (eq_of_arc_eq (r.ids_lt n hn) (r.ids_lt m h.1) (r.ids_lt m' h'.1) he)

/-- A member is next after one member only. -/
theorem NextAfter.prev_unique (h : r.NextAfter p n) (h' : r.NextAfter q n) (hp : p ∈ r.nodes)
    (hq : q ∈ r.nodes) : p = q := by
  refine eq_of_nodeId hp hq ?_
  by_contra hne
  have h₁ := h.2 q hq
  have h₂ := h'.2 p hp
  have h₃ := h.2 p hp
  have h₄ := h'.2 q hq
  have hidp := r.ids_lt p hp
  have hidq := r.ids_lt q hq
  have hidn := r.ids_lt n h.1
  unfold arc at *
  split_ifs at * <;> omega

/-- A ring of several members: the next one is another. -/
theorem NextAfter.ne_self (h : r.NextAfter n s) (hn : n ∈ r.nodes)
    (hother : ∃ m ∈ r.nodes, m.nodeId ≠ n.nodeId) : s.nodeId ≠ n.nodeId := by
  obtain ⟨m, hm, hne⟩ := hother
  exact h.ne hn hm fun he => hne (congrArg ChordNode.nodeId he)

/-- And so is the one before. -/
theorem NextAfter.ne_self' (h : r.NextAfter p n) (hp : p ∈ r.nodes)
    (hother : ∃ m ∈ r.nodes, m.nodeId ≠ n.nodeId) : p.nodeId ≠ n.nodeId := by
  intro he
  have hpn : p = n := eq_of_nodeId hp h.1 he
  subst hpn
  exact h.ne_self hp hother rfl

/-- **The neighbours of a member that is dropped become neighbours.** -/
theorem NextAfter.skip (hp : p ∈ r.nodes) (hn : n ∈ r.nodes) (hpn : r.NextAfter p n)
    (hns : r.NextAfter n s) (h : ∃ m ∈ r.nodes, m.nodeId ≠ n.nodeId) :
    (r.without n h).NextAfter p s := by
  refine ⟨(mem_without h).2 ⟨hns.1, hns.ne_self hn h⟩, fun x hx => ?_⟩
  obtain ⟨hx, hxn⟩ := (mem_without h).1 hx
  have h₁ := hpn.2 x hx
  have h₂ := hns.2 x hx
  have hs := hns.ne_self hn h
  have h₃ := hpn.2 s hns.1
  have hidp := r.ids_lt p hp
  have hidn := r.ids_lt n hn
  have hids := r.ids_lt s hns.1
  have hidx := r.ids_lt x hx
  unfold arc at *
  split_ifs at * <;> omega

/-- Other neighbours stay neighbours. -/
theorem NextAfter.without (hmt : r.NextAfter m t) (h : ∃ m ∈ r.nodes, m.nodeId ≠ n.nodeId)
    (ht : t.nodeId ≠ n.nodeId) : (r.without n h).NextAfter m t :=
  ⟨(mem_without h).2 ⟨hmt.1, ht⟩, fun x hx => hmt.2 x ((mem_without h).1 hx).1⟩

/-! ### Owners -/

/-- A key keeps its owner when another member is dropped. -/
theorem FirstAt.without (ho : r.FirstAt k m) (h : ∃ m ∈ r.nodes, m.nodeId ≠ n.nodeId)
    (hm : m.nodeId ≠ n.nodeId) : (r.without n h).FirstAt k m :=
  ⟨(mem_without h).2 ⟨ho.1, hm⟩, fun x hx => ho.2 x ((mem_without h).1 hx).1⟩

/-- **The keys of a member that is dropped fall to the next one.** -/
theorem FirstAt.skip (hk : k < 2 ^ M) (ho : r.FirstAt k n) (hns : r.NextAfter n s)
    (h : ∃ m ∈ r.nodes, m.nodeId ≠ n.nodeId) : (r.without n h).FirstAt k s := by
  refine ⟨(mem_without h).2 ⟨hns.1, hns.ne_self ho.1 h⟩, fun x hx => ?_⟩
  obtain ⟨hx, hxn⟩ := (mem_without h).1 hx
  have h₁ := ho.2 x hx
  have h₂ := hns.2 x hx
  have hs := hns.ne_self ho.1 h
  have h₃ := ho.2 s hns.1
  have hidn := r.ids_lt n ho.1
  have hids := r.ids_lt s hns.1
  have hidx := r.ids_lt x hx
  unfold arc Cyclic.dist at *
  split_ifs at * <;> omega

/-! ### Networks -/

/-- The node `n` is what has become of the member `m`, with the pointers of the ring. -/
structure LinkedAt [NeZero M] (r : Members M) (m n : ChordNode M) : Prop where
  id : n.nodeId = m.nodeId
  address : n.address = m.address
  successor : ∃ t, r.NextAfter m t ∧ n.successor = t.ref
  predecessor : ∃ q ∈ r.nodes, r.NextAfter q m ∧ n.predecessor = some q.ref

/-- **The network is linked as the ring `r`**: every member is at its address, and its pointers
name its neighbours. -/
def Linked [NeZero M] (r : Members M) (net : Network M) : Prop :=
  ∀ m ∈ r.nodes, ∃ n, net m.address = some n ∧ r.LinkedAt m n

end Members
end Ring
end ChordInfra
