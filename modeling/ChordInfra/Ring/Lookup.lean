/-
# What `find_successor` finds

A ring is a finite set of nodes with distinct ids and addresses (`Members`).
Going clockwise from an id, the first member at or after it is its owner
(`Members.FirstAt`).

`Members.findSuccessor_of_ne` is the lookup: with correct successors, whatever
members the fingers name, a node asked for a key other than its own id answers
with the owner.  Each forward goes to a member strictly inside the arc from the
node to the key, so the arc to the key shrinks and no forward reaches the key's
own node.

A key that is the id of the node asked is different.  `in_range` reads its equal
bounds as the entire ring, so the farthest finger is taken whatever it names:
another member then answers for the node, but a node whose farthest finger
names itself answers with its successor (`findSuccessor_stable`).  That branch
is there to "avoid infinite loop in 1-node ring".
-/

import ChordInfra.Ring.Node
import Mathlib.Algebra.Order.Ring.Nat
import Mathlib.Data.List.MinMax
import Mathlib.Data.List.Nodup
import Mathlib.Tactic.Push

namespace ChordInfra
namespace Ring

open Cyclic

variable {M : ℕ}

/-- The nodes of a ring. -/
structure Members (M : ℕ) where
  nodes : List (ChordNode M)
  nonempty : nodes ≠ []
  ids_lt : ∀ n ∈ nodes, n.nodeId < 2 ^ M
  ids_distinct : (nodes.map ChordNode.nodeId).Nodup
  addresses_distinct : (nodes.map ChordNode.address).Nodup

namespace Members

variable {r : Members M} {n m m' : ChordNode M} {k : ℕ}

/-- Every member answers at its address. -/
def net (r : Members M) : Network M := fun a => r.nodes.find? fun n => n.address = a

/-- `m` is the first member at or clockwise after the id `k`. -/
def FirstAt (r : Members M) (k : ℕ) (m : ChordNode M) : Prop :=
  m ∈ r.nodes ∧ ∀ m' ∈ r.nodes, dist (2 ^ M) k m.nodeId ≤ dist (2 ^ M) k m'.nodeId

/-- `m` is the next member clockwise after `n`, `n` itself when it is alone. -/
def NextAfter (r : Members M) (n m : ChordNode M) : Prop :=
  m ∈ r.nodes ∧ ∀ m' ∈ r.nodes, arc (2 ^ M) n.nodeId m.nodeId ≤ arc (2 ^ M) n.nodeId m'.nodeId

/-- Every successor pointer names the next member clockwise. -/
def SuccessorsCorrect [NeZero M] (r : Members M) : Prop :=
  ∀ n ∈ r.nodes, ∃ m, r.NextAfter n m ∧ n.successor = m.ref

/-- Every finger entry names some member. -/
def FingersNameMembers (r : Members M) : Prop :=
  ∀ n ∈ r.nodes, ∀ i, ∃ m ∈ r.nodes, (n.fingers i).ref = m.ref

/-- A stable ring: correct successors, and every further finger entry names the
true successor of its start. -/
structure Stable [NeZero M] (r : Members M) : Prop where
  successors : r.SuccessorsCorrect
  starts : ∀ n ∈ r.nodes, ∀ i, i ≠ 0 → (n.fingers i).start = (n.nodeId + 2 ^ i.val) % 2 ^ M
  fingers : ∀ n ∈ r.nodes, ∀ i, i ≠ 0 →
    ∃ m, r.FirstAt (n.fingers i).start m ∧ (n.fingers i).ref = m.ref

theorem eq_of_nodeId (hm : m ∈ r.nodes) (hm' : m' ∈ r.nodes) (h : m.nodeId = m'.nodeId) : m = m' :=
  List.inj_on_of_nodup_map r.ids_distinct hm hm' h

theorem net_address (hn : n ∈ r.nodes) : r.net n.address = some n :=
  find?_eq_some_of_nodup_map r.addresses_distinct hn

theorem mem_of_net {v : String} (h : r.net v = some n) : n ∈ r.nodes ∧ n.address = v :=
  ⟨List.mem_of_find?_eq_some h, by simpa using List.find?_some h⟩

theorem exists_firstAt (r : Members M) (k : ℕ) : ∃ m, r.FirstAt k m := by
  have hne : r.nodes.argmin (fun m => dist (2 ^ M) k m.nodeId) ≠ none :=
    fun h => r.nonempty (List.argmin_eq_none.1 h)
  obtain ⟨m, hm⟩ := Option.ne_none_iff_exists'.1 hne
  exact ⟨m, List.argmin_mem hm, fun m' hm' =>
    List.le_of_mem_argmin (f := fun m => dist (2 ^ M) k m.nodeId) hm' hm⟩

theorem firstAt_unique (hk : k < 2 ^ M) (hm : r.FirstAt k m) (hm' : r.FirstAt k m') : m = m' := by
  have h := Nat.le_antisymm (hm.2 m' hm'.1) (hm'.2 m hm.1)
  exact eq_of_nodeId hm.1 hm'.1
    (eq_of_dist_eq hk (r.ids_lt m hm.1) (r.ids_lt m' hm'.1) h)

/-- A member owns its own id. -/
theorem firstAt_nodeId (hm : m ∈ r.nodes) : r.FirstAt m.nodeId m :=
  ⟨hm, fun _ _ => by simp⟩

/-- The next member after `n` owns every id of the arc up to it. -/
theorem NextAfter.firstAt (h : r.NextAfter n m) (hn : n ∈ r.nodes) (hk : k < 2 ^ M)
    (hle : arc (2 ^ M) n.nodeId k ≤ arc (2 ^ M) n.nodeId m.nodeId) : r.FirstAt k m :=
  ⟨h.1, fun m' hm' => dist_le_dist_of_arc_le (r.ids_lt n hn) (r.ids_lt m h.1) hk hle (h.2 m' hm')⟩

/-- In a ring of several members the successor is another one. -/
theorem NextAfter.ne (h : r.NextAfter n m) (hn : n ∈ r.nodes) (hm' : m' ∈ r.nodes) (hne : m' ≠ n) :
    m.nodeId ≠ n.nodeId := by
  intro he
  have hle := h.2 m' hm'
  rw [he, arc_self] at hle
  have := arc_lt_of_ne (r.ids_lt n hn) (r.ids_lt m' hm')
    (fun hid => hne (eq_of_nodeId hm' hn hid.symm))
  omega

variable [NeZero M]

theorem Stable.fingersNameMembers (hs : r.Stable) : r.FingersNameMembers := by
  intro n hn i
  by_cases hi : i = 0
  · subst hi
    obtain ⟨m, hm, he⟩ := hs.successors n hn
    exact ⟨m, hm.1, he⟩
  · obtain ⟨m, hm, he⟩ := hs.fingers n hn i hi
    exact ⟨m, hm.1, he⟩

/-- Past the successor of the node there is a finger before the key, so the
closest preceding node is a member strictly between the two. -/
theorem closestPrecedingNode_of_ne (hf : r.FingersNameMembers) (hn : n ∈ r.nodes) (hk : k < 2 ^ M)
    (hne : n.nodeId ≠ k) (hpast : arc (2 ^ M) n.nodeId n.successor.id < arc (2 ^ M) n.nodeId k) :
    ∃ m ∈ r.nodes, n.closestPrecedingNode k = m.ref ∧
      arc (2 ^ M) n.nodeId m.nodeId < arc (2 ^ M) n.nodeId k := by
  have hidn := r.ids_lt n hn
  have hlt : ∀ i, (n.fingers i).nodeId < 2 ^ M := fun i => by
    obtain ⟨m, hm, he⟩ := hf n hn i
    exact (congrArg NodeRef.id he).trans_lt (r.ids_lt m hm)
  unfold ChordNode.closestPrecedingNode
  split
  · next i hi =>
    obtain ⟨m, hm, he⟩ := hf n hn i
    refine ⟨m, hm, he, ?_⟩
    have hin := List.find?_some hi
    rw [inRange_exclusive (hlt i) hidn hk hne] at hin
    rwa [show m.nodeId = (n.fingers i).nodeId from (congrArg NodeRef.id he).symm]
  · next hnone =>
    have h0 := List.find?_eq_none.1 hnone 0 (by simp)
    rw [inRange_exclusive (hlt 0) hidn hk hne] at h0
    exact absurd hpast h0

/-- Such a lookup goes on at another member, which is nearer to the key and does not have it
as its id. -/
theorem exists_nearer (hf : r.FingersNameMembers) (hn : n ∈ r.nodes) (hk : k < 2 ^ M)
    (hne : n.nodeId ≠ k) (hpast : arc (2 ^ M) n.nodeId n.successor.id < arc (2 ^ M) n.nodeId k) :
    ∃ m ∈ r.nodes, n.closestPrecedingNode k = m.ref ∧ m.nodeId ≠ n.nodeId ∧ m.nodeId ≠ k ∧
      arc (2 ^ M) m.nodeId k < arc (2 ^ M) n.nodeId k := by
  have hidn := r.ids_lt n hn
  obtain ⟨m, hm, he, hlt⟩ := closestPrecedingNode_of_ne hf hn hk hne hpast
  refine ⟨m, hm, he, fun h => ?_, ?_, ?_⟩
  · rw [h, arc_self] at hlt
    exact absurd hlt (Nat.not_lt.2 (arc_le hidn hk))
  · rintro rfl
    exact Nat.lt_irrefl _ hlt
  · have hsplit := arc_add_arc_of_lt hidn (r.ids_lt m hm) hk hlt
    have hpos := arc_pos (b := m.nodeId) hidn
    omega

/-- **A key other than the id of the node asked is answered by its owner**,
whatever members the fingers name.  The induction is on the fuel; what it needs
is that the arc from the node to the key is shorter than the fuel. -/
theorem findSuccessor_of_ne (hs : r.SuccessorsCorrect) (hf : r.FingersNameMembers)
    (hk : k < 2 ^ M) : ∀ {fuel : ℕ} {n : ChordNode M}, n ∈ r.nodes → n.nodeId ≠ k →
      arc (2 ^ M) n.nodeId k < fuel →
        ∃ m, r.FirstAt k m ∧ n.findSuccessor r.net (fun _ => false) k fuel = some m.ref := by
  intro fuel
  induction fuel with
  | zero => intro n _ _ h; exact absurd h (Nat.not_lt_zero _)
  | succ fuel ih =>
    intro n hn hne hfuel
    obtain ⟨s, hnext, hsucc⟩ := hs n hn
    have hidn := r.ids_lt n hn
    have hids : n.successor.id < 2 ^ M := by rw [hsucc]; exact r.ids_lt s hnext.1
    unfold ChordNode.findSuccessor
    by_cases hin : inRange k n.nodeId n.successor.id true = true
    · rw [if_pos hin]
      rw [inRange_inclusive hk hidn hids, hsucc] at hin
      exact ⟨s, hnext.firstAt hn hk hin, congrArg some hsucc⟩
    · rw [if_neg hin]
      rw [inRange_inclusive hk hidn hids, Nat.not_le] at hin
      obtain ⟨m, hm, he, hmn, hmk, hnearer⟩ := exists_nearer hf hn hk hne hin
      rw [he, if_neg (show ¬ m.ref.id = n.nodeId from hmn), show m.ref.address = m.address from rfl,
        net_address hm]
      exact ih hm hmk (by omega)

/-- The finger entry `M - 1`, half the ring away. -/
def farthest : Fin M := ⟨M - 1, Nat.sub_lt (NeZero.pos M) Nat.one_pos⟩

/-- Asked for its own id, a node takes its farthest finger for the closest
preceding node, whatever that finger names. -/
theorem closestPrecedingNode_nodeId (n : ChordNode M) :
    n.closestPrecedingNode n.nodeId = (n.fingers farthest).ref := by
  obtain ⟨j, rfl⟩ : ∃ j, M = j + 1 := Nat.exists_eq_succ_of_ne_zero (NeZero.ne M)
  unfold ChordNode.closestPrecedingNode
  simp [List.finRange_succ_last, farthest, Fin.last]

/-- A node that is asked for its own id names itself when it is its own successor, or when its
farthest finger names another node, which then finds it. -/
def namesItself (n : ChordNode M) : Bool :=
  n.successor.id = n.nodeId || (n.fingers farthest).nodeId ≠ n.nodeId

/-- **What a node answers for its own id**: itself, or else its successor. -/
theorem findSuccessor_nodeId (hs : r.SuccessorsCorrect) (hf : r.FingersNameMembers)
    (hn : n ∈ r.nodes) {fuel : ℕ} (hfuel : 2 ^ M < fuel) :
    n.findSuccessor r.net (fun _ => false) n.nodeId fuel =
      some (if namesItself n = true then n.ref else n.successor) := by
  have hidn := r.ids_lt n hn
  obtain ⟨s, hnext, hsucc⟩ := hs n hn
  have hids := r.ids_lt s hnext.1
  obtain ⟨fuel, rfl⟩ : ∃ f, fuel = f + 1 := ⟨fuel - 1, by omega⟩
  unfold ChordNode.findSuccessor namesItself
  by_cases halone : s.nodeId = n.nodeId
  · obtain rfl := eq_of_nodeId hnext.1 hn halone
    simp [hsucc, ChordNode.ref]
  have hin : ¬ inRange n.nodeId n.nodeId n.successor.id true = true := by
    rw [inRange_inclusive hidn hidn (by rw [hsucc]; exact hids), hsucc, arc_self]
    exact Nat.not_le.2 (arc_lt_of_ne hidn hids (Ne.symm halone))
  rw [if_neg hin, closestPrecedingNode_nodeId]
  obtain ⟨f, hfmem, hfref⟩ := hf n hn farthest
  have hfid : (n.fingers farthest).nodeId = f.nodeId := congrArg NodeRef.id hfref
  have hsid : n.successor.id ≠ n.nodeId := by rwa [hsucc]
  rw [hfref, hfid]
  by_cases hself : f.nodeId = n.nodeId
  · rw [if_pos (show f.ref.id = n.nodeId from hself)]
    simp [hself, hsid]
  · rw [if_neg (show ¬ f.ref.id = n.nodeId from hself), show f.ref.address = f.address from rfl,
      net_address hfmem]
    have hshort := arc_lt_of_ne (r.ids_lt f hfmem) hidn hself
    obtain ⟨m, hm, he⟩ := findSuccessor_of_ne hs hf hidn hfmem hself
      (show arc (2 ^ M) f.nodeId n.nodeId < fuel by omega)
    obtain rfl := firstAt_unique hidn hm (firstAt_nodeId hn)
    simpa [hself] using he

/-- Half way round from a member, the first member met is that member itself
exactly when all others lie in the half after it. -/
theorem firstAt_half_iff (hn : n ∈ r.nodes) :
    r.FirstAt ((n.nodeId + 2 ^ (M - 1)) % 2 ^ M) n ↔
      ∀ m ∈ r.nodes, dist (2 ^ M) n.nodeId m.nodeId < 2 ^ (M - 1) := by
  have hN : 2 ^ M = 2 * 2 ^ (M - 1) := by
    rw [← Nat.pow_succ', Nat.succ_eq_add_one, Nat.sub_add_cancel (NeZero.pos M)]
  have hidn := r.ids_lt n hn
  unfold FirstAt
  rw [and_iff_right hn]
  refine forall₂_congr fun m hm => ?_
  have hidm := r.ids_lt m hm
  rw [hN] at hidn hidm ⊢
  generalize 2 ^ (M - 1) = h at *
  by_cases hwrap : n.nodeId + h < 2 * h
  · rw [Nat.mod_eq_of_lt hwrap]
    unfold Cyclic.dist; split_ifs <;> omega
  · rw [Nat.mod_eq_sub_mod (by omega), Nat.mod_eq_of_lt (by omega)]
    unfold Cyclic.dist; split_ifs <;> omega

/-- The farthest finger of a stable ring names the first member half way
round, also where the ring is so small that it is the successor. -/
theorem Stable.farthest (hs : r.Stable) (hn : n ∈ r.nodes) :
    ∃ m, r.FirstAt ((n.nodeId + 2 ^ (M - 1)) % 2 ^ M) m ∧
      (n.fingers Members.farthest).ref = m.ref := by
  by_cases hi : (Members.farthest : Fin M) = 0
  · rw [hi]
    have hM : M - 1 = 0 := by simpa [Members.farthest] using congrArg Fin.val hi
    obtain rfl : M = 1 := by have := NeZero.pos M; omega
    obtain ⟨m, hm, he⟩ := hs.successors n hn
    refine ⟨m, ⟨hm.1, fun m' hm' => ?_⟩, he⟩
    have h := hm.2 m' hm'
    have := r.ids_lt n hn
    have := r.ids_lt m hm.1
    have := r.ids_lt m' hm'
    unfold arc at h
    unfold Cyclic.dist
    split_ifs at * <;> omega
  · obtain ⟨m, hm, he⟩ := hs.fingers n hn _ hi
    rw [hs.starts n hn _ hi] at hm
    exact ⟨m, hm, he⟩

/-- When a node of a stable ring names itself. -/
theorem Stable.namesItself_iff (hs : r.Stable) (hn : n ∈ r.nodes) : namesItself n = true ↔
    (∀ m ∈ r.nodes, m = n) ∨
      ∃ m ∈ r.nodes, 2 ^ (M - 1) ≤ dist (2 ^ M) n.nodeId m.nodeId := by
  obtain ⟨s, hnext, hsucc⟩ := hs.successors n hn
  obtain ⟨f, hf, hfref⟩ := hs.farthest hn
  have hfid : (n.fingers Members.farthest).nodeId = f.nodeId := congrArg NodeRef.id hfref
  unfold namesItself
  rw [Bool.or_eq_true, decide_eq_true_eq, decide_eq_true_eq, hsucc, hfid]
  by_cases halone : ∀ m ∈ r.nodes, m = n
  · exact iff_of_true (.inl (by rw [halone s hnext.1]; rfl)) (.inl halone)
  obtain ⟨m', hm', hm'n⟩ : ∃ m' ∈ r.nodes, m' ≠ n := by simpa using halone
  have hsn : s.ref.id ≠ n.nodeId := hnext.ne hn hm' hm'n
  -- the farthest finger names the first member half way round
  have hfn : f.nodeId = n.nodeId ↔
      ∀ m ∈ r.nodes, dist (2 ^ M) n.nodeId m.nodeId < 2 ^ (M - 1) := by
    rw [← firstAt_half_iff hn]
    constructor
    · intro h
      obtain rfl := eq_of_nodeId hf.1 hn h
      exact hf
    · intro h
      rw [firstAt_unique (Nat.mod_lt _ (Nat.two_pow_pos M)) hf h]
  rw [or_iff_right hsn, or_iff_right halone, Ne, hfn]
  push Not
  rfl

/-- **What a stable ring answers.**  Every lookup ends, and its answer is the
owner of the key, except for a node asked for its own id when there are other
members and all of them lie less than half a turn ahead of it. -/
theorem findSuccessor_stable (r : Members M) (hs : r.Stable) {n : ChordNode M} (hn : n ∈ r.nodes)
    {k : ℕ} (hk : k < 2 ^ M) {fuel : ℕ} (hfuel : 2 ^ M < fuel) :
    ∃ owner, r.FirstAt k owner ∧ (∀ m, r.FirstAt k m → m = owner) ∧
      ∃ found, n.findSuccessor r.net (fun _ => false) k fuel = some found ∧
        (found = owner.ref ↔ k ≠ n.nodeId ∨ (∀ m ∈ r.nodes, m = n) ∨
          ∃ m ∈ r.nodes, 2 ^ (M - 1) ≤ dist (2 ^ M) n.nodeId m.nodeId) := by
  by_cases hne : n.nodeId = k
  · subst hne
    refine ⟨n, firstAt_nodeId hn, fun m' hm' => firstAt_unique hk hm' (firstAt_nodeId hn), _,
      findSuccessor_nodeId hs.successors hs.fingersNameMembers hn hfuel, ?_⟩
    rw [or_iff_right (not_not.2 rfl), ← hs.namesItself_iff hn]
    by_cases hself : namesItself n = true
    · rw [if_pos hself]
      exact iff_of_true rfl hself
    · rw [if_neg hself]
      refine iff_of_false (fun h => hself ?_) hself
      unfold namesItself
      simp [congrArg NodeRef.id h, ChordNode.ref]
  · obtain ⟨m, hm, he⟩ := findSuccessor_of_ne hs.successors hs.fingersNameMembers hk hn hne
      ((arc_le (r.ids_lt n hn) hk).trans_lt hfuel)
    exact ⟨m, hm, fun m' hm' => firstAt_unique hk hm' hm, _, he,
      iff_of_true rfl (.inl (Ne.symm hne))⟩

/-! ### Two neighbours -/

/-- Node `10` of the ring `{10, 11}`: only its first finger names the other
node. -/
def ten : ChordNode 8 :=
  ⟨"a", 10, some ⟨11, "b"⟩, fun i =>
    ⟨(10 + 2 ^ i.val) % 2 ^ 8, if i = 0 then 11 else 10, if i = 0 then "b" else "a"⟩⟩

/-- Node `11` of the ring `{10, 11}`. -/
def eleven : ChordNode 8 :=
  ⟨"b", 11, some ⟨10, "a"⟩, fun i => ⟨(11 + 2 ^ i.val) % 2 ^ 8, 10, "a"⟩⟩

/-- The ring `{10, 11}` with 8-bit ids. -/
def tenEleven : Members 8 where
  nodes := [ten, eleven]
  nonempty := by simp
  ids_lt := by simp [ten, eleven]
  ids_distinct := by decide
  addresses_distinct := by decide

theorem tenEleven_stable : tenEleven.Stable := by
  have hten : ten ∈ tenEleven.nodes := by simp [tenEleven]
  have heleven : eleven ∈ tenEleven.nodes := by simp [tenEleven]
  have hall : ∀ {P : ChordNode 8 → Prop}, P ten → P eleven → ∀ n ∈ tenEleven.nodes, P n := by
    intro P h₁ h₂ n hn
    rcases List.mem_pair.1 hn with rfl | rfl <;> assumption
  have hstarts : ∀ i : Fin 8, i ≠ 0 →
      ∀ j ∈ [10, 11], dist (2 ^ 8) ((10 + 2 ^ i.val) % 2 ^ 8) 10 ≤
        dist (2 ^ 8) ((10 + 2 ^ i.val) % 2 ^ 8) j := by decide
  have hstarts' : ∀ i : Fin 8, ∀ j ∈ [10, 11], dist (2 ^ 8) ((11 + 2 ^ i.val) % 2 ^ 8) 10 ≤
      dist (2 ^ 8) ((11 + 2 ^ i.val) % 2 ^ 8) j := by decide
  refine ⟨hall ⟨eleven, ⟨heleven, hall ?_ ?_⟩, rfl⟩ ⟨ten, ⟨hten, hall ?_ ?_⟩, rfl⟩,
    hall (fun _ _ => rfl) fun _ _ => rfl, hall (fun i hi => ?_) fun i hi => ?_⟩
  · decide
  · decide
  · decide
  · decide
  · exact ⟨ten, ⟨hten, hall (hstarts i hi 10 (by simp)) (hstarts i hi 11 (by simp))⟩,
      by simp [ten, FingerEntry.ref, ChordNode.ref, hi]⟩
  · exact ⟨ten, ⟨hten, hall (hstarts' i 10 (by simp)) (hstarts' i 11 (by simp))⟩, rfl⟩

/-- The hypotheses of `findSuccessor_stable` are satisfiable: node `10` asked
for the key `200`. -/
theorem findSuccessor_stable_tenEleven :
    ∃ owner, tenEleven.FirstAt 200 owner ∧ (∀ m, tenEleven.FirstAt 200 m → m = owner) ∧
      ∃ found, ten.findSuccessor tenEleven.net (fun _ => false) 200 257 = some found ∧
        (found = owner.ref ↔ 200 ≠ ten.nodeId ∨ (∀ m ∈ tenEleven.nodes, m = ten) ∨
          ∃ m ∈ tenEleven.nodes, 2 ^ (8 - 1) ≤ dist (2 ^ 8) ten.nodeId m.nodeId) :=
  findSuccessor_stable tenEleven tenEleven_stable (by simp [tenEleven]) (by decide) (by decide)

/-- **Node `10` does not own its id.**  In the stable ring `{10, 11}` it answers
the key `10` with node `11`, while node `11` answers it with node `10`. -/
theorem findSuccessor_ten :
    ¬ (∀ (r : Members 8), r.Stable → ∀ n ∈ r.nodes, ∀ k < 2 ^ 8, ∀ fuel, 2 ^ 8 < fuel →
        ∃ owner, r.FirstAt k owner ∧
          n.findSuccessor r.net (fun _ => false) k fuel = some owner.ref) ∧
      ten.findSuccessor tenEleven.net (fun _ => false) 10 257 = some eleven.ref ∧
      eleven.findSuccessor tenEleven.net (fun _ => false) 10 257 = some ten.ref := by
  have hten : ten.findSuccessor tenEleven.net (fun _ => false) 10 257 = some eleven.ref := by decide
  refine ⟨fun h => ?_, hten, by decide⟩
  obtain ⟨owner, howner, he⟩ :=
    h tenEleven tenEleven_stable ten (by simp [tenEleven]) 10 (by decide) 257 (by decide)
  rw [hten] at he
  obtain rfl := firstAt_unique (by decide) howner
    (firstAt_nodeId (show ten ∈ tenEleven.nodes by simp [tenEleven]))
  exact absurd he (by decide)

end Members
end Ring
end ChordInfra
