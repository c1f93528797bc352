/-
# A node of the ring

`chord/node.py`: `in_range`, `FingerEntry`, and the part of `ChordNode` that
keeps the ring together, its predecessor, its finger table and the operations
that read or change them.  `M` is the module constant of the source (8 there,
160 for production), a parameter here.

`fingers[0]` is the successor, so `M` is positive.  `FingerEntry.node_id` is
`None` only between the constructor of the entry and `_init_fingers`, which
names the node itself, so an entry here always names a node and the test
`f.node_id is not None` of `_closest_preceding_node` always holds.
-/

import ChordInfra.Cyclic.Arc
import Mathlib.Data.List.FinRange
import Mathlib.Algebra.NeZero
import Mathlib.Algebra.Order.Ring.Nat

namespace ChordInfra
namespace Ring

open Cyclic

/-- `M` in the source. -/
instance neZero_eight : NeZero 8 := ⟨by decide⟩

/-- `in_range`: `x` lies strictly between `a` and `b` going clockwise, with `b`
itself when `inclusiveB`.  Equal bounds mean the entire ring. -/
def inRange (x a b : ℕ) (inclusiveB : Bool) : Bool :=
  if a = b then true
  else if a < b then
    if inclusiveB then decide (a < x ∧ x ≤ b) else decide (a < x ∧ x < b)
  else
    if inclusiveB then decide (x > a ∨ x ≤ b) else decide (x > a ∨ x < b)

/-- The inclusive test compares arcs, equal bounds included. -/
theorem inRange_inclusive {N x a b : ℕ} (hx : x < N) (ha : a < N) (hb : b < N) :
    inRange x a b true = true ↔ arc N a x ≤ arc N a b := by
  simp only [inRange, arc, if_true]
  split_ifs <;> simp only [decide_eq_true_eq, true_iff] <;> omega

/-- With distinct bounds the exclusive test compares arcs strictly. -/
theorem inRange_exclusive {N x a b : ℕ} (hx : x < N) (ha : a < N) (hb : b < N) (hab : a ≠ b) :
    inRange x a b false = true ↔ arc N a x < arc N a b := by
  simp only [inRange, arc, if_neg hab, Bool.false_eq_true, if_false]
  split_ifs <;> simp only [decide_eq_true_eq] <;> omega

@[simp] theorem inRange_self (x a : ℕ) (inclusiveB : Bool) : inRange x a a inclusiveB = true := by
  simp [inRange]

/-- The first element with a property in a decreasing list is the greatest with it. -/
theorem find?_decreasing_eq_some_iff {α : Type} [Preorder α] {l : List α}
    (hl : l.Pairwise (· > ·)) {p : α → Bool} {i : α} :
    l.find? p = some i ↔ i ∈ l ∧ p i = true ∧ ∀ j ∈ l, i < j → ¬p j = true := by
  rw [List.find?_eq_some_iff_append]
  constructor
  · rintro ⟨hi, as, bs, rfl, hbefore⟩
    refine ⟨by simp, hi, fun j hj hij => ?_⟩
    rcases List.mem_append.1 hj with hj | hj
    · simpa using hbefore j hj
    · rcases List.mem_cons.1 hj with rfl | hj
      · exact absurd hij (lt_irrefl _)
      · have hlt := (List.pairwise_cons.1 (List.pairwise_append.1 hl).2.1).1 j hj
        exact absurd hij (not_lt_of_gt hlt)
  · rintro ⟨hmem, hi, hafter⟩
    obtain ⟨as, bs, rfl⟩ := List.append_of_mem hmem
    refine ⟨hi, as, bs, rfl, fun j hj => ?_⟩
    have hij : j > i := (List.pairwise_append.1 hl).2.2 j hj i List.mem_cons_self
    simpa using hafter j (by simp [hj]) hij

/-- With distinct values of `f`, an element is found by its own. -/
theorem find?_eq_some_of_nodup_map {α β : Type} [DecidableEq β] {f : α → β} {l : List α} {x : α}
    (hl : (l.map f).Nodup) (hx : x ∈ l) : l.find? (fun y => f y = f x) = some x := by
  obtain ⟨y, hy⟩ : ∃ y, l.find? (fun y => f y = f x) = some y :=
    Option.isSome_iff_exists.1 (List.find?_isSome.2 ⟨x, hx, by simp⟩)
  have hf : f y = f x := by simpa using List.find?_some hy
  rw [hy, List.inj_on_of_nodup_map hl (List.mem_of_find?_eq_some hy) hx hf]

/-- The dictionary `{"id": …, "address": …}` that names a node. -/
structure NodeRef where
  id : ℕ
  address : String
deriving DecidableEq, Repr

/-- `FingerEntry`: the start `(n + 2^i) mod 2^M` and the node found for it. -/
structure FingerEntry where
  start : ℕ
  nodeId : ℕ
  nodeAddress : String
deriving DecidableEq, Repr

/-- The node a finger entry names. -/
def FingerEntry.ref (f : FingerEntry) : NodeRef := ⟨f.nodeId, f.nodeAddress⟩

/-- The ring state of `ChordNode`. -/
structure ChordNode (M : ℕ) where
  address : String
  nodeId : ℕ
  predecessor : Option NodeRef
  fingers : Fin M → FingerEntry

variable {M : ℕ}

namespace ChordNode

/-- How other nodes name this one. -/
def ref (n : ChordNode M) : NodeRef := ⟨n.nodeId, n.address⟩

/-- The finger table of `_init_fingers`: every entry names the node itself. -/
def initFingers (M nodeId : ℕ) (address : String) (i : Fin M) : FingerEntry :=
  ⟨(nodeId + 2 ^ i.val) % 2 ^ M, nodeId, address⟩

/-- `ChordNode.__init__`: a ring of one node. -/
def init (M : ℕ) (address : String) (nodeId : ℕ) : ChordNode M :=
  ⟨address, nodeId, none, initFingers M nodeId address⟩

/-- Finger `i` set to name `r`; its start stays. -/
def setFinger (n : ChordNode M) (i : Fin M) (r : NodeRef) : ChordNode M :=
  { n with fingers := Function.update n.fingers i ⟨(n.fingers i).start, r.id, r.address⟩ }

/-- `_closest_preceding_node`: the fingers from `M - 1` down to `0`, and the
first of them strictly between the node and the key; the node itself when none
is. -/
def closestPrecedingNode (n : ChordNode M) (keyId : ℕ) : NodeRef :=
  match (List.finRange M).reverse.find? fun i => inRange (n.fingers i).nodeId n.nodeId keyId false with
  | some i => (n.fingers i).ref
  | none => n.ref

/-- `notify`: the candidate is taken for the predecessor when there is none or
it lies strictly between the current one and the node. -/
def notify (n : ChordNode M) (candidate : NodeRef) : ChordNode M :=
  match n.predecessor with
  | none => { n with predecessor := some candidate }
  | some p =>
    if inRange candidate.id p.id n.nodeId false then { n with predecessor := some candidate } else n

variable [NeZero M]

/-- The `successor` property: finger `0`. -/
def successor (n : ChordNode M) : NodeRef := (n.fingers 0).ref

/-- The `successor` setter. -/
def setSuccessor (n : ChordNode M) (r : NodeRef) : ChordNode M := n.setFinger 0 r

/-- `join`: the predecessor is forgotten and the successor is the node itself
for the first node of a ring (`none`), else what the known node's
`find_successor` answered. -/
def join (n : ChordNode M) (succ : Option NodeRef) : ChordNode M :=
  { n with predecessor := none }.setSuccessor (succ.getD n.ref)

/-- The first branch of `stabilize`, for a node that read itself as its
successor: the predecessor it read becomes its successor. -/
def stabilizeAlone (n : ChordNode M) (pred : Option NodeRef) : ChordNode M :=
  match pred with
  | some p => if p.id ≠ n.nodeId then n.setSuccessor p else n
  | none => n

/-- Step 3 of `stabilize`: the predecessor `x` of the successor becomes the
successor when it lies strictly between the node and its current successor. -/
def stabilizeUpdate (n : ChordNode M) (x : Option NodeRef) : ChordNode M :=
  match x with
  | some r => if inRange r.id n.nodeId n.successor.id false then n.setSuccessor r else n
  | none => n

end ChordNode

/-! ### What an update of a node leaves alone -/

namespace ChordNode

@[simp] theorem setFinger_nodeId (n : ChordNode M) (i : Fin M) (r : NodeRef) :
    (n.setFinger i r).nodeId = n.nodeId := rfl

@[simp] theorem setFinger_address (n : ChordNode M) (i : Fin M) (r : NodeRef) :
    (n.setFinger i r).address = n.address := rfl

@[simp] theorem setFinger_predecessor (n : ChordNode M) (i : Fin M) (r : NodeRef) :
    (n.setFinger i r).predecessor = n.predecessor := rfl

@[simp] theorem notify_nodeId (n : ChordNode M) (c : NodeRef) : (n.notify c).nodeId = n.nodeId := by
  unfold notify; split <;> [rfl; split_ifs <;> rfl]

@[simp] theorem notify_address (n : ChordNode M) (c : NodeRef) :
    (n.notify c).address = n.address := by
  unfold notify; split <;> [rfl; split_ifs <;> rfl]

/-- After `notify` the predecessor is the one before or the candidate. -/
theorem notify_predecessor (n : ChordNode M) (c : NodeRef) :
    (n.notify c).predecessor = n.predecessor ∨ (n.notify c).predecessor = some c := by
  unfold notify; split <;> [exact .inr rfl; split_ifs <;> [exact .inr rfl; exact .inl rfl]]

variable [NeZero M]

@[simp] theorem setSuccessor_successor (n : ChordNode M) (r : NodeRef) :
    (n.setSuccessor r).successor = r := by
  simp [successor, setSuccessor, setFinger, FingerEntry.ref]

@[simp] theorem setSuccessor_nodeId (n : ChordNode M) (r : NodeRef) :
    (n.setSuccessor r).nodeId = n.nodeId := rfl

@[simp] theorem setSuccessor_address (n : ChordNode M) (r : NodeRef) :
    (n.setSuccessor r).address = n.address := rfl

@[simp] theorem setSuccessor_predecessor (n : ChordNode M) (r : NodeRef) :
    (n.setSuccessor r).predecessor = n.predecessor := rfl

/-- Fingers other than the first leave the successor alone. -/
theorem setFinger_successor (n : ChordNode M) {i : Fin M} (hi : i ≠ 0) (r : NodeRef) :
    (n.setFinger i r).successor = n.successor := by
  simp [successor, setFinger, Function.update_of_ne (Ne.symm hi)]

@[simp] theorem join_successor (n : ChordNode M) (succ : Option NodeRef) :
    (n.join succ).successor = succ.getD n.ref := by
  simp [join]

@[simp] theorem join_nodeId (n : ChordNode M) (succ : Option NodeRef) :
    (n.join succ).nodeId = n.nodeId := rfl

@[simp] theorem join_address (n : ChordNode M) (succ : Option NodeRef) :
    (n.join succ).address = n.address := rfl

@[simp] theorem join_predecessor (n : ChordNode M) (succ : Option NodeRef) :
    (n.join succ).predecessor = none := rfl

@[simp] theorem notify_successor (n : ChordNode M) (c : NodeRef) :
    (n.notify c).successor = n.successor := by
  unfold notify; split <;> [rfl; split_ifs <;> rfl]

/-- What `stabilizeAlone` does: nothing, or the predecessor read, another node,
becomes the successor. -/
theorem stabilizeAlone_cases (n : ChordNode M) (pred : Option NodeRef) :
    n.stabilizeAlone pred = n ∨
      ∃ p, pred = some p ∧ p.id ≠ n.nodeId ∧ n.stabilizeAlone pred = n.setSuccessor p := by
  unfold stabilizeAlone
  split
  · split_ifs with h
    · exact .inr ⟨_, rfl, h, rfl⟩
    · exact .inl rfl
  · exact .inl rfl

/-- What `stabilizeUpdate` does: nothing, or the predecessor learned, between
the node and its successor, becomes the successor. -/
theorem stabilizeUpdate_cases (n : ChordNode M) (x : Option NodeRef) :
    n.stabilizeUpdate x = n ∨
      ∃ r, x = some r ∧ inRange r.id n.nodeId n.successor.id false = true ∧
        n.stabilizeUpdate x = n.setSuccessor r := by
  unfold stabilizeUpdate
  split
  · split_ifs with h
    · exact .inr ⟨_, rfl, h, rfl⟩
    · exact .inl rfl
  · exact .inl rfl

end ChordNode

/-- The nodes that can be reached, by address: a request to any other address
raises. -/
abbrev Network (M : ℕ) := String → Option (ChordNode M)

/-- `find_successor`, with the forwards it makes through other nodes.  The fuel
bounds the number of nodes visited (`none` when it does not suffice); `lost`
says, by the fuel left, which forwards raise although their node is there.  A
forward that raises is answered with the node's own successor. -/
def ChordNode.findSuccessor [NeZero M] (net : Network M) (lost : ℕ → Bool) (keyId : ℕ) :
    ℕ → ChordNode M → Option NodeRef
  | 0, _ => none
  | fuel + 1, n =>
    if inRange keyId n.nodeId n.successor.id true then some n.successor
    else if (n.closestPrecedingNode keyId).id = n.nodeId then some n.successor
    else
      match net (n.closestPrecedingNode keyId).address with
      | some m => if lost fuel then some n.successor else findSuccessor net lost keyId fuel m
      | none => some n.successor

end Ring
end ChordInfra
