/-
# A successor that does not answer

One round of `stabilize` in which some nodes do not answer.  When one of its two requests raises,
the node falls back to the first finger that answers a ping, from the farthest one down to the
second (`ChordNode.failOver`).

So the new successor is the foremost of the nodes that answer only where this finger happens to
be (`ChordNode.healed_iff`).  Nodes nearer than it are skipped (`ChordNode.skips_nearest`), and so
is an old successor that answered when the node that it named did not.
-/

import ChordInfra.Ring.Node

namespace ChordInfra
namespace Ring

open Cyclic

variable {M : ℕ} [NeZero M]

namespace ChordNode

/-- The fingers that are pinged after a failure, in this order: those from `M - 1` down to `1`
that name other nodes. -/
def candidates (n : ChordNode M) : List (Fin M) :=
  (List.finRange M).reverse.filter fun i => i ≠ 0 ∧ (n.fingers i).nodeId ≠ n.nodeId

/-- The failure branch of `stabilize`: the first candidate that answers becomes the successor. -/
def failOver (answers : String → Bool) (n : ChordNode M) : ChordNode M :=
  match n.candidates.find? fun i => answers (n.fingers i).nodeAddress with
  | some i => n.setSuccessor (n.fingers i).ref
  | none => n

/-- `stabilize`, when the nodes at the addresses that `answers` says answer and the successor,
if it does, names `x` for its predecessor. -/
def stabilizeRound (answers : String → Bool) (x : Option NodeRef) (n : ChordNode M) : ChordNode M :=
  if n.successor.id = n.nodeId then n.stabilizeAlone n.predecessor
  else if answers n.successor.address then
    if answers (n.stabilizeUpdate x).successor.address then n.stabilizeUpdate x
    else (n.stabilizeUpdate x).failOver answers
  else n.failOver answers

/-- The nodes that the node knows: its successor and its fingers. -/
def known (n : ChordNode M) : List NodeRef := List.ofFn fun i => (n.fingers i).ref

/-- No node that the node knows and that answers lies strictly between the node and `r`. -/
def Foremost (n : ChordNode M) (answers : String → Bool) (r : NodeRef) : Prop :=
  ∀ c ∈ n.known, answers c.address = true →
    arc (2 ^ M) n.nodeId r.id ≤ arc (2 ^ M) n.nodeId c.id

/-- After the round the successor answers, and it is the foremost of the nodes known before. -/
def Healed (n : ChordNode M) (answers : String → Bool) (x : Option NodeRef) : Prop :=
  answers (n.stabilizeRound answers x).successor.address = true ∧
    n.Foremost answers (n.stabilizeRound answers x).successor

/-- The nearest that the node learns of from its successor: the node that this one names, where
it lies between, or the successor itself. -/
def nearer (n : ChordNode M) (x : Option NodeRef) : NodeRef :=
  (x.filter fun r => inRange r.id n.nodeId n.successor.id false).getD n.successor

/-- The farthest finger that names another node which answers. -/
def Farthest (n : ChordNode M) (answers : String → Bool) (i : Fin M) : Prop :=
  (i ≠ 0 ∧ (n.fingers i).nodeId ≠ n.nodeId ∧ answers (n.fingers i).nodeAddress = true) ∧
    ∀ j, i < j → (n.fingers j).nodeId ≠ n.nodeId → answers (n.fingers j).nodeAddress = false

/-- What a node needs to find the foremost of the nodes that answer: which node it turns to
depends on the branch of `stabilize`, and this one has to be the foremost. -/
def Recovers (n : ChordNode M) (answers : String → Bool) (x : Option NodeRef) : Prop :=
  if n.successor.id = n.nodeId then
    ∃ p ∈ n.predecessor, p.id ≠ n.nodeId ∧ answers p.address = true ∧ n.Foremost answers p
  else if answers n.successor.address = true ∧ answers (n.nearer x).address = true then
    n.Foremost answers (n.nearer x)
  else ∃ i, n.Farthest answers i ∧ n.Foremost answers (n.fingers i).ref

section Round

variable {n m : ChordNode M} {answers : String → Bool} {x : Option NodeRef}

theorem stabilizeUpdate_successor (n : ChordNode M) (x : Option NodeRef) :
    (n.stabilizeUpdate x).successor = n.nearer x := by
  unfold stabilizeUpdate nearer
  cases x with
  | none => rfl
  | some r =>
    dsimp only
    rw [Option.filter_some]
    split_ifs
    · rw [setSuccessor_successor]
      rfl
    · rfl

theorem mem_candidates {i : Fin M} :
    i ∈ n.candidates ↔ i ≠ 0 ∧ (n.fingers i).nodeId ≠ n.nodeId := by
  simp [candidates]

/-- The first candidate that answers is the farthest finger that does. -/
theorem find_candidates_iff {i : Fin M} :
    (n.candidates.find? fun i => answers (n.fingers i).nodeAddress) = some i ↔
      n.Farthest answers i := by
  have hsorted : n.candidates.Pairwise (· > ·) :=
    (List.pairwise_reverse.2 (List.pairwise_lt_finRange M)).filter _
  rw [find?_decreasing_eq_some_iff hsorted, mem_candidates]
  constructor
  · rintro ⟨⟨hi0, hid⟩, hanswers, hlater⟩
    refine ⟨⟨hi0, hid, hanswers⟩, fun j hij hjd => ?_⟩
    have hj0 : j ≠ 0 := by
      rintro rfl
      exact absurd hij (Fin.not_lt_zero i)
    simpa using hlater j (mem_candidates.2 ⟨hj0, hjd⟩) hij
  · rintro ⟨⟨hi0, hid, hanswers⟩, hlater⟩
    refine ⟨⟨hi0, hid⟩, hanswers, fun j hj hij => ?_⟩
    simp [hlater j hij (mem_candidates.1 hj).2]

/-- What the failure branch does to a node whose further fingers are those of `n`. -/
theorem failOver_cases (hid : m.nodeId = n.nodeId) (hfingers : ∀ i, i ≠ 0 → m.fingers i = n.fingers i) :
    (∃ i, n.Farthest answers i ∧ (m.failOver answers).successor = (n.fingers i).ref) ∨
      (∀ i, ¬n.Farthest answers i) ∧ (m.failOver answers).successor = m.successor := by
  have hiff : ∀ i, m.Farthest answers i ↔ n.Farthest answers i := by
    intro i
    unfold Farthest
    rw [hid]
    refine and_congr ⟨fun h => ?_, fun h => ?_⟩ (forall_congr' fun j => imp_congr_right fun hij => ?_)
    · rwa [hfingers i h.1] at h
    · rwa [hfingers i h.1]
    · have hj : j ≠ 0 := by
        rintro rfl
        exact absurd hij (Fin.not_lt_zero i)
      rw [hfingers j hj]
  unfold failOver
  split
  · next i hi =>
    have hfar := find_candidates_iff.1 hi
    refine .inl ⟨i, (hiff i).1 hfar, ?_⟩
    rw [setSuccessor_successor, hfingers i hfar.1.1]
  · next hnone =>
    refine .inr ⟨fun i hi => ?_, rfl⟩
    rw [find_candidates_iff.2 ((hiff i).2 hi)] at hnone
    cases hnone

theorem Farthest.unique {i j : Fin M} (hi : n.Farthest answers i) (hj : n.Farthest answers j) :
    i = j := by
  have hfound := find_candidates_iff.2 hi
  rw [find_candidates_iff.2 hj] at hfound
  exact (Option.some.inj hfound).symm

/-- Falling back heals the ring where the farthest finger that answers is the foremost node. -/
theorem failOver_iff (hid : m.nodeId = n.nodeId) (hfingers : ∀ i, i ≠ 0 → m.fingers i = n.fingers i)
    (hdead : answers m.successor.address = false) :
    (answers (m.failOver answers).successor.address = true ∧
        n.Foremost answers (m.failOver answers).successor) ↔
      ∃ i, n.Farthest answers i ∧ n.Foremost answers (n.fingers i).ref := by
  rcases @failOver_cases M _ n m answers hid hfingers with ⟨i, hi, he⟩ | ⟨hnone, he⟩
  · rw [he]
    constructor
    · exact fun h => ⟨i, hi, h.2⟩
    · rintro ⟨j, hj, hforemost⟩
      rw [hj.unique hi] at hforemost
      exact ⟨hi.1.2.2, hforemost⟩
  · rw [he, hdead]
    constructor
    · exact fun h => absurd h.1 (by decide)
    · rintro ⟨i, hi, -⟩
      exact absurd hi (hnone i)

/-- **A round finds the foremost node that answers exactly when this is the node that its branch
turns to**: after a failure, the farthest finger that answers. -/
theorem healed_iff (hid : n.nodeId < 2 ^ M) (hknown : ∀ c ∈ n.known, c.id < 2 ^ M)
    (hlive : ∃ c ∈ n.known, c.id ≠ n.nodeId ∧ answers c.address = true) :
    n.Healed answers x ↔ n.Recovers answers x := by
  unfold Healed stabilizeRound Recovers
  by_cases hself : n.successor.id = n.nodeId
  · rw [if_pos hself, if_pos hself]
    -- the node itself is farther than all the others
    have hfar : ∀ {r : NodeRef}, r.id = n.nodeId → ¬n.Foremost answers r := by
      intro r hr hforemost
      obtain ⟨c, hc, hne, hanswers⟩ := hlive
      have hle := hforemost c hc hanswers
      rw [hr, arc_self] at hle
      exact absurd (arc_lt_of_ne hid (hknown c hc) (Ne.symm hne)) (Nat.not_lt.2 hle)
    unfold stabilizeAlone
    cases hp : n.predecessor with
    | none =>
      refine ⟨fun h => absurd h.2 (hfar hself), ?_⟩
      rintro ⟨p, hp', -⟩
      cases hp'
    | some p =>
      dsimp only
      split_ifs with hpid
      · rw [setSuccessor_successor]
        constructor
        · exact fun h => ⟨p, rfl, hpid, h⟩
        · rintro ⟨q, hq, -, h⟩
          cases hq
          exact h
      · refine ⟨fun h => absurd h.2 (hfar hself), ?_⟩
        rintro ⟨q, hq, hqid, -⟩
        cases hq
        exact absurd hqid hpid
  · rw [if_neg hself, if_neg hself]
    cases hsucc : answers n.successor.address with
    | false =>
      have hnot : ¬(false = true ∧ answers (n.nearer x).address = true) := fun h => by cases h.1
      rw [if_neg Bool.false_ne_true, if_neg hnot]
      exact failOver_iff rfl (fun _ _ => rfl) hsucc
    | true =>
      rw [if_pos rfl, stabilizeUpdate_successor]
      cases hnearer : answers (n.nearer x).address with
      | true =>
        rw [if_pos rfl, if_pos ⟨rfl, rfl⟩, stabilizeUpdate_successor, hnearer]
        exact and_iff_right rfl
      | false =>
        have hnot : ¬(true = true ∧ false = true) := fun h => by cases h.2
        rw [if_neg Bool.false_ne_true, if_neg hnot]
        refine failOver_iff ?_ (fun i hi => ?_) (by rw [stabilizeUpdate_successor, hnearer])
        · rcases n.stabilizeUpdate_cases x with he | ⟨r, -, -, he⟩ <;> rw [he]
          rfl
        · rcases n.stabilizeUpdate_cases x with he | ⟨r, -, -, he⟩ <;> rw [he]
          exact Function.update_of_ne hi ..

end Round

/-- Node `10` with the successor `20` and the farthest finger `200`; the fingers between name
`30`. -/
def sparse : ChordNode 8 :=
  ⟨"a", 10, none, fun i => ⟨(10 + 2 ^ i.val) % 2 ^ 8,
    if i = 0 then 20 else if i = 7 then 200 else 30,
    if i = 0 then "b" else if i = 7 then "d" else "c"⟩⟩

/-- All nodes but `20` answer. -/
def allBut (a : String) : Bool := a ≠ "b"

theorem sparse_known : ∀ c ∈ sparse.known, c.id < 2 ^ 8 := by decide

theorem sparse_live : ∃ c ∈ sparse.known, c.id ≠ sparse.nodeId ∧ allBut c.address = true :=
  ⟨⟨30, "c"⟩, by decide, by decide, by decide⟩

/-- The hypotheses of `healed_iff` are satisfiable: `20` does not answer. -/
theorem healed_iff_sparse : sparse.Healed allBut none ↔ sparse.Recovers allBut none :=
  healed_iff (by decide) sparse_known sparse_live

/-- **A round skips the nearest node that answers**: `20` does not answer, and node `10` takes
`200` for its successor though `30` answers. -/
theorem skips_nearest : (sparse.stabilizeRound allBut none).successor = ⟨200, "d"⟩ ∧
    ⟨30, "c"⟩ ∈ sparse.known ∧ allBut "c" = true ∧
    (∃ c ∈ sparse.known, c.id ≠ sparse.nodeId ∧ allBut c.address = true) ∧
    ¬sparse.Healed allBut none := by
  have hround : (sparse.stabilizeRound allBut none).successor = ⟨200, "d"⟩ := by decide
  refine ⟨hround, by decide, by decide, sparse_live, fun h => ?_⟩
  have hle := h.2 ⟨30, "c"⟩ (by decide) (by decide)
  rw [hround] at hle
  exact absurd hle (by decide)

end ChordNode

end Ring
end ChordInfra
