/-
# A node that crashes

A member of a ring with right pointers stops answering and nobody else fails.
Two nodes still name it: the node before it for its successor, the node after it
for its predecessor.  The node after it clears it once two pings have failed.
The node before it falls back to its farthest finger that answers and then walks
back along predecessors, one a round, as far as the node after the crashed one;
before that one has cleared its predecessor the walk ends at the crashed node
again and starts over.

So the ring without the crashed node comes about whenever the node before it has
a further finger that names a third node, and never otherwise
(`Crash.relinked_iff`): successors are kept in no list, and a node whose fingers
name only itself and the crashed node keeps the latter for its successor for
good.
-/

import ChordInfra.Ring.Canonical
import ChordInfra.Ring.Fingers
import Mathlib.Data.List.Count

namespace ChordInfra
namespace Ring

open Cyclic

variable {M : ℕ}

/-- A member of a ring of several that crashes, and its neighbours. -/
structure Crash (r : Members M) where
  before : ChordNode M
  crashed : ChordNode M
  next : ChordNode M
  before_mem : before ∈ r.nodes
  crashed_mem : crashed ∈ r.nodes
  ne : before ≠ crashed
  nextAfter_before : r.NextAfter before crashed
  nextAfter_crashed : r.NextAfter crashed next

namespace Crash

variable {r : Members M} {k : Crash r} {st : Rounds M} {x : NodeRef} {y : Option NodeRef}
  {m n n' t : ChordNode M} {b : String} {i : Fin M}

/-- A further finger of the node before names a third node. -/
def Reaches [NeZero M] (k : Crash r) : Prop :=
  ∃ i, i ≠ 0 ∧ (k.before.fingers i).ref ≠ k.crashed.ref ∧ (k.before.fingers i).ref ≠ k.before.ref

instance [NeZero M] (k : Crash r) : Decidable k.Reaches := by
  unfold Reaches
  infer_instance

theorem next_mem (k : Crash r) : k.next ∈ r.nodes := k.nextAfter_crashed.1

theorem id_ne (k : Crash r) : k.before.nodeId ≠ k.crashed.nodeId :=
  fun h => k.ne (r.eq_of_nodeId k.before_mem k.crashed_mem h)

theorem next_ne (k : Crash r) : k.next ≠ k.crashed := fun h =>
  k.nextAfter_crashed.ne k.crashed_mem k.before_mem k.ne (congrArg ChordNode.nodeId h)

/-- There is a member other than the crashed one. -/
theorem others (k : Crash r) : ∃ m ∈ r.nodes, m.nodeId ≠ k.crashed.nodeId :=
  ⟨k.before, k.before_mem, k.id_ne⟩

/-- With a third member the neighbours are two. -/
theorem next_ne_before (k : Crash r) (hm : m ∈ r.nodes) (hmb : m ≠ k.before) (hmc : m ≠ k.crashed) :
    k.next ≠ k.before := by
  intro he
  have h₁ := k.nextAfter_before.2 m hm
  have h₂ := k.nextAfter_crashed.2 m hm
  rw [he] at h₂
  have hb := r.ids_lt _ k.before_mem
  have hc := r.ids_lt _ k.crashed_mem
  have hidm := r.ids_lt m hm
  have hbc := k.id_ne
  have hmb' : m.nodeId ≠ k.before.nodeId := fun h => hmb (r.eq_of_nodeId hm k.before_mem h)
  have hmc' : m.nodeId ≠ k.crashed.nodeId := fun h => hmc (r.eq_of_nodeId hm k.crashed_mem h)
  unfold arc at h₁ h₂
  split_ifs at * <;> omega

/-! ### The pointers after the crash -/

variable [NeZero M]

/-- The pointers when the node before has the successor `x` and the node after
the predecessor `y`; the others are as they were. -/
def expected (k : Crash r) (x : NodeRef) (y : Option NodeRef) (b : String) : Option Pointers :=
  if b = k.crashed.address then none
  else (r.net b).map fun m => ⟨m.nodeId, m.address,
    if b = k.before.address then x else m.successor,
    if b = k.next.address then y else m.predecessor⟩

/-- The network has these pointers, and the node before has its further fingers. -/
structure At (k : Crash r) (x : NodeRef) (y : Option NodeRef) (net : Network M) : Prop where
  pointers : ∀ b, (net b).map ChordNode.pointers = k.expected x y b
  fingers : ∀ n, net k.before.address = some n → ∀ i, i ≠ 0 → n.fingers i = k.before.fingers i

section At

variable {net : Network M}

theorem At.crashed (h : k.At x y net) : net k.crashed.address = none := by
  have he := h.pointers k.crashed.address
  rw [expected, if_pos rfl] at he
  exact Option.map_eq_none_iff.1 he

/-- A member that has not crashed. -/
theorem At.alive (h : k.At x y net) (hm : m ∈ r.nodes) (hmc : m ≠ k.crashed) :
    ∃ n, net m.address = some n ∧ n.ref = m.ref ∧
      n.successor = (if m.address = k.before.address then x else m.successor) ∧
      n.predecessor = (if m.address = k.next.address then y else m.predecessor) := by
  have he := h.pointers m.address
  rw [expected, if_neg fun ha => hmc (Members.eq_of_address hm k.crashed_mem ha),
    Members.net_address hm] at he
  obtain ⟨n, hn, hp⟩ := Option.map_eq_some_iff.1 he
  refine ⟨n, hn, ?_, congrArg Pointers.successor hp, congrArg Pointers.predecessor hp⟩
  unfold ChordNode.ref
  rw [show n.nodeId = m.nodeId from congrArg Pointers.id hp,
    show n.address = m.address from congrArg Pointers.address hp]

/-- There are no other nodes. -/
theorem At.cases (h : k.At x y net) (hn : net b = some n) :
    ∃ m ∈ r.nodes, m ≠ k.crashed ∧ m.address = b ∧ n.ref = m.ref := by
  have he := h.pointers b
  rw [hn] at he
  unfold expected at he
  by_cases hb : b = k.crashed.address
  · rw [if_pos hb] at he
    cases he
  · rw [if_neg hb] at he
    obtain ⟨m, hm, hp⟩ := Option.map_eq_some_iff.1 he.symm
    obtain ⟨hmem, rfl⟩ := Members.mem_of_net hm
    refine ⟨m, hmem, fun hc => hb (congrArg ChordNode.address hc), rfl, ?_⟩
    unfold ChordNode.ref
    rw [show n.nodeId = m.nodeId from (congrArg Pointers.id hp).symm,
      show n.address = m.address from (congrArg Pointers.address hp).symm]

/-- One node replaced, by what may change its own entry only. -/
theorem At.update {x' : NodeRef} {y' : Option NodeRef} (h : k.At x y net) (hm : m ∈ r.nodes)
    (hmc : m ≠ k.crashed) (href : n'.ref = m.ref)
    (hsucc : n'.successor = if m.address = k.before.address then x' else m.successor)
    (hpred : n'.predecessor = if m.address = k.next.address then y' else m.predecessor)
    (hx : m.address ≠ k.before.address → x' = x) (hy : m.address ≠ k.next.address → y' = y)
    (hfingers : m.address = k.before.address → ∀ i, i ≠ 0 → n'.fingers i = k.before.fingers i) :
    k.At x' y' (Function.update net m.address (some n')) := by
  refine ⟨fun b => ?_, fun n hn => ?_⟩
  · by_cases hb : b = m.address
    · subst hb
      rw [Function.update_self, Option.map_some, expected,
        if_neg fun ha => hmc (Members.eq_of_address hm k.crashed_mem ha), Members.net_address hm,
        Option.map_some]
      unfold ChordNode.pointers
      rw [hsucc, hpred, show n'.nodeId = m.nodeId from congrArg NodeRef.id href,
        show n'.address = m.address from congrArg NodeRef.address href]
    · rw [Function.update_of_ne hb, h.pointers b]
      have hxb : b = k.before.address → x = x' := fun he => (hx fun hmb => hb (by rw [he, hmb])).symm
      have hyb : b = k.next.address → y = y' := fun he => (hy fun hmn => hb (by rw [he, hmn])).symm
      unfold expected
      split_ifs with hbc hbb hbn hbn
      · rfl
      · rw [hxb hbb, hyb hbn]
      · rw [hxb hbb]
      · rw [hyb hbn]
      · rfl
  · by_cases hmb : m.address = k.before.address
    · rw [← hmb, Function.update_self] at hn
      obtain rfl := Option.some.inj hn
      exact hfingers hmb
    · rw [Function.update_of_ne (Ne.symm hmb)] at hn
      exact h.fingers n hn

end At

/-! ### Rounds of the other nodes -/

section Others

/-- The crashed node does not answer, the others do. -/
theorem At.answers (h : k.At x y st.nodes) (hm : m ∈ r.nodes) :
    st.answers m.address = true ↔ m ≠ k.crashed := by
  unfold Rounds.answers
  constructor
  · rintro hsome rfl
    rw [h.crashed] at hsome
    cases hsome
  · intro hmc
    obtain ⟨n, hn, -⟩ := h.alive hm hmc
    rw [hn]
    rfl

theorem At.silent (h : k.At x y st.nodes) : st.answers k.crashed.address = false := by
  unfold Rounds.answers
  rw [h.crashed]
  rfl

omit [NeZero M] in
/-- Addresses tell members apart. -/
theorem address_ne (hm : m ∈ r.nodes) (ht : t ∈ r.nodes) (hne : m ≠ t) : m.address ≠ t.address :=
  fun he => hne (Members.eq_of_address hm ht he)

/-- The other nodes find nothing new. -/
theorem At.stabilize_other (h : k.At x y st.nodes) (hr : r.Tended) (hm : m ∈ r.nodes)
    (hmc : m ≠ k.crashed) (hmb : m ≠ k.before) (hn : st.nodes m.address = some n) :
    st.stabilize m.address n = st := by
  obtain ⟨n', hn', href, hsucc, -⟩ := h.alive hm hmc
  obtain rfl := Option.some.inj (hn'.symm.trans hn)
  rw [if_neg (address_ne hm k.before_mem hmb)] at hsucc
  obtain ⟨t, ht, hmt⟩ := hr.successors m hm
  have htm : t.nodeId ≠ m.nodeId := ht.ne hm k.crashed_mem (Ne.symm hmc)
  have htc : t ≠ k.crashed := by
    rintro rfl
    exact hmb (ht.prev_unique k.nextAfter_before hm k.before_mem)
  have htn : t ≠ k.next := by
    rintro rfl
    exact hmc (ht.prev_unique k.nextAfter_crashed hm k.crashed_mem)
  obtain ⟨t', ht', htref, -, htpred⟩ := h.alive ht.1 htc
  rw [if_neg (address_ne ht.1 k.next_mem htn)] at htpred
  refine Rounds.stabilize_idle hn ?_ (t := t') ?_ ?_ ?_
  · rw [hsucc, hmt, show n'.nodeId = m.nodeId from congrArg NodeRef.id href]
    exact htm
  · rw [hsucc, hmt]
    exact ht'
  · rw [hsucc, hmt]
    exact congrArg NodeRef.id htref
  · rw [htpred, href]
    obtain ⟨q, hq, hqt, hpred | ⟨rfl, -⟩⟩ := hr.predecessors t ht.1
    · rw [hpred, hqt.prev_unique ht hq hm]
    · exact absurd (congrArg ChordNode.nodeId (hqt.prev_unique ht hq hm)) htm

omit [NeZero M] in
/-- A round of `check_predecessor` counts for its own node. -/
theorem checkPredecessor_failCount (hb : b ≠ k.next.address) :
    (st.checkPredecessor b n).failCount k.next.address = st.failCount k.next.address := by
  unfold Rounds.checkPredecessor
  cases n.predecessor with
  | none => rfl
  | some q => exact Function.update_of_ne (Ne.symm hb) _ _

/-- The predecessors of the other nodes answer. -/
theorem At.predecessor_answers (h : k.At x y st.nodes) (hr : r.Tended) (hm : m ∈ r.nodes)
    (hmc : m ≠ k.crashed) (hmn : m ≠ k.next) (hn : st.nodes m.address = some n) :
    ∀ q ∈ n.predecessor, st.answers q.address = true := by
  obtain ⟨n', hn', -, -, hpred⟩ := h.alive hm hmc
  obtain rfl := Option.some.inj (hn'.symm.trans hn)
  rw [if_neg (address_ne hm k.next_mem hmn)] at hpred
  intro q hq
  rw [hpred] at hq
  obtain ⟨p, hp, hpm, hmp | ⟨-, hmp⟩⟩ := hr.predecessors m hm
  · rw [hmp] at hq
    cases hq
    refine (h.answers hp).2 ?_
    rintro rfl
    exact hmn (hpm.unique k.nextAfter_crashed k.crashed_mem)
  · rw [hmp] at hq
    cases hq

/-- `fix_fingers` of another node changes no pointer. -/
theorem At.fixFingers_other (h : k.At x y st.nodes) (hm : m ∈ r.nodes) (hmc : m ≠ k.crashed)
    (hmb : m ≠ k.before) (hn : st.nodes m.address = some n) (hi : i ≠ 0) :
    k.At x y (st.fixFingers m.address n i).nodes := by
  obtain ⟨n', hn', href, hsucc, hpred⟩ := h.alive hm hmc
  obtain rfl := Option.some.inj (hn'.symm.trans hn)
  have hmb' := address_ne hm k.before_mem hmb
  unfold Rounds.fixFingers
  split
  · next found _ =>
    exact h.update hm hmc href (by rw [n'.setFinger_successor hi, hsucc]) hpred
      (fun _ => rfl) (fun _ => rfl) fun he => absurd he hmb'
  · exact h

end Others

/-! ### The node after the crashed one -/

/-- **Two failures clear the crashed node.** -/
theorem At.checkPredecessor_next (h : k.At x (some k.crashed.ref) st.nodes)
    (hn : st.nodes k.next.address = some n) :
    k.At x (some k.crashed.ref) (st.checkPredecessor k.next.address n).nodes ∧
        st.failCount k.next.address = 0 ∧
        (st.checkPredecessor k.next.address n).failCount k.next.address = 1 ∨
      k.At x none (st.checkPredecessor k.next.address n).nodes := by
  obtain ⟨n', hn', href, hsucc, hpred⟩ := h.alive k.next_mem k.next_ne
  obtain rfl := Option.some.inj (hn'.symm.trans hn)
  rw [if_pos rfl] at hpred
  have hfingers : k.next.address = k.before.address → ∀ i, i ≠ 0 →
      n'.fingers i = k.before.fingers i := fun he => h.fingers n' (he ▸ hn)
  unfold Rounds.checkPredecessor
  rw [hpred]
  dsimp only
  rw [show k.crashed.ref.address = k.crashed.address from rfl, h.silent]
  unfold Checked.ended
  simp only [Bool.false_eq_true, if_false]
  by_cases hcount : st.failCount k.next.address + 1 < 2
  · rw [if_pos hcount]
    refine .inl ⟨?_, by omega, ?_⟩
    · exact h.update k.next_mem k.next_ne href hsucc (by rw [if_pos rfl, hpred]) (fun _ => rfl)
        (fun _ => rfl) hfingers
    · dsimp only
      rw [Function.update_self]
      omega
  · rw [if_neg hcount]
    have hcleared : Checked.cleared n' k.crashed.ref = { n' with predecessor := none } := by
      unfold Checked.cleared
      rw [hpred]
      exact if_pos rfl
    dsimp only
    rw [hcleared]
    exact .inr (h.update k.next_mem k.next_ne href hsucc (by rw [if_pos rfl]) (fun _ => rfl)
      (fun hne => absurd rfl hne) hfingers)

/-! ### The node before the crashed one -/

/-- What the node before may have for a successor: another member, or the crashed one. -/
def Plausible (k : Crash r) (x : NodeRef) : Prop := ∃ t ∈ r.nodes, t ≠ k.before ∧ x = t.ref

/-- How far the node before still is from the one after: the number of members
nearer than its successor, more for the crashed one, at which it starts. -/
def left (k : Crash r) (x : NodeRef) : ℕ :=
  if x.id = k.crashed.nodeId then r.nodes.length
  else r.nodes.countP fun m =>
    arc (2 ^ M) k.before.nodeId m.nodeId < arc (2 ^ M) k.before.nodeId x.id

/-- More pass a weaker test. -/
theorem countP_lt {α : Type} {l : List α} {p q : α → Bool} {a : α}
    (h : ∀ x ∈ l, p x = true → q x = true) (ha : a ∈ l) (hq : q a = true) (hp : p a = false) :
    l.countP p < l.countP q := by
  obtain ⟨s, t, rfl⟩ := List.append_of_mem ha
  have hs := List.countP_mono_left (l := s) (p := p) (q := q) fun x hx => h x (by simp [hx])
  have ht := List.countP_mono_left (l := t) (p := p) (q := q) fun x hx => h x (by simp [hx])
  simp only [List.countP_append, List.countP_cons, hq, hp, if_true, Bool.false_eq_true, if_false]
  omega

omit [NeZero M] in
/-- A third member is nearer than nobody's crashed successor. -/
theorem left_lt_crashed (ht : t ∈ r.nodes) (htc : t ≠ k.crashed) :
    k.left t.ref < k.left k.crashed.ref := by
  have hid : t.ref.id ≠ k.crashed.nodeId := fun h => htc (r.eq_of_nodeId ht k.crashed_mem h)
  unfold left
  rw [if_pos (show k.crashed.ref.id = k.crashed.nodeId from rfl), if_neg hid]
  exact List.countP_lt_length_iff.2 ⟨t, ht, by simp [ChordNode.ref]⟩

omit [NeZero M] in
/-- The member before another one is nearer. -/
theorem left_lt {q : ChordNode M} (hq : q ∈ r.nodes) (ht : t ∈ r.nodes) (hqc : q ≠ k.crashed)
    (htc : t ≠ k.crashed)
    (hlt : arc (2 ^ M) k.before.nodeId q.nodeId < arc (2 ^ M) k.before.nodeId t.nodeId) :
    k.left q.ref < k.left t.ref := by
  have hidq : q.ref.id ≠ k.crashed.nodeId := fun h => hqc (r.eq_of_nodeId hq k.crashed_mem h)
  have hidt : t.ref.id ≠ k.crashed.nodeId := fun h => htc (r.eq_of_nodeId ht k.crashed_mem h)
  unfold left
  rw [if_neg hidq, if_neg hidt]
  refine countP_lt (a := q) (fun x _ hx => ?_) hq ?_ ?_
  · have hx' := of_decide_eq_true hx
    exact decide_eq_true (hx'.trans hlt)
  · exact decide_eq_true hlt
  · exact decide_eq_false (Nat.lt_irrefl _)

omit [NeZero M] in
/-- Somebody is always nearer: the crashed node. -/
theorem left_pos (hx : k.Plausible x) : 0 < k.left x := by
  obtain ⟨t, ht, htb, rfl⟩ := hx
  unfold left
  split_ifs with hid
  · exact List.length_pos_of_mem ht
  · refine List.countP_pos_iff.2 ⟨k.crashed, k.crashed_mem, decide_eq_true ?_⟩
    have hle := k.nextAfter_before.2 t ht
    have hne : arc (2 ^ M) k.before.nodeId k.crashed.nodeId ≠ arc (2 ^ M) k.before.nodeId t.nodeId :=
      fun he => hid (eq_of_arc_eq (r.ids_lt _ k.before_mem) (r.ids_lt _ k.crashed_mem)
        (r.ids_lt t ht) he).symm
    exact lt_of_le_of_ne hle hne

omit [NeZero M] in
theorem left_le (k : Crash r) (x : NodeRef) : k.left x ≤ r.nodes.length := by
  unfold left
  split_ifs
  · exact le_rfl
  · exact List.countP_le_length

/-- A successor that was set is set anew. -/
theorem setSuccessor_setSuccessor (n : ChordNode M) (x x' : NodeRef) :
    (n.setSuccessor x).setSuccessor x' = n.setSuccessor x' := by
  unfold ChordNode.setSuccessor ChordNode.setFinger
  simp

/-- **The farthest finger that answers** is a third node. -/
theorem At.failOver (h : k.At x y st.nodes) (hr : r.Tended) (hreach : k.Reaches)
    (hid : m.nodeId = k.before.nodeId) (hfingers : ∀ i, i ≠ 0 → m.fingers i = k.before.fingers i) :
    ∃ t ∈ r.nodes, t ≠ k.before ∧ t ≠ k.crashed ∧ m.failOver st.answers = m.setSuccessor t.ref := by
  unfold ChordNode.failOver
  split
  · next i hi =>
    obtain ⟨hi0, hne⟩ := ChordNode.mem_candidates.1 (List.mem_of_find?_eq_some hi)
    have hanswers := List.find?_some hi
    rw [hfingers i hi0] at hne hanswers ⊢
    obtain ⟨t, ht, hto⟩ := hr.fingers _ k.before_mem i
    refine ⟨t, ht, ?_, ?_, by rw [hto]⟩
    · rintro rfl
      exact hne ((congrArg NodeRef.id hto).trans hid.symm)
    · rw [show (k.before.fingers i).nodeAddress = t.address from congrArg NodeRef.address hto] at hanswers
      exact (h.answers ht).1 hanswers
  · next hnone =>
    obtain ⟨i, hi0, hic, hib⟩ := hreach
    obtain ⟨t, ht, hto⟩ := hr.fingers _ k.before_mem i
    rw [hto] at hic hib
    have htb : t.nodeId ≠ k.before.nodeId := fun he => hib (by
      rw [r.eq_of_nodeId ht k.before_mem he])
    have hti : m.fingers i = k.before.fingers i := hfingers i hi0
    have hmem : i ∈ m.candidates := by
      refine ChordNode.mem_candidates.2 ⟨hi0, ?_⟩
      rw [hti, show (k.before.fingers i).nodeId = t.nodeId from congrArg NodeRef.id hto, hid]
      exact htb
    have hsilent := List.find?_eq_none.1 hnone i hmem
    rw [hti, show (k.before.fingers i).nodeAddress = t.address from congrArg NodeRef.address hto,
      (h.answers ht).2 fun he => hic (by rw [he])] at hsilent
    exact absurd rfl hsilent

/-- The node before has taken another successor. -/
theorem At.setSuccessor (h : k.At x y st.nodes) (x' : NodeRef)
    (hn : st.nodes k.before.address = some n) :
    k.At x' y (st.set k.before.address (n.setSuccessor x')).nodes := by
  obtain ⟨n', hn', href, -, hpred⟩ := h.alive k.before_mem k.ne
  obtain rfl := Option.some.inj (hn'.symm.trans hn)
  refine h.update k.before_mem k.ne href ?_ ?_ (fun hne => absurd rfl hne) (fun _ => rfl)
    fun _ i hi => ?_
  · rw [if_pos rfl, ChordNode.setSuccessor_successor]
  · rw [ChordNode.setSuccessor_predecessor, hpred]
  · rw [← h.fingers n' hn i hi]
    simp [ChordNode.setSuccessor, ChordNode.setFinger, hi]

/-- The node after the crashed one learns of the node before it, once it knows of nobody. -/
theorem At.notified_next (h : k.At k.next.ref none st.nodes) (hbn : k.before ≠ k.next) :
    k.At k.next.ref (some k.before.ref) (st.notified k.next.address k.before.ref).nodes := by
  obtain ⟨n, hn, href, hsucc, hpred⟩ := h.alive k.next_mem k.next_ne
  rw [if_pos rfl] at hpred
  have hnotify : (n.notify k.before.ref).predecessor = some k.before.ref := by
    unfold ChordNode.notify
    rw [hpred]
  rw [Rounds.notified_eq hn]
  refine h.update k.next_mem k.next_ne ?_ ?_ ?_ (fun _ => rfl) (fun hne => absurd rfl hne)
    fun he => absurd (Members.eq_of_address k.next_mem k.before_mem he).symm hbn
  · unfold ChordNode.ref
    rw [ChordNode.notify_nodeId, ChordNode.notify_address]
    exact href
  · rw [ChordNode.notify_successor, hsucc]
  · rw [if_pos rfl, hnotify]

/-- A node that knows of a nearer one does not take the node before for its predecessor. -/
theorem At.notified_same {q : ChordNode M} {p : NodeRef} (h : k.At x y st.nodes) (hq : q ∈ r.nodes)
    (hqc : q ≠ k.crashed) (hpred : (if q.address = k.next.address then y else q.predecessor) = some p)
    (hnot : inRange k.before.nodeId p.id q.nodeId false = false) :
    st.notified q.address k.before.ref = st := by
  obtain ⟨n, hn, href, -, hp⟩ := h.alive hq hqc
  rw [hpred] at hp
  have hnotify : n.notify k.before.ref = n := by
    unfold ChordNode.notify
    rw [hp]
    dsimp only
    rw [show k.before.ref.id = k.before.nodeId from rfl,
      show n.nodeId = q.nodeId from congrArg NodeRef.id href, hnot]
    exact if_neg (by decide)
  rw [Rounds.notified_eq hn, hnotify, Rounds.set_self hn]

omit [NeZero M] in
/-- A member is not between two neighbours. -/
theorem not_between_neighbours {p q : ChordNode M} (hp : p ∈ r.nodes) (hpq : r.NextAfter p q)
    (hne : p.nodeId ≠ q.nodeId) (hm : m ∈ r.nodes) : inRange m.nodeId p.nodeId q.nodeId false = false := by
  have hle := hpq.2 m hm
  by_contra hin
  rw [Bool.not_eq_false, inRange_exclusive (r.ids_lt m hm) (r.ids_lt p hp) (r.ids_lt q hpq.1) hne] at hin
  omega

/-- A round in which the successor does not answer. -/
theorem stabilize_unanswered (hself : n.successor.id ≠ n.nodeId)
    (hsilent : st.answers n.successor.address = false) :
    st.stabilize b n = st.set b (n.failOver st.answers) := by
  unfold Rounds.stabilize ChordNode.stabilizeRound
  dsimp only
  rw [if_neg hself, hsilent, if_neg (show ¬false = true by decide)]
  exact if_pos (.inr rfl)

/-- A round in which the successor names a nearer node that does not answer. -/
theorem stabilize_fallback {x : Option NodeRef} (hself : n.successor.id ≠ n.nodeId)
    (hanswers : st.answers n.successor.address = true)
    (hx : st.predecessorAt n.successor.address = x)
    (hsilent : st.answers (n.stabilizeUpdate x).successor.address = false) :
    st.stabilize b n = (st.set b ((n.stabilizeUpdate x).failOver st.answers)).notified
      (n.stabilizeUpdate x).successor.address n.ref := by
  unfold Rounds.stabilize ChordNode.stabilizeRound
  dsimp only
  rw [if_neg hself, if_pos hanswers, hx, hsilent, if_neg (show ¬false = true by decide)]
  refine if_neg ?_
  rintro (he | he)
  · exact hself he
  · rw [hanswers] at he
    cases he

/-- The node before falls back to a third node. -/
theorem At.stabilize_silent (h : k.At k.crashed.ref y st.nodes) (hr : r.Tended) (hreach : k.Reaches)
    (hn : st.nodes k.before.address = some n) :
    ∃ t ∈ r.nodes, t ≠ k.before ∧ t ≠ k.crashed ∧
      k.At t.ref y (st.stabilize k.before.address n).nodes := by
  obtain ⟨n', hn', href, hsucc, -⟩ := h.alive k.before_mem k.ne
  obtain rfl := Option.some.inj (hn'.symm.trans hn)
  rw [if_pos rfl] at hsucc
  obtain ⟨t, ht, htb, htc, hover⟩ := h.failOver hr hreach (congrArg NodeRef.id href) (h.fingers n' hn)
  refine ⟨t, ht, htb, htc, ?_⟩
  have hself : n'.successor.id ≠ n'.nodeId := by
    rw [hsucc, show n'.nodeId = k.before.nodeId from congrArg NodeRef.id href]
    exact Ne.symm k.id_ne
  have hsilent : st.answers n'.successor.address = false := by
    rw [hsucc]
    exact h.silent
  rw [stabilize_unanswered hself hsilent, hover]
  exact h.setSuccessor _ hn

/-- The node before finds the crashed one again, and falls back to a third node. -/
theorem At.stabilize_again (h : k.At k.next.ref (some k.crashed.ref) st.nodes) (hr : r.Tended)
    (hreach : k.Reaches) (hbn : k.before ≠ k.next) (hn : st.nodes k.before.address = some n) :
    ∃ t ∈ r.nodes, t ≠ k.before ∧ t ≠ k.crashed ∧
      k.At t.ref (some k.crashed.ref) (st.stabilize k.before.address n).nodes := by
  obtain ⟨n', hn', href, hsucc, -⟩ := h.alive k.before_mem k.ne
  obtain rfl := Option.some.inj (hn'.symm.trans hn)
  rw [if_pos rfl] at hsucc
  have hid : n'.nodeId = k.before.nodeId := congrArg NodeRef.id href
  obtain ⟨t', ht', -, -, hpred⟩ := h.alive k.next_mem k.next_ne
  rw [if_pos rfl] at hpred
  have hnb : k.next.nodeId ≠ k.before.nodeId := fun he =>
    hbn (r.eq_of_nodeId k.next_mem k.before_mem he).symm
  have hself : n'.successor.id ≠ n'.nodeId := by
    rw [hsucc, hid]
    exact hnb
  have hanswers : st.answers n'.successor.address = true := by
    rw [hsucc]
    exact (h.answers k.next_mem).2 k.next_ne
  have hx : st.predecessorAt n'.successor.address = some k.crashed.ref := by
    unfold Rounds.predecessorAt
    rw [hsucc, show k.next.ref.address = k.next.address from rfl, ht']
    exact hpred
  -- the crashed node lies between the two
  have hbetween : inRange k.crashed.nodeId k.before.nodeId k.next.nodeId false = true := by
    rw [inRange_exclusive (r.ids_lt _ k.crashed_mem) (r.ids_lt _ k.before_mem)
      (r.ids_lt _ k.next_mem) (Ne.symm hnb)]
    refine lt_of_le_of_ne (k.nextAfter_before.2 _ k.next_mem) fun he => k.next_ne ?_
    exact r.eq_of_nodeId k.next_mem k.crashed_mem (eq_of_arc_eq (r.ids_lt _ k.before_mem)
      (r.ids_lt _ k.crashed_mem) (r.ids_lt _ k.next_mem) he).symm
  have hupdate : n'.stabilizeUpdate (some k.crashed.ref) = n'.setSuccessor k.crashed.ref := by
    unfold ChordNode.stabilizeUpdate
    dsimp only
    rw [hid, hsucc]
    exact if_pos hbetween
  obtain ⟨t, ht, htb, htc, hover⟩ := h.failOver hr hreach
    (m := n'.setSuccessor k.crashed.ref) hid fun i hi => by
      rw [← h.fingers n' hn i hi]
      simp [ChordNode.setSuccessor, ChordNode.setFinger, hi]
  refine ⟨t, ht, htb, htc, ?_⟩
  rw [stabilize_fallback hself hanswers (x := some k.crashed.ref) hx
    (by rw [hupdate, ChordNode.setSuccessor_successor]; exact h.silent), hupdate, hover,
    setSuccessor_setSuccessor, ChordNode.setSuccessor_successor]
  have hset := h.setSuccessor t.ref hn
  unfold Rounds.notified
  rw [show k.crashed.ref.address = k.crashed.address from rfl, hset.crashed]
  exact hset

/-- **The node before walks one member back**, and tells the node after of itself
when it comes there and that one knows of nobody. -/
theorem At.stabilize_back (h : k.At t.ref y st.nodes) (hr : r.Tended) (hbn : k.before ≠ k.next)
    (hy : y = some k.crashed.ref ∨ y = none) (ht : t ∈ r.nodes) (htb : t ≠ k.before)
    (htc : t ≠ k.crashed) (htn : t ≠ k.next) (hn : st.nodes k.before.address = some n) :
    ∃ q ∈ r.nodes, q ≠ k.before ∧ q ≠ k.crashed ∧ k.left q.ref < k.left t.ref ∧
      (k.At q.ref y (st.stabilize k.before.address n).nodes ∨
        y = none ∧ q = k.next ∧
          k.At k.next.ref (some k.before.ref) (st.stabilize k.before.address n).nodes) := by
  obtain ⟨n', hn', href, hsucc, -⟩ := h.alive k.before_mem k.ne
  obtain rfl := Option.some.inj (hn'.symm.trans hn)
  rw [if_pos rfl] at hsucc
  have hid : n'.nodeId = k.before.nodeId := congrArg NodeRef.id href
  obtain ⟨t', ht', -, -, hpred⟩ := h.alive ht htc
  rw [if_neg (address_ne ht k.next_mem htn)] at hpred
  obtain ⟨q, hq, hqt, hqpred⟩ := hr.predecessors t ht
  have htid : t.nodeId ≠ k.before.nodeId := fun he => htb (r.eq_of_nodeId ht k.before_mem he)
  have hqne : q ≠ t := by
    rintro rfl
    exact hqt.ne hq k.before_mem (Ne.symm htb) rfl
  have hqp : t.predecessor = some q.ref := hqpred.resolve_right fun he => hqne he.1
  have hqc : q ≠ k.crashed := by
    rintro rfl
    exact htn (hqt.unique k.nextAfter_crashed k.crashed_mem)
  have hqb : q ≠ k.before := by
    rintro rfl
    exact htc (hqt.unique k.nextAfter_before k.before_mem)
  -- `q` lies between the node before and `t`
  have hlt : arc (2 ^ M) k.before.nodeId q.nodeId < arc (2 ^ M) k.before.nodeId t.nodeId := by
    have hle := hqt.2 k.before k.before_mem
    have hidb := r.ids_lt _ k.before_mem
    have hidq := r.ids_lt q hq
    have hidt := r.ids_lt t ht
    have hqid : q.nodeId ≠ t.nodeId := fun he => hqne (r.eq_of_nodeId hq ht he)
    have hqbid : q.nodeId ≠ k.before.nodeId := fun he => hqb (r.eq_of_nodeId hq k.before_mem he)
    unfold arc at hle ⊢
    split_ifs at * <;> omega
  refine ⟨q, hq, hqb, hqc, left_lt hq ht hqc htc hlt, ?_⟩
  have hself : n'.successor.id ≠ n'.nodeId := by
    rw [hsucc, hid]
    exact htid
  have hupdate : n'.stabilizeUpdate t'.predecessor = n'.setSuccessor q.ref := by
    rw [hpred, hqp]
    unfold ChordNode.stabilizeUpdate
    dsimp only
    rw [hid, hsucc]
    exact if_pos ((inRange_exclusive (r.ids_lt q hq) (r.ids_lt _ k.before_mem) (r.ids_lt t ht)
      (Ne.symm htid)).2 hlt)
  have hset := h.setSuccessor q.ref hn
  rw [Rounds.stabilize_eq hself (by rw [hsucc]; exact ht')
    (by rw [hupdate, ChordNode.setSuccessor_successor]; exact (h.answers hq).2 hqc),
    hupdate, ChordNode.setSuccessor_successor, href, show q.ref.address = q.address from rfl]
  by_cases hqn : q = k.next
  · subst hqn
    rcases hy with rfl | rfl
    · rw [hset.notified_same hq hqc (if_pos rfl) (not_between_neighbours k.crashed_mem
        k.nextAfter_crashed (fun he => hqc (r.eq_of_nodeId k.crashed_mem hq he).symm) k.before_mem)]
      exact .inl hset
    · exact .inr ⟨rfl, rfl, hset.notified_next hbn⟩
  · obtain ⟨p, hp, hpq, hppred⟩ := hr.predecessors q hq
    have hpne : p ≠ q := by
      rintro rfl
      exact hpq.ne hp k.before_mem (Ne.symm hqb) rfl
    rw [hset.notified_same hq hqc (p := p.ref)
      (by rw [if_neg (address_ne hq k.next_mem hqn)]; exact hppred.resolve_right fun he => hpne he.1)
      (not_between_neighbours hp hpq (fun he => hpne (r.eq_of_nodeId hp hq he)) k.before_mem)]
    exact .inl hset

/-- **The node after learns of the node before**, once it knows of nobody. -/
theorem At.stabilize_greet (h : k.At k.next.ref none st.nodes) (hbn : k.before ≠ k.next)
    (hn : st.nodes k.before.address = some n) :
    k.At k.next.ref (some k.before.ref) (st.stabilize k.before.address n).nodes := by
  obtain ⟨n', hn', href, hsucc, -⟩ := h.alive k.before_mem k.ne
  obtain rfl := Option.some.inj (hn'.symm.trans hn)
  rw [if_pos rfl] at hsucc
  obtain ⟨t', ht', -, -, hpred⟩ := h.alive k.next_mem k.next_ne
  rw [if_pos rfl] at hpred
  have hself : n'.successor.id ≠ n'.nodeId := by
    rw [hsucc, show n'.nodeId = k.before.nodeId from congrArg NodeRef.id href]
    exact fun he => hbn (r.eq_of_nodeId k.next_mem k.before_mem he).symm
  have hupdate : n'.stabilizeUpdate t'.predecessor = n' := by
    rw [hpred]
    rfl
  rw [Rounds.stabilize_eq hself (by rw [hsucc]; exact ht')
    (by rw [hupdate, hsucc]; exact (h.answers k.next_mem).2 k.next_ne), hupdate, Rounds.set_self hn,
    hsucc, href]
  exact h.notified_next hbn

/-- Once the two are neighbours the node before finds nothing new. -/
theorem At.stabilize_done (h : k.At k.next.ref (some k.before.ref) st.nodes)
    (hbn : k.before ≠ k.next) (hn : st.nodes k.before.address = some n) :
    st.stabilize k.before.address n = st := by
  obtain ⟨n', hn', href, hsucc, -⟩ := h.alive k.before_mem k.ne
  obtain rfl := Option.some.inj (hn'.symm.trans hn)
  rw [if_pos rfl] at hsucc
  obtain ⟨t', ht', htref, -, hpred⟩ := h.alive k.next_mem k.next_ne
  rw [if_pos rfl] at hpred
  refine Rounds.stabilize_idle hn ?_ (t := t') ?_ ?_ (by rw [hpred, href])
  · rw [hsucc, show n'.nodeId = k.before.nodeId from congrArg NodeRef.id href]
    exact fun he => hbn (r.eq_of_nodeId k.next_mem k.before_mem he).symm
  · rw [hsucc]
    exact ht'
  · rw [hsucc]
    exact congrArg NodeRef.id htref

/-! ### One round -/

omit [NeZero M] in
theorem notified_failCount (c : NodeRef) : (st.notified b c).failCount = st.failCount := by
  unfold Rounds.notified
  split <;> rfl

/-- `stabilize` counts no failures. -/
theorem stabilize_failCount : (st.stabilize b n).failCount = st.failCount := by
  unfold Rounds.stabilize
  dsimp only
  split_ifs
  · rfl
  · exact notified_failCount _

theorem fixFingers_failCount : (st.fixFingers b n i).failCount = st.failCount := by
  unfold Rounds.fixFingers
  split <;> rfl

/-- **The node before, while the one after it waits for the crashed one.** -/
theorem At.stabilize_waiting (h : k.At x (some k.crashed.ref) st.nodes) (hr : r.Tended)
    (hreach : k.Reaches) (hbn : k.before ≠ k.next) (hx : k.Plausible x)
    (hn : st.nodes k.before.address = some n) :
    ∃ x', k.Plausible x' ∧ k.At x' (some k.crashed.ref) (st.stabilize k.before.address n).nodes := by
  obtain ⟨t, ht, htb, rfl⟩ := hx
  by_cases htc : t = k.crashed
  · subst htc
    obtain ⟨t', ht', htb', -, h'⟩ := h.stabilize_silent hr hreach hn
    exact ⟨t'.ref, ⟨t', ht', htb', rfl⟩, h'⟩
  by_cases htn : t = k.next
  · subst htn
    obtain ⟨t', ht', htb', -, h'⟩ := h.stabilize_again hr hreach hbn hn
    exact ⟨t'.ref, ⟨t', ht', htb', rfl⟩, h'⟩
  obtain ⟨q, hq, hqb, -, -, h' | ⟨he, -⟩⟩ :=
    h.stabilize_back hr hbn (.inl rfl) ht htb htc htn hn
  · exact ⟨q.ref, ⟨q, hq, hqb, rfl⟩, h'⟩
  · cases he

/-- **The node before, once the one after it knows of nobody**: it comes nearer,
or the two are neighbours. -/
theorem At.stabilize_free (h : k.At x none st.nodes) (hr : r.Tended) (hreach : k.Reaches)
    (hbn : k.before ≠ k.next) (hx : k.Plausible x) (hn : st.nodes k.before.address = some n) :
    (∃ x', k.Plausible x' ∧ k.left x' < k.left x ∧
        k.At x' none (st.stabilize k.before.address n).nodes) ∨
      k.At k.next.ref (some k.before.ref) (st.stabilize k.before.address n).nodes := by
  obtain ⟨t, ht, htb, rfl⟩ := hx
  by_cases htc : t = k.crashed
  · subst htc
    obtain ⟨t', ht', htb', htc', h'⟩ := h.stabilize_silent hr hreach hn
    exact .inl ⟨t'.ref, ⟨t', ht', htb', rfl⟩, left_lt_crashed ht' htc', h'⟩
  by_cases htn : t = k.next
  · subst htn
    exact .inr (h.stabilize_greet hbn hn)
  obtain ⟨q, hq, hqb, -, hlt, h' | ⟨-, -, h'⟩⟩ :=
    h.stabilize_back hr hbn (.inr rfl) ht htb htc htn hn
  · exact .inl ⟨q.ref, ⟨q, hq, hqb, rfl⟩, hlt, h'⟩
  · exact .inr h'

/-- A round other than `fix_fingers` of the node before. -/
def Allowed (k : Crash r) (e : Round M) : Prop := ∀ i, e ≠ .fixFingers k.before.address i

/-- **The rounds that may pass unnoticed**: all but `stabilize` and `fix_fingers` of the node
before and `check_predecessor` of the node after, whose count they leave alone. -/
theorem At.after_other (h : k.At x y st.nodes) (hr : r.Tended) {e : Round M} (he : k.Allowed e)
    (hbefore : e ≠ .stabilize k.before.address) (hnext : e ≠ .checkPredecessor k.next.address) :
    k.At x y (st.after e).nodes ∧
      (st.after e).failCount k.next.address = st.failCount k.next.address := by
  cases hn : st.nodes e.address with
  | none =>
    rw [Rounds.after_silent hn]
    exact ⟨h, rfl⟩
  | some n =>
    obtain ⟨m, hm, hmc, ha, -⟩ := h.cases hn
    rw [← ha] at hn
    cases e with
    | stabilize a =>
      obtain rfl : m.address = a := ha
      have hmb : m ≠ k.before := by
        rintro rfl
        exact hbefore rfl
      rw [Rounds.after_stabilize hn, h.stabilize_other hr hm hmc hmb hn]
      exact ⟨h, rfl⟩
    | fixFingers a i =>
      obtain rfl : m.address = a := ha
      have hmb : m ≠ k.before := by
        rintro rfl
        exact he i rfl
      rw [Rounds.after_fixFingers hn]
      exact ⟨h.fixFingers_other hm hmc hmb hn i.2, congrFun fixFingers_failCount _⟩
    | checkPredecessor a =>
      obtain rfl : m.address = a := ha
      have hmn : m ≠ k.next := by
        rintro rfl
        exact hnext rfl
      have hmn' := address_ne hm k.next_mem hmn
      rw [Rounds.after_checkPredecessor hn, checkPredecessor_failCount hmn',
        Rounds.checkPredecessor_answered hn (h.predecessor_answers hr hm hmc hmn hn)]
      exact ⟨h, rfl⟩

/-- A predecessor that is a neighbour answers, and nobody is nothing to check. -/
theorem At.checkPredecessor_settled (h : k.At x y st.nodes) (hy : y = none ∨ y = some k.before.ref)
    (hn : st.nodes k.next.address = some n) :
    (st.checkPredecessor k.next.address n).nodes = st.nodes := by
  obtain ⟨n', hn', -, -, hpred⟩ := h.alive k.next_mem k.next_ne
  obtain rfl := Option.some.inj (hn'.symm.trans hn)
  rw [if_pos rfl] at hpred
  refine Rounds.checkPredecessor_answered hn fun q hq => ?_
  rw [hpred] at hq
  rcases hy with rfl | rfl
  · cases hq
  · cases hq
    exact (h.answers k.before_mem).2 k.ne

/-! ### The way back to a ring -/

/-- How far the ring has come: the node after still waits for the crashed one, with a failure
counted from the first stage on; it knows of nobody, and the node before comes nearer with every
stage; the two are neighbours. -/
def Stage (k : Crash r) (i : ℕ) (st : Rounds M) : Prop :=
  ∃ x, k.Plausible x ∧
    (k.At x (some k.crashed.ref) st.nodes ∧ (i = 0 ∨ i = 1 ∧ st.failCount k.next.address ≠ 0) ∨
      k.At x none st.nodes ∧ k.left x + i ≤ r.nodes.length + 2 ∨
      x = k.next.ref ∧ k.At x (some k.before.ref) st.nodes)

/-- Two rounds of `check_predecessor` after the crashed node, and a round of `stabilize` before
it for every member. -/
def plan (k : Crash r) : List (Round M) :=
  [.checkPredecessor k.next.address, .checkPredecessor k.next.address] ++
    List.replicate r.nodes.length (.stabilize k.before.address)

/-- What the plan has next. -/
theorem plan_get {j : ℕ} {e : Round M} (h : k.plan[j]? = some e) :
    j < 2 ∧ e = .checkPredecessor k.next.address ∨ 2 ≤ j ∧ e = .stabilize k.before.address := by
  unfold plan at h
  match j with
  | 0 => exact .inl ⟨by decide, (Option.some.inj h).symm⟩
  | 1 => exact .inl ⟨by decide, (Option.some.inj h).symm⟩
  | j + 2 =>
    rw [List.getElem?_append_right (by simp)] at h
    exact .inr ⟨by omega, List.eq_of_mem_replicate (List.mem_of_getElem? h)⟩

/-- The two are neighbours: every stage is reached. -/
theorem Stage.of_done (hbn : k.before ≠ k.next) (h : k.At k.next.ref (some k.before.ref) st.nodes)
    (j : ℕ) : k.Stage j st :=
  ⟨k.next.ref, ⟨k.next, k.next_mem, Ne.symm hbn, rfl⟩, .inr (.inr ⟨rfl, h⟩)⟩

/-- **One round** takes the ring to no earlier stage, and the one that the plan has next to a later
one. -/
theorem Stage.after (hr : r.Tended) (hreach : k.Reaches) (hbn : k.before ≠ k.next) {i : ℕ}
    (h : k.Stage i st) {e : Round M} (he : k.Allowed e) :
    ∃ j, i ≤ j ∧ k.Stage j (st.after e) ∧ (k.plan[i]? = some e → i < j) := by
  obtain ⟨x, hx, ⟨hat, hi⟩ | ⟨hat, hleft⟩ | ⟨rfl, hat⟩⟩ := h
  · -- the node after still waits
    have hi1 : i ≤ 1 := by omega
    by_cases hbefore : e = .stabilize k.before.address
    · subst hbefore
      obtain ⟨n, hn, -⟩ := hat.alive k.before_mem k.ne
      obtain ⟨x', hx', hat'⟩ := hat.stabilize_waiting hr hreach hbn hx hn
      refine ⟨i, le_rfl, ⟨x', hx', .inl ?_⟩, fun hplan => ?_⟩
      · rw [Rounds.after_stabilize hn]
        exact ⟨hat', by rwa [stabilize_failCount]⟩
      · rcases plan_get hplan with ⟨-, hne⟩ | ⟨h2, -⟩
        · cases hne
        · omega
    by_cases hnext : e = .checkPredecessor k.next.address
    · subst hnext
      obtain ⟨n, hn, -⟩ := hat.alive k.next_mem k.next_ne
      rcases hat.checkPredecessor_next hn with ⟨hat', h0, h1⟩ | hat'
      · have hi0 : i = 0 := hi.resolve_right fun hi => hi.2 h0
        refine ⟨1, by omega, ⟨x, hx, .inl ?_⟩, fun _ => by omega⟩
        rw [Rounds.after_checkPredecessor hn]
        exact ⟨hat', .inr ⟨rfl, by rw [h1]; decide⟩⟩
      · refine ⟨2, by omega, ⟨x, hx, .inr (.inl ?_)⟩, fun _ => by omega⟩
        rw [Rounds.after_checkPredecessor hn]
        exact ⟨hat', Nat.add_le_add_right (k.left_le x) 2⟩
    obtain ⟨hat', hcount⟩ := hat.after_other hr he hbefore hnext
    refine ⟨i, le_rfl, ⟨x, hx, .inl ⟨hat', by rwa [hcount]⟩⟩, fun hplan => ?_⟩
    rcases plan_get hplan with ⟨-, hne⟩ | ⟨-, hne⟩
    · exact absurd hne hnext
    · exact absurd hne hbefore
  · -- it knows of nobody
    by_cases hbefore : e = .stabilize k.before.address
    · subst hbefore
      obtain ⟨n, hn, -⟩ := hat.alive k.before_mem k.ne
      refine ⟨i + 1, by omega, ?_, fun _ => by omega⟩
      rw [Rounds.after_stabilize hn]
      rcases hat.stabilize_free hr hreach hbn hx hn with ⟨x', hx', hlt, hat'⟩ | hat'
      · exact ⟨x', hx', .inr (.inl ⟨hat', by omega⟩)⟩
      · exact .of_done hbn hat' _
    by_cases hnext : e = .checkPredecessor k.next.address
    · subst hnext
      obtain ⟨n, hn, -⟩ := hat.alive k.next_mem k.next_ne
      have hle := k.left_le x
      refine ⟨max i 2, le_max_left _ _, ⟨x, hx, .inr (.inl ⟨?_, ?_⟩)⟩, fun hplan => ?_⟩
      · rw [Rounds.after_checkPredecessor hn, hat.checkPredecessor_settled (.inl rfl) hn]
        exact hat
      · omega
      · rcases plan_get hplan with ⟨h2, -⟩ | ⟨-, hne⟩
        · omega
        · cases hne
    obtain ⟨hat', -⟩ := hat.after_other hr he hbefore hnext
    refine ⟨i, le_rfl, ⟨x, hx, .inr (.inl ⟨hat', hleft⟩)⟩, fun hplan => ?_⟩
    rcases plan_get hplan with ⟨-, hne⟩ | ⟨-, hne⟩
    · exact absurd hne hnext
    · exact absurd hne hbefore
  · -- the two are neighbours
    refine ⟨i + 1, by omega, .of_done hbn ?_ _, fun _ => by omega⟩
    by_cases hbefore : e = .stabilize k.before.address
    · subst hbefore
      obtain ⟨n, hn, -⟩ := hat.alive k.before_mem k.ne
      rw [Rounds.after_stabilize hn, hat.stabilize_done hbn hn]
      exact hat
    by_cases hnext : e = .checkPredecessor k.next.address
    · subst hnext
      obtain ⟨n, hn, -⟩ := hat.alive k.next_mem k.next_ne
      rw [Rounds.after_checkPredecessor hn, hat.checkPredecessor_settled (.inr rfl) hn]
      exact hat
    exact (hat.after_other hr he hbefore hnext).1

/-- Before the first round. -/
theorem At.start (k : Crash r) (hr : r.Tended) (hbn : k.before ≠ k.next) :
    k.At k.crashed.ref (some k.crashed.ref) (Function.update r.net k.crashed.address none) := by
  have hsucc : k.before.successor = k.crashed.ref := by
    obtain ⟨t, ht, hsucc⟩ := hr.successors _ k.before_mem
    rw [hsucc, ht.unique k.nextAfter_before k.before_mem]
  have hpred : k.next.predecessor = some k.crashed.ref := by
    obtain ⟨q, hq, hqn, hpred⟩ := hr.predecessors _ k.next_mem
    obtain rfl := hqn.prev_unique k.nextAfter_crashed hq k.crashed_mem
    exact hpred.resolve_right fun he => k.next_ne he.1.symm
  refine ⟨fun b => ?_, fun n hn i _ => ?_⟩
  · unfold expected
    split_ifs with hb hbb hbn' hbn'
    · rw [hb, Function.update_self]
      rfl
    · exact absurd (Members.eq_of_address k.before_mem k.next_mem (hbb.symm.trans hbn')) hbn
    · rw [Function.update_of_ne hb, hbb, Members.net_address k.before_mem, ← hsucc]
      rfl
    · rw [Function.update_of_ne hb, hbn', Members.net_address k.next_mem, ← hpred]
      rfl
    · rw [Function.update_of_ne hb]
      rfl
  · rw [Function.update_of_ne (address_ne k.before_mem k.crashed_mem k.ne),
      Members.net_address k.before_mem] at hn
    rw [← Option.some.inj hn]

/-- Where the two are neighbours the ring without the crashed node is linked. -/
theorem At.linked {net : Network M} (h : k.At k.next.ref (some k.before.ref) net) (hr : r.Tended) :
    (r.without k.crashed k.others).Linked net := by
  intro m hm
  obtain ⟨hm, hmid⟩ := (Members.mem_without k.others).1 hm
  have hmc : m ≠ k.crashed := fun he => hmid (congrArg ChordNode.nodeId he)
  obtain ⟨n, hn, href, hsucc, hpred⟩ := h.alive hm hmc
  refine ⟨n, hn, congrArg NodeRef.id href, congrArg NodeRef.address href, ?_, ?_⟩
  · rw [hsucc]
    split_ifs with hb
    · obtain rfl := Members.eq_of_address hm k.before_mem hb
      exact ⟨k.next, k.nextAfter_before.skip k.before_mem k.crashed_mem k.nextAfter_crashed k.others,
        rfl⟩
    · obtain ⟨t, ht, hmt⟩ := hr.successors m hm
      refine ⟨t, ht.without k.others fun he => hb ?_, hmt⟩
      obtain rfl := r.eq_of_nodeId ht.1 k.crashed_mem he
      rw [ht.prev_unique k.nextAfter_before hm k.before_mem]
  · rw [hpred]
    split_ifs with hb
    · obtain rfl := Members.eq_of_address hm k.next_mem hb
      exact ⟨k.before, (Members.mem_without k.others).2 ⟨k.before_mem, k.id_ne⟩,
        k.nextAfter_before.skip k.before_mem k.crashed_mem k.nextAfter_crashed k.others, rfl⟩
    · obtain ⟨q, hq, hqm, hmq⟩ := hr.predecessors m hm
      have hqc : q.nodeId ≠ k.crashed.nodeId := fun he => hb (by
        obtain rfl := r.eq_of_nodeId hq k.crashed_mem he
        rw [hqm.unique k.nextAfter_crashed k.crashed_mem])
      refine ⟨q, (Members.mem_without k.others).2 ⟨hq, hqc⟩, hqm.without k.others hmid, ?_⟩
      refine hmq.resolve_right fun he => ?_
      exact hqm.ne hq k.crashed_mem (fun hc => hqc (congrArg ChordNode.nodeId hc).symm)
        (congrArg ChordNode.nodeId he.1.symm)

/-! ### A node that is stuck -/

/-- The node before still has the crashed one for its successor, and the fingers it had. -/
def Stuck (k : Crash r) (net : Network M) : Prop :=
  net k.crashed.address = none ∧ ∃ n, net k.before.address = some n ∧ n.ref = k.before.ref ∧
    n.successor = k.crashed.ref ∧ ∀ i, i ≠ 0 → n.fingers i = k.before.fingers i

section Stuck

variable {net : Network M}

/-- A node replaced, in which only the predecessor of the node before may differ. -/
theorem Stuck.update (h : k.Stuck net) (hn : net b = some n)
    (hsame : b = k.before.address → n'.ref = n.ref ∧ n'.fingers = n.fingers) :
    k.Stuck (Function.update net b (some n')) := by
  obtain ⟨hcrashed, m, hm, href, hsucc, hfingers⟩ := h
  have hbc : k.crashed.address ≠ b := by
    rintro rfl
    rw [hcrashed] at hn
    cases hn
  refine ⟨by rw [Function.update_of_ne hbc]; exact hcrashed, ?_⟩
  by_cases hb : b = k.before.address
  · obtain ⟨href', hfingers'⟩ := hsame hb
    subst hb
    obtain rfl := Option.some.inj (hm.symm.trans hn)
    refine ⟨n', Function.update_self .., href'.trans href, ?_, fun i hi => ?_⟩
    · unfold ChordNode.successor
      rw [hfingers']
      exact hsucc
    · rw [hfingers']
      exact hfingers i hi
  · exact ⟨m, by rw [Function.update_of_ne (Ne.symm hb)]; exact hm, href, hsucc, hfingers⟩

theorem Stuck.notified (h : k.Stuck st.nodes) (c : NodeRef) : k.Stuck (st.notified b c).nodes := by
  unfold Rounds.notified
  split
  · next n hn =>
    refine h.update hn fun _ => ?_
    unfold ChordNode.notify
    split
    · exact ⟨rfl, rfl⟩
    · split_ifs <;> exact ⟨rfl, rfl⟩
  · exact h

/-- No finger of the node before answers but its own. -/
theorem Stuck.failOver (h : k.Stuck st.nodes) (hreach : ¬k.Reaches)
    (hn : st.nodes k.before.address = some n) : n.failOver st.answers = n := by
  obtain ⟨hcrashed, n', hn', href, -, hfingers⟩ := h
  obtain rfl := Option.some.inj (hn'.symm.trans hn)
  unfold ChordNode.failOver
  split
  · next i hi =>
    obtain ⟨hi0, hne⟩ := ChordNode.mem_candidates.1 (List.mem_of_find?_eq_some hi)
    have hanswers := List.find?_some hi
    rw [hfingers i hi0] at hne hanswers
    have hfinger : (k.before.fingers i).ref = k.crashed.ref := by
      by_contra hc
      refine hreach ⟨i, hi0, hc, fun hb => hne ?_⟩
      exact (congrArg NodeRef.id hb).trans (congrArg NodeRef.id href).symm
    rw [show (k.before.fingers i).nodeAddress = k.crashed.address from
      congrArg NodeRef.address hfinger] at hanswers
    unfold Rounds.answers at hanswers
    rw [hcrashed] at hanswers
    cases hanswers
  · rfl

omit [NeZero M] in
/-- A ping changes the predecessor of its node only. -/
theorem ended_node (c : Checked M) (pred : NodeRef) (answered : Bool) :
    (c.ended pred answered).node.ref = c.node.ref ∧
      (c.ended pred answered).node.fingers = c.node.fingers := by
  unfold Checked.ended
  dsimp only
  split_ifs
  · exact ⟨rfl, rfl⟩
  · exact ⟨rfl, rfl⟩
  · unfold Checked.cleared
    cases c.node.predecessor with
    | none => exact ⟨rfl, rfl⟩
    | some p =>
      dsimp only
      split_ifs <;> exact ⟨rfl, rfl⟩

/-- **One round**: the node before stays stuck. -/
theorem Stuck.after (h : k.Stuck st.nodes) (hreach : ¬k.Reaches) {e : Round M} (he : k.Allowed e) :
    k.Stuck (st.after e).nodes := by
  cases hn : st.nodes e.address with
  | none =>
    rw [Rounds.after_silent hn]
    exact h
  | some n =>
    cases e with
    | stabilize a =>
      rw [Round.address] at hn
      rw [Rounds.after_stabilize hn]
      by_cases ha : a = k.before.address
      · subst ha
        obtain ⟨n', hn', href, hsucc, -⟩ := h.2
        obtain rfl := Option.some.inj (hn'.symm.trans hn)
        have hself : n'.successor.id ≠ n'.nodeId := by
          rw [hsucc, show n'.nodeId = k.before.nodeId from congrArg NodeRef.id href]
          exact Ne.symm k.id_ne
        have hsilent : st.answers n'.successor.address = false := by
          unfold Rounds.answers
          rw [hsucc, show k.crashed.ref.address = k.crashed.address from rfl, h.1]
          rfl
        rw [stabilize_unanswered hself hsilent, h.failOver hreach hn, Rounds.set_self hn]
        exact h
      · have hset : ∀ n', k.Stuck (st.set a n').nodes := fun n' => h.update hn fun hb => absurd hb ha
        unfold Rounds.stabilize
        dsimp only
        split_ifs
        · exact hset _
        · exact (hset _).notified _
    | fixFingers a i =>
      rw [Round.address] at hn
      have ha : a ≠ k.before.address := by
        rintro rfl
        exact he i rfl
      rw [Rounds.after_fixFingers hn]
      unfold Rounds.fixFingers
      split
      · exact h.update hn fun hb => absurd hb ha
      · exact h
    | checkPredecessor a =>
      rw [Round.address] at hn
      rw [Rounds.after_checkPredecessor hn]
      unfold Rounds.checkPredecessor
      split
      · exact h
      · exact h.update hn fun _ => ended_node ..

end Stuck

/-! ### The ring without the crashed node -/

/-- A finger that names a third node: the neighbours are two. -/
theorem Reaches.before_ne_next (h : k.Reaches) (hr : r.Tended) : k.before ≠ k.next := by
  obtain ⟨i, -, hic, hib⟩ := h
  obtain ⟨t, ht, hto⟩ := hr.fingers _ k.before_mem i
  refine Ne.symm (k.next_ne_before ht ?_ ?_)
  · rintro rfl
    exact hib hto
  · rintro rfl
    exact hic hto

/-- A node that is stuck is in no ring without the crashed one. -/
theorem Stuck.not_linked {net : Network M} (h : k.Stuck net) :
    ¬(r.without k.crashed k.others).Linked net := by
  intro hlinked
  obtain ⟨n, hn, hat⟩ := hlinked _ ((Members.mem_without k.others).2 ⟨k.before_mem, k.id_ne⟩)
  obtain ⟨n', hn', -, hsucc, -⟩ := h.2
  obtain rfl := Option.some.inj (hn'.symm.trans hn)
  obtain ⟨t, ht, hto⟩ := hat.successor
  rw [hsucc] at hto
  exact ((Members.mem_without k.others).1 ht.1).2 (congrArg NodeRef.id hto).symm

/-- Rounds but for `fix_fingers` of the node before. -/
def afterAllowed (k : Crash r) (st : Rounds M) (e : Round M) : Rounds M :=
  match e with
  | .fixFingers a i => if a = k.before.address then st else st.after (.fixFingers a i)
  | e => st.after e

theorem afterAllowed_eq {e : Round M} (he : k.Allowed e) (st : Rounds M) :
    k.afterAllowed st e = st.after e := by
  cases e with
  | fixFingers a i =>
    refine if_neg ?_
    rintro rfl
    exact he i rfl
  | stabilize a => rfl
  | checkPredecessor a => rfl

/-- A round of `fix_fingers` of the node before is passed over, every other one is run. -/
theorem afterAllowed_cases (k : Crash r) (st : Rounds M) (e : Round M) :
    k.afterAllowed st e = st ∧ (∃ i, e = .fixFingers k.before.address i) ∨
      k.afterAllowed st e = st.after e ∧ k.Allowed e := by
  by_cases he : ∃ i, e = .fixFingers k.before.address i
  · obtain ⟨i, rfl⟩ := he
    exact .inl ⟨if_pos rfl, i, rfl⟩
  · have hallowed : k.Allowed e := fun i hi => he ⟨i, hi⟩
    exact .inr ⟨afterAllowed_eq hallowed st, hallowed⟩

/-- **After the plan the two are neighbours.** -/
theorem Stage.run (hr : r.Tended) (hreach : k.Reaches) (h : k.Stage 0 st)
    {schedule : List (Round M)} (hplan : k.plan.Sublist schedule)
    (hallowed : ∀ e ∈ schedule, k.Allowed e) :
    k.At k.next.ref (some k.before.ref) (schedule.foldl Rounds.after st).nodes := by
  have hstep : ∀ i s e, k.Stage i s →
      ∃ j, i ≤ j ∧ k.Stage j (k.afterAllowed s e) ∧ (k.plan[i]? = some e → i < j) := by
    intro i s e hs
    rcases k.afterAllowed_cases s e with ⟨he, f, rfl⟩ | ⟨he, hok⟩
    · refine ⟨i, le_rfl, by rwa [he], fun hget => ?_⟩
      rcases plan_get hget with ⟨-, hne⟩ | ⟨-, hne⟩ <;> cases hne
    · rw [he]
      exact hs.after hr hreach (hreach.before_ne_next hr) hok
  have hplan' : (k.plan.drop 0).Sublist schedule := hplan
  obtain ⟨j, hj, x, hx, hstage⟩ := stage_of_plan hstep h hplan'
  have hlength : k.plan.length = r.nodes.length + 2 := by simp [plan]
  rw [List.foldl_ext k.afterAllowed Rounds.after st fun s e he => afterAllowed_eq (hallowed e he) s]
    at hstage
  have hnodes : 0 < r.nodes.length := List.length_pos_of_mem k.before_mem
  rcases hstage with ⟨-, hi⟩ | ⟨-, hleft⟩ | ⟨rfl, hat⟩
  · omega
  · have hpos := left_pos hx
    omega
  · exact hat

/-- A node that is stuck stays so. -/
theorem Stuck.run (h : k.Stuck st.nodes) (hreach : ¬k.Reaches) {schedule : List (Round M)}
    (hallowed : ∀ e ∈ schedule, k.Allowed e) : k.Stuck (schedule.foldl Rounds.after st).nodes := by
  induction schedule generalizing st with
  | nil => exact h
  | cons e schedule ih =>
    exact ih (h.after hreach (hallowed e List.mem_cons_self)) fun e' he' =>
      hallowed e' (List.mem_cons_of_mem _ he')

/-- A node before that reaches no other one is stuck when its successor has crashed. -/
theorem Stuck.start (k : Crash r) (hr : r.Tended) :
    k.Stuck (Function.update r.net k.crashed.address none) := by
  have hsucc : k.before.successor = k.crashed.ref := by
    obtain ⟨t, ht, hsucc⟩ := hr.successors _ k.before_mem
    rw [hsucc, ht.unique k.nextAfter_before k.before_mem]
  refine ⟨Function.update_self .., k.before, ?_, rfl, hsucc, fun _ _ => rfl⟩
  rw [Function.update_of_ne (address_ne k.before_mem k.crashed_mem k.ne)]
  exact Members.net_address k.before_mem

/-- **A crash is healed exactly where the fingers reach a third node.**  In a ring with right
pointers a member stops answering.  After any schedule of rounds with two of `check_predecessor` at
the node after it and then one of `stabilize` at the node before it for every member, in which the
latter draws no finger, the others are linked as a ring if and only if a further finger of the node
before names a third node.  Where none does, the node before has the crashed one for its successor
then, and after any further rounds. -/
theorem relinked_iff (k : Crash r) (hr : r.Tended) (st : Rounds M)
    (hnodes : st.nodes = Function.update r.net k.crashed.address none) {schedule : List (Round M)}
    (hplan : k.plan.Sublist schedule) (hallowed : ∀ e ∈ schedule, k.Allowed e) :
    ((r.without k.crashed k.others).Linked (schedule.foldl Rounds.after st).nodes ↔ k.Reaches) ∧
      (¬k.Reaches → ∀ further : List (Round M), (∀ e ∈ further, k.Allowed e) →
        ∃ n, ((schedule ++ further).foldl Rounds.after st).nodes k.before.address = some n ∧
          n.successor = k.crashed.ref) := by
  have hstuck : k.Stuck st.nodes := hnodes ▸ .start k hr
  refine ⟨⟨fun hlinked => ?_, fun hreach => ?_⟩, fun hreach further hfurther => ?_⟩
  · by_contra hreach
    exact (hstuck.run hreach hallowed).not_linked hlinked
  · have hstart := At.start k hr (hreach.before_ne_next hr)
    rw [← hnodes] at hstart
    have hstage : k.Stage 0 st :=
      ⟨k.crashed.ref, ⟨k.crashed, k.crashed_mem, Ne.symm k.ne, rfl⟩, .inl ⟨hstart, .inl rfl⟩⟩
    exact (hstage.run hr hreach hplan hallowed).linked hr
  · have hall : ∀ e ∈ schedule ++ further, k.Allowed e := fun e he =>
      (List.mem_append.1 he).elim (hallowed e) (hfurther e)
    obtain ⟨-, n, hn, -, hsucc, -⟩ := hstuck.run hreach hall
    exact ⟨n, hn, hsucc⟩

/-! ### Two crashes -/

end Crash

/-- The stable ring of given nodes has right pointers. -/
theorem Members.canonical_tended [NeZero M] {refs : List NodeRef} (h : Members.Valid M refs) :
    (Members.canonical refs h).Tended := by
  have hstable := Members.canonical_stable h
  refine ⟨hstable.successors, fun n hn => ?_, hstable.fingersNameMembers, hstable.starts⟩
  obtain ⟨q, hq, hqn, hpred⟩ := Members.canonical_predecessors h n hn
  exact ⟨q, hq, hqn, .inl hpred⟩

namespace Crash

/-- Four nodes of which one is before most others. -/
def four : List NodeRef := [⟨10, "a"⟩, ⟨60, "b"⟩, ⟨120, "c"⟩, ⟨200, "d"⟩]

theorem four_valid : Members.Valid 8 four := by decide

/-- Three nodes, of which the second is the owner of all fingers of the first. -/
def three : List NodeRef := [⟨10, "a"⟩, ⟨200, "b"⟩, ⟨240, "c"⟩]

theorem three_valid : Members.Valid 8 three := by decide

/-- The node 60 of four crashes. -/
def healing : Crash (Members.canonical four four_valid) where
  before := Members.canonicalNode 8 four ⟨10, "a"⟩
  crashed := Members.canonicalNode 8 four ⟨60, "b"⟩
  next := Members.canonicalNode 8 four ⟨120, "c"⟩
  before_mem := Members.canonicalNode_mem four_valid (by decide)
  crashed_mem := Members.canonicalNode_mem four_valid (by decide)
  ne := fun h => absurd (congrArg ChordNode.nodeId h) (by decide)
  nextAfter_before := ⟨Members.canonicalNode_mem four_valid (by decide), by decide⟩
  nextAfter_crashed := ⟨Members.canonicalNode_mem four_valid (by decide), by decide⟩

/-- The node 200 of three crashes. -/
def sticking : Crash (Members.canonical three three_valid) where
  before := Members.canonicalNode 8 three ⟨10, "a"⟩
  crashed := Members.canonicalNode 8 three ⟨200, "b"⟩
  next := Members.canonicalNode 8 three ⟨240, "c"⟩
  before_mem := Members.canonicalNode_mem three_valid (by decide)
  crashed_mem := Members.canonicalNode_mem three_valid (by decide)
  ne := fun h => absurd (congrArg ChordNode.nodeId h) (by decide)
  nextAfter_before := ⟨Members.canonicalNode_mem three_valid (by decide), by decide⟩
  nextAfter_crashed := ⟨Members.canonicalNode_mem three_valid (by decide), by decide⟩

/-- A plan draws no finger. -/
theorem allowed_of_mem_plan [NeZero M] {r : Members M} {k : Crash r} : ∀ e ∈ k.plan, k.Allowed e := by
  intro e he i hi
  obtain ⟨j, hj⟩ := List.mem_iff_getElem?.1 he
  subst hi
  rcases plan_get hj with ⟨-, h⟩ | ⟨-, h⟩ <;> cases h

/-- The hypotheses of `relinked_iff` are satisfiable, and both outcomes occur: the ring of four heals
when 60 crashes, the ring of three does not when 200 does, and 10 keeps it for its successor. -/
theorem relinked_iff_both :
    ((Members.canonical four four_valid).without healing.crashed healing.others).Linked
        (healing.plan.foldl Rounds.after ⟨Function.update (Members.canonical four four_valid).net
          healing.crashed.address none, fun _ => 0⟩).nodes ∧
      ¬((Members.canonical three three_valid).without sticking.crashed sticking.others).Linked
        (sticking.plan.foldl Rounds.after ⟨Function.update (Members.canonical three three_valid).net
          sticking.crashed.address none, fun _ => 0⟩).nodes ∧
      ∃ n, ((sticking.plan ++ sticking.plan).foldl Rounds.after
          ⟨Function.update (Members.canonical three three_valid).net sticking.crashed.address none,
            fun _ => 0⟩).nodes "a" = some n ∧ n.successor = ⟨200, "b"⟩ := by
  have hhealing := relinked_iff healing (Members.canonical_tended four_valid)
    ⟨Function.update (Members.canonical four four_valid).net healing.crashed.address none, fun _ => 0⟩
    rfl (List.Sublist.refl _) allowed_of_mem_plan
  have hsticking := relinked_iff sticking (Members.canonical_tended three_valid)
    ⟨Function.update (Members.canonical three three_valid).net sticking.crashed.address none, fun _ => 0⟩
    rfl (List.Sublist.refl _) allowed_of_mem_plan
  have hno : ¬sticking.Reaches := by decide +kernel
  exact ⟨hhealing.1.2 (by decide +kernel), fun h => hno (hsticking.1.1 h),
    hsticking.2 hno sticking.plan allowed_of_mem_plan⟩

end Crash
end Ring
end ChordInfra
