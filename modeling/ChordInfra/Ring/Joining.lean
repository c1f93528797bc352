/-
# Rounds of maintenance after a join

`stabilize`, `fix_fingers` and `check_predecessor`, each as one step (`Rounds.after`).

A node that joins a ring with correct pointers knows its successor and nothing else.  Its first
`stabilize` tells the successor of it, the next one of the node before it finds it there, and with
one more of these, at most, all pointers are those of the enlarged ring (`Joining.converges`),
whatever other rounds come between.  The second is only needed in a ring of one node, where
`stabilize` takes the predecessor for the successor and notifies nobody.

The pointers on the way are given outright (`Joining.expected`), by how far the three rounds have
come, and every round keeps them or goes on to a later stage (`Joining.Stage.after`).
-/

import ChordInfra.Ring.Departure
import ChordInfra.Ring.Failover
import ChordInfra.Ring.Predecessor
import ChordInfra.Ring.Routing

namespace ChordInfra
namespace Ring

open Cyclic

/-! ### Plans -/

section Plan

variable {S E : Type*} {stage : ℕ → S → Prop} {after : S → E → S} {plan : List E}

/-- **A schedule that contains a plan carries it out**: no event takes a state to an earlier stage,
and the event that the plan has next takes it to a later one. -/
theorem stage_of_plan (hstep : ∀ i s e, stage i s →
      ∃ j, i ≤ j ∧ stage j (after s e) ∧ (plan[i]? = some e → i < j))
    {schedule : List E} {i : ℕ} {s : S} (h : stage i s) (hplan : (plan.drop i).Sublist schedule) :
    ∃ j, plan.length ≤ j ∧ stage j (schedule.foldl after s) := by
  induction schedule generalizing i s with
  | nil => exact ⟨i, List.drop_eq_nil_iff.1 (List.sublist_nil.1 hplan), h⟩
  | cons e schedule ih =>
    obtain ⟨j, hij, hj, hnext⟩ := hstep i s e h
    refine ih hj ?_
    have hdrop : ∀ {k}, k ≤ j → (plan.drop j).Sublist (plan.drop k) := fun {k} hk => by
      rw [← Nat.add_sub_cancel' hk, ← List.drop_drop]
      exact List.drop_sublist _ _
    rcases List.sublist_cons_iff.1 hplan with hskip | ⟨rest, he, hrest⟩
    · exact (hdrop hij).trans hskip
    · have hhead : plan[i]? = some e := by
        rw [← List.head?_drop, he]
        rfl
      have htail : plan.drop (i + 1) = rest := by
        rw [← List.tail_drop, he]
        rfl
      exact (hdrop (hnext hhead)).trans (htail ▸ hrest)

end Plan

/-! ### Rounds -/

variable {M : ℕ} [NeZero M]

/-- The nodes of a ring and the failures that each has counted. -/
structure Rounds (M : ℕ) where
  nodes : Network M
  failCount : String → ℕ

/-- One round of maintenance of the node at an address. -/
inductive Round (M : ℕ) [NeZero M]
  | stabilize (a : String)
  | fixFingers (a : String) (i : {i : Fin M // i ≠ 0})
  | checkPredecessor (a : String)

namespace Rounds

variable {s : Rounds M} {a b : String} {n t : ChordNode M} {c : NodeRef}

/-- Which addresses answer. -/
def answers (s : Rounds M) (a : String) : Bool := (s.nodes a).isSome

/-- `get_predecessor`. -/
def predecessorAt (s : Rounds M) (a : String) : Option NodeRef := (s.nodes a).bind ChordNode.predecessor

/-- The node at an address replaced. -/
def set (s : Rounds M) (a : String) (n : ChordNode M) : Rounds M :=
  { s with nodes := Function.update s.nodes a (some n) }

/-- A notification delivered. -/
def notified (s : Rounds M) (a : String) (candidate : NodeRef) : Rounds M :=
  match s.nodes a with
  | some m => s.set a (m.notify candidate)
  | none => s

/-- `stabilize`: the round, and the notification of the successor that the node then has. -/
def stabilize (s : Rounds M) (a : String) (n : ChordNode M) : Rounds M :=
  let x := s.predecessorAt n.successor.address
  let s' := s.set a (n.stabilizeRound s.answers x)
  if n.successor.id = n.nodeId ∨ s.answers n.successor.address = false then s'
  else s'.notified (n.stabilizeUpdate x).successor.address n.ref

/-- `fix_fingers`, when it has drawn the finger `i`. -/
def fixFingers (s : Rounds M) (a : String) (n : ChordNode M) (i : Fin M) : Rounds M :=
  match n.findSuccessor s.nodes (fun _ => false) (n.fingers i).start (2 ^ M + 1) with
  | some found => s.set a (n.setFinger i found)
  | none => s

omit [NeZero M] in
/-- `check_predecessor`. -/
def checkPredecessor (s : Rounds M) (a : String) (n : ChordNode M) : Rounds M :=
  match n.predecessor with
  | none => s
  | some pred =>
    let c := (Checked.mk n (s.failCount a) none []).ended pred (s.answers pred.address)
    { nodes := Function.update s.nodes a (some c.node)
      failCount := Function.update s.failCount a c.failCount }

/-- The ring after a round. -/
def after (s : Rounds M) : Round M → Rounds M
  | .stabilize a => match s.nodes a with
    | some n => s.stabilize a n
    | none => s
  | .fixFingers a i => match s.nodes a with
    | some n => s.fixFingers a n i
    | none => s
  | .checkPredecessor a => match s.nodes a with
    | some n => s.checkPredecessor a n
    | none => s

omit [NeZero M] in
theorem set_self (h : s.nodes a = some n) : s.set a n = s := by
  unfold set
  rw [← h, Function.update_eq_self]

omit [NeZero M] in
theorem notified_eq (h : s.nodes a = some n) : s.notified a c = s.set a (n.notify c) := by
  unfold notified
  rw [h]

/-- A node that is its own successor looks at its predecessor only. -/
theorem stabilize_alone (hself : n.successor.id = n.nodeId) :
    s.stabilize a n = s.set a (n.stabilizeAlone n.predecessor) := by
  unfold stabilize ChordNode.stabilizeRound
  dsimp only
  rw [if_pos hself]
  exact if_pos (.inl hself)

/-- Where the successor and the nearer node that it names answer, the latter is notified. -/
theorem stabilize_eq (hself : n.successor.id ≠ n.nodeId) (hsucc : s.nodes n.successor.address = some t)
    (hnearer : s.answers (n.stabilizeUpdate t.predecessor).successor.address = true) :
    s.stabilize a n = (s.set a (n.stabilizeUpdate t.predecessor)).notified
      (n.stabilizeUpdate t.predecessor).successor.address n.ref := by
  have hanswers : s.answers n.successor.address = true := by
    unfold answers
    rw [hsucc]
    rfl
  have hx : s.predecessorAt n.successor.address = t.predecessor := by
    unfold predecessorAt
    rw [hsucc]
    rfl
  unfold stabilize ChordNode.stabilizeRound
  dsimp only
  rw [if_neg hself, hx, if_pos hanswers, if_pos hnearer]
  refine if_neg ?_
  rintro (h | h)
  · exact hself h
  · rw [hanswers] at h
    cases h

end Rounds

/-- A node does not lie strictly between itself and another one. -/
theorem inRange_left {a b : ℕ} (h : a ≠ b) : inRange a a b false = false := by
  unfold inRange
  rw [if_neg h]
  split_ifs <;> simp <;> omega

theorem ChordNode.stabilizeUpdate_of_not {n : ChordNode M} {x : Option NodeRef}
    (h : ∀ r ∈ x, inRange r.id n.nodeId n.successor.id false = false) : n.stabilizeUpdate x = n := by
  rcases n.stabilizeUpdate_cases x with he | ⟨r, hr, hin, -⟩
  · exact he
  · rw [h r hr] at hin
    cases hin

namespace Rounds

variable {s : Rounds M} {a : String} {n t : ChordNode M}

/-- **A round that changes nothing**: the successor names the node for its predecessor. -/
theorem stabilize_idle (hn : s.nodes a = some n) (hself : n.successor.id ≠ n.nodeId)
    (hsucc : s.nodes n.successor.address = some t) (hid : t.nodeId = n.successor.id)
    (hpred : t.predecessor = some n.ref) : s.stabilize a n = s := by
  have hupdate : n.stabilizeUpdate t.predecessor = n := by
    refine ChordNode.stabilizeUpdate_of_not fun r hr => ?_
    rw [hpred] at hr
    cases hr
    exact inRange_left (Ne.symm hself)
  have hanswers : s.answers n.successor.address = true := by
    unfold answers
    rw [hsucc]
    rfl
  rw [stabilize_eq hself hsucc (by rw [hupdate]; exact hanswers), hupdate, set_self hn,
    notified_eq hsucc]
  have hnotify : t.notify n.ref = t := by
    unfold ChordNode.notify
    rw [hpred]
    dsimp only
    rw [if_neg]
    rw [show n.ref.id = n.nodeId from rfl, hid, inRange_left (Ne.symm hself)]
    decide
  rw [hnotify, set_self hsucc]

end Rounds

/-! ### The new node -/

/-- Every predecessor pointer names the member before; the node of a ring of one may also have
none. -/
def Members.PredecessorsSettled (r : Members M) : Prop :=
  ∀ m ∈ r.nodes, ∃ q ∈ r.nodes, r.NextAfter q m ∧
    (m.predecessor = some q.ref ∨ q = m ∧ m.predecessor = none)

/-- A node that joins the ring: its id and its address are new. -/
structure Joining (r : Members M) where
  id : ℕ
  address : String
  id_lt : id < 2 ^ M
  id_new : ∀ m ∈ r.nodes, m.nodeId ≠ id
  address_new : ∀ m ∈ r.nodes, m.address ≠ address

namespace Joining

open Members (NextAfter FirstAt LastBefore)

variable {r : Members M} {j : Joining r} {p q s t m n via : ChordNode M} {a b : String} {i k : ℕ}

/-- How other nodes name the new one. -/
def ref (j : Joining r) : NodeRef := ⟨j.id, j.address⟩

/-- The new node after `join` through the member `via`. -/
def node (j : Joining r) (via : ChordNode M) : ChordNode M :=
  (ChordNode.init M j.address j.id).join
    (via.findSuccessor r.net (fun _ => false) j.id (2 ^ M + 1))

/-- The enlarged ring. -/
def ring (j : Joining r) (via : ChordNode M) : Members M where
  nodes := j.node via :: r.nodes
  nonempty := List.cons_ne_nil _ _
  ids_lt := List.forall_mem_cons.2 ⟨j.id_lt, r.ids_lt⟩
  ids_distinct := by
    refine List.nodup_cons.2 ⟨fun h => ?_, r.ids_distinct⟩
    obtain ⟨m, hm, he⟩ := List.mem_map.1 h
    exact j.id_new m hm he
  addresses_distinct := by
    refine List.nodup_cons.2 ⟨fun h => ?_, r.addresses_distinct⟩
    obtain ⟨m, hm, he⟩ := List.mem_map.1 h
    exact j.address_new m hm he

/-- The new node has found the first member after its id. -/
theorem node_successor (hs : r.SuccessorsCorrect) (hf : r.FingersNameMembers) (hvia : via ∈ r.nodes)
    (hfirst : r.FirstAt j.id s) : (j.node via).successor = s.ref := by
  have hne := j.id_new via hvia
  have hshort := (Cyclic.arc_le (r.ids_lt via hvia) j.id_lt).trans_lt (Nat.lt_succ_self _)
  obtain ⟨m, hm, hfound⟩ := Members.findSuccessor_of_ne hs hf j.id_lt hvia hne hshort
  obtain rfl := Members.firstAt_unique j.id_lt hm hfirst
  unfold node
  rw [hfound, ChordNode.join_successor]
  rfl

/-! ### Neighbours -/

omit [NeZero M] in
/-- The members before and after the new node are neighbours. -/
theorem nextAfter_around (hp : r.LastBefore j.id p) (hs : r.FirstAt j.id s) : r.NextAfter p s := by
  refine ⟨hs.1, fun x hx => ?_⟩
  have h₁ := hp.2 x hx
  have h₂ := hp.2 s hs.1
  have h₃ := hs.2 x hx
  have h₄ := hs.2 p hp.1
  have hidp := r.ids_lt p hp.1
  have hids := r.ids_lt s hs.1
  have hidx := r.ids_lt x hx
  have hid := j.id_lt
  have hpn := j.id_new p hp.1
  have hsn := j.id_new s hs.1
  have hxn := j.id_new x hx
  unfold arc Cyclic.dist at *
  split_ifs at * <;> omega

/-- In the enlarged ring the new node is next after the member before it. -/
theorem ring_before (hp : r.LastBefore j.id p) : (j.ring via).NextAfter p (j.node via) := by
  refine ⟨List.mem_cons_self, fun x hx => ?_⟩
  rcases List.mem_cons.1 hx with rfl | hx
  · exact le_rfl
  have h₁ := hp.2 x hx
  have hidp := r.ids_lt p hp.1
  have hidx := r.ids_lt x hx
  have hid := j.id_lt
  have hpn := j.id_new p hp.1
  change arc (2 ^ M) p.nodeId j.id ≤ arc (2 ^ M) p.nodeId x.nodeId
  unfold arc at *
  split_ifs at * <;> omega

/-- And the member after it is next after the new node. -/
theorem ring_after (hs : r.FirstAt j.id s) : (j.ring via).NextAfter (j.node via) s := by
  refine ⟨List.mem_cons_of_mem _ hs.1, fun x hx => ?_⟩
  have hids := r.ids_lt s hs.1
  have hid := j.id_lt
  have hsn := j.id_new s hs.1
  change arc (2 ^ M) j.id s.nodeId ≤ arc (2 ^ M) j.id x.nodeId
  rcases List.mem_cons.1 hx with rfl | hx
  · exact (Cyclic.arc_le hid hids).trans (le_of_eq (arc_self _).symm)
  have h₁ := hs.2 x hx
  have hidx := r.ids_lt x hx
  have hxn := j.id_new x hx
  unfold Cyclic.dist at h₁
  unfold arc
  split_ifs at * <;> omega

/-- Other neighbours stay neighbours. -/
theorem ring_other (hp : r.LastBefore j.id p) (hm : m ∈ r.nodes) (hmp : m ≠ p)
    (ht : r.NextAfter m t) : (j.ring via).NextAfter m t := by
  refine ⟨List.mem_cons_of_mem _ ht.1, fun x hx => ?_⟩
  rcases List.mem_cons.1 hx with rfl | hx
  · have h₁ := hp.2 m hm
    have h₂ := ht.2 p hp.1
    have hidp := r.ids_lt p hp.1
    have hidm := r.ids_lt m hm
    have hidt := r.ids_lt t ht.1
    have hid := j.id_lt
    have hmn := j.id_new m hm
    have hpn := j.id_new p hp.1
    have hne : m.nodeId ≠ p.nodeId := fun he => hmp (Members.eq_of_nodeId hm hp.1 he)
    change arc (2 ^ M) m.nodeId t.nodeId ≤ arc (2 ^ M) m.nodeId j.id
    unfold arc at *
    split_ifs at * <;> omega
  · exact ht.2 x hx

/-! ### The pointers on the way -/

end Joining

/-- What other nodes see of a node, but for its further fingers. -/
structure Pointers where
  id : ℕ
  address : String
  successor : NodeRef
  predecessor : Option NodeRef
deriving DecidableEq, Repr

/-- The pointers of a node. -/
def ChordNode.pointers (n : ChordNode M) : Pointers :=
  ⟨n.nodeId, n.address, n.successor, n.predecessor⟩

namespace Joining

variable {r : Members M} {j : Joining r} {p q s t m n via : ChordNode M} {a b : String} {i k : ℕ}

/-- The pointers after the first `i` of three rounds, when `p` and `s` are the members before and
after the new node: the new node is named by its successor, by its predecessor, and names it. -/
def expected (j : Joining r) (p s : ChordNode M) (i : ℕ) (b : String) : Option Pointers :=
  if b = j.address then some ⟨j.id, j.address, s.ref, if 3 ≤ i then some p.ref else none⟩
  else (r.net b).map fun m => ⟨m.nodeId, m.address,
    if b = p.address ∧ 2 ≤ i then j.ref else m.successor,
    if b = s.address ∧ 1 ≤ i then some j.ref else m.predecessor⟩

/-- The pointers are those after `i` rounds. -/
def Stage (j : Joining r) (p s : ChordNode M) (i : ℕ) (net : Network M) : Prop :=
  ∀ b, (net b).map ChordNode.pointers = j.expected p s i b

section Stage

variable {net : Network M}

theorem expected_old (hm : m ∈ r.nodes) : j.expected p s i m.address =
    some ⟨m.nodeId, m.address, if m.address = p.address ∧ 2 ≤ i then j.ref else m.successor,
      if m.address = s.address ∧ 1 ≤ i then some j.ref else m.predecessor⟩ := by
  unfold expected
  rw [if_neg (j.address_new m hm), Members.net_address hm]
  rfl

/-- After three rounds nothing more is expected. -/
theorem expected_three (h : 3 ≤ i) : j.expected p s i = j.expected p s 3 := by
  funext b
  unfold expected
  simp only [h, le_refl, show 2 ≤ i by omega, show 1 ≤ i by omega, show 2 ≤ 3 by decide,
    show 1 ≤ 3 by decide]

/-- The new node. -/
theorem Stage.new (h : j.Stage p s i net) : ∃ n, net j.address = some n ∧ n.ref = j.ref ∧
    n.successor = s.ref ∧ n.predecessor = if 3 ≤ i then some p.ref else none := by
  have he := h j.address
  unfold expected at he
  rw [if_pos rfl] at he
  obtain ⟨n, hn, hpointers⟩ := Option.map_eq_some_iff.1 he
  injection hpointers with hid haddress hsucc hpred
  refine ⟨n, hn, ?_, hsucc, hpred⟩
  unfold ChordNode.ref ref
  rw [hid, haddress]

/-- A member. -/
theorem Stage.old (h : j.Stage p s i net) (hm : m ∈ r.nodes) :
    ∃ n, net m.address = some n ∧ n.ref = m.ref ∧
      n.successor = (if m.address = p.address ∧ 2 ≤ i then j.ref else m.successor) ∧
      n.predecessor = if m.address = s.address ∧ 1 ≤ i then some j.ref else m.predecessor := by
  have he := h m.address
  rw [expected_old hm] at he
  obtain ⟨n, hn, hpointers⟩ := Option.map_eq_some_iff.1 he
  injection hpointers with hid haddress hsucc hpred
  refine ⟨n, hn, ?_, hsucc, hpred⟩
  unfold ChordNode.ref
  rw [hid, haddress]

/-- There are no other nodes. -/
theorem Stage.cases (h : j.Stage p s i net) (hn : net b = some n) :
    b = j.address ∨ ∃ m ∈ r.nodes, m.address = b := by
  by_cases hb : b = j.address
  · exact .inl hb
  have he := h b
  unfold expected at he
  rw [hn, if_neg hb] at he
  obtain ⟨m, hm, -⟩ := Option.map_eq_some_iff.1 he.symm
  exact .inr ⟨m, List.mem_of_find?_eq_some hm, by simpa using List.find?_some hm⟩

/-- One node replaced. -/
theorem Stage.update (h : j.Stage p s i net) (hn : some n.pointers = j.expected p s k b)
    (hrest : ∀ c, c ≠ b → j.expected p s k c = j.expected p s i c) :
    j.Stage p s k (Function.update net b (some n)) := by
  intro c
  by_cases hc : c = b
  · subst hc
    rw [Function.update_self]
    exact hn
  · rw [Function.update_of_ne hc, hrest c hc]
    exact h c

end Stage

/-! ### One round -/

section Round

variable {st : Rounds M}

omit [NeZero M] in
/-- The new id lies between the members around it. -/
theorem between (hp : r.LastBefore j.id p) (hs : r.FirstAt j.id s) :
    inRange j.id p.nodeId s.nodeId false = true := by
  have hidp := r.ids_lt p hp.1
  have hids := r.ids_lt s hs.1
  by_cases he : p.nodeId = s.nodeId
  · rw [he]
    exact inRange_self ..
  rw [inRange_exclusive j.id_lt hidp hids he]
  have h₁ := hp.2 s hs.1
  have h₂ := hs.2 p hp.1
  have hid := j.id_lt
  have hpn := j.id_new p hp.1
  have hsn := j.id_new s hs.1
  unfold arc Cyclic.dist at *
  split_ifs at * <;> omega

omit [NeZero M] in
/-- And the member before it does not lie between the new node and the member after it. -/
theorem not_between (hp : r.LastBefore j.id p) (hs : r.FirstAt j.id s) :
    inRange p.nodeId j.id s.nodeId false = false := by
  have hidp := r.ids_lt p hp.1
  have hids := r.ids_lt s hs.1
  have hid := j.id_lt
  rw [← Bool.not_eq_true, inRange_exclusive hidp hid hids (Ne.symm (j.id_new s hs.1)), Nat.not_lt]
  have h₂ := hs.2 p hp.1
  have hpn := j.id_new p hp.1
  have hsn := j.id_new s hs.1
  unfold Cyclic.dist at h₂
  unfold arc
  split_ifs at * <;> omega

omit [NeZero M] in
/-- What the member after the new node had for its predecessor. -/
theorem predecessor_after (hpreds : r.PredecessorsSettled) (hp : r.LastBefore j.id p)
    (hs : r.FirstAt j.id s) : s.predecessor = some p.ref ∨ p = s ∧ s.predecessor = none := by
  obtain ⟨q, hq, hqs, hpred⟩ := hpreds s hs.1
  obtain rfl := hqs.prev_unique (nextAfter_around hp hs) hq hp.1
  exact hpred

/-- **The new node tells its successor of itself.** -/
theorem Stage.stabilize_new (h : j.Stage p s i st.nodes) (hpreds : r.PredecessorsSettled)
    (hp : r.LastBefore j.id p) (hs : r.FirstAt j.id s) (hn : st.nodes j.address = some n) :
    ∃ k, i ≤ k ∧ j.Stage p s k (st.stabilize j.address n).nodes ∧ 1 ≤ k := by
  obtain ⟨n', hn', href, hsucc, -⟩ := h.new
  obtain rfl : n' = n := Option.some.inj (hn'.symm.trans hn)
  obtain ⟨t, ht, htref, htsucc, htpred⟩ := h.old hs.1
  have hid : n'.nodeId = j.id := congrArg NodeRef.id href
  have htid : t.nodeId = s.nodeId := congrArg NodeRef.id htref
  have hself : n'.successor.id ≠ n'.nodeId := by
    rw [hsucc, hid]
    exact j.id_new s hs.1
  have hat : st.nodes n'.successor.address = some t := by
    rw [hsucc]
    exact ht
  by_cases hi : 1 ≤ i
  · refine ⟨i, le_rfl, ?_, hi⟩
    rw [Rounds.stabilize_idle hn hself hat (by rw [htid, hsucc]; rfl) (by rw [htpred, href]; simp [hi])]
    exact h
  -- its first round
  obtain rfl : i = 0 := by omega
  have hold : t.predecessor = s.predecessor := by rw [htpred]; simp
  have hupdate : n'.stabilizeUpdate t.predecessor = n' := by
    refine ChordNode.stabilizeUpdate_of_not fun q hq => ?_
    rw [hold] at hq
    rw [hid, hsucc]
    rcases predecessor_after hpreds hp hs with hpred | ⟨-, hpred⟩ <;> rw [hpred] at hq
    · cases hq
      exact not_between hp hs
    · cases hq
  have hanswers : st.answers (n'.stabilizeUpdate t.predecessor).successor.address = true := by
    unfold Rounds.answers
    rw [hupdate, hat]
    rfl
  have hnotify : (t.notify j.ref).predecessor = some j.ref := by
    unfold ChordNode.notify
    rw [hold]
    rcases predecessor_after hpreds hp hs with hpred | ⟨-, hpred⟩ <;> rw [hpred]
    dsimp only
    rw [htid, show j.ref.id = j.id from rfl, show p.ref.id = p.nodeId from rfl,
      if_pos (between hp hs)]
  refine ⟨1, Nat.zero_le 1, ?_, le_rfl⟩
  rw [Rounds.stabilize_eq hself hat hanswers, hupdate, Rounds.set_self hn, Rounds.notified_eq hat, href,
    hsucc]
  refine h.update ?_ fun c hc => ?_
  · rw [show s.ref.address = s.address from rfl, expected_old hs.1]
    unfold ChordNode.pointers
    rw [hnotify, ChordNode.notify_nodeId, ChordNode.notify_address, ChordNode.notify_successor, htid,
      show t.address = s.address from congrArg NodeRef.address htref, htsucc]
    simp
  · unfold expected
    rw [show s.ref.address = s.address from rfl] at hc
    simp [hc]

/-- The new node takes the member before it for its predecessor. -/
theorem Stage.greeted (h : j.Stage p s 2 st.nodes) :
    j.Stage p s 3 (st.notified j.address p.ref).nodes := by
  obtain ⟨n, hn, href, hsucc, hpred⟩ := h.new
  have hnotify : (n.notify p.ref).predecessor = some p.ref := by
    unfold ChordNode.notify
    rw [hpred]
    rfl
  rw [Rounds.notified_eq hn]
  refine h.update ?_ fun c hc => ?_
  · unfold ChordNode.pointers expected
    rw [hnotify, ChordNode.notify_nodeId, ChordNode.notify_address, ChordNode.notify_successor, hsucc,
      show n.nodeId = j.id from congrArg NodeRef.id href,
      show n.address = j.address from congrArg NodeRef.address href, if_pos rfl]
    rfl
  · unfold expected
    simp [hc]

/-- The member before the new node takes it for its successor. -/
theorem Stage.adopted (h : j.Stage p s 1 st.nodes) (hp : p ∈ r.nodes) (href : n.ref = p.ref)
    (hpred : n.predecessor = if p.address = s.address then some j.ref else p.predecessor) :
    j.Stage p s 2 (st.set p.address (n.setSuccessor j.ref)).nodes := by
  refine h.update ?_ fun c hc => ?_
  · rw [expected_old hp]
    unfold ChordNode.pointers
    rw [ChordNode.setSuccessor_successor, ChordNode.setSuccessor_nodeId,
      ChordNode.setSuccessor_address, ChordNode.setSuccessor_predecessor, hpred,
      show n.nodeId = p.nodeId from congrArg NodeRef.id href,
      show n.address = p.address from congrArg NodeRef.address href]
    simp
  · unfold expected
    simp [hc]

/-- **The member before the new node finds it**, where the member after it knows of it. -/
theorem Stage.stabilize_before (h : j.Stage p s i st.nodes) (hsucc : p.successor = s.ref)
    (hpreds : r.PredecessorsSettled) (hp : r.LastBefore j.id p) (hs : r.FirstAt j.id s)
    (hn : st.nodes p.address = some n) :
    ∃ k, i ≤ k ∧ j.Stage p s k (st.stabilize p.address n).nodes ∧ (1 ≤ i → i < 3 → i < k) := by
  obtain ⟨n', hn', href, hnsucc, hnpred⟩ := h.old hp.1
  obtain rfl : n' = n := Option.some.inj (hn'.symm.trans hn)
  obtain ⟨new, hnew, hnewref, hnewsucc, hnewpred⟩ := h.new
  obtain ⟨t, ht, htref, htsucc, htpred⟩ := h.old hs.1
  have hid : n'.nodeId = p.nodeId := congrArg NodeRef.id href
  have htid : t.nodeId = s.nodeId := congrArg NodeRef.id htref
  by_cases hi : 2 ≤ i
  · -- its successor is the new node, which knows it from the third round on
    have hto : n'.successor = j.ref := by rw [hnsucc, if_pos ⟨rfl, hi⟩]
    have hself : n'.successor.id ≠ n'.nodeId := by
      rw [hto, hid]
      exact Ne.symm (j.id_new p hp.1)
    have hat : st.nodes n'.successor.address = some new := by
      rw [hto]
      exact hnew
    by_cases hi3 : 3 ≤ i
    · refine ⟨i, le_rfl, ?_, fun _ hlt => absurd hi3 (by omega)⟩
      rw [Rounds.stabilize_idle hn hself hat (by rw [hto]; exact congrArg NodeRef.id hnewref)
        (by rw [hnewpred, if_pos hi3, href])]
      exact h
    · obtain rfl : i = 2 := by omega
      have hnone : new.predecessor = none := by rw [hnewpred, if_neg hi3]
      have hupdate : n'.stabilizeUpdate new.predecessor = n' := by rw [hnone]; rfl
      have hanswers : st.answers (n'.stabilizeUpdate new.predecessor).successor.address = true := by
        unfold Rounds.answers
        rw [hupdate, hat]
        rfl
      refine ⟨3, by decide, ?_, fun _ _ => by decide⟩
      rw [Rounds.stabilize_eq hself hat hanswers, hupdate, Rounds.set_self hn, hto, href]
      exact h.greeted
  have hto : n'.successor = s.ref := by rw [hnsucc, if_neg fun h => hi h.2, hsucc]
  by_cases hps : p = s
  · -- a ring of one node
    subst hps
    have hself : n'.successor.id = n'.nodeId := by rw [hto, hid]; rfl
    rw [Rounds.stabilize_alone hself]
    by_cases hi1 : 1 ≤ i
    · obtain rfl : i = 1 := by omega
      have hpred : n'.predecessor = some j.ref := by rw [hnpred]; simp
      have halone : n'.stabilizeAlone n'.predecessor = n'.setSuccessor j.ref := by
        rw [hpred]
        refine if_pos ?_
        rw [hid]
        exact Ne.symm (j.id_new p hp.1)
      refine ⟨2, by decide, ?_, fun _ _ => by decide⟩
      rw [halone]
      exact h.adopted hp.1 href (by rw [hpred]; simp)
    · have hpred : n'.predecessor = p.predecessor := by rw [hnpred, if_neg fun h => hi1 h.2]
      have halone : n'.stabilizeAlone n'.predecessor = n' := by
        rw [hpred]
        rcases predecessor_after hpreds hp hs with hp' | ⟨-, hp'⟩ <;> rw [hp']
        · exact if_neg fun hne => hne hid.symm
        · rfl
      refine ⟨i, le_rfl, ?_, fun hpos => absurd hpos hi1⟩
      rw [halone, Rounds.set_self hn]
      exact h
  · have hne : s.nodeId ≠ p.nodeId := fun he => hps (Members.eq_of_nodeId hp.1 hs.1 he.symm)
    have hself : n'.successor.id ≠ n'.nodeId := by
      rw [hto, hid]
      exact hne
    have hat : st.nodes n'.successor.address = some t := by
      rw [hto]
      exact ht
    have haddress : p.address ≠ s.address := fun he => hps (Members.eq_of_address hp.1 hs.1 he)
    by_cases hi1 : 1 ≤ i
    · obtain rfl : i = 1 := by omega
      have hold : t.predecessor = some j.ref := by rw [htpred]; simp
      have hupdate : n'.stabilizeUpdate t.predecessor = n'.setSuccessor j.ref := by
        rw [hold]
        refine if_pos ?_
        rw [hid, hto]
        exact between hp hs
      have hanswers : st.answers (n'.stabilizeUpdate t.predecessor).successor.address = true := by
        unfold Rounds.answers
        rw [hupdate, ChordNode.setSuccessor_successor, show j.ref.address = j.address from rfl, hnew]
        rfl
      refine ⟨3, by decide, ?_, fun _ _ => by decide⟩
      rw [Rounds.stabilize_eq hself hat hanswers, hupdate, ChordNode.setSuccessor_successor, href]
      refine Stage.greeted (h.adopted hp.1 href ?_)
      rw [hnpred]
      simp [haddress]
    · refine ⟨i, le_rfl, ?_, fun hpos => absurd hpos hi1⟩
      have hold : t.predecessor = some n'.ref := by
        rw [htpred, if_neg fun h => hi1 h.2, href]
        rcases predecessor_after hpreds hp hs with hpred | ⟨he, -⟩
        · exact hpred
        · exact absurd he hps
      rw [Rounds.stabilize_idle hn hself hat (by rw [htid, hto]; rfl) hold]
      exact h

/-- **The other members find nothing new.** -/
theorem Stage.stabilize_other (h : j.Stage p s i st.nodes) (hsuccs : r.SuccessorsCorrect)
    (hpreds : r.PredecessorsSettled) (hp : r.LastBefore j.id p) (hs : r.FirstAt j.id s)
    (hm : m ∈ r.nodes) (hmp : m ≠ p) (hn : st.nodes m.address = some n) :
    j.Stage p s i (st.stabilize m.address n).nodes := by
  obtain ⟨n', hn', href, hnsucc, -⟩ := h.old hm
  obtain rfl : n' = n := Option.some.inj (hn'.symm.trans hn)
  obtain ⟨t, ht, hsucc⟩ := hsuccs m hm
  obtain ⟨t', ht', htref, -, htpred⟩ := h.old ht.1
  have hid : n'.nodeId = m.nodeId := congrArg NodeRef.id href
  have hto : n'.successor = t.ref := by
    rw [hnsucc, if_neg fun h => hmp (Members.eq_of_address hm hp.1 h.1), hsucc]
  have hne : t.nodeId ≠ m.nodeId := ht.ne hm hp.1 (Ne.symm hmp)
  have hself : n'.successor.id ≠ n'.nodeId := by
    rw [hto, hid]
    exact hne
  have hat : st.nodes n'.successor.address = some t' := by
    rw [hto]
    exact ht'
  have hts : t ≠ s := by
    rintro rfl
    exact hmp (ht.prev_unique (nextAfter_around hp hs) hm hp.1)
  have hpred : t'.predecessor = some n'.ref := by
    rw [htpred, if_neg fun h => hts (Members.eq_of_address ht.1 hs.1 h.1), href]
    obtain ⟨q, hq, hqt, hpred⟩ := hpreds t ht.1
    obtain rfl := hqt.prev_unique ht hq hm
    rcases hpred with hpred | ⟨he, -⟩
    · exact hpred
    · exact absurd (congrArg ChordNode.nodeId he).symm hne
  rw [Rounds.stabilize_idle hn hself hat (by rw [hto]; exact congrArg NodeRef.id htref) hpred]
  exact h

/-- A node whose further fingers have changed. -/
theorem Stage.same {n' : ChordNode M} (h : j.Stage p s i st.nodes) (hn : st.nodes b = some n)
    (hsame : n'.pointers = n.pointers) :
    j.Stage p s i (Function.update st.nodes b (some n')) := by
  refine h.update ?_ fun _ _ => rfl
  rw [hsame, ← h b, hn]
  rfl

/-- `fix_fingers` leaves the pointers alone. -/
theorem Stage.fixFingers (h : j.Stage p s i st.nodes) (hn : st.nodes b = some n)
    (f : {i : Fin M // i ≠ 0}) : j.Stage p s i (st.fixFingers b n f).nodes := by
  unfold Rounds.fixFingers
  split
  · next found _ =>
    refine h.same hn ?_
    unfold ChordNode.pointers
    rw [ChordNode.setFinger_successor n f.2]
    rfl
  · exact h

/-- Every predecessor is there, so `check_predecessor` clears none. -/
theorem Stage.checkPredecessor (h : j.Stage p s i st.nodes) (hpreds : r.PredecessorsSettled)
    (hp : p ∈ r.nodes) (hn : st.nodes b = some n) :
    j.Stage p s i (st.checkPredecessor b n).nodes := by
  have hthere : ∀ q ∈ n.predecessor, st.answers q.address = true := by
    have hold : ∀ {m}, m ∈ r.nodes → st.answers m.address = true := fun {m} hm => by
      obtain ⟨m', hm', -⟩ := h.old hm
      unfold Rounds.answers
      rw [hm']
      rfl
    have hnew : st.answers j.address = true := by
      obtain ⟨new, hnew, -⟩ := h.new
      unfold Rounds.answers
      rw [hnew]
      rfl
    intro q hq
    rcases h.cases hn with rfl | ⟨m, hm, rfl⟩
    · obtain ⟨n', hn', -, -, hpred⟩ := h.new
      obtain rfl : n' = n := Option.some.inj (hn'.symm.trans hn)
      rw [hpred] at hq
      split_ifs at hq
      · cases hq
        exact hold hp
      · cases hq
    · obtain ⟨n', hn', -, -, hpred⟩ := h.old hm
      obtain rfl : n' = n := Option.some.inj (hn'.symm.trans hn)
      rw [hpred] at hq
      split_ifs at hq
      · cases hq
        exact hnew
      · obtain ⟨q', hq', -, hmpred⟩ := hpreds m hm
        rcases hmpred with hmpred | ⟨-, hmpred⟩ <;> rw [hmpred] at hq
        · cases hq
          exact hold hq'
        · cases hq
  unfold Rounds.checkPredecessor
  cases hpred : n.predecessor with
  | none => exact h
  | some q =>
    dsimp only
    rw [hthere q hpred]
    exact h.same hn rfl

/-- The rounds that are needed, in this order. -/
def plan (j : Joining r) (p : ChordNode M) : List (Round M) :=
  [.stabilize j.address, .stabilize p.address, .stabilize p.address]

theorem plan_cases {e : Round M} (h : (j.plan p)[i]? = some e) :
    i = 0 ∧ e = .stabilize j.address ∨ 1 ≤ i ∧ i < 3 ∧ e = .stabilize p.address := by
  match i with
  | 0 => exact .inl ⟨rfl, (Option.some.inj h).symm⟩
  | 1 => exact .inr ⟨le_rfl, by decide, (Option.some.inj h).symm⟩
  | 2 => exact .inr ⟨by decide, by decide, (Option.some.inj h).symm⟩
  | _ + 3 => cases h

/-- **One round** keeps the stage or leads to a later one, and the round that is needed does. -/
theorem Stage.after (h : j.Stage p s i st.nodes) (hsuccs : r.SuccessorsCorrect)
    (hpreds : r.PredecessorsSettled) (hp : r.LastBefore j.id p) (hs : r.FirstAt j.id s)
    (e : Round M) : ∃ k, i ≤ k ∧ j.Stage p s k (st.after e).nodes ∧
      ((j.plan p)[i]? = some e → i < k) := by
  obtain ⟨new, hnew, -⟩ := h.new
  obtain ⟨before, hbefore, -⟩ := h.old hp.1
  cases e with
  | fixFingers a f =>
    refine ⟨i, le_rfl, ?_, fun hplan => ?_⟩
    · unfold Rounds.after
      dsimp only
      split
      · next n hn => exact h.fixFingers hn f
      · exact h
    · rcases plan_cases hplan with ⟨-, he⟩ | ⟨-, -, he⟩ <;> cases he
  | checkPredecessor a =>
    refine ⟨i, le_rfl, ?_, fun hplan => ?_⟩
    · unfold Rounds.after
      dsimp only
      split
      · next n hn => exact h.checkPredecessor hpreds hp.1 hn
      · exact h
    · rcases plan_cases hplan with ⟨-, he⟩ | ⟨-, -, he⟩ <;> cases he
  | stabilize a =>
    cases hn : st.nodes a with
    | none =>
      refine ⟨i, le_rfl, ?_, fun hplan => ?_⟩
      · unfold Rounds.after
        dsimp only
        rw [hn]
        exact h
      · rcases plan_cases hplan with ⟨-, he⟩ | ⟨-, -, he⟩ <;> cases he
        · rw [hnew] at hn
          cases hn
        · rw [hbefore] at hn
          cases hn
    | some n =>
      have hafter : st.after (.stabilize a) = st.stabilize a n := by
        unfold Rounds.after
        dsimp only
        rw [hn]
      rw [hafter]
      obtain ⟨t, ht, hsucc⟩ := hsuccs p hp.1
      obtain rfl := ht.unique (nextAfter_around hp hs) hp.1
      rcases h.cases hn with rfl | ⟨m, hm, rfl⟩
      · obtain ⟨k, hik, hk, hpos⟩ := h.stabilize_new hpreds hp hs hn
        refine ⟨k, hik, hk, fun hplan => ?_⟩
        rcases plan_cases hplan with ⟨rfl, -⟩ | ⟨-, -, he⟩
        · exact hpos
        · injection he with he
          exact absurd he.symm (j.address_new p hp.1)
      · by_cases hmp : m = p
        · subst hmp
          obtain ⟨k, hik, hk, hnext⟩ := h.stabilize_before hsucc hpreds hp hs hn
          refine ⟨k, hik, hk, fun hplan => ?_⟩
          rcases plan_cases hplan with ⟨-, he⟩ | ⟨hi1, hi3, -⟩
          · injection he with he
            exact absurd he (j.address_new m hm)
          · exact hnext hi1 hi3
        · refine ⟨i, le_rfl, h.stabilize_other hsuccs hpreds hp hs hm hmp hn, fun hplan => ?_⟩
          rcases plan_cases hplan with ⟨-, he⟩ | ⟨-, -, he⟩ <;> injection he with he
          · exact absurd he (j.address_new m hm)
          · exact absurd (Members.eq_of_address hm hp.1 he) hmp

end Round

/-! ### All rounds -/

/-- The pointers right after the join. -/
theorem stage_start (hsucc : (j.node via).successor = s.ref) :
    j.Stage p s 0 (Function.update r.net j.address (some (j.node via))) := by
  intro b
  unfold expected
  by_cases hb : b = j.address
  · subst hb
    rw [Function.update_self, if_pos rfl, Option.map_some]
    unfold ChordNode.pointers
    rw [hsucc]
    rfl
  · rw [Function.update_of_ne hb, if_neg hb]
    refine congrArg (Option.map · _) (funext fun m => ?_)
    simp [ChordNode.pointers]

/-- The pointers after the third round are those of the enlarged ring. -/
theorem Stage.linked {net : Network M} (h : j.Stage p s i net) (hi : 3 ≤ i)
    (hsucc : (j.node via).successor = s.ref) (hsuccs : r.SuccessorsCorrect)
    (hpreds : r.PredecessorsSettled) (hp : r.LastBefore j.id p) (hs : r.FirstAt j.id s) :
    (j.ring via).Linked net := by
  intro m hm
  rcases List.mem_cons.1 hm with rfl | hm
  · obtain ⟨n, hn, href, hnsucc, hpred⟩ := h.new
    refine ⟨n, hn, congrArg NodeRef.id href, congrArg NodeRef.address href,
      ⟨s, ring_after hs, hnsucc⟩, p, List.mem_cons_of_mem _ hp.1, ring_before hp, ?_⟩
    rw [hpred, if_pos hi]
  · obtain ⟨n, hn, href, hnsucc, hpred⟩ := h.old hm
    refine ⟨n, hn, congrArg NodeRef.id href, congrArg NodeRef.address href, ?_, ?_⟩
    · by_cases hmp : m = p
      · subst hmp
        exact ⟨j.node via, ring_before hp, by rw [hnsucc, if_pos ⟨rfl, by omega⟩]; rfl⟩
      · obtain ⟨t, ht, hmsucc⟩ := hsuccs m hm
        refine ⟨t, ring_other hp hm hmp ht, ?_⟩
        rw [hnsucc, if_neg fun h => hmp (Members.eq_of_address hm hp.1 h.1), hmsucc]
    · by_cases hms : m = s
      · subst hms
        exact ⟨j.node via, List.mem_cons_self, ring_after hs,
          by rw [hpred, if_pos ⟨rfl, by omega⟩]; rfl⟩
      · obtain ⟨q, hq, hqm, hmpred⟩ := hpreds m hm
        have hqp : q ≠ p := by
          rintro rfl
          exact hms (hqm.unique (nextAfter_around hp hs) hq)
        refine ⟨q, List.mem_cons_of_mem _ hq, ring_other hp hq hqp hqm, ?_⟩
        rw [hpred, if_neg fun h => hms (Members.eq_of_address hm hs.1 h.1)]
        rcases hmpred with hmpred | ⟨rfl, -⟩
        · exact hmpred
        · exact absurd rfl (hqm.ne hq hp.1 (Ne.symm hqp))

/-- **A join is over after three rounds**: one of the new node and then two of the member before it.
Whatever other rounds come before, between and after them, all pointers are then those of the
enlarged ring, and no further round changes any of them. -/
theorem converges {st : Rounds M} (hsuccs : r.SuccessorsCorrect) (hpreds : r.PredecessorsSettled)
    (hf : ∀ n ∈ r.nodes, ∀ i, i ≠ 0 → ∃ m ∈ r.nodes, (n.fingers i).ref = m.ref) (hvia : via ∈ r.nodes)
    (hp : r.LastBefore j.id p)
    (hstart : st.nodes = Function.update r.net j.address (some (j.node via)))
    {schedule : List (Round M)} (hplan : [Round.stabilize j.address, .stabilize p.address,
      .stabilize p.address].Sublist schedule) :
    (j.ring via).Linked (schedule.foldl Rounds.after st).nodes ∧
      ∀ later b, (((schedule ++ later).foldl Rounds.after st).nodes b).map ChordNode.pointers =
        ((schedule.foldl Rounds.after st).nodes b).map ChordNode.pointers := by
  obtain ⟨s, hs⟩ := r.exists_firstAt j.id
  have hsucc := node_successor hsuccs (Members.fingersNameMembers_of_ne hsuccs hf) hvia hs
  have hrun : ∀ {i : ℕ} {st : Rounds M} {schedule : List (Round M)}, j.Stage p s i st.nodes →
      ((j.plan p).drop i).Sublist schedule →
        ∃ k, 3 ≤ k ∧ j.Stage p s k (schedule.foldl Rounds.after st).nodes := fun hstage hdrop =>
    @stage_of_plan _ _ (fun i (st : Rounds M) => j.Stage p s i st.nodes) _ (j.plan p)
      (fun i st e h => h.after hsuccs hpreds hp hs e) _ _ _ hstage hdrop
  have hinit : j.Stage p s 0 st.nodes := by
    rw [hstart]
    exact stage_start hsucc
  obtain ⟨k, hk, hstage⟩ := hrun hinit hplan
  refine ⟨hstage.linked hk hsucc hsuccs hpreds hp hs, fun later b => ?_⟩
  have hdone : ((j.plan p).drop k).Sublist later := by
    rw [List.drop_of_length_le hk]
    exact List.nil_sublist _
  obtain ⟨k', hk', hstage'⟩ := hrun hstage hdone
  rw [List.foldl_append, hstage' b, hstage b, expected_three hk', expected_three hk]

end Joining

/-! ### A second node -/

/-- The ring of the node `10` alone. -/
def tenAlone : Members 8 where
  nodes := [ChordNode.init 8 "a" 10]
  nonempty := by simp
  ids_lt := by decide
  ids_distinct := by decide
  addresses_distinct := by decide

/-- Node `50` joins it. -/
def fiftyJoins : Joining tenAlone where
  id := 50
  address := "b"
  id_lt := by decide
  id_new := by decide
  address_new := by decide

theorem tenAlone_next : tenAlone.NextAfter (ChordNode.init 8 "a" 10) (ChordNode.init 8 "a" 10) :=
  ⟨List.mem_cons_self, by decide⟩

theorem tenAlone_successors : tenAlone.SuccessorsCorrect := by
  intro n hn
  obtain rfl := List.mem_singleton.1 hn
  exact ⟨_, tenAlone_next, rfl⟩

theorem tenAlone_predecessors : tenAlone.PredecessorsSettled := by
  intro n hn
  obtain rfl := List.mem_singleton.1 hn
  exact ⟨_, hn, tenAlone_next, .inr ⟨rfl, rfl⟩⟩

/-- The hypotheses of `Joining.converges` are satisfiable: node `50` joins node `10`, which had
stabilized once before the three rounds that are needed. -/
theorem converges_fifty :
    let st : Rounds 8 := ⟨Function.update tenAlone.net "b"
      (some (fiftyJoins.node (ChordNode.init 8 "a" 10))), fun _ => 0⟩
    let schedule : List (Round 8) :=
      [.stabilize "a", .stabilize "b", .stabilize "a", .checkPredecessor "b", .stabilize "a"]
    (fiftyJoins.ring (ChordNode.init 8 "a" 10)).Linked (schedule.foldl Rounds.after st).nodes := by
  intro st schedule
  refine (Joining.converges tenAlone_successors tenAlone_predecessors ?_ List.mem_cons_self
    (p := ChordNode.init 8 "a" 10) ⟨List.mem_cons_self, by decide⟩ rfl ?_).1
  · intro n hn i _
    obtain rfl := List.mem_singleton.1 hn
    exact ⟨_, hn, rfl⟩
  · exact .cons _ (.cons_cons _ (.cons_cons _ (.cons _ (.cons_cons _ .slnil))))

end Ring
end ChordInfra
