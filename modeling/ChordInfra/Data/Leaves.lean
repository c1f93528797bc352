/-
# Nodes that leave at overlapping times

`leave` step by step.  A node takes its lock and reads its successor and predecessor, and then
makes its three requests, whatever has become of the nodes that it read.  It holds its lock
until the last of them, so that no `bulk_put` is served there meanwhile; the handlers
`update_predecessor` and `update_successor` take no lock.  Then the process exits, and requests
to it raise.

A node that begins its leave while one of its neighbours is in the middle of its own hands its
store to a node that has nothing more to hand over (`leaves_lose`).  Where no node does that
(`Apart`), the nodes that have not left stay linked as a ring, and no key is lost
(`LeaveStep.inv`, `leaves_keep`).
-/

import ChordInfra.Data.Leave
import Mathlib.Logic.Relation

namespace ChordInfra
namespace Data

open Cyclic
open ChordInfra.Ring
open ChordInfra.Ring.Members
open Storage (Json Delivery)

variable {M : ℕ}

/-! ### The steps of a leave -/

/-- Where a node is in its leave. -/
inductive Departure
  | staying
  /-- It holds its lock and has read its successor and predecessor. -/
  | begun (succ : NodeRef) (pred : Option NodeRef)
  | handedOver (succ : NodeRef) (pred : Option NodeRef)
  | toldSuccessor (succ pred : NodeRef)
  | left

namespace Departure

/-- What a node in the middle of its leave has read. -/
def snapshot : Departure → Option (NodeRef × Option NodeRef)
  | .staying | .left => none
  | .begun succ pred | .handedOver succ pred => some (succ, pred)
  | .toldSuccessor succ pred => some (succ, some pred)

/-- It has made its first request. -/
def handed : Departure → Bool
  | .handedOver .. | .toldSuccessor .. => true
  | _ => false

/-- What the successor of a node `q` in this stage has for its predecessor. -/
def before (q : NodeRef) : Departure → NodeRef
  | .toldSuccessor _ pred => pred
  | _ => q

theorem exists_snapshot {d : Departure} (h : d.handed = true) :
    ∃ succ pred, d.snapshot = some (succ, pred) := by
  cases d with
  | handedOver succ pred => exact ⟨succ, pred, rfl⟩
  | toldSuccessor succ pred => exact ⟨succ, some pred, rfl⟩
  | _ => cases h

theorem eq_staying {d : Departure} (h : d.snapshot = none) (hleft : d ≠ .left) : d = .staying := by
  cases d with
  | staying => rfl
  | left => exact absurd rfl hleft
  | _ => cases h

end Departure

/-- The nodes, their stores, and the leave each is in. -/
structure LeaveState (M : ℕ) where
  peers : Peers M
  stage : String → Departure

variable [NeZero M]

/-- A step of the leave of some node.  No request fails while its target has not exited. -/
inductive LeaveStep (s : LeaveState M) : LeaveState M → Prop
  | begin {a : String} {n : ChordNode M} : s.peers.nodes a = some n → s.stage a = .staying →
      n.successor.id ≠ n.nodeId →
      LeaveStep s ⟨s.peers, Function.update s.stage a (.begun n.successor n.predecessor)⟩
  /-- The last node of a ring has nobody to tell. -/
  | last {a : String} {n : ChordNode M} : s.peers.nodes a = some n → s.stage a = .staying →
      n.successor.id = n.nodeId → LeaveStep s ⟨s.peers, Function.update s.stage a .left⟩
  /-- A target that is in the middle of its own leave does not serve the request. -/
  | handOver {a : String} {succ : NodeRef} {pred : Option NodeRef} :
      s.stage a = .begun succ pred →
      ((s.peers.stores a).entries = [] ∨ s.peers.nodes succ.address = none ∨
        (s.stage succ.address).snapshot = none) →
      LeaveStep s ⟨s.peers.handOverStore (fun _ => .delivered) a succ.address,
        Function.update s.stage a (.handedOver succ pred)⟩
  | tellSuccessor {a : String} {succ pred : NodeRef} : s.stage a = .handedOver succ (some pred) →
      LeaveStep s ⟨s.peers.tell (fun _ => .delivered) succ.address (updatePredecessor pred),
        Function.update s.stage a (.toldSuccessor succ pred)⟩
  | unlinked {a : String} {succ : NodeRef} : s.stage a = .handedOver succ none →
      LeaveStep s ⟨s.peers, Function.update s.stage a .left⟩
  | tellPredecessor {a : String} {succ pred : NodeRef} : s.stage a = .toldSuccessor succ pred →
      LeaveStep s ⟨s.peers.tell (fun _ => .delivered) pred.address (updateSuccessor succ),
        Function.update s.stage a .left⟩
  | exit {a : String} : s.stage a = .left →
      LeaveStep s ⟨⟨Function.update s.peers.nodes a none, s.peers.stores⟩, s.stage⟩

/-- No node in the middle of its leave has read the node at `a`. -/
def Uninvolved (s : LeaveState M) (a : String) : Prop :=
  ∀ b succ pred, (s.stage b).snapshot = some (succ, pred) →
    succ.address ≠ a ∧ ∀ p, pred = some p → p.address ≠ a

/-- A node that begins its leave in this step is not involved in another one. -/
def Apart (s s' : LeaveState M) : Prop :=
  ∀ a, s.stage a = .staying → s'.stage a ≠ .staying → Uninvolved s a

omit [NeZero M] in
/-- A node that has begun its leave does not stay. -/
theorem staying_of_update {stage : String → Departure} {a v : String} {d : Departure}
    (hd : d ≠ .staying) (h : Function.update stage a d v = .staying) :
    v ≠ a ∧ stage v = .staying := by
  by_cases hv : v = a
  · subst hv
    rw [Function.update_self] at h
    exact absurd h hd
  · rw [Function.update_of_ne hv] at h
    exact ⟨hv, h⟩

theorem LeaveStep.staying {s s' : LeaveState M} (h : LeaveStep s s') {v : String}
    (hv : s'.stage v = .staying) : s.stage v = .staying := by
  cases h with
  | exit h => exact hv
  | _ => exact (staying_of_update (by simp) hv).2

/-! ### The invariant -/

/-- The node `n` is what has become of the member `m` of the ring `c` of those that have not left.
A node that has told its successor of its predecessor is no more before it. -/
structure StandsAt (c : Members M) (stage : String → Departure) (m n : ChordNode M) : Prop where
  id : n.nodeId = m.nodeId
  successor : ∃ t, c.NextAfter m t ∧ n.successor = t.ref
  predecessor : ∃ q ∈ c.nodes, c.NextAfter q m ∧
    n.predecessor = some ((stage q.address).before q.ref)

/-- **The nodes that have not left are a ring `c`.**  The neighbours of one in the middle of its
leave are those that it has read, and they stay meanwhile; what it has handed over is at its
successor; and every key that was stored at first is at some node of the ring. -/
structure Inv (r : Members M) (stores : Stores) (s : LeaveState M) (c : Members M) : Prop where
  sub : ∀ m ∈ c.nodes, m ∈ r.nodes
  remains : ∀ m ∈ r.nodes, m ∈ c.nodes ↔ s.stage m.address ≠ .left
  member : ∀ a n, s.peers.nodes a = some n → ∃ m ∈ r.nodes, m.address = a
  begun : ∀ a, s.stage a ≠ .staying → ∃ m ∈ r.nodes, m.address = a
  node : ∀ m ∈ c.nodes, ∃ n, s.peers.nodes m.address = some n ∧ StandsAt c s.stage m n
  snapshot : ∀ m ∈ c.nodes, ∀ succ pred, (s.stage m.address).snapshot = some (succ, pred) →
    ∃ t q, c.NextAfter m t ∧ q ∈ c.nodes ∧ c.NextAfter q m ∧ succ = t.ref ∧ pred = some q.ref ∧
      s.stage t.address = .staying ∧ s.stage q.address = .staying
  handed : ∀ m ∈ c.nodes, ∀ t, (s.stage m.address).handed = true → c.NextAfter m t → ∀ key,
    (s.peers.stores m.address).get key ≠ none → (s.peers.stores t.address).get key ≠ none
  keys : ∀ key, ∀ m ∈ r.nodes, (stores m.address).get key ≠ none →
    ∃ m' ∈ c.nodes, (s.peers.stores m'.address).get key ≠ none

section Inv

variable {r c : Members M} {stores : Stores} {s s' : LeaveState M} {m n t q : ChordNode M}
  {stage stage' : String → Departure} {a v : String} {succ : NodeRef} {pred : Option NodeRef}

/-- The leave of a node that nobody is told of matters to its own successor only. -/
theorem StandsAt.congr (h : StandsAt c stage m n) (hbefore : ∀ q ∈ c.nodes, c.NextAfter q m →
    (stage' q.address).before q.ref = (stage q.address).before q.ref) : StandsAt c stage' m n := by
  obtain ⟨q, hq, hqm, hpred⟩ := h.predecessor
  exact ⟨h.id, h.successor, q, hq, hqm, by rw [hbefore q hq hqm, hpred]⟩

/-- The member at an address whose leave is in the middle. -/
theorem Inv.exists_member (hi : Inv r stores s c) (h : s.stage a ≠ .staying)
    (hleft : s.stage a ≠ .left) : ∃ m ∈ c.nodes, m.address = a := by
  obtain ⟨m, hm, rfl⟩ := hi.begun a h
  exact ⟨m, (hi.remains m hm).2 hleft, rfl⟩

/-- What does not depend on the pointers and the stores, after a node has moved on in its leave. -/
theorem Inv.stage_set (hi : Inv r stores s c) (hm : m ∈ c.nodes) {d : Departure}
    (hleft : d ≠ .left) :
    (∀ m' ∈ r.nodes, m' ∈ c.nodes ↔ Function.update s.stage m.address d m'.address ≠ .left) ∧
      ∀ v, Function.update s.stage m.address d v ≠ .staying → ∃ m ∈ r.nodes, m.address = v := by
  constructor
  · intro m' hm'
    by_cases he : m'.address = m.address
    · obtain rfl := Members.eq_of_address hm' (hi.sub m hm) he
      simp [hm, hleft]
    · rw [Function.update_of_ne he]
      exact hi.remains m' hm'
  · intro v hv
    by_cases he : v = m.address
    · exact ⟨m, hi.sub m hm, he.symm⟩
    · rw [Function.update_of_ne he] at hv
      exact hi.begun v hv

/-- The neighbours of a node in the middle of its leave, which stay. -/
theorem Inv.neighbours (hi : Inv r stores s c) (hm : m ∈ c.nodes)
    (hsnap : (s.stage m.address).snapshot = some (succ, pred)) :
    ∃ t q, c.NextAfter m t ∧ q ∈ c.nodes ∧ c.NextAfter q m ∧ succ = t.ref ∧ pred = some q.ref ∧
      s.stage t.address = .staying ∧ s.stage q.address = .staying ∧ t.address ≠ m.address ∧
      q.address ≠ m.address := by
  obtain ⟨t, q, hmt, hq, hqm, hsucc, hpred, ht, hq'⟩ := hi.snapshot m hm succ pred hsnap
  have hne : ∀ v, s.stage v = .staying → v ≠ m.address := by
    rintro v hv rfl
    rw [hv] at hsnap
    cases hsnap
  exact ⟨t, q, hmt, hq, hqm, hsucc, hpred, ht, hq', hne _ ht, hne _ hq'⟩

/-- What a node in the middle of its leave has read stays true while another one moves on. -/
theorem Inv.snapshot_set (hi : Inv r stores s c) {d : Departure}
    (hsnap : (s.stage m.address).snapshot = d.snapshot ) {succ' : NodeRef} {pred' : Option NodeRef}
    (hd : d.snapshot = some (succ', pred')) :
    ∀ m' ∈ c.nodes, ∀ succ pred,
      (Function.update s.stage m.address d m'.address).snapshot = some (succ, pred) →
      ∃ t q, c.NextAfter m' t ∧ q ∈ c.nodes ∧ c.NextAfter q m' ∧ succ = t.ref ∧ pred = some q.ref ∧
        Function.update s.stage m.address d t.address = .staying ∧
        Function.update s.stage m.address d q.address = .staying := by
  intro m' hm' succ pred h
  have hold : (s.stage m'.address).snapshot = some (succ, pred) := by
    by_cases he : m'.address = m.address
    · rw [he, Function.update_self] at h
      rw [he, hsnap, h]
    · rwa [Function.update_of_ne he] at h
  obtain ⟨t, q, hmt, hq, hqm, hsucc, hpred, ht, hq'⟩ := hi.snapshot m' hm' succ pred hold
  have hne : ∀ v, s.stage v = .staying → v ≠ m.address := by
    rintro v hv rfl
    rw [hv, hd] at hsnap
    cases hsnap
  exact ⟨t, q, hmt, hq, hqm, hsucc, hpred, by rw [Function.update_of_ne (hne _ ht), ht],
    by rw [Function.update_of_ne (hne _ hq'), hq']⟩

/-- **A node begins its leave.**  Its neighbours are not in the middle of theirs, since those would
have read it. -/
theorem Inv.begin (hi : Inv r stores s c) (hm : m ∈ c.nodes)
    (hn : s.peers.nodes m.address = some n) (hst : s.stage m.address = .staying)
    (hself : n.successor.id ≠ n.nodeId) (hapart : Uninvolved s m.address) :
    Inv r stores ⟨s.peers, Function.update s.stage m.address (.begun n.successor n.predecessor)⟩ c := by
  obtain ⟨hremains, hbegun⟩ := hi.stage_set (d := .begun n.successor n.predecessor) hm (by simp)
  obtain ⟨n', hn', hat⟩ := hi.node m hm
  obtain rfl := Option.some.inj (hn.symm.trans hn')
  refine ⟨hi.sub, hremains, hi.member, hbegun, fun m' hm' => ?_, fun m' hm' succ pred hsnap => ?_,
    fun m' hm' t hh => ?_, hi.keys⟩
  · obtain ⟨n', hn', hat'⟩ := hi.node m' hm'
    refine ⟨n', hn', hat'.congr fun q _ _ => ?_⟩
    dsimp only
    by_cases he : q.address = m.address
    · simp [he, hst, Departure.before]
    · rw [Function.update_of_ne he]
  · dsimp only at hsnap ⊢
    by_cases he : m'.address = m.address
    · obtain rfl := Members.eq_of_address hm' hm he
      rw [Function.update_self] at hsnap
      obtain ⟨rfl, rfl⟩ : n.successor = succ ∧ n.predecessor = pred := by
        simpa [Departure.snapshot] using hsnap
      obtain ⟨t, hmt, hsucc⟩ := hat.successor
      obtain ⟨q, hq, hqm, hpred⟩ := hat.predecessor
      have htne : t.address ≠ m'.address := by
        intro h
        obtain rfl := Members.eq_of_address hmt.1 hm h
        exact hself (by rw [hsucc, hat.id]; rfl)
      have hqne : q.address ≠ m'.address := by
        intro h
        obtain rfl := Members.eq_of_address hq hm h
        exact htne (congrArg ChordNode.address (hmt.unique hqm hq))
      have hinc : ∀ x ∈ c.nodes, s.stage x.address ≠ .left := fun x hx =>
        (hi.remains x (hi.sub x hx)).1 hx
      have ht : s.stage t.address = .staying := by
        refine Departure.eq_staying (Option.eq_none_iff_forall_ne_some.2 ?_) (hinc t hmt.1)
        rintro ⟨succ, pred⟩ hsnap
        obtain ⟨t', q', -, hq', hqt, -, rfl, -⟩ := hi.snapshot t hmt.1 succ pred hsnap
        refine (hapart _ _ _ hsnap).2 q'.ref rfl ?_
        exact congrArg ChordNode.address (hqt.prev_unique hmt hq' hm)
      have hq' : s.stage q.address = .staying := by
        refine Departure.eq_staying (Option.eq_none_iff_forall_ne_some.2 ?_) (hinc q hq)
        rintro ⟨succ, pred⟩ hsnap
        obtain ⟨t', q', hqt, -, -, rfl, -⟩ := hi.snapshot q hq succ pred hsnap
        refine (hapart _ _ _ hsnap).1 ?_
        exact congrArg ChordNode.address (hqt.unique hqm hq)
      refine ⟨t, q, hmt, hq, hqm, hsucc, ?_, by rw [Function.update_of_ne htne, ht],
        by rw [Function.update_of_ne hqne, hq']⟩
      rw [hpred, hq']
      rfl
    · rw [Function.update_of_ne he] at hsnap
      obtain ⟨t, q, hmt, hq, hqm, hsucc, hpred, ht, hq'⟩ := hi.snapshot m' hm' succ pred hsnap
      obtain ⟨htne, hqne⟩ := hapart _ _ _ hsnap
      have htne' : t.address ≠ m.address := by
        rw [hsucc] at htne
        exact htne
      have hqne' : q.address ≠ m.address := hqne q.ref hpred
      exact ⟨t, q, hmt, hq, hqm, hsucc, hpred, by rw [Function.update_of_ne htne', ht],
        by rw [Function.update_of_ne hqne', hq']⟩
  · dsimp only at hh
    by_cases he : m'.address = m.address
    · rw [he, Function.update_self] at hh
      cases hh
    · rw [Function.update_of_ne he] at hh
      exact hi.handed m' hm' t hh

/-- **A node hands its store over** to its successor, which loses nothing by it. -/
theorem Inv.handOver (hi : Inv r stores s c) (hm : m ∈ c.nodes)
    (hst : s.stage m.address = .begun succ pred) :
    Inv r stores ⟨s.peers.handOverStore (fun _ => .delivered) m.address succ.address,
      Function.update s.stage m.address (.handedOver succ pred)⟩ c := by
  obtain ⟨hremains, hbegun⟩ := hi.stage_set (d := .handedOver succ pred) hm (by simp)
  obtain ⟨t, q, hmt, hq, hqm, rfl, rfl, ht, hq', htne, hqne⟩ :=
    hi.neighbours hm (by rw [hst]; rfl)
  obtain ⟨nt, hnt, -⟩ := hi.node t hmt.1
  have hget : ∀ v key, ((s.peers.handOverStore (fun _ => .delivered) m.address t.ref.address).stores
      v).get key = if v = t.address then ((s.peers.stores m.address).get key).or
        ((s.peers.stores v).get key) else (s.peers.stores v).get key := by
    intro v key
    have harrives : arrives (fun _ => Delivery.delivered) rpcTries = true := rfl
    rw [Peers.get_handOverStore (show s.peers.nodes t.ref.address = some nt from hnt)]
    simp only [harrives, and_true]
    rfl
  have hkept : ∀ v key, (s.peers.stores v).get key ≠ none →
      ((s.peers.handOverStore (fun _ => .delivered) m.address t.ref.address).stores v).get key ≠
        none := by
    intro v key hv
    rw [hget]
    split_ifs
    · cases (s.peers.stores m.address).get key with
      | none => exact hv
      | some x => simp
    · exact hv
  refine ⟨hi.sub, hremains, fun a n hn => hi.member a n ?_, hbegun, fun m' hm' => ?_,
    hi.snapshot_set (by rw [hst]; rfl) rfl, fun m' hm' t' hh hmt' key hkey => ?_,
    fun key m' hm' hkey => ?_⟩
  · rwa [Peers.handOverStore_nodes] at hn
  · obtain ⟨n', hn', hat'⟩ := hi.node m' hm'
    refine ⟨n', by rw [Peers.handOverStore_nodes, hn'], hat'.congr fun q _ _ => ?_⟩
    dsimp only
    by_cases he : q.address = m.address
    · rw [he, Function.update_self, hst]
      rfl
    · rw [Function.update_of_ne he]
  · dsimp only at hh hkey ⊢
    by_cases he : m'.address = m.address
    · obtain rfl := Members.eq_of_address hm' hm he
      obtain rfl := hmt.unique hmt' hm
      rw [hget, if_neg (Ne.symm htne)] at hkey
      rw [hget, if_pos rfl]
      cases hv : (s.peers.stores m'.address).get key with
      | none => exact absurd hv hkey
      | some x => simp
    · rw [Function.update_of_ne he] at hh
      have hmt'' : m'.address ≠ t.address := by
        intro h
        rw [h, ht] at hh
        cases hh
      rw [hget, if_neg hmt''] at hkey
      exact hkept _ _ (hi.handed m' hm' t' hh hmt' key hkey)
  · obtain ⟨x, hx, hv⟩ := hi.keys key m' hm' hkey
    exact ⟨x, hx, hkept _ _ hv⟩

/-- **A node tells its successor** who comes before it from now on. -/
theorem Inv.tellSuccessor (hi : Inv r stores s c) (hm : m ∈ c.nodes) {p : NodeRef}
    (hst : s.stage m.address = .handedOver succ (some p)) :
    Inv r stores ⟨s.peers.tell (fun _ => .delivered) succ.address (updatePredecessor p),
      Function.update s.stage m.address (.toldSuccessor succ p)⟩ c := by
  obtain ⟨hremains, hbegun⟩ := hi.stage_set (d := .toldSuccessor succ p) hm (by simp)
  obtain ⟨t, q, hmt, hq, hqm, rfl, hp, ht, hq', htne, hqne⟩ :=
    hi.neighbours hm (by rw [hst]; rfl)
  have harrives : arrives (fun _ => Delivery.delivered) rpcTries = true := rfl
  refine ⟨hi.sub, hremains, fun a n hn => ?_, hbegun, fun m' hm' => ?_,
    hi.snapshot_set (by rw [hst]; rfl) rfl, fun m' hm' t' hh hmt' => ?_, ?_⟩
  · rw [Peers.tell_updatePredecessor] at hn
    obtain ⟨n', hn', -⟩ := Option.map_eq_some_iff.1 hn
    exact hi.member a n' hn'
  · obtain ⟨n', hn', hat'⟩ := hi.node m' hm'
    refine ⟨_, by rw [Peers.tell_updatePredecessor, hn', Option.map_some], ?_⟩
    simp only [harrives, and_true]
    by_cases he : m'.address = t.address
    · obtain rfl := Members.eq_of_address hm' hmt.1 he
      rw [if_pos (show m'.address = m'.ref.address from rfl)]
      refine ⟨hat'.id, hat'.successor, m, hm, hmt, ?_⟩
      rw [Function.update_self]
      rfl
    · rw [if_neg (show ¬ m'.address = t.ref.address from he)]
      refine hat'.congr fun x hx hxm => ?_
      have hxne : x.address ≠ m.address := by
        intro h
        obtain rfl := Members.eq_of_address hx hm h
        exact he (congrArg ChordNode.address (hxm.unique hmt hm))
      rw [Function.update_of_ne hxne]
  · rw [Peers.tell_stores]
    refine hi.handed m' hm' t' ?_ hmt'
    dsimp only at hh
    by_cases he : m'.address = m.address
    · rw [he, hst]
      rfl
    · rwa [Function.update_of_ne he] at hh
  · rw [Peers.tell_stores]
    exact hi.keys

/-- **A node tells its predecessor** who comes after it, and has left: its neighbours are next to
each other, and its successor has its keys. -/
theorem Inv.tellPredecessor (hi : Inv r stores s c) (hm : m ∈ c.nodes) {p : NodeRef}
    (hst : s.stage m.address = .toldSuccessor succ p) :
    ∃ c', Inv r stores ⟨s.peers.tell (fun _ => .delivered) p.address (updateSuccessor succ),
      Function.update s.stage m.address .left⟩ c' := by
  obtain ⟨t, q, hmt, hq, hqm, rfl, hp, ht, hq', htne, hqne⟩ :=
    hi.neighbours hm (by rw [hst]; rfl)
  obtain rfl : p = q.ref := Option.some.inj hp
  have harrives : arrives (fun _ => Delivery.delivered) rpcTries = true := rfl
  have hid : ∀ x ∈ c.nodes, x.address ≠ m.address → x.nodeId ≠ m.nodeId := by
    intro x hx hne h
    exact hne (congrArg ChordNode.address (eq_of_nodeId hx hm h))
  have hother : ∃ x ∈ c.nodes, x.nodeId ≠ m.nodeId := ⟨t, hmt.1, hid t hmt.1 htne⟩
  have hmem : ∀ {x}, x ∈ (c.without m hother).nodes → x ∈ c.nodes ∧ x.address ≠ m.address := by
    intro x hx
    obtain ⟨hx, hne⟩ := (mem_without hother).1 hx
    exact ⟨hx, fun h => hne (congrArg ChordNode.nodeId (Members.eq_of_address hx hm h))⟩
  have hnext : (c.without m hother).NextAfter q t := hqm.skip hq hm hmt hother
  refine ⟨c.without m hother, fun x hx => hi.sub x (hmem hx).1, fun x hx => ?_, fun a n hn => ?_,
    fun v hv => ?_, fun x hx => ?_, fun x hx succ pred hsnap => ?_, fun x hx t' hh hxt => ?_,
    fun key x hx hkey => ?_⟩
  · dsimp only
    by_cases he : x.address = m.address
    · rw [he, Function.update_self]
      exact iff_of_false (fun h => (hmem h).2 he) fun h => h rfl
    · rw [Function.update_of_ne he, ← hi.remains x hx, mem_without]
      exact ⟨fun h => h.1, fun h => ⟨h, hid x h he⟩⟩
  · rw [Peers.tell_updateSuccessor] at hn
    obtain ⟨n', hn', -⟩ := Option.map_eq_some_iff.1 hn
    exact hi.member a n' hn'
  · dsimp only at hv
    by_cases he : v = m.address
    · exact ⟨m, hi.sub m hm, he.symm⟩
    · rw [Function.update_of_ne he] at hv
      exact hi.begun v hv
  · obtain ⟨hxc, hxm⟩ := hmem hx
    obtain ⟨n', hn', hat⟩ := hi.node x hxc
    refine ⟨_, by rw [Peers.tell_updateSuccessor, hn', Option.map_some], ?_, ?_, ?_⟩
    · split_ifs
      · exact hat.id
      · exact hat.id
    · split_ifs with hto
      · obtain rfl : x = q := Members.eq_of_address hxc hq hto.1
        exact ⟨t, hnext, by simp⟩
      · obtain ⟨y, hxy, hsucc⟩ := hat.successor
        refine ⟨y, hxy.without hother fun h => hto ⟨?_, harrives⟩, hsucc⟩
        obtain rfl := eq_of_nodeId hxy.1 hm h
        exact congrArg ChordNode.address (hxy.prev_unique hqm hxc hq)
    · have hpred : (if x.address = q.ref.address ∧ arrives (fun _ => Delivery.delivered) rpcTries = true
          then n'.setSuccessor t.ref else n').predecessor = n'.predecessor := by
        split_ifs
        · simp
        · rfl
      obtain ⟨y, hy, hyx, hbefore⟩ := hat.predecessor
      rw [hpred, hbefore]
      by_cases hym : y.address = m.address
      · -- the node that leaves came before it, and has told it so
        obtain rfl := Members.eq_of_address hy hm hym
        obtain rfl := hmt.unique hyx hm
        refine ⟨q, (mem_without hother).2 ⟨hq, hid q hq hqne⟩, hnext, ?_⟩
        dsimp only
        rw [hst, Function.update_of_ne hqne, hq']
        rfl
      · refine ⟨y, (mem_without hother).2 ⟨hy, hid y hy hym⟩, hyx.without hother (hid x hxc hxm), ?_⟩
        dsimp only
        rw [Function.update_of_ne hym]
  · obtain ⟨hx, hxm⟩ := hmem hx
    dsimp only at hsnap ⊢
    rw [Function.update_of_ne hxm] at hsnap
    obtain ⟨y, z, hxy, hz, hzx, hsucc, hpred, hy', hz'⟩ := hi.snapshot x hx succ pred hsnap
    have hne : ∀ v, s.stage v = .staying → v ≠ m.address := by
      rintro v hv rfl
      rw [hst] at hv
      cases hv
    refine ⟨y, z, hxy.without hother (hid y hxy.1 (hne _ hy')),
      (mem_without hother).2 ⟨hz, hid z hz (hne _ hz')⟩, hzx.without hother (hid x hx hxm), hsucc,
      hpred, ?_, ?_⟩
    · rw [Function.update_of_ne (hne _ hy'), hy']
    · rw [Function.update_of_ne (hne _ hz'), hz']
  · obtain ⟨hxc, hxm⟩ := hmem hx
    dsimp only at hh
    rw [Function.update_of_ne hxm] at hh
    obtain ⟨succ, pred, hsnap⟩ := Departure.exists_snapshot hh
    obtain ⟨y, -, hxy, -, -, -, -, hy', -⟩ := hi.snapshot x hxc succ pred hsnap
    have hne : y.address ≠ m.address := by
      intro h
      rw [h, hst] at hy'
      cases hy'
    rw [Peers.tell_stores, hxt.unique (hxy.without hother (hid y hxy.1 hne)) hx]
    exact hi.handed x hxc y hh hxy
  · rw [Peers.tell_stores]
    obtain ⟨y, hy, hv⟩ := hi.keys key x hx hkey
    by_cases he : y.address = m.address
    · obtain rfl := Members.eq_of_address hy hm he
      exact ⟨t, (mem_without hother).2 ⟨hmt.1, hid t hmt.1 htne⟩,
        hi.handed y hm t (by rw [hst]; rfl) hmt key hv⟩
    · exact ⟨y, (mem_without hother).2 ⟨hy, hid y hy he⟩, hv⟩

/-- The process of a node that has left exits. -/
theorem Inv.exit (hi : Inv r stores s c) (hst : s.stage a = .left) :
    Inv r stores ⟨⟨Function.update s.peers.nodes a none, s.peers.stores⟩, s.stage⟩ c := by
  refine ⟨hi.sub, hi.remains, fun v n hn => ?_, hi.begun, fun m hm => ?_, hi.snapshot, hi.handed,
    hi.keys⟩
  · dsimp only at hn
    by_cases hv : v = a
    · subst hv
      rw [Function.update_self] at hn
      cases hn
    · rw [Function.update_of_ne hv] at hn
      exact hi.member v n hn
  · obtain ⟨n, hn, hat⟩ := hi.node m hm
    have hne : m.address ≠ a := by
      rintro rfl
      exact (hi.remains m (hi.sub m hm)).1 hm hst
    exact ⟨n, by dsimp only; rw [Function.update_of_ne hne, hn], hat⟩

/-- **A step keeps the ring of the nodes that have not left**, where a node that begins its leave
is not involved in another one, and some node stays. -/
theorem LeaveStep.inv (hi : Inv r stores s c) (h : LeaveStep s s') (hapart : Apart s s')
    {home : ChordNode M} (hhome : home ∈ r.nodes) (hstays : s'.stage home.address = .staying) :
    ∃ c', Inv r stores s' c' := by
  have hat : ∀ {a}, s.stage a ≠ .staying → s.stage a ≠ .left → ∃ m ∈ c.nodes, m.address = a :=
    fun hstaying hleft => hi.exists_member hstaying hleft
  cases h with
  | @begin a n hn hst hself =>
    obtain ⟨m, hm, rfl⟩ := hi.member a n hn
    have hmc : m ∈ c.nodes := (hi.remains m hm).2 (by rw [hst]; simp)
    exact ⟨c, hi.begin hmc hn hst hself (hapart _ hst (by simp))⟩
  | @last a n hn hst hself =>
    -- the node that stays is another one, and so is the successor
    obtain ⟨m, hm, rfl⟩ := hi.member a n hn
    have hmc : m ∈ c.nodes := (hi.remains m hm).2 (by rw [hst]; simp)
    obtain ⟨hne, hold⟩ := staying_of_update (by simp) hstays
    have hhomec : home ∈ c.nodes := (hi.remains home hhome).2 (by rw [hold]; simp)
    obtain ⟨n', hn', hat⟩ := hi.node m hmc
    obtain rfl := Option.some.inj (hn.symm.trans hn')
    obtain ⟨t, hmt, hsucc⟩ := hat.successor
    refine absurd ?_ (hmt.ne hmc hhomec fun h => hne (congrArg ChordNode.address h))
    rw [hat.id, hsucc] at hself
    exact hself
  | @handOver a succ pred hst hfree =>
    obtain ⟨m, hm, rfl⟩ := hat (by rw [hst]; simp) (by rw [hst]; simp)
    exact ⟨c, hi.handOver hm hst⟩
  | @tellSuccessor a succ pred hst =>
    obtain ⟨m, hm, rfl⟩ := hat (by rw [hst]; simp) (by rw [hst]; simp)
    exact ⟨c, hi.tellSuccessor hm hst⟩
  | @unlinked a succ hst =>
    -- a node of the ring has a predecessor
    obtain ⟨m, hm, rfl⟩ := hat (by rw [hst]; simp) (by rw [hst]; simp)
    obtain ⟨-, q, -, -, -, -, hpred, -⟩ := hi.snapshot m hm succ none (by rw [hst]; rfl)
    cases hpred
  | @tellPredecessor a succ pred hst =>
    obtain ⟨m, hm, rfl⟩ := hat (by rw [hst]; simp) (by rw [hst]; simp)
    exact hi.tellPredecessor hm hst
  | @exit a hst => exact ⟨c, hi.exit hst⟩

end Inv

/-! ### Runs -/

/-- No node of the ring has begun to leave. -/
def together (r : Members M) (stores : Stores) : LeaveState M := ⟨⟨r.net, stores⟩, fun _ => .staying⟩

/-- A step in which no node begins its leave that is involved in another one. -/
def StepsApart (s s' : LeaveState M) : Prop := LeaveStep s s' ∧ Apart s s'

theorem inv_together {r : Members M} (hlinks : r.Linked r.net) (stores : Stores) :
    Inv r stores (together r stores) r := by
  refine ⟨fun _ h => h, fun m hm => ?_, fun a n hn => ?_, fun a h => absurd rfl h, fun m hm => ?_,
    fun m hm succ pred h => ?_, fun m hm t h => ?_, fun key m hm h => ⟨m, hm, h⟩⟩
  · exact iff_of_true hm (by simp [together])
  · exact ⟨n, List.mem_of_find?_eq_some hn, by simpa using List.find?_some hn⟩
  · obtain ⟨n, hn, hlinked⟩ := hlinks m hm
    obtain ⟨q, hq, hqm, hpred⟩ := hlinked.predecessor
    exact ⟨n, hn, hlinked.id, hlinked.successor, q, hq, hqm, hpred⟩
  · cases h
  · cases h

/-- **A run of such steps** keeps the ring of the nodes that have not left. -/
theorem inv_of_stepsApart {r : Members M} (hlinks : r.Linked r.net) {stores : Stores}
    {s : LeaveState M} (h : Relation.ReflTransGen StepsApart (together r stores) s)
    {home : ChordNode M} (hhome : home ∈ r.nodes) (hstays : s.stage home.address = .staying) :
    ∃ c, Inv r stores s c := by
  induction h with
  | refl => exact ⟨r, inv_together hlinks stores⟩
  | tail _ hstep ih =>
    obtain ⟨c, hi⟩ := ih (hstep.1.staying hstays)
    exact hstep.1.inv hi hstep.2 hhome hstays

/-- **Nodes that leave apart lose no key, and the nodes that stay name each other**, once all that
left have exited. -/
theorem leaves_keep {r : Members M} (hlinks : r.Linked r.net) {stores : Stores} {s : LeaveState M}
    (h : Relation.ReflTransGen StepsApart (together r stores) s)
    (hsome : ∃ m ∈ r.nodes, s.stage m.address = .staying)
    (hexited : ∀ m ∈ r.nodes, s.stage m.address = .staying ∨ s.peers.nodes m.address = none) :
    (∀ key, ∀ m ∈ r.nodes, (stores m.address).get key ≠ none →
      ∃ m' ∈ r.nodes, s.stage m'.address = .staying ∧ (s.peers.stores m'.address).get key ≠ none) ∧
    ∀ m ∈ r.nodes, s.stage m.address = .staying → ∃ n, s.peers.nodes m.address = some n ∧
      (∃ t ∈ r.nodes, s.stage t.address = .staying ∧ n.successor = t.ref) ∧
      ∃ q ∈ r.nodes, s.stage q.address = .staying ∧ n.predecessor = some q.ref := by
  obtain ⟨home, hhome, hstays⟩ := hsome
  obtain ⟨c, hi⟩ := inv_of_stepsApart hlinks h hhome hstays
  have hstaying : ∀ x ∈ c.nodes, s.stage x.address = .staying := by
    intro x hx
    obtain ⟨n, hn, -⟩ := hi.node x hx
    refine (hexited x (hi.sub x hx)).resolve_right fun hnone => ?_
    rw [hnone] at hn
    cases hn
  refine ⟨fun key m hm hkey => ?_, fun m hm hst => ?_⟩
  · obtain ⟨x, hx, hv⟩ := hi.keys key m hm hkey
    exact ⟨x, hi.sub x hx, hstaying x hx, hv⟩
  · have hmc : m ∈ c.nodes := (hi.remains m hm).2 (by rw [hst]; simp)
    obtain ⟨n, hn, hat⟩ := hi.node m hmc
    obtain ⟨t, hmt, hsucc⟩ := hat.successor
    obtain ⟨q, hq, -, hpred⟩ := hat.predecessor
    refine ⟨n, hn, ⟨t, hi.sub t hmt.1, hstaying t hmt.1, hsucc⟩, q, hi.sub q hq, hstaying q hq, ?_⟩
    rw [hpred, hstaying q hq]
    rfl

/-! ### Two neighbours leave a ring of three -/

namespace ThreeNodes

/-- Only node `10` has the key `k`. -/
def atTen : Stores := fun address =>
  if address = "a" then Dict.set .empty "k" (.int 1) else .empty

/-- The nodes `80` and `10` begin to leave, in this order.  Node `80` makes its requests first, and
both exit. -/
theorem both_leave : ∃ s : LeaveState 8, Relation.ReflTransGen LeaveStep (together ring atTen) s ∧
    s.stage "c" = .staying ∧ s.stage "b" = .left ∧ s.stage "a" = .left ∧
    s.peers.nodes "b" = none ∧ s.peers.nodes "a" = none ∧
    ((s.peers.stores "c").get "k").isNone = true := by
  have hbegun := (Relation.ReflTransGen.single (LeaveStep.begin
    (show (together ring atTen).peers.nodes "b" = some b from rfl) rfl (by decide))).tail
      (LeaveStep.begin (a := "a") rfl rfl (by decide))
  have heighty := ((hbegun.tail (LeaveStep.handOver (a := "b") rfl (.inl rfl))).tail
    (LeaveStep.tellSuccessor (a := "b") rfl)).tail (LeaveStep.tellPredecessor (a := "b") rfl)
  have hten := ((heighty.tail (LeaveStep.handOver (a := "a") rfl (.inr (.inr rfl)))).tail
    (LeaveStep.tellSuccessor (a := "a") rfl)).tail (LeaveStep.tellPredecessor (a := "a") rfl)
  have hexited := (hten.tail (LeaveStep.exit (a := "b") rfl)).tail (LeaveStep.exit (a := "a") rfl)
  exact ⟨_, hexited, rfl, rfl, rfl, rfl, rfl, rfl⟩

end ThreeNodes

open ThreeNodes in
/-- **A key is lost when two neighbours leave**: node `80` has handed its store over before node
`10` hands its own to it, and exits with both. -/
theorem leaves_lose :
    ¬ ∀ (r : Members 8), r.Linked r.net → ∀ (stores : Stores) (s : LeaveState 8),
        Relation.ReflTransGen LeaveStep (together r stores) s →
        (∃ m ∈ r.nodes, s.stage m.address = .staying) →
        (∀ m ∈ r.nodes, s.stage m.address = .staying ∨ s.peers.nodes m.address = none) →
        ∀ key, ∀ m ∈ r.nodes, (stores m.address).get key ≠ none →
          ∃ m' ∈ r.nodes, s.stage m'.address = .staying ∧
            (s.peers.stores m'.address).get key ≠ none := by
  intro h
  obtain ⟨s, hrun, hc, hb, ha, hbnone, hanone, hnone⟩ := both_leave
  obtain ⟨m, hm, hst, hkey⟩ := h ring linked atTen s hrun ⟨c, by simp [ring], hc⟩
    (forall_mem (.inr hanone) (.inr hbnone) (.inl hc)) "k" a (by simp [ring])
    (by simp [atTen, a, member])
  have hgone : ∀ m ∈ ring.nodes, s.stage m.address = .staying →
      (s.peers.stores m.address).get "k" = none := by
    refine forall_mem (fun hst => ?_) (fun hst => ?_) fun _ => Option.isNone_iff_eq_none.1 hnone
    · cases ha.symm.trans hst
    · cases hb.symm.trans hst
  exact hkey (hgone m hm hst)

open ThreeNodes in
/-- The hypotheses of `leaves_keep` are satisfiable: node `80` leaves alone. -/
theorem leaves_keep_threeNodes : ∃ s : LeaveState 8,
    s.stage "b" = .left ∧
    (∀ key, ∀ m ∈ ring.nodes, (atTen m.address).get key ≠ none →
      ∃ m' ∈ ring.nodes, s.stage m'.address = .staying ∧
        (s.peers.stores m'.address).get key ≠ none) ∧
    ∀ m ∈ ring.nodes, s.stage m.address = .staying → ∃ n, s.peers.nodes m.address = some n ∧
      (∃ t ∈ ring.nodes, s.stage t.address = .staying ∧ n.successor = t.ref) ∧
      ∃ q ∈ ring.nodes, s.stage q.address = .staying ∧ n.predecessor = some q.ref := by
  have hlater : ∀ {s s' : LeaveState 8} {v : String} {d : Departure}, LeaveStep s s' →
      s'.stage = Function.update s.stage v d → s.stage v ≠ .staying → StepsApart s s' := by
    intro s s' v d h hstage hv
    refine ⟨h, fun x hx hx' => absurd ?_ hx'⟩
    have hne : x ≠ v := by
      rintro rfl
      exact hv hx
    rw [hstage, Function.update_of_ne hne, hx]
  have hfirst : StepsApart (together ring atTen)
      ⟨⟨ring.net, atTen⟩, Function.update (fun _ => .staying) "b" (.begun c.ref (some a.ref))⟩ :=
    ⟨LeaveStep.begin (n := b) rfl rfl (by decide), fun _ _ _ _ _ _ h => by cases h⟩
  have hrun := (((Relation.ReflTransGen.single hfirst).tail
    (hlater (LeaveStep.handOver (a := "b") rfl (.inl rfl)) rfl (by simp))).tail
      (hlater (LeaveStep.tellSuccessor (a := "b") rfl) rfl (by simp))).tail
        (hlater (LeaveStep.tellPredecessor (a := "b") rfl) rfl (by simp))
  have hexit := hrun.tail ⟨LeaveStep.exit (a := "b") rfl, fun x hx hx' => absurd hx hx'⟩
  exact ⟨_, rfl, leaves_keep linked hexit ⟨c, by simp [ring], rfl⟩
    (forall_mem (.inl rfl) (.inr rfl) (.inl rfl))⟩

end Data
end ChordInfra
