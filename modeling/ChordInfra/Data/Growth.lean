/-
# The keys of a ring that a node joins

A node joins a stable ring (`ChordNode.join`), and stabilization takes it in.  Neither of them
moves a key: the stores are as they were, and that of the new node is empty
(`Growth`).

Afterwards a key is answered as before where the new node does not become its owner.  Where it
does, every node asks the new node, which has nothing (`get_after_join_iff`).
-/

import ChordInfra.Data.Routed
import ChordInfra.Ring.Maintenance

namespace ChordInfra

open Cyclic
open Storage (Json)

/-! ### Pointers to nodes that have joined -/

namespace Ring
namespace State

variable {M : ℕ} {s s' : State M} {a b c v : String} {n m : ChordNode M} {r p : NodeRef}

/-- What a round of `stabilize` has read names nodes that have joined. -/
def StageNames (s : State M) : Stage → Prop
  | .idle | .notifying _ => True
  | .read _ pred => ∀ p, pred = some p → s.Names p
  | .replied x => ∀ p, x = some p → s.Names p

/-- Every node is at its address, and every pointer names a node that has joined. -/
structure Closed (s : State M) : Prop where
  address : ∀ {a n}, s.nodes a = some n → n.address = a
  fingers : ∀ {a n}, s.nodes a = some n → ∀ i, s.Names (n.fingers i).ref
  predecessor : ∀ {a n p}, s.nodes a = some n → n.predecessor = some p → s.Names p
  stage : ∀ a, s.StageNames (s.stage a)

/-- What a step does to the nodes: it leaves those there were, with their ids. -/
def Extends (s s' : State M) : Prop :=
  ∀ a n, s.nodes a = some n → ∃ n', s'.nodes a = some n' ∧ n'.nodeId = n.nodeId

theorem Extends.names (h : Extends s s') (hr : s.Names r) : s'.Names r := by
  obtain ⟨m, hm, hid⟩ := hr
  obtain ⟨m', hm', hid'⟩ := h _ m hm
  exact ⟨m', hm', hid'.trans hid⟩

theorem Extends.stageNames (h : Extends s s') {st : Stage} (hst : s.StageNames st) :
    s'.StageNames st := by
  cases st with
  | read succ pred => exact fun p hp => h.names (hst p hp)
  | replied x => exact fun p hp => h.names (hst p hp)
  | _ => trivial

theorem Extends.trans {s'' : State M} (h : Extends s s') (h' : Extends s' s'') : Extends s s'' := by
  intro v n hn
  obtain ⟨n', hn', hid⟩ := h v n hn
  obtain ⟨n'', hn'', hid'⟩ := h' v n' hn'
  exact ⟨n'', hn'', hid'.trans hid⟩

/-- A node replaced by one with its id, or a node that is new. -/
theorem extends_set {st : Stage} (hc : ∀ n, s.nodes c = some n → m.nodeId = n.nodeId) :
    Extends s (s.set c m a st) := by
  intro v k hk
  by_cases hv : v = c
  · subst hv
    exact ⟨m, set_nodes_self .., hc k hk⟩
  · exact ⟨k, by rw [set_nodes_ne hv, hk], rfl⟩

/-- **What a step of a node must satisfy to keep every pointer on a node that has joined.** -/
theorem Closed.set (h : s.Closed) (hc : ∀ n, s.nodes c = some n → m.nodeId = n.nodeId)
    (haddr : m.address = c) {st : Stage}
    (hfingers : ∀ i, (s.set c m a st).Names (m.fingers i).ref)
    (hpred : ∀ p, m.predecessor = some p → s.Names p) (hst : s.StageNames st) :
    (s.set c m a st).Closed := by
  have hext : Extends s (s.set c m a st) := extends_set hc
  have hold : ∀ {v k}, (s.set c m a st).nodes v = some k →
      (v = c ∧ k = m) ∨ s.nodes v = some k := by
    intro v k hk
    by_cases hv : v = c
    · subst hv
      exact .inl ⟨rfl, (Option.some.inj ((set_nodes_self ..).symm.trans hk)).symm⟩
    · exact .inr (by rwa [set_nodes_ne hv] at hk)
  refine ⟨fun {v k} hk => ?_, fun {v k} hk i => ?_, fun {v k p} hk hp => ?_, fun v => ?_⟩
  · rcases hold hk with ⟨rfl, rfl⟩ | hk
    · exact haddr
    · exact h.address hk
  · rcases hold hk with ⟨rfl, rfl⟩ | hk
    · exact hfingers i
    · exact hext.names (h.fingers hk i)
  · rcases hold hk with ⟨rfl, rfl⟩ | hk
    · exact hext.names (hpred p hp)
    · exact hext.names (h.predecessor hk hp)
  · by_cases hv : v = a
    · subst hv
      rw [set_stage_self]
      exact hext.stageNames hst
    · rw [set_stage_ne hv]
      exact hext.stageNames (h.stage v)

/-- A node whose pointers are those it had, but for one finger. -/
theorem Closed.setFinger (h : s.Closed) (hn : s.nodes c = some n) (i : Fin M) (hr : s.Names r)
    {st : Stage} (hst : s.StageNames st) : (s.set c (n.setFinger i r) a st).Closed := by
  have hid : ∀ k, s.nodes c = some k → (n.setFinger i r).nodeId = k.nodeId := by
    intro k hk
    cases hn.symm.trans hk
    rfl
  have haddr : n.address = c := h.address hn
  refine h.set hid haddr (fun j => ?_) (fun p hp => h.predecessor hn hp) hst
  by_cases hj : j = i
  · subst hj
    have hfinger : ((n.setFinger j r).fingers j).ref = r := by
      simp [ChordNode.setFinger, FingerEntry.ref]
    rw [hfinger]
    exact (extends_set hid).names hr
  · have hfinger : (n.setFinger i r).fingers j = n.fingers j := Function.update_of_ne hj ..
    rw [hfinger]
    exact (extends_set hid).names (h.fingers hn j)

/-- A node left as it is. -/
theorem Closed.stay (h : s.Closed) (hn : s.nodes c = some n) {st : Stage} (hst : s.StageNames st) :
    (s.set c n a st).Closed := by
  have hid : ∀ k, s.nodes c = some k → n.nodeId = k.nodeId := by
    intro k hk
    cases hn.symm.trans hk
    rfl
  exact h.set hid (h.address hn) (fun j => (extends_set hid).names (h.fingers hn j))
    (fun p hp => h.predecessor hn hp) hst

variable [NeZero M]

/-- **Every step keeps every pointer on a node that has joined**, and the nodes there are. -/
theorem Step.closed (h : s.Closed) (hstep : Step s s') : s'.Closed ∧ Extends s s' := by
  have hself : ∀ {v k}, s.nodes v = some k → ∀ n, s.nodes v = some n → k.nodeId = n.nodeId := by
    intro v k hk n hn
    cases hk.symm.trans hn
    rfl
  cases hstep with
  | @join a ida m ha hid hnew hm =>
    have hnone : ∀ {k : ChordNode M} n, s.nodes a = some n → k.nodeId = n.nodeId := by
      intro k n hn
      rw [ha] at hn
      cases hn
    refine ⟨h.set hnone rfl (fun i => ?_) (fun p hp => ?_) trivial, extends_set hnone⟩
    · by_cases hi : i = 0
      · subst hi
        refine (extends_set hnone).names ⟨m, ?_, rfl⟩
        have hsucc : ((ChordNode.init M a ida).join (some m.ref)).successor = m.ref := by simp
        exact (congrArg (fun r => s.nodes r.address) hsucc).trans hm
      · -- its other fingers name the node itself
        have hfinger : (((ChordNode.init M a ida).join (some m.ref)).fingers i).ref = ⟨ida, a⟩ := by
          simp [ChordNode.join, ChordNode.setSuccessor, ChordNode.setFinger,
            Function.update_of_ne hi, ChordNode.init, ChordNode.initFingers, FingerEntry.ref]
        rw [hfinger]
        exact ⟨_, set_nodes_self .., rfl⟩
    · simp at hp
  | @read a n hn hst =>
    exact ⟨h.stay hn fun p hp => h.predecessor hn hp, extends_set (hself hn)⟩
  | @alone a n succ pred hn hst hsucc =>
    refine ⟨?_, extends_set fun k hk => ?_⟩
    · rcases n.stabilizeAlone_cases pred with he | ⟨p, hp, -, he⟩
      · rw [he]
        exact h.stay hn trivial
      · have hstage := h.stage a
        rw [hst] at hstage
        rw [he]
        exact h.setFinger hn 0 (hstage p hp) trivial
    · rw [← hself hn k hk]
      rcases n.stabilizeAlone_cases pred with he | ⟨p, -, -, he⟩
      · rw [he]
      · rw [he, ChordNode.setSuccessor_nodeId]
  | @reply a n m succ pred hn hst hne hm =>
    exact ⟨h.stay hn fun p hp => h.predecessor hm hp, extends_set (hself hn)⟩
  | @update a n x hn hst =>
    refine ⟨?_, extends_set fun k hk => ?_⟩
    · rcases n.stabilizeUpdate_cases x with he | ⟨p, hp, -, he⟩
      · rw [he]
        exact h.stay hn trivial
      · have hstage := h.stage a
        rw [hst] at hstage
        rw [he]
        exact h.setFinger hn 0 (hstage p hp) trivial
    · rw [← hself hn k hk]
      rcases n.stabilizeUpdate_cases x with he | ⟨p, -, -, he⟩
      · rw [he]
      · rw [he, ChordNode.setSuccessor_nodeId]
  | @notify a t n m hn hst hm =>
    have hid : ∀ k, s.nodes t = some k → (m.notify n.ref).nodeId = k.nodeId := by
      intro k hk
      rw [m.notify_nodeId]
      exact hself hm k hk
    have hfingers : (m.notify n.ref).fingers = m.fingers := by
      unfold ChordNode.notify
      split <;> [rfl; split_ifs <;> rfl]
    refine ⟨h.set hid ((m.notify_address n.ref).trans (h.address hm)) (fun i => ?_) (fun p hp => ?_)
      trivial, extends_set hid⟩
    · rw [hfingers]
      exact (extends_set hid).names (h.fingers hm i)
    · rcases m.notify_predecessor n.ref with he | he
      · exact h.predecessor hm (he ▸ hp)
      · cases he.symm.trans hp
        exact ⟨n, by rw [show n.ref.address = a from h.address hn]; exact hn, rfl⟩
  | @fixFingers a n m i hn hi hm =>
    exact ⟨h.setFinger hn i ⟨m, hm, rfl⟩ (h.stage a),
      extends_set fun k hk => (n.setFinger_nodeId i m.ref).trans (hself hn k hk)⟩

end State

namespace Members

variable {M : ℕ} {r : Members M} {n : ChordNode M} {v : String}

/-- Every predecessor pointer that is set names the member before. -/
def PredecessorsCorrect (r : Members M) : Prop :=
  ∀ n ∈ r.nodes, ∀ p, n.predecessor = some p → ∃ m, r.NextAfter m n ∧ m ∈ r.nodes ∧ p = m.ref

/-- The members between two rounds of maintenance. -/
def state (r : Members M) : State M := ⟨r.net, fun _ => .idle⟩

theorem state_closed (hf : r.FingersNameMembers) (hp : r.PredecessorsCorrect) : r.state.Closed := by
  have hnames : ∀ m ∈ r.nodes, r.state.Names m.ref := fun m hm => ⟨m, net_address hm, rfl⟩
  refine ⟨fun h => (mem_of_net h).2, fun h i => ?_, fun h hpred => ?_, fun _ => trivial⟩
  · obtain ⟨m, hm, hi⟩ := hf _ (mem_of_net h).1 i
    rw [hi]
    exact hnames m hm
  · obtain ⟨m, -, hm, rfl⟩ := hp _ (mem_of_net h).1 _ hpred
    exact hnames m hm

/-- Where every pointer names a node that has joined, the fingers name members. -/
theorem fingersNameMembers_of_closed {s : State M} (h : s.Closed) (hnet : s.nodes = r.net) :
    r.FingersNameMembers := by
  intro n hn i
  obtain ⟨m, hm, hid⟩ := h.fingers (hnet ▸ net_address hn) i
  have haddr := h.address hm
  rw [hnet] at hm
  refine ⟨m, (mem_of_net hm).1, ?_⟩
  rw [ChordNode.ref, hid, haddr]

end Members
end Ring

namespace Data

open ChordInfra.Ring
open ChordInfra.Ring.Members

variable {M : ℕ} [NeZero M]

/-! ### A node joins -/

/-- The new node has joined, with an empty store; its successor is what `find_successor`
answered. -/
def joined (r : Members M) (stores : Stores) (a : String) (ida : ℕ) (succ : NodeRef) :
    State M × Stores :=
  (r.state.set a ((ChordNode.init M a ida).join (some succ)) a .idle,
    Function.update stores a .empty)

/-- A step of the maintenance of some node, which leaves the stores as they are.  No other
node joins. -/
def Maintains (x y : State M × Stores) : Prop :=
  State.Step x.1 y.1 ∧ (∀ v, x.1.nodes v = none → y.1.nodes v = none) ∧ y.2 = x.2

/-- **The node `a` has joined the ring `r`, and the ring has become `r'`.** -/
structure Growth (r r' : Members M) (a : String) (ida : ℕ) (stores stores' : Stores) : Prop where
  address_new : ∀ n ∈ r.nodes, n.address ≠ a
  id_lt : ida < 2 ^ M
  id_new : ∀ n ∈ r.nodes, n.nodeId ≠ ida
  run : ∃ m ∈ r.nodes, ∃ s, s.nodes = r'.net ∧
    Relation.ReflTransGen Maintains (joined r stores a ida m.ref) (s, stores')

/-- The node that is asked for a key by the node whose id it is. -/
def asked (n : ChordNode M) : String :=
  if namesItself n = true then n.address else n.successor.address

/-- Where nothing goes wrong, a node whose id is the key asks itself or its successor. -/
theorem routedGet_nodeId {r : Members M} (hs : r.SuccessorsCorrect) (hf : r.FingersNameMembers)
    {fuel : ℕ} (hfuel : 2 ^ M < fuel) {n : ChordNode M} (hn : n ∈ r.nodes) {sha1Id : String → ℕ}
    {key : String} (hsha : sha1Id key = n.nodeId) (stores : Stores) :
    routedGet r.net sha1Id fuel Faults.none n key stores = some (found (stores (asked n)) key) := by
  have hfind := findSuccessor_nodeId hs hf hn hfuel
  unfold routedGet routedAttempts asked
  rw [hsha]
  by_cases hself : namesItself n = true
  · rw [if_pos hself] at hfind ⊢
    rw [routed_self hfind]
    rfl
  · rw [if_neg hself] at hfind ⊢
    obtain ⟨s, hnext, hsucc⟩ := hs n hn
    have hne : s.nodeId ≠ n.nodeId := by
      intro h
      refine hself ?_
      simp [namesItself, hsucc, ChordNode.ref, h]
    rw [hsucc] at hfind ⊢
    rw [routed_other hfind hnext.1 hne]
    rfl

namespace Growth

variable {r r' : Members M} {a : String} {ida : ℕ} {stores stores' : Stores}

/-- What the run keeps: the pointers, the nodes there are, and the stores. -/
theorem maintained (h : Growth r r' a ida stores stores') (hf : r.FingersNameMembers)
    (hp : r.PredecessorsCorrect) : r'.FingersNameMembers ∧ stores' = Function.update stores a .empty ∧
      (∀ n ∈ r.nodes, ∃ n' ∈ r'.nodes, n'.address = n.address ∧ n'.nodeId = n.nodeId) ∧
      (∃ n' ∈ r'.nodes, n'.address = a ∧ n'.nodeId = ida) ∧
      ∀ n' ∈ r'.nodes, n'.address = a ∨ ∃ n ∈ r.nodes, n.address = n'.address := by
  obtain ⟨m, hm, s, hnet, hrun⟩ := h.run
  have hnone : r.state.nodes a = none := by
    rw [Option.eq_none_iff_forall_ne_some]
    intro n hn
    exact h.address_new n (mem_of_net hn).1 (mem_of_net hn).2
  have hmnet : r.state.nodes m.address = some m := net_address hm
  have hjoin := State.Step.join hnone h.id_lt
    (fun c n hn => h.id_new n (mem_of_net (v := c) hn).1) hmnet
  obtain ⟨hclosed, hext⟩ := hjoin.closed (state_closed hf hp)
  -- the induction is on the rounds of maintenance after the join
  have hkeep : ∀ {y : State M × Stores},
      Relation.ReflTransGen Maintains (joined r stores a ida m.ref) y →
        y.1.Closed ∧ (joined r stores a ida m.ref).1.Extends y.1 ∧
          (∀ v, (joined r stores a ida m.ref).1.nodes v = none → y.1.nodes v = none) ∧
          y.2 = Function.update stores a .empty := by
    intro y hy
    induction hy with
    | refl => exact ⟨hclosed, fun v n hn => ⟨n, hn, rfl⟩, fun _ h => h, rfl⟩
    | tail _ hstep ih =>
      obtain ⟨hc, he, hn, hd⟩ := ih
      obtain ⟨hstep, hno, hsame⟩ := hstep
      obtain ⟨hc', he'⟩ := hstep.closed hc
      exact ⟨hc', he.trans he', fun v hv => hno v (hn v hv), hsame.trans hd⟩
  obtain ⟨hc, he, hno, hd⟩ := hkeep hrun
  refine ⟨fingersNameMembers_of_closed hc hnet, hd, fun n hn => ?_, ?_, fun n' hn' => ?_⟩
  · obtain ⟨n', hn', hid⟩ := (hext.trans he) n.address n (net_address hn)
    rw [hnet] at hn'
    exact ⟨n', (mem_of_net hn').1, (mem_of_net hn').2, hid⟩
  · obtain ⟨n', hn', hid⟩ := he a _ (State.set_nodes_self ..)
    rw [hnet] at hn'
    exact ⟨n', (mem_of_net hn').1, (mem_of_net hn').2, hid⟩
  · by_contra hnot
    push Not at hnot
    have hold : r.state.nodes n'.address = none := by
      rw [Option.eq_none_iff_forall_ne_some]
      intro n hn
      exact hnot.2 n (mem_of_net hn).1 (mem_of_net hn).2
    have hgone := hno n'.address (by rw [← hold]; exact State.set_nodes_ne hnot.1 ..)
    rw [hnet, net_address hn'] at hgone
    cases hgone

/-- Every node of the ring was there before, or is the new one. -/
theorem nodeId_eq (h : Growth r r' a ida stores stores') (hf : r.FingersNameMembers)
    (hp : r.PredecessorsCorrect) {n' : ChordNode M} (hn' : n' ∈ r'.nodes) :
    (n'.address = a ∧ n'.nodeId = ida) ∨
      ∃ n ∈ r.nodes, n.address = n'.address ∧ n.nodeId = n'.nodeId := by
  obtain ⟨-, -, hold, ⟨new, hnew, haddr, hid⟩, honly⟩ := h.maintained hf hp
  rcases honly n' hn' with ha | ⟨n, hn, hna⟩
  · obtain rfl : n' = new :=
      List.inj_on_of_nodup_map r'.addresses_distinct hn' hnew (ha.trans haddr.symm)
    exact .inl ⟨haddr, hid⟩
  · obtain ⟨m, hm, hma, hmid⟩ := hold n hn
    obtain rfl : n' = m :=
      List.inj_on_of_nodup_map r'.addresses_distinct hn' hm (hna.symm.trans hma.symm)
    exact .inr ⟨n, hn, hna, hmid.symm⟩

/-- Who owns a key afterwards: the owner it had, or the new node. -/
theorem owner (h : Growth r r' a ida stores stores') (hf : r.FingersNameMembers)
    (hp : r.PredecessorsCorrect) {k : ℕ} {owner : ChordNode M} (howner : r.FirstAt k owner) :
    ((∃ m ∈ r.nodes, dist (2 ^ M) k m.nodeId < dist (2 ^ M) k ida) →
      ∃ o ∈ r'.nodes, o.address = owner.address ∧ r'.FirstAt k o) ∧
    (¬ (∃ m ∈ r.nodes, dist (2 ^ M) k m.nodeId < dist (2 ^ M) k ida) →
      ∃ o ∈ r'.nodes, o.address = a ∧ r'.FirstAt k o) := by
  obtain ⟨-, -, hold, ⟨new, hnew, haddr, hid⟩, -⟩ := h.maintained hf hp
  constructor
  · rintro ⟨m, hm, hlt⟩
    obtain ⟨o, ho, hoa, hoid⟩ := hold owner howner.1
    refine ⟨o, ho, hoa, ho, fun n' hn' => ?_⟩
    rw [hoid]
    rcases h.nodeId_eq hf hp hn' with ⟨-, hn'id⟩ | ⟨n, hn, -, hnid⟩
    · rw [hn'id]
      exact (howner.2 m hm).trans hlt.le
    · rw [← hnid]
      exact howner.2 n hn
  · intro hnot
    push Not at hnot
    refine ⟨new, hnew, haddr, hnew, fun n' hn' => ?_⟩
    rw [hid]
    rcases h.nodeId_eq hf hp hn' with ⟨-, hn'id⟩ | ⟨n, hn, -, hnid⟩
    · rw [hn'id]
    · rw [← hnid]
      exact hnot n hn

end Growth

/-- Nothing is found at a node that has just joined. -/
theorem found_joined {stores : Stores} {a v : String} {key : String} {w : Json} :
    found (Function.update stores a .empty v) key = some w ↔
      v ≠ a ∧ found (stores v) key = some w := by
  by_cases hv : v = a
  · subst hv
    rw [Function.update_self]
    exact iff_of_false nofun fun h => h.1 rfl
  · rw [Function.update_of_ne hv, and_iff_right hv]

/-- **A value is answered after a join as before it exactly when the new node does not become
the owner of its key**, and, where the key is the id of an old node, that node does not ask the
new one for it now, and what it asks has what it asked before. -/
theorem get_after_join_iff {r r' : Members M} (hs : r.Stable) (hp : r.PredecessorsCorrect)
    {a : String} {ida : ℕ} {stores stores' : Stores} (h : Growth r r' a ida stores stores')
    (hs' : r'.SuccessorsCorrect) {fuel : ℕ} (hfuel : 2 ^ M < fuel) {sha1Id : String → ℕ}
    {key : String} (hk : sha1Id key < 2 ^ M) {owner : ChordNode M}
    (howner : r.FirstAt (sha1Id key) owner) {v : Json}
    (hstored : found (stores owner.address) key = some v) :
    ((∀ n ∈ r.nodes, ∀ n' ∈ r'.nodes, n'.address = n.address → ∀ w,
        routedGet r.net sha1Id fuel Faults.none n key stores = some (some w) →
          routedGet r'.net sha1Id fuel Faults.none n' key stores' = some (some w)) ∧
      ∀ n' ∈ r'.nodes, n'.address = a →
        routedGet r'.net sha1Id fuel Faults.none n' key stores' = some (some v)) ↔
    (∃ m ∈ r.nodes, dist (2 ^ M) (sha1Id key) m.nodeId < dist (2 ^ M) (sha1Id key) ida) ∧
      ∀ n ∈ r.nodes, n.nodeId = sha1Id key → ∀ n' ∈ r'.nodes, n'.nodeId = sha1Id key → ∀ w,
        found (stores (asked n)) key = some w →
          asked n' ≠ a ∧ found (stores (asked n')) key = some w := by
  have hf := hs.fingersNameMembers
  obtain ⟨hf', hstores, hold, ⟨new, hnew, hna, hnid⟩, -⟩ := h.maintained hf hp
  obtain ⟨hstay, hmove⟩ := h.owner hf hp howner
  by_cases howns : ∃ m ∈ r.nodes, dist (2 ^ M) (sha1Id key) m.nodeId < dist (2 ^ M) (sha1Id key) ida
  · obtain ⟨o, ho, hoa, hfirst⟩ := hstay howns
    have hkept : found (stores' o.address) key = some v := by
      rw [hstores, hoa, Function.update_of_ne (h.address_new owner howner.1)]
      exact hstored
    have hne : ida ≠ sha1Id key := by
      rintro rfl
      obtain ⟨m, -, hlt⟩ := howns
      simp at hlt
    rw [and_iff_right howns]
    constructor
    · rintro ⟨hget, -⟩ n hn hid n' hn' hid' w hw
      have haddr : n'.address = n.address := by
        obtain ⟨m, hm, hma, hmid⟩ := hold n hn
        rw [eq_of_nodeId hn' hm (by rw [hid', hmid, hid]), hma]
      have hgot := hget n hn n' hn' haddr w
        ((routedGet_nodeId hs.successors hf hfuel hn hid.symm stores).trans (congrArg some hw))
      rw [routedGet_nodeId hs' hf' hfuel hn' hid'.symm stores', hstores] at hgot
      exact found_joined.1 (Option.some.inj hgot)
    · intro hown
      refine ⟨fun n hn n' hn' haddr w hw => ?_, fun n' hn' haddr => ?_⟩
      · have hid : n'.nodeId = n.nodeId := by
          obtain ⟨m, hm, hma, hmid⟩ := hold n hn
          rw [List.inj_on_of_nodup_map r'.addresses_distinct hn' hm (haddr.trans hma.symm), hmid]
        by_cases hself : n.nodeId = sha1Id key
        · rw [routedGet_nodeId hs.successors hf hfuel hn hself.symm stores] at hw
          rw [routedGet_nodeId hs' hf' hfuel hn' (hid.trans hself).symm stores']
          rw [hstores]
          exact congrArg some
            (found_joined.2 (hown n hn hself n' hn' (hid.trans hself) w (Option.some.inj hw)))
        · rw [routedGet_eq hs.successors hf hfuel hk hself hn howner] at hw
          rw [routedGet_eq hs' hf' hfuel hk (hid ▸ hself) hn' hfirst, hkept]
          rw [← hw, hstored]
      · have hid : n'.nodeId = ida := by
          rw [List.inj_on_of_nodup_map r'.addresses_distinct hn' hnew (haddr.trans hna.symm), hnid]
        rw [routedGet_eq hs' hf' hfuel hk (hid ▸ hne) hn' hfirst, hkept]
  · -- the new node owns the key, and has nothing
    obtain ⟨o, ho, hoa, hfirst⟩ := hmove howns
    refine iff_of_false (fun hget => ?_) fun hcond => howns hcond.1
    have hgone : found (stores' o.address) key = none := by
      rw [hstores, hoa, Function.update_self]
      rfl
    have hne : owner.nodeId ≠ sha1Id key := by
      intro hid
      refine howns ⟨owner, howner.1, ?_⟩
      rw [hid, dist_self]
      refine Nat.pos_of_ne_zero fun h0 => h.id_new owner howner.1 ?_
      rw [hid, eq_of_dist_eq_zero hk h0]
    obtain ⟨n', hn', haddr, hid⟩ := hold owner howner.1
    have hgot := hget.1 owner howner.1 n' hn' haddr v
      (by rw [routedGet_eq hs.successors hf hfuel hk hne howner.1 howner, hstored])
    rw [routedGet_eq hs' hf' hfuel hk (by rw [hid]; exact hne) hn' hfirst, hgone] at hgot
    cases hgot

/-! ### A node joins a node that was alone -/

namespace Pair

/-- Node `10` alone, with a store that has the key `k`. -/
def alone : ChordNode 8 := (ChordNode.init 8 "a" 10).join none

def lone : Members 8 where
  nodes := [alone]
  nonempty := by simp
  ids_lt := by simp [alone, ChordNode.init]
  ids_distinct := by simp
  addresses_distinct := by simp

def stored : Stores := fun _ => Dict.set .empty "k" (.int 1)

theorem lone_stable : lone.Stable := by
  have hone : ∀ {P : ChordNode 8 → Prop}, P alone → ∀ n ∈ lone.nodes, P n := by
    intro P h n hn
    rw [List.mem_singleton.1 hn]
    exact h
  have hmem : alone ∈ lone.nodes := by simp [lone]
  refine ⟨hone ⟨alone, ⟨hmem, hone le_rfl⟩, rfl⟩, hone fun i hi => ?_, hone fun i hi => ?_⟩
  · simp [alone, ChordNode.join, ChordNode.setSuccessor, ChordNode.setFinger, hi, ChordNode.init,
      ChordNode.initFingers]
  · refine ⟨alone, ⟨hmem, hone le_rfl⟩, ?_⟩
    simp [alone, ChordNode.join, ChordNode.setSuccessor, ChordNode.setFinger, hi, ChordNode.init,
      ChordNode.initFingers, ChordNode.ref, FingerEntry.ref]

theorem lone_predecessors : lone.PredecessorsCorrect := by
  intro n hn p hp
  rw [List.mem_singleton.1 hn] at hp
  cases hp

/-- The new node, and the two nodes once their pointers are correct. -/
def new : ChordNode 8 := (ChordNode.init 8 "b" 150).join (some alone.ref)
def first : ChordNode 8 := (alone.notify new.ref).stabilizeAlone (some new.ref)
def second : ChordNode 8 := new.notify first.ref

def both : Members 8 where
  nodes := [first, second]
  nonempty := by simp
  ids_lt := by decide
  ids_distinct := by decide
  addresses_distinct := by decide

theorem both_mem {P : ChordNode 8 → Prop} (h₁ : P first) (h₂ : P second) :
    ∀ n ∈ both.nodes, P n := by
  intro n hn
  rcases List.mem_pair.1 hn with rfl | rfl
  · exact h₁
  · exact h₂

theorem both_next : both.NextAfter first second ∧ both.NextAfter second first :=
  ⟨⟨by simp [both], both_mem (by decide) (by decide)⟩,
    ⟨by simp [both], both_mem (by decide) (by decide)⟩⟩

theorem both_successors : both.SuccessorsCorrect :=
  both_mem ⟨second, both_next.1, by decide⟩ ⟨first, both_next.2, by decide⟩

theorem both_predecessors : both.PredecessorsCorrect := by
  have hfirst : first.predecessor = some second.ref := by decide
  have hsecond : second.predecessor = some first.ref := by decide
  refine both_mem (fun p hp => ?_) fun p hp => ?_
  · rw [hfirst] at hp
    exact ⟨second, both_next.2, both_next.1.1, (Option.some.inj hp).symm⟩
  · rw [hsecond] at hp
    exact ⟨first, both_next.1, both_next.2.1, (Option.some.inj hp).symm⟩

/-- Two nodes and the rounds they are in. -/
structure Are (s : State 8) (x y : ChordNode 8) (sx sy : Stage) : Prop where
  left : s.nodes "a" = some x
  right : s.nodes "b" = some y
  stageLeft : s.stage "a" = sx
  stageRight : s.stage "b" = sy
  others : ∀ v, v ≠ "a" → v ≠ "b" → s.nodes v = none

variable {s : State 8} {x y n : ChordNode 8} {sx sy st : Stage} {d : Stores}

/-- A step of the left node on itself. -/
theorem Are.left_step (h : Are s x y sx sy) (hstep : State.Step s (s.set "a" n "a" st)) :
    ∃ s', Maintains (s, d) (s', d) ∧ Are s' n y st sy := by
  refine ⟨_, ⟨hstep, fun v hv => ?_, rfl⟩, by simp, ?_, by simp, ?_,
    fun v ha hb => ?_⟩
  · have hne : v ≠ "a" := by rintro rfl; rw [h.left] at hv; cases hv
    simpa [State.set, hne] using hv
  · simpa [State.set] using h.right
  · simpa [State.set] using h.stageRight
  · simpa [State.set, ha] using h.others v ha hb

/-- A step of the right node on itself. -/
theorem Are.right_step (h : Are s x y sx sy) (hstep : State.Step s (s.set "b" n "b" st)) :
    ∃ s', Maintains (s, d) (s', d) ∧ Are s' x n sx st := by
  refine ⟨_, ⟨hstep, fun v hv => ?_, rfl⟩, ?_, by simp, ?_, by simp,
    fun v ha hb => ?_⟩
  · have hne : v ≠ "b" := by rintro rfl; rw [h.right] at hv; cases hv
    simpa [State.set, hne] using hv
  · simpa [State.set] using h.left
  · simpa [State.set] using h.stageLeft
  · simpa [State.set, hb] using h.others v ha hb

/-- The left node is notified by the right one. -/
theorem Are.left_notified (h : Are s x y sx (.notifying "a")) :
    ∃ s', Maintains (s, d) (s', d) ∧ Are s' (x.notify y.ref) y sx .idle := by
  refine ⟨_, ⟨.notify h.right h.stageRight h.left, fun v hv => ?_, rfl⟩, by simp, ?_,
    ?_, by simp, fun v ha hb => ?_⟩
  · have hne : v ≠ "a" := by rintro rfl; rw [h.left] at hv; cases hv
    simpa [State.set, hne] using hv
  · simpa [State.set] using h.right
  · simpa [State.set] using h.stageLeft
  · simpa [State.set, ha] using h.others v ha hb

/-- The right node is notified by the left one. -/
theorem Are.right_notified (h : Are s x y (.notifying "b") sy) :
    ∃ s', Maintains (s, d) (s', d) ∧ Are s' x (y.notify x.ref) .idle sy := by
  refine ⟨_, ⟨.notify h.left h.stageLeft h.right, fun v hv => ?_, rfl⟩, ?_, by simp,
    by simp, ?_, fun v ha hb => ?_⟩
  · have hne : v ≠ "b" := by rintro rfl; rw [h.right] at hv; cases hv
    simpa [State.set, hne] using hv
  · simpa [State.set] using h.left
  · simpa [State.set] using h.stageRight
  · simpa [State.set, hb] using h.others v ha hb

/-- **Node `150` joins, and three rounds of `stabilize` make the pointers correct**: one of the new
node, and two of node `10`. -/
theorem growth : Growth lone both "b" 150 stored (Function.update stored "b" .empty) := by
  have hid : ∀ n ∈ lone.nodes, n.address ≠ "b" ∧ n.nodeId ≠ 150 := by
    intro n hn
    rw [List.mem_singleton.1 hn]
    decide
  have h₀ : Are (joined lone stored "b" 150 alone.ref).1 alone new .idle .idle := by
    refine ⟨?_, by simp [joined, State.set, new], rfl, by simp [joined, State.set],
      fun v ha hb => ?_⟩
    · simp [joined, State.set, state, net, lone, alone, ChordNode.init]
    · simp [joined, State.set, state, net, lone, alone, ChordNode.init, hb, Ne.symm ha]
  obtain ⟨s₁, m₁, h₁⟩ := h₀.right_step (d := Function.update stored "b" .empty)
    (.read h₀.right h₀.stageRight)
  obtain ⟨s₂, m₂, h₂⟩ := h₁.right_step (.reply h₁.right h₁.stageRight (by decide) h₁.left)
  obtain ⟨s₃, m₃, h₃⟩ := h₂.right_step (.update h₂.right h₂.stageRight)
  obtain ⟨s₄, m₄, h₄⟩ := h₃.left_notified
  obtain ⟨s₅, m₅, h₅⟩ := h₄.left_step (.read h₄.left h₄.stageLeft)
  obtain ⟨s₆, m₆, h₆⟩ := h₅.left_step (.alone h₅.left h₅.stageLeft (by decide))
  obtain ⟨s₇, m₇, h₇⟩ := h₆.left_step (.read h₆.left h₆.stageLeft)
  obtain ⟨s₈, m₈, h₈⟩ := h₇.left_step (.reply h₇.left h₇.stageLeft (by decide) h₇.right)
  obtain ⟨s₉, m₉, h₉⟩ := h₈.left_step (.update h₈.left h₈.stageLeft)
  obtain ⟨s', m', h'⟩ := h₉.right_notified
  refine ⟨fun n hn => (hid n hn).1, by decide, fun n hn => (hid n hn).2, alone, by simp [lone], s', ?_,
    (((((((((Relation.ReflTransGen.single m₁).tail m₂).tail m₃).tail m₄).tail m₅).tail m₆).tail
      m₇).tail m₈).tail m₉).tail m'⟩
  funext v
  by_cases ha : v = "a"
  · subst ha
    rw [h'.left]
    rfl
  · by_cases hb : v = "b"
    · subst hb
      rw [h'.right]
      rfl
    · rw [h'.others v ha hb]
      have hfirst : first.address = "a" := by decide
      have hsecond : second.address = "b" := by decide
      simp [net, both, hfirst, hsecond, Ne.symm ha, Ne.symm hb]

end Pair

open Pair in
/-- **A value is lost by a join**: node `10` is alone and has the value of the key `100`; node
`150` joins, owns the key from then on, and has nothing. -/
theorem get_after_join_lost :
    ¬ (∀ (r r' : Members 8), r.Stable → r.PredecessorsCorrect → ∀ a ida stores stores',
        Growth r r' a ida stores stores' → r'.SuccessorsCorrect → r'.PredecessorsCorrect →
        ∀ (sha1Id : String → ℕ) (key : String), sha1Id key < 2 ^ 8 → ∀ owner,
        r.FirstAt (sha1Id key) owner → ∀ v, found (stores owner.address) key = some v →
        ∀ n ∈ r.nodes, ∀ n' ∈ r'.nodes, n'.address = n.address → ∀ w,
          routedGet r.net sha1Id 257 Faults.none n key stores = some (some w) →
            routedGet r'.net sha1Id 257 Faults.none n' key stores' = some (some w)) := by
  intro h
  have hmem : alone ∈ lone.nodes := by simp [lone]
  have hfirst : lone.FirstAt ((fun _ : String => 100) "k") alone := by
    refine ⟨hmem, fun m hm => ?_⟩
    rw [List.mem_singleton.1 hm]
  have hbefore : routedGet lone.net (fun _ => 100) 257 Faults.none alone "k" stored =
      some (found (stored alone.address) "k") := by
    refine routedGet_eq lone_stable.successors lone_stable.fingersNameMembers ?_ ?_ ?_ hmem ?_ stored
    · decide
    · decide
    · decide
    · exact hfirst
  have hafter := h lone both lone_stable lone_predecessors "b" 150 stored _ growth both_successors
    both_predecessors (fun _ => 100) "k" (by decide) alone hfirst (.int 1) rfl alone hmem first
    (by simp [both]) (by decide) (.int 1) hbefore
  have hnone : ((routedGet both.net (fun _ => 100) 257 Faults.none first "k"
      (Function.update stored "b" .empty)).bind id).isNone = true := by decide
  rw [hafter] at hnone
  exact absurd hnone (by decide)

open Pair in
/-- The hypotheses of `get_after_join_iff` are satisfiable: the key is `5`, and node `10` stays
its owner when node `150` joins. -/
theorem get_after_join_pair :
    ((∀ n ∈ lone.nodes, ∀ n' ∈ both.nodes, n'.address = n.address → ∀ w,
        routedGet lone.net (fun _ => 5) 257 Faults.none n "k" stored = some (some w) →
          routedGet both.net (fun _ => 5) 257 Faults.none n' "k"
            (Function.update stored "b" .empty) = some (some w)) ∧
      ∀ n' ∈ both.nodes, n'.address = "b" → routedGet both.net (fun _ => 5) 257 Faults.none n' "k"
        (Function.update stored "b" .empty) = some (some (.int 1))) ↔
    (∃ m ∈ lone.nodes, dist (2 ^ 8) 5 m.nodeId < dist (2 ^ 8) 5 150) ∧
      ∀ n ∈ lone.nodes, n.nodeId = 5 → ∀ n' ∈ both.nodes, n'.nodeId = 5 → ∀ w,
        found (stored (asked n)) "k" = some w →
          asked n' ≠ "b" ∧ found (stored (asked n')) "k" = some w :=
  get_after_join_iff lone_stable lone_predecessors growth both_successors (by decide) (by decide)
    (show lone.FirstAt ((fun _ : String => 5) "k") alone from
      ⟨by simp [lone], fun m hm => by rw [List.mem_singleton.1 hm]⟩) rfl

end Data
end ChordInfra
