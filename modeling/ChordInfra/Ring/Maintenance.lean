/-
# Joins and stabilization, message by message

`ChordNode.join`, `stabilize`, `notify` and `fix_fingers` over a ring that only
grows.  Each node runs its rounds of `stabilize` one after the other
(`MaintenanceThread` is the only caller), and a round is cut where the lock is
released: the node reads its own successor and predecessor, the successor's
predecessor comes back, the successor is updated, the notification is
delivered.  Between any two of these every other node may take steps.

The invariant (`State.Inv`) says of every predecessor a node holds, or has
learned and not used yet, that it walks to the node it precedes without
overshooting it (`State.Learned`).  Every step keeps every walk along successor
pointers with its length (`State.Le`), because a pointer is only ever moved back
to such a vertex, so the one turn the bootstrap node makes at the start is
never lost (`State.Step.inv`).
-/

import ChordInfra.Cyclic.Walk
import ChordInfra.Ring.Node

namespace ChordInfra
namespace Ring

open Cyclic

variable {M : ℕ}

/-- Where a node is in its round of `stabilize`. -/
inductive Stage
  | idle
  /-- It has read its own successor and predecessor. -/
  | read (succ : NodeRef) (pred : Option NodeRef)
  /-- The successor has answered with its predecessor. -/
  | replied (x : Option NodeRef)
  /-- The notification is on its way to the successor. -/
  | notifying (target : String)

/-- The nodes that have joined, by address, and the round each is in. -/
structure State (M : ℕ) where
  nodes : Network M
  stage : String → Stage

namespace State

variable {s s' s'' : State M} {a b c u v : String} {n m : ChordNode M} {r p : NodeRef} {L : ℕ}

/-- Node `c` replaced and the round of node `a` moved on. -/
def set (s : State M) (c : String) (n : ChordNode M) (a : String) (st : Stage) : State M where
  nodes := Function.update s.nodes c (some n)
  stage := Function.update s.stage a st

/-- The id of the node at `a`. -/
def pos (s : State M) (a : String) : ℕ := (s.nodes a).elim 0 ChordNode.nodeId

/-- `r` is the id and address of a node that has joined. -/
def Names (s : State M) (r : NodeRef) : Prop := ∃ m, s.nodes r.address = some m ∧ m.nodeId = r.id

theorem pos_eq (h : s.nodes a = some n) : s.pos a = n.nodeId := by simp [pos, h]

theorem Names.pos (h : s.Names r) : s.pos r.address = r.id := by
  obtain ⟨m, hm, he⟩ := h
  rw [pos_eq hm, he]

theorem set_nodes_self (s : State M) (c : String) (n : ChordNode M) (a : String) (st : Stage) :
    (s.set c n a st).nodes c = some n := by simp [set]

theorem set_nodes_ne (h : v ≠ c) (n : ChordNode M) (a : String) (st : Stage) :
    (s.set c n a st).nodes v = s.nodes v := by simp [set, h]

theorem set_stage_self (s : State M) (c : String) (n : ChordNode M) (a : String) (st : Stage) :
    (s.set c n a st).stage a = st := by simp [set]

theorem set_stage_ne (h : v ≠ a) (c : String) (n : ChordNode M) (st : Stage) :
    (s.set c n a st).stage v = s.stage v := by simp [set, h]

theorem pos_set (hc : s.nodes c = some n) (hid : m.nodeId = n.nodeId) (a : String) (st : Stage) :
    (s.set c m a st).pos = s.pos := by
  funext v
  by_cases hv : v = c
  · subst hv
    rw [pos_eq (set_nodes_self ..), pos_eq hc, hid]
  · simp only [pos, set_nodes_ne hv]

variable [NeZero M]

/-- One node has bootstrapped: `join` without a known node. -/
def start (b : String) (idb : ℕ) : State M where
  nodes := Function.update (fun _ => none) b (some ((ChordNode.init M b idb).join none))
  stage _ := .idle

/-- One step of some node.  No request fails and no node leaves. -/
inductive Step (s : State M) : State M → Prop
  /-- A new node joins; what the known node's `find_successor` answers may be
  any node that has joined. -/
  | join {a : String} {ida : ℕ} {m : ChordNode M} : s.nodes a = none → ida < 2 ^ M →
      (∀ c n, s.nodes c = some n → n.nodeId ≠ ida) → s.nodes m.address = some m →
      Step s (s.set a ((ChordNode.init M a ida).join (some m.ref)) a .idle)
  | read {a : String} {n : ChordNode M} : s.nodes a = some n → s.stage a = .idle →
      Step s (s.set a n a (.read n.successor n.predecessor))
  /-- The round of a node that read itself as its successor. -/
  | alone {a : String} {n : ChordNode M} {succ : NodeRef} {pred : Option NodeRef} :
      s.nodes a = some n → s.stage a = .read succ pred → succ.id = n.nodeId →
      Step s (s.set a (n.stabilizeAlone pred) a .idle)
  /-- The request `get_predecessor` is answered. -/
  | reply {a : String} {n m : ChordNode M} {succ : NodeRef} {pred : Option NodeRef} :
      s.nodes a = some n → s.stage a = .read succ pred → succ.id ≠ n.nodeId →
      s.nodes succ.address = some m → Step s (s.set a n a (.replied m.predecessor))
  | update {a : String} {n : ChordNode M} {x : Option NodeRef} :
      s.nodes a = some n → s.stage a = .replied x →
      Step s (s.set a (n.stabilizeUpdate x) a (.notifying (n.stabilizeUpdate x).successor.address))
  /-- The request `notify` is delivered. -/
  | notify {a t : String} {n m : ChordNode M} : s.nodes a = some n → s.stage a = .notifying t →
      s.nodes t = some m → Step s (s.set t (m.notify n.ref) a .idle)
  /-- `fix_fingers` sets some finger but the first to what `find_successor`
  answered, which may be any node that has joined. -/
  | fixFingers {a : String} {n m : ChordNode M} {i : Fin M} : s.nodes a = some n → i ≠ 0 →
      s.nodes m.address = some m → Step s (s.set a (n.setFinger i m.ref) a (s.stage a))

/-- Any number of steps. -/
abbrev Steps : State M → State M → Prop := Relation.ReflTransGen Step

/-! ### Successor pointers as a graph on addresses -/

/-- The address the successor pointer of `a` names. -/
def next (s : State M) (a : String) : Option String := (s.nodes a).map fun n => n.successor.address

/-- A walk along successor pointers of total clockwise length `L`. -/
abbrev Walks (s : State M) (u v : String) (L : ℕ) : Prop := Walk (2 ^ M) s.pos s.next u v L

/-- A walk that reaches its end without overshooting it. -/
abbrev Direct (s : State M) (u v : String) : Prop :=
  s.Walks u v (arc (2 ^ M) (s.pos u) (s.pos v))

/-- `r` may be taken for a predecessor of the node at `a`. -/
def Learned (s : State M) (r : NodeRef) (a : String) : Prop := s.Names r ∧ s.Direct r.address a

/-- What holds of a node in the middle of a round. -/
def StageOk (s : State M) (a : String) (n : ChordNode M) : Stage → Prop
  | .idle => True
  | .read succ pred => succ = n.successor ∧ ∀ p, pred = some p → s.Learned p a
  | .replied x => n.successor.id ≠ n.nodeId ∧ ∀ r, x = some r → s.Learned r n.successor.address
  | .notifying t => (∃ m, s.nodes t = some m) ∧ s.Direct a t

/-- The invariant of the runs from the bootstrap node `b`. -/
structure Inv (b : String) (s : State M) : Prop where
  address : ∀ {a n}, s.nodes a = some n → n.address = a
  id_lt : ∀ {a n}, s.nodes a = some n → n.nodeId < 2 ^ M
  distinct : ∀ {a c n m}, s.nodes a = some n → s.nodes c = some m → n.nodeId = m.nodeId → a = c
  successor : ∀ {a n}, s.nodes a = some n → s.Names n.successor
  predecessor : ∀ {a n p}, s.nodes a = some n → n.predecessor = some p → s.Learned p a
  stage : ∀ {a n}, s.nodes a = some n → s.StageOk a n (s.stage a)
  turn : s.Walks b b (2 ^ M)
  reaches : ∀ {a n}, s.nodes a = some n → ∃ L, s.Walks a b L

theorem points_iff (h : s.nodes a = some n) : Points s.next a c ↔ n.successor.address = c := by
  simp [Points, next, h]

/-- Where every pointer names a node that has joined, the ends of a pointer are
in the identifier space. -/
theorem Inv.pos_lt (hi : s.Inv b) : ∀ u v, Points s.next u v → s.pos u < 2 ^ M ∧ s.pos v < 2 ^ M := by
  intro u v h
  obtain ⟨n, hn, rfl⟩ : ∃ n, s.nodes u = some n ∧ n.successor.address = v := by
    simpa [Points, next] using h
  obtain ⟨m, hm, -⟩ := hi.successor hn
  exact ⟨by rw [pos_eq hn]; exact hi.id_lt hn, by rw [pos_eq hm]; exact hi.id_lt hm⟩

/-! ### What every step keeps -/

/-- Nodes stay, with their ids, and so does every walk. -/
structure Le (s s' : State M) : Prop where
  nodes : ∀ {a n}, s.nodes a = some n → ∃ n', s'.nodes a = some n' ∧ n'.nodeId = n.nodeId
  walks : ∀ {u v L}, s.Walks u v L → s'.Walks u v L

theorem Le.names (h : Le s s') (hr : s.Names r) : s'.Names r := by
  obtain ⟨m, hm, he⟩ := hr
  obtain ⟨m', hm', he'⟩ := h.nodes hm
  exact ⟨m', hm', he'.trans he⟩

theorem Le.pos (h : Le s s') (ha : s.nodes a = some n) : s'.pos a = s.pos a := by
  obtain ⟨n', hn', he⟩ := h.nodes ha
  rw [pos_eq hn', pos_eq ha, he]

theorem Le.direct (h : Le s s') (hu : s.nodes u = some n) (hv : s.nodes v = some m)
    (hd : s.Direct u v) : s'.Direct u v := by
  unfold Direct
  rw [h.pos hu, h.pos hv]
  exact h.walks hd

theorem Le.learned (h : Le s s') (ha : s.nodes a = some n) (hr : s.Learned r a) :
    s'.Learned r a := by
  obtain ⟨m, hm, -⟩ := hr.1
  exact ⟨h.names hr.1, h.direct hm ha hr.2⟩

theorem Le.stageOk (h : Le s s') (hi : s.Inv b) (ha : s.nodes a = some n)
    (hsucc : m.successor = n.successor) (hid : m.nodeId = n.nodeId) {st : Stage}
    (hst : s.StageOk a n st) : s'.StageOk a m st := by
  cases st with
  | idle => trivial
  | read succ pred => exact ⟨hst.1.trans hsucc.symm, fun p hp => h.learned ha (hst.2 p hp)⟩
  | replied x =>
    obtain ⟨t, ht, -⟩ := hi.successor ha
    refine ⟨by rw [hsucc, hid]; exact hst.1, fun r hr => ?_⟩
    rw [hsucc]
    exact h.learned ht (hst.2 r hr)
  | notifying t =>
    obtain ⟨⟨k, hk⟩, hd⟩ := hst
    obtain ⟨k', hk', -⟩ := h.nodes hk
    exact ⟨⟨k', hk'⟩, h.direct ha hk hd⟩

/-- Replacing a node by one with its id and its successor keeps every walk. -/
theorem le_set (hc : s.nodes c = some n) (hid : m.nodeId = n.nodeId)
    (hsucc : m.successor = n.successor) (a : String) (st : Stage) : Le s (s.set c m a st) where
  nodes {v k} hv := by
    by_cases hvc : v = c
    · subst hvc
      obtain rfl := Option.some.inj (hc.symm.trans hv)
      exact ⟨m, set_nodes_self .., hid⟩
    · exact ⟨k, by rw [set_nodes_ne hvc, hv], rfl⟩
  walks {u v L} h := by
    have hnext : (s.set c m a st).next = s.next := by
      funext v
      by_cases hvc : v = c
      · subst hvc
        simp [next, set_nodes_self, hc, hsucc]
      · simp only [next, set_nodes_ne hvc]
    rwa [Walks, pos_set hc hid, hnext]

/-- **Moving a successor pointer back keeps every walk**, when its new end is a
learned predecessor of the old one and lies strictly before it. -/
theorem Inv.le_setSuccessor (hi : s.Inv b) (hc : s.nodes c = some n)
    (hr : s.Learned r n.successor.address)
    (hlt : arc (2 ^ M) n.nodeId r.id < arc (2 ^ M) n.nodeId n.successor.id) (a : String)
    (st : Stage) : Le s (s.set c (n.setSuccessor r) a st) where
  nodes {v k} hv := by
    by_cases hvc : v = c
    · subst hvc
      obtain rfl := Option.some.inj (hc.symm.trans hv)
      exact ⟨_, set_nodes_self .., rfl⟩
    · exact ⟨k, by rw [set_nodes_ne hvc, hv], rfl⟩
  walks {u v L} h := by
    have hsucc := hi.successor hc
    have hlt_id : ∀ {q : NodeRef}, s.Names q → s.pos q.address < 2 ^ M := fun hq => by
      obtain ⟨m, hm, -⟩ := hq
      rw [pos_eq hm]
      exact hi.id_lt hm
    rw [Walks, pos_set hc (n.setSuccessor_nodeId r)]
    refine Walk.redirect (n := c) (x := r.address) (c := n.successor.address)
      (by rw [pos_eq hc]; exact hi.id_lt hc) (hlt_id hr.1) (hlt_id hsucc) ((points_iff hc).2 rfl)
      ?_ hr.2 ?_ ?_ h
    · rw [pos_eq hc, hr.1.pos, hsucc.pos]
      exact hlt
    · exact (points_iff (set_nodes_self ..)).2 (by simp)
    · intro v hv
      simp only [next, set_nodes_ne hv]

/-! ### The invariant along runs -/

/-- Replacing the node at `c` and moving the round of `a` on keeps the
invariant, given what the new node and the new stage must satisfy. -/
theorem Inv.set (hi : s.Inv b) (hc : s.nodes c = some n) (haddr : m.address = n.address)
    (hid : m.nodeId = n.nodeId) {st : Stage} (hle : Le s (s.set c m a st))
    (hsucc : s.Names m.successor) (hpred : ∀ p, m.predecessor = some p → s.Learned p c)
    (hst : ∀ k, (s.set c m a st).nodes a = some k → (s.set c m a st).StageOk a k st)
    (hkeep : c = a ∨ m.successor = n.successor) : (s.set c m a st).Inv b := by
  have hold : ∀ {v k}, (s.set c m a st).nodes v = some k →
      (v = c ∧ k = m) ∨ (v ≠ c ∧ s.nodes v = some k) := by
    intro v k hk
    by_cases hv : v = c
    · subst hv
      exact .inl ⟨rfl, (Option.some.inj ((set_nodes_self ..).symm.trans hk)).symm⟩
    · exact .inr ⟨hv, by rwa [set_nodes_ne hv] at hk⟩
  have hsame : ∀ {v k}, (s.set c m a st).nodes v = some k →
      ∃ k', s.nodes v = some k' ∧ k.nodeId = k'.nodeId ∧ k.address = k'.address := by
    intro v k hk
    rcases hold hk with ⟨rfl, rfl⟩ | ⟨-, hk⟩
    · exact ⟨n, hc, hid, haddr⟩
    · exact ⟨k, hk, rfl, rfl⟩
  refine ⟨fun {v k} hk => ?_, fun {v k} hk => ?_, fun {v w k l} hk hl he => ?_, fun {v k} hk => ?_,
    fun {v k p} hk hp => ?_, fun {v k} hk => ?_, hle.walks hi.turn, fun {v k} hk => ?_⟩
  · obtain ⟨k', hk', -, he⟩ := hsame hk
    exact he.trans (hi.address hk')
  · obtain ⟨k', hk', he, -⟩ := hsame hk
    exact he ▸ hi.id_lt hk'
  · obtain ⟨k', hk', hek, -⟩ := hsame hk
    obtain ⟨l', hl', hel, -⟩ := hsame hl
    exact hi.distinct hk' hl' (by rw [← hek, ← hel, he])
  · rcases hold hk with ⟨rfl, rfl⟩ | ⟨-, hk⟩
    · exact hle.names hsucc
    · exact hle.names (hi.successor hk)
  · rcases hold hk with ⟨rfl, rfl⟩ | ⟨-, hk⟩
    · exact hle.learned hc (hpred p hp)
    · exact hle.learned hk (hi.predecessor hk hp)
  · by_cases hv : v = a
    · subst hv
      rw [set_stage_self]
      exact hst k hk
    · rw [set_stage_ne hv]
      rcases hold hk with ⟨rfl, rfl⟩ | ⟨-, hk⟩
      · exact hle.stageOk hi hc (hkeep.resolve_left hv) hid (hi.stage hc)
      · exact hle.stageOk hi hk rfl rfl (hi.stage hk)
  · obtain ⟨k', hk', -, -⟩ := hsame hk
    obtain ⟨L, hL⟩ := hi.reaches hk'
    exact ⟨L, hle.walks hL⟩

theorem inv_start {idb : ℕ} (hb : idb < 2 ^ M) : (start (M := M) b idb).Inv b := by
  have hnode : (start (M := M) b idb).nodes b = some ((ChordNode.init M b idb).join none) := by
    simp [start]
  have honly : ∀ {a n}, (start (M := M) b idb).nodes a = some n →
      a = b ∧ n = (ChordNode.init M b idb).join none := by
    intro a n h
    by_cases ha : a = b
    · subst ha
      exact ⟨rfl, (Option.some.inj (hnode.symm.trans h)).symm⟩
    · simp [start, ha] at h
  have hturn : (start (M := M) b idb).Walks b b (2 ^ M) := by
    have h : (start (M := M) b idb).Walks b b _ := Walk.edge
      ((points_iff hnode (c := b)).2 (by rw [ChordNode.join_successor]; rfl))
    rwa [arc_self] at h
  refine ⟨fun h => ?_, fun h => ?_, fun h h' _ => ?_, fun h => ?_, fun h hp => ?_, fun h => trivial,
    hturn, fun h => ?_⟩
  · obtain ⟨rfl, rfl⟩ := honly h
    rfl
  · obtain ⟨rfl, rfl⟩ := honly h
    exact hb
  · rw [(honly h).1, (honly h').1]
  · obtain ⟨rfl, rfl⟩ := honly h
    exact ⟨_, hnode, rfl⟩
  · obtain ⟨rfl, rfl⟩ := honly h
    simp at hp
  · obtain ⟨rfl, rfl⟩ := honly h
    exact ⟨_, hturn⟩

/-- A new node keeps what there was, since no pointer names it yet. -/
theorem Inv.le_join (hi : s.Inv b) (ha : s.nodes a = none) (n : ChordNode M) :
    Le s (s.set a n a .idle) where
  nodes {v k} hv := by
    have hva : v ≠ a := by
      rintro rfl
      rw [ha] at hv
      cases hv
    exact ⟨k, by rw [set_nodes_ne hva, hv], rfl⟩
  walks h := by
    refine h.mono fun v w hp => ?_
    obtain ⟨k, hk, rfl⟩ : ∃ k, s.nodes v = some k ∧ k.successor.address = w := by
      simpa [Points, next] using hp
    obtain ⟨l, hl, -⟩ := hi.successor hk
    have hne : ∀ {x k}, s.nodes x = some k → x ≠ a := by
      rintro x k hx rfl
      rw [ha] at hx
      cases hx
    refine ⟨?_, ?_, ?_⟩
    · rwa [Points, next, set_nodes_ne (hne hk)]
    · simp only [pos, set_nodes_ne (hne hk)]
    · simp only [pos, set_nodes_ne (hne hl)]

theorem Inv.join (hi : s.Inv b) (ha : s.nodes a = none) {ida : ℕ} (hid : ida < 2 ^ M)
    (hnew : ∀ c n, s.nodes c = some n → n.nodeId ≠ ida) (hm : s.nodes m.address = some m) :
    (s.set a ((ChordNode.init M a ida).join (some m.ref)) a .idle).Inv b := by
  have hle := hi.le_join ha ((ChordNode.init M a ida).join (some m.ref))
  generalize hn : (ChordNode.init M a ida).join (some m.ref) = n at hle ⊢
  have hself := set_nodes_self s a n a .idle
  have hold : ∀ {v k}, (s.set a n a .idle).nodes v = some k →
      (v = a ∧ k = n) ∨ (v ≠ a ∧ s.nodes v = some k) := by
    intro v k hk
    by_cases hv : v = a
    · subst hv
      exact .inl ⟨rfl, (Option.some.inj (hself.symm.trans hk)).symm⟩
    · exact .inr ⟨hv, by rwa [set_nodes_ne hv] at hk⟩
  have hnid : n.nodeId = ida := by rw [← hn]; rfl
  have hsucc : n.successor = m.ref := by rw [← hn, ChordNode.join_successor]; rfl
  refine ⟨fun {v k} hk => ?_, fun {v k} hk => ?_, fun {v w k l} hk hl he => ?_, fun {v k} hk => ?_,
    fun {v k p} hk hp => ?_, fun {v k} hk => ?_, hle.walks hi.turn, fun {v k} hk => ?_⟩
  · rcases hold hk with ⟨rfl, rfl⟩ | ⟨-, hk⟩
    · rw [← hn]; rfl
    · exact hi.address hk
  · rcases hold hk with ⟨rfl, rfl⟩ | ⟨-, hk⟩
    · rwa [hnid]
    · exact hi.id_lt hk
  · rcases hold hk with ⟨rfl, rfl⟩ | ⟨-, hk'⟩ <;> rcases hold hl with ⟨rfl, rfl⟩ | ⟨-, hl'⟩
    · rfl
    · exact absurd (he.symm.trans hnid) (hnew _ _ hl')
    · exact absurd (he.trans hnid) (hnew _ _ hk')
    · exact hi.distinct hk' hl' he
  · rcases hold hk with ⟨rfl, rfl⟩ | ⟨-, hk⟩
    · rw [hsucc]
      exact hle.names ⟨m, hm, rfl⟩
    · exact hle.names (hi.successor hk)
  · rcases hold hk with ⟨rfl, rfl⟩ | ⟨-, hk⟩
    · rw [← hn] at hp
      simp at hp
    · exact hle.learned hk (hi.predecessor hk hp)
  · rcases hold hk with ⟨rfl, rfl⟩ | ⟨hv, hk⟩
    · rw [set_stage_self]
      trivial
    · rw [set_stage_ne hv]
      exact hle.stageOk hi hk rfl rfl (hi.stage hk)
  · rcases hold hk with ⟨rfl, rfl⟩ | ⟨-, hk⟩
    · obtain ⟨L, hL⟩ := hi.reaches hm
      exact ⟨_, .cons ((points_iff hself).2 (by rw [hsucc]; rfl)) (hle.walks hL)⟩
    · obtain ⟨L, hL⟩ := hi.reaches hk
      exact ⟨L, hle.walks hL⟩

/-- The end of a successor pointer is reached directly. -/
theorem direct_successor (h : s.nodes a = some n) : s.Direct a n.successor.address :=
  .edge ((points_iff h).2 rfl)

/-- **One step** keeps every walk and the invariant. -/
theorem Step.inv (hi : s.Inv b) (h : Step s s') : Le s s' ∧ s'.Inv b := by
  have hpred : ∀ {a n}, s.nodes a = some n → ∀ p, n.predecessor = some p → s.Learned p a :=
    fun hn _ hp => hi.predecessor hn hp
  cases h with
  | join ha hid hnew hm => exact ⟨hi.le_join ha _, hi.join ha hid hnew hm⟩
  | @read a n hn hst =>
    have hle := le_set hn rfl rfl a (.read n.successor n.predecessor)
    refine ⟨hle, hi.set hn rfl rfl hle (hi.successor hn) (hpred hn) (fun k hk => ?_) (.inl rfl)⟩
    obtain rfl := Option.some.inj ((set_nodes_self ..).symm.trans hk)
    exact ⟨rfl, fun p hp => hle.learned hn (hpred hn p hp)⟩
  | @alone a n succ pred hn hst hself =>
    have hok := hi.stage hn
    rw [hst] at hok
    obtain ⟨rfl, hlearn⟩ := hok
    rcases n.stabilizeAlone_cases pred with he | ⟨p, hp, hne, he⟩
    · rw [he]
      have hle := le_set hn rfl rfl a .idle
      exact ⟨hle, hi.set hn rfl rfl hle (hi.successor hn) (hpred hn) (fun _ _ => trivial) (.inl rfl)⟩
    · rw [he]
      -- the successor is the node itself, and its pointer makes the whole turn
      have haddr : n.successor.address = a := by
        obtain ⟨k, hk, hkid⟩ := hi.successor hn
        exact hi.distinct hk hn (hkid.trans hself)
      have hp' := hlearn p hp
      obtain ⟨q, hq, hqid⟩ := hp'.1
      have hle := hi.le_setSuccessor hn (r := p) (by rwa [haddr]) (by
        rw [hself, arc_self]
        exact arc_lt_of_ne (hi.id_lt hn) (hqid ▸ hi.id_lt hq) (Ne.symm hne)) a .idle
      exact ⟨hle, hi.set hn (by simp) (by simp) hle (by simpa using hp'.1)
        (by simpa using hpred hn) (fun _ _ => trivial) (.inl rfl)⟩
  | @reply a n m succ pred hn hst hne hm =>
    have hok := hi.stage hn
    rw [hst] at hok
    obtain ⟨rfl, -⟩ := hok
    have hle := le_set hn rfl rfl a (.replied m.predecessor)
    refine ⟨hle, hi.set hn rfl rfl hle (hi.successor hn) (hpred hn) (fun k hk => ?_) (.inl rfl)⟩
    obtain rfl := Option.some.inj ((set_nodes_self ..).symm.trans hk)
    exact ⟨hne, fun r hr => hle.learned hm (hpred hm r hr)⟩
  | @update a n x hn hst =>
    have hok := hi.stage hn
    rw [hst] at hok
    obtain ⟨hne, hlearn⟩ := hok
    rcases n.stabilizeUpdate_cases x with he | ⟨r, hr, hin, he⟩
    · rw [he]
      have hle := le_set hn rfl rfl a (.notifying n.successor.address)
      refine ⟨hle, hi.set hn rfl rfl hle (hi.successor hn) (hpred hn) (fun k hk => ?_) (.inl rfl)⟩
      obtain ⟨t, ht, -⟩ := hle.names (hi.successor hn)
      exact ⟨⟨t, ht⟩, direct_successor (set_nodes_self ..)⟩
    · rw [he]
      have hr' := hlearn r hr
      obtain ⟨q, hq, hqid⟩ := hr'.1
      obtain ⟨t, ht, htid⟩ := hi.successor hn
      rw [inRange_exclusive (hqid ▸ hi.id_lt hq) (hi.id_lt hn) (htid ▸ hi.id_lt ht) (Ne.symm hne)]
        at hin
      have hle := hi.le_setSuccessor hn hr' hin a (.notifying (n.setSuccessor r).successor.address)
      refine ⟨hle, hi.set hn (by simp) (by simp) hle (by simpa using hr'.1)
        (by simpa using hpred hn) (fun k hk => ?_) (.inl rfl)⟩
      obtain ⟨q', hq', -⟩ := hle.names hr'.1
      refine ⟨⟨q', by rwa [ChordNode.setSuccessor_successor] at *⟩,
        direct_successor (set_nodes_self ..)⟩
  | @notify a t n m hn hst hm =>
    have hok := hi.stage hn
    rw [hst] at hok
    have hle := le_set hm (m.notify_nodeId n.ref) (m.notify_successor n.ref) a .idle
    refine ⟨hle, hi.set hm (by simp) (by simp) hle (by simpa using hi.successor hm) (fun p hp => ?_)
      (fun _ _ => trivial) (.inr (by simp))⟩
    rcases m.notify_predecessor n.ref with h | h
    · exact hpred hm p (h ▸ hp)
    · obtain rfl := Option.some.inj (h.symm.trans hp)
      have haddr : n.ref.address = a := hi.address hn
      exact ⟨⟨n, by rwa [haddr], rfl⟩, by rw [haddr]; exact hok.2⟩
  | @fixFingers a n m i hn hi0 hm =>
    have hsucc := n.setFinger_successor hi0 m.ref
    have hle := le_set hn (n.setFinger_nodeId i m.ref) hsucc a (s.stage a)
    refine ⟨hle, hi.set hn (by simp) (by simp) hle (by rw [hsucc]; exact hi.successor hn)
      (by simpa using hpred hn) (fun k hk => ?_) (.inl rfl)⟩
    obtain rfl := Option.some.inj ((set_nodes_self ..).symm.trans hk)
    exact hle.stageOk hi hn hsucc rfl (hi.stage hn)

/-- **A run** keeps both as well. -/
theorem Steps.inv (hi : s.Inv b) (h : Steps s s') : Le s s' ∧ s'.Inv b := by
  induction h with
  | refl => exact ⟨⟨fun hn => ⟨_, hn, rfl⟩, id⟩, hi⟩
  | tail _ hstep ih =>
    obtain ⟨hle, hi'⟩ := ih
    obtain ⟨hle', hi''⟩ := hstep.inv hi'
    refine ⟨⟨fun hn => ?_, fun hw => hle'.walks (hle.walks hw)⟩, hi''⟩
    obtain ⟨n', hn', he⟩ := hle.nodes hn
    obtain ⟨n'', hn'', he'⟩ := hle'.nodes hn'
    exact ⟨n'', hn'', he'.trans he⟩

/-- The successor pointers form one ring through `b`: the nodes on cycles are
those of one list that starts after `b`, follows the pointers, ends at `b` and
is sorted by clockwise distance from `b`; every node that has joined reaches
`b`; and what a node reaches it reaches in every later state. -/
structure OneRing (b : String) (s : State M) : Prop where
  cycle : ∃ vs : List String, (b :: vs).IsChain (Points s.next) ∧ vs.getLast? = some b ∧
    vs.Pairwise (fun u v => arc (2 ^ M) (s.pos b) (s.pos u) < arc (2 ^ M) (s.pos b) (s.pos v)) ∧
    ∀ u, Relation.TransGen (Points s.next) u u ↔ u ∈ vs
  leads : ∀ a n, s.nodes a = some n → Relation.TransGen (Points s.next) a b
  stays : ∀ s', Steps s s' → ∀ u v, Relation.TransGen (Points s.next) u v →
    Relation.TransGen (Points s'.next) u v

/-- **The ring stays one ring** in every state reached from the bootstrap node
`b`. -/
theorem one_ring {b : String} {idb : ℕ} (hb : idb < 2 ^ M) (h : Steps (start (M := M) b idb) s) :
    s.OneRing b := by
  have hi : s.Inv b := (h.inv (inv_start hb)).2
  have hjoined : ∀ {u v}, Points s.next u v → ∃ n, s.nodes u = some n := by
    intro u v hp
    obtain ⟨n, hn, -⟩ : ∃ n, s.nodes u = some n ∧ n.successor.address = v := by
      simpa [Points, next] using hp
    exact ⟨n, hn⟩
  refine ⟨?_, fun a n hn => ?_, fun s' h' u v huv => ?_⟩
  · obtain ⟨vs, hchain, hlast, hsorted, -⟩ := hi.turn.exists_trail hi.pos_lt le_rfl
    refine ⟨vs, hchain, hlast, hsorted, fun u => ⟨fun hcyc => ?_, cycle_of_mem_trail hchain hlast⟩⟩
    obtain ⟨v, hp, -⟩ := Relation.TransGen.head'_iff.1 hcyc
    obtain ⟨n, hn⟩ := hjoined hp
    obtain ⟨L, hL⟩ := hi.reaches hn
    exact mem_trail_of_cycle hchain hlast hL.reaches.to_reflTransGen hcyc
  · obtain ⟨L, hL⟩ := hi.reaches hn
    exact hL.reaches
  · obtain ⟨L, hL⟩ : ∃ L, s.Walks u v L := exists_walk huv
    exact ((Steps.inv hi h').1.walks hL).reaches

/-- The hypotheses of `one_ring` are satisfiable: node `11` joins node `10`. -/
theorem one_ring_join :
    ((start (M := 8) "a" 10).set "b"
      ((ChordNode.init 8 "b" 11).join (some ⟨10, "a"⟩)) "b" .idle).OneRing "a" := by
  refine one_ring (by decide) (.single (Step.join (m := (ChordNode.init 8 "a" 10).join none)
    (by simp [start]) (by decide) (fun c n hn => ?_) (by simp [start, ChordNode.init])))
  by_cases hc : c = "a"
  · subst hc
    obtain rfl : (ChordNode.init 8 "a" 10).join none = n := by simpa [start] using hn
    decide
  · simp [start, hc] at hn

end State
end Ring
end ChordInfra
