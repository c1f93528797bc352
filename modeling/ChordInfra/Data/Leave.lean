/-
# A node leaves

`ChordNode.leave` of `chord/node.py`: the node hands its whole store over to its successor
(`bulk_put`), and tells its successor and its predecessor of each other.  Each of the three
requests has its own exception handler, so that each is made whatever became of those before
it.

Where nothing goes wrong the remaining nodes are linked as the ring without the node.  The
successor has every key of the node with the value the node had, which for the keys that the
successor owned itself may be an older one (`leave_keeps_iff`).  Where the store is not handed
over, the neighbours are linked past the node all the same (`leave_not_handedOver_iff`).
-/

import ChordInfra.Data.Routed
import ChordInfra.Ring.Departure

namespace ChordInfra
namespace Data

open Cyclic
open ChordInfra.Ring
open ChordInfra.Ring.Members
open Storage (Json Delivery)

variable {M : ℕ}

/-! ### The nodes and their stores -/

/-- The nodes that can be reached, and the stores, by address. -/
structure Peers (M : ℕ) where
  nodes : Network M
  stores : Stores

/-- `update_predecessor`, `update_successor`. -/
def updatePredecessor (p : NodeRef) (n : ChordNode M) : Unit × ChordNode M :=
  ((), { n with predecessor := some p })

def updateSuccessor [NeZero M] (r : NodeRef) (n : ChordNode M) : Unit × ChordNode M :=
  ((), n.setSuccessor r)

/-- `bulk_put`. -/
def bulkPut (items d : Dict String Json) : Unit × Dict String Json := ((), d.update items)

namespace Peers

/-- A request that changes the pointers of the node at `a`.  Where no node is there it raises. -/
def tell (p : Peers M) (tries : ℕ → Delivery) (a : String)
    (serve : ChordNode M → Unit × ChordNode M) : Peers M :=
  match p.nodes a with
  | none => p
  | some m => { p with nodes := Function.update p.nodes a (some (request tries serve rpcTries m).2) }

/-- The request `bulk_put` to the node at `a`. -/
def handOver (p : Peers M) (tries : ℕ → Delivery) (a : String) (items : Dict String Json) : Peers M :=
  match p.nodes a with
  | none => p
  | some _ =>
    { p with stores :=
        Function.update p.stores a (request tries (bulkPut items) rpcTries (p.stores a)).2 }

end Peers

/-- What becomes of the tries of the three requests of a leave. -/
structure LeaveFaults where
  handOver : ℕ → Delivery
  successor : ℕ → Delivery
  predecessor : ℕ → Delivery

/-- Nothing goes wrong. -/
def LeaveFaults.none : LeaveFaults :=
  ⟨fun _ => .delivered, fun _ => .delivered, fun _ => .delivered⟩

variable [NeZero M]

/-- The store of the node at `a` is handed over to the node at `b`, when there is something
in it. -/
def Peers.handOverStore (p : Peers M) (tries : ℕ → Delivery) (a b : String) : Peers M :=
  if (p.stores a).entries = [] then p else p.handOver tries b (p.stores a)

/-- `leave`. -/
def leave (f : LeaveFaults) (n : ChordNode M) (p : Peers M) : Peers M :=
  if n.successor.id = n.nodeId then p
  else
    match n.predecessor with
    | none => p.handOverStore f.handOver n.address n.successor.address
    | some pred =>
      ((p.handOverStore f.handOver n.address n.successor.address).tell f.successor
        n.successor.address (updatePredecessor pred)).tell f.predecessor pred.address
          (updateSuccessor n.successor)

/-- The node has something to hand over, and the request raises. -/
def notHandedOver (f : LeaveFaults) (n : ChordNode M) (p : Peers M) : Prop :=
  n.successor.id ≠ n.nodeId ∧ (p.stores n.address).entries ≠ [] ∧
    (p.nodes n.successor.address = none ∨ answered f.handOver rpcTries = false)

/-! ### What the requests do -/

theorem setSuccessor_setSuccessor (n : ChordNode M) (r : NodeRef) :
    (n.setSuccessor r).setSuccessor r = n.setSuccessor r := by
  simp [ChordNode.setSuccessor, ChordNode.setFinger]

namespace Peers

variable {p : Peers M} {tries : ℕ → Delivery} {a v : String} {items : Dict String Json}

omit [NeZero M] in
theorem tell_nodes {g : ChordNode M → ChordNode M} (hg : ∀ n, g (g n) = g n) :
    (p.tell tries a fun n => ((), g n)).nodes v =
      (p.nodes v).map fun n => if v = a ∧ arrives tries rpcTries = true then g n else n := by
  unfold tell
  cases ha : p.nodes a with
  | none =>
    by_cases hv : v = a
    · subst hv
      simp [ha]
    · simp [hv]
  | some m =>
    by_cases hv : v = a
    · subst hv
      have h := request_obs tries (fun n => ((), g n)) id g (fun _ => rfl) hg
        rpcTries m
      simpa [ha] using h
    · simp [hv]

omit [NeZero M] in
theorem tell_updatePredecessor (pred : NodeRef) :
    (p.tell tries a (updatePredecessor pred)).nodes v = (p.nodes v).map fun n =>
      if v = a ∧ arrives tries rpcTries = true then { n with predecessor := some pred } else n :=
  tell_nodes fun _ => rfl

theorem tell_updateSuccessor (succ : NodeRef) :
    (p.tell tries a (updateSuccessor succ)).nodes v = (p.nodes v).map fun n =>
      if v = a ∧ arrives tries rpcTries = true then n.setSuccessor succ else n :=
  tell_nodes fun n => setSuccessor_setSuccessor n succ

omit [NeZero M] in
@[simp] theorem tell_stores (serve : ChordNode M → Unit × ChordNode M) :
    (p.tell tries a serve).stores = p.stores := by
  unfold tell
  split <;> rfl

omit [NeZero M] in
@[simp] theorem handOver_nodes : (p.handOver tries a items).nodes = p.nodes := by
  unfold handOver
  split <;> rfl

omit [NeZero M] in
/-- The node has the items when the request arrives, and the other stores are as they were. -/
theorem get_handOver {m : ChordNode M} (ha : p.nodes a = some m) (key : String) :
    ((p.handOver tries a items).stores v).get key =
      if v = a ∧ arrives tries rpcTries = true then (items.get key).or ((p.stores v).get key)
      else (p.stores v).get key := by
  unfold handOver
  rw [ha]
  by_cases hv : v = a
  · subst hv
    have h := request_obs tries (bulkPut items) (fun d => d.get key)
      (fun x => (items.get key).or x) (fun d => d.get_update items key)
      (fun x => by cases items.get key <;> rfl) rpcTries (p.stores v)
    simpa using h
  · simp [hv]

omit [NeZero M] in
@[simp] theorem handOverStore_nodes (b : String) : (p.handOverStore tries a b).nodes = p.nodes := by
  unfold handOverStore
  split_ifs
  · rfl
  · exact handOver_nodes

omit [NeZero M] in
theorem get_handOverStore {m : ChordNode M} {b : String} (hb : p.nodes b = some m) (key : String) :
    ((p.handOverStore tries a b).stores v).get key =
      if v = b ∧ arrives tries rpcTries = true then
        ((p.stores a).get key).or ((p.stores v).get key)
      else (p.stores v).get key := by
  unfold handOverStore
  by_cases hempty : (p.stores a).entries = []
  · have hnone : (p.stores a).get key = none := by
      unfold Dict.get
      rw [hempty]
      rfl
    rw [if_pos hempty, hnone, Option.none_or, ite_self]
  · rw [if_neg hempty, get_handOver hb]

end Peers

/-- The pointers of a node after the leave of another one that has a predecessor. -/
def relink (f : LeaveFaults) (n : ChordNode M) (pred : NodeRef) (v : String) (m : ChordNode M) :
    ChordNode M :=
  let m := if v = n.successor.address ∧ arrives f.successor rpcTries = true then
    { m with predecessor := some pred } else m
  if v = pred.address ∧ arrives f.predecessor rpcTries = true then m.setSuccessor n.successor else m

section Effect

variable {f : LeaveFaults} {n m : ChordNode M} {p : Peers M} {pred : NodeRef} {v : String}

/-- The successor set to what it was. -/
theorem setSuccessor_eq_iff (n : ChordNode M) (r : NodeRef) :
    n.setSuccessor r = n ↔ n.successor = r := by
  constructor
  · intro h
    rw [← h, ChordNode.setSuccessor_successor]
  · rintro rfl
    unfold ChordNode.setSuccessor ChordNode.setFinger ChordNode.successor
    simp [FingerEntry.ref]

/-- A node without a predecessor leaves the pointers alone. -/
theorem leave_nodes_none (hpred : n.predecessor = none) : (leave f n p).nodes = p.nodes := by
  unfold leave
  rw [hpred]
  split_ifs
  · rfl
  · exact Peers.handOverStore_nodes _

/-- **What a leave does to the pointers.** -/
theorem leave_nodes (h : n.successor.id ≠ n.nodeId) (hpred : n.predecessor = some pred) :
    (leave f n p).nodes v = (p.nodes v).map (relink f n pred v) := by
  unfold leave
  rw [if_neg h, hpred]
  dsimp only
  rw [Peers.tell_updateSuccessor, Peers.tell_updatePredecessor, Option.map_map,
    Peers.handOverStore_nodes]
  rfl

/-- **What a leave does to the stores.** -/
theorem leave_stores (h : n.successor.id ≠ n.nodeId) (hm : p.nodes n.successor.address = some m)
    (key : String) :
    ((leave f n p).stores v).get key =
      if v = n.successor.address ∧ arrives f.handOver rpcTries = true then
        ((p.stores n.address).get key).or ((p.stores v).get key)
      else (p.stores v).get key := by
  have hstores : (leave f n p).stores =
      (p.handOverStore f.handOver n.address n.successor.address).stores := by
    unfold leave
    rw [if_neg h]
    cases n.predecessor with
    | none => rfl
    | some pred => simp
  rw [hstores, Peers.get_handOverStore hm]

end Effect

/-! ### The pointers after a leave -/

section Relink

variable {f : LeaveFaults} {n m : ChordNode M} {pred : NodeRef} {v : String}

theorem relink_nodeId : (relink f n pred v m).nodeId = m.nodeId := by
  unfold relink
  split_ifs <;> rfl

theorem relink_address : (relink f n pred v m).address = m.address := by
  unfold relink
  split_ifs <;> rfl

theorem relink_successor : (relink f n pred v m).successor =
    if v = pred.address ∧ arrives f.predecessor rpcTries = true then n.successor else m.successor := by
  unfold relink
  split_ifs
  · rw [ChordNode.setSuccessor_successor]
  · rfl
  · rw [ChordNode.setSuccessor_successor]
  · rfl

theorem relink_predecessor : (relink f n pred v m).predecessor =
    if v = n.successor.address ∧ arrives f.successor rpcTries = true then some pred
    else m.predecessor := by
  unfold relink
  split_ifs <;> simp

/-- **The pointers of a node stay exactly when what is written to them was there.** -/
theorem relink_eq_iff : relink f n pred v m = m ↔
    (v = n.successor.address ∧ arrives f.successor rpcTries = true → m.predecessor = some pred) ∧
      (v = pred.address ∧ arrives f.predecessor rpcTries = true → m.successor = n.successor) := by
  constructor
  · intro h
    constructor
    · intro hto
      rw [← h, relink_predecessor, if_pos hto]
    · intro hto
      rw [← h, relink_successor, if_pos hto]
  · rintro ⟨hpred, hsucc⟩
    have hfirst : (if v = n.successor.address ∧ arrives f.successor rpcTries = true then
        { m with predecessor := some pred } else m) = m := by
      split_ifs with hto
      · rw [← hpred hto]
      · rfl
    unfold relink
    rw [hfirst]
    dsimp only
    split_ifs with hto
    · exact (setSuccessor_eq_iff m _).2 (hsucc hto)
    · rfl

end Relink

section Leave

variable {r : Members M} {n : ChordNode M} {stores : Stores}

/-- **The remaining nodes are linked as the ring without the node.** -/
theorem leave_linked (hlinks : r.Linked r.net) (hn : n ∈ r.nodes)
    (hother : ∃ m ∈ r.nodes, m.nodeId ≠ n.nodeId) :
    (r.without n hother).Linked (leave LeaveFaults.none n ⟨r.net, stores⟩).nodes := by
  have hself : ∀ m ∈ r.nodes, r.LinkedAt m m := by
    intro m hm
    obtain ⟨m', hm', hlinked⟩ := hlinks m hm
    obtain rfl := Option.some.inj ((net_address hm).symm.trans hm')
    exact hlinked
  obtain ⟨s, hns, hsucc⟩ := (hself n hn).successor
  obtain ⟨p, hp, hpn, hpred⟩ := (hself n hn).predecessor
  have hid : n.successor.id ≠ n.nodeId := by
    rw [hsucc]
    exact hns.ne_self hn hother
  intro m hm'
  obtain ⟨hm, hmn⟩ := (mem_without hother).1 hm'
  refine ⟨relink LeaveFaults.none n p.ref m.address m, ?_, relink_nodeId, relink_address, ?_, ?_⟩
  · rw [leave_nodes hid hpred]
    exact congrArg (Option.map _) (net_address hm)
  · obtain ⟨t, hmt, hmsucc⟩ := (hself m hm).successor
    rw [relink_successor]
    split_ifs with hto
    · obtain rfl : m = p := eq_of_address hm hp hto.1
      exact ⟨s, hpn.skip hp hn hns hother, hsucc⟩
    · -- the successor of the node is not the one that leaves
      refine ⟨t, hmt.without hother fun htn => hto ⟨?_, rfl⟩, hmsucc⟩
      obtain rfl := eq_of_nodeId hmt.1 hn htn
      rw [hmt.prev_unique hpn hm hp]
      rfl
  · obtain ⟨q, hq, hqm, hmpred⟩ := (hself m hm).predecessor
    rw [relink_predecessor]
    split_ifs with hto
    · obtain rfl : m = s := eq_of_address hm hns.1 (by rw [hto.1, hsucc]; rfl)
      exact ⟨p, (mem_without hother).2 ⟨hp, hpn.ne_self' hp hother⟩, hpn.skip hp hn hns hother, rfl⟩
    · have hqn : q.nodeId ≠ n.nodeId := by
        intro hqn
        obtain rfl := eq_of_nodeId hq hn hqn
        refine hto ⟨?_, rfl⟩
        rw [hqm.unique hns hn, hsucc]
        rfl
      exact ⟨q, (mem_without hother).2 ⟨hq, hqn⟩, hqm.without hother hmn, hmpred⟩

/-- **A leave keeps the ring, and it keeps every value exactly when the node has no other value of
a key of its successor.** -/
theorem leave_keeps_iff (hlinks : r.Linked r.net) (hn : n ∈ r.nodes)
    (hother : ∃ m ∈ r.nodes, m.nodeId ≠ n.nodeId) {sha1Id : String → ℕ}
    (hsha : ∀ key, sha1Id key < 2 ^ M)
    (hstored : ∀ key o, r.FirstAt (sha1Id key) o → ∀ m ∈ r.nodes,
      (stores o.address).get key = none → (stores m.address).get key = none) :
    ((r.without n hother).Linked (leave LeaveFaults.none n ⟨r.net, stores⟩).nodes ∧
      ∀ key o o', r.FirstAt (sha1Id key) o → (r.without n hother).FirstAt (sha1Id key) o' →
        ((leave LeaveFaults.none n ⟨r.net, stores⟩).stores o'.address).get key =
          (stores o.address).get key) ↔
    ∀ key s, r.NextAfter n s → r.FirstAt (sha1Id key) s → ∀ v,
      (stores n.address).get key = some v → (stores s.address).get key = some v := by
  obtain ⟨n', hn', hlinked⟩ := hlinks n hn
  obtain rfl := Option.some.inj ((net_address hn).symm.trans hn')
  obtain ⟨s, hns, hsucc⟩ := hlinked.successor
  have hid : n.successor.id ≠ n.nodeId := by
    rw [hsucc]
    exact hns.ne_self hn hother
  have hstores : ∀ v key, ((leave LeaveFaults.none n ⟨r.net, stores⟩).stores v).get key =
      if v = s.address then ((stores n.address).get key).or ((stores v).get key)
      else (stores v).get key := by
    intro v key
    have harrives : arrives LeaveFaults.none.handOver rpcTries = true := rfl
    have hnet : r.net n.successor.address = some s := by
      rw [hsucc]
      exact net_address hns.1
    rw [leave_stores hid hnet, hsucc]
    simp only [harrives, and_true]
    rfl
  rw [and_iff_right (leave_linked hlinks hn hother)]
  constructor
  · intro hkeeps key t hnt hfirst v hv
    obtain rfl := hnt.unique hns hn
    have hkept := hkeeps key t t hfirst (hfirst.without hother (hns.ne_self hn hother))
    rw [hstores, if_pos rfl, hv] at hkept
    exact hkept.symm
  · intro hcond key o o' ho ho'
    rw [hstores]
    by_cases hon : o.nodeId = n.nodeId
    · obtain rfl := eq_of_nodeId ho.1 hn hon
      obtain rfl := firstAt_unique (hsha key) ho' (ho.skip (hsha key) hns hother)
      rw [if_pos rfl]
      cases hv : (stores o.address).get key with
      | none => rw [Option.none_or, hstored key o ho o' hns.1 hv]
      | some v => rfl
    · obtain rfl := firstAt_unique (hsha key) ho' (ho.without hother hon)
      split_ifs with hos
      · obtain rfl := eq_of_address ho.1 hns.1 hos
        cases hv : (stores n.address).get key with
        | none => rfl
        | some v => exact (hcond key o' hns ho v hv).symm
      · rfl

end Leave

/-! ### A leave whose store is not handed over -/

/-- Each of the two requests is not sent, does not arrive, or writes what was there. -/
def linksNothing (f : LeaveFaults) (n : ChordNode M) (p : Peers M) : Prop :=
  ∀ pred, n.predecessor = some pred →
    (n.successor.address ≠ n.address → arrives f.successor rpcTries = true →
      ∀ m, p.nodes n.successor.address = some m → m.predecessor = some pred) ∧
    (pred.address ≠ n.address → arrives f.predecessor rpcTries = true →
      ∀ m, p.nodes pred.address = some m → m.successor = n.successor)

/-- **A node whose store is not handed over leaves the ring linked through it exactly when its
two other requests change nothing**: no pointer of another node is changed, and so every key of
the node is stored elsewhere or the nodes before it still name it. -/
theorem leave_not_handedOver_iff (f : LeaveFaults) (n : ChordNode M) (p : Peers M) :
    (notHandedOver f n p → (∀ v, v ≠ n.address → (leave f n p).nodes v = p.nodes v) ∧
      ∀ key, (p.stores n.address).get key ≠ none →
        (∃ v, v ≠ n.address ∧ ((leave f n p).stores v).get key ≠ none) ∨
          ∀ v, v ≠ n.address → ∀ m, p.nodes v = some m → m.successor.address = n.address →
            ∃ m', (leave f n p).nodes v = some m' ∧ m'.successor.address = n.address) ↔
    (notHandedOver f n p → linksNothing f n p) := by
  refine imp_congr_right fun hnot => ?_
  have hnodes : (∀ v, v ≠ n.address → (leave f n p).nodes v = p.nodes v) ↔ linksNothing f n p := by
    cases hpred : n.predecessor with
    | none =>
      refine iff_of_true (fun v _ => by rw [leave_nodes_none hpred]) fun pred h => ?_
      rw [hpred] at h
      cases h
    | some pred =>
      have hv : ∀ v, (leave f n p).nodes v = p.nodes v ↔
          ∀ m, p.nodes v = some m → relink f n pred v m = m := by
        intro v
        rw [leave_nodes hnot.1 hpred]
        cases p.nodes v with
        | none => simp
        | some m => simp
      constructor
      · intro h pred' hpred'
        obtain rfl := Option.some.inj (hpred.symm.trans hpred')
        refine ⟨fun hne harr m hm => ?_, fun hne harr m hm => ?_⟩
        · exact (relink_eq_iff.1 ((hv _).1 (h _ hne) m hm)).1 ⟨rfl, harr⟩
        · exact (relink_eq_iff.1 ((hv _).1 (h _ hne) m hm)).2 ⟨rfl, harr⟩
      · intro h v hne
        obtain ⟨htold, htold'⟩ := h pred hpred
        refine (hv v).2 fun m hm => relink_eq_iff.2 ⟨?_, ?_⟩
        · rintro ⟨rfl, harr⟩
          exact htold hne harr m hm
        · rintro ⟨rfl, harr⟩
          exact htold' hne harr m hm
  rw [← hnodes]
  refine ⟨fun h => h.1, fun h => ⟨h, fun key _ => .inr fun v hne m hm hsucc => ?_⟩⟩
  exact ⟨m, by rw [h v hne, hm], hsucc⟩

/-! ### A leave from a ring of three -/

namespace ThreeNodes

theorem next : ring.NextAfter a b ∧ ring.NextAfter b c ∧ ring.NextAfter c a :=
  ⟨⟨by simp [ring], forall_mem (by decide) (by decide) (by decide)⟩,
    ⟨by simp [ring], forall_mem (by decide) (by decide) (by decide)⟩,
    ⟨by simp [ring], forall_mem (by decide) (by decide) (by decide)⟩⟩

theorem linked : ring.Linked ring.net := by
  obtain ⟨hab, hbc, hca⟩ := next
  refine forall_mem ⟨a, net_address hca.1, ?_⟩ ⟨b, net_address hab.1, ?_⟩ ⟨c, net_address hbc.1, ?_⟩
  · exact ⟨rfl, rfl, ⟨b, hab, rfl⟩, ⟨c, hbc.1, hca, rfl⟩⟩
  · exact ⟨rfl, rfl, ⟨c, hbc, rfl⟩, ⟨a, hca.1, hab, rfl⟩⟩
  · exact ⟨rfl, rfl, ⟨a, hca, rfl⟩, ⟨b, hab.1, hbc, rfl⟩⟩

theorem other : ∃ m ∈ ring.nodes, m.nodeId ≠ a.nodeId := ⟨b, by simp [ring], by decide⟩

/-- The node `10` has the key `k`, with the value `1`, and the node `80` with the value `v`. -/
def copies (v : ℤ) : Stores := fun address =>
  if address = "a" then Dict.set .empty "k" (.int 1)
  else if address = "b" then Dict.set .empty "k" (.int v) else .empty

/-- The request `bulk_put` is lost. -/
def handOverLost : LeaveFaults := ⟨fun _ => .lost, fun _ => .delivered, fun _ => .delivered⟩

/-- All three requests are lost. -/
def allLost : LeaveFaults := ⟨fun _ => .lost, fun _ => .lost, fun _ => .lost⟩

theorem firstAt_b : ring.FirstAt ((fun _ : String => 50) "k") b :=
  ⟨by simp [ring], forall_mem (by decide) (by decide) (by decide)⟩

theorem stored (v : ℤ) : ∀ key o, ring.FirstAt ((fun _ : String => 50) key) o → ∀ m ∈ ring.nodes,
    (copies v o.address).get key = none → (copies v m.address).get key = none := by
  intro key o ho m _ hnone
  obtain rfl := firstAt_unique (show (50 : ℕ) < 2 ^ 8 by decide) ho firstAt_b
  have hk : key ≠ "k" := by
    rintro rfl
    cases hnone
  unfold copies
  split_ifs <;> simp [Dict.get_set_ne _ hk]

end ThreeNodes

open ThreeNodes in
/-- **An older copy replaces the value of the owner**: the node `80` owns the key and has the
value `2`, the node `10` has the value `1` and leaves. -/
theorem leave_overwrites :
    ¬ ∀ (r : Members 8), r.Linked r.net → ∀ n ∈ r.nodes,
        ∀ hother : ∃ m ∈ r.nodes, m.nodeId ≠ n.nodeId, ∀ sha1Id : String → ℕ,
        (∀ key, sha1Id key < 2 ^ 8) → ∀ stores : Stores,
        (∀ key o, r.FirstAt (sha1Id key) o → ∀ m ∈ r.nodes,
          (stores o.address).get key = none → (stores m.address).get key = none) →
        (r.without n hother).Linked (leave LeaveFaults.none n ⟨r.net, stores⟩).nodes ∧
          ∀ key o o', r.FirstAt (sha1Id key) o → (r.without n hother).FirstAt (sha1Id key) o' →
            ((leave LeaveFaults.none n ⟨r.net, stores⟩).stores o'.address).get key =
              (stores o.address).get key := by
  intro h
  have hkeeps := (h ring linked a (by simp [ring]) other (fun _ => 50) (fun _ => by decide) (copies 2)
    (stored 2)).2 "k" b b firstAt_b (firstAt_b.without other (by decide))
  have hgot : ((leave LeaveFaults.none a ⟨ring.net, copies 2⟩).stores b.address).get "k" =
      some (.int 1) := rfl
  rw [hgot] at hkeeps
  cases hkeeps

open ThreeNodes in
/-- The hypotheses of `leave_keeps_iff` are satisfiable: both nodes have the same value. -/
theorem leave_keeps_threeNodes :
    ((ring.without a other).Linked (leave LeaveFaults.none a ⟨ring.net, copies 1⟩).nodes ∧
      ∀ key o o', ring.FirstAt 50 o → (ring.without a other).FirstAt 50 o' →
        ((leave LeaveFaults.none a ⟨ring.net, copies 1⟩).stores o'.address).get key =
          (copies 1 o.address).get key) ↔
    ∀ key s, ring.NextAfter a s → ring.FirstAt 50 s → ∀ v,
      (copies 1 a.address).get key = some v → (copies 1 s.address).get key = some v :=
  leave_keeps_iff linked (by simp [ring]) other (fun _ => by decide) (stored 1)

open ThreeNodes in
/-- `leave_not_handedOver_iff` for a node of which no request arrives: it stays in the ring. -/
theorem leave_not_handedOver_threeNodes :
    (∀ v, v ≠ a.address → (leave allLost a ⟨ring.net, copies 2⟩).nodes v = ring.net v) ∧
      ∀ key, (copies 2 a.address).get key ≠ none →
        (∃ v, v ≠ a.address ∧ ((leave allLost a ⟨ring.net, copies 2⟩).stores v).get key ≠ none) ∨
          ∀ v, v ≠ a.address → ∀ m, ring.net v = some m → m.successor.address = a.address →
            ∃ m', (leave allLost a ⟨ring.net, copies 2⟩).nodes v = some m' ∧
              m'.successor.address = a.address := by
  refine (leave_not_handedOver_iff allLost a ⟨ring.net, copies 2⟩).2 (fun _ pred _ => ?_)
    ⟨by decide, by decide, .inr (by decide)⟩
  have hlost : ¬arrives (fun _ => Storage.Delivery.lost) rpcTries = true := by decide
  exact ⟨fun _ harrives => absurd harrives hlost, fun _ harrives => absurd harrives hlost⟩

open ThreeNodes in
/-- **The neighbours are linked past a node whose store is lost**: the request `bulk_put` of
node `10` is lost, and node `150` takes node `80` for its successor all the same. -/
theorem leave_loses :
    ¬ ∀ (f : LeaveFaults) (n : ChordNode 8) (p : Peers 8), notHandedOver f n p →
        (∀ v, v ≠ n.address → (leave f n p).nodes v = p.nodes v) ∧
        ∀ key, (p.stores n.address).get key ≠ none →
          (∃ v, v ≠ n.address ∧ ((leave f n p).stores v).get key ≠ none) ∨
            ∀ v, v ≠ n.address → ∀ m, p.nodes v = some m → m.successor.address = n.address →
              ∃ m', (leave f n p).nodes v = some m' ∧ m'.successor.address = n.address := by
  intro h
  have hkept := (h handOverLost a ⟨ring.net, copies 2⟩
    ⟨by decide, by decide, .inr (by decide)⟩).1 "c" (by decide)
  have hsucc := congrArg (fun n => n.map fun n => n.successor.address) hkept
  exact absurd hsucc (by decide)

end Data
end ChordInfra
