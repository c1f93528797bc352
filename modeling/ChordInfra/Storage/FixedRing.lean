/-
# A ring of fixed membership

The members have distinct ids, every member resolves a key to one owner, every
node reports one successor, and no request fails (`FixedRing`).  Running alone
in such a ring, a service does to the stores what its requests say, and the
chain of an owner is a function of the successors (`FixedRing.replicas`).
-/

import ChordInfra.Storage.Among

namespace ChordInfra
namespace Storage

open Interact Prog
open ChordInfra.Ring (NodeRef)
open Replication

/-- An environment whose members resolve each key to one owner, at any time. -/
structure Owned (env : Env) where
  members : Set NodeRef
  ids_distinct : ∀ m ∈ members, ∀ m' ∈ members, m.id = m'.id → m = m'
  owner : Key → NodeRef
  owner_mem : ∀ k, owner k ∈ members
  findSuccessor_eq : ∀ t, ∀ m ∈ members, ∀ k, env.findSuccessor t m.address k = owner k

/-- Where the owner's id is a member's, the member is the owner. -/
theorem Owned.eq_owner {env : Env} (ring : Owned env) {m : NodeRef} (hm : m ∈ ring.members)
    {key : Key} (h : (ring.owner key).id = m.id) : m = ring.owner key :=
  ring.ids_distinct _ hm _ (ring.owner_mem key) h.symm

/-- The owners are those of every environment with the same lookups. -/
def Owned.congr {env env' : Env} (ring : Owned env) (h : env'.findSuccessor = env.findSuccessor) :
    Owned env' :=
  { ring with findSuccessor_eq := by rw [h]; exact ring.findSuccessor_eq }

/-- An environment that is a ring of fixed membership without failures. -/
structure FixedRing (env : Env) extends Owned env where
  successor : Address → Option NodeRef
  delivered : ∀ t a r, env.deliver t a r = .delivered
  successor_eq : ∀ t a, env.successor t a = successor a

namespace FixedRing

variable {env : Env} {w : World}

/-! ### Requests -/

/-- A request is answered. -/
theorem handle_rpc (ring : FixedRing env) (a : Address) (r : Request) (w : World) :
    (handle env (.rpc a r) w).1 = some (World.answer env w a r) :=
  if_pos (ring.delivered _ _ _)

/-- A request is served. -/
theorem handle_rpc_stores (ring : FixedRing env) (a : Address) (r : Request) (w : World) :
    (handle env (.rpc a r) w).2.stores = World.serve w.stores a r :=
  if_neg (by rw [ring.delivered]; decide)

theorem run_requestTries (ring : FixedRing env) (a : Address) (r : Request) (n : ℕ) (w : World) :
    (run env (Transport.requestTries a r (n + 1)) w).1 = .ok (World.answer env w a r) ∧
      (run env (Transport.requestTries a r (n + 1)) w).2.stores = World.serve w.stores a r := by
  unfold Transport.requestTries
  rw [run_act_bind, ring.handle_rpc]
  exact ⟨rfl, ring.handle_rpc_stores a r w⟩

theorem run_request (ring : FixedRing env) (a : Address) (r : Request) (w : World) :
    (run env (Transport.request a r) w).1 = .ok (World.answer env w a r) ∧
      (run env (Transport.request a r) w).2.stores = World.serve w.stores a r :=
  ring.run_requestTries a r _ w

theorem run_requestWithRetry (ring : FixedRing env) (a : Address) (r : Request) (n : ℕ)
    (w : World) :
    (run env (requestWithRetry a r (n + 1)) w).1 = .ok true ∧
      (run env (requestWithRetry a r (n + 1)) w).2.stores = World.serve w.stores a r := by
  obtain ⟨hok, hstores⟩ := ring.run_request a r w
  unfold requestWithRetry
  rw [run_attempt_bind, hok]
  exact ⟨rfl, hstores⟩

/-! ### The chain -/

/-- The nodes that `get_successor_chain` visits from `current` on. -/
def chain (ring : FixedRing env) (visited : List Address) (current : NodeRef) : ℕ → List NodeRef
  | 0 => []
  | n + 1 =>
    if current.address ∈ visited then []
    else
      match ring.successor current.address with
      | some successor =>
        if successor.address = current.address then [current]
        else current :: chain ring (current.address :: visited) successor n
      | none => [current]

/-- The replicas of a node: its chain without itself. -/
def replicas (ring : FixedRing env) (k : ℕ) (primary : NodeRef) : List NodeRef :=
  (ring.chain [] primary (max 1 k)).tail

theorem run_chainFrom (ring : FixedRing env) (visited : List Address) (current : NodeRef) (n : ℕ)
    (w : World) :
    (run env (chainFrom visited current n) w).1 = .ok (ring.chain visited current n) := by
  induction n generalizing visited current w with
  | zero => rfl
  | succ n ih =>
    unfold chainFrom chain
    split_ifs with hv
    · rfl
    · rw [run_attempt_bind, (ring.run_request _ _ _).1]
      have hanswer : World.answer env w current.address .getState =
          ring.successor current.address := ring.successor_eq _ _
      rw [hanswer]
      cases ring.successor current.address with
      | none => rfl
      | some successor =>
        simp only
        split_ifs with hs
        · rfl
        · rw [run_bind (ih _ _ _)]
          rfl

theorem run_getReplicas (ring : FixedRing env) (k : ℕ) (primary : NodeRef) (w : World) :
    (run env (getReplicas k primary) w).1 = .ok (ring.replicas k primary) ∧
      (run env (getReplicas k primary) w).2.stores = w.stores := by
  have hreads : Only Op.Reads (getReplicas k primary) := .getReplicas (fun _ => trivial) _ _
  refine ⟨?_, hreads.stores env w⟩
  unfold getReplicas getSuccessorChain
  rw [run_bind (ring.run_chainFrom _ _ _ _)]
  rfl

/-- The replicas of a node are other nodes. -/
theorem replicas_ne (ring : FixedRing env) (k : ℕ) (primary : NodeRef) :
    ∀ m ∈ ring.replicas k primary, m.address ≠ primary.address := by
  obtain ⟨l, hl, hne⟩ := (Yields.getReplicas k primary).exec (handle env) World.empty
  have hreplicas := (ring.run_getReplicas k primary World.empty).1
  obtain rfl := Except.ok.inj (hl.symm.trans hreplicas)
  exact hne

/-! ### Visits of the replicas -/

/-- The stores after a request to each of the nodes. -/
def serveAll (r : Request) (nodes : List NodeRef) (s : Stores) : Stores :=
  nodes.foldl (fun s n => World.serve s n.address r) s

theorem get_serveAll_putReplica (k k' : Key) (v : Value) (nodes : List NodeRef) (s : Stores)
    (a : Address) :
    (serveAll (.putReplica k v) nodes s a).get k' =
      if a ∈ nodes.map NodeRef.address ∧ k' = k then some v else (s a).get k' := by
  induction nodes generalizing s with
  | nil => simp [serveAll]
  | cons n nodes ih =>
    rw [show serveAll (.putReplica k v) (n :: nodes) s =
      serveAll (.putReplica k v) nodes (s.put n.address k v) from rfl, ih, Stores.get_put]
    by_cases hk : k' = k
    · by_cases ha : a = n.address <;> simp [hk, ha]
    · simp [hk]

theorem get_serveAll_deleteReplica (k k' : Key) (nodes : List NodeRef) (s : Stores)
    (a : Address) :
    (serveAll (.deleteReplica k) nodes s a).get k' =
      if a ∈ nodes.map NodeRef.address ∧ k' = k then none else (s a).get k' := by
  induction nodes generalizing s with
  | nil => simp [serveAll]
  | cons n nodes ih =>
    rw [show serveAll (.deleteReplica k) (n :: nodes) s =
      serveAll (.deleteReplica k) nodes (s.delete n.address k) from rfl, ih, Stores.get_delete]
    by_cases hk : k' = k
    · by_cases ha : a = n.address <;> simp [hk, ha]
    · simp [hk]

theorem run_visitAll (ring : FixedRing env) (r : Request) (tries : ℕ) (nodes : List NodeRef)
    (w : World) :
    (run env (visitAll (fun n => requestWithRetry n.address r (tries + 1)) nodes) w).1 =
        .ok nodes ∧
      (run env (visitAll (fun n => requestWithRetry n.address r (tries + 1)) nodes) w).2.stores =
        serveAll r nodes w.stores := by
  induction nodes generalizing w with
  | nil => exact ⟨rfl, rfl⟩
  | cons n nodes ih =>
    obtain ⟨hok, hstores⟩ := ring.run_requestWithRetry n.address r tries w
    obtain ⟨hok', hstores'⟩ := ih (run env (requestWithRetry n.address r (tries + 1)) w).2
    rw [visitAll_cons, run_bind hok, run_bind hok']
    exact ⟨rfl, by rw [run_pure, hstores', hstores]; rfl⟩

theorem run_replicateWith (ring : FixedRing env) (k : ℕ) (r : Request) (tries : ℕ)
    (primary : NodeRef) (w : World) :
    (run env (replicateWith k (fun n => requestWithRetry n.address r (tries + 1)) primary) w).1 =
        .ok (report k (ring.replicas k primary)) ∧
      (run env (replicateWith k (fun n => requestWithRetry n.address r (tries + 1)) primary)
        w).2.stores = serveAll r (ring.replicas k primary) w.stores := by
  obtain ⟨hok, hstores⟩ := ring.run_getReplicas k primary w
  obtain ⟨hok', hstores'⟩ := ring.run_visitAll r tries (ring.replicas k primary)
    (run env (getReplicas k primary) w).2
  unfold replicateWith
  rw [run_bind hok, run_bind hok']
  exact ⟨rfl, by rw [run_pure, hstores', hstores]⟩

/-- Where no replica has a value, none is found. -/
theorem run_firstFound_none (ring : FixedRing env) (k : Key) {nodes : List NodeRef} {w : World}
    (h : ∀ n ∈ nodes, (w.stores n.address).get k = none) :
    (run env (firstFound k nodes) w).1 = .ok none := by
  induction nodes generalizing w with
  | nil => rfl
  | cons n nodes ih =>
    obtain ⟨hok, hstores⟩ := ring.run_request n.address (.getReplica k) w
    have hnone : World.answer env w n.address (.getReplica k) = none := by
      have := h n List.mem_cons_self
      cases k <;> simp [World.answer, this]
    unfold firstFound
    rw [run_attempt_bind, hok, hnone]
    refine ih fun m hm => ?_
    rw [hstores]
    exact h m (List.mem_cons_of_mem _ hm)

theorem run_readFromReplicas_none (ring : FixedRing env) (k : ℕ) (key : Key) {primary : NodeRef}
    (h : ∀ n ∈ ring.replicas k primary, (w.stores n.address).get key = none) :
    (run env (readFromReplicas k key primary) w).1 = .ok none := by
  obtain ⟨hok, hstores⟩ := ring.run_getReplicas k primary w
  unfold readFromReplicas
  rw [run_bind hok]
  refine ring.run_firstFound_none key fun n hn => ?_
  rw [hstores]
  exact h n hn

/-! ### A service of a member -/

variable {s : Service}

theorem resolves (ring : FixedRing env) (hs : s.node ∈ ring.members) (key : Key) (w : World) :
    (run env (s.owner key) w).1 = .ok (ring.owner key) ∧
      (run env (s.owner key) w).2.stores = w.stores :=
  ⟨congrArg Except.ok (ring.findSuccessor_eq _ _ hs _), rfl⟩

theorem run_tryGetOnNode (ring : FixedRing env) (hs : s.node ∈ ring.members) (key : Key)
    (w : World) :
    (run env (s.tryGetOnNode (ring.owner key) key) w).1 =
        .ok ((w.stores (ring.owner key).address).get key) ∧
      (run env (s.tryGetOnNode (ring.owner key) key) w).2.stores = w.stores := by
  refine ⟨?_, (Only.tryGetOnNode (P := Op.Reads) trivial (fun _ => trivial) _).stores env w⟩
  unfold Service.tryGetOnNode Service.getOnNode
  rw [run_attempt_bind]
  split_ifs with h
  · rw [← ring.eq_owner hs h]
    rfl
  · rw [(ring.run_request _ _ _).1]
    rfl

theorem run_putOnNode (ring : FixedRing env) (hs : s.node ∈ ring.members) (key : Key) (v : Value)
    (w : World) :
    (run env (s.putOnNode (ring.owner key) key v) w).1 = .ok () ∧
      (run env (s.putOnNode (ring.owner key) key v) w).2.stores =
        w.stores.put (ring.owner key).address key v := by
  unfold Service.putOnNode
  split_ifs with h
  · rw [← ring.eq_owner hs h]
    exact ⟨rfl, rfl⟩
  · obtain ⟨hok, hstores⟩ := ring.run_request (ring.owner key).address (.put key v) w
    unfold Service.primaryWriteRetries Service.putTries
    rw [run_attempt_bind, hok]
    exact ⟨rfl, hstores⟩

theorem run_deleteOnNode (ring : FixedRing env) (hs : s.node ∈ ring.members) (key : Key)
    (w : World) :
    (run env (s.deleteOnNode (ring.owner key) key) w).1 =
        .ok ((w.stores (ring.owner key).address).get key).isSome ∧
      (run env (s.deleteOnNode (ring.owner key) key) w).2.stores =
        w.stores.delete (ring.owner key).address key := by
  unfold Service.deleteOnNode
  split_ifs with h
  · rw [← ring.eq_owner hs h]
    exact ⟨rfl, rfl⟩
  · exact ring.run_request (ring.owner key).address (.delete key) w

end FixedRing

/-- The ring in which every request is delivered. -/
def ThreeNodes.ring : FixedRing (ThreeNodes.env fun _ _ _ => .delivered) where
  members := {ThreeNodes.nodeA, ThreeNodes.nodeB, ThreeNodes.nodeC}
  ids_distinct := by
    rintro m (rfl | rfl | rfl) m' (rfl | rfl | rfl) h <;> first | rfl | cases h
  owner _ := ThreeNodes.nodeA
  owner_mem _ := .inl rfl
  successor a :=
    if a = "a" then some ThreeNodes.nodeB
    else if a = "b" then some ThreeNodes.nodeC
    else some ThreeNodes.nodeA
  delivered _ _ _ := rfl
  findSuccessor_eq _ _ _ _ := rfl
  successor_eq _ _ := rfl

end Storage
end ChordInfra
