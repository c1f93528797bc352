/-
# What the services read and write

The triples of the services of results and of assignments.  `Serving A P φ` says of a
property `φ` of keys with their values that what the services read has it, and that they
may write the lists of workers; a service then returns records that have it, and writes
no result but those that it was given.
-/

import ChordInfra.Interact.Triple
import ChordInfra.Storage.Among

namespace ChordInfra
namespace Storage

open Interact Prog
open ChordInfra.Ring (NodeRef)
open Replication

/-- What a program ends with whatever it is answered, it ends with here. -/
theorem Yields.does {A : (o : Op) → o.Res → Prop} {P : Op → Prop} {α : Type} {φ : α → Prop} {p : M α}
    (hy : Yields φ p) (hp : Does A P p fun _ => True) : Does A P p φ := by
  refine ⟨wp_mono (fun x _ hx a ha => ?_) (hy.wp_and hp.holds)⟩
  obtain ⟨-, b, hb, hφ⟩ := hx
  rw [ha] at hb
  cases hb
  exact hφ

/-- What always ends with a value does so here. -/
theorem Yields.gives {A : (o : Op) → o.Res → Prop} {P : Op → Prop} {α : Type} {φ : α → Prop}
    {p : M α} (hy : Yields φ p) (hp : Does A P p fun _ => True) : Gives A P p φ :=
  ⟨wp_mono (fun _ _ hx => hx.2) (hy.wp_and hp.holds)⟩

/-- What is performed whatever it is answered is performed here. -/
theorem Only.does {A : (o : Op) → o.Res → Prop} {P : Op → Prop} {α : Type} {p : M α}
    (hp : Only P p) : Does A P p fun _ => True := by
  obtain ⟨hp⟩ := hp
  refine ⟨?_⟩
  induction p with
  | ret a => exact fun _ _ => trivial
  | raise e => exact fun _ _ => trivial
  | op o k ih => exact ⟨hp.1, fun r _ => ih r (hp.2 r True.intro)⟩

/-- What a service that is granted `A` and allowed `P` can rely on. -/
structure Serving (A : (o : Op) → o.Res → Prop) (P : Op → Prop) (φ : Key → Value → Prop) : Prop where
  get : ∀ a k, P (.get a k) ∧ ∀ v, A (.get a k) (some v) → φ k v
  rpcGet : ∀ a k, P (.rpc a (.get k)) ∧ ∀ v, A (.rpc a (.get k)) (some (some v)) → φ k v
  getReplica : ∀ a k, P (.rpc a (.getReplica k)) ∧
    ∀ v, A (.rpc a (.getReplica k)) (some (some v)) → φ k v
  getState : ∀ a, P (.rpc a .getState)
  findSuccessor : ∀ a k, P (.findSuccessor a k)
  now : P .now
  lock : ∀ a k, P (.lock a k)
  unlock : ∀ a k, P (.unlock a k)
  deliver : ∀ a c, P (.deliver a c)
  writes : ∀ o a k r, o.writes = some (a, .worker k, .worker r) → P o

namespace Serving

variable {A : (o : Op) → o.Res → Prop} {P : Op → Prop} {φ : Key → Value → Prop}
  {α : Type} (h : Serving A P φ)

/-- Nothing is asked of what a program ends with. -/
abbrev Runs (A : (o : Op) → o.Res → Prop) (P : Op → Prop) (p : M α) : Prop :=
  Does A P p fun _ => True

theorem lift {x : Except Exc α} {Q : α → Prop} (hx : ∀ a, x = .ok a → Q a) :
    Does A P (lift x) Q := by
  cases x with
  | ok a => exact .pure (hx a rfl)
  | error e => exact .raise e

section Request

variable {a : Address} {r : Request} {Q : r.Reply → Prop}

theorem requestTries (hP : P (.rpc a r)) (hQ : ∀ x, A (.rpc a r) (some x) → Q x) (n : ℕ) :
    Does A P (Transport.requestTries a r n) Q := by
  induction n with
  | zero => exact .raise _
  | succ n ih =>
    refine .bind (R := fun x => ∀ y, x = some y → Q y) (.perform hP fun x hx y hy => ?_)
      fun x hx => ?_
    · exact hQ y (hy ▸ hx)
    · cases x with
      | some y => exact .pure (hx y rfl)
      | none => exact ih

theorem request (hP : P (.rpc a r)) (hQ : ∀ x, A (.rpc a r) (some x) → Q x) :
    Does A P (Transport.request a r) Q := requestTries hP hQ _

theorem requestWithRetry (hP : P (.rpc a r)) (n : ℕ) :
    Runs A P (Replication.requestWithRetry a r n) := by
  induction n with
  | zero => exact .pure trivial
  | succ n ih =>
    refine .bind (.attempt (request (Q := fun _ => True) hP fun _ _ => trivial)) fun x _ => ?_
    cases x with
    | ok x => exact .pure trivial
    | error e => exact ih

end Request

theorem callTries {a : Address} {c : Call} {handler : M α} (hP : P (.deliver a c))
    (hhandler : Runs A P handler) (n : ℕ) : Runs A P (Transport.callTries a c handler n) := by
  induction n with
  | zero => exact .raise _
  | succ n ih =>
    refine .bind (.step hP) fun delivery _ => ?_
    cases delivery with
    | delivered =>
      refine .bind hhandler.attempt fun x _ => ?_
      cases x with
      | ok x => exact .pure trivial
      | error e => exact .raise _
    | lost => exact ih
    | replyLost => exact .bind hhandler.attempt fun _ _ => ih

include h

/-- More may be done. -/
theorem allow {P' : Op → Prop} (hP : ∀ o, P o → P' o) : Serving A P' φ where
  get a k := ⟨hP _ (h.get a k).1, (h.get a k).2⟩
  rpcGet a k := ⟨hP _ (h.rpcGet a k).1, (h.rpcGet a k).2⟩
  getReplica a k := ⟨hP _ (h.getReplica a k).1, (h.getReplica a k).2⟩
  getState a := hP _ (h.getState a)
  findSuccessor a k := hP _ (h.findSuccessor a k)
  now := hP _ h.now
  lock a k := hP _ (h.lock a k)
  unlock a k := hP _ (h.unlock a k)
  deliver a c := hP _ (h.deliver a c)
  writes o a k r ho := hP _ (h.writes o a k r ho)

theorem chainFrom (visited : List Address) (current : NodeRef) (n : ℕ) :
    Runs A P (Replication.chainFrom visited current n) := by
  induction n generalizing visited current with
  | zero => exact .pure trivial
  | succ n ih =>
    unfold Replication.chainFrom
    refine .ite (fun _ => .pure trivial) fun _ => ?_
    refine .bind (.attempt (request (Q := fun _ => True) (h.getState _) fun _ _ => trivial))
      fun state _ => ?_
    split
    · exact .ite (fun _ => .pure trivial) fun _ => .bind (ih _ _) fun _ _ => .pure trivial
    · exact .pure trivial

theorem getReplicas (k : ℕ) (primary : NodeRef) : Runs A P (getReplicas k primary) :=
  .bind (h.chainFrom _ _ _) fun _ _ => .pure trivial

/-- The replicas of a node are other nodes. -/
theorem replicaNodes (k : ℕ) (primary : NodeRef) : Does A P (Replication.getReplicas k primary)
    fun l => ∀ m ∈ l, m.address ≠ primary.address :=
  (Yields.getReplicas k primary).does (h.getReplicas k primary)

omit h in
theorem visitAll_mem {visit : NodeRef → M Bool} {replicas : List NodeRef}
    (hv : ∀ n ∈ replicas, Runs A P (visit n)) : Runs A P (visitAll visit replicas) := by
  induction replicas with
  | nil => exact .pure trivial
  | cons n replicas ih =>
    refine .bind (hv n List.mem_cons_self) fun _ _ => .bind (ih fun m hm => ?_) fun _ _ => .pure trivial
    exact hv m (List.mem_cons_of_mem _ hm)

omit h in
theorem visitAll {visit : NodeRef → M Bool} (hv : ∀ n, Runs A P (visit n))
    (replicas : List NodeRef) : Runs A P (visitAll visit replicas) := visitAll_mem fun n _ => hv n

theorem replicateWith {visit : NodeRef → M Bool} (hv : ∀ n, Runs A P (visit n)) (k : ℕ)
    (primary : NodeRef) : Runs A P (replicateWith k visit primary) :=
  .bind (h.getReplicas _ _) fun _ _ => .bind (visitAll hv _) fun _ _ => .pure trivial

theorem readFromReplicas (k : ℕ) (key : Key) (primary : NodeRef) :
    Does A P (readFromReplicas k key primary) fun x => ∀ v ∈ x, φ key v := by
  refine .bind (h.getReplicas _ _) fun replicas _ => ?_
  induction replicas with
  | nil => exact .pure (by simp)
  | cons n replicas ih =>
    have hread : Does A P (Transport.request n.address (.getReplica key)) fun x =>
        ∀ v, x = some v → φ key v :=
      request (h.getReplica _ _).1 fun x hx v hv => (h.getReplica _ _).2 v (hv ▸ hx)
    refine .bind hread.attempt fun x hx => ?_
    split
    case h_1 v => exact .pure fun u hu => hx _ rfl u hu
    case h_2 => exact ih

omit h in
theorem orReplicas {value : Option Value} {replicas : M (Option Value)} {Q : Option Value → Prop}
    (enough : Bool) (hvalue : Q value) (hreplicas : Does A P replicas Q) :
    Does A P (orReplicas value enough replicas) Q :=
  .ite (fun _ => .pure hvalue) fun _ => hreplicas

variable {s : Service}

theorem owner (key : Key) : Runs A P (s.owner key) :=
  .step (h.findSuccessor _ _)

theorem tryGetOnNode (node : NodeRef) (key : Key) :
    Does A P (s.tryGetOnNode node key) fun x => ∀ v ∈ x, φ key v := by
  have hread : Does A P (s.getOnNode node key) fun x => ∀ v ∈ x, φ key v := by
    refine .ite (fun _ => .perform (h.get _ _).1 fun x hx v hv => ?_) fun _ =>
      request (h.rpcGet _ _).1 fun x hx v hv => ?_
    · exact (h.get _ _).2 v (hv ▸ hx)
    · exact (h.rpcGet _ _).2 v (hv ▸ hx)
  refine .bind hread.attempt fun x hx => ?_
  cases x with
  | ok value => exact .pure (hx value rfl)
  | error e => exact .pure (by simp)

theorem putTries {key : Key} {v : Value} (hv : ∀ a, P (.rpc a (.put key v))) (n : ℕ)
    (node : NodeRef) :
    Runs A P (s.putTries key v n node) := by
  induction n generalizing node with
  | zero => exact request (hv _) fun _ _ => trivial
  | succ n ih =>
    refine .bind (.attempt (request (Q := fun _ => True) (hv _) fun _ _ => trivial)) fun x _ => ?_
    cases x with
    | ok x => exact .pure trivial
    | error e => exact .bind (h.owner _) fun _ _ => ih _

theorem putOnNode {key : Key} {v : Value} (hv : ∀ o a, o.writes = some (a, key, v) → P o)
    (node : NodeRef) : Runs A P (s.putOnNode node key v) :=
  .ite (fun _ => .step (hv _ _ rfl)) fun _ => h.putTries (fun _ => hv _ _ rfl) _ _

omit h in
theorem deleteOnNode {key : Key} (hd : ∀ o a, o.deletes = some (a, key) → P o) (node : NodeRef) :
    Runs A P (s.deleteOnNode node key) :=
  .ite (fun _ => .step (hd _ _ rfl)) fun _ => request (hd _ _ rfl) fun _ _ => trivial

/-! ### Results -/

omit h in
theorem resultKey (taskId : String) :
    Does A P (Storage.lift (buildResultKey taskId)) fun k => k = .result (strip taskId) := by
  refine lift fun k hk => ?_
  unfold buildResultKey at hk
  split_ifs at hk
  exact (Except.ok.inj hk).symm

/-- What is read under an id was kept under it, or under it stripped. -/
theorem resultGet (taskId : String) :
    Does A P (ResultService.get s taskId) fun x => ∀ r ∈ x,
      φ (.result (strip taskId)) (.result r) ∨ φ (.result taskId) (.result r) := by
  refine .bind (resultKey taskId) ?_
  rintro key rfl
  refine .bind (h.owner _) fun primary _ => .bind (h.tryGetOnNode _ _) fun value hvalue => ?_
  refine .bind (R := fun x => ∀ v ∈ x,
    φ (.result (strip taskId)) v ∨ φ (.result taskId) v) ?_ fun x hx => .pure fun r hr => ?_
  · exact orReplicas _ (fun v hv => .inl (hvalue v hv))
      ((h.readFromReplicas _ _ _).mono fun x hx v hv => .inr (hx v hv))
  · obtain ⟨v, hv, hr⟩ := Option.bind_eq_some_iff.1 hr
    cases v with
    | result r' => exact Option.some.inj hr ▸ hx _ hv
    | _ => cases hr

/-- What is written is written under the id, and under it stripped. -/
theorem resultPut {taskId : String} {record : ResultRecord}
    (hv : ∀ o a x, strip x = strip taskId → o.writes = some (a, .result x, .result record) → P o) :
    Runs A P (ResultService.put s taskId record) := by
  refine .bind (lift (Q := fun _ => True) fun _ _ => trivial) fun _ _ => .bind (resultKey taskId) ?_
  rintro key rfl
  refine .bind (h.owner _) fun primary _ => .bind (h.putOnNode (fun o a => hv o a _ (strip_strip _)) _)
    fun _ _ => ?_
  exact h.replicateWith (fun n => requestWithRetry (hv _ _ taskId rfl rfl) _) _ _

theorem resultDelete (hd : ∀ o a x, o.deletes = some (a, .result x) → P o) (taskId : String) :
    Runs A P (ResultService.delete s taskId) := by
  refine .bind (resultKey taskId) ?_
  rintro key rfl
  refine .bind (h.owner _) fun primary _ => .bind (.attempt
    (deleteOnNode (fun _ _ => hd _ _ _) _)) fun ok _ => ?_
  refine .bind (h.getReplicas _ _) fun replicas _ => ?_
  refine .bind (visitAll (fun n => requestWithRetry (hd _ _ _ rfl) _) _) fun _ _ => ?_
  cases ok <;> exact .pure trivial

/-! ### Assignments -/

theorem assigns : Assigns P where
  get _ _ := (h.get _ _).1
  rpcGet _ _ := (h.rpcGet _ _).1
  getReplica _ _ := (h.getReplica _ _).1
  getState := h.getState
  findSuccessor := h.findSuccessor
  now := h.now
  lock := h.lock
  unlock := h.unlock
  deliver := h.deliver
  writes := h.writes

theorem appendLocal (a : Address) (k : ℕ) (workerId taskId : String) (primary : Option NodeRef) :
    Runs A P (WorkerAssignment.appendLocal a k workerId taskId primary) :=
  (h.assigns.appendLocal _ _ _ _ _).does

theorem append (workerId taskId : String) : Runs A P (WorkerAssignment.append s workerId taskId) :=
  (h.assigns.append _ _).does

theorem remove (workerId taskId : String) : Runs A P (WorkerAssignment.remove s workerId taskId) :=
  (h.assigns.remove _ _).does

theorem assignmentGet (workerId : String) : Runs A P (WorkerAssignment.get s workerId) :=
  (h.assigns.get_list _).does

end Serving

end Storage
end ChordInfra
