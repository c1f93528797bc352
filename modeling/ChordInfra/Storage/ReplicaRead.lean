/-
# Reading when the owner is unreachable

`get_task` says that it falls back to the replicas when "the primary node … is
unreachable".  The replicas it consults are `chain[1:]` of the successor chain,
and the chain is found by asking the owner for its successor: an owner that
cannot be reached gives no replicas, so the fallback finds nothing
(`read_owner_unreachable`).
-/

import ChordInfra.Storage.Run

namespace ChordInfra
namespace Storage

open Interact Prog
open ChordInfra.Ring (NodeRef)
open Replication

/-- From the `t₀`-th operation on, every request to the process at `a` raises. -/
def Env.Unreachable (env : Env) (t₀ : ℕ) (a : Address) : Prop :=
  ∀ t, t₀ ≤ t → ∀ r, env.deliver t a r ≠ .delivered

/-- From the `t₀`-th operation on, every request to the process at `a` succeeds. -/
def Env.Reachable (env : Env) (t₀ : ℕ) (a : Address) : Prop :=
  ∀ t, t₀ ≤ t → ∀ r, env.deliver t a r = .delivered

namespace Env.Unreachable

variable {env : Env} {w : World} {a : Address} {primary : NodeRef} {s : Service} {key : Key}

theorem mono {t t' : ℕ} (h : env.Unreachable t a) (ht : t ≤ t') : env.Unreachable t' a :=
  fun u hu => h u (ht.trans hu)

/-- It stays unreachable while a program runs. -/
theorem after {α : Type} (h : env.Unreachable w.trace.length a) (p : M α) :
    env.Unreachable (run env p w).2.trace.length a :=
  h.mono (run_trace_length_le env p w)

theorem requestTries (h : env.Unreachable w.trace.length a) (r : Request) (n : ℕ) :
    (run env (Transport.requestTries a r n) w).1 = .error .request := by
  induction n generalizing w with
  | zero => rfl
  | succ n ih =>
    have hnone : (handle env (.rpc a r) w).1 = none := if_neg (h _ le_rfl r)
    unfold Transport.requestTries
    rw [run_act_bind, hnone]
    exact ih (h.after (act (.rpc a r)))

theorem request (h : env.Unreachable w.trace.length a) (r : Request) :
    (run env (Transport.request a r) w).1 = .error .request :=
  h.requestTries r _

/-- **The chain of an unreachable owner has no replicas.** -/
theorem getReplicas (h : env.Unreachable w.trace.length primary.address) (k : ℕ) :
    (run env (Replication.getReplicas k primary) w).1 = .ok [] := by
  obtain ⟨n, hn⟩ : ∃ n, max 1 k = n + 1 := ⟨max 1 k - 1, by omega⟩
  have hchain : (run env (getSuccessorChain k primary) w).1 = .ok [primary] := by
    unfold getSuccessorChain
    rw [hn, chainFrom, if_neg (by simp), run_attempt_bind, h.request]
    rfl
  unfold Replication.getReplicas
  rw [run_bind hchain]
  rfl

theorem tryGetOnNode (h : env.Unreachable w.trace.length primary.address)
    (hne : primary.id ≠ s.node.id) : (run env (s.tryGetOnNode primary key) w).1 = .ok none := by
  have hget : (run env (s.getOnNode primary key) w).1 = .error .request := by
    unfold Service.getOnNode
    rw [if_neg hne]
    exact h.request _
  unfold Service.tryGetOnNode
  rw [run_attempt_bind, hget]
  rfl

theorem readFromReplicas (h : env.Unreachable w.trace.length primary.address) (k : ℕ) :
    (run env (Replication.readFromReplicas k key primary) w).1 = .ok none := by
  unfold Replication.readFromReplicas
  rw [run_bind (h.getReplicas k)]
  rfl

end Env.Unreachable

/-! ### The three reads -/

/-- The owner of a key as the node of the service resolves it now. -/
def Service.resolves (s : Service) (env : Env) (w : World) (key : Key) : NodeRef :=
  env.findSuccessor w.trace.length s.node.address key

@[simp] theorem Service.run_owner (s : Service) (env : Env) (w : World) (key : Key) :
    (run env (s.owner key) w).1 = .ok (s.resolves env w key) := rfl

/-- The owner that the service resolves for a key is another node, and it cannot
be reached. -/
structure OwnerDown (env : Env) (s : Service) (w : World) (key : Key) : Prop where
  other : (s.resolves env w key).id ≠ s.node.id
  unreachable : env.Unreachable w.trace.length (s.resolves env w key).address

section Reads

variable {env : Env} {s : Service} {w : World} {id : String}

theorem getTask_ownerDown (hid : strip id ≠ "") (h : OwnerDown env s w (.task (strip id))) :
    (run env (TaskService.getTask s (.str id) true) w).1 = .ok none := by
  have h₁ := h.unreachable.after (s.owner (.task (strip id)))
  unfold TaskService.getTask
  simp only [buildTaskKey, if_neg hid, run_lift_ok_bind]
  rw [run_bind (s.run_owner env w _), run_bind (h₁.tryGetOnNode h.other)]
  change (run env (readFromReplicas _ _ _ >>= _) _).1 = _
  rw [run_bind ((h₁.after _).readFromReplicas _)]
  rfl

theorem getResult_ownerDown (hid : strip id ≠ "") (h : OwnerDown env s w (.result (strip id))) :
    (run env (ResultService.get s id) w).1 = .ok none := by
  have h₁ := h.unreachable.after (s.owner (.result (strip id)))
  unfold ResultService.get
  simp only [buildResultKey, if_neg hid, run_lift_ok_bind]
  rw [run_bind (s.run_owner env w _), run_bind (h₁.tryGetOnNode h.other)]
  change (run env (readFromReplicas _ _ _ >>= _) _).1 = _
  rw [run_bind ((h₁.after _).readFromReplicas _)]
  rfl

theorem getAssignment_ownerDown (hid : id ≠ "") (h : OwnerDown env s w (.worker (strip id))) :
    (run env (WorkerAssignment.get s id) w).1 = .ok [] := by
  have h₁ := h.unreachable.after (s.owner (.worker (strip id)))
  unfold WorkerAssignment.get
  simp only [buildWorkerKey, if_neg hid, run_lift_ok_bind]
  rw [run_bind (s.run_owner env w _), run_bind (h₁.tryGetOnNode h.other)]
  change (run env (readFromReplicas _ _ _ >>= _) _).1 = _
  rw [run_bind ((h₁.after _).readFromReplicas _)]
  rfl

/-- **No read of a key whose owner is unreachable returns the record.**  A node
other than the owner returns no task record and no result record, whatever the
replicas hold, and an assignment list only when it is empty. -/
theorem read_ownerDown (hid : strip id ≠ "") :
    (OwnerDown env s w (.task (strip id)) → ∀ record,
      (run env (TaskService.getTask s (.str id) true) w).1 ≠ .ok (some record)) ∧
    (OwnerDown env s w (.result (strip id)) → ∀ record,
      (run env (ResultService.get s id) w).1 ≠ .ok (some record)) ∧
    (OwnerDown env s w (.worker (strip id)) → ∀ record : WorkerRecord,
      ((run env (WorkerAssignment.get s id) w).1 = .ok record.tasks ↔ record.tasks = [])) := by
  refine ⟨fun h record => ?_, fun h record => ?_, fun h record => ?_⟩
  · rw [getTask_ownerDown hid h]
    simp
  · rw [getResult_ownerDown hid h]
    simp
  · have hne : id ≠ "" := by
      rintro rfl
      exact hid rfl
    rw [getAssignment_ownerDown hne h, Except.ok.injEq, eq_comm]

end Reads

open ThreeNodes

/-- Requests to `nodeA` are lost from the `t₀`-th operation on. -/
def downFrom (t₀ : ℕ) : Env := env fun t a _ => if a = "a" ∧ t₀ ≤ t then .lost else .delivered

theorem ownerDown_downFrom (key : Key) {w : World} {t₀ : ℕ} (ht : t₀ ≤ w.trace.length) :
    OwnerDown (downFrom t₀) (services nodeB) w key := by
  refine ⟨show nodeA.id ≠ nodeB.id by decide, fun t hle r => ?_⟩
  change (if "a" = "a" ∧ t₀ ≤ t then Delivery.lost else .delivered) ≠ .delivered
  rw [if_pos ⟨rfl, ht.trans hle⟩]
  decide

/-- The hypotheses of `read_ownerDown` are satisfiable: `nodeB` asks when `nodeA`
is down. -/
theorem read_ownerDown_threeNodes :
    ¬ ∃ record, (run (downFrom 0) (TaskService.getTask (services nodeB) (.str "t") true)
      World.empty).1 = .ok (some record) := by
  rintro ⟨record, h⟩
  have hid : strip "t" ≠ "" := by decide
  exact (read_ownerDown hid).1 (ownerDown_downFrom _ (Nat.zero_le _)) record h

/-- **A record that two replicas hold is not found.**  `nodeB` registers a task
and is told that `nodeB` and `nodeC` hold a copy; the owner `nodeA` goes down, and
`nodeB`, which has the copy in its own store, finds nothing. -/
theorem getTask_after_registerTask :
    ∃ written w,
      run (downFrom 19) (TaskService.registerTask (services nodeB) taskInput) World.empty =
        (.ok written, w) ∧
      written.storage.replicasWritten = [nodeB, nodeC] ∧
      (w.stores "b").get (.task "t") = some (.task written.task) ∧
      (downFrom 19).Reachable 0 "b" ∧ (downFrom 19).Reachable 0 "c" ∧
      OwnerDown (downFrom 19) (services nodeB) w (.task "t") ∧
      (run (downFrom 19) (TaskService.getTask (services nodeB) (.str "t") true) w).1 = .ok none := by
  refine ⟨_, _, rfl, rfl, rfl, fun t _ r => rfl, fun t _ r => rfl, ?_, ?_⟩
  · exact ownerDown_downFrom _ (by decide)
  · exact getTask_ownerDown (show strip "t" ≠ "" by decide) (ownerDown_downFrom _ (by decide))

end Storage
end ChordInfra
