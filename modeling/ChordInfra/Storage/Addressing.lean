/-
# What is done about an id

The three tables with the keys of their records, and what the services do about an id: every
operation they perform is on the key of its record, or on a copy of it (`Op.About`).  The copies of
results and of assignments are asked for by the id as it was given, those of tasks by the
key.
-/

import ChordInfra.Storage.ResultRuns

namespace ChordInfra
namespace Storage

open Interact Prog
open ChordInfra.Ring (NodeRef)

/-! ### Keys -/

/-- The tables. -/
inductive Table
  | tasks | results | workers
deriving DecidableEq

namespace Table

/-- The key builder of a table. -/
def build : Table → String → Except Exc Key
  | tasks, id => buildTaskKey (.str id)
  | results, id => buildResultKey id
  | workers, id => buildWorkerKey id

/-- The key of a record. -/
def key : Table → String → Key
  | tasks, id => .task (strip id)
  | results, id => .result (strip id)
  | workers, id => .worker (strip id)

/-- What its copies are asked for by. -/
def copy : Table → String → Key
  | tasks, id => .task (strip id)
  | results, id => .result id
  | workers, id => .worker id

/-- A worker may have any name; other ids have more to them than white space. -/
theorem build_eq_ok_iff {t : Table} {id : String} {k : Key} :
    t.build id = .ok k ↔ (if t = workers then id else strip id) ≠ "" ∧ k = t.key id := by
  have hiff : ∀ {c : Prop} [Decidable c] {e : Exc} {k' : Key},
      (if c then Except.error e else .ok k') = Except.ok k ↔ ¬c ∧ k = k' := by
    intro c _ e k'
    split_ifs with hc
    · exact ⟨fun h => (by cases h), fun h => absurd hc h.1⟩
    · exact ⟨fun h => ⟨hc, (Except.ok.inj h).symm⟩, fun h => by rw [h.2]⟩
  cases t with
  | tasks => exact hiff
  | results => exact hiff
  | workers => exact hiff

end Table

/-! ### What the services do about an id -/

/-- An operation about an id: it names the key of the record, or, of a copy, what copies are asked
for by. -/
def Op.About (t : Table) (id : String) : Op → Prop
  | .get _ k | .put _ k _ | .delete _ k | .lock _ k | .unlock _ k | .findSuccessor _ k =>
    k = t.key id
  | .rpc _ (.get k) | .rpc _ (.put k _) | .rpc _ (.delete k) => k = t.key id
  | .rpc _ (.getReplica k) | .rpc _ (.putReplica k _) | .rpc _ (.deleteReplica k) => k = t.copy id
  | .deliver _ (.append workerId _) => t = .workers ∧ workerId = id
  | _ => True

section Requests

variable {t : Table} {id : String} (a : Address)

theorem Op.about_state : Op.About t id (.rpc a .getState) := trivial

theorem Op.about_putReplica (v : Value) : Op.About t id (.rpc a (.putReplica (t.copy id) v)) := rfl

theorem Op.about_deleteReplica : Op.About t id (.rpc a (.deleteReplica (t.copy id))) := rfl

end Requests

/-- What is written is the record or a copy of it. -/
theorem Op.About.writes {t : Table} {id : String} {o : Op} (h : o.About t id) {a : Address} {k : Key}
    {v : Value} (hw : o.writes = some (a, k, v)) : k = t.key id ∨ k = t.copy id := by
  cases o with
  | put b k' u =>
    obtain ⟨-, rfl, -⟩ : b = a ∧ k' = k ∧ u = v := by simpa [Op.writes] using hw
    exact .inl h
  | rpc b r =>
    cases r with
    | put k' u =>
      obtain ⟨-, rfl, -⟩ : b = a ∧ k' = k ∧ u = v := by simpa [Op.writes] using hw
      exact .inl h
    | putReplica k' u =>
      obtain ⟨-, rfl, -⟩ : b = a ∧ k' = k ∧ u = v := by simpa [Op.writes] using hw
      exact .inr h
    | _ => cases hw
  | _ => cases hw

/-- What is deleted is the record or a copy of it. -/
theorem Op.About.deletes {t : Table} {id : String} {o : Op} (h : o.About t id) {a : Address} {k : Key}
    (hd : o.deletes = some (a, k)) : k = t.key id ∨ k = t.copy id := by
  cases o with
  | delete b k' =>
    obtain ⟨-, rfl⟩ : b = a ∧ k' = k := by simpa [Op.deletes] using hd
    exact .inl h
  | rpc b r =>
    cases r with
    | delete k' =>
      obtain ⟨-, rfl⟩ : b = a ∧ k' = k := by simpa [Op.deletes] using hd
      exact .inl h
    | deleteReplica k' =>
      obtain ⟨-, rfl⟩ : b = a ∧ k' = k := by simpa [Op.deletes] using hd
      exact .inr h
    | _ => cases hd
  | _ => cases hd

section About

variable (s : Service) (t : Table) (id : String)

/-- A service goes on with the key of the record. -/
theorem only_build {α : Type} {P : Op → Prop} {f : Key → M α} (hf : Only P (f (t.key id))) :
    Only P (lift (t.build id) >>= f) := by
  cases hk : t.build id with
  | ok k => exact (Table.build_eq_ok_iff.1 hk).2 ▸ hf
  | error e => exact .raise _

theorem only_owner_about : Only (Op.About t id) (s.owner (t.key id)) := .act rfl

theorem only_tryGet (primary : NodeRef) :
    Only (Op.About t id) (s.tryGetOnNode primary (t.key id)) := by
  have hlocal : Op.About t id (.get s.node.address (t.key id)) := rfl
  exact .tryGetOnNode hlocal (fun _ => rfl) _

theorem only_putKey (primary : NodeRef) (v : Value) :
    Only (Op.About t id) (s.putOnNode primary (t.key id) v) := by
  have howner : Op.About t id (.findSuccessor s.node.address (t.key id)) := rfl
  have hlocal : Op.About t id (.put s.node.address (t.key id) v) := rfl
  exact .putOnNode howner hlocal (fun _ => rfl) _

theorem only_deleteKey (primary : NodeRef) :
    Only (Op.About t id) (s.deleteOnNode primary (t.key id)) :=
  .ite (.act rfl) (.request rfl)

theorem only_readCopies (k : ℕ) (primary : NodeRef) :
    Only (Op.About t id) (Replication.readFromReplicas k (t.copy id) primary) :=
  .readFromReplicas Op.about_state (fun _ => rfl) _ _

theorem only_putCopies (k n : ℕ) (v : Value) (primary : NodeRef) :
    Only (Op.About t id) (Replication.replicateWith k (fun replica =>
      Replication.requestWithRetry replica.address (.putReplica (t.copy id) v) n) primary) :=
  .replicateWith Op.about_state (fun _ => .requestWithRetry (Op.about_putReplica _ _) _) _ _

theorem only_deleteCopies (k n : ℕ) (primary : NodeRef) :
    Only (Op.About t id) (Replication.getReplicas k primary >>= Replication.visitAll fun replica =>
      Replication.requestWithRetry replica.address (.deleteReplica (t.copy id)) n) :=
  .bind (.getReplicas Op.about_state _ _) fun _ =>
    .visitAll (fun _ => .requestWithRetry (Op.about_deleteReplica _) _) _

/-! #### Tasks -/

theorem about_getTask (b : Bool) :
    Only (Op.About .tasks id) (TaskService.getTask s (.str id) b) :=
  only_build .tasks id (.bind (only_owner_about s .tasks id) fun _ =>
    .bind (only_tryGet s .tasks id _) fun _ =>
      .bind (.orReplicas (only_readCopies .tasks id _ _) _ _) fun _ => .pure _)

theorem about_store (primary : NodeRef) (record : TaskRecord) :
    Only (Op.About .tasks id) (TaskService.store s (.task (strip id)) primary record) :=
  .bind (only_putKey s .tasks id _ _) fun _ =>
    .bind (only_putCopies .tasks id _ _ _ _) fun _ => .pure _

theorem about_existingTask : Only (Op.About .tasks id) (TaskService.existingTask s id) := by
  refine .bind (about_getTask s id true) fun existing => ?_
  cases existing with
  | some record => exact .pure _
  | none => exact .raise _

theorem about_deregisterTask (hardDelete : Bool) :
    Only (Op.About .tasks id) (TaskService.deregisterTask s id hardDelete) := by
  refine only_build .tasks id (.bind (only_owner_about s .tasks id) fun primary => ?_)
  refine .bind (about_existingTask s id) fun existing => .ite ?_ ?_
  · exact .bind (only_deleteKey s .tasks id _) fun _ =>
      .bind (only_deleteCopies .tasks id _ _ _) fun _ => .pure _
  · exact .bind (.act trivial) fun _ => .bind (about_store s id _ _) fun _ => .pure _

theorem about_updateTask (patch : Fields) :
    Only (Op.About .tasks id) (TaskService.updateTask s id patch) := by
  refine only_build .tasks id (.bind (only_owner_about s .tasks id) fun primary => ?_)
  refine .bind (about_existingTask s id) fun existing => .ite (.raise _) ?_
  exact .bind (.act trivial) fun _ => .bind (.lift _) fun _ => about_store s id _ _

theorem about_registerTask {taskInput : Fields}
    (hid : taskInput.getD "task_id" .null = .str id) (hne : id ≠ "") :
    Only (Op.About .tasks id) (TaskService.registerTask s taskInput) := by
  have htruthy : (Json.str id).truthy = true := by simp [Json.truthy, hne]
  unfold TaskService.registerTask TaskService.checkConflict TaskService.candidateId
  rw [hid]
  refine .bind (.ite (.bind (about_getTask s id true) fun existing => ?_) (.pure _)) fun _ => ?_
  · cases existing with
    | some record => exact .ite (.pure _) (.raise _)
    | none => exact .pure _
  · rw [if_pos htruthy]
    refine only_build .tasks id (.bind (only_owner_about s .tasks id) fun primary => ?_)
    exact .bind (.act trivial) fun _ => .bind (.lift _) fun _ =>
      .bind (.getReplicas Op.about_state _ _) fun _ => .bind (.act trivial) fun _ =>
        about_store s id _ _

/-! #### Results -/

theorem about_resultGet : Only (Op.About .results id) (ResultService.get s id) :=
  only_build .results id (.bind (only_owner_about s .results id) fun _ =>
    .bind (only_tryGet s .results id _) fun _ =>
      .bind (.orReplicas (only_readCopies .results id _ _) _ _) fun _ => .pure _)

theorem about_resultDelete : Only (Op.About .results id) (ResultService.delete s id) := by
  refine only_build .results id (.bind (only_owner_about s .results id) fun _ => ?_)
  refine .bind (.attempt (only_deleteKey s .results id _)) fun ok =>
    .bind (.getReplicas Op.about_state _ _) fun _ =>
      .bind (.visitAll (fun _ => .requestWithRetry (Op.about_deleteReplica _) _) _) fun _ => ?_
  cases ok with
  | ok removed => exact .pure _
  | error e => exact .pure _

/-! #### Assignments -/

theorem about_changeLocal (a : Address) (k : ℕ) (change : List String → List String)
    (primary : NodeRef) : Only (Op.About .workers id)
      (WorkerAssignment.changeLocal a k (.worker (strip id)) id change primary) := by
  refine .bind (.act rfl) fun _ => .bind (.act rfl) fun current => .ite ?_ ?_
  · exact .bind (.act rfl) fun _ => .pure _
  · exact .bind (.act trivial) fun _ => .bind (.act rfl) fun _ =>
      .bind (only_putCopies .workers id _ _ _ _) fun _ => .bind (.act rfl) fun _ => .pure _

theorem about_appendLocal (a : Address) (k : ℕ) (taskId : String) (primary : Option NodeRef) :
    Only (Op.About .workers id) (WorkerAssignment.appendLocal a k id taskId primary) := by
  refine only_build .workers id (.bind ?_ fun _ => about_changeLocal id _ _ _ _)
  cases primary with
  | some primary => exact .pure _
  | none => exact .act rfl

theorem about_callTries (a : Address) (k : ℕ) (taskId : String) (n : ℕ) :
    Only (Op.About .workers id) (Transport.callTries a (.append id taskId)
      (WorkerAssignment.handleAppend a k id taskId) n) := by
  have hhandler : Only (Op.About .workers id) (WorkerAssignment.handleAppend a k id taskId) :=
    .ite (.raise _) (about_appendLocal id _ _ _ _)
  induction n with
  | zero => exact .raise _
  | succ n ih =>
    refine .bind (.act (o := .deliver a (.append id taskId)) ?_) fun delivery => ?_
    · exact ⟨rfl, rfl⟩
    · cases delivery with
      | delivered =>
        refine .bind (.attempt hhandler) fun x => ?_
        cases x with
        | ok x => exact .pure _
        | error e => exact .raise _
      | lost => exact ih
      | replyLost => exact .bind (.attempt hhandler) fun _ => ih

theorem about_append (taskId : String) :
    Only (Op.About .workers id) (WorkerAssignment.append s id taskId) := by
  refine only_build .workers id (.bind (only_owner_about s .workers id) fun primary => ?_)
  refine .ite (about_appendLocal id _ _ _ _) ?_
  suffices htries : ∀ n primary, Only (Op.About .workers id)
      (WorkerAssignment.appendTries s (.worker (strip id)) id taskId
        (WorkerAssignment.asked s id taskId) n primary) from htries _ _
  intro n
  induction n with
  | zero => exact fun primary => about_callTries id _ _ _ _
  | succ n ih =>
    refine fun primary => .bind (.attempt (about_callTries id _ _ _ _)) fun x => ?_
    cases x with
    | ok x => exact .pure _
    | error e => exact .bind (only_owner_about s .workers id) fun primary => ih primary

theorem about_remove (taskId : String) :
    Only (Op.About .workers id) (WorkerAssignment.remove s id taskId) := by
  refine only_build .workers id (.bind (only_owner_about s .workers id) fun primary => .ite ?_ ?_)
  · exact only_build .workers id (.bind (.pure _) fun _ => about_changeLocal id _ _ _ _)
  · refine .bind (.attempt (.request rfl)) fun answer =>
      .ite (.pure _) ?_
    exact .bind (.act trivial) fun _ =>
      .bind (.attempt (.request rfl)) fun _ => .pure _

theorem about_assignmentGet : Only (Op.About .workers id) (WorkerAssignment.get s id) :=
  only_build .workers id (.bind (only_owner_about s .workers id) fun _ =>
    .bind (only_tryGet s .workers id _) fun _ =>
      .bind (.orReplicas (only_readCopies .workers id _ _) _ _) fun _ => .pure _)

theorem about_assignmentDelete : Only (Op.About .workers id) (WorkerAssignment.delete s id) := by
  refine only_build .workers id (.bind (only_owner_about s .workers id) fun _ => ?_)
  refine .bind (.act rfl) fun _ => .bind (.attempt (only_deleteKey s .workers id _)) fun ok =>
    .bind (.getReplicas Op.about_state _ _) fun _ =>
      .bind (.visitAll (fun _ => .requestWithRetry (Op.about_deleteReplica _) _) _) fun _ =>
        .bind (.act rfl) fun _ => ?_
  cases ok with
  | ok wasThere => exact .pure _
  | error e => exact .pure _

end About

end Storage
end ChordInfra
