/-
# The versions of a task record

What becomes of a task record from the input of `register_task` on, by any sequence of
`set_replica_nodes`, `update_task` and `mark_task_deleted` (`storage/schema.py`,
`storage/task_service.py`).

Each of them makes one version of it and leaves what identifies the task.  A patch and a deletion
set the status `DELETED` together with the flag `deleted`; `create_task_record` takes the status from
the input and leaves the flag unset.
-/

import ChordInfra.Storage.Serving
import ChordInfra.Storage.UpdateRuns

namespace ChordInfra
namespace Storage

open Interact Prog
open ChordInfra.Ring (NodeRef)
open Replication

/-- A status in a record. -/
def TaskStatus.text : TaskStatus → String
  | registered => "REGISTERED"
  | queued => "QUEUED"
  | running => "RUNNING"
  | completed => "COMPLETED"
  | failed => "FAILED"
  | cancelled => "CANCELLED"
  | deleted => "DELETED"

/-- `TASK_STATUSES`. -/
def taskStatuses : List String :=
  ["REGISTERED", "QUEUED", "RUNNING", "COMPLETED", "FAILED", "CANCELLED", "DELETED"]

theorem TaskStatus.text_mem (status : TaskStatus) : status.text ∈ taskStatuses := by
  cases status <;> decide

/-- The status of a text that names one. -/
theorem TaskStatus.ofJson_eq {j : Json} {status : TaskStatus} (h : ofJson j = .ok status) :
    j = .str status.text := by
  unfold ofJson at h
  split at h <;> first | cases h; rfl | cases h

/-- What is done to a task record. -/
inductive RecordOp
  | setReplicaNodes (replicaNodes : List NodeRef)
  | update (patch : Fields)
  | markDeleted

namespace RecordOp

/-- The record that an operation makes of another, when the clock reads `now`; `update_task` patches
no deleted record. -/
def apply (now : ℕ) (record : TaskRecord) : RecordOp → Except Exc TaskRecord
  | setReplicaNodes replicaNodes => .ok (record.setReplicaNodes replicaNodes now)
  | update patch =>
    if record.status = .deleted then .error (.taskValidation "cannot update a deleted task")
    else record.update patch now
  | markDeleted => .ok (record.markDeleted now)

end RecordOp

namespace TaskRecord

/-- The record `r` after `n` operations on `r₀`. -/
inductive After (r₀ : TaskRecord) : ℕ → TaskRecord → Prop
  | created : After r₀ 0 r₀
  | applied {n now : ℕ} {r r' : TaskRecord} (op : RecordOp) (h : After r₀ n r)
      (hop : op.apply now r = .ok r') : After r₀ (n + 1) r'

/-- The status says that the task is deleted exactly when the flag does. -/
def Coupled (r : TaskRecord) : Prop := r.status = .deleted ↔ r.deleted = true

/-- What identifies a task, and when it was made. -/
def identity (r : TaskRecord) : String × String × String × ℕ := (r.taskId, r.jobId, r.type, r.createdAt)

variable {r₀ r r' : TaskRecord} {op : RecordOp} {now n : ℕ}

/-- **An operation makes one version** of a record, and leaves what identifies the task. -/
theorem apply_version (h : op.apply now r = .ok r') :
    r'.version = r.version + 1 ∧ r'.identity = r.identity := by
  cases op with
  | setReplicaNodes nodes =>
    cases h
    exact ⟨rfl, rfl⟩
  | update patch =>
    unfold RecordOp.apply at h
    split_ifs at h
    rw [(update_eq h).2.2.2.2.2.2]
    exact ⟨rfl, rfl⟩
  | markDeleted =>
    cases h
    exact ⟨rfl, rfl⟩

/-- An operation keeps the status and the flag together. -/
theorem Coupled.apply (hr : r.Coupled) (h : op.apply now r = .ok r') : r'.Coupled := by
  cases op with
  | setReplicaNodes nodes =>
    cases h
    exact hr
  | update patch =>
    unfold RecordOp.apply at h
    split_ifs at h with hstatus
    obtain ⟨-, hs, -, -, -, -, heq⟩ := update_eq h
    have hflag : r.deleted = false := by
      rw [← Bool.not_eq_true]
      exact fun hd => hstatus (hr.2 hd)
    have hdeleted : r'.deleted = (r.deleted || ((Dict.get patch "status").isSome &&
        decide (r'.status = .deleted))) := by
      conv_lhs => rw [heq]
    unfold Coupled
    rw [hdeleted, hflag, Bool.false_or, Bool.and_eq_true, decide_eq_true_iff]
    refine ⟨fun hd => ⟨?_, hd⟩, And.right⟩
    -- a status that no patch names is the one from before, which is not `DELETED`
    cases hv : Dict.get patch "status" with
    | some v => rfl
    | none => exact absurd (patched_none hs hv ▸ hd) hstatus
  | markDeleted =>
    cases h
    exact ⟨fun _ => rfl, fun _ => rfl⟩

theorem After.version (h : After r₀ n r) : r.version = r₀.version + n ∧ r.identity = r₀.identity := by
  induction h with
  | created => exact ⟨rfl, rfl⟩
  | applied op _ hop ih =>
    obtain ⟨hversion, hidentity⟩ := apply_version hop
    exact ⟨by rw [hversion, ih.1, Nat.add_assoc], hidentity.trans ih.2⟩

theorem After.coupled (h : After r₀ n r) (h₀ : r₀.Coupled) : r.Coupled := by
  induction h with
  | created => exact h₀
  | applied op _ hop ih => exact ih.apply hop

/-! ### From an input -/

variable {taskInput : Fields} {owner : NodeRef} {k : ℕ} {taskId : String}

/-- What `create_task_record` makes of an input that it accepts. -/
theorem createTaskRecord_eq (h : createTaskRecord taskInput owner k taskId now = .ok r) :
    requiredTaskFields taskInput = .ok (r.jobId, r.type, r.payload) ∧
      TaskStatus.ofJson (taskInput.getD "status" (.str "REGISTERED")) = .ok r.status ∧
      Priority.ofJson (taskInput.getD "priority" (.int 0)) = .ok r.priority ∧
      r = {
        taskId, jobId := r.jobId, type := r.type, payload := r.payload, priority := r.priority
        status := r.status
        result := taskInput.getD "result" .null
        error := taskInput.getD "error" .null
        createdAt := now
        updatedAt := now
        version := 1
        deleted := false
        placement := ⟨owner, max 1 k, []⟩ } := by
  unfold createTaskRecord at h
  cases hf : requiredTaskFields taskInput with
  | error e => rw [hf] at h; cases h
  | ok fields =>
  cases hs : TaskStatus.ofJson (taskInput.getD "status" (.str "REGISTERED")) with
  | error e => rw [hf, hs] at h; cases h
  | ok status =>
  cases hp : Priority.ofJson (taskInput.getD "priority" (.int 0)) with
  | error e => rw [hf, hs, hp] at h; cases h
  | ok priority =>
    rw [hf, hs, hp] at h
    obtain rfl := Except.ok.inj h
    exact ⟨rfl, rfl, rfl, rfl⟩

/-- **The versions of a task.**  For an input that is accepted, every record that any operations make
of it has one version for each of them and the one of its creation, a status among the allowed ones
and the identity it was created with; and its status and its flag say the same of its deletion
throughout, exactly when the input does not give the status `DELETED` itself. -/
theorem after_createTaskRecord (h : createTaskRecord taskInput owner k taskId now = .ok r₀) :
    (∀ n r, After r₀ n r → r.Coupled ∧ r.status.text ∈ taskStatuses ∧ r.version = 1 + n ∧
      r.identity = r₀.identity) ↔
      taskInput.getD "status" (.str "REGISTERED") ≠ .str "DELETED" := by
  obtain ⟨-, hstatus, -, heq⟩ := createTaskRecord_eq h
  have hdeleted : r₀.deleted = false := by rw [heq]
  have hversion : r₀.version = 1 := by rw [heq]
  have hcoupled : r₀.Coupled ↔ r₀.status ≠ .deleted := by
    unfold Coupled
    rw [hdeleted]
    simp
  have hnamed : r₀.status ≠ .deleted ↔
      taskInput.getD "status" (.str "REGISTERED") ≠ .str "DELETED" := by
    rw [TaskStatus.ofJson_eq hstatus]
    cases r₀.status <;> simp [TaskStatus.text]
  rw [← hnamed, ← hcoupled]
  refine ⟨fun hall => (hall 0 r₀ .created).1, fun h₀ n r hr => ⟨hr.coupled h₀, r.status.text_mem, ?_, ?_⟩⟩
  · rw [hr.version.1, hversion]
  · exact hr.version.2

/-! ### What the services write -/

/-- A program that is asked for nothing. -/
theorem does_any {α : Type} (p : M α) : Does (fun _ _ => True) (fun _ => True) p fun _ => True := by
  refine ⟨?_⟩
  induction p with
  | ret a => exact fun _ _ => trivial
  | raise e => exact fun _ _ => trivial
  | op o k ih => exact ⟨trivial, fun r _ => ih r⟩

/-- A task that is registered is written in its second version. -/
theorem after_registerTask (s : Service) (taskInput : Fields) :
    Does (fun _ _ => True) (fun _ => True) (TaskService.registerTask s taskInput) fun written =>
      ∃ owner taskId created r₀,
        createTaskRecord taskInput owner s.replicationK taskId created = .ok r₀ ∧
          After r₀ 1 written.task := by
  refine .bind (does_any _) fun _ _ => .bind (does_any _) fun _ _ => .bind (does_any _) fun key _ =>
    .bind (does_any _) fun primary _ => .bind (.step trivial) fun (created : ℕ) _ => ?_
  refine .bind (Serving.lift (Q := fun r => createTaskRecord taskInput primary s.replicationK
    (TaskService.keyId key) created = .ok r) fun _ h => h) fun r hr => ?_
  refine .bind (does_any _) fun nodes _ => .bind (.step trivial) fun (updated : ℕ) _ => ?_
  refine .bind (does_any _) fun _ _ => .bind (does_any _) fun _ _ => .pure ?_
  have hop : RecordOp.apply updated r (.setReplicaNodes nodes) = .ok (r.setReplicaNodes nodes updated) :=
    rfl
  exact ⟨_, _, _, r, hr, .applied _ .created hop⟩

/-- An update writes one more version of a record. -/
theorem after_updateTask (s : Service) (taskId : String) (patch : Fields) :
    Does (fun _ _ => True) (fun _ => True) (TaskService.updateTask s taskId patch) fun written =>
      ∃ existing, After existing 1 written.task := by
  refine .bind (does_any _) fun _ _ => .bind (does_any _) fun _ _ =>
    .bind (does_any _) fun existing _ => .ite (fun _ => .raise _) fun hstatus => ?_
  refine .bind (.step trivial) fun (now : ℕ) _ => ?_
  refine .bind (Serving.lift (Q := fun r => existing.update patch now = .ok r) fun _ h => h)
    fun r hr => .bind (does_any _) fun _ _ => .bind (does_any _) fun _ _ => .pure ?_
  have hop : RecordOp.apply now existing (.update patch) = .ok r := (if_neg hstatus).trans hr
  exact ⟨existing, .applied _ .created hop⟩

/-- A soft deletion writes one more version of a record. -/
theorem after_deregisterTask (s : Service) (taskId : String) :
    Does (fun _ _ => True) (fun _ => True) (TaskService.deregisterTask s taskId false) fun reply =>
      ∃ existing written, reply = .soft written ∧ After existing 1 written.task := by
  refine .bind (does_any _) fun _ _ => .bind (does_any _) fun _ _ =>
    .bind (does_any _) fun existing _ => .bind (.step trivial) fun (now : ℕ) _ => ?_
  refine .bind (R := fun written => written.task = existing.markDeleted now) ?_ fun written hw =>
    .pure ?_
  · exact .bind (does_any _) fun _ _ => .bind (does_any _) fun _ _ => .pure rfl
  · have hop : RecordOp.apply now existing .markDeleted = .ok written.task :=
      congrArg Except.ok hw.symm
    exact ⟨existing, written, rfl, .applied _ .created hop⟩

/-- An input that a client may send, with a status. -/
def inputWithStatus (status : String) : Fields :=
  Dict.set (Dict.set (Dict.set (Dict.set .empty "job_id" (.str "j")) "type" (.str "t")) "payload"
    .null) "status" (.str status)

/-- The record made of it. -/
def recordWithStatus (status : TaskStatus) : TaskRecord where
  taskId := "x"
  jobId := "j"
  type := "t"
  payload := .null
  priority := .int 0
  status := status
  result := .null
  error := .null
  createdAt := 0
  updatedAt := 0
  version := 1
  deleted := false
  placement := ⟨⟨1, "a"⟩, 3, []⟩

/-- A task registered as queued is in order throughout. -/
theorem after_createTaskRecord_queued :
    (∀ n r, After (recordWithStatus .queued) n r → r.Coupled ∧ r.status.text ∈ taskStatuses ∧
      r.version = 1 + n ∧ r.identity = (recordWithStatus .queued).identity) ↔
      (inputWithStatus "QUEUED").getD "status" (.str "REGISTERED") ≠ .str "DELETED" :=
  have haccepted : createTaskRecord (inputWithStatus "QUEUED") ⟨1, "a"⟩ 3 "x" 0 =
      .ok (recordWithStatus .queued) := rfl
  after_createTaskRecord haccepted

/-- **A task may be registered as deleted** without the flag. -/
theorem not_coupled_of_input : ∃ r,
    createTaskRecord (inputWithStatus "DELETED") ⟨1, "a"⟩ 3 "x" 0 = .ok r ∧ After r 0 r ∧
      ¬r.Coupled :=
  ⟨recordWithStatus .deleted, rfl, .created, by simp [Coupled, recordWithStatus]⟩

end TaskRecord

end Storage
end ChordInfra
