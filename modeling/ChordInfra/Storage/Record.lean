/-
# Keys and records

The keys of a node's store and the records kept under them: `storage/schema.py`
(tasks), `storage/result_record.py` (the HT1 table, task id to result details)
and the record helpers of `storage/worker_assignment.py` (the HT2 table, worker
id to task ids).

A key is one of `task:<id>`, `result:<id>`, `worker:<id>` or some other name, so
a key is written here by its kind and its id.  `schema_version` and `kind` are
constants of each kind of record, and what `validate_task_record` and
`validate_result_record` check of the other fields is mostly their type: a
status is one of the allowed ones, a placement has a node and a list of nodes.
Times are milliseconds.
-/

import ChordInfra.Storage.Json
import ChordInfra.Ring.Node

namespace ChordInfra
namespace Storage

open ChordInfra.Ring (NodeRef)

/-- A key of a node's store. -/
inductive Key
  | task (id : String)
  | result (id : String)
  | worker (id : String)
  | other (name : String)
deriving DecidableEq, Repr

/-! ### Task records -/

/-- `TASK_STATUSES`. -/
inductive TaskStatus
  | registered | queued | running | completed | failed | cancelled | deleted
deriving DecidableEq, Repr

/-- `status not in TASK_STATUSES`: only a text can name a status, and a list or
an object cannot be looked up in a set at all. -/
def TaskStatus.ofJson : Json → Except Exc TaskStatus
  | .str "REGISTERED" => .ok registered
  | .str "QUEUED" => .ok queued
  | .str "RUNNING" => .ok running
  | .str "COMPLETED" => .ok completed
  | .str "FAILED" => .ok failed
  | .str "CANCELLED" => .ok cancelled
  | .str "DELETED" => .ok deleted
  | .arr _ => .error (.typeError "unhashable type: 'list'")
  | .obj _ => .error (.typeError "unhashable type: 'dict'")
  | j => .error (.taskValidation ("unsupported status: " ++ j.text))

/-- A priority: `isinstance(priority, int)` also holds of a truth value. -/
inductive Priority
  | int (n : ℤ)
  | bool (b : Bool)
deriving DecidableEq, Repr

/-- The check of a priority. -/
def Priority.ofJson : Json → Except Exc Priority
  | .int n => .ok (int n)
  | .bool b => .ok (bool b)
  | _ => .error (.taskValidation "priority must be an integer")

/-- Where a task record is kept. -/
structure Placement where
  primaryNode : NodeRef
  replicationFactor : ℕ
  replicaNodes : List NodeRef
deriving DecidableEq, Repr

/-- A task record. -/
structure TaskRecord where
  taskId : String
  jobId : String
  type : String
  payload : Json
  priority : Priority
  status : TaskStatus
  result : Json
  error : Json
  createdAt : ℕ
  updatedAt : ℕ
  version : ℕ
  deleted : Bool
  placement : Placement

/-- The fields of a JSON object. -/
abbrev Fields := Dict String Json

/-- `d.get(field, default)`. -/
def Fields.getD (d : Fields) (field : String) (default : Json) : Json :=
  (Dict.get d field).getD default

/-- `build_task_key`. -/
def buildTaskKey (taskId : Json) : Except Exc Key :=
  match taskId with
  | .str s =>
    if strip s = "" then .error (.taskValidation "task_id must be a non-empty string")
    else .ok (.task (strip s))
  | _ => .error (.taskValidation "task_id must be a non-empty string")

/-- A text with something in it, stripped. -/
def requiredText (message : String) : Json → Except Exc String
  | .str s => if strip s = "" then .error (.taskValidation message) else .ok (strip s)
  | _ => .error (.taskValidation message)

/-- `_validate_required_task_fields`, with the three fields it reads. -/
def requiredTaskFields (taskInput : Fields) : Except Exc (String × String × Json) :=
  match Dict.get taskInput "job_id", Dict.get taskInput "type", Dict.get taskInput "payload" with
  | none, _, _ => .error (.taskValidation "missing required field: job_id")
  | _, none, _ => .error (.taskValidation "missing required field: type")
  | _, _, none => .error (.taskValidation "missing required field: payload")
  | some jobId, some type, some payload => do
    let jobId ← requiredText "job_id must be a non-empty string" jobId
    let type ← requiredText "type must be a non-empty string" type
    return (jobId, type, payload)

/-- `create_task_record`, for a task id that `build_task_key` accepted. -/
def createTaskRecord (taskInput : Fields) (ownerNode : NodeRef) (replicationFactor : ℕ)
    (taskId : String) (now : ℕ) : Except Exc TaskRecord := do
  let (jobId, type, payload) ← requiredTaskFields taskInput
  let status ← TaskStatus.ofJson (taskInput.getD "status" (.str "REGISTERED"))
  let priority ← Priority.ofJson (taskInput.getD "priority" (.int 0))
  return {
    taskId, jobId, type, payload, priority, status
    result := taskInput.getD "result" .null
    error := taskInput.getD "error" .null
    createdAt := now
    updatedAt := now
    version := 1
    deleted := false
    placement := ⟨ownerNode, max 1 replicationFactor, []⟩ }

namespace TaskRecord

/-- `set_replica_nodes`. -/
def setReplicaNodes (record : TaskRecord) (replicaNodes : List NodeRef) (now : ℕ) : TaskRecord :=
  { record with
    placement := { record.placement with replicaNodes }
    updatedAt := now
    version := record.version + 1 }

/-- `mark_task_deleted`. -/
def markDeleted (record : TaskRecord) (now : ℕ) : TaskRecord :=
  { record with
    status := .deleted
    deleted := true
    updatedAt := now
    version := record.version + 1 }

/-- The fields a patch may name. -/
def allowed : List String := ["status", "result", "error", "payload", "priority"]

/-- The value a patch gives to `payload`, which must be an object. -/
def patchedPayload : Json → Except Exc Json
  | .obj fields => .ok (.obj fields)
  | _ => .error (.taskValidation "payload must be a JSON object")

/-- A field after a patch: the patch's value, checked, when it names the field. -/
def patched {α : Type} (patch : Fields) (field : String) (check : Json → Except Exc α) (old : α) :
    Except Exc α :=
  match Dict.get patch field with
  | some value => check value
  | none => .ok old

/-- `update_task_record`.  A patch to the status `DELETED` also sets `deleted`,
and no patch clears it. -/
def update (record : TaskRecord) (patch : Fields) (now : ℕ) : Except Exc TaskRecord :=
  match patch.entries.find? fun e => e.1 ∉ allowed with
  | some e => .error (.taskValidation ("field '" ++ e.1 ++ "' cannot be updated via PATCH"))
  | none => do
    let status ← patched patch "status" TaskStatus.ofJson record.status
    let result ← patched patch "result" .ok record.result
    let error ← patched patch "error" .ok record.error
    let payload ← patched patch "payload" patchedPayload record.payload
    let priority ← patched patch "priority" Priority.ofJson record.priority
    return { record with
      status, result, error, payload, priority
      deleted := record.deleted ||
        ((Dict.get patch "status").isSome && decide (status = .deleted))
      updatedAt := now
      version := record.version + 1 }

end TaskRecord

/-! ### Result records (HT1) -/

/-- `VALID_STATUSES`. -/
inductive Status
  | pending | running | success | failure
deriving DecidableEq, Repr

/-- `VALID_TASK_TYPES`. -/
inductive TaskType
  | script | binary
deriving DecidableEq, Repr

/-- `VALID_ASSIGNED_BY`. -/
inductive AssignedBy
  | user | frontend | intelligence
deriving DecidableEq, Repr

/-- The failure types of `chord/recovery.py`. -/
inductive FailureType
  | workerCrash | taskTimeout | taskFailure
deriving DecidableEq, Repr

/-- An entry of `recovery_history`; the source writes each as a text. -/
inductive HistoryEntry
  | giveUp
  | waitAndRetry (retryAt : ℕ)
  | noWorkers (retryAt : ℕ)
  | retrySame (worker : String)
  | retryDifferent (worker : String)
deriving DecidableEq, Repr

/-- A `result_details` record.  `waiting` is `recovery_status`, which is `None`
or `WAITING_FOR_RETRY`; `workerResult` is a key that only a `GIVE_UP` adds. -/
structure ResultRecord where
  taskId : String
  taskType : TaskType
  path : Json
  script : Json
  status : Status
  workerId : String
  assignedBy : AssignedBy
  result : Json
  createdAt : ℕ
  updatedAt : ℕ
  attemptCount : ℕ
  maxAttempts : ℕ
  lastFailureReason : Option FailureType
  retryOnFailure : Bool
  recoveryHistory : List HistoryEntry
  waiting : Bool
  retryAt : Option ℕ
  timedOut : Bool
  workerResult : Option Json

/-- `build_result_key`. -/
def buildResultKey (taskId : String) : Except Exc Key :=
  if strip taskId = "" then .error (.resultValidation "task_id must be a non-empty string")
  else .ok (.result (strip taskId))

/-- `value or ""`. -/
def orEmpty (j : Json) : Json := if j.truthy then j else .str ""

/-- `build_result_record`, called by `/createTask` with the status `PENDING`. -/
def buildResultRecord (taskId : Json) (taskType : TaskType) (path script : Json)
    (workerId : Json) (assignedBy : AssignedBy) (now : ℕ) : Except Exc ResultRecord :=
  match taskId, workerId with
  | .str taskId, .str workerId =>
    if taskId = "" then .error (.resultValidation "task_id required")
    else if workerId = "" then .error (.resultValidation "worker_id required")
    else .ok {
      taskId, taskType, workerId, assignedBy
      path := orEmpty path
      script := orEmpty script
      status := .pending
      result := .null
      createdAt := now
      updatedAt := now
      attemptCount := 0
      maxAttempts := 3
      lastFailureReason := none
      retryOnFailure := false
      recoveryHistory := []
      waiting := false
      retryAt := none
      timedOut := false
      workerResult := none }
  | .str _, _ => .error (.resultValidation "worker_id required")
  | _, _ => .error (.resultValidation "task_id required")

/-- `validate_result_record`. -/
def validateResultRecord (record : ResultRecord) : Except Exc Unit :=
  if record.workerId = "" then .error (.resultValidation "worker_id required") else .ok ()

/-! ### Worker records (HT2) -/

/-- A `worker_assignment` record. -/
structure WorkerRecord where
  workerId : String
  tasks : List String
  createdAt : ℕ
  updatedAt : ℕ
  version : ℕ
deriving DecidableEq, Repr

/-- `build_worker_key`; a worker id of spaces alone is accepted. -/
def buildWorkerKey (workerId : String) : Except Exc Key :=
  if workerId = "" then .error (.valueError "worker_id required")
  else .ok (.worker (strip workerId))

namespace WorkerRecord

/-- `_new_record`. -/
def new (workerId : String) (tasks : List String) (now : ℕ) : WorkerRecord :=
  ⟨workerId, tasks, now, now, 1⟩

/-- `_bump`. -/
def bump (record : WorkerRecord) (tasks : List String) (now : ℕ) : WorkerRecord :=
  { record with tasks, updatedAt := now, version := record.version + 1 }

end WorkerRecord

/-! ### Values -/

/-- What a store holds under a key; `other` is a value of none of the three
kinds, such as a job. -/
inductive Value
  | task (r : TaskRecord)
  | result (r : ResultRecord)
  | worker (r : WorkerRecord)
  | other (j : Json)

namespace Value

/-- `is_task_record`. -/
def asTask : Value → Option TaskRecord
  | task r => some r
  | _ => none

/-- `is_result_record`. -/
def asResult : Value → Option ResultRecord
  | result r => some r
  | _ => none

/-- `is_worker_record`. -/
def asWorker : Value → Option WorkerRecord
  | worker r => some r
  | _ => none

end Value

end Storage
end ChordInfra
