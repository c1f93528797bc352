/-
# The handlers of tasks and results

`chord/server.py`: `/createTask`, the completion reports of workers with the
delayed cleanup that they start, and the rebalance of pending tasks; and
`chord/retry.py`, with which the first retries its two writes.

What the handlers tell the observability and the metrics is left out, and so is
the process that `_spawn_worker_internal` starts: a handler is told what became
of it.  Neither do waits show: what happens meanwhile may happen before any
operation.
-/

import ChordInfra.Storage.WorkerAssignment
import Mathlib.Data.List.MinMax

namespace ChordInfra
namespace Server

open Interact Prog
open ChordInfra.Ring (NodeRef)
open Storage
open Workers (Registry)

/-! ### Retries -/

/-- `MAX_RETRIES`. -/
def maxRetries : ℕ := 3

/-- The loop of `with_timeout_and_retry` with `tries` tries left; the message leaves
out the text of the last failure, which is only logged. -/
def retryLoop {α : Type} (opName : String) (op : M α) : ℕ → M α
  | 0 => raise (.runtimeError (opName ++ " failed after 4 attempts"))
  | tries + 1 => do
    match ← attempt op with
    | .ok x => pure x
    | .error _ => retryLoop opName op tries

/-- `with_timeout_and_retry`; none of the operations it is given raises
`FatalError`. -/
def withTimeoutAndRetry {α : Type} (opName : String) (op : M α) : M α :=
  retryLoop opName op (maxRetries + 1)

/-! ### `/createTask` -/

/-- `PHASE3_FORCE_FAIL`, in lower case; other values inject nothing. -/
inductive Inject
  | ht1 | ht2 | nothing
deriving DecidableEq

/-- What the environment variables of a process say: `CHORD_ENABLE_AUTOSPAWN`, with
the worker that is spawned then (`none` when the spawn fails), and
`PHASE3_FORCE_FAIL`. -/
structure Config where
  autospawn : Bool
  spawned : Option String
  inject : Inject

/-- The answer of `/createTask`, with whether the handler reported in the log that its
rollback failed. -/
inductive CreateReply
  | accepted (taskId workerId : String) (assignedBy : AssignedBy)
  | exists (taskId : Json) (status : Status) (workerId : String) (assignedBy : AssignedBy)
  | rejected (code : ℕ) (reason : String) (rollbackFailed : Bool := false)
deriving Inhabited

/-- The status code of the answer. -/
def CreateReply.code : CreateReply → ℕ
  | accepted .. => 201
  | .exists .. => 200
  | rejected code .. => code

/-- `task_type not in _VALID_TASK_TYPES`: a list or an object cannot be looked up in a
set at all. -/
def taskTypeOf : Json → Except Exc (Option TaskType)
  | .str "SCRIPT" => .ok (some .script)
  | .str "BINARY" => .ok (some .binary)
  | .arr _ => .error (.typeError "unhashable type: 'list'")
  | .obj _ => .error (.typeError "unhashable type: 'dict'")
  | _ => .ok none

/-- A field of an object, with a default. -/
def fieldOr (fields : List (String × Json)) (name : String) (default : Json) : Json :=
  (fields.lookup name).getD default

/-- `body.get("task_details") or {}`, when it is an object. -/
def taskDetails (body : Fields) : Option (List (String × Json)) :=
  match body.getD "task_details" .null with
  | .obj fields => some fields
  | j => if j.truthy then none else some []

section CreateTask

variable (cfg : Config) (s : Service)

/-- The record that is there already; a failure of the read counts as none. -/
def existingRecord : Json → M (Option ResultRecord)
  | .str taskId => do
    match ← attempt (ResultService.get s taskId) with
    | .ok existing => pure existing
    | .error _ => pure none
  | _ => pure none

/-- The first worker that the scores name, or the next one in turn. -/
def placed : M (Option String) := do
  let scored : List (String × ℚ) ← act (.registry s.node.address .scoreAllWorkers)
  match scored with
  | (workerId, _) :: _ => pure (some workerId)
  | [] => do
    let workerId : Option String ← act (.registry s.node.address .roundRobinAssign)
    pure workerId

/-- The wait for the heartbeat of a spawned worker, at most `n` more looks. -/
def waitLive (workerId : String) : ℕ → M Unit
  | 0 => pure ()
  | n + 1 => do
    let live : Bool ← act (.registry s.node.address (.isLive workerId))
    if live then pure () else waitLive workerId n

/-- The worker of a submission that found no live one, with `CHORD_ENABLE_AUTOSPAWN`. -/
def spawnAndPlace : M (Option String) :=
  match cfg.spawned with
  | none => pure none
  | some workerId => do
    act (.spawn (.rebalance s.node))
    waitLive s workerId 20
    placed s

/-- The optimistic load of the worker that was placed. -/
def noteAssignment : Option String → M Unit
  | none => pure ()
  | some workerId =>
    if workerId = "" then pure ()
    else act (.registry s.node.address (.noteAssignment workerId))

/-- The worker, when the body names none; `none` is the answer 503. -/
def placeWorker : M (Option (Json × AssignedBy)) := do
  let first ← placed s
  let workerId ← if first.isNone && cfg.autospawn then spawnAndPlace cfg s else pure first
  if workerId.isNone && cfg.autospawn then pure none
  else do
    noteAssignment s workerId
    pure (some ((workerId.map Json.str).getD .null, .frontend))

/-- Step 1: the worker, and who assigned it. -/
def determineWorker (provided : Json) : M (Option (Json × AssignedBy)) :=
  if provided.truthy then pure (some (provided, .user)) else placeWorker cfg s

/-- `_ht1_op`. -/
def ht1Op (record : ResultRecord) : M Unit :=
  if cfg.inject = .ht1 then raise (.runtimeError "injected HT1 failure")
  else do
    let _ ← ResultService.put s record.taskId record
    pure ()

/-- `_ht2_op`. -/
def ht2Op (record : ResultRecord) : M Unit :=
  if cfg.inject = .ht2 then raise (.runtimeError "injected HT2 failure")
  else do
    let _ ← WorkerAssignment.append s record.workerId record.taskId
    pure ()

/-- The name of the HT1 write in the log. -/
def ht1OpName (record : ResultRecord) : String := "HT1.put(" ++ record.taskId ++ ")"

/-- The name of the HT2 append in the log. -/
def ht2OpName (record : ResultRecord) : String :=
  "HT2.append(" ++ record.workerId ++ "," ++ record.taskId ++ ")"

/-- Steps 4 and 5: the HT2 append, with the deletion of the HT1 record when it
fails. -/
def assign (record : ResultRecord) : M CreateReply := do
  match ← attempt (withTimeoutAndRetry (ht2OpName record) (ht2Op cfg s record)) with
  | .ok _ => pure (.accepted record.taskId record.workerId record.assignedBy)
  | .error _ => do
    let rollback ← attempt (ResultService.delete s record.taskId)
    pure (.rejected 503 "Failed to persist worker assignment" !rollback.toBool)

/-- Steps 3 to 5 of a new record. -/
def persist (record : ResultRecord) : M CreateReply := do
  match ← attempt (withTimeoutAndRetry (ht1OpName record) (ht1Op cfg s record)) with
  | .ok _ => assign cfg s record
  | .error _ => pure (.rejected 503 "Failed to persist task record")

/-- Steps 2 to 5, for a worker. -/
def accept (taskId : Json) (taskType : TaskType) (details : List (String × Json)) :
    Option (Json × AssignedBy) → M CreateReply
  | none => pure (.rejected 503 "no live workers available; auto-spawn failed")
  | some (workerId, assignedBy) => do
    let now : ℕ ← act .now
    match buildResultRecord taskId taskType (fieldOr details "path" (.str ""))
        (fieldOr details "script" (.str "")) workerId assignedBy now with
    | .error (.resultValidation reason) => pure (.rejected 422 reason)
    | .error e => raise e
    | .ok record => persist cfg s record

/-- Steps 0 to 5, for a task type. -/
def submit (body : Fields) (details : List (String × Json)) (taskType : TaskType) :
    M CreateReply := do
  let taskId := body.getD "task_id" .null
  match ← existingRecord s taskId with
  | some existing =>
    pure (.exists taskId existing.status existing.workerId existing.assignedBy)
  | none => do
    let worker ← determineWorker cfg s (body.getD "worker_id" .null)
    accept cfg s taskId taskType details worker

/-- `create_task_v2`. -/
def createTask (body : Fields) : M CreateReply :=
  if (body.getD "task_id" .null).truthy = false then pure (.rejected 422 "task_id required")
  else
    match taskDetails body with
    | none => pure (.rejected 422 "task_details must be an object")
    | some details => do
      match ← lift (taskTypeOf (fieldOr details "task_type" .null)) with
      | none =>
        pure (.rejected 422 "task_details.task_type must be one of ['BINARY', 'SCRIPT']")
      | some taskType => submit cfg s body details taskType

end CreateTask

/-! ### Completion reports -/

/-- The answer of `/internal/results/<task_id>/complete`. -/
inductive CompleteReply
  | done (taskId : String) (status : Status)
  | invalid
  | notFound (taskId : String)
  | failed
deriving DecidableEq

/-- `status not in {"SUCCESS", "FAILURE"}`: a list or an object cannot be looked up in a
set at all. -/
def reportedStatus : Json → Except Exc (Option Status)
  | .str "SUCCESS" => .ok (some .success)
  | .str "FAILURE" => .ok (some .failure)
  | .arr _ => .error (.typeError "unhashable type: 'list'")
  | .obj _ => .error (.typeError "unhashable type: 'dict'")
  | _ => .ok none

/-- The record after a report: whether the task timed out stays in the result. -/
def completed (record : ResultRecord) (status : Status) (result : Json) (now : ℕ) :
    ResultRecord :=
  { record with status, result, updatedAt := now }

section Complete

variable (s : Service)

/-- `_delayed_ht2_cleanup`. -/
def cleanup (workerId taskId : String) : M Unit := do
  let _ ← attempt (WorkerAssignment.remove s workerId taskId)
  pure ()

/-- The cleanup that a success starts. -/
def startCleanup (workerId taskId : String) (status : Status) : M Unit :=
  if workerId ≠ "" ∧ status = .success then act (.spawn (.cleanup s.node workerId taskId))
  else pure ()

/-- What follows the write of a report. -/
def afterReport (workerId taskId : String) (status : Status) : M CompleteReply := do
  startCleanup s workerId taskId status
  act (.registry s.node.address (.recordCompletion workerId (status = .success)))
  pure (.done taskId status)

/-- The record patched and written back. -/
def writeReport (taskId : String) (status : Status) (result : Json) (existing : ResultRecord) :
    M CompleteReply := do
  let now : ℕ ← act .now
  match ← attempt (ResultService.put s taskId (completed existing status result now)) with
  | .ok _ => afterReport s existing.workerId taskId status
  | .error _ => pure .failed

/-- `result_complete`. -/
def resultComplete (taskId : String) (status result : Json) : M CompleteReply := do
  match ← lift (reportedStatus status) with
  | none => pure .invalid
  | some status => do
    match ← ResultService.get s taskId with
    | none => pure (.notFound taskId)
    | some existing => writeReport s taskId status result existing

end Complete

/-! ### Rebalancing -/

section Rebalance

variable (s : Service)

/-- The pending records under the keys given. -/
def pendingRecords : List Key → M (List (String × ResultRecord))
  | [] => pure []
  | .result taskId :: keys => do
    let value : Option Value ← act (.get s.node.address (.result taskId))
    let rest ← pendingRecords keys
    match value with
    | some (.result record) =>
      if record.status = .pending then pure ((taskId, record) :: rest) else pure rest
    | _ => pure rest
  | _ :: keys => pendingRecords keys

/-- The load of each live worker: its pending records. -/
def loads (live : List String) (pending : List (String × ResultRecord)) : Dict String ℕ :=
  live.foldl (fun load w => load.set w (pending.countP fun e => e.2.workerId = w)) .empty

/-- The first worker with the least load. -/
def leastLoaded (load : Dict String ℕ) : Option (String × ℕ) := load.entries.argmin Prod.snd

/-- Where a record goes: one of a worker that is not live always goes somewhere, one of
a live worker only where it is overloaded and another is less loaded. -/
def destination (target : ℕ) (load : Dict String ℕ) (current : String) : Option String :=
  match load.get current with
  | some n =>
    if n ≤ target then none
    else ((leastLoaded load).filter fun e => e.2 < n).map Prod.fst
  | none => (leastLoaded load).map Prod.fst

/-- The loads after a record went from `src` to `dst`. -/
def shifted (load : Dict String ℕ) (src dst : String) : Dict String ℕ :=
  let load := load.set dst ((load.get dst).getD 0 + 1)
  match load.get src with
  | some n => load.set src (n - 1)
  | none => load

/-- The record of a task moved to another worker. -/
def reassigned (record : ResultRecord) (dst : String) : ResultRecord :=
  { record with workerId := dst, assignedBy := .intelligence }

/-- A move: the record is written to this node's own store; the list of a worker that
is not live is left as it is. -/
def move (taskId : String) (record : ResultRecord) (srcLive : Bool) (dst : String) : M Unit := do
  act (.put s.node.address (.result taskId) (.result (reassigned record dst)))
  let _ ← if srcLive then WorkerAssignment.remove s record.workerId taskId
    else pure ⟨[], false⟩
  let _ ← WorkerAssignment.append s dst taskId
  pure ()

/-- How many tasks were moved, and the loads after the moves. -/
structure Moves where
  moved : ℕ
  load : Dict String ℕ

/-- What `_do_rebalance` returns: why it did nothing, or the workers that it found live and what it
moved. -/
inductive RebalanceReply
  | skipped (reason : String)
  | done (liveWorkers : List String) (moves : Moves)

/-- The pending records in turn, with the loads so far. -/
def moveAll (target : ℕ) : List (String × ResultRecord) → Dict String ℕ → M Moves
  | [], load => pure ⟨0, load⟩
  | (taskId, record) :: pending, load =>
    match destination target load record.workerId with
    | none => moveAll target pending load
    | some dst => do
      match ← attempt (move s taskId record (load.get record.workerId).isSome dst) with
      | .ok _ => do
        let moves ← moveAll target pending (shifted load record.workerId dst)
        pure { moves with moved := moves.moved + 1 }
      | .error _ => moveAll target pending load

/-- `_do_rebalance`. -/
def doRebalance : M RebalanceReply := do
  let live : List String ← act (.registry s.node.address .liveWorkers)
  if live.length < 2 then pure (.skipped "need at least 2 live workers")
  else do
    let items : List (Key × Value) ← act (.items s.node.address)
    let pending ← pendingRecords s (items.map Prod.fst)
    if pending = [] then pure (.skipped "no PENDING tasks")
    else do
      let moves ← moveAll s (max 1 (pending.length / live.length)) pending (loads live pending)
      pure (.done live moves)

/-- `_rebalance_after_spawn`, after its wait for the heartbeat of the worker. -/
def rebalanceAfterSpawn : M Unit := do
  let _ ← attempt (doRebalance s)
  pure ()

end Rebalance

/-! ### Workers -/

/-- `workers_heartbeat`: whether another process uses the same id; `none` is the answer
422. -/
def heartbeat (s : Service) (workerId : String) (pendingTasks : ℤ) (timestamp : Option ℤ)
    (processToken : Option String) : M (Option Bool) :=
  if workerId = "" then pure none
  else do
    let collision : Option String ←
      act (.registry s.node.address (.heartbeat workerId pendingTasks timestamp processToken))
    pure (some collision.isSome)

/-- `api_kill_worker`, of a worker whose process was killed; the scan that it starts is
one like any other. -/
def killWorker (s : Service) (workerId : String) : M Unit := do
  let _ ← (act (.registry s.node.address (.remove workerId)) : M Bool)
  act (.manager s.node.address .resetSpawn)

end Server
end ChordInfra
