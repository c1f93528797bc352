/-
# The task worker

`chord/task_runner.py`: the requests of a worker process to its node, the execution of
a task with its report, and the two loops that start executions, the one over the tasks
that are assigned when the process starts and the polling loop.

A turn of the polling loop is a program over the operations of `PollOp`, of which the
start of an execution is one.  A process that executes several tasks at a time hands an
execution to its thread pool (`Job.execute`); another one executes it in the polling
loop.  Stopping a process is having it take no further steps.
-/

import ChordInfra.Server.Handlers

namespace ChordInfra
namespace Server

open Interact Prog
open Storage
open Workers (Process)

/-- `RESULT_REPORT_RETRIES`. -/
def resultReportRetries : ℕ := 3

/-- One request to a handler, tried once; `none` where there is no answer or it is an
error status. -/
def callOnce {α : Type} (a : Address) (c : Call) (handler : M α) : M (Option α) := do
  let delivery : Delivery ← act (.deliver a c)
  match delivery with
  | .delivered => do
    match ← attempt handler with
    | .ok x => pure (some x)
    | .error _ => pure none
  | .lost => pure none
  | .replyLost => do
    let _ ← attempt handler
    pure none

/-- `ExecutionResult.to_dict`. -/
def executionPayload (r : ExecutionResult) : Json :=
  .obj [("exit_code", .int r.exitCode), ("stdout", .str r.stdout), ("stderr", .str r.stderr),
    ("duration_ms", .int r.durationMs), ("timed_out", .bool r.timedOut)]

/-- The result of an execution that raised, with the text of the exception. -/
def executorError (exc : String) : ExecutionResult := ⟨-1, "", "executor error: " ++ exc, 0, false⟩

/-- The status and the result that are reported of an execution. -/
def outcome : Except String ExecutionResult → String × Json
  | .ok r =>
    (if r.exitCode = 0 ∧ r.timedOut = false then "SUCCESS" else "FAILURE", executionPayload r)
  | .error exc => ("FAILURE", executionPayload (executorError exc))

section Worker

variable (s : Service) (p : Process)

/-- `_fetch_assigned`. -/
def fetchAssigned : M (List String) := do
  let tasks ← callOnce s.node.address (.workerTasks p.workerId) (WorkerAssignment.get s p.workerId)
  pure (tasks.getD [])

/-- `_fetch_record`. -/
def fetchRecord (taskId : String) : M (Option ResultRecord) := do
  let record ← callOnce s.node.address (.resultRecord taskId) (ResultService.get s taskId)
  pure (record.getD none)

/-- The tries of `_report`; an answer with an error status is a failure as well. -/
def reportTries (taskId status : String) (result : Json) : ℕ → M Unit
  | 0 => pure ()
  | tries + 1 => do
    match ← callOnce s.node.address (.complete taskId (.str status) result)
        (resultComplete s taskId (.str status) result) with
    | some (.done ..) => pure ()
    | _ => reportTries taskId status result tries

/-- `_report`. -/
def report (taskId status : String) (result : Json) : M Unit :=
  reportTries s taskId status result (resultReportRetries + 1)

/-- `_execute_and_report`. -/
def executeAndReport (taskId : String) (record : ResultRecord) : M Unit := do
  act (.memory p (.begin taskId))
  let result : Except String ExecutionResult ← act (.execute p taskId record)
  report s taskId (outcome result).1 (outcome result).2
  act (.memory p (.finish taskId))

/-- An execution started: in the thread pool, or at once. -/
def startTask (taskId : String) (record : ResultRecord) : M Unit :=
  if 1 < p.concurrency then do
    act (.memory p (.begin taskId))
    act (.spawn (.execute p taskId record))
  else executeAndReport s p taskId record

/-- What a turn of the polling loop does. -/
inductive PollOp
  | assigned
  | record (taskId : String)
  /-- Whether a process that executes several tasks has no slot left. -/
  | full
  | hasSeen (taskId : String)
  | see (taskId : String)
  | start (taskId : String) (record : ResultRecord)

namespace PollOp

/-- What an operation of a turn ends with. -/
@[reducible] def Val : PollOp → Type
  | assigned => List String
  | record _ => Option ResultRecord
  | full | hasSeen _ => Bool
  | see _ | start .. => Unit

/-- The program of an operation of a turn. -/
def program : (o : PollOp) → M o.Val
  | assigned => fetchAssigned s p
  | record taskId => fetchRecord s taskId
  | full => if 1 < p.concurrency then act (.memory p (.full p.concurrency)) else pure false
  | hasSeen taskId => act (.memory p (.hasSeen taskId))
  | see taskId => act (.memory p (.see taskId))
  | start taskId r => startTask s p taskId r

end PollOp

/-- The programs of turns of the polling loop. -/
abbrev Poll := Prog PollOp (fun o => Except Exc o.Val) Exc

/-- One operation of a turn. -/
abbrev Poll.act (o : PollOp) : Poll o.Val := call o

/-- A pending task, unless the process has seen it. -/
def claimTask (taskId : String) (record : ResultRecord) : Poll Unit := do
  let seen : Bool ← Poll.act (.hasSeen taskId)
  if seen then pure ()
  else do
    Poll.act (.see taskId)
    Poll.act (.start taskId record)

/-- An assigned task. -/
def pollTask (taskId : String) : Poll Unit := do
  let record : Option ResultRecord ← Poll.act (.record taskId)
  match record with
  | none => pure ()
  | some record =>
    if record.status = .pending then claimTask taskId record else Poll.act (.see taskId)

/-- The assigned tasks in turn, while there are slots. -/
def pollTasks : List String → Poll Unit
  | [] => pure ()
  | taskId :: taskIds => do
    let full : Bool ← Poll.act .full
    if full then pure ()
    else do
      pollTask taskId
      pollTasks taskIds

/-- A turn of the polling loop. -/
def poll : Poll Unit := do
  let assigned : List String ← Poll.act .assigned
  pollTasks assigned

/-- A turn of `_polling_loop` in the process. -/
def pollTick : M Unit := expand (PollOp.program s p) poll

/-- A task that is assigned when the process starts. -/
def recoverPendingTask (taskId : String) : M Unit := do
  act (.memory p (.see taskId))
  match ← fetchRecord s taskId with
  | none => pure ()
  | some record =>
    if record.status = .pending then executeAndReport s p taskId record else pure ()

/-- `_recover_pending_tasks`. -/
def recoverPendingTasks : M Unit := do
  let assigned ← fetchAssigned s p
  each (recoverPendingTask s p) assigned

/-- `_send_heartbeat`. -/
def sendHeartbeat : M Unit := do
  let pending : ℕ ← act (.memory p .pending)
  let now : ℕ ← act .now
  let _ ← callOnce s.node.address (.heartbeat p.workerId pending now p.token)
    (heartbeat s p.workerId pending (some now) (some p.token))
  pure ()

/-- The first `n` turns of `_polling_loop`; one that raises is over. -/
def pollingLoop : ℕ → M Unit
  | 0 => pure ()
  | n + 1 => do
    let _ ← attempt (pollTick s p)
    pollingLoop n

/-- `run`, with the first `n` turns of the polling loop. -/
def runWorker (n : ℕ) : M Unit := do
  sendHeartbeat s p
  let _ ← attempt (recoverPendingTasks s p)
  pollingLoop s p n

/-- The first `n` turns of `_heartbeat_loop`. -/
def heartbeatLoop : ℕ → M Unit
  | 0 => pure ()
  | n + 1 => do
    sendHeartbeat s p
    heartbeatLoop n

end Worker

end Server
end ChordInfra
