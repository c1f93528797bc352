/-
# A worker process by itself

`chord/task_runner.py`: the threads of one `Worker`, with a frontend that may
answer anything: any list of assigned tasks, any record or none for a task,
whatever became of the requests before.  `Server.TaskRunner` has the same loops
in a ring whose nodes keep their records; here nothing is known of the records,
so a status is any JSON value.

The process runs until `stop` is called, which nothing here does.  An execution
in the thread pool is a thread of its own from `submit` on, queued until its first
step; how many of them the pool lets run at a time is not used.  The turns of
the loops are counted, so that a run of the process is a run with enough of them.
-/

import ChordInfra.Server.TaskRunner
import ChordInfra.Interact.Pool

namespace ChordInfra
namespace Server
namespace WorkerProcess

open Interact Prog
open Storage (Json ExecutionResult)
open Workers (Memory)

/-! ### Operations -/

/-- What the threads of a process do. -/
inductive Op
  /-- `self._stop_event.is_set()`. -/
  | stopped
  /-- `_fetch_assigned`: the list, empty where the request fails. -/
  | assigned
  /-- `_fetch_record`: the record, `null` where there is none or the request fails. -/
  | record (taskId : String)
  | memory (c : Memory.Call)
  /-- `self._inflight.add(tid)` of `_polling_loop`, before it submits the task. -/
  | mark (taskId : String)
  /-- `self._executor.submit(self._execute_and_report, tid, record)`. -/
  | submit (taskId : String) (record : Json)
  /-- `run_task`. -/
  | execute (taskId : String) (record : Json)
  /-- One try of `_report`, and whether it succeeds. -/
  | complete (taskId status : String) (result : Json)
  /-- The request of `_send_heartbeat`. -/
  | heartbeat (pendingTasks : ℕ)

/-- What an operation is answered. -/
@[reducible] def Op.Res : Op → Type
  | stopped | complete .. => Bool
  | assigned => List String
  | record _ => Json
  | memory c => c.Res
  | mark _ | submit .. | heartbeat _ => Unit
  | execute .. => Except String ExecutionResult

/-- The programs of the threads; an exception is its text. -/
abbrev Program (α : Type) := Prog Op Op.Res String α

/-- One operation. -/
abbrev act (o : Op) : Program o.Res := perform o

/-! ### The programs -/

/-- `record.get("status")`, on a dictionary only. -/
def status : Json → Option Json
  | .obj fields => some ((Dict.find "status" fields).getD .null)
  | _ => none

/-- `status in texts`. -/
def isOneOf (texts : List String) : Json → Bool
  | .str s => s ∈ texts
  | _ => false

/-- The statuses of a task that the polling loop passes over. -/
def passedOver : Json → Bool := isOneOf ["SUCCESS", "FAILURE", "RUNNING"]

/-- `record.get("status")` on a record. -/
def getStatus (record : Json) : Program Json :=
  match status record with
  | some st => pure st
  | none => raise "object has no attribute 'get'"

/-- The tries of `_report`. -/
def reportTries (taskId st : String) (result : Json) : ℕ → Program Unit
  | 0 => pure ()
  | tries + 1 => do
    let ok : Bool ← act (.complete taskId st result)
    if ok then pure () else reportTries taskId st result tries

/-- `_execute_and_report`. -/
def executeAndReport (taskId : String) (record : Json) : Program Unit := do
  act (.memory (.begin taskId))
  let result : Except String ExecutionResult ← act (.execute taskId record)
  reportTries taskId (outcome result).1 (outcome result).2 (resultReportRetries + 1)
  act (.memory (.finish taskId))

/-- A task that is assigned when the process starts. -/
def recoverPendingTask (taskId : String) : Program Unit := do
  act (.memory (.see taskId))
  let record : Json ← act (.record taskId)
  match record with
  | .null => pure ()
  | record => do
    let st ← getStatus record
    if isOneOf ["PENDING"] st then executeAndReport taskId record else pure ()

/-- `_recover_pending_tasks`. -/
def recoverPendingTasks : Program Unit := do
  let assigned : List String ← act .assigned
  each recoverPendingTask assigned

section Loops

variable (concurrency : ℕ)

/-- A task that the loop has not seen: it is claimed, and executed in the thread
pool or, without one, in the loop. -/
def startTask (taskId : String) (record : Json) : Program Unit := do
  act (.memory (.see taskId))
  if 1 < concurrency then do
    act (.mark taskId)
    act (.submit taskId record)
  else executeAndReport taskId record

/-- An assigned task. -/
def pollTask (taskId : String) : Program Unit := do
  let record : Json ← act (.record taskId)
  match record with
  | .null => pure ()
  | record => do
    let st ← getStatus record
    if passedOver st then act (.memory (.see taskId))
    else do
      let seen : Bool ← act (.memory (.hasSeen taskId))
      if seen then pure () else startTask concurrency taskId record

/-- Whether a process with a thread pool has no slot left. -/
def full : Program Bool :=
  if 1 < concurrency then act (.memory (.full concurrency)) else pure false

/-- The assigned tasks in turn, while there are slots. -/
def pollTasks : List String → Program Unit
  | [] => pure ()
  | taskId :: taskIds => do
    let stopped : Bool ← act .stopped
    if stopped then pure ()
    else do
      let isFull ← full concurrency
      if isFull then pure ()
      else do
        pollTask concurrency taskId
        pollTasks taskIds

/-- A turn of the polling loop. -/
def pollTick : Program Unit := do
  let assigned : List String ← act .assigned
  pollTasks concurrency assigned

/-- The first turns of `_polling_loop`; one that raises is over. -/
def pollingLoop : ℕ → Program Unit
  | 0 => pure ()
  | n + 1 => do
    let stopped : Bool ← act .stopped
    if stopped then pure ()
    else do
      let _ ← attempt (pollTick concurrency)
      pollingLoop n

/-- `_send_heartbeat`. -/
def sendHeartbeat : Program Unit := do
  let pending : ℕ ← act (.memory .pending)
  act (.heartbeat pending)

/-- The first turns of `_heartbeat_loop`. -/
def heartbeatLoop : ℕ → Program Unit
  | 0 => pure ()
  | n + 1 => do
    let stopped : Bool ← act .stopped
    if stopped then pure ()
    else do
      sendHeartbeat
      heartbeatLoop n

/-- `run`, with the first `n` turns of the polling loop. -/
def run (n : ℕ) : Program Unit := do
  sendHeartbeat
  let _ ← attempt recoverPendingTasks
  pollingLoop concurrency n

end Loops

/-! ### The process -/

/-- What the requests and the executions give, by the number of operations
before. -/
structure Answers where
  assigned : ℕ → List String
  record : ℕ → String → Json
  execute : ℕ → String → Json → Except String ExecutionResult
  complete : ℕ → String → Bool

/-- The state of a process, and the number of operations so far. -/
structure World where
  memory : Memory
  stopped : Bool
  operations : ℕ

namespace World

/-- `Worker.__init__`. -/
def init : World := ⟨.init, false, 0⟩

def tick (w : World) : World := { w with operations := w.operations + 1 }

def call (w : World) (c : Memory.Call) : c.Res × World :=
  ((Memory.call c w.memory).1, { w.tick with memory := (Memory.call c w.memory).2 })

end World

/-- How an operation is answered. -/
def handle (answers : Answers) : (o : Op) → World → o.Res × World
  | .stopped, w => (w.stopped, w.tick)
  | .assigned, w => (answers.assigned w.operations, w.tick)
  | .record taskId, w => (answers.record w.operations taskId, w.tick)
  | .memory c, w => w.call c
  | .mark taskId, w => w.call (.begin taskId)
  | .submit .., w => ((), w.tick)
  | .execute taskId record, w => (answers.execute w.operations taskId record, w.tick)
  | .complete taskId .., w => (answers.complete w.operations taskId, w.tick)
  | .heartbeat _, w => ((), w.tick)

/-- Where the main thread stands in starting a task: at none, between marking a
task and submitting it, or executing one itself. -/
inductive Stage
  | idle
  | marked (taskId : String)
  | inline (taskId : String)
deriving DecidableEq

/-- What the main thread last found out about a task it is about to start. -/
inductive Check
  | nothing
  | unseen (taskId : String)
  | fresh (taskId : String)
  | claimed (taskId : String)
deriving DecidableEq

/-- What the main thread has done: the status of each task as it was last read,
and what it knows of the task it is about to start. -/
structure Main where
  lastRead : String → Option Json
  stage : Stage
  check : Check
  room : Bool
  pooled : Bool

/-- The threads: the main thread, the executions in the pool, each released when its
task has left the in-flight set, and the heartbeats. -/
inductive Role
  | main (g : Main)
  | execution (taskId : String) (released : Bool)
  | heartbeats

/-- What a thread has done, with one operation more. -/
def Role.note : Role → (o : Op) → o.Res → Role
  | .main g, .record taskId, record =>
    .main { g with lastRead := Function.update g.lastRead taskId (status record) }
  | .main g, .memory (.full _), isFull => .main { g with room := !isFull }
  | .main g, .memory (.hasSeen taskId), seen =>
    .main { g with check := if seen then .nothing else .unseen taskId }
  | .main g, .memory (.see taskId), _ =>
    .main { g with check := if g.check = .unseen taskId then .fresh taskId else .claimed taskId }
  | .main g, .mark taskId, _ =>
    .main { g with stage := .marked taskId, check := .nothing, room := false }
  | .main g, .submit .., _ => .main { g with stage := .idle, pooled := true }
  | .main g, .memory (.begin taskId), _ =>
    .main { g with stage := .inline taskId, check := .nothing, room := false }
  | .main g, .memory (.finish _), _ => .main { g with stage := .idle }
  | .execution taskId _, .memory (.finish _), _ => .execution taskId true
  | r, _, _ => r

/-- The threads of a process on its state. -/
def system (answers : Answers) : System Op Op.Res String Unit Role World where
  handle := handle answers
  enabled _ _ := true
  note := Role.note
  launch
    | .submit taskId record => some ⟨.execution taskId false, executeAndReport taskId record⟩
    | _ => none

/-- The heartbeat thread. -/
def Enters (t : Thread Op Op.Res String Unit Role) : Prop :=
  ∃ n, t = ⟨.heartbeats, heartbeatLoop n⟩

/-- A process that starts: the main thread, in the slot `i₀`. -/
def start {ι : Type} [DecidableEq ι] (i₀ : ι) (concurrency n : ℕ) :
    Pool ι Op Op.Res String Unit Role World where
  threads := Function.update (fun _ => none) i₀
    (some ⟨.main ⟨fun _ => none, .idle, .nothing, false, false⟩, run concurrency n⟩)
  world := .init

end WorkerProcess
end Server
end ChordInfra
