/-
# Failure recovery

`chord/recovery.py`: the choice of a recovery path, the recovery of one task, and the
scans with their five detectors.

A scan is a program over the operations of `ScanOp`, of which the recovery of a task
is one: so it can be run at two grains, with every operation of the world a step
(`scan`), or with every operation of the scan a step.

The events for the timeline are left out.  A set of texts has no order of its own, so
the order in which a scan goes through one is an argument (`SetOrder`).
-/

import ChordInfra.Server.Handlers

namespace ChordInfra
namespace Server

open Interact Prog
open Storage

/-- `RECOVERY_WAIT_SECONDS`, in milliseconds. -/
def recoveryWait : ℕ := 30000

/-- The wait after a worker was spawned, in milliseconds. -/
def shortWait : ℕ := 6000

/-- The recovery paths. -/
inductive Path
  | retrySame | retryDifferent | waitAndRetry | giveUp
deriving DecidableEq, Repr

/-- `choose_recovery_path`; a record that never failed has no failure type. -/
def chooseRecoveryPath (record : ResultRecord) (failureType : Option FailureType)
    (hasLiveWorkers : Bool) : Path :=
  if record.maxAttempts ≤ record.attemptCount then .giveUp
  else
    match failureType with
    | some .taskTimeout => if hasLiveWorkers then .retryDifferent else .waitAndRetry
    | some .workerCrash => if hasLiveWorkers then .retryDifferent else .waitAndRetry
    | some .taskFailure =>
      if record.retryOnFailure then if hasLiveWorkers then .retryDifferent else .waitAndRetry
      else .giveUp
    | none => .giveUp

/-! ### What a recovery writes -/

/-- `original is not None and not isinstance(original, str)`. -/
def keepsResult : Json → Bool
  | .null | .str _ => false
  | _ => true

/-- The record of a task that is given up. -/
def gaveUp (record : ResultRecord) (failureType : Option FailureType) (now : ℕ) : ResultRecord :=
  { record with
    lastFailureReason := failureType
    updatedAt := now
    status := .failure
    workerResult := if keepsResult record.result then some record.result else record.workerResult
    result := .str ("Permanently failed after " ++ toString record.attemptCount ++ " attempt(s)")
    recoveryHistory := record.recoveryHistory ++ [.giveUp] }

/-- The record of a task that waits for a retry. -/
def waiting (record : ResultRecord) (failureType : Option FailureType) (now retryAt : ℕ)
    (entry : HistoryEntry) : ResultRecord :=
  { record with
    lastFailureReason := failureType
    updatedAt := now
    waiting := true
    retryAt := some retryAt
    recoveryHistory := record.recoveryHistory ++ [entry] }

/-- The entry of a retry in the history. -/
def retryEntry (path : Path) (worker : String) : HistoryEntry :=
  match path with
  | .retrySame => .retrySame worker
  | _ => .retryDifferent worker

/-- The record of a task that is queued again. -/
def requeued (record : ResultRecord) (failureType : Option FailureType) (now : ℕ) (path : Path)
    (worker : String) : ResultRecord :=
  { record with
    lastFailureReason := failureType
    updatedAt := now
    attemptCount := record.attemptCount + 1
    workerId := worker
    status := .pending
    waiting := false
    retryAt := none
    timedOut := false
    recoveryHistory := record.recoveryHistory ++ [retryEntry path worker] }

/-- The record of a waiting task when its time has come. -/
def cleared (record : ResultRecord) (now : ℕ) : ResultRecord :=
  { record with waiting := false, retryAt := none, updatedAt := now }

/-- The best worker other than the one that failed, or else the best one. -/
def otherWorker (current : String) (scored : List (String × ℚ)) : Option String :=
  match scored.filter fun e => e.1 ≠ current with
  | (worker, _) :: _ => some worker
  | [] => scored.head?.map Prod.fst

section Recover

variable (cfg : Config) (s : Service)

/-- `_safe_get`. -/
def safeGet (taskId : String) : M (Option ResultRecord) := do
  match ← attempt (ResultService.get s taskId) with
  | .ok record => pure record
  | .error _ => pure none

/-- `_safe_put`. -/
def safePut (taskId : String) (record : ResultRecord) : M Unit := do
  let _ ← attempt (ResultService.put s taskId record)
  pure ()

/-- The worker of a retry. -/
def retryWorker (path : Path) (current : String) (scored : List (String × ℚ)) :
    M (Option String) :=
  match path with
  | .retrySame => do
    let live : Bool ← if current = "" then pure false
      else act (.registry s.node.address (.isLive current))
    pure (if live then some current else scored.head?.map Prod.fst)
  | _ => pure (otherWorker current scored)

/-- The task taken out of the list of its old worker. -/
def unlist (taskId oldWorker newWorker : String) : M Unit :=
  if oldWorker ≠ "" ∧ oldWorker ≠ newWorker then do
    let _ ← attempt (WorkerAssignment.remove s oldWorker taskId)
    pure ()
  else pure ()

/-- The retry branch of `_execute`. -/
def executeRetry (record : ResultRecord) (path : Path) (failureType : Option FailureType)
    (scored : List (String × ℚ)) (now : ℕ) : M Unit := do
  match ← retryWorker s path record.workerId scored with
  | none => do
    let time : ℕ ← act .now
    safePut s record.taskId (waiting record failureType now (time + recoveryWait)
      (.noWorkers (time + recoveryWait)))
  | some worker => do
    safePut s record.taskId (requeued record failureType now path worker)
    unlist s record.taskId record.workerId worker
    let _ ← attempt (WorkerAssignment.append s worker record.taskId)
    pure ()

/-- `_execute`. -/
def execute (record : ResultRecord) (path : Path) (failureType : Option FailureType)
    (scored : List (String × ℚ)) (justSpawned : Bool) : M Unit := do
  let now : ℕ ← act .now
  match path with
  | .giveUp => safePut s record.taskId (gaveUp record failureType now)
  | .waitAndRetry => do
    let time : ℕ ← act .now
    let retryAt := time + if justSpawned then shortWait else recoveryWait
    safePut s record.taskId (waiting record failureType now retryAt (.waitAndRetry retryAt))
  | _ => executeRetry s record path failureType scored now

/-- `_on_no_workers`, at most once in a while: whether a worker was spawned. -/
def spawnWorker : M Bool := do
  let due : Bool ← act (.manager s.node.address .spawnDue)
  if due ∧ cfg.spawned.isSome then do
    act (.spawn (.rebalance s.node))
    pure true
  else pure false

/-- The recovery of a record read anew. -/
def recoverFresh (fresh : ResultRecord) (failureType : Option FailureType) : M Unit := do
  let scored : List (String × ℚ) ← act (.registry s.node.address .scoreAllWorkers)
  let justSpawned ← if scored.isEmpty && cfg.autospawn then spawnWorker cfg s else pure false
  execute s fresh (chooseRecoveryPath fresh failureType !scored.isEmpty) failureType scored
    justSpawned

/-- The part of `_attempt_recovery` that no other scan does for the same task. -/
def recoverClaimed (taskId : String) (failureType : Option FailureType) : M Unit := do
  match ← safeGet s taskId with
  | none => pure ()
  | some fresh =>
    if fresh.waiting ∨ fresh.status = .success then pure ()
    else recoverFresh cfg s fresh failureType

/-- `_attempt_recovery`. -/
def attemptRecovery (record : ResultRecord) (failureType : Option FailureType) : M Unit :=
  if record.taskId = "" then pure ()
  else do
    let claimed : Bool ← act (.manager s.node.address (.claim record.taskId))
    if claimed then do
      let _ ← attempt (recoverClaimed cfg s record.taskId failureType)
      act (.manager s.node.address (.discard record.taskId))
    else pure ()

/-- What `_retry_waiting_tasks` does for a record whose time has come. -/
def retryWaiting (record : ResultRecord) : M Unit := do
  let now : ℕ ← act .now
  safePut s record.taskId (cleared record now)
  attemptRecovery cfg s (cleared record now) record.lastFailureReason

/-- `_all_ht1_records`. -/
def allHt1Records : M (List ResultRecord) := do
  let items : List (Key × Value) ← act (.items s.node.address)
  pure (items.filterMap fun e =>
    match e with
    | (.result _, .result record) => some record
    | _ => none)

end Recover

/-! ### Scans -/

/-- What a scan does. -/
inductive ScanOp
  | liveWorkers
  | allWorkers
  | isLive (workerId : String)
  /-- The list of a worker. -/
  | assigned (workerId : String)
  | read (taskId : String)
  | records
  | now
  | recover (record : ResultRecord) (failureType : FailureType)
  | retry (record : ResultRecord)

namespace ScanOp

/-- What an operation of a scan ends with. -/
@[reducible] def Val : ScanOp → Type
  | liveWorkers => List String
  | allWorkers => List (String × ℤ × ℤ)
  | isLive _ => Bool
  | assigned _ => List String
  | read _ => Option ResultRecord
  | records => List ResultRecord
  | now => ℕ
  | recover .. | retry _ => Unit

/-- The program of an operation of a scan of the manager of a node. -/
def program (cfg : Config) (s : Service) : (o : ScanOp) → M o.Val
  | liveWorkers => act (.registry s.node.address .liveWorkers)
  | allWorkers => act (.registry s.node.address .allWorkers)
  | isLive workerId => act (.registry s.node.address (.isLive workerId))
  | assigned workerId => WorkerAssignment.get s workerId
  | read taskId => safeGet s taskId
  | records => allHt1Records s
  | now => act .now
  | recover record failureType => attemptRecovery cfg s record (some failureType)
  | retry record => retryWaiting cfg s record

end ScanOp

/-- The programs of scans. -/
abbrev Scan := Prog ScanOp (fun o => Except Exc o.Val) Exc

/-- One operation of a scan; an exception of its program ends the scan. -/
abbrev Scan.act (o : ScanOp) : Scan o.Val := call o

/-- An order in which a set of texts is gone through. -/
structure SetOrder where
  order : List String → List String
  perm : ∀ l, (order l).Perm l

namespace RecoveryManager

/-- The task of the list of a dead worker. -/
def crashedTask (taskId : String) : Scan Unit := do
  let record : Option ResultRecord ← Scan.act (.read taskId)
  match record with
  | some record =>
    if record.status = .pending ∨ record.status = .running then
      Scan.act (.recover record .workerCrash)
    else pure ()
  | none => pure ()

/-- The tasks of the list of a dead worker. -/
def crashedWorker (workerId : String) : Scan Unit := do
  let taskIds : List String ← Scan.act (.assigned workerId)
  each crashedTask taskIds

/-- `_detect_worker_crashes`. -/
def detectWorkerCrashes (o : SetOrder) : Scan Unit := do
  let live : List String ← Scan.act .liveWorkers
  let seen : List (String × ℤ × ℤ) ← Scan.act .allWorkers
  each crashedWorker (o.order ((seen.map Prod.fst).filter fun w => w ∉ live))

/-- A record that `_detect_timed_out_tasks` takes up. -/
def TimedOut (record : ResultRecord) : Prop :=
  record.status = .failure ∧ record.timedOut = true ∧ record.waiting = false ∧
    record.recoveryHistory = []

/-- A record that `_detect_failed_tasks` takes up. -/
def Failed (record : ResultRecord) : Prop :=
  record.status = .failure ∧ record.timedOut = false ∧ record.waiting = false ∧
    .giveUp ∉ record.recoveryHistory

/-- A record that `_retry_waiting_tasks` takes up. -/
def Due (now : ℕ) (record : ResultRecord) : Prop :=
  record.waiting = true ∧ ∃ t ∈ record.retryAt, t ≤ now

instance (record : ResultRecord) : Decidable (TimedOut record) :=
  inferInstanceAs (Decidable (_ ∧ _ ∧ _ ∧ _))

instance (record : ResultRecord) : Decidable (Failed record) :=
  inferInstanceAs (Decidable (_ ∧ _ ∧ _ ∧ _))

instance (now : ℕ) (record : ResultRecord) : Decidable (Due now record) :=
  inferInstanceAs (Decidable (_ ∧ _))

/-- A record of which a detector asks no more than what it says itself. -/
def takeUp (p : ResultRecord → Bool) (failureType : FailureType) (record : ResultRecord) :
    Scan Unit :=
  if p record then Scan.act (.recover record failureType) else pure ()

/-- `_detect_timed_out_tasks`. -/
def detectTimedOutTasks : Scan Unit := do
  let records : List ResultRecord ← Scan.act .records
  each (takeUp (fun record => TimedOut record) .taskTimeout) records

/-- `_detect_failed_tasks`. -/
def detectFailedTasks : Scan Unit := do
  let records : List ResultRecord ← Scan.act .records
  each (takeUp (fun record => Failed record) .taskFailure) records

/-- A record under the eyes of `_detect_stuck_tasks`. -/
def stuckTask (record : ResultRecord) : Scan Unit :=
  if (record.status = .pending ∨ record.status = .running) ∧ record.workerId ≠ "" then do
    let live : Bool ← Scan.act (.isLive record.workerId)
    if live then pure () else Scan.act (.recover record .workerCrash)
  else pure ()

/-- `_detect_stuck_tasks`. -/
def detectStuckTasks : Scan Unit := do
  let records : List ResultRecord ← Scan.act .records
  each stuckTask records

/-- A record under the eyes of `_retry_waiting_tasks`. -/
def waitingTask (now : ℕ) (record : ResultRecord) : Scan Unit :=
  if Due now record then Scan.act (.retry record) else pure ()

/-- `_retry_waiting_tasks`. -/
def retryWaitingTasks : Scan Unit := do
  let now : ℕ ← Scan.act .now
  let records : List ResultRecord ← Scan.act .records
  each (waitingTask now) records

/-- `_scan`. -/
def scan (o : SetOrder) : Scan Unit := do
  detectWorkerCrashes o
  detectTimedOutTasks
  detectFailedTasks
  detectStuckTasks
  retryWaitingTasks

/-- `trigger`, and one turn of the recovery loop, which also goes on when the scan
raises. -/
def trigger (cfg : Config) (s : Service) (o : SetOrder) : M Unit := do
  let _ ← attempt (expand (ScanOp.program cfg s) (scan o))
  pure ()

end RecoveryManager

end Server
end ChordInfra
