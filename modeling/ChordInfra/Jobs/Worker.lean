/-
# The worker thread of a node

`chord/job.py` and `chord/worker.py`: a thread of each node scans the node's
store for pending jobs, claims them and has a pool of threads run them, and
re-queues the jobs that have been running for too long.

Every block under the node's lock is one operation, and so is an execution,
which ends as the environment says.  A world has the jobs of the store, the two
counters, and the history of the starts and of the counted jobs.
-/

import ChordInfra.Dict.Basic
import ChordInfra.Interact.Pool
import ChordInfra.Storage.Json
import Mathlib.Data.String.Basic

namespace ChordInfra
namespace Jobs

open Interact
open Storage (Json)

/-- The status of a job. -/
inductive Status
  | pending | claimed | running | done | failed
deriving DecidableEq, Repr

/-- Done or failed. -/
def Status.Final : Status → Prop
  | done | failed => True
  | _ => False

instance : DecidablePred Status.Final
  | .done | .failed => isTrue trivial
  | .pending | .claimed | .running => isFalse id

/-- A job; `retry_count` is zero where the key is missing, and `replicaOf` is `none` where
`replica_of` is missing or `None`. -/
structure Job where
  jobId : String
  type : String
  payload : Json
  status : Status
  createdAt : ℕ
  claimedBy : Option String
  startedAt : Option ℕ
  finishedAt : Option ℕ
  result : Json
  error : Option String
  retryCount : ℕ
  replicaOf : Option String

/-- `make_job`. -/
def makeJob (jobType : String) (payload : Json) (jobId : String) (now : ℕ) : Job where
  jobId
  type := jobType
  payload
  status := .pending
  createdAt := now
  claimedBy := none
  startedAt := none
  finishedAt := none
  result := .null
  error := none
  retryCount := 0
  replicaOf := none

/-- `JOB_TIMEOUT`. -/
def jobTimeout : ℕ := 120000

/-- `MAX_JOB_RETRIES`. -/
def maxJobRetries : ℕ := 3

/-! ### What the blocks do to a job -/

namespace Job

/-- The block of `_try_claim`. -/
def claim (address : String) (now : ℕ) (j : Job) : Job :=
  { j with status := .claimed, claimedBy := some address, startedAt := some now }

/-- The first block of `_run_job`. -/
def start (j : Job) : Job := { j with status := .running }

/-- The block after an execution that ended with a value. -/
def finish (result : Json) (now : ℕ) (j : Job) : Job :=
  { j with status := .done, finishedAt := some now, result }

/-- The block after the retry delay. -/
def requeue (nextRetry : ℕ) (e : String) (j : Job) : Job :=
  { j with
    status := .pending
    retryCount := nextRetry
    startedAt := none
    error := some (s!"attempt {nextRetry} failed: " ++ e) }

/-- The block after the last execution that raised. -/
def giveUp (e : String) (now : ℕ) (j : Job) : Job :=
  { j with status := .failed, finishedAt := some now, error := some e }

/-- A running job that exceeded `JOB_TIMEOUT`; one without a start, or with the start zero,
is as if started now. -/
def TimedOut (now : ℕ) (j : Job) : Prop :=
  j.status = .running ∧ ∃ t ∈ j.startedAt, t ≠ 0 ∧ jobTimeout < now - t

instance (now : ℕ) (j : Job) : Decidable (j.TimedOut now) :=
  inferInstanceAs (Decidable (_ ∧ _))

/-- Timed out, with no retry left. -/
def Exhausted (now : ℕ) (j : Job) : Prop := j.TimedOut now ∧ ¬j.retryCount < maxJobRetries

instance (now : ℕ) (j : Job) : Decidable (j.Exhausted now) :=
  inferInstanceAs (Decidable (_ ∧ _))

/-- What `_reap_timed_out_jobs` makes of a job. -/
def reap (now : ℕ) (j : Job) : Job :=
  if j.TimedOut now then
    if j.retryCount < maxJobRetries then
      { j with
        status := .pending
        retryCount := j.retryCount + 1
        startedAt := none
        error := some s!"timed out after 120s (retry {j.retryCount + 1}/{maxJobRetries})" }
    else
      { j with
        status := .failed
        finishedAt := some now
        error := some s!"timed out after 120s (exhausted {maxJobRetries} retries)" }
  else j

end Job

/-! ### Operations -/

/-- The operations of the threads, on the jobs of the store by their keys. -/
inductive Op
  /-- The keys of the pending jobs. -/
  | scan
  | tryClaim (key : String)
  /-- `self._executor.submit(self._run_job, key, job)`. -/
  | submit (key : String)
  /-- `_reap_timed_out_jobs`. -/
  | reap
  | start (key : String)
  /-- `_execute`. -/
  | execute (key : String)
  | finish (key : String) (result : Json)
  /-- `node.jobs_completed += 1`. -/
  | countCompleted (key : String)
  | retryCount (key : String)
  | requeue (key : String) (nextRetry : ℕ) (e : String)
  | giveUp (key : String) (e : String)
  /-- `node.jobs_failed += 1`. -/
  | countFailed (key : String)

/-- What an operation is answered. -/
@[reducible] def Op.Res : Op → Type
  | scan => List String
  | tryClaim _ => Bool
  | execute _ => Except String Json
  | retryCount _ => ℕ
  | _ => Unit

/-- The programs of the threads; none of them raises. -/
abbrev M := Prog Op Op.Res Empty

/-- One operation. -/
abbrev act (o : Op) : M o.Res := Prog.perform o

/-- The clock and the executions, by the number of operations so far, and the address
of the node. -/
structure Env where
  now : ℕ → ℕ
  execute : ℕ → String → Except String Json
  address : String

/-- The jobs of a node's store and its counters, with the number of operations so far
and the keys of the starts and of the counted jobs, latest first. -/
structure World where
  jobs : Dict String Job
  jobsCompleted : ℕ
  jobsFailed : ℕ
  steps : ℕ
  started : List String
  counted : List String

namespace World

/-- One more operation. -/
def tick (w : World) : World := { w with steps := w.steps + 1 }

/-- A job changed where it is there. -/
def change (w : World) (key : String) (f : Job → Job) : World :=
  match w.jobs.get key with
  | some j => { w with jobs := w.jobs.set key (f j) }
  | none => w

/-- The block of `_try_claim`, with whether the job was claimed. -/
def tryClaim (w : World) (key address : String) (now : ℕ) : Bool × World :=
  match w.jobs.get key with
  | some j => if j.status = .pending then (true, w.change key (Job.claim address now)) else (false, w)
  | none => (false, w)

/-- The keys of the jobs that the reaper fails. -/
def exhausted (w : World) (now : ℕ) : List String :=
  (w.jobs.entries.filter fun e => e.2.Exhausted now).map Prod.fst

/-- All jobs after the reaper. -/
def reap (w : World) (now : ℕ) : World :=
  { w with
    jobs := w.jobs.mapValues (Job.reap now)
    jobsFailed := w.jobsFailed + (w.exhausted now).length
    counted := w.exhausted now ++ w.counted }

end World

/-- What an operation does to the world, and its answer. -/
def handle (env : Env) : (o : Op) → World → o.Res × World
  | .scan, w =>
    ((w.jobs.entries.filter fun e => e.2.status = .pending).map Prod.fst, w.tick)
  | .tryClaim key, w =>
    ((w.tryClaim key env.address (env.now w.steps)).1,
      (w.tryClaim key env.address (env.now w.steps)).2.tick)
  | .submit _, w => ((), w.tick)
  | .reap, w => ((), (w.reap (env.now w.steps)).tick)
  | .start key, w => ((), { w.change key Job.start with started := key :: w.started }.tick)
  | .execute key, w => (env.execute w.steps key, w.tick)
  | .finish key result, w => ((), (w.change key (Job.finish result (env.now w.steps))).tick)
  | .countCompleted key, w =>
    ((), { w with jobsCompleted := w.jobsCompleted + 1, counted := key :: w.counted }.tick)
  | .retryCount key, w =>
    (((w.jobs.get key).map Job.retryCount).getD maxJobRetries, w.tick)
  | .requeue key nextRetry e, w => ((), (w.change key (Job.requeue nextRetry e)).tick)
  | .giveUp key e, w => ((), (w.change key (Job.giveUp e (env.now w.steps))).tick)
  | .countFailed key, w =>
    ((), { w with jobsFailed := w.jobsFailed + 1, counted := key :: w.counted }.tick)

theorem handle_tryClaim (env : Env) (key : String) (w : World) :
    handle env (.tryClaim key) w = ((w.tryClaim key env.address (env.now w.steps)).1,
      (w.tryClaim key env.address (env.now w.steps)).2.tick) := rfl

/-! ### Threads -/

/-- The claims of `_scan_and_claim`. -/
def claimAll : List String → M Unit
  | [] => pure ()
  | key :: keys => do
    let claimed : Bool ← act (.tryClaim key)
    if claimed then do
      act (.submit key)
      claimAll keys
    else claimAll keys

/-- `_scan_and_claim`. -/
def scanAndClaim : M Unit := do
  let pending : List String ← act .scan
  claimAll pending

/-- One round of the loop of `run`. -/
def round : M Unit := do
  scanAndClaim
  act .reap

/-- `_run_job`; the retry delay is before the job is re-queued. -/
def runJob (key : String) : M Unit := do
  act (.start key)
  let outcome : Except String Json ← act (.execute key)
  match outcome with
  | .ok result => do
    act (.finish key result)
    act (.countCompleted key)
  | .error e => do
    let retryCount : ℕ ← act (.retryCount key)
    if retryCount < maxJobRetries then act (.requeue key (retryCount + 1) e)
    else do
      act (.giveUp key e)
      act (.countFailed key)

end Jobs
end ChordInfra
