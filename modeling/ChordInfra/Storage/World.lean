/-
# The world the services run in

The processes of the ring share nothing but messages.  A world is the store, the
per-key locks, the worker registry and the recovery manager of each node, found by
the node's address, the memory of each task worker, and the history of the
operations performed so far.

What the code does not decide is the environment's: whether a request arrives
and its reply comes back, what a lookup answers, which successor a node reports,
the clock, fresh ids and how a task's execution ends.  Each may answer
differently every time, so each is a function of the number of operations
performed so far.

A request is served in one step where its handler does one thing to the store
of the node that serves it (`Request`).  The handlers that do more (`Call`) are
programs of their own.  Keys and ids reach the handlers as they are; which of them a URL
leaves as they are is said in `Storage.Routes`, and `Storage.OverHttp` has the requests of an
assignment served by their URLs.
-/

import ChordInfra.Interact.Prog
import ChordInfra.Storage.Record
import ChordInfra.Workers.Manager
import ChordInfra.Workers.Registry
import Mathlib.Logic.Function.Basic

namespace ChordInfra
namespace Storage

open Interact (Prog)
open ChordInfra.Ring (NodeRef)
open Workers (Registry Manager Memory Process)

/-- Where a process is reached. -/
abbrev Address := String

/-! ### Requests -/

/-- What became of a request: served and answered, never arrived, or served
while its answer got lost. -/
inductive Delivery
  | delivered | lost | replyLost
deriving DecidableEq, Repr

/-- The requests whose handler does one thing to the store. -/
inductive Request
  /-- `GET /chord/state`, of which only `successor` is used. -/
  | getState
  /-- `GET /data/<key>`. -/
  | get (k : Key)
  /-- `POST /data/<key>`. -/
  | put (k : Key) (v : Value)
  /-- `DELETE /data/<key>`. -/
  | delete (k : Key)
  /-- `GET /internal/…/replica/…`. -/
  | getReplica (k : Key)
  /-- `POST /internal/…/replica/…`. -/
  | putReplica (k : Key) (v : Value)
  /-- `DELETE /internal/…/replica/…`. -/
  | deleteReplica (k : Key)

/-- What the transport makes of the answer. -/
@[reducible] def Request.Reply : Request → Type
  | getState => Option NodeRef
  | get _ | getReplica _ => Option Value
  | put .. | putReplica .. | deleteReplica _ => Unit
  | delete _ => Bool

/-- The requests whose handler is a program. -/
inductive Call
  /-- `POST /internal/workers/append/<worker_id>`. -/
  | append (workerId taskId : String)
  /-- `GET /debug/worker-tasks/<worker_id>`. -/
  | workerTasks (workerId : String)
  /-- `GET /debug/result-record/<task_id>`. -/
  | resultRecord (taskId : String)
  /-- `POST /internal/results/<task_id>/complete`. -/
  | complete (taskId : String) (status result : Json)
  /-- `POST /workers/heartbeat`. -/
  | heartbeat (workerId : String) (pendingTasks : ℕ) (timestamp : ℕ) (processToken : String)

/-! ### Operations -/

/-- How an execution of a task ended. -/
structure ExecutionResult where
  exitCode : ℤ
  stdout : String
  stderr : String
  durationMs : ℕ
  timedOut : Bool

/-- The threads that the handlers start. -/
inductive Job
  /-- The delayed HT2 cleanup of `result_complete`. -/
  | cleanup (node : NodeRef) (workerId taskId : String)
  /-- `_rebalance_after_spawn`. -/
  | rebalance (node : NodeRef)
  /-- An execution in a worker's thread pool. -/
  | execute (process : Process) (taskId : String) (record : ResultRecord)

/-- The operations of the programs. -/
inductive Op
  /-- `node.get`, `node.put` and `node.delete` at the process itself. -/
  | get (a : Address) (k : Key)
  | put (a : Address) (k : Key) (v : Value)
  | delete (a : Address) (k : Key)
  /-- A copy of the process's own store. -/
  | items (a : Address)
  /-- Taking and releasing `_key_lock`. -/
  | lock (a : Address) (k : Key)
  | unlock (a : Address) (k : Key)
  /-- A request to the process at `a`. -/
  | rpc (a : Address) (r : Request)
  /-- A call to the process at `a`, without what its handler does. -/
  | deliver (a : Address) (c : Call)
  /-- `node.find_successor(sha1_id(key))`. -/
  | findSuccessor (a : Address) (k : Key)
  | now
  | newId
  | registry (a : Address) (c : Registry.Call)
  | manager (a : Address) (c : Manager.Call)
  | memory (process : Process) (c : Memory.Call)
  | spawn (j : Job)
  /-- `run_task` in a worker process. -/
  | execute (process : Process) (taskId : String) (record : ResultRecord)

/-- What an operation is answered; a request that raises is answered `none`. -/
@[reducible] def Op.Res : Op → Type
  | get .. => Option Value
  | put .. => Unit
  | delete .. => Bool
  | items _ => List (Key × Value)
  | lock .. | unlock .. => Unit
  | rpc _ r => Option r.Reply
  | deliver .. => Delivery
  | findSuccessor .. => NodeRef
  | now => ℕ
  | newId => String
  | registry _ c => c.Res
  | manager _ c => c.Res
  | memory _ c => c.Res
  | spawn _ => Unit
  | execute .. => Except String ExecutionResult

/-- The programs of the services. -/
abbrev M := Prog Op Op.Res Exc

/-- One operation. -/
abbrev act (o : Op) : M o.Res := Prog.perform o

/-- What the code does not decide, by the number of operations so far. -/
structure Env where
  deliver : ℕ → Address → Request → Delivery
  deliverCall : ℕ → Address → Call → Delivery
  findSuccessor : ℕ → Address → Key → NodeRef
  successor : ℕ → Address → Option NodeRef
  now : ℕ → ℕ
  newId : ℕ → String
  execute : ℕ → String → Except String ExecutionResult

/-! ### Worlds -/

/-- The stores of the processes. -/
abbrev Stores := Address → Dict Key Value

namespace Stores

/-- `data_store[k] = v` at a process. -/
def put (s : Stores) (a : Address) (k : Key) (v : Value) : Stores :=
  Function.update s a ((s a).set k v)

/-- `data_store.pop(k, None)` at a process. -/
def delete (s : Stores) (a : Address) (k : Key) : Stores :=
  Function.update s a ((s a).erase k)

theorem get_put (s : Stores) (a a' : Address) (k k' : Key) (v : Value) :
    (s.put a k v a').get k' = if a' = a ∧ k' = k then some v else (s a').get k' := by
  unfold put
  by_cases ha : a' = a
  · subst ha
    simp [Dict.get_set]
  · simp [ha]

theorem get_delete (s : Stores) (a a' : Address) (k k' : Key) :
    (s.delete a k a').get k' = if a' = a ∧ k' = k then none else (s a').get k' := by
  unfold delete
  by_cases ha : a' = a
  · subst ha
    simp [Dict.get_erase]
  · simp [ha]

/-- Deleting what is not there changes nothing. -/
theorem delete_eq_self {s : Stores} {a : Address} {k : Key} (h : (s a).get k = none) :
    s.delete a k = s := by
  unfold delete
  rw [Dict.erase_eq_self h, Function.update_eq_self]

@[simp] theorem get_put_self (s : Stores) (a : Address) (k : Key) (v : Value) :
    (s.put a k v a).get k = some v := by
  simp [get_put]

@[simp] theorem get_delete_self (s : Stores) (a : Address) (k : Key) :
    (s.delete a k a).get k = none := by
  simp [get_delete]

end Stores

/-- The state of the processes and the operations performed, latest first, each
with what became of its request (`delivered` when it has none). -/
structure World where
  stores : Stores
  locked : Address → Key → Bool
  registries : Address → Registry
  managers : Address → Manager
  memories : Process → Memory
  trace : List (Op × Delivery)

namespace World

/-- What a request does to the store of the process that serves it. -/
def serve (s : Stores) (a : Address) : Request → Stores
  | .put k v | .putReplica k v => s.put a k v
  | .delete k | .deleteReplica k => s.delete a k
  | .getState | .get _ | .getReplica _ => s

/-- What the process that serves a request answers.  `get_replica_local` shows
what is kept under a task's key only when it is a task. -/
def answer (env : Env) (w : World) (a : Address) : (r : Request) → r.Reply
  | .getState => env.successor w.trace.length a
  | .get k => (w.stores a).get k
  | .getReplica (.task id) => ((w.stores a).get (.task id)).bind fun v => v.asTask.map .task
  | .getReplica k => (w.stores a).get k
  | .delete k => ((w.stores a).get k).isSome
  | .put .. | .putReplica .. | .deleteReplica _ => ()

/-- A request with what becomes of it. -/
def rpc (env : Env) (a : Address) (r : Request) (w : World) : Option r.Reply × World :=
  let d := env.deliver w.trace.length a r
  (if d = .delivered then some (answer env w a r) else none,
    { w with
      stores := if d = .lost then w.stores else serve w.stores a r
      trace := (.rpc a r, d) :: w.trace })

/-- The operation is added to the history. -/
def did (w : World) (o : Op) (d : Delivery) : World := { w with trace := (o, d) :: w.trace }

end World

/-- What an operation does to the world, and its answer. -/
def handle (env : Env) : (o : Op) → World → o.Res × World
  | .get a k, w => ((w.stores a).get k, w.did (.get a k) .delivered)
  | .put a k v, w =>
    ((), { w with stores := w.stores.put a k v }.did (.put a k v) .delivered)
  | .delete a k, w =>
    (((w.stores a).get k).isSome,
      { w with stores := w.stores.delete a k }.did (.delete a k) .delivered)
  | .items a, w => ((w.stores a).entries, w.did (.items a) .delivered)
  | .lock a k, w =>
    ((), { w with locked := fun a' k' => a' = a ∧ k' = k ∨ w.locked a' k' }.did (.lock a k)
      .delivered)
  | .unlock a k, w =>
    ((), { w with locked := fun a' k' => ¬(a' = a ∧ k' = k) ∧ w.locked a' k' }.did (.unlock a k)
      .delivered)
  | .rpc a r, w => World.rpc env a r w
  | .deliver a c, w =>
    (env.deliverCall w.trace.length a c,
      w.did (.deliver a c) (env.deliverCall w.trace.length a c))
  | .findSuccessor a k, w =>
    (env.findSuccessor w.trace.length a k, w.did (.findSuccessor a k) .delivered)
  | .now, w => (env.now w.trace.length, w.did .now .delivered)
  | .newId, w => (env.newId w.trace.length, w.did .newId .delivered)
  | .registry a c, w =>
    let (res, registry) := (w.registries a).call (env.now w.trace.length) c
    (res, { w with registries := Function.update w.registries a registry }.did (.registry a c)
      .delivered)
  | .manager a c, w =>
    let (res, manager) := (w.managers a).call (env.now w.trace.length) c
    (res, { w with managers := Function.update w.managers a manager }.did (.manager a c) .delivered)
  | .memory p c, w =>
    let (res, memory) := (w.memories p).call c
    (res, { w with memories := Function.update w.memories p memory }.did (.memory p c) .delivered)
  | .spawn j, w => ((), w.did (.spawn j) .delivered)
  | .execute process taskId record, w =>
    (env.execute w.trace.length taskId, w.did (.execute process taskId record) .delivered)

end Storage
end ChordInfra
