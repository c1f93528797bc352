/-
# The worker assignment service (HT2)

`storage/worker_assignment.py`: the list of task ids assigned to each worker,
under the key `worker:<id>` at the key's owner.  `append_local` and
`remove_local` hold the key's lock in the owner's process while they read,
change and write the record; `remove` called on another node reads and writes
the owner's record by requests, without the lock.
-/

import ChordInfra.Storage.ResultService

namespace ChordInfra
namespace Storage

open Interact Prog
open ChordInfra.Ring (NodeRef)
open Replication

/-- What `append` and `remove` return: the list, and whether it was changed. -/
structure Assignment where
  tasks : List String
  changed : Bool
deriving DecidableEq, Repr

namespace WorkerAssignment

/-- The record of a value, when it is one, and its list. -/
def tasksOf (current : Option Value) : List String :=
  match current.bind Value.asWorker with
  | some record => record.tasks
  | none => []

/-- `_bump` of the current record, or `_new_record` where there is none. -/
def renew (workerId : String) (current : Option Value) (tasks : List String) (now : ℕ) :
    WorkerRecord :=
  match current.bind Value.asWorker with
  | some record => record.bump tasks now
  | none => WorkerRecord.new workerId tasks now

theorem renew_tasks (workerId : String) (current : Option Value) (tasks : List String) (now : ℕ) :
    (renew workerId current tasks now).tasks = tasks := by
  unfold renew
  split <;> rfl

theorem tasksOf_renew (workerId : String) (current : Option Value) (tasks : List String) (now : ℕ) :
    tasksOf (some (.worker (renew workerId current tasks now))) = tasks :=
  renew_tasks workerId current tasks now

/-- `_replicate`. -/
def replicate (k : ℕ) (workerId : String) (record : WorkerRecord) (primary : NodeRef) :
    M WriteReport :=
  replicateWith k (fun replica => ResultService.succeeds replica.address
    (.putReplica (.worker workerId) (.worker record))) primary

/-- The list with `taskId` at its end, when it is not there yet. -/
def appended (taskId : String) (tasks : List String) : List String :=
  if taskId ∈ tasks then tasks else tasks ++ [taskId]

theorem mem_appended (taskId : String) (tasks : List String) : taskId ∈ appended taskId tasks := by
  unfold appended
  split_ifs with h
  · exact h
  · simp

/-- The list without `taskId`. -/
def removed (taskId : String) (tasks : List String) : List String :=
  tasks.filter fun t => t ≠ taskId

theorem removed_eq_self {taskId : String} {tasks : List String} :
    removed taskId tasks = tasks ↔ taskId ∉ tasks := by
  unfold removed
  rw [List.filter_eq_self]
  constructor
  · intro h hmem
    simpa using h taskId hmem
  · intro h t ht
    have hne : t ≠ taskId := fun he => h (he ▸ ht)
    simpa using hne

/-- What `append_local` and `remove_local` share: under the key's lock the list
is read, and where `change` changes it, written and replicated. -/
def changeLocal (a : Address) (k : ℕ) (key : Key) (workerId : String)
    (change : List String → List String) (primary : NodeRef) : M Assignment := do
  act (.lock a key)
  let current : Option Value ← act (.get a key)
  let tasks := tasksOf current
  if change tasks = tasks then do
    act (.unlock a key)
    pure ⟨tasks, false⟩
  else do
    let now : ℕ ← act .now
    let record := renew workerId current (change tasks) now
    act (.put a key (.worker record))
    let _ ← replicate k workerId record primary
    act (.unlock a key)
    pure ⟨record.tasks, true⟩

/-- The owner that `append_local` and `remove_local` work with: the one given,
or the one this node resolves. -/
def ownerOr (a : Address) (key : Key) : Option NodeRef → M NodeRef
  | some primary => pure primary
  | none => act (.findSuccessor a key)

/-- `append_local` in the process at `a`. -/
def appendLocal (a : Address) (k : ℕ) (workerId taskId : String) (primary : Option NodeRef) :
    M Assignment := do
  let key ← lift (buildWorkerKey workerId)
  let primary ← ownerOr a key primary
  changeLocal a k key workerId (appended taskId) primary

/-- `remove_local` in the process at `a`. -/
def removeLocal (a : Address) (k : ℕ) (workerId taskId : String) (primary : Option NodeRef) :
    M Assignment := do
  let key ← lift (buildWorkerKey workerId)
  let primary ← ownerOr a key primary
  changeLocal a k key workerId (removed taskId) primary

/-- `workers_append`: the handler of an append, which refuses an empty id. -/
def handleAppend (a : Address) (k : ℕ) (workerId taskId : String) : M Assignment :=
  if taskId = "" then raise (.valueError "task_id required")
  else appendLocal a k workerId taskId none

/-- The requests of `append` with `retries` retries left, the owner being
resolved again before each; `handler` is what a request runs in the process that
it reaches. -/
def appendTries (s : Service) (key : Key) (workerId taskId : String)
    (handler : Address → M Assignment) : ℕ → NodeRef → M Assignment
  | 0, primary =>
    Transport.call primary.address (.append workerId taskId) (handler primary.address)
  | retries + 1, primary => do
    match ← attempt (Transport.call primary.address (.append workerId taskId)
        (handler primary.address)) with
    | .ok x => pure x
    | .error _ => do
      let primary ← s.owner key
      appendTries s key workerId taskId handler retries primary

/-- `append`, by what its requests run. -/
def appendBy (s : Service) (workerId taskId : String) (handler : Address → M Assignment) :
    M Assignment := do
  let key ← lift (buildWorkerKey workerId)
  let primary ← s.owner key
  if primary.id = s.node.id then
    appendLocal s.node.address s.replicationK workerId taskId (some primary)
  else appendTries s key workerId taskId handler Service.primaryWriteRetries primary

/-- What a request of `append` runs where its id arrives as it is. -/
abbrev asked (s : Service) (workerId taskId : String) (a : Address) : M Assignment :=
  handleAppend a s.replicationK workerId taskId

/-- `append`. -/
def append (s : Service) (workerId taskId : String) : M Assignment :=
  appendBy s workerId taskId (asked s workerId taskId)

/-- The part of `remove` for an owner that is another node: the record is read
and written there, without its lock and without the replicas. -/
def removeRemote (primary : NodeRef) (key : Key) (workerId taskId : String) : M Assignment := do
  let answer ← attempt (Transport.request primary.address (.get key))
  let current : Option Value := match answer with
    | .ok value => value
    | .error _ => none
  let tasks := tasksOf current
  if taskId ∉ tasks then pure ⟨tasks, false⟩
  else do
    let now : ℕ ← act .now
    let record := renew workerId current (removed taskId tasks) now
    let _ ← attempt (Transport.request primary.address (.put key (.worker record)))
    pure ⟨record.tasks, true⟩

/-- `remove`. -/
def remove (s : Service) (workerId taskId : String) : M Assignment := do
  let key ← lift (buildWorkerKey workerId)
  let primary ← s.owner key
  if primary.id = s.node.id then
    removeLocal s.node.address s.replicationK workerId taskId (some primary)
  else removeRemote primary key workerId taskId

/-- `_read_from_replicas`. -/
def readFromReplicas (s : Service) (workerId : String) (primary : NodeRef) : M (Option Value) :=
  Replication.readFromReplicas s.replicationK (.worker workerId) primary

/-- `get`. -/
def get (s : Service) (workerId : String) : M (List String) := do
  let key ← lift (buildWorkerKey workerId)
  let primary ← s.owner key
  let value ← s.tryGetOnNode primary key
  let value ← orReplicas value (value.bind Value.asWorker).isSome
    (readFromReplicas s workerId primary)
  pure (tasksOf value)

/-- `delete`, under the key's lock in the caller's process. -/
def delete (s : Service) (workerId : String) : M Bool := do
  let key ← lift (buildWorkerKey workerId)
  let primary ← s.owner key
  act (.lock s.node.address key)
  let ok ← attempt (s.deleteOnNode primary key)
  let replicas ← getReplicas s.replicationK primary
  let _ ← visitAll
    (fun replica => ResultService.succeeds replica.address (.deleteReplica (.worker workerId))) replicas
  act (.unlock s.node.address key)
  match ok with
  | .ok wasThere => pure wasThere
  | .error _ => pure false

end WorkerAssignment

end Storage
end ChordInfra
