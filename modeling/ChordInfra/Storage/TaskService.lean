/-
# The task service

`storage/task_service.py`: tasks registered, read, updated and removed under the
key `task:<id>` at the key's owner, with copies along its successor chain.
-/

import ChordInfra.Storage.Replication

namespace ChordInfra
namespace Storage

open Interact Prog
open ChordInfra.Ring (NodeRef)
open Replication

/-- What `register_task`, `update_task` and a soft `deregister_task` return: the
record written and the report of the write. -/
structure TaskWritten where
  task : TaskRecord
  storage : WriteReport

/-- What `deregister_task` returns. -/
inductive Deregistered
  | soft (written : TaskWritten)
  | hard (deleted : List NodeRef)

namespace TaskService

/-- `get_task`. -/
def getTask (s : Service) (taskId : Json) (allowReplicaRead : Bool) : M (Option TaskRecord) := do
  let key ← lift (buildTaskKey taskId)
  let primary ← s.owner key
  let value ← s.tryGetOnNode primary key
  let value ← orReplicas value (value.isSome || !allowReplicaRead)
    (readFromReplicas s.replicationK key primary)
  pure (value.bind Value.asTask)

/-- The write that ends `register_task`, `update_task` and a soft
`deregister_task`: at the owner, then at the replicas. -/
def store (s : Service) (key : Key) (primary : NodeRef) (record : TaskRecord) : M TaskWritten := do
  s.putOnNode primary key (.task record)
  let storage ← replicateWrite s.replicationK key (.task record) primary
  pure ⟨record, storage⟩

/-- The conflict check of `register_task`, made when the input names an id. -/
def checkConflict (s : Service) (taskId : Json) : M Unit :=
  if taskId.truthy then do
    match ← getTask s taskId true with
    | some record =>
      if record.status = .deleted then pure ()
      else raise (.taskConflict ("task already exists: " ++ taskId.text))
    | none => pure ()
  else pure ()

/-- The id that a task is registered under: the one the input names, or a fresh
one where that counts as false, such as the empty text. -/
def candidateId (taskId : Json) : M Json :=
  if taskId.truthy then pure taskId else do
    let id : String ← act .newId
    pure (.str id)

/-- The part of a task's key after `task:`. -/
def keyId : Key → String
  | .task id | .result id | .worker id | .other id => id

/-- `register_task`. -/
def registerTask (s : Service) (taskInput : Fields) : M TaskWritten := do
  let taskId := taskInput.getD "task_id" .null
  checkConflict s taskId
  let candidate ← candidateId taskId
  let key ← lift (buildTaskKey candidate)
  let primary ← s.owner key
  let created : ℕ ← act .now
  let record ← lift (createTaskRecord taskInput primary s.replicationK (keyId key) created)
  let replicas ← getReplicas s.replicationK primary
  let updated : ℕ ← act .now
  store s key primary (record.setReplicaNodes replicas updated)

/-- The record an operation is about, which must be there. -/
def existingTask (s : Service) (taskId : String) : M TaskRecord := do
  match ← getTask s (.str taskId) true with
  | some record => pure record
  | none => raise (.taskNotFound ("task not found: " ++ taskId))

/-- `deregister_task`. -/
def deregisterTask (s : Service) (taskId : String) (hardDelete : Bool) : M Deregistered := do
  let key ← lift (buildTaskKey (.str taskId))
  let primary ← s.owner key
  let existing ← existingTask s taskId
  if hardDelete then do
    let _ ← s.deleteOnNode primary key
    let deleted ← deleteReplicas s.replicationK key primary
    pure (.hard deleted)
  else do
    let now : ℕ ← act .now
    let written ← store s key primary (existing.markDeleted now)
    pure (.soft written)

/-- `update_task`. -/
def updateTask (s : Service) (taskId : String) (patch : Fields) : M TaskWritten := do
  let key ← lift (buildTaskKey (.str taskId))
  let primary ← s.owner key
  let existing ← existingTask s taskId
  if existing.status = .deleted then raise (.taskValidation "cannot update a deleted task")
  else do
    let now : ℕ ← act .now
    let updated ← lift (existing.update patch now)
    store s key primary updated

end TaskService

end Storage
end ChordInfra
