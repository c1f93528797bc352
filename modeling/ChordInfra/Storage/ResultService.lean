/-
# The result service (HT1)

`storage/result_service.py`: result records under the key `result:<id>` at the
key's owner, with copies along its successor chain.  The key of the owner's
record has the id stripped; the handlers of the replicas use the id as it is.
-/

import ChordInfra.Storage.Replication

namespace ChordInfra
namespace Storage

open Interact Prog
open ChordInfra.Ring (NodeRef)
open Replication

namespace ResultService

/-- Whether a request succeeded. -/
def succeeds (a : Address) (r : Request) : M Bool := requestWithRetry a r 1

/-- `_replicate`: one request to each replica. -/
def replicate (s : Service) (taskId : String) (record : ResultRecord) (primary : NodeRef) :
    M WriteReport :=
  replicateWith s.replicationK
    (fun replica => succeeds replica.address (.putReplica (.result taskId) (.result record))) primary

/-- `put`. -/
def put (s : Service) (taskId : String) (record : ResultRecord) : M WriteReport := do
  lift (validateResultRecord record)
  let key ← lift (buildResultKey taskId)
  let primary ← s.owner key
  s.putOnNode primary key (.result record)
  replicate s taskId record primary

/-- `_read_from_replicas`. -/
def readFromReplicas (s : Service) (taskId : String) (primary : NodeRef) : M (Option Value) :=
  Replication.readFromReplicas s.replicationK (.result taskId) primary

/-- `get`. -/
def get (s : Service) (taskId : String) : M (Option ResultRecord) := do
  let key ← lift (buildResultKey taskId)
  let primary ← s.owner key
  let value ← s.tryGetOnNode primary key
  let value ← orReplicas value value.isSome (readFromReplicas s taskId primary)
  pure (value.bind Value.asResult)

/-- `delete`: no failure of a request is an error of the deletion. -/
def delete (s : Service) (taskId : String) : M Bool := do
  let key ← lift (buildResultKey taskId)
  let primary ← s.owner key
  let ok ← attempt (s.deleteOnNode primary key)
  let replicas ← getReplicas s.replicationK primary
  let _ ← visitAll
    (fun replica => succeeds replica.address (.deleteReplica (.result taskId))) replicas
  match ok with
  | .ok removed => pure removed
  | .error _ => pure false

end ResultService

end Storage
end ChordInfra
