/-
# The transport and the replication manager

`chord/transport.py`: every request is tried `RPC_RETRIES + 1` times before it
raises.  `storage/replication.py`: the successor chain of a key's owner, on
which the copies of a record are kept, and the writes, deletions and reads of
these copies.

All processes are configured with one replication factor, at least one.
-/

import ChordInfra.Storage.World

namespace ChordInfra
namespace Storage

open Interact Prog
open ChordInfra.Ring (NodeRef)

/-- An `Except` in a program. -/
def lift {α : Type} : Except Exc α → M α
  | .ok a => pure a
  | .error e => raise e

/-! ### Transport -/

namespace Transport

/-- `RPC_RETRIES`. -/
def rpcRetries : ℕ := 3

/-- `_request` with `tries` tries left. -/
def requestTries (a : Address) (r : Request) : ℕ → M r.Reply
  | 0 => raise .request
  | tries + 1 => do
    let reply : Option r.Reply ← act (.rpc a r)
    match reply with
    | some reply => pure reply
    | none => requestTries a r tries

/-- A request with its retries. -/
def request (a : Address) (r : Request) : M r.Reply := requestTries a r (rpcRetries + 1)

/-- `_request` for a call, whose handler is a program.  Every try that arrives
runs the handler; an exception of the handler is an error status, which is not
tried again. -/
def callTries {α : Type} (a : Address) (c : Call) (handler : M α) : ℕ → M α
  | 0 => raise .request
  | tries + 1 => do
    let delivery : Delivery ← act (.deliver a c)
    match delivery with
    | .delivered =>
      match ← attempt handler with
      | .ok x => pure x
      | .error _ => raise .request
    | .lost => callTries a c handler tries
    | .replyLost => do
      let _ ← attempt handler
      callTries a c handler tries

/-- A call with its retries. -/
def call {α : Type} (a : Address) (c : Call) (handler : M α) : M α :=
  callTries a c handler (rpcRetries + 1)

end Transport

/-! ### Replication -/

namespace Replication

/-- `REPLICA_RETRIES`. -/
def replicaRetries : ℕ := 2

/-- `_quorum`: `ceil(k / 2)`. -/
def quorum (k : ℕ) : ℕ := (k + 1) / 2

/-- The loop of `get_successor_chain`: at most `n` more nodes from `current` on,
until a node does not answer, names itself, names none, or comes again. -/
def chainFrom (visited : List Address) (current : NodeRef) : ℕ → M (List NodeRef)
  | 0 => pure []
  | n + 1 =>
    if current.address ∈ visited then pure []
    else do
      let state ← attempt (Transport.request current.address .getState)
      match state with
      | .ok (some successor) =>
        if successor.address = current.address then pure [current]
        else do
          let rest ← chainFrom (current.address :: visited) successor n
          pure (current :: rest)
      | _ => pure [current]

/-- `get_successor_chain`. -/
def getSuccessorChain (k : ℕ) (primaryNode : NodeRef) : M (List NodeRef) :=
  chainFrom [] primaryNode (max 1 k)

/-- `chain[1:]`. -/
def getReplicas (k : ℕ) (primaryNode : NodeRef) : M (List NodeRef) := do
  let chain ← getSuccessorChain k primaryNode
  pure chain.tail

/-- `_put_with_retry` and `_delete_with_retry` with `tries` tries left, each with
the retries of the transport: whether the request succeeded. -/
def requestWithRetry (a : Address) (r : Request) : ℕ → M Bool
  | 0 => pure false
  | tries + 1 => do
    match ← attempt (Transport.request a r) with
    | .ok _ => pure true
    | .error _ => requestWithRetry a r tries

/-- `_put_with_retry`. -/
def putWithRetry (replica : NodeRef) (k : Key) (v : Value) : M Bool :=
  requestWithRetry replica.address (.putReplica k v) (replicaRetries + 1)

/-- `_delete_with_retry`. -/
def deleteWithRetry (replica : NodeRef) (k : Key) : M Bool :=
  requestWithRetry replica.address (.deleteReplica k) (replicaRetries + 1)

/-- The nodes for which `visit` succeeded, each visited in turn. -/
def visitAll (visit : NodeRef → M Bool) : List NodeRef → M (List NodeRef)
  | [] => pure []
  | replica :: replicas => do
    let ok ← visit replica
    let rest ← visitAll visit replicas
    pure (if ok then replica :: rest else rest)

theorem visitAll_cons (visit : NodeRef → M Bool) (replica : NodeRef) (replicas : List NodeRef) :
    visitAll visit (replica :: replicas) = visit replica >>= fun ok =>
      visitAll visit replicas >>= fun rest => pure (if ok then replica :: rest else rest) := rfl

/-- What `replicate_write` and `_replicate` report of a write: `COMPLETE` when
the primary and the replicas written reach the quorum. -/
structure WriteReport where
  replicasWritten : List NodeRef
  complete : Bool
  required : ℕ
  achieved : ℕ
deriving DecidableEq, Repr

/-- The report for the replicas written; the primary counts as one success. -/
def report (k : ℕ) (replicasWritten : List NodeRef) : WriteReport :=
  let achieved := 1 + replicasWritten.length
  { replicasWritten
    complete := quorum k ≤ achieved
    required := quorum k
    achieved }

/-- Every replica of the chain visited, and the report. -/
def replicateWith (k : ℕ) (visit : NodeRef → M Bool) (primaryNode : NodeRef) : M WriteReport := do
  let replicas ← getReplicas k primaryNode
  let written ← visitAll visit replicas
  pure (report k written)

/-- `replicate_write`. -/
def replicateWrite (k : ℕ) (key : Key) (v : Value) (primaryNode : NodeRef) : M WriteReport :=
  replicateWith k (fun replica => putWithRetry replica key v) primaryNode

/-- `delete_replicas`: the replicas of which the deletion succeeded. -/
def deleteReplicas (k : ℕ) (key : Key) (primaryNode : NodeRef) : M (List NodeRef) := do
  let replicas ← getReplicas k primaryNode
  visitAll (fun replica => deleteWithRetry replica key) replicas

/-- The first value that a replica answers with; a replica that does not answer
is passed over. -/
def firstFound (k : Key) : List NodeRef → M (Option Value)
  | [] => pure none
  | replica :: replicas => do
    match ← attempt (Transport.request replica.address (.getReplica k)) with
    | .ok (some v) => pure (some v)
    | _ => firstFound k replicas

/-- `read_from_replicas`. -/
def readFromReplicas (k : ℕ) (key : Key) (primaryNode : NodeRef) : M (Option Value) := do
  let replicas ← getReplicas k primaryNode
  firstFound key replicas

/-- The value read at the owner, or what the replicas answer where it is not
enough. -/
def orReplicas (value : Option Value) (enough : Bool) (replicas : M (Option Value)) :
    M (Option Value) :=
  if enough then pure value else replicas

end Replication

/-! ### Services -/

/-- What every service is made with: the node it runs on and the replication
factor, at least one. -/
structure Service where
  node : NodeRef
  replicationK : ℕ
  replicationK_pos : 0 < replicationK

namespace Service

/-- The services of a node with the replication factor of the server. -/
def standard (node : NodeRef) : Service := ⟨node, 3, by decide⟩

/-- `_owner`. -/
def owner (s : Service) (key : Key) : M NodeRef := act (.findSuccessor s.node.address key)

/-- `_get_on_node`. -/
def getOnNode (s : Service) (nodeRef : NodeRef) (key : Key) : M (Option Value) :=
  if nodeRef.id = s.node.id then act (.get s.node.address key)
  else Transport.request nodeRef.address (.get key)

/-- `_delete_on_node`. -/
def deleteOnNode (s : Service) (nodeRef : NodeRef) (key : Key) : M Bool :=
  if nodeRef.id = s.node.id then act (.delete s.node.address key)
  else Transport.request nodeRef.address (.delete key)

/-- `PRIMARY_WRITE_RETRIES`. -/
def primaryWriteRetries : ℕ := 2

/-- The remote writes of `_put_on_node` with `retries` retries left, the owner
being resolved again before each. -/
def putTries (s : Service) (key : Key) (v : Value) : ℕ → NodeRef → M Unit
  | 0, nodeRef => Transport.request nodeRef.address (.put key v)
  | retries + 1, nodeRef => do
    match ← attempt (Transport.request nodeRef.address (.put key v)) with
    | .ok _ => pure ()
    | .error _ => do
      let newPrimary ← s.owner key
      putTries s key v retries newPrimary

/-- `_put_on_node`. -/
def putOnNode (s : Service) (nodeRef : NodeRef) (key : Key) (v : Value) : M Unit :=
  if nodeRef.id = s.node.id then act (.put s.node.address key v)
  else s.putTries key v primaryWriteRetries nodeRef

/-- The value at the node asked, `none` also where it does not answer. -/
def tryGetOnNode (s : Service) (nodeRef : NodeRef) (key : Key) : M (Option Value) := do
  match ← attempt (s.getOnNode nodeRef key) with
  | .ok value => pure value
  | .error _ => pure none

end Service

end Storage
end ChordInfra
