/-
# The jobs of a ring

The endpoints `/jobs` and the `FailureWatcherThread` of `chord/server.py`, over the stores of
the nodes of a ring, each with the worker thread of `chord/worker.py`.

A submission asks the agent where a job goes, and stores it there under a key that is
searched for: `make_job_key_for` draws ids until one hashes to the node, and takes the next
where none of them does.  The job's own id is drawn before.  So ids come in blocks
(`ClusterOp.draw`), the `i`-th of block `n` being `uuid4 n i`; the id of a job is the first
of its block, and a key is `job:` and an id of a block of its own.

A world has the world of each node's worker, by the node's address, the number of blocks
drawn, and the ids of the jobs whose execution began, latest first; entries are never
removed.
-/

import ChordInfra.Jobs.Agent
import ChordInfra.Ring.Node
import ChordInfra.Storage.Replication

namespace ChordInfra
namespace Jobs

open Interact Prog
open Storage (Json Address Delivery Exc)
open ChordInfra.Ring (NodeRef ChordNode)

/-- `job_key`. -/
def jobKey (jobId : String) : String := "job:" ++ jobId

namespace Job

/-- The job's status is one of `ACTIVE_STATUSES`. -/
def Active (j : Job) : Prop := j.status = .pending ∨ j.status = .claimed ∨ j.status = .running

instance (j : Job) : Decidable j.Active := inferInstanceAs (Decidable (_ ∨ _))

/-- `replica_of` is set, to a text with something in it. -/
def IsReplica (j : Job) : Prop := ∃ id ∈ j.replicaOf, id ≠ ""

instance (j : Job) : Decidable j.IsReplica := inferInstanceAs (Decidable (∃ id ∈ j.replicaOf, id ≠ ""))

/-- What the first path of `_recover` makes of a job. -/
def promote (j : Job) : Job :=
  if j.IsReplica ∧ j.Active then
    { j with status := .pending, claimedBy := none, startedAt := none, replicaOf := none }
  else j

/-- What the second path of `_recover` looks for. -/
def Orphaned (failedAddress : Option Address) (j : Job) : Prop :=
  j.Active ∧ ¬j.IsReplica ∧ failedAddress.isSome ∧ j.claimedBy = failedAddress

instance (failedAddress : Option Address) (j : Job) : Decidable (j.Orphaned failedAddress) :=
  inferInstanceAs (Decidable (_ ∧ _))

end Job

/-! ### Operations -/

/-- The operations of the threads of a ring. -/
inductive ClusterOp
  /-- An operation of the worker thread of the node at `a`. -/
  | worker (a : Address) (o : Op)
  /-- A block of `uuid.uuid4()`. -/
  | draw
  | now
  /-- `node.metrics()` at the node itself, and `transport.get_metrics`. -/
  | metrics (a : Address)
  | getMetrics (a : Address)
  | findSuccessor (a : Address) (id : ℕ)
  /-- The agent's `select_placement` and `decide_replication`. -/
  | selectPlacement (job : Job) (metrics : List Metrics)
  | decideReplication (job : Job) (metrics : List Metrics) (requested : ℕ)
  /-- `node.put` and `node.get` at the process itself. -/
  | put (a : Address) (key : String) (job : Job)
  | get (a : Address) (key : String)
  /-- One try of `transport.put`, and `transport.get`. -/
  | postData (a : Address) (key : String) (job : Job)
  | getData (a : Address) (key : String)
  /-- The two blocks of `_recover`. -/
  | promote (a : Address)
  | orphaned (a : Address) (failedAddress : Option Address)

/-- What an operation is answered; a request that raises is answered `none`, and a try that
raises `false`. -/
@[reducible] def ClusterOp.Res : ClusterOp → Type
  | worker _ o => o.Res
  | draw | now | selectPlacement .. => ℕ
  | metrics _ => Metrics
  | getMetrics _ => Option Metrics
  | findSuccessor .. => NodeRef
  | decideReplication .. => Plan
  | put .. => Unit
  | get .. => Option Job
  | postData .. => Bool
  | getData .. => Option (Option Job)
  | promote _ | orphaned .. => List Job

/-- The programs of the endpoints and of the watcher. -/
abbrev ClusterM := Prog ClusterOp ClusterOp.Res Exc

/-- One operation. -/
abbrev perform (o : ClusterOp) : ClusterM o.Res := Prog.perform o

/-- What the code does not decide: the clocks, the executions and the ids of the nodes, what
becomes of a try of a write and of a read after its retries, what a lookup answers, and the
agent. -/
structure ClusterEnv where
  now : Address → ℕ → ℕ
  execute : Address → ℕ → String → Except String Json
  clock : ℕ → ℕ
  nodeId : Address → ℕ
  deliver : ℕ → Address → Delivery
  findSuccessor : ℕ → Address → ℕ → NodeRef
  selectPlacement : ℕ → Job → List Metrics → ℕ
  decideReplication : ℕ → Job → List Metrics → ℕ → Plan

/-- The environment of a node's worker. -/
def ClusterEnv.worker (env : ClusterEnv) (a : Address) : Env := ⟨env.now a, env.execute a, a⟩

structure Cluster where
  nodes : Address → World
  drawn : ℕ
  executed : List String
  steps : ℕ

/-- `ChordNode.metrics`. -/
def World.metrics (w : World) (nodeId : ℕ) (address : Address) : Metrics where
  nodeId
  address
  queueDepth := (w.jobs.entries.filter fun e => e.2.Active).length
  jobsCompleted := w.jobsCompleted
  jobsFailed := w.jobsFailed

namespace Cluster

/-- One more operation. -/
def tick (w : Cluster) : Cluster := { w with steps := w.steps + 1 }

/-- The jobs at a node, changed. -/
def setJobs (w : Cluster) (a : Address) (jobs : Dict String Job) : Cluster :=
  let node : World := { w.nodes a with jobs }
  { w with nodes := Function.update w.nodes a node }

/-- `data_store[key] = job` at a node. -/
def store (w : Cluster) (a : Address) (key : String) (job : Job) : Cluster :=
  w.setJobs a ((w.nodes a).jobs.set key job)

/-- The history after an operation of a worker. -/
def began (w : Cluster) (a : Address) : Op → List String
  | .start key =>
    match (w.nodes a).jobs.get key with
    | some job => job.jobId :: w.executed
    | none => w.executed
  | _ => w.executed

end Cluster

/-- What an operation does to the world, and its answer. -/
def clusterHandle (env : ClusterEnv) : (o : ClusterOp) → Cluster → o.Res × Cluster
  | .worker a o, w =>
    let (res, node) := handle (env.worker a) o (w.nodes a)
    (res, { w with nodes := Function.update w.nodes a node, executed := w.began a o }.tick)
  | .draw, w => (w.drawn, { w with drawn := w.drawn + 1 }.tick)
  | .now, w => (env.clock w.steps, w.tick)
  | .metrics a, w => ((w.nodes a).metrics (env.nodeId a) a, w.tick)
  | .getMetrics a, w =>
    (if env.deliver w.steps a = .delivered then some ((w.nodes a).metrics (env.nodeId a) a) else none,
      w.tick)
  | .findSuccessor a id, w => (env.findSuccessor w.steps a id, w.tick)
  | .selectPlacement job metrics, w => (env.selectPlacement w.steps job metrics, w.tick)
  | .decideReplication job metrics requested, w =>
    (env.decideReplication w.steps job metrics requested, w.tick)
  | .put a key job, w => ((), (w.store a key job).tick)
  | .get a key, w => ((w.nodes a).jobs.get key, w.tick)
  | .postData a key job, w =>
    (decide (env.deliver w.steps a = .delivered),
      (if env.deliver w.steps a = .lost then w else w.store a key job).tick)
  | .getData a key, w =>
    (if env.deliver w.steps a = .delivered then some ((w.nodes a).jobs.get key) else none, w.tick)
  | .promote a, w =>
    (((w.nodes a).jobs.entries.filter fun e => e.2.IsReplica ∧ e.2.Active).map fun e => e.2.promote,
      (w.setJobs a ((w.nodes a).jobs.mapValues Job.promote)).tick)
  | .orphaned a failedAddress, w =>
    (((w.nodes a).jobs.entries.filter fun e => e.2.Orphaned failedAddress).map Prod.snd, w.tick)

/-! ### What the endpoints share -/

/-- A program of a node's worker. -/
def onNode (a : Address) {α : Type} : M α → ClusterM α
  | .ret x => .ret x
  | .raise e => nomatch e
  | .op o k => .op (.worker a o) fun r => onNode a (k r)

section Programs

variable {M : ℕ} (sha1Id : String → ℕ) (uuid4 : ℕ → ℕ → String)

/-- The nodes of a finger table. -/
def fingerRefs (n : ChordNode M) : List NodeRef := (List.finRange M).map fun i => (n.fingers i).ref

/-- The loop of `_collect_ring_metrics`. -/
def metricsFrom (seen : List ℕ) : List NodeRef → ClusterM (List Metrics)
  | [] => pure []
  | finger :: fingers =>
    if finger.id ∈ seen then metricsFrom seen fingers
    else do
      let answer : Option Metrics ← perform (.getMetrics finger.address)
      let rest ← metricsFrom (finger.id :: seen) fingers
      pure (answer.toList ++ rest)

/-- `_collect_ring_metrics`. -/
def collectRingMetrics (n : ChordNode M) : ClusterM (List Metrics) := do
  let own : Metrics ← perform (.metrics n.address)
  let rest ← metricsFrom [n.nodeId] (fingerRefs n)
  pure (own :: rest)

/-- `_address_for`. -/
def addressFor (n : ChordNode M) (targetNodeId : ℕ) : ClusterM Address :=
  if targetNodeId = n.nodeId then pure n.address
  else
    match (fingerRefs n).find? fun finger => finger.id = targetNodeId with
    | some finger => pure finger.address
    | none => do
      let responsible : NodeRef ← perform (.findSuccessor n.address targetNodeId)
      pure responsible.address

/-- The attempts of `make_job_key_for` that are left, from the `i`-th id on. -/
def keyFrom (ringSize : ℕ) (ids : ℕ → String) (targetNodeId : ℕ) : ℕ → ℕ → String
  | i, 0 => jobKey (ids i)
  | i, attempts + 1 =>
    if sha1Id (jobKey (ids i)) % ringSize = targetNodeId % ringSize then jobKey (ids i)
    else keyFrom ringSize ids targetNodeId (i + 1) attempts

/-- `make_job_key_for`, with the ids that it draws. -/
def makeJobKeyFor (ids : ℕ → String) (targetNodeId : ℕ) : String :=
  keyFrom sha1Id 256 ids targetNodeId 0 512

/-- `transport.put` with `tries` tries left, and whether one is answered. -/
def putTries (address : Address) (key : String) (job : Job) : ℕ → ClusterM Bool
  | 0 => pure false
  | tries + 1 => do
    let ok : Bool ← perform (.postData address key job)
    if ok then pure true else putTries address key job tries

/-- `_store_job`. -/
def storeJob (n : ChordNode M) (job : Job) (targetAddress : Address) (targetNodeId : ℕ) :
    ClusterM String := do
  let block : ℕ ← perform .draw
  let key := makeJobKeyFor sha1Id (uuid4 block) targetNodeId
  if targetNodeId = n.nodeId then do
    perform (.put n.address key job)
    pure key
  else do
    let ok ← putTries targetAddress key job (Storage.Transport.rpcRetries + 1)
    if ok then pure key else raise .request

/-! ### POST /jobs -/

/-- The answer 201. -/
structure Created where
  jobId : String
  primaryKey : String
  storedAtNode : ℕ
  replicas : List (ℕ × String)

/-- What `submit_job` answers. -/
inductive SubmitReply
  | badRequest (error : String)
  | created (c : Created)

/-- The loop of `submit_job` over the replicas; one that cannot be stored is left out. -/
def storeReplicas (n : ChordNode M) (job : Job) (targetNodeId : ℕ) :
    List ℕ → ClusterM (List (ℕ × String))
  | [] => pure []
  | rid :: rids =>
    if rid = targetNodeId then storeReplicas n job targetNodeId rids
    else do
      let replicaAddress ← addressFor n rid
      let stored ← attempt (storeJob sha1Id uuid4 n { job with replicaOf := some job.jobId }
        replicaAddress rid)
      let rest ← storeReplicas n job targetNodeId rids
      match stored with
      | .ok key => pure ((rid, key) :: rest)
      | .error _ => pure rest

/-- The placement of a job: what the agent selects, or the node that the job's own key is
routed to. -/
def selectTarget (n : ChordNode M) (agent : Bool) (job : Job) (ringMetrics : List Metrics) :
    ClusterM ℕ :=
  if agent ∧ ringMetrics ≠ [] then perform (.selectPlacement job ringMetrics)
  else do
    let responsible : NodeRef ← perform (.findSuccessor n.address (sha1Id (jobKey job.jobId)))
    pure responsible.id

/-- The replication of a job: the target and the nodes of its replicas. -/
def selectReplicas (agent : Bool) (job : Job) (ringMetrics : List Metrics) (requested : ℤ)
    (targetNodeId : ℕ) : ClusterM (ℕ × List ℕ) :=
  if agent ∧ ringMetrics ≠ [] ∧ 1 < requested then do
    let plan : Plan ← perform (.decideReplication job ringMetrics requested.toNat)
    pure (plan.primaryNodeId, plan.replicaNodeIds)
  else pure (targetNodeId, [])

/-- `submit_job` from the checks on. -/
def createJob (n : ChordNode M) (agent : Bool) (jobType : String) (payload : Json)
    (requested : ℤ) : ClusterM Created := do
  let ringMetrics ← collectRingMetrics n
  let block : ℕ ← perform .draw
  let now : ℕ ← perform .now
  let job := makeJob jobType payload (uuid4 block 0) now
  let target ← selectTarget sha1Id n agent job ringMetrics
  let (target, rids) ← selectReplicas agent job ringMetrics requested target
  let targetAddress ← addressFor n target
  let primaryKey ← storeJob sha1Id uuid4 n job targetAddress target
  let replicas ← storeReplicas sha1Id uuid4 n job target rids
  pure ⟨job.jobId, primaryKey, target, replicas⟩

/-- `submit_job`. -/
def submitJob (n : ChordNode M) (agent : Bool) (jobType : String) (payload : Json)
    (requested : ℤ) : ClusterM SubmitReply :=
  if jobType ∉ ["echo", "sleep", "compute"] then
    pure (.badRequest ("Unknown job type '" ++ jobType ++ "'. Valid: ['compute', 'echo', 'sleep']"))
  else if requested < 1 ∨ 10 < requested then
    pure (.badRequest "replicas must be between 1 and 10")
  else do
    let c ← createJob sha1Id uuid4 n agent jobType payload requested
    pure (.created c)

/-! ### GET /jobs/<job_id> -/

/-- What `get_job` answers: the value, 404 or 502. -/
inductive GetReply
  | found (job : Job)
  | notFound
  | badGateway

/-- `None` is not found. -/
def GetReply.ofValue : Option Job → GetReply
  | some job => found job
  | none => notFound

/-- The attempts of `get_job` that are left. -/
def getJobTries (n : ChordNode M) (key : String) : ℕ → ClusterM GetReply
  | 0 => pure .badGateway
  | attempts + 1 => do
    let responsible : NodeRef ← perform (.findSuccessor n.address (sha1Id key))
    if responsible.id = n.nodeId then do
      let value : Option Job ← perform (.get n.address key)
      pure (.ofValue value)
    else do
      let answer : Option (Option Job) ← perform (.getData responsible.address key)
      match answer with
      | some value => pure (.ofValue value)
      | none => getJobTries n key attempts

/-- `get_job`, with `ROUTED_RETRIES + 1` attempts. -/
def getJob (n : ChordNode M) (jobId : String) : ClusterM GetReply :=
  getJobTries sha1Id n (jobKey jobId) 3

/-! ### The failure watcher -/

/-- The loop of `_recover` over the orphaned jobs; one that cannot be stored is left out. -/
def reassign (n : ChordNode M) (assignments : Dict String ℕ) : List Job → ClusterM Unit
  | [] => pure ()
  | job :: jobs =>
    match assignments.get job.jobId with
    | none => reassign n assignments jobs
    | some target => do
      let targetAddress ← addressFor n target
      let now : ℕ ← perform .now
      let recoveryJob := makeJob job.type job.payload job.jobId now
      let _ ← attempt (storeJob sha1Id uuid4 n recoveryJob targetAddress target)
      reassign n assignments jobs

/-- `_recover`; `plan` is what the agent answers. -/
def recover (plan : List Job → List Metrics → Dict String ℕ) (n : ChordNode M)
    (failedNodeId : ℕ) : ClusterM Unit := do
  let ringMetrics ← collectRingMetrics n
  let surviving := ringMetrics.filter fun m => m.nodeId ≠ failedNodeId
  if surviving = [] then pure ()
  else do
    let _ : List Job ← perform (.promote n.address)
    let failedAddress :=
      ((fingerRefs n).find? fun finger => finger.id = failedNodeId).map NodeRef.address
    let orphaned : List Job ← perform (.orphaned n.address failedAddress)
    if orphaned = [] then pure ()
    else reassign sha1Id uuid4 n (plan orphaned surviving) orphaned

end Programs

end Jobs
end ChordInfra
