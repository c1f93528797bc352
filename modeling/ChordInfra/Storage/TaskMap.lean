/-
# The task service as one map

What the task service is for: a map from trimmed task ids to records
(`TaskMap`).  In a ring of fixed membership, with no request failing and
operations one at a time, every operation issued at any node answers as that map
would, up to times and placements, and changes no store when it raises
(`FixedRing.refines_taskMap`).

The map's value at an id is what the owner of `task:<id>` holds.  The replicas
may hold older versions; what matters of them is that where the map has nothing
they have nothing either (`Represents`), since a read then asks them.
-/

import ChordInfra.Storage.FixedRing
import Mathlib.Tactic.Set

namespace ChordInfra
namespace Storage

open Interact Prog
open ChordInfra.Ring (NodeRef)
open Replication

/-! ### The map -/

/-- A task record without its times and its placement. -/
structure TaskEntry where
  taskId : String
  jobId : String
  type : String
  payload : Json
  priority : Priority
  status : TaskStatus
  result : Json
  error : Json
  version : ℕ
  deleted : Bool

/-- What a record says besides its times and its placement. -/
def TaskRecord.entry (r : TaskRecord) : TaskEntry :=
  ⟨r.taskId, r.jobId, r.type, r.payload, r.priority, r.status, r.result, r.error, r.version,
    r.deleted⟩

namespace TaskEntry

/-- The entry of a new task. -/
def new (taskInput : Fields) (id : String) : Except Exc TaskEntry := do
  let (jobId, type, payload) ← requiredTaskFields taskInput
  let status ← TaskStatus.ofJson (taskInput.getD "status" (.str "REGISTERED"))
  let priority ← Priority.ofJson (taskInput.getD "priority" (.int 0))
  return ⟨id, jobId, type, payload, priority, status, taskInput.getD "result" .null,
    taskInput.getD "error" .null, 2, false⟩

/-- The entry of a removed task. -/
def tombstone (e : TaskEntry) : TaskEntry :=
  { e with status := .deleted, deleted := true, version := e.version + 1 }

/-- The entry after a patch. -/
def patch (e : TaskEntry) (patch : Fields) : Except Exc TaskEntry :=
  match patch.entries.find? fun f => f.1 ∉ TaskRecord.allowed with
  | some f => .error (.taskValidation ("field '" ++ f.1 ++ "' cannot be updated via PATCH"))
  | none => do
    let status ← TaskRecord.patched patch "status" TaskStatus.ofJson e.status
    let result ← TaskRecord.patched patch "result" .ok e.result
    let error ← TaskRecord.patched patch "error" .ok e.error
    let payload ← TaskRecord.patched patch "payload" TaskRecord.patchedPayload e.payload
    let priority ← TaskRecord.patched patch "priority" Priority.ofJson e.priority
    return { e with
      status, result, error, payload, priority
      deleted := e.deleted || ((Dict.get patch "status").isSome && decide (status = .deleted))
      version := e.version + 1 }

end TaskEntry

/-- A call of the task service. -/
inductive TaskCall
  | register (taskInput : Fields)
  | get (taskId : String) (allowReplicaRead : Bool)
  | update (taskId : String) (patch : Fields)
  | deregister (taskId : String) (hardDelete : Bool)

/-- What a call answers, up to times and placements. -/
inductive TaskAnswer
  | found (entry : Option TaskEntry)
  | wrote (entry : TaskEntry)
  | removed

/-- A map from trimmed ids to entries. -/
abbrev TaskMap := String → Option TaskEntry

namespace TaskMap

/-- The map without entries. -/
def empty : TaskMap := fun _ => none

/-- The id a task is found under. -/
def idOf (taskId : Json) : Except Exc String :=
  match taskId with
  | .str s =>
    if strip s = "" then .error (.taskValidation "task_id must be a non-empty string")
    else .ok (strip s)
  | _ => .error (.taskValidation "task_id must be a non-empty string")

/-- A task that was not removed may not be registered again. -/
def checkConflict (m : TaskMap) (taskId : Json) : Except Exc Unit :=
  if taskId.truthy then do
    let id ← idOf taskId
    match m id with
    | some e =>
      if e.status = .deleted then .ok ()
      else .error (.taskConflict ("task already exists: " ++ taskId.text))
    | none => .ok ()
  else .ok ()

/-- The entry an operation is about. -/
def existing (m : TaskMap) (taskId : String) : Except Exc (String × TaskEntry) := do
  let id ← idOf (.str taskId)
  match m id with
  | some e => .ok (id, e)
  | none => .error (.taskNotFound ("task not found: " ++ taskId))

/-- The outcome of a call: its answer and the map after it. -/
def outcome (fresh : String) : TaskCall → TaskMap → Except Exc (TaskAnswer × TaskMap)
  | .register taskInput, m => do
    let taskId := taskInput.getD "task_id" .null
    checkConflict m taskId
    let id ← idOf (if taskId.truthy then taskId else .str fresh)
    let e ← TaskEntry.new taskInput id
    return (.wrote e, Function.update m id (some e))
  | .get taskId _, m => do
    let id ← idOf (.str taskId)
    return (.found (m id), m)
  | .update taskId patch, m => do
    let (id, e) ← existing m taskId
    if e.status = .deleted then .error (.taskValidation "cannot update a deleted task")
    else do
      let e ← e.patch patch
      return (.wrote e, Function.update m id (some e))
  | .deregister taskId hardDelete, m => do
    let (id, e) ← existing m taskId
    return if hardDelete then (.removed, Function.update m id none)
      else (.wrote e.tombstone, Function.update m id (some e.tombstone))

/-- A call on the map; one that raises leaves it as it is.  `fresh` is the id
that a task without one is given. -/
def step (fresh : String) (call : TaskCall) (m : TaskMap) : Except Exc TaskAnswer × TaskMap :=
  match outcome fresh call m with
  | .ok (answer, m') => (.ok answer, m')
  | .error e => (.error e, m)

/-- Calls one after another, with the fresh id of each. -/
def steps : List (String × TaskCall) → TaskMap → List (Except Exc TaskAnswer) × TaskMap
  | [], m => ([], m)
  | (fresh, call) :: calls, m =>
    let (answer, m) := step fresh call m
    let (answers, m) := steps calls m
    (answer :: answers, m)

end TaskMap

/-! ### The service -/

namespace TaskCall

/-- A call at a node, answered up to times and placements. -/
def program (s : Service) : TaskCall → M TaskAnswer
  | .register taskInput => do
    let written ← TaskService.registerTask s taskInput
    pure (.wrote written.task.entry)
  | .get taskId allowReplicaRead => do
    let found ← TaskService.getTask s (.str taskId) allowReplicaRead
    pure (.found (found.map TaskRecord.entry))
  | .update taskId patch => do
    let written ← TaskService.updateTask s taskId patch
    pure (.wrote written.task.entry)
  | .deregister taskId hardDelete => do
    match ← TaskService.deregisterTask s taskId hardDelete with
    | .soft written => pure (.wrote written.task.entry)
    | .hard _ => pure .removed

/-- Calls one after another, each at its node. -/
def runAll (env : Env) : List (Service × TaskCall) → World → List (Except Exc TaskAnswer) × World
  | [], w => ([], w)
  | (s, call) :: calls, w =>
    let (answer, w) := run env (call.program s) w
    let (answers, w) := runAll env calls w
    (answer :: answers, w)

/-- The ids that the environment gave out, or would have, at the start of each
call. -/
def freshIds (env : Env) : List (Service × TaskCall) → World → List (String × TaskCall)
  | [], _ => []
  | (s, call) :: calls, w =>
    (env.newId w.trace.length, call) :: freshIds env calls (run env (call.program s) w).2

end TaskCall

/-! ### Records and entries -/

theorem buildTaskKey_eq (taskId : Json) : buildTaskKey taskId = (TaskMap.idOf taskId).map .task := by
  cases taskId with
  | str s =>
    simp only [buildTaskKey, TaskMap.idOf]
    split_ifs <;> rfl
  | _ => rfl

theorem createTaskRecord_entry (taskInput : Fields) (owner : NodeRef) (k : ℕ) (id : String)
    (now later : ℕ) (replicas : List NodeRef) :
    (createTaskRecord taskInput owner k id now).map (fun r => (r.setReplicaNodes replicas later).entry) =
      TaskEntry.new taskInput id := by
  unfold createTaskRecord TaskEntry.new
  cases requiredTaskFields taskInput with
  | error e => rfl
  | ok fields =>
    cases TaskStatus.ofJson (taskInput.getD "status" (.str "REGISTERED")) with
    | error e => rfl
    | ok status => cases Priority.ofJson (taskInput.getD "priority" (.int 0)) <;> rfl

theorem update_entry (r : TaskRecord) (patch : Fields) (now : ℕ) :
    (r.update patch now).map TaskRecord.entry = r.entry.patch patch := by
  unfold TaskRecord.update TaskEntry.patch
  cases patch.entries.find? fun f => f.1 ∉ TaskRecord.allowed with
  | some f => rfl
  | none =>
    simp only [TaskRecord.entry]
    cases TaskRecord.patched patch "status" TaskStatus.ofJson r.status with
    | error e => rfl
    | ok status =>
      cases TaskRecord.patched patch "result" .ok r.result with
      | error e => rfl
      | ok result =>
        cases TaskRecord.patched patch "error" .ok r.error with
        | error e => rfl
        | ok error =>
          cases TaskRecord.patched patch "payload" TaskRecord.patchedPayload r.payload with
          | error e => rfl
          | ok payload =>
            cases TaskRecord.patched patch "priority" Priority.ofJson r.priority <;> rfl

/-! ### The simulation -/

/-- The stores represent the map: the owner of each id holds its entry, and where
the map has nothing, neither the owner nor a replica has. -/
structure Represents {env : Env} (ring : FixedRing env) (k : ℕ) (s : Stores) (m : TaskMap) :
    Prop where
  owner : ∀ id,
    (∃ r, (s (ring.owner (.task id)).address).get (.task id) = some (.task r) ∧
      m id = some r.entry) ∨
    ((s (ring.owner (.task id)).address).get (.task id) = none ∧ m id = none)
  replicas : ∀ id, m id = none → ∀ n ∈ ring.replicas k (ring.owner (.task id)),
    (s n.address).get (.task id) = none

namespace Represents

variable {env : Env} {ring : FixedRing env} {k : ℕ} {stores stores' : Stores} {m : TaskMap}

/-- Empty stores represent the empty map. -/
theorem empty (h : ∀ a id, (stores a).get (.task id) = none) :
    Represents ring k stores TaskMap.empty :=
  ⟨fun _ => .inr ⟨h _ _, rfl⟩, fun _ _ _ _ => h _ _⟩

/-- A record written at the owner and the replicas is the map's new entry. -/
theorem write (h : Represents ring k stores m) (id : String) (r : TaskRecord)
    (hstores : ∀ a k', (stores' a).get k' =
      if a ∈ (ring.owner (.task id) :: ring.replicas k (ring.owner (.task id))).map
        NodeRef.address ∧ k' = .task id then some (.task r) else (stores a).get k') :
    Represents ring k stores' (Function.update m id (some r.entry)) := by
  refine ⟨fun id' => ?_, fun id' hnone n hn => ?_⟩
  · by_cases hid : id' = id
    · subst hid
      refine .inl ⟨r, ?_, Function.update_self ..⟩
      rw [hstores, if_pos ⟨by simp, rfl⟩]
    · rw [hstores, if_neg (by simp [hid]), Function.update_of_ne hid]
      exact h.owner id'
  · have hid : id' ≠ id := by
      rintro rfl
      simp at hnone
    rw [Function.update_of_ne hid] at hnone
    rw [hstores, if_neg (by simp [hid])]
    exact h.replicas id' hnone n hn

/-- A record deleted at the owner and the replicas is gone from the map. -/
theorem delete (h : Represents ring k stores m) (id : String)
    (hstores : ∀ a k', (stores' a).get k' =
      if a ∈ (ring.owner (.task id) :: ring.replicas k (ring.owner (.task id))).map
        NodeRef.address ∧ k' = .task id then none else (stores a).get k') :
    Represents ring k stores' (Function.update m id none) := by
  refine ⟨fun id' => ?_, fun id' hnone n hn => ?_⟩
  · by_cases hid : id' = id
    · subst hid
      refine .inr ⟨?_, Function.update_self ..⟩
      rw [hstores, if_pos ⟨by simp, rfl⟩]
    · rw [hstores, if_neg (by simp [hid]), Function.update_of_ne hid]
      exact h.owner id'
  · by_cases hid : id' = id
    · subst hid
      rw [hstores, if_pos ⟨by simpa using .inr ⟨n, hn, rfl⟩, rfl⟩]
    · rw [Function.update_of_ne hid] at hnone
      rw [hstores, if_neg (by simp [hid])]
      exact h.replicas id' hnone n hn

end Represents

section Operations

variable {env : Env} {s : Service} {w : World} {m : TaskMap} {taskId : Json} {id : String}

/-- **A read answers with the map's entry.** -/
theorem FixedRing.run_getTask (ring : FixedRing env) (hs : s.node ∈ ring.members)
    (h : Represents ring s.replicationK w.stores m) (hid : TaskMap.idOf taskId = .ok id)
    (allowReplicaRead : Bool) :
    ∃ found, (run env (TaskService.getTask s taskId allowReplicaRead) w).1 = .ok found ∧
      found.map TaskRecord.entry = m id := by
  have hkey : buildTaskKey taskId = .ok (.task id) := by
    rw [buildTaskKey_eq, hid]
    rfl
  obtain ⟨howner, hstores₁⟩ := ring.resolves hs (.task id) w
  obtain ⟨hget, hstores₂⟩ := ring.run_tryGetOnNode hs (.task id) (run env (s.owner (.task id)) w).2
  rw [hstores₁] at hget hstores₂
  unfold TaskService.getTask
  rw [hkey, run_lift_ok_bind, run_bind howner, run_bind hget]
  rcases h.owner id with ⟨r, hr, hm⟩ | ⟨hnone, hm⟩
  · rw [hr]
    exact ⟨some r, rfl, hm.symm⟩
  · rw [hnone]
    refine ⟨none, ?_, hm.symm⟩
    cases allowReplicaRead with
    | false => rfl
    | true =>
      have hread := ring.run_readFromReplicas_none s.replicationK (.task id)
        (w := (run env (s.tryGetOnNode (ring.owner (.task id)) (.task id))
          (run env (s.owner (.task id)) w).2).2)
        fun n (hn : n ∈ ring.replicas s.replicationK (ring.owner (.task id))) => by
          rw [hstores₂]; exact h.replicas id hm n hn
      change (run env (readFromReplicas _ _ _ >>= _) _).1 = _
      rw [run_bind hread]
      rfl

theorem run_getTask_error {e : Exc} (hid : TaskMap.idOf taskId = .error e)
    (allowReplicaRead : Bool) :
    run env (TaskService.getTask s taskId allowReplicaRead) w = (.error e, w) := by
  have hkey : buildTaskKey taskId = .error e := by
    rw [buildTaskKey_eq, hid]
    rfl
  unfold TaskService.getTask
  rw [hkey]
  rfl

/-- **A write reaches the owner and the replicas.** -/
theorem FixedRing.run_store (ring : FixedRing env) (hs : s.node ∈ ring.members) (key : Key)
    (record : TaskRecord) (w : World) :
    (∃ report, (run env (TaskService.store s key (ring.owner key) record) w).1 =
      .ok ⟨record, report⟩) ∧
    ∀ a k', ((run env (TaskService.store s key (ring.owner key) record) w).2.stores a).get k' =
      if a ∈ (ring.owner key :: ring.replicas s.replicationK (ring.owner key)).map
        NodeRef.address ∧ k' = key then some (.task record) else (w.stores a).get k' := by
  obtain ⟨hput, hstores₁⟩ := ring.run_putOnNode hs key (.task record) w
  obtain ⟨hrep, hstores₂⟩ := ring.run_replicateWith s.replicationK
    (.putReplica key (.task record)) replicaRetries (ring.owner key)
    (run env (s.putOnNode (ring.owner key) key (.task record)) w).2
  obtain ⟨w', hrun, hstores⟩ : ∃ w',
      run env (TaskService.store s key (ring.owner key) record) w =
        (.ok ⟨record, report s.replicationK (ring.replicas s.replicationK (ring.owner key))⟩, w') ∧
      w'.stores = FixedRing.serveAll (.putReplica key (.task record))
        (ring.replicas s.replicationK (ring.owner key))
        (w.stores.put (ring.owner key).address key (.task record)) := by
    unfold TaskService.store replicateWrite putWithRetry
    rw [run_bind hput, run_bind hrep]
    exact ⟨_, rfl, hstores₂.trans (by rw [hstores₁])⟩
  rw [hrun]
  refine ⟨⟨_, rfl⟩, fun a k' => ?_⟩
  simp only [hstores, FixedRing.get_serveAll_putReplica, Stores.get_put, List.map_cons,
    List.mem_cons]
  by_cases hk : k' = key
  · by_cases ha : a = (ring.owner key).address <;> simp [hk, ha]
  · simp [hk]

/-- **A hard removal reaches the owner and the replicas.** -/
theorem FixedRing.run_hardDelete (ring : FixedRing env) (hs : s.node ∈ ring.members) (key : Key)
    (w : World) :
    ∃ deleted w', run env (s.deleteOnNode (ring.owner key) key >>= fun _ =>
        deleteReplicas s.replicationK key (ring.owner key) >>= fun deleted =>
          pure (Deregistered.hard deleted)) w = (.ok (.hard deleted), w') ∧
      ∀ a k', (w'.stores a).get k' =
        if a ∈ (ring.owner key :: ring.replicas s.replicationK (ring.owner key)).map
          NodeRef.address ∧ k' = key then none else (w.stores a).get k' := by
  obtain ⟨hdelete, hstores₁⟩ := ring.run_deleteOnNode hs key w
  set w₁ := (run env (s.deleteOnNode (ring.owner key) key) w).2
  obtain ⟨hreplicas, hstores₂⟩ := ring.run_getReplicas s.replicationK (ring.owner key) w₁
  obtain ⟨hvisit, hstores₃⟩ := ring.run_visitAll (.deleteReplica key) replicaRetries
    (ring.replicas s.replicationK (ring.owner key))
    (run env (getReplicas s.replicationK (ring.owner key)) w₁).2
  have hall : (run env (deleteReplicas s.replicationK key (ring.owner key)) w₁).1 =
        .ok (ring.replicas s.replicationK (ring.owner key)) ∧
      (run env (deleteReplicas s.replicationK key (ring.owner key)) w₁).2.stores =
        FixedRing.serveAll (.deleteReplica key) (ring.replicas s.replicationK (ring.owner key))
          (w.stores.delete (ring.owner key).address key) := by
    unfold deleteReplicas deleteWithRetry
    rw [run_bind hreplicas]
    exact ⟨hvisit, hstores₃.trans (by rw [hstores₂, hstores₁])⟩
  rw [run_bind hdelete, run_bind hall.1]
  refine ⟨_, _, rfl, fun a k' => ?_⟩
  simp only [hall.2, FixedRing.get_serveAll_deleteReplica, Stores.get_delete, List.map_cons,
    List.mem_cons]
  by_cases hk : k' = key
  · by_cases ha : a = (ring.owner key).address <;> simp [hk, ha]
  · simp [hk]

/-- The record an operation is about is the map's entry, or not there. -/
theorem FixedRing.run_existingTask (ring : FixedRing env) (hs : s.node ∈ ring.members)
    (h : Represents ring s.replicationK w.stores m) {taskId : String}
    (hid : TaskMap.idOf (.str taskId) = .ok id) :
    (∃ r, (run env (TaskService.existingTask s taskId) w).1 = .ok r ∧ m id = some r.entry) ∨
    ((run env (TaskService.existingTask s taskId) w).1 =
      .error (.taskNotFound ("task not found: " ++ taskId)) ∧ m id = none) := by
  obtain ⟨found, hget, hm⟩ := ring.run_getTask hs h hid true
  unfold TaskService.existingTask
  rw [run_bind hget, ← hm]
  cases found with
  | some r => exact .inl ⟨r, rfl, rfl⟩
  | none => exact .inr ⟨rfl, rfl⟩

end Operations

/-! ### One call -/

/-- A call ended as it ends on the map, and changed no store when it raised. -/
structure Simulates {env : Env} (ring : FixedRing env) (k : ℕ) (w : World)
    (x : Except Exc TaskAnswer × World) (y : Except Exc TaskAnswer × TaskMap) : Prop where
  answer : x.1 = y.1
  represents : Represents ring k x.2.stores y.2
  raised : ∀ e, x.1 = .error e → x.2.stores = w.stores

section Calls

variable {env : Env} {ring : FixedRing env} {s : Service} {w w' : World} {m m' : TaskMap}
  {x : Except Exc TaskAnswer} {answer : TaskAnswer}

/-- A call that answers and writes nothing, or raises. -/
theorem Simulates.of_reads (h : Represents ring s.replicationK w.stores m)
    (hstores : w'.stores = w.stores) : Simulates ring s.replicationK w (x, w') (x, m) :=
  ⟨rfl, hstores ▸ h, fun _ _ => hstores⟩

/-- A call that answers after a write. -/
theorem Simulates.of_ok (h : Represents ring s.replicationK w'.stores m') :
    Simulates ring s.replicationK w (.ok answer, w') (.ok answer, m') :=
  ⟨rfl, h, fun _ he => by cases he⟩

theorem simulates_get (hs : s.node ∈ ring.members)
    (h : Represents ring s.replicationK w.stores m) (taskId : String) (allow : Bool)
    (fresh : String) :
    Simulates ring s.replicationK w (run env ((TaskCall.get taskId allow).program s) w)
      (TaskMap.step fresh (.get taskId allow) m) := by
  rw [TaskCall.program]
  cases hid : TaskMap.idOf (.str taskId) with
  | error e =>
    have hstep : TaskMap.step fresh (.get taskId allow) m = (.error e, m) := by
      simp only [TaskMap.step, TaskMap.outcome, hid]
      rfl
    rw [run_bind_eq_error (run_getTask_error hid allow), hstep]
    exact .of_reads h rfl
  | ok id =>
    have hstep : TaskMap.step fresh (.get taskId allow) m = (.ok (.found (m id)), m) := by
      simp only [TaskMap.step, TaskMap.outcome, hid]
      rfl
    obtain ⟨found, hget, hm⟩ := ring.run_getTask hs h hid allow
    rw [run_bind hget, run_pure, hm, hstep]
    have hstores := (Only.getTask s (.str taskId) allow).stores env w
    exact .of_reads h hstores

/-- The head of `update_task` and `deregister_task`: the id is checked, the owner
resolved and the record read, before `f` goes on.  It raises as the map does, or
`f` goes on with a record of the map's entry. -/
theorem run_existing (ring : FixedRing env) (hs : s.node ∈ ring.members)
    (h : Represents ring s.replicationK w.stores m) {α : Type} (taskId : String)
    (f : Key → NodeRef → TaskRecord → M α) :
    (∃ e w', run env (lift (buildTaskKey (.str taskId)) >>= fun key => s.owner key >>= fun primary =>
        TaskService.existingTask s taskId >>= fun existing => f key primary existing) w =
          (.error e, w') ∧
        TaskMap.existing m taskId = .error e ∧ w'.stores = w.stores) ∨
    ∃ id r w', run env (lift (buildTaskKey (.str taskId)) >>= fun key => s.owner key >>= fun primary =>
        TaskService.existingTask s taskId >>= fun existing => f key primary existing) w =
          run env (f (.task id) (ring.owner (.task id)) r) w' ∧
        TaskMap.existing m taskId = .ok (id, r.entry) ∧ w'.stores = w.stores := by
  cases hid : TaskMap.idOf (.str taskId) with
  | error e =>
    refine .inl ⟨e, w, ?_, ?_, rfl⟩
    · rw [buildTaskKey_eq, hid]
      rfl
    · rw [TaskMap.existing, hid]
      rfl
  | ok id =>
    obtain ⟨howner, hstores⟩ := ring.resolves hs (.task id) w
    have hkey : buildTaskKey (.str taskId) = .ok (.task id) := by
      rw [buildTaskKey_eq, hid]
      rfl
    have hstores' := ((Only.existingTask s taskId).stores env (run env (s.owner (.task id)) w).2).trans
      hstores
    rw [hkey, run_lift_ok_bind, run_bind howner]
    rw [← hstores] at h
    rcases ring.run_existingTask hs h hid with ⟨r, hr, hm⟩ | ⟨hr, hm⟩
    · refine .inr ⟨id, r, _, run_bind hr, ?_, hstores'⟩
      simp only [TaskMap.existing, hid]
      change (match m id with | some e => _ | none => _) = _
      rw [hm]
    · refine .inl ⟨_, _, run_bind_error hr, ?_, hstores'⟩
      simp only [TaskMap.existing, hid]
      change (match m id with | some e => _ | none => _) = _
      rw [hm]

/-- The write that ends a call. -/
theorem simulates_store (ring : FixedRing env) (hs : s.node ∈ ring.members)
    (h : Represents ring s.replicationK w'.stores m) (id : String) (r : TaskRecord) :
    ∃ x w'', run env (TaskService.store s (.task id) (ring.owner (.task id)) r) w' = (.ok x, w'') ∧
      x.task = r ∧
      Represents ring s.replicationK w''.stores (Function.update m id (some r.entry)) := by
  obtain ⟨⟨report, hrun⟩, hstores⟩ := ring.run_store hs (.task id) r w'
  exact ⟨_, _, Prod.ext hrun rfl, rfl, h.write id r hstores⟩

theorem simulates_update (hs : s.node ∈ ring.members)
    (h : Represents ring s.replicationK w.stores m) (taskId : String) (patch : Fields)
    (fresh : String) :
    Simulates ring s.replicationK w (run env ((TaskCall.update taskId patch).program s) w)
      (TaskMap.step fresh (.update taskId patch) m) := by
  rw [TaskCall.program]
  rcases run_existing ring hs h taskId (fun key primary existing =>
      if existing.status = .deleted then raise (.taskValidation "cannot update a deleted task")
      else act .now >>= fun now => lift (existing.update patch now) >>= fun updated =>
        TaskService.store s key primary updated) with
    ⟨e, w₁, hrun, hm, hstores⟩ | ⟨id, r, w₁, hrun, hm, hstores⟩
  · have hrun' : run env (TaskService.updateTask s taskId patch) w = (.error e, w₁) := hrun
    rw [run_bind_eq_error hrun', TaskMap.step, TaskMap.outcome, hm]
    exact .of_reads h hstores
  · have hrun' : run env (TaskService.updateTask s taskId patch) w = _ := hrun
    have h₁ : Represents ring s.replicationK w₁.stores m := hstores ▸ h
    by_cases hdel : r.status = .deleted
    · rw [if_pos hdel] at hrun'
      have hdel' : r.entry.status = .deleted := hdel
      have hstep : TaskMap.step fresh (.update taskId patch) m =
          (.error (.taskValidation "cannot update a deleted task"), m) := by
        simp only [TaskMap.step, TaskMap.outcome, hm, Bind.bind, Except.bind, if_pos hdel']
      rw [run_bind_eq_error (hrun'.trans rfl), hstep]
      exact .of_reads h hstores
    · have hdel' : r.entry.status ≠ .deleted := hdel
      rw [if_neg hdel, run_act_bind] at hrun'
      have hentry := update_entry r patch (env.now w₁.trace.length)
      cases hupdate : r.update patch (env.now w₁.trace.length) with
      | error e =>
        rw [hupdate] at hentry
        have hstep : TaskMap.step fresh (.update taskId patch) m = (.error e, m) := by
          simp only [TaskMap.step, TaskMap.outcome, hm, Bind.bind, Except.bind, if_neg hdel', ← hentry,
            Except.map]
        have hnow : (handle env .now w₁).1 = env.now w₁.trace.length := rfl
        rw [hnow, hupdate] at hrun'
        rw [run_bind_eq_error (hrun'.trans rfl), hstep]
        exact .of_reads h hstores
      | ok updated =>
        rw [hupdate] at hentry
        have hstep : TaskMap.step fresh (.update taskId patch) m =
            (.ok (.wrote updated.entry), Function.update m id (some updated.entry)) := by
          simp only [TaskMap.step, TaskMap.outcome, hm, Bind.bind, Except.bind, if_neg hdel', ← hentry,
            Except.map]
          rfl
        have hnow : (handle env .now w₁).1 = env.now w₁.trace.length := rfl
        have h₂ : Represents ring s.replicationK (handle env .now w₁).2.stores m := h₁
        obtain ⟨x, w₂, hstore, rfl, hrep⟩ := simulates_store ring hs h₂ id updated
        rw [hnow, hupdate, run_lift_ok_bind, hstore] at hrun'
        rw [run_bind_eq_ok hrun', run_pure, hstep]
        exact .of_ok hrep

theorem simulates_deregister (hs : s.node ∈ ring.members)
    (h : Represents ring s.replicationK w.stores m) (taskId : String) (hardDelete : Bool)
    (fresh : String) :
    Simulates ring s.replicationK w
      (run env ((TaskCall.deregister taskId hardDelete).program s) w)
      (TaskMap.step fresh (.deregister taskId hardDelete) m) := by
  rw [TaskCall.program]
  rcases run_existing ring hs h taskId (fun key primary existing =>
      if hardDelete = true then s.deleteOnNode primary key >>= fun _ =>
        deleteReplicas s.replicationK key primary >>= fun deleted =>
          pure (Deregistered.hard deleted)
      else act .now >>= fun now =>
        TaskService.store s key primary (existing.markDeleted now) >>= fun written =>
          pure (Deregistered.soft written)) with
    ⟨e, w₁, hrun, hm, hstores⟩ | ⟨id, r, w₁, hrun, hm, hstores⟩
  · have hrun' : run env (TaskService.deregisterTask s taskId hardDelete) w = (.error e, w₁) := hrun
    rw [run_bind_eq_error hrun', TaskMap.step, TaskMap.outcome, hm]
    exact .of_reads h hstores
  · have hrun' : run env (TaskService.deregisterTask s taskId hardDelete) w = _ := hrun
    have h₁ : Represents ring s.replicationK w₁.stores m := hstores ▸ h
    cases hardDelete with
    | true =>
      obtain ⟨deleted, w₂, hdelete, hstores₂⟩ := ring.run_hardDelete hs (.task id) w₁
      have hstep : TaskMap.step fresh (.deregister taskId true) m =
          (.ok .removed, Function.update m id none) := by
        simp only [TaskMap.step, TaskMap.outcome, hm, Bind.bind, Except.bind]
        rfl
      rw [if_pos rfl, hdelete] at hrun'
      rw [run_bind_eq_ok hrun', run_pure, hstep]
      exact .of_ok (h₁.delete id hstores₂)
    | false =>
      have h₂ : Represents ring s.replicationK (handle env .now w₁).2.stores m := h₁
      obtain ⟨x, w₂, hstore, hx, hrep⟩ := simulates_store ring hs h₂ id
        (r.markDeleted (env.now w₁.trace.length))
      have hstep : TaskMap.step fresh (.deregister taskId false) m =
          (.ok (.wrote r.entry.tombstone), Function.update m id (some r.entry.tombstone)) := by
        simp only [TaskMap.step, TaskMap.outcome, hm, Bind.bind, Except.bind]
        rfl
      have hnow : (handle env .now w₁).1 = env.now w₁.trace.length := rfl
      rw [if_neg Bool.false_ne_true, run_act_bind, hnow, run_bind_eq_ok hstore, run_pure] at hrun'
      rw [run_bind_eq_ok hrun', run_pure, hstep, hx]
      exact .of_ok hrep

/-- The conflict check raises as the map's does, and changes no store. -/
theorem run_checkConflict (ring : FixedRing env) (hs : s.node ∈ ring.members)
    (h : Represents ring s.replicationK w.stores m) (taskId : Json) :
    (run env (TaskService.checkConflict s taskId) w).1 = TaskMap.checkConflict m taskId ∧
      (run env (TaskService.checkConflict s taskId) w).2.stores = w.stores := by
  unfold TaskService.checkConflict TaskMap.checkConflict
  split_ifs with ht
  · cases hid : TaskMap.idOf taskId with
    | error e =>
      rw [run_bind_eq_error (run_getTask_error hid true)]
      exact ⟨rfl, rfl⟩
    | ok id =>
      have hstores := (Only.getTask s taskId true).stores env w
      obtain ⟨found, hget, hm⟩ := ring.run_getTask hs h hid true
      rw [run_bind hget]
      simp only [Bind.bind, Except.bind]
      rw [← hm]
      cases found with
      | none => exact ⟨rfl, hstores⟩
      | some r =>
        by_cases hdel : r.status = .deleted
        · have hdel' : r.entry.status = .deleted := hdel
          simp only [Option.map_some, if_pos hdel, if_pos hdel']
          exact ⟨rfl, hstores⟩
        · have hdel' : r.entry.status ≠ .deleted := hdel
          simp only [Option.map_some, if_neg hdel, if_neg hdel']
          exact ⟨rfl, hstores⟩
  · exact ⟨rfl, rfl⟩

/-- The id of a task: where the input names none, nothing was performed before the
fresh one is asked for. -/
theorem run_candidate (ring : FixedRing env) (hs : s.node ∈ ring.members)
    (h : Represents ring s.replicationK w.stores m) (taskId : Json) {α : Type} (f : Json → M α) :
    (∃ e w', run env (TaskService.checkConflict s taskId >>= fun _ =>
        TaskService.candidateId taskId >>= f) w = (.error e, w') ∧
      TaskMap.checkConflict m taskId = .error e ∧ w'.stores = w.stores) ∨
    ∃ w', run env (TaskService.checkConflict s taskId >>= fun _ =>
        TaskService.candidateId taskId >>= f) w =
          run env (f (if taskId.truthy then taskId else .str (env.newId w.trace.length))) w' ∧
      TaskMap.checkConflict m taskId = .ok () ∧ w'.stores = w.stores := by
  obtain ⟨hcheck, hstores⟩ := run_checkConflict ring hs h taskId
  cases hm : TaskMap.checkConflict m taskId with
  | error e =>
    rw [hm] at hcheck
    exact .inl ⟨e, _, run_bind_error hcheck, rfl, hstores⟩
  | ok u =>
    rw [hm] at hcheck
    unfold TaskService.candidateId
    rw [run_bind hcheck]
    by_cases ht : taskId.truthy = true
    · simp only [if_pos ht]
      exact .inr ⟨_, rfl, trivial, hstores⟩
    · have hnothing : (run env (TaskService.checkConflict s taskId) w).2 = w := by
        unfold TaskService.checkConflict
        rw [if_neg ht]
        rfl
      simp only [if_neg ht, hnothing]
      exact .inr ⟨(handle env .newId w).2, rfl, trivial, rfl⟩

/-- What `register_task` does once it has an id. -/
def TaskService.registerAs (s : Service) (taskInput : Fields) (candidate : Json) : M TaskWritten := do
  let key ← lift (buildTaskKey candidate)
  let primary ← s.owner key
  let created : ℕ ← act .now
  let record ← lift (createTaskRecord taskInput primary s.replicationK (keyId key) created)
  let replicas ← getReplicas s.replicationK primary
  let updated : ℕ ← act .now
  store s key primary (record.setReplicaNodes replicas updated)

theorem registerTask_eq (s : Service) (taskInput : Fields) : TaskService.registerTask s taskInput =
    TaskService.checkConflict s (taskInput.getD "task_id" .null) >>= fun _ =>
      TaskService.candidateId (taskInput.getD "task_id" .null) >>=
        TaskService.registerAs s taskInput := rfl

/-- A registration takes the id that the input names, where nothing is read under it. -/
theorem run_registerTask_named {taskInput : Fields} {taskId : String} (hne : taskId ≠ "")
    (hinput : taskInput.getD "task_id" .null = .str taskId)
    (hget : (run env (TaskService.getTask s (.str taskId) true) w).1 = .ok none) :
    run env (TaskService.registerTask s taskInput) w =
      run env (TaskService.registerAs s taskInput (.str taskId))
        (run env (TaskService.checkConflict s (.str taskId)) w).2 := by
  have htruthy : (Json.str taskId).truthy = true := decide_eq_true hne
  have hcheck : (run env (TaskService.checkConflict s (.str taskId)) w).1 = .ok () := by
    unfold TaskService.checkConflict
    rw [if_pos htruthy, run_bind hget]
    rfl
  have hcandidate : TaskService.candidateId (.str taskId) = pure (.str taskId) := if_pos htruthy
  rw [registerTask_eq, hinput, run_bind hcheck, hcandidate]
  rfl

/-- **A registration reaches the owner and the replicas**, unless the input is refused. -/
theorem FixedRing.run_registerAs (ring : FixedRing env) (hs : s.node ∈ ring.members) {candidate : Json}
    {id : String} (hid : TaskMap.idOf candidate = .ok id) (taskInput : Fields) (w : World) :
    ∃ created updated,
      (∀ e, createTaskRecord taskInput (ring.owner (.task id)) s.replicationK id created = .error e →
        ∃ w', run env (TaskService.registerAs s taskInput candidate) w = (.error e, w') ∧
          w'.stores = w.stores) ∧
      ∀ r, createTaskRecord taskInput (ring.owner (.task id)) s.replicationK id created = .ok r →
        ∃ report w', run env (TaskService.registerAs s taskInput candidate) w =
          (.ok ⟨r.setReplicaNodes (ring.replicas s.replicationK (ring.owner (.task id))) updated,
            report⟩, w') ∧
          ∀ a k', (w'.stores a).get k' =
            if a ∈ (ring.owner (.task id) :: ring.replicas s.replicationK (ring.owner (.task id))).map
              NodeRef.address ∧ k' = .task id then some (.task (r.setReplicaNodes
                (ring.replicas s.replicationK (ring.owner (.task id))) updated))
            else (w.stores a).get k' := by
  have hkey : buildTaskKey candidate = .ok (.task id) := by
    rw [buildTaskKey_eq, hid]
    rfl
  have hkeyId : TaskService.keyId (.task id) = id := rfl
  obtain ⟨howner, hstores₁⟩ := ring.resolves hs (.task id) w
  generalize hw₁ : (run env (s.owner (.task id)) w).2 = w₁ at hstores₁
  have hnow : (handle env .now w₁).1 = env.now w₁.trace.length := rfl
  obtain ⟨hreplicas, hstores₂⟩ := ring.run_getReplicas s.replicationK (ring.owner (.task id))
    (handle env .now w₁).2
  generalize hw₂ : (run env (getReplicas s.replicationK (ring.owner (.task id)))
    (handle env .now w₁).2).2 = w₂ at hstores₂
  have hnow₂ : (handle env .now w₂).1 = env.now w₂.trace.length := rfl
  have hstores : (handle env .now w₂).2.stores = w.stores := hstores₂.trans hstores₁
  refine ⟨env.now w₁.trace.length, env.now w₂.trace.length, fun e hnew => ?_, fun r hnew => ?_⟩
  · refine ⟨(handle env .now w₁).2, ?_, hstores₁⟩
    unfold TaskService.registerAs
    rw [hkey, run_lift_ok_bind, run_bind howner, hw₁, run_act_bind, hnow, hkeyId, hnew]
    rfl
  · obtain ⟨⟨report, hstore⟩, hget⟩ := ring.run_store hs (.task id) (r.setReplicaNodes
      (ring.replicas s.replicationK (ring.owner (.task id))) (env.now w₂.trace.length))
      (handle env .now w₂).2
    rw [hstores] at hget
    refine ⟨report, _, ?_, hget⟩
    unfold TaskService.registerAs
    rw [hkey, run_lift_ok_bind, run_bind howner, hw₁, run_act_bind, hnow, hkeyId, hnew,
      run_lift_ok_bind, run_bind hreplicas, hw₂, run_act_bind, hnow₂]
    exact Prod.ext hstore rfl

theorem simulates_register (hs : s.node ∈ ring.members)
    (h : Represents ring s.replicationK w.stores m) (taskInput : Fields) :
    Simulates ring s.replicationK w (run env ((TaskCall.register taskInput).program s) w)
      (TaskMap.step (env.newId w.trace.length) (.register taskInput) m) := by
  rw [TaskCall.program, registerTask_eq]
  rcases run_candidate ring hs h (taskInput.getD "task_id" .null) (TaskService.registerAs s taskInput)
    with ⟨e, w₁, hrun, hm, hstores⟩ | ⟨w₁, hrun, hm, hstores⟩
  · rw [run_bind_eq_error hrun, TaskMap.step, TaskMap.outcome, hm]
    exact .of_reads h hstores
  · have h₁ : Represents ring s.replicationK w₁.stores m := hstores ▸ h
    generalize hcand : (if (taskInput.getD "task_id" .null).truthy = true then
      taskInput.getD "task_id" .null else .str (env.newId w.trace.length)) = candidate at hrun
    cases hid : TaskMap.idOf candidate with
    | error e =>
      have hstep : TaskMap.step (env.newId w.trace.length) (.register taskInput) m =
          (.error e, m) := by
        simp only [TaskMap.step, TaskMap.outcome, hm, hcand, hid, Bind.bind, Except.bind]
      have hraise : run env (TaskService.registerAs s taskInput candidate) w₁ = (.error e, w₁) := by
        unfold TaskService.registerAs
        rw [buildTaskKey_eq, hid]
        rfl
      rw [run_bind_eq_error (hrun.trans hraise), hstep]
      exact .of_reads h hstores
    | ok id =>
      obtain ⟨created, updated, herror, hok⟩ := ring.run_registerAs hs hid taskInput w₁
      have hentry := createTaskRecord_entry taskInput (ring.owner (.task id)) s.replicationK id
        created updated (ring.replicas s.replicationK (ring.owner (.task id)))
      cases hnew : createTaskRecord taskInput (ring.owner (.task id)) s.replicationK id created with
      | error e =>
        obtain ⟨w₂, hraise, hstores₂⟩ := herror e hnew
        rw [hnew] at hentry
        have hstep : TaskMap.step (env.newId w.trace.length) (.register taskInput) m =
            (.error e, m) := by
          simp only [TaskMap.step, TaskMap.outcome, hm, hcand, hid, ← hentry, Bind.bind,
            Except.bind, Except.map]
        rw [run_bind_eq_error (hrun.trans hraise), hstep]
        exact .of_reads h (hstores₂.trans hstores)
      | ok r =>
        obtain ⟨report, w₂, hstore, hget⟩ := hok r hnew
        rw [hnew] at hentry
        have hstep : TaskMap.step (env.newId w.trace.length) (.register taskInput) m =
            (.ok (.wrote (r.setReplicaNodes (ring.replicas s.replicationK (ring.owner (.task id)))
              updated).entry), Function.update m id (some (r.setReplicaNodes
                (ring.replicas s.replicationK (ring.owner (.task id))) updated).entry)) := by
          simp only [TaskMap.step, TaskMap.outcome, hm, hcand, hid, ← hentry, Bind.bind,
            Except.bind, Except.map]
          rfl
        rw [run_bind_eq_ok (hrun.trans hstore), run_pure, hstep]
        exact .of_ok (h₁.write id _ hget)

/-- **A call ends as it ends on the map.** -/
theorem FixedRing.simulates_step (ring : FixedRing env) (hs : s.node ∈ ring.members)
    (h : Represents ring s.replicationK w.stores m) (call : TaskCall) :
    Simulates ring s.replicationK w (run env (call.program s) w)
      (TaskMap.step (env.newId w.trace.length) call m) := by
  cases call with
  | register taskInput => exact simulates_register hs h taskInput
  | get taskId allowReplicaRead => exact simulates_get hs h taskId allowReplicaRead _
  | update taskId patch => exact simulates_update hs h taskId patch _
  | deregister taskId hardDelete => exact simulates_deregister hs h taskId hardDelete _

end Calls

/-! ### A sequence of calls -/

section Sequence

variable {env : Env} {w : World} {m : TaskMap} {k : ℕ} {calls : List (Service × TaskCall)}

/-- Calls issued at members end as they end on the map, and the stores after them
represent the map after them. -/
theorem FixedRing.simulates_steps (ring : FixedRing env)
    (hcalls : ∀ c ∈ calls, c.1.node ∈ ring.members ∧ c.1.replicationK = k)
    (h : Represents ring k w.stores m) :
    (TaskCall.runAll env calls w).1 = (TaskMap.steps (TaskCall.freshIds env calls w) m).1 ∧
      Represents ring k (TaskCall.runAll env calls w).2.stores
        (TaskMap.steps (TaskCall.freshIds env calls w) m).2 := by
  induction calls generalizing w m with
  | nil => exact ⟨rfl, h⟩
  | cons c calls ih =>
    obtain ⟨s, call⟩ := c
    obtain ⟨hs, rfl⟩ := hcalls (s, call) List.mem_cons_self
    obtain ⟨hanswer, hrep, -⟩ := ring.simulates_step hs h call
    obtain ⟨hanswers, hreps⟩ := ih (fun c hc => hcalls c (List.mem_cons_of_mem _ hc)) hrep
    exact ⟨congrArg₂ List.cons hanswer hanswers, hreps⟩

/-- **The task service refines one map.**  From stores without tasks, calls issued
at any members of a ring of fixed membership answer as the map does, and a call
that raises changes no store. -/
theorem FixedRing.refines_taskMap (ring : FixedRing env)
    (hcalls : ∀ c ∈ calls, c.1.node ∈ ring.members ∧ c.1.replicationK = k)
    (hempty : ∀ a id, (w.stores a).get (.task id) = none) :
    (TaskCall.runAll env calls w).1 =
        (TaskMap.steps (TaskCall.freshIds env calls w) TaskMap.empty).1 ∧
      ∀ before s call after e, calls = before ++ (s, call) :: after →
        (run env (call.program s) (TaskCall.runAll env before w).2).1 = .error e →
        (run env (call.program s) (TaskCall.runAll env before w).2).2.stores =
          (TaskCall.runAll env before w).2.stores := by
  refine ⟨(ring.simulates_steps hcalls (.empty hempty)).1, ?_⟩
  rintro before s call after e rfl he
  obtain ⟨hs, rfl⟩ := hcalls (s, call) (by simp)
  have hbefore : ∀ c ∈ before, c.1.node ∈ ring.members ∧ c.1.replicationK = s.replicationK :=
    fun c hc => hcalls c (List.mem_append_left _ hc)
  obtain ⟨-, hrep⟩ := ring.simulates_steps hbefore (.empty hempty)
  exact (ring.simulates_step hs hrep call).raised e he

end Sequence

namespace ThreeNodes

/-- A task is registered at `nodeB`, removed at `nodeC` and registered again at
`nodeA`, and removed for good at `nodeB`. -/
def calls : List (Service × TaskCall) :=
  [(services nodeB, .register taskInput), (services nodeC, .deregister "t" false),
    (services nodeA, .register taskInput), (services nodeB, .deregister "t" true),
    (services nodeC, .get "t" true)]

end ThreeNodes

/-- The hypotheses of `FixedRing.refines_taskMap` are satisfiable: three nodes,
and a task registered, removed, registered again and removed for good. -/
theorem refines_taskMap_threeNodes :
    (TaskCall.runAll (ThreeNodes.env fun _ _ _ => .delivered) ThreeNodes.calls World.empty).1 =
      (TaskMap.steps (TaskCall.freshIds (ThreeNodes.env fun _ _ _ => .delivered) ThreeNodes.calls
        World.empty) TaskMap.empty).1 := by
  refine (FixedRing.refines_taskMap (k := 3) ThreeNodes.ring ?_ fun _ _ => rfl).1
  intro c hc
  simp only [ThreeNodes.calls, List.mem_cons, List.not_mem_nil, or_false] at hc
  rcases hc with rfl | rfl | rfl | rfl | rfl
  · exact ⟨.inr (.inl rfl), rfl⟩
  · exact ⟨.inr (.inr rfl), rfl⟩
  · exact ⟨.inl rfl, rfl⟩
  · exact ⟨.inr (.inl rfl), rfl⟩
  · exact ⟨.inr (.inr rfl), rfl⟩

end Storage
end ChordInfra
