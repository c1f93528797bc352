/-
# One map behind two front ends

The tasks of the ring are reached over HTTP (`POST`, `GET`, `PATCH` and `DELETE` of `/tasks` in
`chord/server.py`) and over gRPC (`RegisterTask`, `GetTask` and `DeregisterTask` of
`api/grpc_server.py`), at every node.  What a client is told is what one map says, whichever front end
and whichever node the calls go through (`frontEnds_refine`).

A message has fields of fixed width, so a record with numbers that do not fit can be kept and read over
HTTP and not be sent over gRPC.  Ids reach the handlers as they are, and texts have a UTF-8 form.
-/

import ChordInfra.Api.TaskServicer
import ChordInfra.Storage.Interference
import ChordInfra.Storage.Serving

namespace ChordInfra
namespace Api

open Interact Prog
open Storage
open ChordInfra.Ring (NodeRef)

/-! ### The handlers -/

/-- An answer that is an error: its status with the code and the message of its body, or the status
500 with the code `INTERNAL_ERROR` and the text of an exception. -/
inductive HttpError
  | refused (status : ℕ) (code message : String)
  | internal (e : Exc)

/-- An HTTP answer: its status and the data, or an error. -/
abbrev Http (α : Type) := Except HttpError (ℕ × α)

/-- The answer that is made of a `TaskValidationError`. -/
def invalid (message : String) : HttpError := .refused 422 "VALIDATION_ERROR" message

/-- The answer that is made of a `TaskNotFoundError`. -/
def notFound (message : String) : HttpError := .refused 404 "TASK_NOT_FOUND" message

section Handlers

variable (t : JsonText) (s : Service)

/-- `POST /tasks`. -/
def postTask (payload : Fields) : M (Http TaskWritten) := do
  match ← attempt (TaskService.registerTask s payload) with
  | .ok result => pure (.ok (201, result))
  | .error (.taskValidation message) => pure (.error (invalid message))
  | .error (.taskConflict message) => pure (.error (.refused 409 "TASK_CONFLICT" message))
  | .error e => pure (.error (.internal e))

/-- `GET /tasks/<task_id>`. -/
def readTask (taskId : String) (allowReplicaRead : Bool) : M (Http TaskRecord) := do
  match ← attempt (TaskService.getTask s (.str taskId) allowReplicaRead) with
  | .ok (some task) => pure (.ok (200, task))
  | .ok none => pure (.error (notFound ("task not found: " ++ taskId)))
  | .error (.taskValidation message) => pure (.error (invalid message))
  | .error e => raise e

/-- `PATCH /tasks/<task_id>`. -/
def patchTask (taskId : String) (patch : Fields) : M (Http TaskWritten) := do
  match ← attempt (TaskService.updateTask s taskId patch) with
  | .ok result => pure (.ok (200, result))
  | .error (.taskNotFound message) => pure (.error (notFound message))
  | .error (.taskValidation message) => pure (.error (invalid message))
  | .error e => raise e

/-- `DELETE /tasks/<task_id>`. -/
def deleteTask (taskId : String) (hardDelete : Bool) : M (Http Deregistered) := do
  match ← attempt (TaskService.deregisterTask s taskId hardDelete) with
  | .ok result => pure (.ok (200, result))
  | .error (.taskNotFound message) => pure (.error (notFound message))
  | .error (.taskValidation message) => pure (.error (invalid message))
  | .error e => raise e

/-- The message `DeregisterTaskResponse`, without the key and the state of the replication. -/
structure DeregisterTaskResponse where
  taskId : String
  hardDelete : Bool

/-- `result["hard_delete"]`. -/
def isHard : Deregistered → Bool
  | .soft _ => false
  | .hard _ => true

/-- `DeregisterTask`. -/
def deregisterTask (taskId : String) (hardDelete : Bool) : M (Reply DeregisterTaskResponse) := do
  match ← attempt (TaskService.deregisterTask s taskId hardDelete) with
  | .ok result => pure (.ok ⟨taskId, isHard result⟩)
  | .error (.taskNotFound message) => pure (.error (.notFound, message))
  | .error (.taskValidation message) => pure (.error (.invalidArgument, message))
  | .error e => raise e

end Handlers

/-! ### What a client is told -/

/-- What a message says of a record, besides its times and its placement. -/
structure EntryMessage where
  taskId : String
  jobId : String
  type : String
  payloadJson : String
  priority : ℤ
  status : String
  resultJson : String
  errorJson : String
  version : ℤ
  deleted : Bool

/-- The part of a message that is about the task. -/
def TaskRecordMessage.entry (m : TaskRecordMessage) : EntryMessage :=
  ⟨m.taskId, m.jobId, m.type, m.payloadJson, m.priority.val, m.status, m.resultJson, m.errorJson,
    m.version.val, m.deleted⟩

/-- The message of an entry. -/
def message (t : JsonText) (e : TaskEntry) : EntryMessage :=
  ⟨e.taskId, e.jobId, e.type, jsonDumps t e.payload, priorityValue e.priority, e.status.text,
    jsonDumps t e.result, jsonDumps t e.error, e.version, e.deleted⟩

/-- The numbers of the entry fit their fields. -/
def Sendable (e : TaskEntry) : Prop := FitsIn 32 (priorityValue e.priority) ∧ FitsIn 64 e.version

instance (e : TaskEntry) : Decidable (Sendable e) := inferInstanceAs (Decidable (_ ∧ _))

/-- What a client is told by an answer, times and placements left out: a record over HTTP, a record
over gRPC, that a task was removed, an error of either front end, or that the handler failed. -/
inductive Told
  | record (status : ℕ) (e : TaskEntry)
  | message (m : EntryMessage)
  | removed (hard : Bool)
  | refused (status : ℕ) (code message : String)
  | error (code : StatusCode) (details : String)
  | failed

/-- What an HTTP answer tells, or a handler that raised. -/
def toldHttp {α : Type} (tell : ℕ → α → Told) : Except Exc (Http α) → Told
  | .ok (.ok (status, a)) => tell status a
  | .ok (.error (.refused status code message)) => .refused status code message
  | .ok (.error (.internal _)) => .failed
  | .error _ => .failed

/-- What a gRPC answer tells, or a handler that raised. -/
def toldReply {α : Type} (tell : α → Told) : Except Exc (Reply α) → Told
  | .ok (.ok a) => tell a
  | .ok (.error (code, details)) => .error code details
  | .error _ => .failed

/-- A call of a client. -/
inductive ClientCall
  | post (payload : Fields)
  | read (taskId : String) (allowReplicaRead : Bool)
  | patch (taskId : String) (fields : Fields)
  | delete (taskId : String) (hardDelete : Bool)
  | registerTask (request : RegisterTaskRequest)
  | getTask (taskId : String) (allowReplicaRead : Bool)
  | deregisterTask (taskId : String) (hardDelete : Bool)

namespace ClientCall

variable (t : JsonText)

/-- What the answer to a deletion over HTTP tells. -/
def toldDeleted (status : ℕ) : Deregistered → Told
  | .soft written => .record status written.task.entry
  | .hard _ => .removed true

/-- A call at a node. -/
def program (s : Service) : ClientCall → M Told
  | .post payload => do
    let reply ← attempt (postTask s payload)
    pure (toldHttp (fun status written => .record status written.task.entry) reply)
  | .read taskId allowReplicaRead => do
    let reply ← attempt (readTask s taskId allowReplicaRead)
    pure (toldHttp (fun status task => .record status task.entry) reply)
  | .patch taskId fields => do
    let reply ← attempt (patchTask s taskId fields)
    pure (toldHttp (fun status written => .record status written.task.entry) reply)
  | .delete taskId hardDelete => do
    let reply ← attempt (deleteTask s taskId hardDelete)
    pure (toldHttp toldDeleted reply)
  | .registerTask request => do
    let reply ← attempt (Api.registerTask t s request)
    pure (toldReply (fun response => .message response.task.entry) reply)
  | .getTask taskId allowReplicaRead => do
    let reply ← attempt (Api.getTask t s taskId allowReplicaRead)
    pure (toldReply (fun task => .message task.entry) reply)
  | .deregisterTask taskId hardDelete => do
    let reply ← attempt (Api.deregisterTask s taskId hardDelete)
    pure (toldReply (fun response => .removed response.hardDelete) reply)

/-- Calls one after another, each at its node. -/
def runAll (env : Env) : List (Service × ClientCall) → World → List (Except Exc Told) × World
  | [], w => ([], w)
  | (s, call) :: calls, w =>
    let (told, w) := run env (call.program t s) w
    let (rest, w) := runAll env calls w
    (told :: rest, w)

/-- The ids that the environment gave out, or would have, at the start of each call. -/
def freshIds (env : Env) : List (Service × ClientCall) → World → List (String × ClientCall)
  | [], _ => []
  | (s, call) :: calls, w =>
    (env.newId w.trace.length, call) :: freshIds env calls (run env (call.program t s) w).2

/-! ### On the map -/

/-- The call of the task service that is made for a client, if the text of its payload is JSON. -/
def taskCall : ClientCall → Except String TaskCall
  | .post payload => .ok (.register payload)
  | .read taskId allowReplicaRead => .ok (.get taskId allowReplicaRead)
  | .patch taskId fields => .ok (.update taskId fields)
  | .delete taskId hardDelete => .ok (.deregister taskId hardDelete)
  | .registerTask request =>
    match jsonLoads t request.payloadJson with
    | .ok payload => .ok (.register (taskInput request (orEmptyObject payload)))
    | .error message => .error ("invalid payload_json: " ++ message)
  | .getTask taskId allowReplicaRead => .ok (.get taskId allowReplicaRead)
  | .deregisterTask taskId hardDelete => .ok (.deregister taskId hardDelete)

/-- An entry is told over gRPC when it can be sent. -/
def tellMessage (e : TaskEntry) : Told :=
  if Sendable e then .message (Api.message t e) else .failed

/-- What a client is told of the answer of the task service. -/
def tell : ClientCall → Except Exc TaskAnswer → Told
  | .post _, .ok (.wrote e) => .record 201 e
  | .patch .., .ok (.wrote e) | .delete .., .ok (.wrote e) | .read .., .ok (.found (some e)) =>
    .record 200 e
  | .delete .., .ok .removed | .deregisterTask .., .ok .removed => .removed true
  | .deregisterTask .., .ok (.wrote _) => .removed false
  | .registerTask _, .ok (.wrote e) | .getTask .., .ok (.found (some e)) => tellMessage t e
  | .read taskId _, .ok (.found none) =>
    .refused 404 "TASK_NOT_FOUND" ("task not found: " ++ taskId)
  | .getTask taskId _, .ok (.found none) => .error .notFound ("task not found: " ++ taskId)
  | .post _, .error (.taskValidation message) | .read .., .error (.taskValidation message)
  | .patch .., .error (.taskValidation message) | .delete .., .error (.taskValidation message) =>
    .refused 422 "VALIDATION_ERROR" message
  | .post _, .error (.taskConflict message) => .refused 409 "TASK_CONFLICT" message
  | .patch .., .error (.taskNotFound message) | .delete .., .error (.taskNotFound message) =>
    .refused 404 "TASK_NOT_FOUND" message
  | .registerTask _, .error (.taskValidation message) | .getTask .., .error (.taskValidation message)
  | .deregisterTask .., .error (.taskValidation message) => .error .invalidArgument message
  | .registerTask _, .error (.taskConflict message) => .error .alreadyExists message
  | .deregisterTask .., .error (.taskNotFound message) => .error .notFound message
  | _, _ => .failed

/-- A call on the map; `fresh` is the id that a task without one is given. -/
def step (fresh : String) (call : ClientCall) (m : TaskMap) : Told × TaskMap :=
  match call.taskCall t with
  | .ok c => (call.tell t (TaskMap.step fresh c m).1, (TaskMap.step fresh c m).2)
  | .error message => (.error .invalidArgument message, m)

/-- Calls one after another, with the fresh id of each. -/
def steps : List (String × ClientCall) → TaskMap → List (Except Exc Told) × TaskMap
  | [], m => ([], m)
  | (fresh, call) :: calls, m =>
    let (told, m) := call.step t fresh m
    let (rest, m) := steps calls m
    (.ok told :: rest, m)

end ClientCall

/-! ### Where records are placed -/

/-- The record is of a ring whose services keep `k` copies: its nodes have ids of the ring, and its
replication factor is that of the services. -/
def Placed (k : ℕ) (r : TaskRecord) : Prop :=
  OfRing r ∧ r.placement.replicationFactor = max 1 k

/-- What the services are answered: records that are placed, and nodes of the ring. -/
def Grants (k : ℕ) : (o : Op) → o.Res → Prop
  | .get _ key, x => ∀ id r, key = .task id → x = some (.task r) → Placed k r
  | .findSuccessor .., n => n.id < 2 ^ idBits
  | .rpc _ .getState, x => ∀ n, x = some (some n) → n.id < 2 ^ idBits
  | .rpc _ (.get key), x | .rpc _ (.getReplica key), x =>
    ∀ id r, key = .task id → x = some (some (.task r)) → Placed k r
  | _, _ => True

/-- Only records that are placed are written. -/
def WritesPlaced (k : ℕ) (o : Op) : Prop :=
  ∀ a id r, o.writes = some (a, .task id, .task r) → Placed k r

section Placement

variable {k : ℕ} {s : Service} {α : Type}

/-- What writes nothing. -/
theorem WritesPlaced.of_none {o : Op} (h : o.writes = none) : WritesPlaced k o := by
  intro a id r hr
  rw [h] at hr
  cases hr

/-- What the services read and write. -/
theorem serving (k : ℕ) :
    Serving (Grants k) (WritesPlaced k)
      fun key v => ∀ id r, key = .task id → v = .task r → Placed k r where
  get a key := ⟨.of_none rfl, fun v hv id r hkey hr => hv id r hkey (congrArg some hr)⟩
  rpcGet a key := ⟨.of_none rfl, fun v hv id r hkey hr =>
    hv id r hkey (congrArg (fun v => some (some v)) hr)⟩
  getReplica a key := ⟨.of_none rfl, fun v hv id r hkey hr =>
    hv id r hkey (congrArg (fun v => some (some v)) hr)⟩
  getState a := .of_none rfl
  findSuccessor a key := .of_none rfl
  now := .of_none rfl
  lock a key := .of_none rfl
  unlock a key := .of_none rfl
  deliver a c := .of_none rfl
  writes o a key r ho b id r' h := by
    rw [ho] at h
    cases h

/-- The chain of a node of the ring. -/
theorem does_chainFrom (visited : List Address) {current : NodeRef} (h : current.id < 2 ^ idBits)
    (n : ℕ) : Does (Grants k) (WritesPlaced k) (Replication.chainFrom visited current n)
      fun l => ∀ m ∈ l, m.id < 2 ^ idBits := by
  induction n generalizing visited current with
  | zero => exact .pure (by simp)
  | succ n ih =>
    have hself : ∀ m ∈ [current], m.id < 2 ^ idBits := by simpa using h
    unfold Replication.chainFrom
    refine .ite (fun _ => .pure (by simp)) fun _ => ?_
    have hstate : Does (Grants k) (WritesPlaced k) (Transport.request current.address .getState)
        fun x : Option NodeRef => ∀ m, x = some m → m.id < 2 ^ idBits :=
      Serving.request ((serving k).getState _) fun x hx m hm => hx m (hm ▸ rfl)
    refine .bind hstate.attempt fun x hx => ?_
    split
    case h_1 successor =>
      refine .ite (fun _ => .pure hself) fun _ => ?_
      refine .bind (ih _ (hx _ rfl successor rfl)) fun rest hrest => .pure ?_
      exact List.forall_mem_cons.2 ⟨h, hrest⟩
    case h_2 => exact .pure hself

theorem does_getReplicas (k' : ℕ) {primary : NodeRef} (h : primary.id < 2 ^ idBits) :
    Does (Grants k) (WritesPlaced k) (Replication.getReplicas k' primary)
      fun l => ∀ m ∈ l, m.id < 2 ^ idBits :=
  .bind (does_chainFrom [] h _) fun _ hl => .pure fun m hm => hl m (List.mem_of_mem_tail hm)

theorem does_owner (key : Key) :
    Does (Grants k) (WritesPlaced k) (s.owner key) fun n => n.id < 2 ^ idBits :=
  .perform (.of_none rfl) fun _ h => h

theorem does_getTask (taskId : Json) (allowReplicaRead : Bool) :
    Does (Grants k) (WritesPlaced k) (TaskService.getTask s taskId allowReplicaRead)
      fun x => ∀ r ∈ x, Placed k r := by
  refine .bind (Serving.lift (Q := fun key => ∃ id, key = .task id) fun key hkey => ?_) ?_
  · rw [buildTaskKey_eq] at hkey
    cases hid : TaskMap.idOf taskId with
    | ok id =>
      rw [hid] at hkey
      exact ⟨id, (Except.ok.inj hkey).symm⟩
    | error e =>
      rw [hid] at hkey
      cases hkey
  rintro key ⟨id, rfl⟩
  refine .bind (does_owner _) fun primary _ => ?_
  refine .bind ((serving k).tryGetOnNode primary (.task id)) fun value hvalue => ?_
  refine .bind (Serving.orReplicas _ hvalue ((serving k).readFromReplicas _ _ _))
    fun value hvalue => .pure fun r hr => ?_
  obtain ⟨v, hv, hr⟩ := Option.bind_eq_some_iff.1 hr
  cases v with
  | task r' => exact hvalue _ hv id r rfl (congrArg Value.task (Option.some.inj hr))
  | _ => cases hr

theorem does_store {r : TaskRecord} (h : Placed k r) (key : Key) (primary : NodeRef) :
    Does (Grants k) (WritesPlaced k) (TaskService.store s key primary r)
      fun written => Placed k written.task := by
  have hwrites : ∀ o a, o.writes = some (a, key, Value.task r) → WritesPlaced k o := by
    intro o a ho b id r' h'
    rw [ho] at h'
    cases h'
    exact h
  refine .bind ((serving k).putOnNode hwrites primary) fun _ _ => ?_
  exact .bind ((serving k).replicateWith (fun n => Serving.requestWithRetry (hwrites _ _ rfl) _) _ _)
    fun _ _ => .pure h

theorem placement_of_createTaskRecord {taskInput : Fields} {owner : NodeRef} {id : String} {now : ℕ}
    {r : TaskRecord} (h : createTaskRecord taskInput owner k id now = .ok r) :
    r.placement = ⟨owner, max 1 k, []⟩ := by
  unfold createTaskRecord at h
  cases hfields : requiredTaskFields taskInput with
  | error e => rw [hfields] at h; cases h
  | ok fields =>
  cases hstatus : TaskStatus.ofJson (taskInput.getD "status" (.str "REGISTERED")) with
  | error e => rw [hfields, hstatus] at h; cases h
  | ok status =>
  cases hpriority : Priority.ofJson (taskInput.getD "priority" (.int 0)) with
  | error e => rw [hfields, hstatus, hpriority] at h; cases h
  | ok priority =>
  rw [hfields, hstatus, hpriority] at h
  cases h
  rfl

theorem placement_of_update {r r' : TaskRecord} {patch : Fields} {now : ℕ}
    (h : r.update patch now = .ok r') : r'.placement = r.placement := by
  unfold TaskRecord.update at h
  split at h
  case h_1 => cases h
  case h_2 =>
    cases hstatus : TaskRecord.patched patch "status" TaskStatus.ofJson r.status with
    | error e => rw [hstatus] at h; cases h
    | ok status =>
    cases hresult : TaskRecord.patched patch "result" .ok r.result with
    | error e => rw [hstatus, hresult] at h; cases h
    | ok result =>
    cases herror : TaskRecord.patched patch "error" .ok r.error with
    | error e => rw [hstatus, hresult, herror] at h; cases h
    | ok error =>
    cases hpayload : TaskRecord.patched patch "payload" TaskRecord.patchedPayload r.payload with
    | error e => rw [hstatus, hresult, herror, hpayload] at h; cases h
    | ok payload =>
    cases hpriority : TaskRecord.patched patch "priority" Priority.ofJson r.priority with
    | error e => rw [hstatus, hresult, herror, hpayload, hpriority] at h; cases h
    | ok priority =>
    rw [hstatus, hresult, herror, hpayload, hpriority] at h
    cases h
    rfl

theorem Placed.congr {r r' : TaskRecord} (h : Placed k r) (hsame : r'.placement = r.placement) :
    Placed k r' := by
  unfold Placed OfRing at h ⊢
  rwa [hsame]

theorem does_registerTask (hk : s.replicationK = k) (taskInput : Fields) :
    Does (Grants k) (WritesPlaced k) (TaskService.registerTask s taskInput)
      fun written => Placed k written.task := by
  have hconflict : ∀ taskId,
      Does (Grants k) (WritesPlaced k) (TaskService.checkConflict s taskId) fun _ => True := by
    intro taskId
    refine .ite (fun _ => .bind (does_getTask taskId true) fun x _ => ?_) fun _ => .pure trivial
    cases x with
    | some record => exact .ite (fun _ => .pure trivial) fun _ => .raise _
    | none => exact .pure trivial
  have hcandidate : ∀ taskId,
      Does (Grants k) (WritesPlaced k) (TaskService.candidateId taskId) fun _ => True :=
    fun _ => .ite (fun _ => .pure trivial) fun _ => .bind (.step (.of_none rfl)) fun _ _ => .pure trivial
  refine .bind (hconflict _) fun _ _ => .bind (hcandidate _) fun candidate _ => ?_
  refine .bind (Serving.lift (Q := fun _ => True) fun _ _ => trivial) fun key _ => ?_
  refine .bind (does_owner key) fun primary hprimary => .bind (.step (.of_none rfl)) fun created _ => ?_
  refine .bind (Serving.lift (Q := fun r => r.placement = ⟨primary, max 1 k, []⟩) fun r hr => ?_)
    fun r hr => ?_
  · exact placement_of_createTaskRecord (hk ▸ hr)
  · refine .bind (does_getReplicas _ hprimary) fun replicas hreplicas =>
      .bind (.step (.of_none rfl)) fun updated _ => ?_
    have hnode : (r.setReplicaNodes replicas updated).placement.primaryNode = primary :=
      congrArg Placement.primaryNode hr
    have hring : OfRing (r.setReplicaNodes replicas updated) := by
      unfold OfRing
      rw [hnode]
      exact List.forall_mem_cons.2 ⟨hprimary, hreplicas⟩
    exact does_store (r := r.setReplicaNodes replicas updated)
      ⟨hring, congrArg Placement.replicationFactor hr⟩ key primary

theorem does_existingTask (taskId : String) :
    Does (Grants k) (WritesPlaced k) (TaskService.existingTask s taskId) fun r => Placed k r := by
  refine .bind (does_getTask (.str taskId) true) fun x hx => ?_
  cases x with
  | some record => exact .pure (hx record rfl)
  | none => exact .raise _

theorem does_updateTask (taskId : String) (patch : Fields) :
    Does (Grants k) (WritesPlaced k) (TaskService.updateTask s taskId patch) fun _ => True := by
  refine .bind (Serving.lift (Q := fun _ => True) fun _ _ => trivial) fun key _ => ?_
  refine .bind (does_owner key) fun primary _ => .bind (does_existingTask taskId) fun r hr => ?_
  refine .ite (fun _ => .raise _) fun _ => .bind (.step (.of_none rfl)) fun now _ => ?_
  refine .bind (Serving.lift (Q := fun r' => r'.placement = r.placement) fun r' hr' => ?_)
    fun r' hr' => (does_store (hr.congr hr') _ _).mono fun _ _ => trivial
  exact placement_of_update hr'

theorem does_deregisterTask (taskId : String) (hardDelete : Bool) :
    Does (Grants k) (WritesPlaced k) (TaskService.deregisterTask s taskId hardDelete)
      fun _ => True := by
  refine .bind (Serving.lift (Q := fun _ => True) fun _ _ => trivial) fun key _ => ?_
  refine .bind (does_owner key) fun primary hprimary =>
    .bind (does_existingTask taskId) fun r hr => ?_
  have hdeletes : ∀ o a, o.deletes = some (a, key) → WritesPlaced k o := by
    intro o a ho b id r' h'
    rw [Op.deletes_of_writes h'] at ho
    cases ho
  refine .ite (fun _ => ?_) fun _ => ?_
  · have hreplicas : Does (Grants k) (WritesPlaced k)
        (Replication.deleteReplicas s.replicationK key primary) fun _ => True :=
      .bind (does_getReplicas _ hprimary) fun _ _ =>
        Serving.visitAll (fun n => Serving.requestWithRetry (hdeletes _ _ rfl) _) _
    exact .bind (Serving.deleteOnNode hdeletes primary) fun _ _ => .bind hreplicas fun _ _ =>
      .pure trivial
  · refine .bind (.step (.of_none rfl)) fun now _ => ?_
    have hdeleted : Placed k (r.markDeleted now) := hr.congr rfl
    exact .bind (does_store hdeleted key primary) fun _ _ => .pure trivial

/-- Every record that is kept for a task is placed. -/
def AllPlaced (k : ℕ) (w : World) : Prop :=
  ∀ a id r, (w.stores a).get (.task id) = some (.task r) → Placed k r

/-- The ids that the environment answers are those of the ring. -/
structure InRing (env : Env) : Prop where
  owners : ∀ n a key, (env.findSuccessor n a key).id < 2 ^ idBits
  successors : ∀ n a m, env.successor n a = some m → m.id < 2 ^ idBits

/-- **An operation on records that are placed** is answered with such, and leaves only such. -/
theorem AllPlaced.handle {env : Env} (hids : InRing env) {w : World} (h : AllPlaced k w) {o : Op}
    (ho : WritesPlaced k o) :
    Grants k o (handle env o w).1 ∧ AllPlaced k (handle env o w).2 := by
  refine ⟨?_, fun a id r hr => ?_⟩
  · cases o with
    | get a key =>
      rintro id r rfl hr
      exact h a id r hr
    | findSuccessor a key => exact hids.owners _ a key
    | rpc a q =>
      have hsome : ∀ {x : q.Reply}, (Storage.handle env (.rpc a q) w).1 = some x →
          x = World.answer env w a q := by
        intro x hx
        change (if _ then some (World.answer env w a q) else none) = some x at hx
        split_ifs at hx
        exact (Option.some.inj hx).symm
      cases q with
      | getState => exact fun n hn => hids.successors _ a n (hsome hn).symm
      | get key =>
        rintro id r rfl hr
        exact h a id r (hsome hr).symm
      | getReplica key =>
        rintro id r rfl hr
        obtain ⟨v, hv, hr⟩ := Option.bind_eq_some_iff.1 (hsome hr).symm
        cases v with
        | task r' =>
          cases hr
          exact h a id _ hv
        | _ => cases hr
      | _ => trivial
    | _ => trivial
  · obtain ⟨d, -, ⟨v, hv, -, hget⟩ | ⟨-, hget⟩ | ⟨-, -, hget⟩⟩ := handle_get env o w a (.task id)
    · rw [hget] at hr
      cases hr
      exact ho a id r hv
    · rw [hget] at hr
      cases hr
    · exact h a id r (hget ▸ hr)

/-- What a program that only writes such records does, run alone. -/
theorem AllPlaced.run {env : Env} (hids : InRing env) {w : World} (h : AllPlaced k w) {p : M α}
    {Q : α → Prop} (hp : Does (Grants k) (WritesPlaced k) p Q) :
    AllPlaced k (run env p w).2 ∧ ∀ a, (run env p w).1 = .ok a → Q a :=
  hp.exec (fun _ _ hw ho => hw.handle hids ho) h

end Placement

/-! ### One call -/

section Calls

variable {t : JsonText} {env : Env} {ring : FixedRing env} {s : Service} {k : ℕ} {w : World}
  {m : TaskMap} {α β γ : Type}

/-- A record that is placed is sent just when its entry can be. -/
theorem sent_iff {r : TaskRecord} (h : Placed k r) (hk : k < 2 ^ 31) :
    (∃ msg, taskRecordToProto t r = .ok msg ∧ ClientCall.tellMessage t r.entry = .message msg.entry) ∨
      ∃ e, taskRecordToProto t r = .error e ∧ ClientCall.tellMessage t r.entry = .failed := by
  have hfactor : FitsIn 32 r.placement.replicationFactor := by
    rw [h.2]
    unfold FitsIn
    omega
  by_cases hsend : Sendable r.entry
  · obtain ⟨msg, hmsg, -, hpayload, hresult, herror, hfields⟩ :=
      taskRecordToProto_ok (t := t) h.1 ⟨hsend.1, hsend.2, hfactor⟩
    refine .inl ⟨msg, hmsg, (if_pos hsend).trans (congrArg Told.message ?_)⟩
    have hentry : (⟨msg.taskId, msg.jobId, msg.type, jsonDumps t r.payload, msg.priority.val,
        msg.status, jsonDumps t r.result, jsonDumps t r.error, msg.version.val,
        msg.deleted⟩ : EntryMessage) = message t r.entry :=
      congrArg (fun f : TaskFields => (⟨f.taskId, f.jobId, f.type, jsonDumps t f.payload, f.priority,
        f.status, jsonDumps t f.result, jsonDumps t f.error, f.version, f.deleted⟩ : EntryMessage))
        hfields
    rw [← hentry]
    unfold TaskRecordMessage.entry
    rw [hpayload, hresult, herror]
  · cases hproto : taskRecordToProto t r with
    | ok msg =>
      obtain ⟨hpriority, hversion, -⟩ := carried_of_taskRecordToProto hproto
      exact absurd ⟨hpriority, hversion⟩ hsend
    | error e => exact .inr ⟨e, rfl, if_neg hsend⟩

/-- The run of a handler: that of the service that it calls, and what it makes of its end. -/
theorem run_handler {p : M α} {g : Except Exc α → M β} {f : Except Exc β → γ} {x : Except Exc α}
    {w' : World} (hrun : run env p w = (x, w')) :
    run env (attempt (attempt p >>= g) >>= fun reply => pure (f reply)) w =
      (.ok (f (run env (g x) w').1), (run env (g x) w').2) := by
  rw [run_attempt_bind, run_attempt_bind, hrun]
  rfl

/-- The run of a service, with what it says of the map and of the records. -/
theorem run_service (hids : InRing env) (hs : s.node ∈ ring.members) (hk : s.replicationK = k)
    (hrep : Represents ring k w.stores m) (hplaced : AllPlaced k w) {c : TaskCall} {p : M α}
    {f : α → TaskAnswer} {Q : α → Prop} (hprogram : c.program s = p >>= fun a => pure (f a))
    (hp : Does (Grants k) (WritesPlaced k) p Q) :
    ∃ x w', run env p w = (x, w') ∧ x.map f = (TaskMap.step (env.newId w.trace.length) c m).1 ∧
      Represents ring k w'.stores (TaskMap.step (env.newId w.trace.length) c m).2 ∧
      AllPlaced k w' ∧ ∀ a, x = .ok a → Q a := by
  subst hk
  obtain ⟨hanswer, hrep', -⟩ := ring.simulates_step hs hrep c
  obtain ⟨hplaced', hQ⟩ := hplaced.run hids hp
  rw [hprogram] at hanswer hrep'
  rcases hrun : run env p w with ⟨x, w'⟩
  rw [hrun] at hplaced' hQ
  refine ⟨x, w', rfl, ?_, ?_, hplaced', hQ⟩
  · cases x with
    | ok a => rwa [run_bind_eq_ok hrun] at hanswer
    | error e => rwa [run_bind_eq_error hrun] at hanswer
  · cases x with
    | ok a => rwa [run_bind_eq_ok hrun] at hrep'
    | error e => rwa [run_bind_eq_error hrun] at hrep'

/-- A call told a client what it tells on the map, and left stores that represent the map after it. -/
structure Answered {env : Env} (ring : FixedRing env) (k : ℕ) (x : Except Exc Told × World)
    (y : Told × TaskMap) : Prop where
  told : x.1 = .ok y.1
  represents : Represents ring k x.2.stores y.2
  placed : AllPlaced k x.2

/-- A call on the map, by the answer of the task service. -/
theorem ClientCall.step_eq {call : ClientCall} {c : TaskCall} {x : Except Exc TaskAnswer}
    {fresh : String} (hcall : call.taskCall t = .ok c) (hx : x = (TaskMap.step fresh c m).1) :
    call.step t fresh m = (call.tell t x, (TaskMap.step fresh c m).2) := by
  unfold ClientCall.step
  rw [hcall, hx]

section Services

variable (hids : InRing env) (hs : s.node ∈ ring.members) (hk : s.replicationK = k)
  (hrep : Represents ring k w.stores m) (hplaced : AllPlaced k w)

include hids hs hk hrep hplaced

theorem answered_post (payload : Fields) :
    Answered ring k (run env ((ClientCall.post payload).program t s) w)
      ((ClientCall.post payload).step t (env.newId w.trace.length) m) := by
  obtain ⟨x, w', hrun, hx, hrep', hplaced', -⟩ := run_service (c := .register payload)
    (f := fun written => .wrote written.task.entry) hids hs hk hrep hplaced rfl
    (does_registerTask hk payload)
  rw [ClientCall.step_eq rfl hx, ClientCall.program, postTask, run_handler hrun]
  cases x with
  | ok written => exact ⟨rfl, hrep', hplaced'⟩
  | error e => cases e <;> exact ⟨rfl, hrep', hplaced'⟩

theorem answered_read (taskId : String) (allowReplicaRead : Bool) :
    Answered ring k (run env ((ClientCall.read taskId allowReplicaRead).program t s) w)
      ((ClientCall.read taskId allowReplicaRead).step t (env.newId w.trace.length) m) := by
  obtain ⟨x, w', hrun, hx, hrep', hplaced', -⟩ := run_service (c := .get taskId allowReplicaRead)
    (f := fun found => .found (found.map TaskRecord.entry)) hids hs hk hrep hplaced rfl
    (does_getTask (.str taskId) allowReplicaRead)
  rw [ClientCall.step_eq rfl hx, ClientCall.program, readTask, run_handler hrun]
  cases x with
  | ok found => cases found <;> exact ⟨rfl, hrep', hplaced'⟩
  | error e => cases e <;> exact ⟨rfl, hrep', hplaced'⟩

theorem answered_patch (taskId : String) (fields : Fields) :
    Answered ring k (run env ((ClientCall.patch taskId fields).program t s) w)
      ((ClientCall.patch taskId fields).step t (env.newId w.trace.length) m) := by
  obtain ⟨x, w', hrun, hx, hrep', hplaced', -⟩ := run_service (c := .update taskId fields)
    (f := fun written => .wrote written.task.entry) hids hs hk hrep hplaced rfl
    (does_updateTask taskId fields)
  rw [ClientCall.step_eq rfl hx, ClientCall.program, patchTask, run_handler hrun]
  cases x with
  | ok written => exact ⟨rfl, hrep', hplaced'⟩
  | error e => cases e <;> exact ⟨rfl, hrep', hplaced'⟩

omit hids hs hk hrep hplaced in
/-- What a deletion answers. -/
theorem program_deregister (taskId : String) (hardDelete : Bool) :
    (TaskCall.deregister taskId hardDelete).program s =
      TaskService.deregisterTask s taskId hardDelete >>= fun deregistered => pure (
        match deregistered with
        | .soft written => .wrote written.task.entry
        | .hard _ => .removed) := by
  refine congrArg (TaskService.deregisterTask s taskId hardDelete >>= ·) (funext fun d => ?_)
  cases d <;> rfl

theorem answered_delete (taskId : String) (hardDelete : Bool) :
    Answered ring k (run env ((ClientCall.delete taskId hardDelete).program t s) w)
      ((ClientCall.delete taskId hardDelete).step t (env.newId w.trace.length) m) := by
  obtain ⟨x, w', hrun, hx, hrep', hplaced', -⟩ := run_service hids hs hk hrep hplaced
    (program_deregister taskId hardDelete) (does_deregisterTask taskId hardDelete)
  rw [ClientCall.step_eq rfl hx, ClientCall.program, deleteTask, run_handler hrun]
  cases x with
  | ok deregistered => cases deregistered <;> exact ⟨rfl, hrep', hplaced'⟩
  | error e => cases e <;> exact ⟨rfl, hrep', hplaced'⟩

theorem answered_deregisterTask (taskId : String) (hardDelete : Bool) :
    Answered ring k (run env ((ClientCall.deregisterTask taskId hardDelete).program t s) w)
      ((ClientCall.deregisterTask taskId hardDelete).step t (env.newId w.trace.length) m) := by
  obtain ⟨x, w', hrun, hx, hrep', hplaced', -⟩ := run_service hids hs hk hrep hplaced
    (program_deregister taskId hardDelete) (does_deregisterTask taskId hardDelete)
  rw [ClientCall.step_eq rfl hx, ClientCall.program, deregisterTask, run_handler hrun]
  cases x with
  | ok deregistered => cases deregistered <;> exact ⟨rfl, hrep', hplaced'⟩
  | error e => cases e <;> exact ⟨rfl, hrep', hplaced'⟩

theorem answered_getTask (hsmall : k < 2 ^ 31) (taskId : String) (allowReplicaRead : Bool) :
    Answered ring k (run env ((ClientCall.getTask taskId allowReplicaRead).program t s) w)
      ((ClientCall.getTask taskId allowReplicaRead).step t (env.newId w.trace.length) m) := by
  obtain ⟨x, w', hrun, hx, hrep', hplaced', hfound⟩ := run_service
    (c := .get taskId allowReplicaRead) (f := fun found => .found (found.map TaskRecord.entry))
    hids hs hk hrep hplaced rfl (does_getTask (.str taskId) allowReplicaRead)
  rw [ClientCall.step_eq rfl hx, ClientCall.program, getTask, run_handler hrun]
  cases x with
  | ok found =>
    cases found with
    | none => exact ⟨rfl, hrep', hplaced'⟩
    | some r =>
      have hsent := sent_iff (t := t) (hfound _ rfl r rfl) hsmall
      have htell : (ClientCall.getTask taskId allowReplicaRead).tell t
          (.ok (.found (some r.entry))) = ClientCall.tellMessage t r.entry := rfl
      dsimp only [Except.map, Option.map]
      rw [htell]
      rcases hsent with ⟨msg, hmsg, htold⟩ | ⟨e, he, htold⟩
      · rw [hmsg, htold]
        exact ⟨rfl, hrep', hplaced'⟩
      · rw [he, htold]
        exact ⟨rfl, hrep', hplaced'⟩
  | error e => cases e <;> exact ⟨rfl, hrep', hplaced'⟩

theorem answered_registerTask (hsmall : k < 2 ^ 31) (request : RegisterTaskRequest) :
    Answered ring k (run env ((ClientCall.registerTask request).program t s) w)
      ((ClientCall.registerTask request).step t (env.newId w.trace.length) m) := by
  cases hread : jsonLoads t request.payloadJson with
  | error message =>
    -- the text of the payload is no JSON: nothing is done
    have hstep : (ClientCall.registerTask request).step t (env.newId w.trace.length) m =
        (.error .invalidArgument ("invalid payload_json: " ++ message), m) := by
      simp only [ClientCall.step, ClientCall.taskCall, hread]
    rw [hstep, ClientCall.program, registerTask, hread]
    exact ⟨rfl, hrep, hplaced⟩
  | ok payload =>
    obtain ⟨x, w', hrun, hx, hrep', hplaced', hwritten⟩ := run_service
      (c := .register (taskInput request (orEmptyObject payload)))
      (f := fun written => .wrote written.task.entry) hids hs hk hrep hplaced rfl
      (does_registerTask hk (taskInput request (orEmptyObject payload)))
    have hcall : (ClientCall.registerTask request).taskCall t =
        .ok (.register (taskInput request (orEmptyObject payload))) := by
      simp only [ClientCall.taskCall, hread]
    rw [ClientCall.step_eq hcall hx, ClientCall.program, registerTask, hread]
    dsimp only
    rw [run_handler hrun]
    cases x with
    | ok written =>
      have hsent := sent_iff (t := t) (hwritten _ rfl) hsmall
      have htell : (ClientCall.registerTask request).tell t (.ok (.wrote written.task.entry)) =
          ClientCall.tellMessage t written.task.entry := rfl
      dsimp only [Except.map]
      rw [htell]
      rcases hsent with ⟨msg, hmsg, htold⟩ | ⟨e, he, htold⟩
      · rw [hmsg, htold]
        exact ⟨rfl, hrep', hplaced'⟩
      · rw [he, htold]
        exact ⟨rfl, hrep', hplaced'⟩
    | error e => cases e <;> exact ⟨rfl, hrep', hplaced'⟩

/-- **A call tells a client what it tells on the map.** -/
theorem answered_step (hsmall : k < 2 ^ 31) (call : ClientCall) :
    Answered ring k (run env (call.program t s) w) (call.step t (env.newId w.trace.length) m) := by
  cases call with
  | post payload => exact answered_post hids hs hk hrep hplaced payload
  | read taskId allow => exact answered_read hids hs hk hrep hplaced taskId allow
  | patch taskId fields => exact answered_patch hids hs hk hrep hplaced taskId fields
  | delete taskId hard => exact answered_delete hids hs hk hrep hplaced taskId hard
  | registerTask request => exact answered_registerTask hids hs hk hrep hplaced hsmall request
  | getTask taskId allow => exact answered_getTask hids hs hk hrep hplaced hsmall taskId allow
  | deregisterTask taskId hard => exact answered_deregisterTask hids hs hk hrep hplaced taskId hard

end Services

/-! ### A sequence of calls -/

variable {calls : List (Service × ClientCall)}

/-- Calls issued at members tell what they tell on the map, and the stores after them represent the
map after them. -/
theorem answered_steps (hids : InRing env) (hsmall : k < 2 ^ 31)
    (hcalls : ∀ c ∈ calls, c.1.node ∈ ring.members ∧ c.1.replicationK = k)
    (hrep : Represents ring k w.stores m) (hplaced : AllPlaced k w) :
    (ClientCall.runAll t env calls w).1 =
        (ClientCall.steps t (ClientCall.freshIds t env calls w) m).1 ∧
      Represents ring k (ClientCall.runAll t env calls w).2.stores
        (ClientCall.steps t (ClientCall.freshIds t env calls w) m).2 := by
  induction calls generalizing w m with
  | nil => exact ⟨rfl, hrep⟩
  | cons c calls ih =>
    obtain ⟨s, call⟩ := c
    obtain ⟨hs, hk⟩ := hcalls (s, call) List.mem_cons_self
    obtain ⟨htold, hrep', hplaced'⟩ := answered_step (t := t) hids hs hk hrep hplaced hsmall call
    obtain ⟨hrest, hreps⟩ := ih (fun c hc => hcalls c (List.mem_cons_of_mem _ hc)) hrep' hplaced'
    exact ⟨congrArg₂ List.cons htold hrest, hreps⟩

/-- **Both front ends are one map.**  From stores without tasks, whatever calls clients make over HTTP
and gRPC, at whichever members of a ring of fixed membership, each is told what the map tells, one
call after the other: the errors are those of the map in the words of each front end, and a record
is withheld from a client of gRPC just when its priority or its version does not fit its field.  The
owners keep the entries of the map.  Ids reach the handlers as they are. -/
theorem frontEnds_refine (t : JsonText) (ring : FixedRing env) (hids : InRing env)
    (hsmall : k < 2 ^ 31)
    (hcalls : ∀ c ∈ calls, c.1.node ∈ ring.members ∧ c.1.replicationK = k)
    (hempty : ∀ a id, (w.stores a).get (.task id) = none) :
    (ClientCall.runAll t env calls w).1 =
        (ClientCall.steps t (ClientCall.freshIds t env calls w) TaskMap.empty).1 ∧
      ∀ id, ((ClientCall.steps t (ClientCall.freshIds t env calls w) TaskMap.empty).2 id =
        (((ClientCall.runAll t env calls w).2.stores (ring.owner (.task id)).address).get
          (.task id)).bind fun v => v.asTask.map TaskRecord.entry) := by
  have hplaced : AllPlaced k w := by
    intro a id r hr
    rw [hempty] at hr
    cases hr
  obtain ⟨htold, hrep⟩ := answered_steps (t := t) hids hsmall hcalls (.empty hempty) hplaced
  refine ⟨htold, fun id => ?_⟩
  rcases hrep.owner id with ⟨r, hr, hm⟩ | ⟨hnone, hm⟩
  · rw [hr, hm]
    rfl
  · rw [hnone, hm]
    rfl

end Calls

/-- A task is registered over HTTP with a priority of 40 bits, read over gRPC, changed over HTTP and
read again, and removed over gRPC. -/
def mixedCalls : List (Service × ClientCall) :=
  [(ThreeNodes.services ThreeNodes.nodeB, .post (inputWithPriority (2 ^ 40))),
    (ThreeNodes.services ThreeNodes.nodeC, .getTask "fresh" true),
    (ThreeNodes.services ThreeNodes.nodeA, .patch "fresh" ⟨[("priority", .int 7)], by decide⟩),
    (ThreeNodes.services ThreeNodes.nodeB, .getTask "fresh" true),
    (ThreeNodes.services ThreeNodes.nodeC, .deregisterTask "fresh" true),
    (ThreeNodes.services ThreeNodes.nodeA, .read "fresh" true)]

theorem inRing_threeNodes : InRing (ThreeNodes.env fun _ _ _ => .delivered) := by
  have howner : ThreeNodes.nodeA.id < 2 ^ idBits := by decide
  refine ⟨fun _ _ _ => howner, fun n a m h => ?_⟩
  change (if a = "a" then some ThreeNodes.nodeB else if a = "b" then some ThreeNodes.nodeC
    else some ThreeNodes.nodeA) = some m at h
  split_ifs at h <;> cases h <;> decide

/-- The hypotheses of `frontEnds_refine` are satisfiable: the task that is too great for a message is
withheld until its priority is changed. -/
theorem frontEnds_refine_mixed :
    (ClientCall.runAll sampleText (ThreeNodes.env fun _ _ _ => .delivered) mixedCalls World.empty).1 =
      (ClientCall.steps sampleText (ClientCall.freshIds sampleText
        (ThreeNodes.env fun _ _ _ => .delivered) mixedCalls World.empty) TaskMap.empty).1 := by
  refine (frontEnds_refine (k := 3) sampleText ThreeNodes.ring inRing_threeNodes (by decide) ?_
    fun _ _ => rfl).1
  intro c hc
  simp only [mixedCalls, List.mem_cons, List.not_mem_nil, or_false] at hc
  rcases hc with rfl | rfl | rfl | rfl | rfl | rfl
  · exact ⟨.inr (.inl rfl), rfl⟩
  · exact ⟨.inr (.inr rfl), rfl⟩
  · exact ⟨.inl rfl, rfl⟩
  · exact ⟨.inr (.inl rfl), rfl⟩
  · exact ⟨.inr (.inr rfl), rfl⟩
  · exact ⟨.inl rfl, rfl⟩

/-- Whether a client is told nothing. -/
def Told.isFailed : Told → Bool
  | .failed => true
  | _ => false

example : ((ClientCall.runAll sampleText (ThreeNodes.env fun _ _ _ => .delivered) mixedCalls
    World.empty).1.map fun x => x.toOption.map Told.isFailed) =
      [some false, some true, some false, some false, some false, some false] := by
  decide +kernel

end Api
end ChordInfra
