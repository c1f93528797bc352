/-
# The two front ends of the task service

`RegisterTask` and `GetTask` of `api/grpc_server.py` next to `POST /tasks` of `chord/server.py`, which
hands its body to `register_task` as it is.

The payload of a gRPC request is a JSON text, and what is read of it counts as missing when it is
false: so the numbers zero, the empty text, the empty list, `false` and `null` are all registered as
the empty object.
-/

import ChordInfra.Api.Proto
import ChordInfra.Storage.TaskMap

namespace ChordInfra
namespace Api

open Interact Prog
open Storage
open ChordInfra.Ring (NodeRef)

/-! ### The servicer -/

/-- The status codes of answers that are errors. -/
inductive StatusCode
  | invalidArgument | alreadyExists | notFound
deriving DecidableEq

/-- An answer, or a status code with its details. -/
abbrev Reply (α : Type) := Except (StatusCode × String) α

/-- The message `RegisterTaskRequest`. -/
structure RegisterTaskRequest where
  taskId : String
  jobId : String
  type : String
  payloadJson : String
  priority : Signed 32

/-- The message `RegisterTaskResponse`; the state of the replication is `COMPLETE` or `DEGRADED`. -/
structure RegisterTaskResponse where
  task : TaskRecordMessage
  taskKey : Key
  complete : Bool

variable (t : JsonText) (s : Service)

/-- `request.task_id or None`. -/
def idOrNone (taskId : String) : Json := if taskId = "" then .null else .str taskId

/-- The input of `register_task` for the fields of a request and a payload. -/
def taskInput (request : RegisterTaskRequest) (payload : Json) : Fields :=
  Dict.set (Dict.set (Dict.set (Dict.set (Dict.set .empty "task_id" (idOrNone request.taskId))
    "job_id" (.str request.jobId)) "type" (.str request.type)) "payload" payload)
    "priority" (.int request.priority.val)

/-- `_json_loads(request.payload_json) or {}`, of what was read. -/
def orEmptyObject (payload : Json) : Json := if payload.truthy then payload else .obj []

/-- `RegisterTask`. -/
def registerTask (request : RegisterTaskRequest) : M (Reply RegisterTaskResponse) :=
  match jsonLoads t request.payloadJson with
  | .error message => pure (.error (.invalidArgument, "invalid payload_json: " ++ message))
  | .ok payload => do
    match ← attempt (TaskService.registerTask s (taskInput request (orEmptyObject payload))) with
    | .ok written => do
      let task ← lift (taskRecordToProto t written.task)
      pure (.ok ⟨task, .task written.task.taskId, written.storage.complete⟩)
    | .error (.taskValidation message) => pure (.error (.invalidArgument, message))
    | .error (.taskConflict message) => pure (.error (.alreadyExists, message))
    | .error e => raise e

/-- `GetTask`. -/
def getTask (taskId : String) (allowReplicaRead : Bool) : M (Reply TaskRecordMessage) := do
  match ← attempt (TaskService.getTask s (.str taskId) allowReplicaRead) with
  | .ok (some record) => do
    let task ← lift (taskRecordToProto t record)
    pure (.ok task)
  | .ok none => pure (.error (.notFound, "task not found: " ++ taskId))
  | .error (.taskValidation message) => pure (.error (.invalidArgument, message))
  | .error e => raise e

/-! ### A registration -/

/-- A record without its times. -/
def timeless (r : TaskRecord) : TaskRecord := { r with createdAt := 0, updatedAt := 0 }

section Registration

variable {t s} {request : RegisterTaskRequest} {payload : Json} {env : Env} {id : String} {w : World}

/-- A request that is accepted: it names a job and a type. -/
structure Valid (request : RegisterTaskRequest) : Prop where
  jobId : strip request.jobId ≠ ""
  type : strip request.type ≠ ""

/-- The record that is made of the request, its times left out. -/
def registered (request : RegisterTaskRequest) (payload : Json) (id : String) (owner : NodeRef)
    (replicas : List NodeRef) (k : ℕ) : TaskRecord where
  taskId := id
  jobId := strip request.jobId
  type := strip request.type
  payload := payload
  priority := .int request.priority.val
  status := .registered
  result := .null
  error := .null
  createdAt := 0
  updatedAt := 0
  version := 2
  deleted := false
  placement := ⟨owner, max 1 k, replicas⟩

theorem createTaskRecord_taskInput (hvalid : Valid request) (payload : Json) (owner : NodeRef) (k : ℕ)
    (id : String) (created : ℕ) :
    ∃ r, createTaskRecord (taskInput request payload) owner k id created = .ok r ∧
      ∀ replicas updated, timeless (r.setReplicaNodes replicas updated) =
        registered request payload id owner replicas k := by
  have hjob : requiredText "job_id must be a non-empty string" (.str request.jobId) =
      .ok (strip request.jobId) := if_neg hvalid.jobId
  have htype : requiredText "type must be a non-empty string" (.str request.type) =
      .ok (strip request.type) := if_neg hvalid.type
  have hfields : requiredTaskFields (taskInput request payload) =
      .ok (strip request.jobId, strip request.type, payload) := by
    change (requiredText "job_id must be a non-empty string" (.str request.jobId) >>= fun jobId =>
      requiredText "type must be a non-empty string" (.str request.type) >>= fun type =>
        Except.ok (jobId, type, payload)) = _
    rw [hjob, htype]
    rfl
  unfold createTaskRecord
  rw [hfields]
  exact ⟨_, rfl, fun _ _ => rfl⟩

/-- The id under which the request is registered: the one it names, which nothing is kept under, or
the one that is generated. -/
inductive Names (env : Env) (w : World) (request : RegisterTaskRequest) : String → Prop
  | fresh (hid : strip request.taskId ≠ "")
      (hfree : ∀ a, (w.stores a).get (.task (strip request.taskId)) = none) :
      Names env w request (strip request.taskId)
  | omitted (h : request.taskId = "") (hid : strip (env.newId w.trace.length) ≠ "") :
      Names env w request (strip (env.newId w.trace.length))

theorem Names.idOf (h : Names env w request id) : strip id = id ∧ id ≠ "" := by
  cases h with
  | fresh hid _ => exact ⟨strip_strip _, hid⟩
  | omitted _ hid => exact ⟨strip_strip _, hid⟩

/-- A key under which nothing is kept is read as nothing. -/
theorem run_getTask_none (ring : FixedRing env) (hs : s.node ∈ ring.members) {taskId : Json}
    (hid : TaskMap.idOf taskId = .ok id) (hfree : ∀ a, (w.stores a).get (.task id) = none) :
    (run env (TaskService.getTask s taskId true) w).1 = .ok none := by
  have hkey : buildTaskKey taskId = .ok (.task id) := by
    rw [buildTaskKey_eq, hid]
    rfl
  obtain ⟨howner, hstores⟩ := ring.resolves hs (.task id) w
  obtain ⟨hget, hstores'⟩ := ring.run_tryGetOnNode hs (.task id) (run env (s.owner (.task id)) w).2
  rw [hstores] at hget hstores'
  rw [hfree] at hget
  unfold TaskService.getTask
  rw [hkey, run_lift_ok_bind, run_bind howner, run_bind hget]
  refine congrArg Prod.fst (run_bind_eq_ok (Prod.ext (ring.run_readFromReplicas_none _ _ ?_) rfl))
  intro n _
  rw [hstores']
  exact hfree n.address

/-- The record at the owner is what is read. -/
theorem run_getTask_some (ring : FixedRing env) (hs : s.node ∈ ring.members) {taskId : Json}
    (hid : TaskMap.idOf taskId = .ok id) {r : TaskRecord}
    (hr : (w.stores (ring.owner (.task id)).address).get (.task id) = some (.task r))
    (allowReplicaRead : Bool) :
    (run env (TaskService.getTask s taskId allowReplicaRead) w).1 = .ok (some r) := by
  have hkey : buildTaskKey taskId = .ok (.task id) := by
    rw [buildTaskKey_eq, hid]
    rfl
  obtain ⟨howner, hstores⟩ := ring.resolves hs (.task id) w
  obtain ⟨hget, -⟩ := ring.run_tryGetOnNode hs (.task id) (run env (s.owner (.task id)) w).2
  rw [hstores, hr] at hget
  unfold TaskService.getTask
  rw [hkey, run_lift_ok_bind, run_bind howner, run_bind hget]
  rfl

/-- **A registration is kept at the owner** as what was asked for. -/
theorem run_registerTask (ring : FixedRing env) (hs : s.node ∈ ring.members) (hvalid : Valid request)
    (hnames : Names env w request id) (payload : Json) :
    ∃ written w', run env (TaskService.registerTask s (taskInput request payload)) w =
        (.ok written, w') ∧
      timeless written.task = registered request payload id (ring.owner (.task id))
        (ring.replicas s.replicationK (ring.owner (.task id))) s.replicationK ∧
      (w'.stores (ring.owner (.task id)).address).get (.task id) = some (.task written.task) := by
  have hstored : ∀ candidate w₁, TaskMap.idOf candidate = .ok id → ∃ written w',
      run env (TaskService.registerAs s (taskInput request payload) candidate) w₁ =
        (.ok written, w') ∧
      timeless written.task = registered request payload id (ring.owner (.task id))
        (ring.replicas s.replicationK (ring.owner (.task id))) s.replicationK ∧
      (w'.stores (ring.owner (.task id)).address).get (.task id) = some (.task written.task) := by
    intro candidate w₁ hid
    obtain ⟨created, updated, -, hok⟩ := ring.run_registerAs hs hid (taskInput request payload) w₁
    obtain ⟨r, hr, htimeless⟩ := createTaskRecord_taskInput hvalid payload
      (ring.owner (.task id)) s.replicationK id created
    obtain ⟨report, w', hrun, hget⟩ := hok r hr
    refine ⟨_, w', hrun, htimeless _ _, ?_⟩
    rw [hget, if_pos ⟨List.mem_map_of_mem List.mem_cons_self, rfl⟩]
  have htaskId : (taskInput request payload).getD "task_id" .null = idOrNone request.taskId := rfl
  cases hnames with
  | fresh hid hfree =>
    have hne : request.taskId ≠ "" := by
      intro he
      rw [he] at hid
      exact hid (by decide +kernel)
    have hidOf : TaskMap.idOf (.str request.taskId) = .ok (strip request.taskId) := if_neg hid
    rw [run_registerTask_named hne (htaskId.trans (if_neg hne))
      (run_getTask_none ring hs hidOf hfree)]
    exact hstored _ _ hidOf
  | omitted h hid =>
    have hidOf : TaskMap.idOf (.str (env.newId w.trace.length)) =
        .ok (strip (env.newId w.trace.length)) := if_neg hid
    have hfresh : ∀ f : Json → M TaskWritten, run env (TaskService.checkConflict s .null >>= fun _ =>
        TaskService.candidateId .null >>= f) w =
          run env (f (.str (env.newId w.trace.length))) (handle env .newId w).2 := fun _ => rfl
    rw [registerTask_eq, htaskId, show idOrNone request.taskId = .null from if_pos h, hfresh]
    exact hstored _ _ hidOf

/-- A record that a request made is carried, whatever the replication factor of the servers. -/
theorem carried_of_registered {r : TaskRecord} {owner : NodeRef} {replicas : List NodeRef} {k : ℕ}
    (h : timeless r = registered request payload id owner replicas k) (hk : k < 2 ^ 31) :
    Carried r := by
  have hpriority : r.priority = .int request.priority.val := congrArg TaskRecord.priority h
  have hversion : r.version = 2 := congrArg TaskRecord.version h
  have hfactor : r.placement.replicationFactor = max 1 k :=
    congrArg (fun r : TaskRecord => r.placement.replicationFactor) h
  refine ⟨hpriority ▸ request.priority.property, hversion ▸ by decide, ?_⟩
  rw [hfactor]
  unfold FitsIn
  omega

/-- The answer of `RegisterTask` and of a `GetTask` that follows: the message of the record that is
kept. -/
theorem run_register_get (ring : FixedRing env) (hs : s.node ∈ ring.members)
    (hids : ∀ n ∈ ring.owner (.task id) :: ring.replicas s.replicationK (ring.owner (.task id)),
      n.id < 2 ^ idBits)
    (hk : s.replicationK < 2 ^ 31) (hvalid : Valid request) (hnames : Names env w request id)
    (hread : jsonLoads t request.payloadJson = .ok payload) :
    ∃ written task reply w₁ w₂, taskRecordToProto t written = .ok task ∧
      timeless written = registered request (orEmptyObject payload) id (ring.owner (.task id))
        (ring.replicas s.replicationK (ring.owner (.task id))) s.replicationK ∧
      OfRing written ∧ Carried written ∧ reply.task = task ∧
      run env (registerTask t s request) w = (.ok (.ok reply), w₁) ∧
      run env (getTask t s task.taskId true) w₁ = (.ok (.ok task), w₂) := by
  obtain ⟨written, w₁, hrun, htimeless, hkept⟩ :=
    run_registerTask ring hs hvalid hnames (orEmptyObject payload)
  have hplacement : written.task.placement = ⟨ring.owner (.task id), max 1 s.replicationK,
      ring.replicas s.replicationK (ring.owner (.task id))⟩ := congrArg TaskRecord.placement htimeless
  have hring : OfRing written.task := by
    unfold OfRing
    rw [hplacement]
    exact hids
  have hcarried := carried_of_registered htimeless hk
  obtain ⟨task, htask, -, -, -, -, hfields⟩ := taskRecordToProto_ok (t := t) hring hcarried
  have htaskId : task.taskId = id :=
    (congrArg TaskFields.taskId hfields).trans (congrArg TaskRecord.taskId htimeless)
  have hregister : run env (registerTask t s request) w =
      (.ok (.ok ⟨task, .task written.task.taskId, written.storage.complete⟩), w₁) := by
    unfold registerTask
    rw [hread]
    dsimp only
    rw [run_attempt_bind, hrun]
    dsimp only
    rw [htask]
    rfl
  obtain ⟨hstrip, hne⟩ := hnames.idOf
  have hidOf : TaskMap.idOf (.str task.taskId) = .ok id := by
    have hkey : TaskMap.idOf (.str id) = .ok (strip id) := if_neg (hstrip.symm ▸ hne)
    rw [htaskId, hkey, hstrip]
  have hget : (run env (getTask t s task.taskId true) w₁).1 = .ok (.ok task) := by
    unfold getTask
    rw [run_attempt_bind, run_getTask_some ring hs hidOf hkept true]
    dsimp only
    rw [htask]
    rfl
  exact ⟨written.task, task, _, w₁, _, htask, htimeless, hring, hcarried, rfl, hregister,
    Prod.fst_eq_iff.1 hget⟩

/-- What was registered with a request is what is read of it, and what `POST /tasks` keeps of the
same payload; the times are left out. -/
def KeptAsPosted (t : JsonText) (s : Service) (env : Env) (w : World) (request : RegisterTaskRequest)
    (payload : Json) : Prop :=
  ∃ reply w₁ task w₂ posted w₃ fields,
    run env (registerTask t s request) w = (.ok (.ok reply), w₁) ∧
    run env (getTask t s reply.task.taskId true) w₁ = (.ok (.ok task), w₂) ∧
    jsonLoads t task.payloadJson = .ok payload ∧
    task.jobId = strip request.jobId ∧ task.type = strip request.type ∧
    task.priority = request.priority ∧
    (request.taskId ≠ "" → task.taskId = strip request.taskId) ∧
    run env (TaskService.registerTask s (taskInput request payload)) w = (.ok posted, w₃) ∧
    taskRecordFromProto t task = .ok fields ∧
    { fields with createdAt := 0, updatedAt := 0 } = taskFields (timeless posted.task)

/-- **A registration over gRPC is that of `POST /tasks` exactly when the payload counts as true or is
the empty object**; any other payload is registered as the empty object. -/
theorem keptAsPosted_iff (ring : FixedRing env) (hs : s.node ∈ ring.members)
    (hids : ∀ n ∈ ring.owner (.task id) :: ring.replicas s.replicationK (ring.owner (.task id)),
      n.id < 2 ^ idBits)
    (hk : s.replicationK < 2 ^ 31) (hvalid : Valid request) (hnames : Names env w request id)
    (hpayload : request.payloadJson = t.dumps payload) (hundone : t.Undone payload)
    (hempty : t.Undone (.obj [])) :
    KeptAsPosted t s env w request payload ↔ payload.truthy = true ∨ payload = .obj [] := by
  have hread : jsonLoads t request.payloadJson = .ok payload := by
    rw [hpayload]
    exact (if_neg hundone.ne_empty).trans hundone.loads
  obtain ⟨written, task, reply, w₁, w₂, htask, htimeless, hring, hcarried, rfl, hregister, hget⟩ :=
    run_register_get ring hs hids hk hvalid hnames hread
  obtain ⟨m, hm, hschema, hpayloadJson, -, -, hfields⟩ := taskRecordToProto_ok (t := t) hring hcarried
  obtain rfl : reply.task = m := Except.ok.inj (htask.symm.trans hm)
  have hstored : written.payload = orEmptyObject payload := congrArg TaskRecord.payload htimeless
  have hundone' : t.Undone written.payload := by
    rw [hstored]
    unfold orEmptyObject
    split_ifs
    · exact hundone
    · exact hempty
  have hdecoded : jsonLoads t reply.task.payloadJson = .ok (orEmptyObject payload) := by
    rw [hpayloadJson, jsonLoads_jsonDumps fun _ => hundone', hstored]
  have hsame : orEmptyObject payload = payload ↔ payload.truthy = true ∨ payload = .obj [] := by
    unfold orEmptyObject
    split_ifs with htruthy
    · exact iff_of_true rfl (.inl htruthy)
    · exact ⟨fun h => .inr h.symm, fun h => (h.resolve_left htruthy).symm⟩
  rw [← hsame]
  constructor
  · rintro ⟨reply', w₁', task', w₂', posted, w₃, fields, hregister', hget', hdecoded', -⟩
    rw [hregister] at hregister'
    cases hregister'
    rw [hget] at hget'
    cases hget'
    exact Except.ok.inj (hdecoded.symm.trans hdecoded')
  · intro heq
    obtain ⟨posted, w₃, hposted, hposted', -⟩ := run_registerTask ring hs hvalid hnames payload
    have hresult : written.result = .null := congrArg TaskRecord.result htimeless
    have herror : written.error = .null := congrArg TaskRecord.error htimeless
    have hfrom : RoundTrips t written := by
      refine roundTrips_of_carried hring hcarried fun j hj hnull => ?_
      rcases hj with rfl | rfl | rfl
      · exact hundone'
      · exact absurd hresult hnull
      · exact absurd herror hnull
    obtain ⟨m, hm', hfrom⟩ := hfrom
    obtain rfl : reply.task = m := Except.ok.inj (htask.symm.trans hm')
    refine ⟨reply, w₁, reply.task, w₂, posted, w₃, taskFields written, hregister, hget,
      heq ▸ hdecoded, ?_, ?_, ?_, ?_, hposted, hfrom, ?_⟩
    · exact (congrArg TaskFields.jobId hfields).trans (congrArg TaskRecord.jobId htimeless)
    · exact (congrArg TaskFields.type hfields).trans (congrArg TaskRecord.type htimeless)
    · refine Subtype.ext ((congrArg TaskFields.priority hfields).trans ?_)
      exact congrArg (fun r : TaskRecord => priorityValue r.priority) htimeless
    · intro hne
      have hid : reply.task.taskId = id :=
        (congrArg TaskFields.taskId hfields).trans (congrArg TaskRecord.taskId htimeless)
      rw [hid]
      cases hnames with
      | fresh => rfl
      | omitted h => exact absurd h hne
    · rw [hposted', ← heq, ← htimeless]
      rfl

end Registration

/-! ### Two requests -/

/-- A request to register a task with a payload. -/
def requestFor (payloadJson : String) : RegisterTaskRequest :=
  ⟨"t", "job", "type", payloadJson, ⟨7, by decide⟩⟩

theorem strip_ne_empty : strip "t" ≠ "" ∧ strip "job" ≠ "" ∧ strip "type" ≠ "" := by
  decide +kernel

theorem valid_requestFor (payloadJson : String) : Valid (requestFor payloadJson) :=
  ⟨strip_ne_empty.2.1, strip_ne_empty.2.2⟩

theorem names_requestFor (payloadJson : String) :
    Names (ThreeNodes.env fun _ _ _ => .delivered) World.empty (requestFor payloadJson) (strip "t") :=
  .fresh strip_ne_empty.1 fun _ => rfl

theorem ids_threeNodes : ∀ n ∈ ThreeNodes.ring.owner (.task (strip "t")) ::
    ThreeNodes.ring.replicas (ThreeNodes.services ThreeNodes.nodeA).replicationK
      (ThreeNodes.ring.owner (.task (strip "t"))), n.id < 2 ^ idBits := by
  decide +kernel

/-- An object is kept as it is. -/
theorem keptAsPosted_iff_object :
    KeptAsPosted sampleText (ThreeNodes.services ThreeNodes.nodeA)
      (ThreeNodes.env fun _ _ _ => .delivered) World.empty (requestFor "\x7b\"x\": 42\x7d")
      (.obj [("x", .int 42)]) ↔
      (Json.obj [("x", .int 42)]).truthy = true ∨ Json.obj [("x", .int 42)] = .obj [] :=
  keptAsPosted_iff ThreeNodes.ring (.inl rfl) ids_threeNodes (by decide) (valid_requestFor _)
    (names_requestFor _) rfl undone_sampleText.2.2 undone_sampleText.2.1

/-- **The payload zero is registered as the empty object.** -/
theorem not_keptAsPosted_zero :
    ¬KeptAsPosted sampleText (ThreeNodes.services ThreeNodes.nodeA)
      (ThreeNodes.env fun _ _ _ => .delivered) World.empty (requestFor "0") (.int 0) := by
  have hread : jsonLoads sampleText (requestFor "0").payloadJson = .ok (.int 0) := by rfl
  obtain ⟨written, task, reply, w₁, w₂, htask, htimeless, hring, hcarried, rfl, hregister, hget⟩ :=
    run_register_get ThreeNodes.ring (.inl rfl) ids_threeNodes (by decide) (valid_requestFor "0")
      (names_requestFor "0") hread
  obtain ⟨m, hm, -, hpayload, -⟩ := taskRecordToProto_ok hring hcarried
  obtain rfl : reply.task = m := Except.ok.inj (htask.symm.trans hm)
  have hstored : written.payload = .obj [] := congrArg TaskRecord.payload htimeless
  rintro ⟨reply', w₁', task', w₂', posted, w₃, fields, hregister', hget', hdecoded, -⟩
  rw [hregister] at hregister'
  cases hregister'
  rw [hget] at hget'
  cases hget'
  rw [hpayload, hstored] at hdecoded
  cases Except.ok.inj hdecoded

end Api
end ChordInfra
