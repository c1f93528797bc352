/-
# Task records on the wire

The messages `NodeRef` and `TaskRecord` of `api/task_service.proto`, and the two conversions of
`api/grpc_server.py` between a task record and its message.

The nested values travel as JSON texts, an empty text for `None`; the numbers travel in `int32` and
`int64` fields, which hold no others.  `json.dumps` and `json.loads` are parameters (`JsonText`).  A
time is written as it is elsewhere, by its milliseconds.  A text is one that has a UTF-8 form.
-/

import ChordInfra.Storage.TaskVersions

namespace ChordInfra
namespace Api

open Storage
open ChordInfra.Ring (NodeRef)

/-! ### Fields -/

/-- The integers of a signed field of `bits` bits. -/
def FitsIn (bits : ℕ) (n : ℤ) : Prop := -2 ^ (bits - 1) ≤ n ∧ n < 2 ^ (bits - 1)

instance (bits : ℕ) (n : ℤ) : Decidable (FitsIn bits n) := inferInstanceAs (Decidable (_ ∧ _))

/-- What a signed field of `bits` bits holds. -/
abbrev Signed (bits : ℕ) := {n : ℤ // FitsIn bits n}

/-- An integer put in a signed field, which refuses one that it cannot hold. -/
def signed (bits : ℕ) (n : ℤ) : Except Exc (Signed bits) :=
  if h : FitsIn bits n then .ok ⟨n, h⟩ else .error (.valueError ("Value out of range: " ++ toString n))

theorem signed_ok {bits : ℕ} {n : ℤ} (h : FitsIn bits n) : signed bits n = .ok ⟨n, h⟩ := dif_pos h

theorem FitsIn.of_signed {bits : ℕ} {n : ℤ} {x : Signed bits} (h : signed bits n = .ok x) :
    FitsIn bits n := by
  unfold signed at h
  split_ifs at h with hfits
  exact hfits

/-- `json.dumps` and `json.loads`; the second may raise `JSONDecodeError`, with a text. -/
structure JsonText where
  dumps : Json → String
  loads : String → Except String Json

namespace JsonText

/-- The value is what is read of its text, which is not empty. -/
structure Undone (t : JsonText) (j : Json) : Prop where
  loads : t.loads (t.dumps j) = .ok j
  ne_empty : t.dumps j ≠ ""

end JsonText

variable (t : JsonText)

/-- `_json_dumps`. -/
def jsonDumps : Json → String
  | .null => ""
  | j => t.dumps j

/-- `_json_loads`. -/
def jsonLoads (text : String) : Except String Json :=
  if text = "" then .ok .null else t.loads text

/-- What is written is read back; `None` has a text of its own. -/
theorem jsonLoads_jsonDumps {t : JsonText} {j : Json} (h : j ≠ .null → t.Undone j) :
    jsonLoads t (jsonDumps t j) = .ok j := by
  cases j with
  | null => rfl
  | _ =>
    obtain ⟨hloads, hne⟩ := h nofun
    exact (if_neg hne).trans hloads

/-- The number that decimal digits say. -/
def digitsValue (digits : List Char) : Option ℕ :=
  if digits ≠ [] ∧ digits.all Char.isDigit then
    some (digits.foldl (fun n c => 10 * n + (c.toNat - '0'.toNat)) 0)
  else none

/-- `int` of a text of ASCII digits, with a sign and white space around it or not; the underscores
that it also allows are not read. -/
def intOfText (text : String) : Except Exc ℤ :=
  let value : Option ℤ := match (strip text).toList with
    | '-' :: digits => (digitsValue digits).map fun n => -(n : ℤ)
    | '+' :: digits => (digitsValue digits).map Nat.cast
    | digits => (digitsValue digits).map Nat.cast
  match value with
  | some n => .ok n
  | none => .error (.valueError ("invalid literal for int() with base 10: '" ++ text ++ "'"))

/-! ### Messages -/

/-- The message `NodeRef`. -/
structure NodeRefMessage where
  id : Signed 32
  address : String
deriving DecidableEq

/-- The message `TaskRecord`. -/
structure TaskRecordMessage where
  schemaVersion : String
  taskId : String
  jobId : String
  type : String
  payloadJson : String
  priority : Signed 32
  status : String
  resultJson : String
  errorJson : String
  createdAt : ℕ
  updatedAt : ℕ
  version : Signed 64
  deleted : Bool
  primaryNode : NodeRefMessage
  replicaNodes : List NodeRefMessage
  replicationFactor : Signed 32
deriving DecidableEq

/-- The fields of a task record as a dictionary, in which a truth value is the number that Python
takes it for. -/
structure TaskFields where
  schemaVersion : ℤ
  kind : String
  taskId : String
  jobId : String
  type : String
  payload : Json
  priority : ℤ
  status : String
  result : Json
  error : Json
  createdAt : ℕ
  updatedAt : ℕ
  version : ℤ
  deleted : Bool
  primaryNode : ℤ × String
  replicationFactor : ℤ
  replicaNodes : List (ℤ × String)

/-- `int` of a priority. -/
def priorityValue : Priority → ℤ
  | .int n => n
  | .bool b => if b then 1 else 0

/-- A node as a dictionary. -/
def nodeFields (n : NodeRef) : ℤ × String := (n.id, n.address)

/-- The dictionary of a record. -/
def taskFields (r : TaskRecord) : TaskFields where
  schemaVersion := 1
  kind := "task"
  taskId := r.taskId
  jobId := r.jobId
  type := r.type
  payload := r.payload
  priority := priorityValue r.priority
  status := r.status.text
  result := r.result
  error := r.error
  createdAt := r.createdAt
  updatedAt := r.updatedAt
  version := r.version
  deleted := r.deleted
  primaryNode := nodeFields r.placement.primaryNode
  replicationFactor := r.placement.replicationFactor
  replicaNodes := r.placement.replicaNodes.map nodeFields

/-! ### Conversions -/

/-- `_node_ref_from_dict`. -/
def nodeRefFromDict (n : NodeRef) : Except Exc NodeRefMessage := do
  let id ← signed 32 n.id
  return ⟨id, n.address⟩

/-- `_task_record_to_proto`. -/
def taskRecordToProto (r : TaskRecord) : Except Exc TaskRecordMessage := do
  let primaryNode ← nodeRefFromDict r.placement.primaryNode
  let replicaNodes ← r.placement.replicaNodes.mapM nodeRefFromDict
  let priority ← signed 32 (priorityValue r.priority)
  let version ← signed 64 r.version
  let replicationFactor ← signed 32 r.placement.replicationFactor
  return {
    schemaVersion := "1"
    taskId := r.taskId
    jobId := r.jobId
    type := r.type
    payloadJson := jsonDumps t r.payload
    priority
    status := r.status.text
    resultJson := jsonDumps t r.result
    errorJson := jsonDumps t r.error
    createdAt := r.createdAt
    updatedAt := r.updatedAt
    version
    deleted := r.deleted
    primaryNode
    replicaNodes
    replicationFactor }

/-- A nested value of a message. -/
def nested (text : String) : Except Exc Json :=
  match jsonLoads t text with
  | .ok j => .ok j
  | .error message => .error (.valueError message)

/-- The dictionary of a node of a message. -/
def messageFields (n : NodeRefMessage) : ℤ × String := (n.id.val, n.address)

/-- `_task_record_from_proto`. -/
def taskRecordFromProto (m : TaskRecordMessage) : Except Exc TaskFields := do
  let schemaVersion ← if m.schemaVersion = "" then .ok 1 else intOfText m.schemaVersion
  let payload ← nested t m.payloadJson
  let result ← nested t m.resultJson
  let error ← nested t m.errorJson
  return {
    schemaVersion
    kind := "task"
    taskId := m.taskId
    jobId := m.jobId
    type := m.type
    payload
    priority := m.priority.val
    status := m.status
    result
    error
    createdAt := m.createdAt
    updatedAt := m.updatedAt
    version := m.version.val
    deleted := m.deleted
    primaryNode := messageFields m.primaryNode
    replicationFactor := m.replicationFactor.val
    replicaNodes := m.replicaNodes.map messageFields }

/-! ### Round trips -/

/-- The record is put in a message, and what is read of that is the record. -/
def RoundTrips (r : TaskRecord) : Prop :=
  ∃ m, taskRecordToProto t r = .ok m ∧ taskRecordFromProto t m = .ok (taskFields r)

/-- The numbers of the record are ones that their fields hold. -/
def Carried (r : TaskRecord) : Prop :=
  FitsIn 32 (priorityValue r.priority) ∧ FitsIn 64 r.version ∧
    FitsIn 32 r.placement.replicationFactor

instance (r : TaskRecord) : Decidable (Carried r) := inferInstanceAs (Decidable (_ ∧ _ ∧ _))

/-- `M` of `chord/node.py`. -/
def idBits : ℕ := 8

/-- The nodes of a record have ids of the ring. -/
def OfRing (r : TaskRecord) : Prop :=
  ∀ n ∈ r.placement.primaryNode :: r.placement.replicaNodes, n.id < 2 ^ idBits

variable {t} {r : TaskRecord}

theorem fitsIn_id {n : NodeRef} (h : n.id < 2 ^ idBits) : FitsIn 32 (n.id : ℤ) := by
  unfold FitsIn
  unfold idBits at h
  omega

theorem nodeRefFromDict_ok {n : NodeRef} (h : n.id < 2 ^ idBits) :
    ∃ m, nodeRefFromDict n = .ok m ∧ messageFields m = nodeFields n := by
  unfold nodeRefFromDict
  rw [signed_ok (fitsIn_id h)]
  exact ⟨_, rfl, rfl⟩

theorem mapM_nodeRefFromDict_ok {nodes : List NodeRef} (h : ∀ n ∈ nodes, n.id < 2 ^ idBits) :
    ∃ ms, nodes.mapM nodeRefFromDict = .ok ms ∧ ms.map messageFields = nodes.map nodeFields := by
  induction nodes with
  | nil => exact ⟨[], rfl, rfl⟩
  | cons n nodes ih =>
    obtain ⟨hn, hnodes⟩ := List.forall_mem_cons.1 h
    obtain ⟨m, hm, hfields⟩ := nodeRefFromDict_ok hn
    obtain ⟨ms, hms, hrest⟩ := ih hnodes
    refine ⟨m :: ms, ?_, by rw [List.map_cons, List.map_cons, hfields, hrest]⟩
    rw [List.mapM_cons, hm, hms]
    rfl

theorem nested_jsonDumps {j : Json} (h : j ≠ .null → t.Undone j) : nested t (jsonDumps t j) = .ok j := by
  unfold nested
  rw [jsonLoads_jsonDumps h]

/-- A record whose numbers are carried has a message, with what the record says. -/
theorem taskRecordToProto_ok (hring : OfRing r) (h : Carried r) :
    ∃ m, taskRecordToProto t r = .ok m ∧ m.schemaVersion = "1" ∧
      m.payloadJson = jsonDumps t r.payload ∧ m.resultJson = jsonDumps t r.result ∧
      m.errorJson = jsonDumps t r.error ∧
      (⟨1, "task", m.taskId, m.jobId, m.type, r.payload, m.priority.val, m.status, r.result, r.error,
        m.createdAt, m.updatedAt, m.version.val, m.deleted, messageFields m.primaryNode,
        m.replicationFactor.val, m.replicaNodes.map messageFields⟩ : TaskFields) = taskFields r := by
  obtain ⟨hprimary, hreplicas⟩ := List.forall_mem_cons.1 hring
  obtain ⟨m₁, hm₁, hfields₁⟩ := nodeRefFromDict_ok hprimary
  obtain ⟨ms, hms, hfields⟩ := mapM_nodeRefFromDict_ok hreplicas
  obtain ⟨hpriority, hversion, hfactor⟩ := h
  unfold taskRecordToProto
  rw [hm₁, hms, signed_ok hpriority, signed_ok hversion, signed_ok hfactor]
  refine ⟨_, rfl, rfl, rfl, rfl, rfl, ?_⟩
  simp only [hfields₁, hfields]
  rfl

/-- The numbers of a record that has a message are carried. -/
theorem carried_of_taskRecordToProto {m : TaskRecordMessage} (h : taskRecordToProto t r = .ok m) :
    Carried r := by
  unfold taskRecordToProto at h
  cases hprimary : nodeRefFromDict r.placement.primaryNode with
  | error e => rw [hprimary] at h; cases h
  | ok m₁ =>
  cases hreplicas : r.placement.replicaNodes.mapM nodeRefFromDict with
  | error e => rw [hprimary, hreplicas] at h; cases h
  | ok ms =>
  cases hpriority : signed 32 (priorityValue r.priority) with
  | error e => rw [hprimary, hreplicas, hpriority] at h; cases h
  | ok p =>
  cases hversion : signed 64 (r.version : ℤ) with
  | error e => rw [hprimary, hreplicas, hpriority, hversion] at h; cases h
  | ok v =>
  cases hfactor : signed 32 (r.placement.replicationFactor : ℤ) with
  | error e => rw [hprimary, hreplicas, hpriority, hversion, hfactor] at h; cases h
  | ok f => exact ⟨.of_signed hpriority, .of_signed hversion, .of_signed hfactor⟩

/-- A record whose numbers are carried is read back. -/
theorem roundTrips_of_carried (hring : OfRing r) (h : Carried r)
    (hjson : ∀ j, j = r.payload ∨ j = r.result ∨ j = r.error → j ≠ .null → t.Undone j) :
    RoundTrips t r := by
  obtain ⟨m, hm, hschema, hpayload, hresult, herror, hfields⟩ := taskRecordToProto_ok (t := t) hring h
  have hversion : intOfText "1" = .ok 1 := by decide +kernel
  refine ⟨m, hm, ?_⟩
  unfold taskRecordFromProto
  rw [hschema, if_neg (by decide), hversion, hpayload, hresult, herror,
    nested_jsonDumps (hjson _ (.inl rfl)), nested_jsonDumps (hjson _ (.inr (.inl rfl))),
    nested_jsonDumps (hjson _ (.inr (.inr rfl)))]
  exact congrArg Except.ok hfields

/-- **A task record survives the wire exactly when its numbers fit its fields**: the priority in 32
bits, the version in 64 and the replication factor in 32. -/
theorem roundTrips_iff (hring : OfRing r)
    (hjson : ∀ j, j = r.payload ∨ j = r.result ∨ j = r.error → j ≠ .null → t.Undone j) :
    RoundTrips t r ↔ Carried r := by
  constructor
  · rintro ⟨m, hm, -⟩
    exact carried_of_taskRecordToProto hm
  · exact fun h => roundTrips_of_carried hring h hjson

/-! ### A task with a number -/

/-- The texts of a few values, as the two functions have them. -/
def sampleText : JsonText where
  dumps
    | .null => "null"
    | .int 0 => "0"
    | .obj [] => "\x7b\x7d"
    | .obj [("x", .int 42)] => "\x7b\"x\": 42\x7d"
    | _ => "[]"
  loads text :=
    if text = "null" then .ok .null
    else if text = "0" then .ok (.int 0)
    else if text = "\x7b\x7d" then .ok (.obj [])
    else if text = "\x7b\"x\": 42\x7d" then .ok (.obj [("x", .int 42)])
    else if text = "[]" then .ok (.arr [])
    else .error "Expecting value: line 1 column 1 (char 0)"

/-- An input that a client may send, with a priority. -/
def inputWithPriority (priority : ℤ) : Fields :=
  Dict.set (Dict.set (Dict.set (Dict.set .empty "job_id" (.str "j")) "type" (.str "t")) "payload"
    (.obj [("x", .int 42)])) "priority" (.int priority)

/-- The record made of it. -/
def recordWithPriority (priority : ℤ) : TaskRecord where
  taskId := "x"
  jobId := "j"
  type := "t"
  payload := .obj [("x", .int 42)]
  priority := .int priority
  status := .registered
  result := .null
  error := .null
  createdAt := 0
  updatedAt := 0
  version := 1
  deleted := false
  placement := ⟨⟨1, "a"⟩, 3, []⟩

theorem createTaskRecord_inputWithPriority (priority : ℤ) :
    createTaskRecord (inputWithPriority priority) ⟨1, "a"⟩ 3 "x" 0 =
      .ok (recordWithPriority priority) := rfl

theorem ofRing_recordWithPriority (priority : ℤ) : OfRing (recordWithPriority priority) := by
  intro n hn
  obtain rfl : n = ⟨1, "a"⟩ := List.mem_singleton.1 hn
  decide

theorem undone_sampleText : sampleText.Undone (.int 0) ∧ sampleText.Undone (.obj []) ∧
    sampleText.Undone (.obj [("x", .int 42)]) :=
  ⟨⟨rfl, by decide⟩, ⟨rfl, by decide⟩, ⟨rfl, by decide⟩⟩

theorem undone_recordWithPriority (priority : ℤ) (j : Json)
    (hj : j = (recordWithPriority priority).payload ∨ j = (recordWithPriority priority).result ∨
      j = (recordWithPriority priority).error) (hnull : j ≠ .null) : sampleText.Undone j := by
  rcases hj with rfl | rfl | rfl
  · exact undone_sampleText.2.2
  · exact absurd rfl hnull
  · exact absurd rfl hnull

/-- A record with a small priority. -/
theorem roundTrips_iff_seven :
    RoundTrips sampleText (recordWithPriority 7) ↔ Carried (recordWithPriority 7) :=
  roundTrips_iff (ofRing_recordWithPriority 7) (undone_recordWithPriority 7)

/-- **A priority that the store accepts may not be carried**: 2³¹ is put in no message. -/
theorem not_roundTrips_of_priority : ∃ r,
    createTaskRecord (inputWithPriority (2 ^ 31)) ⟨1, "a"⟩ 3 "x" 0 = .ok r ∧ OfRing r ∧
      taskRecordToProto sampleText r = .error (.valueError "Value out of range: 2147483648") ∧
      ¬RoundTrips sampleText r := by
  refine ⟨recordWithPriority (2 ^ 31), createTaskRecord_inputWithPriority _,
    ofRing_recordWithPriority _, by decide +kernel, ?_⟩
  rintro ⟨m, hm, -⟩
  exact absurd (carried_of_taskRecordToProto hm) (by decide)

end Api
end ChordInfra
