/-
# The status of a task in words

`get_status_v2` of `chord/server.py`, and `ScriptedAgent._format_status_reply` of
`chord/conversation_agent.py`, which turns its answer into a reply to a user.  The formatter
takes apart whatever JSON value it is given, with the exceptions that this may raise; `repr`
is the function of that name, of which only lists and objects make use.

What a record keeps as the result depends on who wrote it last: nothing at first, the
dictionary of a worker after a report, a text after the task was given up (`Shaped`).  The
formatter takes the last for a dictionary, so a task that was given up is the one whose
status has no reply (`statusReply_iff`).
-/

import ChordInfra.Server.OneNode
import ChordInfra.Server.System

namespace ChordInfra
namespace Storage

/-! ### JSON values as Python objects -/

/-- What an attribute or an operator raises that a value does not have. -/
inductive FormatError
  | attributeError (message : String)
  | typeError (message : String)
deriving DecidableEq, Repr

namespace Json

/-- `type(value).__name__`. -/
def typeName : Json → String
  | null => "NoneType"
  | bool _ => "bool"
  | int _ => "int"
  | float _ => "float"
  | str _ => "str"
  | arr _ => "list"
  | obj _ => "dict"

/-- `value.get(name)`. -/
def getField (name : String) : Json → Except FormatError Json
  | obj fields => .ok ((fields.lookup name).getD null)
  | j => .error (.attributeError ("'" ++ j.typeName ++ "' object has no attribute 'get'"))

/-- `len(value)`. -/
def len : Json → Except FormatError ℕ
  | str s => .ok s.length
  | arr items => .ok items.length
  | obj fields => .ok fields.length
  | j => .error (.typeError ("object of type '" ++ j.typeName ++ "' has no len()"))

/-- `value or other`. -/
def orElse (j other : Json) : Json := if j.truthy then j else other

/-- `value[:n] + "…"`. -/
def cut (n : ℕ) : Json → Except FormatError Json
  | str s => .ok (str (String.ofList (s.toList.take n) ++ "…"))
  | arr _ => .error (.typeError "can only concatenate list (not \x22str\x22) to list")
  | obj _ => .error (.typeError "unhashable type: 'slice'")
  | j => .error (.typeError ("'" ++ j.typeName ++ "' object is not subscriptable"))

end Json

/-! ### The answer -/

/-- The text of a status. -/
def Status.text : Status → String
  | pending => "PENDING"
  | running => "RUNNING"
  | success => "SUCCESS"
  | failure => "FAILURE"

/-- The text of who assigned a task. -/
def AssignedBy.text : AssignedBy → String
  | user => "user"
  | frontend => "frontend"
  | intelligence => "intelligence"

end Storage

namespace Server

open Interact Prog
open Storage
open ChordInfra.Ring (NodeRef)

/-- The answer of `/getStatus`. -/
inductive StatusAnswer
  | found (body : Json)
  | notFound (taskId : String)
  /-- The lookup raised. -/
  | failed (e : Exc)

/-- What the answer says of a record. -/
def statusBody (taskId : String) (record : ResultRecord) : Json :=
  .obj [("task_id", .str taskId), ("status", .str record.status.text), ("result", record.result),
    ("worker_id", .str record.workerId), ("assigned_by", .str record.assignedBy.text)]

/-- `get_status_v2`. -/
def getStatus (s : Service) (taskId : String) : M StatusAnswer := do
  match ← attempt (ResultService.get s taskId) with
  | .ok (some record) => pure (.found (statusBody taskId record))
  | .ok none => pure (.notFound taskId)
  | .error e => pure (.failed e)

/-! ### The reply -/

/-- `STDOUT_TRUNCATE_CHARS`. -/
def stdoutTruncateChars : ℕ := 500

/-- `_truncate`. -/
def truncate (text : Json) (n : ℕ) : Except FormatError Json :=
  if text.truthy then do
    let len ← text.len
    if len ≤ n then .ok text else text.cut n
  else .ok (.str "(empty)")

/-- A text of a result with the note after it: in full, or not longer than is shown. -/
def shorten (full : Bool) (text : Json) (hint : String) : Except FormatError (Json × String) :=
  if full then .ok (text, "")
  else do
    let shown ← truncate text stdoutTruncateChars
    let len ← text.len
    return (shown, if stdoutTruncateChars < len then hint else "")

section Format

variable (repr : Json → String) (taskId : String)

/-- A value in an f-string. -/
def formatted (j : Json) : String :=
  match j with
  | .arr _ | .obj _ => repr j
  | _ => j.text

/-- The reply for a task that succeeded. -/
def successReply (result : Json) (full : Bool) : Except FormatError String := do
  let stdout := (← result.getField "stdout").orElse (.str "")
  let duration ← result.getField "duration_ms"
  let (shown, note) ← shorten full stdout
    "  (output truncated, ask 'show me the full output' for the rest)"
  let after := match duration with
    | .null => ""
    | _ => " in " ++ formatted repr duration ++ "ms"
  return "✓ Task `" ++ taskId ++ "` completed successfully" ++ after ++ ".\nOutput:\n" ++
    formatted repr shown ++ note ++ "\n  Anything else I can help with?"

/-- The reply for a task that failed. -/
def failureReply (result : Json) (full : Bool) : Except FormatError String := do
  let timedOut ← result.getField "timed_out"
  let exitCode ← result.getField "exit_code"
  let stderr := ((← result.getField "stderr").orElse (← result.getField "stdout")).orElse (.str "")
  let (shown, note) ← shorten full stderr
    "  (truncated, ask 'show me the full output' for the rest)"
  let tail := formatted repr shown ++ note ++ "\n  Want me to show the full error output?"
  if timedOut.truthy then
    return "⏱ Task `" ++ taskId ++ "` ran longer than the allowed time and was stopped.\nstderr:\n" ++
      tail
  else
    return "✗ Task `" ++ taskId ++ "` failed (exit code " ++ formatted repr exitCode ++
      ").\nError:\n" ++ tail

/-- The reply for an answer with a status. -/
def statusReply (status result : Json) (full afterWait : Bool) : Except FormatError String :=
  match status with
  | .str "PENDING" =>
    .ok ("⏳ Task `" ++ taskId ++ "` is still running" ++
      (if afterWait then " (no change after the wait window)" else "") ++
      ".\n   Want me to wait for it to finish?")
  | .str "SUCCESS" => successReply repr taskId result full
  | .str "FAILURE" => failureReply repr taskId result full
  | _ => .ok ("❓ Task `" ++ taskId ++ "` has an unrecognised status: " ++ repr status)

/-- `_format_status_reply`. -/
def formatStatusReply (body : Json) (full afterWait : Bool) : Except FormatError String :=
  match body with
  | .obj _ => do
    match ← body.getField "error_code" with
    | .str "TASK_NOT_FOUND" =>
      .ok ("❓ I don't have a record of task `" ++ taskId ++ "`. Did you mean a different ID?")
    | code =>
      if code.truthy then
        let message ← body.getField "message"
        .ok ("⚠️ Server error checking `" ++ taskId ++ "`: " ++ formatted repr (message.orElse body))
      else
        let status ← body.getField "status"
        let result ← body.getField "result"
        statusReply repr taskId status (result.orElse (.obj [])) full afterWait
  | _ => .ok ("❓ Couldn't read status for " ++ taskId ++ " — server returned " ++ repr body ++ ".")

end Format

/-! ### What a result looks like -/

/-- The dictionary that a worker reports of an execution. -/
def Payload (j : Json) : Prop := ∃ e : ExecutionResult, j = executionPayload e

theorem payload_outcome (e : Except String ExecutionResult) : Payload (outcome e).2 := by
  cases e with
  | ok r => exact ⟨r, rfl⟩
  | error exc => exact ⟨executorError exc, rfl⟩

/-- The result of a task that was given up. -/
def permanentlyFailed (attempts : ℕ) : Json :=
  .str ("Permanently failed after " ++ toString attempts ++ " attempt(s)")

theorem truthy_permanentlyFailed (attempts : ℕ) : (permanentlyFailed attempts).truthy = true := by
  simp [permanentlyFailed, Json.truthy]

/-- What a record with an outcome keeps as the result: the dictionary of a worker, or else,
of a failure, the text of a recovery. -/
def Shaped : Key → Value → Prop
  | _, .result r =>
    (r.status = .success → Payload r.result) ∧
      (r.status = .failure → Payload r.result ∨ r.result = permanentlyFailed r.attemptCount)
  | _, _ => True

theorem shaped_pending {k : Key} {r : ResultRecord} (h : r.status = .pending) :
    Shaped k (.result r) := by
  refine ⟨fun hs => ?_, fun hs => ?_⟩ <;>
    · rw [h] at hs
      cases hs

theorem law_shaped : Law Shaped Payload where
  stripped := fun {_ _ v} _ h => by cases v <;> exact h
  own h := h
  built h := by
    unfold buildResultRecord at h
    split at h
    · split_ifs at h
      cases h
      exact shaped_pending rfl
    · cases h
    · cases h
  completed _ _ hresult _ _ := ⟨fun _ => hresult, fun _ => .inl hresult⟩
  reassigned _ hpending _ := shaped_pending hpending
  cleared _ h := h
  gaveUp _ _ _ _ := ⟨fun h => (by cases h), fun _ => .inr rfl⟩
  waits _ _ _ _ _ h := h
  requeued _ _ _ _ _ := shaped_pending rfl

/-! ### Which results have a reply -/

section Format

variable (repr : Json → String) (taskId : String)

/-- The formatter goes on with what a step returns. -/
theorem returns_bind {α β : Type} {x : Except FormatError α} {f : α → Except FormatError β} {a : α}
    (hx : x = .ok a) (hf : ∃ b, f a = .ok b) : ∃ b, x >>= f = .ok b := by
  subst hx
  exact hf

/-- A text is always short enough to be shown, or shortened. -/
theorem truncate_str (text : String) (n : ℕ) : ∃ shown, truncate (.str text) n = .ok shown := by
  unfold truncate
  split_ifs
  · refine returns_bind (a := text.length) rfl ?_
    split_ifs
    · exact ⟨_, rfl⟩
    · exact ⟨_, rfl⟩
  · exact ⟨_, rfl⟩

theorem shorten_str (full : Bool) (text hint : String) :
    ∃ shown, shorten full (.str text) hint = .ok shown := by
  unfold shorten
  split_ifs
  · exact ⟨_, rfl⟩
  · obtain ⟨shown, hshown⟩ := truncate_str text stdoutTruncateChars
    exact returns_bind hshown ⟨_, rfl⟩

/-- What `or` makes of two texts is a text. -/
theorem exists_orElse_str (s t : String) : ∃ u, (Json.str s).orElse (.str t) = .str u := by
  unfold Json.orElse
  split_ifs
  · exact ⟨s, rfl⟩
  · exact ⟨t, rfl⟩

theorem successReply_payload (e : ExecutionResult) (full : Bool) :
    ∃ reply, successReply repr taskId (executionPayload e) full = .ok reply := by
  obtain ⟨stdout, hstdout⟩ := exists_orElse_str e.stdout ""
  refine returns_bind (a := .str e.stdout) rfl (returns_bind (a := .int e.durationMs) rfl ?_)
  rw [hstdout]
  obtain ⟨shown, hshown⟩ := shorten_str full stdout _
  exact returns_bind hshown ⟨_, rfl⟩

theorem failureReply_payload (e : ExecutionResult) (full : Bool) :
    ∃ reply, failureReply repr taskId (executionPayload e) full = .ok reply := by
  obtain ⟨output, houtput⟩ := exists_orElse_str e.stderr e.stdout
  obtain ⟨stderr, hstderr⟩ := exists_orElse_str output ""
  refine returns_bind (a := .bool e.timedOut) rfl (returns_bind (a := .int e.exitCode) rfl ?_)
  refine returns_bind (a := .str e.stderr) rfl (returns_bind (a := .str e.stdout) rfl ?_)
  rw [houtput, hstderr]
  obtain ⟨shown, hshown⟩ := shorten_str full stderr _
  refine returns_bind hshown ?_
  split_ifs
  · exact ⟨_, rfl⟩
  · exact ⟨_, rfl⟩

/-- A text has no fields. -/
theorem failureReply_str (text : String) (full : Bool) :
    failureReply repr taskId (.str text) full =
      .error (.attributeError "'str' object has no attribute 'get'") := rfl

/-- The reply for an answer with a record is one about its status and its result. -/
theorem formatStatusReply_statusBody (r : ResultRecord) (full afterWait : Bool) :
    formatStatusReply repr taskId (statusBody taskId r) full afterWait =
      statusReply repr taskId (.str r.status.text) (r.result.orElse (.obj [])) full afterWait := rfl

/-- The dictionary of a worker is not empty. -/
theorem Payload.orElse {j : Json} (h : Payload j) (other : Json) : j.orElse other = j := by
  obtain ⟨e, rfl⟩ := h
  rfl

/-- **The reply for a record of each shape.** -/
theorem formatStatusReply_shaped {k : Key} {r : ResultRecord} (h : Shaped k (.result r))
    (full afterWait : Bool) :
    (∃ reply, formatStatusReply repr taskId (statusBody taskId r) full afterWait = .ok reply) ↔
      ¬(r.status = .failure ∧ r.result = permanentlyFailed r.attemptCount) := by
  rw [formatStatusReply_statusBody]
  cases hstatus : r.status with
  | pending => exact iff_of_true ⟨_, rfl⟩ fun h => (by cases h.1)
  | running => exact iff_of_true ⟨_, rfl⟩ fun h => (by cases h.1)
  | success =>
    have hpayload := h.1 hstatus
    rw [hpayload.orElse]
    obtain ⟨e, he⟩ := hpayload
    rw [he]
    exact iff_of_true (successReply_payload repr taskId e full) fun h => (by cases h.1)
  | failure =>
    rcases h.2 hstatus with hpayload | htext
    · rw [hpayload.orElse]
      obtain ⟨e, he⟩ := hpayload
      rw [he]
      exact iff_of_true (failureReply_payload repr taskId e full) fun h => (by cases h.2)
    · have hne : (permanentlyFailed r.attemptCount).orElse (.obj []) =
          permanentlyFailed r.attemptCount := if_pos (truthy_permanentlyFailed _)
      rw [htext, hne]
      refine iff_of_false ?_ fun h => h ⟨rfl, rfl⟩
      rintro ⟨reply, hreply⟩
      exact absurd ((failureReply_str repr taskId _ full).symm.trans hreply) (by simp)

end Format

/-! ### Runs -/

/-- What comes in where reports are of the dictionaries that workers send. -/
def Genuine (t : Thread Op Op.Res Exc Unit Unit) : Prop :=
  ∃ a : Activity, a.Reports Payload ∧ t = ⟨(), a.program⟩

section Runs

variable {ι : Type} [DecidableEq ι] {env : Env} {services : NodeRef → Service} {w : World}
  {c : Pool ι Op Op.Res Exc Unit Unit World}

/-- Every record has one of the shapes, throughout every run. -/
theorem shaped (hrun : Steps (system env services) Genuine (anyStep ι) (still ι w) c)
    (hw : Kept Shaped w) : Kept Shaped c.world := by
  have hworking : Working (Granted Shaped) (Writes Shaped) Shaped :=
    working_writes (fun _ _ => trivial) law_shaped
  refine hworking.keepsWhere law_shaped payload_outcome (fun t ht => ?_) (fun _ _ => kept_handle)
    hrun hw
  obtain ⟨a, ha, rfl⟩ := ht
  exact hworking.activityWhere law_shaped payload_outcome ha

/-- **Which records have a reply about their status**, in every run of requests, reports of
workers, recoveries, rebalances, heartbeats, deaths and workers, in any order of their operations
and whatever requests are lost: all but those of tasks that were given up. -/
theorem statusReply_iff
    (hrun : Steps (system env services) Genuine (anyStep ι) (still ι w) c)
    (hw : ∀ a k r, (w.stores a).get k ≠ some (.result r)) {a : Address} {k : Key}
    {r : ResultRecord} (hr : (c.world.stores a).get k = some (.result r)) (repr : Json → String)
    (taskId : String) (full afterWait : Bool) :
    (∃ reply, formatStatusReply repr taskId (statusBody taskId r) full afterWait = .ok reply) ↔
      ¬(r.status = .failure ∧ r.result = permanentlyFailed r.attemptCount) := by
  have hempty : Kept Shaped w := by
    intro a k v hv
    cases v with
    | result r => exact absurd hv (hw a k r)
    | _ => trivial
  exact formatStatusReply_shaped repr taskId (shaped hrun hempty a k _ hr) full afterWait

end Runs

namespace OneNode

/-- The task `t` is requested, then reported by its worker to have failed, and then the node
scans, for as many operations as `n`. -/
def failedAndScanned (n : ℕ) : List (Event ℕ Op Op.Res Exc Unit Unit) :=
  .enter 0 ⟨(), (Activity.create config services (body "t" (some "w"))).program⟩ ::
    (List.replicate 14 (.act 0 0) ++
      .enter 1 ⟨(), (Activity.report services "t" (.str "FAILURE")
        (executionPayload ⟨1, "", "", 30, false⟩)).program⟩ ::
      (List.replicate 7 (.act 1 1) ++
        .enter 2 ⟨(), (Activity.scan config services order).program⟩ ::
          List.replicate n (.act 2 2)))

/-- Whether the status of a failed task has no reply. -/
def unanswered (r : ResultRecord) : Bool :=
  decide (r.status = .failure) &&
    (formatStatusReply (fun _ => "") "t" (statusBody "t" r) false false).toOption.isNone

/-- A run of these operations that ends with a record of the task that passes a test. -/
theorem exists_run {n : ℕ} {p : ResultRecord → Bool}
    (h : ((still ℕ World.empty).steps (system (env 0) fun _ => services)
      (anyStep ℕ) (failedAndScanned n)).map (fun c => shows c.world "t" p) = some true) :
    ∃ c r, Steps (system (env 0) fun _ => services) Genuine (anyStep ℕ)
      (still ℕ World.empty) c ∧
      (c.world.stores node.address).get (.result "t") = some (.result r) ∧ p r = true := by
  obtain ⟨c, hc, hshows⟩ := Option.map_eq_some_iff.1 h
  obtain ⟨r, hr, hp⟩ := exists_of_shows hshows
  refine ⟨c, r, .of_steps (fun i t ht => ?_) hc, hr, hp⟩
  simp only [failedAndScanned, List.mem_cons, List.mem_append, List.mem_replicate, Event.enter.injEq,
    reduceCtorEq, and_false, false_or, or_false] at ht
  rcases ht with ⟨-, rfl⟩ | ⟨-, rfl⟩ | ⟨-, rfl⟩
  · exact ⟨.create config services (body "t" (some "w")), trivial, rfl⟩
  · exact ⟨.report services "t" (.str "FAILURE") _, ⟨_, rfl⟩, rfl⟩
  · exact ⟨.scan config services order, trivial, rfl⟩

/-- The hypotheses of `statusReply_iff` are satisfiable: a task fails. -/
theorem statusReply_iff_failing :
    ∃ c r, Steps (system (env 0) fun _ => services) Genuine (anyStep ℕ)
      (still ℕ World.empty) c ∧
      (c.world.stores node.address).get (.result "t") = some (.result r) ∧
      ((∃ reply, formatStatusReply (fun _ => "") "t" (statusBody "t" r) true true = .ok reply) ↔
        ¬(r.status = .failure ∧ r.result = permanentlyFailed r.attemptCount)) := by
  have hshows : ((still ℕ World.empty).steps (system (env 0) fun _ => services)
      (anyStep ℕ) (failedAndScanned 0)).map (fun c => shows c.world "t" fun r => !unanswered r) =
        some true := by decide +kernel
  obtain ⟨c, r, hrun, hr, -⟩ := exists_run hshows
  exact ⟨c, r, hrun, hr, statusReply_iff hrun (fun _ _ _ h => (by cases h)) hr _ "t" true true⟩

/-- **A task whose status has no reply**: it failed, and was given up. -/
theorem givenUp_unanswered :
    ∃ c r, Steps (system (env 0) fun _ => services) Genuine (anyStep ℕ)
      (still ℕ World.empty) c ∧
      (c.world.stores node.address).get (.result "t") = some (.result r) ∧
      ¬∃ reply, formatStatusReply (fun _ => "") "t" (statusBody "t" r) false false = .ok reply := by
  have hshows : ((still ℕ World.empty).steps (system (env 0) fun _ => services)
      (anyStep ℕ) (failedAndScanned 16)).map (fun c => shows c.world "t" unanswered) = some true := by
    decide +kernel
  obtain ⟨c, r, hrun, hr, hunanswered⟩ := exists_run hshows
  refine ⟨c, r, hrun, hr, ?_⟩
  rintro ⟨reply, hreply⟩
  simp [unanswered, hreply, Except.toOption] at hunanswered

end OneNode

end Server
end ChordInfra
