/-
# The scripted agent

`ScriptedAgent` of `chord/conversation_agent.py`, the agent of a node that has no API
key.  It keeps nothing between two messages: the caller sends the whole conversation
with every message, and the agent reads the state of the dialogue out of the last of
its own replies and writes the next one into the reply it adds.

What the HTTP API answers, the random part of a new task's id and the clock are given
for each message (`Outside`).  The formatting of an answer about a task is that of
`Server.formatStatusReply`.
-/

import ChordInfra.Chat.Intent
import ChordInfra.Server.StatusReply

namespace ChordInfra
namespace Storage
namespace Json

/-- `for x in value`. -/
def items : Json → Except FormatError (List Json)
  | arr items => .ok items
  | obj fields => .ok (fields.map fun f => str f.1)
  | str s => .ok (s.toList.map fun c => str (String.singleton c))
  | j => .error (.typeError ("'" ++ j.typeName ++ "' object is not iterable"))

/-- `dict(value)`, of a dictionary. -/
def asDict : Json → Except FormatError (List (String × Json))
  | obj fields => .ok fields
  | j => .error (.typeError ("'" ++ j.typeName ++ "' object is not iterable"))

/-- `value == text`. -/
def isStr (text : String) : Json → Bool
  | str s => s = text
  | _ => false

end Json

/-- `str(exc)`. -/
def FormatError.text : FormatError → String
  | attributeError message => message
  | typeError message => message

end Storage

namespace Chat

open Storage (Json FormatError strip)
open Server (formatted formatStatusReply)

/-- What the code meets outside while it answers one message. -/
structure Outside where
  /-- `uuid.uuid4().hex[:12]`. -/
  hex : String
  /-- `int(time.time())`. -/
  now : ℕ
  /-- `requests.get(path, params).json()`, with the parameter `wait`, or what was raised. -/
  get : String → Option ℕ → Except String Json
  /-- The status code and the JSON of `requests.post("/createTask")`, or what was raised. -/
  post : Json → Except String (ℕ × Json)

/-- What comes of one message: what `chat` returns, and what it has had posted to
`/createTask`, by itself and in the background. -/
structure Turn where
  reply : String
  history : List Json
  action : Json
  posts : List Json
  batch : List Json

/-! ### The state in the history -/

/-- `{"step": "INIT", "data": {}}`. -/
def initState : Json := .obj [("step", .str "INIT"), ("data", .obj [])]

/-- A block that carries a state. -/
def isStateBlock : Json → Bool
  | .obj fields => ((fields.lookup "type").getD .null).isStr "scripted_state"
  | _ => false

/-- The state in the first message of a list that carries one. -/
def stateIn : List Json → Except FormatError Json
  | [] => .ok .null
  | message :: earlier => do
    let role ← message.getField "role"
    if role.isStr "assistant" then
      match ← message.getField "content" with
      | .arr blocks =>
        match blocks.find? isStateBlock with
        | some block => block.getField "state"
        | none => stateIn earlier
      | _ => stateIn earlier
    else stateIn earlier

/-- `_read_state`. -/
def readState (history : List Json) : Except FormatError Json := stateIn history.reverse

/-- What a message and its reply add to the conversation. -/
def exchange (userMsg reply : String) (state : Json) : List Json :=
  [.obj [("role", .str "user"), ("content", .str userMsg)],
    .obj [("role", .str "assistant"), ("content", .arr [
      .obj [("type", .str "text"), ("text", .str reply)],
      .obj [("type", .str "scripted_state"), ("state", state)]])]]

/-- `_return`. -/
def returned (history : List Json) (userMsg reply : String) (state action : Json)
    (posts batch : List Json) : Turn :=
  ⟨reply, history ++ exchange userMsg reply state, action, posts, batch⟩

section Agent

variable (t : Tables) (repr : Json → String) (o : Outside)

/-- `_http_get`. -/
def httpGet (path : String) (wait : Option ℕ) : Json :=
  match o.get path wait with
  | .ok body => body
  | .error e => .obj [("error", .str e)]

/-! ### Questions -/

/-- `_resolve_task_id`. -/
def resolveTaskId (explicit : Option String) (state : Json) : Except FormatError (Option Json) :=
  match explicit with
  | some taskId => .ok (some (.str taskId))
  | none => do
    let last ← state.getField "last_task_id"
    return if last.truthy then some last else none

/-- `WAIT_FOR_STATUS_DEFAULT_S`. -/
def waitForStatusDefault : ℕ := 120

/-- The reply to a question, and the action. -/
def answer (q : Question) (state : Json) : Except FormatError (String × Json) := do
  match ← resolveTaskId q.explicit state with
  | none => return ("Which task ID would you like me to check?", .null)
  | some taskId =>
    let wait := if q.wait then some waitForStatusDefault else none
    let result := httpGet o ("/getStatus/" ++ formatted repr taskId) wait
    let reply ← formatStatusReply repr (formatted repr taskId) result (!q.wait && q.full) q.wait
    if q.wait then
      return (reply, .obj [("type", .str "wait_for_status"),
        ("input", .obj [("task_id", taskId), ("max_wait_seconds", .int waitForStatusDefault)]),
        ("result", result)])
    else
      return (reply, .obj [("type", .str "get_status"), ("input", .obj [("task_id", taskId)]),
        ("result", result)])

/-! ### The list of tasks -/

/-- How the list groups the tasks. -/
inductive Bucket
  | pending
  | failure
  | success
  | other
deriving DecidableEq

/-- The group of a row. -/
def bucketOf (row : Json) : Except FormatError Bucket := do
  let status := (← row.getField "status").orElse (.str "?")
  match status with
  | .str "PENDING" => return .pending
  | .str "FAILURE" => return .failure
  | .str "SUCCESS" => return .success
  | .arr _ | .obj _ => .error (.typeError ("unhashable type: '" ++ status.typeName ++ "'"))
  | _ => return .other

/-- `fmt_row`. -/
def fmtRow (row : Json) : Except FormatError String := do
  let taskId := (← row.getField "task_id").orElse (.str "?")
  let workerId := (← row.getField "worker_id").orElse (.str "?")
  let owner := match ← row.getField "owner" with
    | .null => "—"
    | owner => "N" ++ formatted repr owner
  return "  · " ++ formatted repr taskId ++ "   → worker " ++ formatted repr workerId ++
    "   (owner " ++ owner ++ ")"

/-- `SHOW_LIMIT`. -/
def showLimit : ℕ := 30

/-- The lines of a group that has a heading of its own. -/
def groupLines (icon name : String) (group : List Json) : Except FormatError (List String) :=
  if group.isEmpty then .ok []
  else do
    let rows ← (group.take showLimit).mapM (fmtRow repr)
    let more := if showLimit < group.length then
      ["  …and " ++ toString (group.length - showLimit) ++ " more"] else []
    return (icon ++ " " ++ name ++ "  (" ++ toString group.length ++ ")") :: rows ++ more ++ [""]

/-- The rows of a group. -/
def group (b : Bucket) (rows : List (Json × Bucket)) : List Json :=
  (rows.filter fun row => row.2 = b).map Prod.fst

/-- The reply that lists some rows, and the action. -/
def listed (rows : List (Json × Bucket)) : Except FormatError (String × Json) := do
  let count (b : Bucket) := (group b rows).length
  let heading := "📋 Tasks in the ring: total " ++ toString rows.length ++ "  ·  ⏳ " ++
    toString (count .pending) ++ "  ·  ✅ " ++ toString (count .success) ++ "  ·  ❌ " ++
    toString (count .failure)
  let pending ← groupLines repr "⏳" "PENDING" (group .pending rows)
  let failure ← groupLines repr "❌" "FAILURE" (group .failure rows)
  let success ← groupLines repr "✅" "SUCCESS" (group .success rows)
  let others ← ((group .other rows).take showLimit).mapM (fmtRow repr)
  let other := if count .other = 0 then []
    else ("Other  (" ++ toString (count .other) ++ ")") :: others
  return ("\n".intercalate ([heading, ""] ++ pending ++ failure ++ success ++ other ++
      ["Ask me 'status of <task_id>' for full details on any task."]),
    .obj [("type", .str "list_tasks"), ("result", .obj [("total", .int rows.length),
      ("pending", .int (count .pending)), ("success", .int (count .success)),
      ("failure", .int (count .failure))])])

/-- `_list_tasks`. -/
def listTasks : Except FormatError (String × Json) :=
  match o.get "/api/dht/contents" none with
  | .error e => .ok ("Couldn't load tasks: " ++ e, .null)
  | .ok body => do
    let rows := (← body.getField "ht1").orElse (.arr [])
    if rows.truthy then
      let rows ← rows.items
      let buckets ← rows.mapM bucketOf
      listed repr (rows.zip buckets)
    else return ("No tasks have been registered yet. Try 'demo 10' to fire a batch.", .null)

/-! ### Demos -/

/-- `welcome`. -/
def welcome : String := "Welcome to Rakesh Ranjan's Distributed Class"

/-- `f"{idx:03d}"`. -/
def threeDigits (n : ℕ) : String :=
  let digits := toString n
  String.ofList (List.replicate (3 - digits.length) '0') ++ digits

/-- The id of the task `idx` of a demo, from 1 on. -/
def demoId (now idx : ℕ) : String := "chat-demo-" ++ toString now ++ "-" ++ threeDigits idx

/-- Its script. -/
def demoScript (now idx : ℕ) : String :=
  let sleep := toString (3 + (idx - 1) % 5)
  "echo \"[" ++ demoId now idx ++ "] starting (sleep " ++ sleep ++ "s)\"; sleep " ++ sleep ++
    "; echo \"" ++ welcome ++ "\"; echo \"[" ++ demoId now idx ++ "] done\""

/-- The body for it. -/
def demoTask (now idx : ℕ) : Json :=
  .obj [("task_id", .str (demoId now idx)), ("task_details", .obj [("task_type", .str "SCRIPT"),
    ("path", .str ""), ("script", .str (demoScript now idx))])]

/-- What a demo posts in the background. -/
def demoTasks (now n : ℕ) : List Json := (List.range n).map fun i => demoTask now (i + 1)

/-- The reply of `_run_demo`. -/
def demoReply (n : ℕ) : String :=
  "\n".intercalate [
    "🧪 Demo: launching " ++ toString n ++ " tasks in the background (sleeps rotate 3–7 s).",
    "",
    "Tasks are being submitted right now — refresh the dashboard:",
    "  • Queue chip should climb, then drain back to 0 as workers finish.",
    "  • DHT Store → HT1 fills with PENDING → SUCCESS rows.",
    "  • Workers panel → BEST CHOICE badge hops as load shifts.",
    "",
    "Each task will print: \"" ++ welcome ++ "\"",
    "Ask me \"status of <task_id>\" once you spot one you want to inspect."]

/-- The action of `_run_demo`. -/
def demoAction (now n : ℕ) : Json :=
  .obj [("type", .str "run_demo"), ("input", .obj [("count", .int n)]),
    ("result", .obj [("submitted_async", .bool true), ("ts", .int now)])]

/-! ### Submissions -/

/-- What `_submit` posts. -/
def payload (hex : String) (data : List (String × Json)) (workerId : Option String) : Json :=
  .obj ([("task_id", .str ("task_" ++ hex)), ("task_details", .obj [
      ("task_type", (data.lookup "task_type").getD .null),
      ("path", (data.lookup "path").getD (.str "")),
      ("script", (data.lookup "script").getD (.str ""))])] ++
    match workerId with
    | some w => if w = "" then [] else [("worker_id", .str w)]
    | none => [])

/-- `body[name]`, with the text of the exception. -/
def item (name : String) (body : Json) : Except String Json :=
  match body with
  | .obj fields =>
    match fields.lookup name with
    | some value => .ok value
    | none => .error ("'" ++ name ++ "'")
  | j => .error ("'" ++ j.typeName ++ "' object is not subscriptable")

/-- `body.get(name)`, with the text of the exception. -/
def field (name : String) (body : Json) : Except String Json :=
  (body.getField name).mapError FormatError.text

/-- The reply for an answer of `/createTask`, or the text of what is raised. -/
def submitReply (code : ℕ) (body : Json) : Except String String := do
  let message ← if code = 200 ∨ code = 201 then field "message" body else .ok .null
  if message.isStr "Task accepted" || message.isStr "Task already exists" then
    let verb := if message.isStr "Task accepted" then "Task accepted" else "Task already existed"
    let taskId ← item "task_id" body
    let workerId ← item "worker_id" body
    let assignedBy ← item "assigned_by" body
    return "✓ " ++ verb ++ ". ID: " ++ formatted repr taskId ++ ", assigned to " ++
      formatted repr workerId ++ " (by " ++ formatted repr assignedBy ++ ")."
  else
    let reason ← field "reason" body
    return "Task rejected: " ++ formatted repr (reason.orElse body)

/-- `_submit`: the reply and the action. -/
def submit (data : List (String × Json)) (workerId : Option String) : String × Json :=
  let body := payload o.hex data workerId
  let reply := do
    let (code, result) ← o.post body
    let reply ← submitReply repr code result
    return (reply, Json.obj [("type", .str "create_task"), ("input", body), ("result", result)])
  match reply with
  | .ok reply => reply
  | .error e => ("Error submitting task: " ++ e, .null)

/-- `action["input"]["task_id"]`, of an action that has it. -/
def inputTaskId (action : Json) : Json :=
  match action with
  | .obj fields =>
    match (fields.lookup "input").getD .null with
    | .obj input => (input.lookup "task_id").getD .null
    | _ => .null
  | _ => .null

/-- `_post_submit_state`.  The input of an action has an id that is not empty. -/
def postSubmitState (action : Json) : Json :=
  .obj [("step", .str "DONE"), ("data", .obj []), ("last_task_id", inputTaskId action)]

/-! ### The dialogue -/

/-- `", ".join(value)`. -/
def join (value : Json) : Except FormatError String := do
  let items ← match value with
    | .arr _ | .obj _ | .str _ => value.items
    | _ => .error (.typeError "can only join an iterable")
  let texts ← items.zipIdx.mapM fun
    | (.str s, _) => .ok s
    | (j, i) => .error (.typeError ("sequence item " ++ toString i ++ ": expected str instance, " ++
        j.typeName ++ " found"))
  return ", ".intercalate texts

/-- Where the dialogue goes: the reply, the state, the action and what was posted. -/
structure Outcome where
  reply : String
  state : Json
  action : Json
  posts : List Json

/-- `step == "INIT"`. -/
def atInit (msg : String) (state : Json) (data : List (String × Json)) : Outcome :=
  let low := t.lower msg
  let next (taskType : String) : Json := .obj [("step", .str "ASK_PATH"),
    ("data", .obj (Dict.setEntries "task_type" (.str taskType) data))]
  if low = "2" ∨ low = "binary" ∨ Text.contains low "binary" then
    ⟨"Got it — BINARY. What is the binary path?", next "BINARY", .null, []⟩
  else if low = "1" ∨ low = "script" ∨ Text.contains low "script" then
    ⟨"Got it — SCRIPT. Paste the script body, or provide a path.", next "SCRIPT", .null, []⟩
  else ⟨"Hi! Would you like to execute a [1] Script or [2] Binary?", state, .null, []⟩

/-- `looks_like_path`. -/
def looksLikePath (msg : String) : Bool :=
  (msg.startsWith "/" || msg.startsWith "./") && !msg.contains ' ' && !msg.contains '\n'

/-- `step == "ASK_PATH"`. -/
def atAskPath (msg : String) (data : List (String × Json)) : Outcome :=
  let script := ((data.lookup "task_type").getD .null).isStr "SCRIPT" && !looksLikePath msg
  let data := Dict.setEntries "path" (.str (if script then "" else msg)) data
  let data := Dict.setEntries "script" (.str (if script then msg else "")) data
  ⟨"Would you like to [1] Pick a specific worker, or [2] Let the system auto-assign one?",
    .obj [("step", .str "ASK_WORKER"), ("data", .obj data)], .null, []⟩

/-- A submission. -/
def submitted (data : List (String × Json)) (workerId : Option String) : Outcome :=
  let (reply, action) := submit repr o data workerId
  ⟨reply, postSubmitState action, action, [payload o.hex data workerId]⟩

/-- `step == "ASK_WORKER"`. -/
def atAskWorker (msg : String) (state : Json) (data : List (String × Json)) :
    Except FormatError Outcome :=
  let low := t.lower msg
  if low = "1" ∨ low = "pick" ∨ Text.contains low "pick" then do
    let live := (← (httpGet o "/workers/live" none).getField "live_workers").orElse (.arr [])
    if live.truthy then
      let names ← join live
      return ⟨"Live workers: " ++ names ++ ". Which one?",
        .obj [("step", .str "ASK_WORKER_ID"), ("data", .obj data)], .null, []⟩
    else
      return ⟨"There are no live workers right now. Reply 'auto' to use auto-assignment, " ++
        "or seed a worker via /workers/heartbeat first.", state, .null, []⟩
  else .ok (submitted repr o data none)

/-- `step == "DONE"`. -/
def atDone (msg : String) (state : Json) : Outcome :=
  let low := t.lower msg
  if Text.contains low "run a task" ∨ Text.contains low "new task" then
    ⟨"Sure! Would you like to execute a [1] Script or [2] Binary?", initState, .null, []⟩
  else
    ⟨"Anything else? Say 'I want to run a task' to start over, or ask 'status of <task_id>'.",
      state, .null, []⟩

/-- The dialogue, for a message that is no intent. -/
def step (msg : String) (state : Json) : Except FormatError Outcome := do
  let name ← match state with
    | .obj fields => .ok ((fields.lookup "step").getD (.str "INIT"))
    | j => j.getField "step"
  let data ← ((← state.getField "data").orElse (.obj [])).asDict
  match name with
  | .str "INIT" => return atInit t msg state data
  | .str "ASK_PATH" => return atAskPath msg data
  | .str "ASK_WORKER" => atAskWorker t repr o msg state data
  | .str "ASK_WORKER_ID" => return submitted repr o data (some (strip msg))
  | .str "DONE" => return atDone t msg state
  | _ => return ⟨"Hi! Would you like to execute a [1] Script or [2] Binary?", initState, .null, []⟩

/-- The reply to a demo, the state after it, the action, and what is posted. -/
def demo (n : ℕ) (state : Json) : Except FormatError (Outcome × List Json) := do
  let data := (← state.getField "data").orElse (.obj [])
  let taskType ← data.getField "task_type"
  if taskType.truthy then
    return (⟨demoReply n, .obj [("step", .str "DONE"), ("data", .obj [])], demoAction o.now n, []⟩,
      demoTasks o.now n)
  else
    return (⟨"Pick a task type first: reply [1] Script or [2] Binary, " ++
      "then say 'demo 10' (or any count up to 100) to fire a batch.", state, .null, []⟩, [])

/-- `chat`. -/
def chat (history : List Json) (message : String) : Except FormatError Turn := do
  let msg := strip message
  let state := (← readState history).orElse initState
  match question t msg with
  | some q =>
    let (reply, action) ← answer repr o q state
    return returned history message reply state action [] []
  | none =>
    if isListIntent t msg then
      let (reply, action) ← listTasks repr o
      return returned history message reply state action [] []
    else
      match parseDemoIntent t msg with
      | some n =>
        let (out, batch) ← demo o n state
        return returned history message out.reply out.state out.action out.posts batch
      | none =>
        let out ← step t repr o msg state
        return returned history message out.reply out.state out.action out.posts []

end Agent

end Chat
end ChordInfra
