/-
# The agent with a model

`ConversationAgent` of `chord/conversation_agent.py`.  A message is put to a language
model, and as long as the model stops for tools (`tool_use`) they are executed
and their results are put to it in turn, up to a limit.  The model is a parameter:
what it replies to a list of messages, or what the request raises.

The history that comes back is put to the model again with the next message, and the
model takes only histories in which every use of a tool is answered in the next
message.  Whatever it replies, the history is such a one if and only if no turn has
ended on a reply that uses tools without having stopped for them, which happens when
it is cut off (`valid_iff`); after such a turn no later one repairs it.
-/

import ChordInfra.Chat.Scripted

namespace ChordInfra
namespace Chat

open Storage (Json FormatError)
open Server (formatted)

/-- A block of a reply of the model. -/
inductive Block
  | text (content : String)
  | toolUse (id name : String) (input : Json)
  /-- Any other one, with what its `model_dump` has beside the type. -/
  | other (kind : String) (ok : kind ≠ "text" ∧ kind ≠ "tool_use") (fields : List (String × Json))

/-- A reply of the model. -/
structure Response where
  content : List Block
  stopReason : String

/-- `_block_to_dict`. -/
def Block.toDict : Block → Json
  | .text content => .obj [("type", .str "text"), ("text", .str content)]
  | .toolUse id name input =>
    .obj [("type", .str "tool_use"), ("id", .str id), ("name", .str name), ("input", input)]
  | .other kind _ fields => .obj (("type", .str kind) :: fields)

/-- A use of a tool. -/
structure ToolUse where
  id : String
  name : String
  input : Json

/-- The uses of tools in a reply. -/
def toolUses (content : List Block) : List ToolUse :=
  content.filterMap fun
    | .toolUse id name input => some ⟨id, name, input⟩
    | _ => none

/-! ### Tools -/

section Tools

variable (repr : Json → String) (int : Json → Except String ℤ) (o : Outside)

/-- `args.get(name, default)`, with the text of the exception. -/
def argOr (name : String) (default args : Json) : Except String Json :=
  match args with
  | .obj fields => .ok ((fields.lookup name).getD default)
  | _ => field name args

/-- The tool `create_task`. -/
def createTaskTool (args : Json) : Except String Json := do
  let taskId := (← field "task_id" args).orElse (.str ("task_" ++ o.hex))
  let taskType ← field "task_type" args
  let path ← argOr "path" (.str "") args
  let script ← argOr "script" (.str "") args
  let workerId ← field "worker_id" args
  let (_, answer) ← o.post (.obj ([("task_id", taskId), ("task_details",
      .obj [("task_type", taskType), ("path", path), ("script", script)])] ++
    if workerId.truthy then [("worker_id", workerId)] else []))
  return answer

/-- The tool `get_status`. -/
def getStatusTool (args : Json) : Except String Json := do
  let taskId ← field "task_id" args
  if taskId.truthy then o.get ("/getStatus/" ++ formatted repr taskId) none
  else return .obj [("error", .str "task_id required")]

/-- `WAIT_FOR_STATUS_MAX_S`. -/
def waitForStatusMax : ℤ := 120

/-- The tool `wait_for_status`. -/
def waitForStatusTool (args : Json) : Except String Json := do
  let taskId ← field "task_id" args
  if taskId.truthy then
    let wait ← int ((← field "max_wait_seconds" args).orElse (.int waitForStatusDefault))
    o.get ("/getStatus/" ++ formatted repr taskId) (some (max 1 (min waitForStatusMax wait)).toNat)
  else return .obj [("error", .str "task_id required")]

/-- `_execute_tool`. -/
def executeTool (name : String) (args : Json) : Json :=
  let result :=
    if name = "list_live_workers" then o.get "/workers/live" none
    else if name = "create_task" then createTaskTool o args
    else if name = "get_status" then getStatusTool repr o args
    else if name = "wait_for_status" then waitForStatusTool repr int o args
    else .ok (.obj [("error", .str ("unknown tool: " ++ name))])
  match result with
  | .ok answer => answer
  | .error e => .obj [("error", .str e)]

end Tools

/-! ### A turn -/

/-- What a turn meets outside: the model, and the API at each execution of a tool. -/
structure Around where
  create : List Json → Except String Response
  tools : ℕ → Outside

/-- A message, and what its turn meets outside. -/
structure Prompt where
  message : String
  around : Around

/-- How far a turn has come. -/
structure Talk where
  messages : List Json
  action : Json
  /-- The tools that have been executed. -/
  executed : ℕ

/-- A message of the user. -/
def userMessage (content : Json) : Json := .obj [("role", .str "user"), ("content", content)]

/-- A message of the model. -/
def assistantMessage (content : List Block) : Json :=
  .obj [("role", .str "assistant"), ("content", .arr (content.map Block.toDict))]

section Turn

variable (repr : Json → String) (int : Json → Except String ℤ) (dumps : Json → String)

/-- The results of some uses, when `n` tools were executed before. -/
def results (tools : ℕ → Outside) (n : ℕ) (uses : List ToolUse) : List Json :=
  (uses.zipIdx n).map fun (use, i) =>
    executeTool repr int (tools i) use.name (use.input.orElse (.obj []))

/-- The result of a use as it is put to the model. -/
def resultBlock (use : ToolUse) (result : Json) : Json :=
  .obj [("type", .str "tool_result"), ("tool_use_id", .str use.id), ("content", .str (dumps result))]

/-- The action after some uses. -/
def actionAfter (action : Json) (uses : List (ToolUse × Json)) : Json :=
  uses.foldl (fun action (use, result) =>
    if use.name ∈ ["create_task", "get_status", "wait_for_status"] then
      .obj [("type", .str use.name), ("input", use.input), ("result", result)]
    else action) action

/-- The turn after the tools of a reply were executed. -/
def Talk.answered (talk : Talk) (tools : ℕ → Outside) (content : List Block) : Talk :=
  let uses := toolUses content
  let answers := results repr int tools talk.executed uses
  { messages := talk.messages ++ [assistantMessage content,
      userMessage (.arr (List.zipWith (resultBlock dumps) uses answers))]
    action := actionAfter talk.action (uses.zip answers)
    executed := talk.executed + uses.length }

/-- The loop of `chat`: at most `n` more requests. -/
def converseWith (around : Around) : ℕ → Talk → Except String Talk
  | 0, talk => .ok talk
  | n + 1, talk => do
    let response ← around.create talk.messages
    if response.stopReason = "tool_use" then
      converseWith around n (talk.answered repr int dumps around.tools response.content)
    else .ok { talk with messages := talk.messages ++ [assistantMessage response.content] }

/-- `_extract_text`, of a list of blocks. -/
def extractText (content : List Json) : String :=
  Storage.strip (String.join (content.map fun block =>
    match block with
    | .obj fields =>
      if ((fields.lookup "type").getD .null).isStr "text" then
        ((fields.lookup "text").getD (.str "")).text
      else ""
    | _ => ""))

/-- The reply of a history: the text of its last message, if that is the model's. -/
def replyOf (messages : List Json) : String :=
  match messages.getLast? with
  | some (.obj fields) =>
    if ((fields.lookup "role").getD .null).isStr "assistant" then
      match (fields.lookup "content").getD .null with
      | .arr blocks => extractText blocks
      | .str text => text
      | _ => ""
    else ""
  | _ => ""

/-- `ConversationAgent.chat`: the reply, the history and the action. -/
def chatWith (maxToolIterations : ℕ) (history : List Json) (p : Prompt) :
    Except String (String × List Json × Json) := do
  let talk ← converseWith repr int dumps p.around maxToolIterations
    ⟨history ++ [userMessage (.str p.message)], .null, 0⟩
  return (replyOf talk.messages, talk.messages, talk.action)

/-- The history after some turns; where the agent raises, the caller keeps what it has. -/
def historyAfter (maxToolIterations : ℕ) (history : List Json) (ps : List Prompt) : List Json :=
  ps.foldl (fun history p =>
    match chatWith repr int dumps maxToolIterations history p with
    | .ok (_, history, _) => history
    | .error _ => history) history

end Turn

/-! ### Uses and results -/

/-- A text of a block. -/
def textAt (name : String) : Json → String
  | .obj fields =>
    match fields.lookup name with
    | some (.str text) => text
    | _ => ""
  | _ => ""

/-- The ids in the blocks of a kind, in the messages of a role. -/
def idsIn (role kind name : String) (message : Json) : List String :=
  match message with
  | .obj fields =>
    if ((fields.lookup "role").getD .null).isStr role then
      match (fields.lookup "content").getD .null with
      | .arr blocks => (blocks.filter fun block => textAt "type" block = kind).map (textAt name)
      | _ => []
    else []
  | _ => []

/-- The uses of tools that a message leaves to be answered. -/
def owed (message : Json) : List String := idsIn "assistant" "tool_use" "id" message

/-- The uses that a message answers. -/
def paid (message : Json) : List String := idsIn "user" "tool_result" "tool_use_id" message

/-- What is to be answered after a message, if it has answered what was. -/
def settle (owing : Option (List String)) (message : Json) : Option (List String) :=
  owing.bind fun ids => if paid message = ids then some (owed message) else none

/-- What is to be answered after some messages, if each has answered what the one before left. -/
def owingAfter (messages : List Json) : Option (List String) := messages.foldl settle (some [])

/-- **A history that the model takes**: all uses of tools are answered in the next message. -/
def Valid (messages : List Json) : Prop := owingAfter messages = some []

section Pairing

variable {repr : Json → String} {int : Json → Except String ℤ} {dumps : Json → String}
  {around : Around} {talk talk' : Talk} {content : List Block} {n : ℕ}

theorem owingAfter_append (messages : List Json) (message : Json) :
    owingAfter (messages ++ [message]) = settle (owingAfter messages) message := by
  unfold owingAfter
  rw [List.foldl_append, List.foldl_cons, List.foldl_nil]

/-- A block of a reply is a use of a tool exactly if its dictionary says so. -/
theorem textAt_toDict (b : Block) :
    textAt "type" b.toDict = "tool_use" ↔ ∃ id name input, b = .toolUse id name input := by
  cases b with
  | text content =>
    rw [show textAt "type" (Block.text content).toDict = "text" from rfl]
    simp
  | toolUse id name input => exact ⟨fun _ => ⟨id, name, input, rfl⟩, fun _ => rfl⟩
  | other kind ok fields =>
    rw [show textAt "type" (Block.other kind ok fields).toDict = kind from rfl]
    simp [ok.2]

theorem paid_assistantMessage (content : List Block) : paid (assistantMessage content) = [] := rfl

/-- A reply leaves its uses of tools. -/
theorem owed_assistantMessage (content : List Block) :
    owed (assistantMessage content) = (toolUses content).map ToolUse.id := by
  change ((content.map Block.toDict).filter fun block => textAt "type" block = "tool_use").map
    (textAt "id") = _
  induction content with
  | nil => rfl
  | cons b content ih =>
    rw [List.map_cons, List.filter_cons]
    by_cases hb : ∃ id name input, b = .toolUse id name input
    · obtain ⟨id, name, input, rfl⟩ := hb
      rw [if_pos (decide_eq_true ((textAt_toDict _).2 ⟨id, name, input, rfl⟩)), List.map_cons, ih]
      rfl
    · rw [if_neg (by simpa using fun h => hb ((textAt_toDict b).1 h)), ih]
      cases b with
      | toolUse id name input => exact absurd ⟨id, name, input, rfl⟩ hb
      | text content => rfl
      | other kind ok fields => rfl

theorem length_results (tools : ℕ → Outside) (n : ℕ) (uses : List ToolUse) :
    (results repr int tools n uses).length = uses.length := by
  unfold results
  rw [List.length_map, List.length_zipIdx]

/-- The results answer the uses, in their order. -/
theorem paid_results {uses : List ToolUse} {answers : List Json}
    (h : answers.length = uses.length) :
    paid (userMessage (.arr (List.zipWith (resultBlock dumps) uses answers))) =
      uses.map ToolUse.id := by
  change ((List.zipWith (resultBlock dumps) uses answers).filter fun block =>
    textAt "type" block = "tool_result").map (textAt "tool_use_id") = _
  induction uses generalizing answers with
  | nil => rfl
  | cons use uses ih =>
    cases answers with
    | nil => cases h
    | cons answer answers =>
      rw [List.zipWith_cons_cons, List.filter_cons, if_pos (by rfl), List.map_cons,
        ih (Nat.succ.inj h)]
      rfl

/-- A message that answers nothing is settled where nothing is owed. -/
theorem settle_eq_some {owing : Option (List String)} {message : Json} (h : paid message = []) :
    settle owing message = some [] ↔ owing = some [] ∧ owed message = [] := by
  unfold settle
  rw [h]
  cases owing with
  | none => simp
  | some ids =>
    rw [Option.bind_some]
    constructor
    · intro hsettled
      split_ifs at hsettled with hids
      exact ⟨congrArg some hids.symm, Option.some.inj hsettled⟩
    · rintro ⟨hids, howed⟩
      rw [if_pos (Option.some.inj hids).symm, howed]

/-- **A reply that stopped for tools** is answered at once. -/
theorem owingAfter_answered (tools : ℕ → Outside) :
    owingAfter (talk.answered repr int dumps tools content).messages = some [] ↔
      owingAfter talk.messages = some [] := by
  unfold Talk.answered
  dsimp only
  rw [show ∀ (l : List Json) (a b : Json), l ++ [a, b] = (l ++ [a]) ++ [b] by simp,
    owingAfter_append, owingAfter_append]
  cases h : owingAfter talk.messages with
  | none => simp [settle]
  | some ids =>
    unfold settle
    rw [Option.bind_some, paid_assistantMessage]
    by_cases hids : [] = ids
    · rw [if_pos hids, Option.bind_some, owed_assistantMessage,
        if_pos (paid_results (length_results ..)), ← hids]
      exact iff_of_true rfl rfl
    · rw [if_neg hids]
      exact iff_of_false (by simp) fun he => hids (Option.some.inj he).symm

/-- A history that ends on a reply with uses of tools: the reply was cut off. -/
def EndsCut (messages : List Json) : Prop :=
  ∃ before content, messages = before ++ [assistantMessage content] ∧ toolUses content ≠ []

theorem endsCut_append (messages : List Json) (content : List Block) :
    EndsCut (messages ++ [assistantMessage content]) ↔ owed (assistantMessage content) ≠ [] := by
  rw [owed_assistantMessage]
  constructor
  · rintro ⟨before, content', he, huses⟩ hnil
    obtain ⟨-, hlast⟩ := List.append_inj' he rfl
    have howed := congrArg owed (List.singleton_inj.1 hlast)
    rw [owed_assistantMessage, owed_assistantMessage, hnil] at howed
    exact huses (List.map_eq_nil_iff.1 howed.symm)
  · exact fun h => ⟨messages, content, rfl, fun hnil => h (by rw [hnil]; rfl)⟩

theorem not_endsCut_user (messages : List Json) (c : Json) :
    ¬EndsCut (messages ++ [userMessage c]) := by
  rintro ⟨before, content, he, -⟩
  obtain ⟨-, hlast⟩ := List.append_inj' he rfl
  have huser : userMessage c = assistantMessage content := List.singleton_inj.1 hlast
  unfold userMessage assistantMessage at huser
  simp at huser

/-- **The loop**: it ends with a history that the model takes exactly if it began with one, and
did not end on a reply that was cut off. -/
theorem converseWith_valid (h : converseWith repr int dumps around n talk = .ok talk')
    (hlast : ∃ before c, talk.messages = before ++ [userMessage c]) :
    Valid talk'.messages ↔ Valid talk.messages ∧ ¬EndsCut talk'.messages := by
  induction n generalizing talk with
  | zero =>
    obtain rfl : talk = talk' := Except.ok.inj h
    obtain ⟨before, c, hmessages⟩ := hlast
    exact (and_iff_left (by rw [hmessages]; exact not_endsCut_user before c)).symm
  | succ n ih =>
    unfold converseWith at h
    cases hcreate : around.create talk.messages with
    | error e =>
      rw [hcreate] at h
      cases h
    | ok response =>
      rw [hcreate] at h
      simp only [bind, Except.bind] at h
      split_ifs at h
      · rw [ih h ⟨talk.messages ++ [assistantMessage response.content], _, by
          unfold Talk.answered
          simp only [List.append_assoc, List.singleton_append]
          rfl⟩]
        exact and_congr_left' (owingAfter_answered around.tools)
      · obtain rfl := Except.ok.inj h
        unfold Valid
        rw [endsCut_append, owingAfter_append, settle_eq_some (paid_assistantMessage _), not_not]

/-- **One turn.** -/
theorem chatWith_valid {maxToolIterations : ℕ} {history history' : List Json} {p : Prompt}
    {reply : String} {action : Json}
    (h : chatWith repr int dumps maxToolIterations history p = .ok (reply, history', action)) :
    Valid history' ↔ Valid history ∧ ¬EndsCut history' := by
  unfold chatWith at h
  cases htalk : converseWith repr int dumps p.around maxToolIterations
      ⟨history ++ [userMessage (.str p.message)], .null, 0⟩ with
  | error e =>
    rw [htalk] at h
    cases h
  | ok talk =>
    rw [htalk] at h
    simp only [bind, Except.bind, pure, Except.pure, Except.ok.injEq, Prod.mk.injEq] at h
    obtain ⟨-, rfl, -⟩ := h
    rw [converseWith_valid htalk ⟨_, _, rfl⟩]
    refine and_congr_left' ?_
    unfold Valid
    rw [owingAfter_append, settle_eq_some rfl]
    exact and_iff_left rfl

/-- **The history stays one that the model takes** over a conversation, whatever the model replies
and whatever the tools answer, if and only if no turn has ended on a reply that uses tools without
having stopped for them. -/
theorem valid_iff (repr : Json → String) (int : Json → Except String ℤ) (dumps : Json → String)
    (maxToolIterations : ℕ) (ps : List Prompt) :
    Valid (historyAfter repr int dumps maxToolIterations [] ps) ↔
      ∀ before p after, ps = before ++ p :: after → ∀ reply history action,
        chatWith repr int dumps maxToolIterations
            (historyAfter repr int dumps maxToolIterations [] before) p =
          .ok (reply, history, action) → ¬EndsCut history := by
  induction ps using List.reverseRecOn with
  | nil => exact iff_of_true rfl fun before p after h => absurd h.symm (by simp)
  | append_singleton ps p ih =>
    have hsplit : (∀ before q after, ps ++ [p] = before ++ q :: after → ∀ reply history action,
        chatWith repr int dumps maxToolIterations
            (historyAfter repr int dumps maxToolIterations [] before) q =
          .ok (reply, history, action) → ¬EndsCut history) ↔
        (∀ before q after, ps = before ++ q :: after → ∀ reply history action,
          chatWith repr int dumps maxToolIterations
              (historyAfter repr int dumps maxToolIterations [] before) q =
            .ok (reply, history, action) → ¬EndsCut history) ∧
        ∀ reply history action, chatWith repr int dumps maxToolIterations
            (historyAfter repr int dumps maxToolIterations [] ps) p =
          .ok (reply, history, action) → ¬EndsCut history := by
      constructor
      · intro h
        exact ⟨fun before q after he => h before q (after ++ [p]) (by rw [he]; simp),
          h ps p [] rfl⟩
      · rintro ⟨hbefore, hp⟩ before q after he
        rcases List.eq_nil_or_concat after with rfl | ⟨after', y, rfl⟩
        · obtain ⟨rfl, hq⟩ := List.append_inj' he rfl
          obtain rfl := List.singleton_inj.1 hq
          exact hp
        · have he' : ps ++ [p] = (before ++ q :: after') ++ [y] := by simpa using he
          obtain ⟨hps, -⟩ := List.append_inj' he' rfl
          exact hbefore before q after' hps
    rw [hsplit, ← ih]
    conv_lhs => rw [historyAfter, List.foldl_append, List.foldl_cons, List.foldl_nil]
    change Valid (match chatWith repr int dumps maxToolIterations
      (historyAfter repr int dumps maxToolIterations [] ps) p with
      | .ok (_, history, _) => history
      | .error _ => historyAfter repr int dumps maxToolIterations [] ps) ↔ _
    cases hchat : chatWith repr int dumps maxToolIterations
        (historyAfter repr int dumps maxToolIterations [] ps) p with
    | error e => exact (and_iff_left nofun).symm
    | ok result =>
      obtain ⟨reply, history, action⟩ := result
      dsimp only
      rw [chatWith_valid hchat]
      refine and_congr_right' ⟨fun hcut reply' history' action' he => ?_, fun h => h _ _ _ rfl⟩
      cases he
      exact hcut

end Pairing

end Chat
end ChordInfra
