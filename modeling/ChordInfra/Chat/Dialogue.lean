/-
# What a conversation submits

The dialogue of the scripted agent as a machine with five states (`Dialogue`), of
which the agent keeps nothing but what it has written into the history.  Every message
moves the machine as `Moves` says, whatever the API answers and whether or not the
reply can be formatted (`chat_moves`).

So whatever a message itself posts to `/createTask` was said: the type in one message,
the path or the script in a later one with nothing but questions in between, and a
worker, if any, in the last; and `/createTask` keeps it as it was said.  None of these
messages may look like a question, the list or a demo.  One that looks like a demo posts
the demo in the background, once a type was chosen, even where it was meant for a script
(`posted_said`).

A question that names no task is answered as if it had named the last one, as long as
the dialogue knows its id (`asked_recent`).
-/

import ChordInfra.Chat.Scripted

namespace ChordInfra
namespace Chat

open Storage (Json FormatError TaskType Fields strip)

/-- A message, and what the code meets outside while it answers it. -/
structure Heard where
  message : String
  outside : Outside

/-! ### The machine -/

/-- A task as it was said: its type, and its path or its script. -/
structure Task where
  taskType : TaskType
  text : String

/-- The text of a task type. -/
def typeText : TaskType → String
  | .script => "SCRIPT"
  | .binary => "BINARY"

namespace Task

variable (task : Task)

/-- Whether the text is a script, not a path. -/
def isBody : Bool := task.taskType = .script && !looksLikePath task.text

def path : String := if task.isBody then "" else task.text

def script : String := if task.isBody then task.text else ""

/-- The data of the dialogue. -/
def data : List (String × Json) :=
  [("task_type", .str (typeText task.taskType)), ("path", .str task.path),
    ("script", .str task.script)]

end Task

/-- Where the dialogue is. -/
inductive Dialogue
  | init
  | askPath (taskType : TaskType)
  | askWorker (task : Task)
  | askWorkerId (task : Task)
  /-- With the id of the last submission, if it is known. -/
  | done (last : Option String)

/-- How the states are written into the history. -/
inductive Stored : Json → Dialogue → Prop
  | init : Stored initState .init
  | askPath (k : TaskType) :
      Stored (.obj [("step", .str "ASK_PATH"), ("data", .obj [("task_type", .str (typeText k))])])
        (.askPath k)
  | askWorker (task : Task) :
      Stored (.obj [("step", .str "ASK_WORKER"), ("data", .obj task.data)]) (.askWorker task)
  | askWorkerId (task : Task) :
      Stored (.obj [("step", .str "ASK_WORKER_ID"), ("data", .obj task.data)]) (.askWorkerId task)
  | done (last : String) :
      Stored (.obj [("step", .str "DONE"), ("data", .obj []), ("last_task_id", .str last)])
        (.done (some last))
  | failed :
      Stored (.obj [("step", .str "DONE"), ("data", .obj []), ("last_task_id", .null)]) (.done none)
  | demo : Stored (.obj [("step", .str "DONE"), ("data", .obj [])]) (.done none)

/-- The id that the dialogue remembers. -/
def Dialogue.last : Dialogue → Option String
  | .done last => last
  | _ => none

/-- The task type that has been chosen. -/
def Dialogue.taskType : Dialogue → Option TaskType
  | .askPath k => some k
  | .askWorker task => some task.taskType
  | .askWorkerId task => some task.taskType
  | _ => none

section Messages

variable (t : Tables) (m : Heard)

/-- A question, or the list. -/
def Aside : Prop := (question t (strip m.message)).isSome ∨ isListIntent t (strip m.message) = true

/-- A demo. -/
def Demo (n : ℕ) : Prop := ¬Aside t m ∧ parseDemoIntent t (strip m.message) = some n

/-- An answer, which is none of these. -/
def Says (text : String) : Prop :=
  ¬Aside t m ∧ parseDemoIntent t (strip m.message) = none ∧ text = strip m.message

/-- The task type that an answer names. -/
def typeIn (text : String) : Option TaskType :=
  let low := t.lower text
  if low = "2" ∨ low = "binary" ∨ Text.contains low "binary" then some .binary
  else if low = "1" ∨ low = "script" ∨ Text.contains low "script" then some .script
  else none

/-- Whether an answer asks for the choice of a worker. -/
def wantsPick (text : String) : Prop :=
  t.lower text = "1" ∨ t.lower text = "pick" ∨ Text.contains (t.lower text) "pick"

instance (text : String) : Decidable (wantsPick t text) := by
  unfold wantsPick
  infer_instance

/-- Whether an answer starts over. -/
def wantsNew (text : String) : Prop :=
  Text.contains (t.lower text) "run a task" ∨ Text.contains (t.lower text) "new task"

instance (text : String) : Decidable (wantsNew t text) := by
  unfold wantsNew
  infer_instance

/-- An answer that names a task type. -/
def Chooses (k : TaskType) : Prop := ∃ text, Says t m text ∧ typeIn t text = some k

/-- An answer that asks for the choice of a worker. -/
def Picks : Prop := ∃ text, Says t m text ∧ wantsPick t text

/-- The id of a task that is submitted with this message. -/
def Heard.taskId : String := "task_" ++ m.outside.hex

/-- Whether a post of this message is answered, and the answer can be told. -/
def Heard.Acknowledges (repr : Json → String) (body : Json) : Prop :=
  ∃ code result reply, m.outside.post body = .ok (code, result) ∧
    submitReply repr code result = .ok reply

/-- What the dialogue remembers of a submission. -/
def Remembers (repr : Json → String) (body : Json) (last : Option String) : Prop :=
  ∀ id, last = some id ↔ id = m.taskId ∧ m.Acknowledges repr body

/-- **What a message does**: the state before, the message, what it posts to `/createTask` and
what it has posted in the background, the state after. -/
inductive Moves (repr : Json → String) :
    Dialogue → Heard → List Json → List Json → Dialogue → Prop
  | aside {d m} : Aside t m → Moves repr d m [] [] d
  | demo {d m n k} : Demo t m n → d.taskType = some k →
      Moves repr d m [] (demoTasks m.outside.now n) (.done none)
  | noDemo {d m n} : Demo t m n → d.taskType = none → Moves repr d m [] [] d
  | chooses {m k} : Chooses t m k → Moves repr .init m [] [] (.askPath k)
  | greets {m text} : Says t m text → typeIn t text = none → Moves repr .init m [] [] .init
  | tells {k m text} : Says t m text → Moves repr (.askPath k) m [] [] (.askWorker ⟨k, text⟩)
  | picks {task m} : Picks t m → Moves repr (.askWorker task) m [] [] (.askWorkerId task)
  | waits {task m} : Picks t m → Moves repr (.askWorker task) m [] [] (.askWorker task)
  | auto {task m text last} : Says t m text → ¬wantsPick t text →
      Remembers m repr (payload m.outside.hex task.data none) last →
      Moves repr (.askWorker task) m [payload m.outside.hex task.data none] [] (.done last)
  | named {task m text last} : Says t m text →
      Remembers m repr (payload m.outside.hex task.data (some text)) last →
      Moves repr (.askWorkerId task) m [payload m.outside.hex task.data (some text)] [] (.done last)
  | restarts {last m text} : Says t m text → wantsNew t text → Moves repr (.done last) m [] [] .init
  | idles {last m text} : Says t m text → ¬wantsNew t text →
      Moves repr (.done last) m [] [] (.done last)

end Messages

/-! ### The agent is the machine -/

section Reading

variable {history : List Json} {message reply : String} {s action : Json} {posts batch : List Json}

/-- **What was written is read back**, whatever came before. -/
theorem readState_returned (history : List Json) (message reply : String) (s action : Json)
    (posts batch : List Json) :
    readState (returned history message reply s action posts batch).history = .ok s := by
  unfold readState returned exchange
  simp only [List.reverse_append, List.reverse_cons, List.reverse_nil, List.nil_append,
    List.cons_append]
  rfl

end Reading

section Step

variable {t : Tables} {repr : Json → String} {m : Heard} {s : Json} {d : Dialogue} {text : String}

theorem Stored.truthy (h : Stored s d) : s.truthy = true := by
  cases h <;> rfl

theorem Stored.orElse (h : Stored s d) : s.orElse initState = s := by
  unfold Json.orElse
  rw [if_pos h.truthy]

/-- The data of a task has its type. -/
theorem Task.lookup_taskType (task : Task) :
    (task.data.lookup "task_type").map Json.truthy = some true := by
  have htype : task.data.lookup "task_type" = some (.str (typeText task.taskType)) := rfl
  rw [htype]
  cases task.taskType <;> rfl

/-- The data of a state. -/
theorem Stored.data (h : Stored s d) : ∃ fields, s.getField "data" = .ok (.obj fields) ∧
    (fields.lookup "task_type").map Json.truthy = d.taskType.map fun _ => true := by
  cases h with
  | askPath k => exact ⟨_, rfl, by cases k <;> rfl⟩
  | askWorker task => exact ⟨task.data, rfl, task.lookup_taskType⟩
  | askWorkerId task => exact ⟨task.data, rfl, task.lookup_taskType⟩
  | init => exact ⟨[], rfl, rfl⟩
  | done last => exact ⟨[], rfl, rfl⟩
  | failed => exact ⟨[], rfl, rfl⟩
  | demo => exact ⟨[], rfl, rfl⟩

/-- The action of a submission tells its id, unless there is none. -/
theorem submit_action (task : Task) (worker : Option String) :
    ∃ last, Remembers m repr (payload m.outside.hex task.data worker) last ∧
      Stored (postSubmitState (submit repr m.outside task.data worker).2) (.done last) := by
  unfold submit Remembers Heard.Acknowledges
  simp only [bind, Except.bind]
  cases hpost : m.outside.post (payload m.outside.hex task.data worker) with
  | error e =>
    refine ⟨none, fun id => ⟨nofun, ?_⟩, .failed⟩
    rintro ⟨-, code, result, reply, hok, -⟩
    cases hok
  | ok answered =>
    obtain ⟨code, result⟩ := answered
    dsimp only
    cases hreply : submitReply repr code result with
    | error e =>
      refine ⟨none, fun id => ⟨nofun, ?_⟩, .failed⟩
      rintro ⟨-, code', result', reply, hok, htold⟩
      obtain ⟨rfl, rfl⟩ := Prod.mk.inj (Except.ok.inj hok)
      rw [hreply] at htold
      cases htold
    | ok reply =>
      refine ⟨some m.taskId, fun id => ⟨fun hid => ?_, fun h => ?_⟩, .done m.taskId⟩
      · exact ⟨(Option.some.inj hid).symm, code, result, reply, rfl, hreply⟩
      · rw [h.1]

/-- An answer when the dialogue is over. -/
theorem done_moves {last : Option String} (hd : Stored s (.done last)) (hsaid : Says t m text) :
    ∃ d', Stored (atDone t text s).state d' ∧
      Moves t repr (.done last) m (atDone t text s).posts [] d' := by
  unfold atDone
  dsimp only
  split_ifs with hnew
  · exact ⟨_, .init, .restarts hsaid hnew⟩
  · exact ⟨_, hd, .idles hsaid hnew⟩

/-- **An answer** moves the dialogue; where the agent raises, it stays. -/
theorem step_moves (repr : Json → String) (hd : Stored s d) (hsaid : Says t m text) :
    match step t repr m.outside text s with
    | .ok out => ∃ d', Stored out.state d' ∧ Moves t repr d m out.posts [] d'
    | .error _ => Moves t repr d m [] [] d := by
  cases hd with
  | init =>
    change ∃ d', Stored (atInit t text initState []).state d' ∧
      Moves t repr .init m (atInit t text initState []).posts [] d'
    unfold atInit
    dsimp only
    split_ifs with hbinary hscript
    · refine ⟨_, .askPath .binary, .chooses ⟨text, hsaid, ?_⟩⟩
      exact if_pos hbinary
    · refine ⟨_, .askPath .script, .chooses ⟨text, hsaid, ?_⟩⟩
      exact (if_neg hbinary).trans (if_pos hscript)
    · refine ⟨_, .init, .greets hsaid ?_⟩
      exact (if_neg hbinary).trans (if_neg hscript)
  | askPath k =>
    refine ⟨_, ?_, .tells hsaid⟩
    have hstored := Stored.askWorker ⟨k, text⟩
    cases k with
    | script =>
      change Stored (atAskPath text [("task_type", .str "SCRIPT")]).state _
      have hbody : Task.isBody ⟨.script, text⟩ = !looksLikePath text := rfl
      unfold Task.data Task.path Task.script at hstored
      rw [hbody] at hstored
      exact hstored
    | binary =>
      change Stored (atAskPath text [("task_type", .str "BINARY")]).state _
      exact hstored
  | askWorker task =>
    change match atAskWorker t repr m.outside text _ task.data with
      | .ok out => ∃ d', Stored out.state d' ∧ Moves t repr (.askWorker task) m out.posts [] d'
      | .error _ => Moves t repr (.askWorker task) m [] [] (.askWorker task)
    unfold atAskWorker
    dsimp only
    split_ifs with hpick
    · have hpicks : Picks t m := ⟨text, hsaid, hpick⟩
      cases (httpGet m.outside "/workers/live" none).getField "live_workers" with
      | error e => exact .waits hpicks
      | ok live =>
        simp only [bind, Except.bind]
        split_ifs
        · cases join (live.orElse (.arr [])) with
          | error e => exact .waits hpicks
          | ok names => exact ⟨_, .askWorkerId task, .picks hpicks⟩
        · exact ⟨_, .askWorker task, .waits hpicks⟩
    · obtain ⟨last, hlast, hstored⟩ := submit_action task none
      exact ⟨_, hstored, .auto hsaid hpick hlast⟩
  | askWorkerId task =>
    change ∃ d', Stored (submitted repr m.outside task.data (some (strip text))).state d' ∧
      Moves t repr _ m (submitted repr m.outside task.data (some (strip text))).posts [] d'
    have hstrip : strip text = text := by rw [hsaid.2.2, Storage.strip_strip]
    rw [hstrip]
    obtain ⟨last, hlast, hstored⟩ := submit_action task (some text)
    exact ⟨_, hstored, .named hsaid hlast⟩
  | done last => exact done_moves (.done last) hsaid
  | failed => exact done_moves .failed hsaid
  | demo => exact done_moves .demo hsaid

/-- A reply with the state that there was, or another one. -/
theorem returned_moves {history : List Json} {message reply : String} {s' action : Json}
    {posts batch : List Json} {d' : Dialogue} (hstored : Stored s' d')
    (hmoves : Moves t repr d m posts batch d') :
    ∃ s'' d', readState (returned history message reply s' action posts batch).history = .ok s'' ∧
      Stored (s''.orElse initState) d' ∧
      Moves t repr d m (returned history message reply s' action posts batch).posts
        (returned history message reply s' action posts batch).batch d' :=
  ⟨s', d', readState_returned .., by rwa [hstored.orElse], hmoves⟩

/-- **A message** moves the machine that the history holds; where the agent raises, it stays. -/
theorem chat_moves (t : Tables) (repr : Json → String) {history : List Json}
    (hs : readState history = .ok s)
    (hd : Stored (s.orElse initState) d) (m : Heard) :
    match chat t repr m.outside history m.message with
    | .ok turn => ∃ s' d', readState turn.history = .ok s' ∧ Stored (s'.orElse initState) d' ∧
        Moves t repr d m turn.posts turn.batch d'
    | .error _ => Moves t repr d m [] [] d := by
  unfold chat
  rw [hs]
  simp only [bind, Except.bind]
  cases hq : question t (strip m.message) with
  | some q =>
    have haside : Aside t m := .inl (by rw [hq]; rfl)
    dsimp only
    cases answer repr m.outside q (s.orElse initState) with
    | error e => exact .aside haside
    | ok reply => exact returned_moves hd (.aside haside)
  | none =>
    dsimp only
    by_cases hlist : isListIntent t (strip m.message) = true
    · have haside : Aside t m := .inr hlist
      rw [if_pos hlist]
      cases listTasks repr m.outside with
      | error e => exact .aside haside
      | ok reply => exact returned_moves hd (.aside haside)
    rw [if_neg hlist]
    have haside : ¬Aside t m := by
      rintro (h | h)
      · rw [hq] at h
        cases h
      · exact hlist h
    cases hdemo : parseDemoIntent t (strip m.message) with
    | some n =>
      have hdemo' : Demo t m n := ⟨haside, hdemo⟩
      obtain ⟨fields, hfields, htype⟩ := hd.data
      have hdata : (Json.obj fields).orElse (.obj []) = .obj fields := by
        unfold Json.orElse
        split_ifs with htruthy
        · rfl
        · cases fields with
          | nil => rfl
          | cons f fs => exact absurd rfl htruthy
      dsimp only
      unfold demo
      rw [hfields]
      simp only [bind, Except.bind, hdata, Json.getField]
      cases hk : d.taskType with
      | none =>
        rw [hk] at htype
        have hnone : fields.lookup "task_type" = none := by simpa using htype
        rw [hnone]
        exact returned_moves hd (.noDemo hdemo' hk)
      | some k =>
        rw [hk] at htype
        obtain ⟨j, hj, htruthy⟩ : ∃ j, fields.lookup "task_type" = some j ∧ j.truthy = true := by
          simpa using htype
        rw [hj, Option.getD_some, if_pos htruthy]
        exact returned_moves .demo (.demo hdemo' hk)
    | none =>
      have hsaid : Says t m (strip m.message) := ⟨haside, hdemo, rfl⟩
      have hstep := step_moves repr hd hsaid
      dsimp only
      cases hout : step t repr m.outside (strip m.message) (s.orElse initState) with
      | error e =>
        rw [hout] at hstep
        exact hstep
      | ok out =>
        rw [hout] at hstep
        obtain ⟨d', hstored, hmoves⟩ := hstep
        exact returned_moves hstored hmoves

end Step

/-! ### Conversations -/

section Conversation

variable (t : Tables) (repr : Json → String)

/-- The history after a message; where the agent raises, the caller keeps what it has. -/
def heard (history : List Json) (m : Heard) : List Json :=
  match chat t repr m.outside history m.message with
  | .ok turn => turn.history
  | .error _ => history

/-- What a message posts to `/createTask` before it is answered. -/
def posts (history : List Json) (m : Heard) : List Json :=
  match chat t repr m.outside history m.message with
  | .ok turn => turn.posts
  | .error _ => []

/-- What a message has posted in the background. -/
def batch (history : List Json) (m : Heard) : List Json :=
  match chat t repr m.outside history m.message with
  | .ok turn => turn.batch
  | .error _ => []

/-- The history after some messages. -/
def converse (history : List Json) (ms : List Heard) : List Json := ms.foldl (heard t repr) history

end Conversation

section Run

variable (t : Tables)

/-- **A type was chosen**, and nothing but questions since. -/
def Chosen (pre : List Heard) (k : TaskType) : Prop :=
  ∃ l₀ a l₁, pre = l₀ ++ a :: l₁ ∧ Chooses t a k ∧ ∀ x ∈ l₁, Aside t x

/-- **How a task was said**: its type, then, after questions only, its path or its script, then
the messages `rest`. -/
def Told (pre : List Heard) (task : Task) (rest : List Heard) : Prop :=
  ∃ l b, pre = l ++ b :: rest ∧ Chosen t l task.taskType ∧ Says t b task.text ∧
    ∀ x ∈ rest, Aside t x ∨ Picks t x

/-- What has led to a state. -/
def Led (pre : List Heard) : Dialogue → Prop
  | .init => True
  | .askPath k => Chosen t pre k
  | .askWorker task => ∃ rest, Told t pre task rest
  | .askWorkerId task => ∃ rest, Told t pre task rest ∧ ∃ x ∈ rest, Picks t x
  | .done _ => True

/-- An answer that starts over. -/
def Restarts (m : Heard) : Prop := ∃ text, Says t m text ∧ wantsNew t text

variable (repr : Json → String) (history : List Json)

/-- A message that submits a task under an id that the agent gets to know. -/
def Submits (pre : List Heard) (m : Heard) (id : String) : Prop :=
  id = m.taskId ∧ ∃ body ∈ posts t repr (converse t repr history pre) m, m.Acknowledges repr body

/-- **The last submission** of a conversation, if the agent got to know its id and nobody has
started over since. -/
def Recent (pre : List Heard) (id : String) : Prop :=
  ∃ l₀ a l₁, pre = l₀ ++ a :: l₁ ∧ Submits t repr history l₀ a id ∧
    ∀ x₀ x x₁, l₁ = x₀ ++ x :: x₁ →
      posts t repr (converse t repr history (l₀ ++ a :: x₀)) x = [] ∧
        batch t repr (converse t repr history (l₀ ++ a :: x₀)) x = [] ∧ ¬Restarts t x

variable {t} {repr} {history} {pre rest : List Heard} {m : Heard} {task : Task} {d d' : Dialogue}
  {bodies tasks : List Json}

theorem Chosen.append {k : TaskType} (h : Chosen t pre k) (hm : Aside t m) :
    Chosen t (pre ++ [m]) k := by
  obtain ⟨l₀, a, l₁, rfl, hchooses, hasides⟩ := h
  refine ⟨l₀, a, l₁ ++ [m], by simp, hchooses, fun x hx => ?_⟩
  rcases List.mem_append.1 hx with hx | hx
  · exact hasides x hx
  · rw [List.mem_singleton.1 hx]
    exact hm

theorem Told.append (h : Told t pre task rest) (hm : Aside t m ∨ Picks t m) :
    Told t (pre ++ [m]) task (rest ++ [m]) := by
  obtain ⟨l, b, rfl, hchosen, hsaid, hrest⟩ := h
  refine ⟨l, b, by simp, hchosen, hsaid, fun x hx => ?_⟩
  rcases List.mem_append.1 hx with hx | hx
  · exact hrest x hx
  · rw [List.mem_singleton.1 hx]
    exact hm

/-- A question leads nowhere else. -/
theorem Led.aside (h : Led t pre d) (hm : Aside t m) : Led t (pre ++ [m]) d := by
  cases d with
  | init => trivial
  | askPath k => exact Chosen.append h hm
  | askWorker task =>
    obtain ⟨rest, htold⟩ := h
    exact ⟨_, htold.append (.inl hm)⟩
  | askWorkerId task =>
    obtain ⟨rest, htold, x, hx, hpicks⟩ := h
    exact ⟨_, htold.append (.inl hm), x, List.mem_append_left _ hx, hpicks⟩
  | done last => trivial

/-- **One message**: the state after it is led to as well. -/
theorem Moves.led (h : Moves t repr d m bodies tasks d') (hled : Led t pre d) :
    Led t (pre ++ [m]) d' := by
  cases h with
  | aside hm => exact hled.aside hm
  | demo => trivial
  | noDemo hdemo hnone =>
    cases d with
    | init => trivial
    | done last => trivial
    | askPath k => cases hnone
    | askWorker task => cases hnone
    | askWorkerId task => cases hnone
  | chooses hchooses => exact ⟨pre, m, [], rfl, hchooses, by simp⟩
  | greets => trivial
  | tells hsaid => exact ⟨[], pre, m, rfl, hled, hsaid, by simp⟩
  | picks hpicks =>
    obtain ⟨rest, htold⟩ := hled
    exact ⟨_, htold.append (.inr hpicks), m, by simp, hpicks⟩
  | waits hpicks =>
    obtain ⟨rest, htold⟩ := hled
    exact ⟨_, htold.append (.inr hpicks)⟩
  | auto => trivial
  | named => trivial
  | restarts => trivial
  | idles => trivial

/-! ### The last submission -/

/-- **One more message**: it is the last submission itself, or leaves the last one. -/
theorem recent_append {id : String} :
    Recent t repr history (pre ++ [m]) id ↔
      Submits t repr history pre m id ∨
        (posts t repr (converse t repr history pre) m = [] ∧
          batch t repr (converse t repr history pre) m = [] ∧ ¬Restarts t m) ∧
        Recent t repr history pre id := by
  constructor
  · rintro ⟨l₀, a, l₁, hpre, hsubmits, hlater⟩
    rcases List.eq_nil_or_concat l₁ with rfl | ⟨l₂, y, rfl⟩
    · obtain ⟨rfl, ha⟩ := List.append_inj' hpre rfl
      obtain rfl := List.singleton_inj.1 ha
      exact .inl hsubmits
    · have hpre' : pre ++ [m] = (l₀ ++ a :: l₂) ++ [y] := by simpa using hpre
      obtain ⟨rfl, hy⟩ := List.append_inj' hpre' rfl
      obtain rfl := List.singleton_inj.1 hy
      refine .inr ⟨hlater l₂ m [] (by simp), l₀, a, l₂, rfl, hsubmits, fun x₀ x x₁ hsplit => ?_⟩
      exact hlater x₀ x (x₁ ++ [m]) (by simp [hsplit])
  · rintro (hsubmits | ⟨hm, l₀, a, l₁, rfl, hsubmits, hlater⟩)
    · exact ⟨pre, m, [], rfl, hsubmits, fun x₀ x x₁ h => absurd h.symm (by simp)⟩
    · refine ⟨l₀, a, l₁ ++ [m], by simp, hsubmits, fun x₀ x x₁ hsplit => ?_⟩
      rcases List.eq_nil_or_concat x₁ with rfl | ⟨x₂, y, rfl⟩
      · obtain ⟨rfl, hx⟩ := List.append_inj' hsplit rfl
        obtain rfl := List.singleton_inj.1 hx
        exact hm
      · have hsplit' : l₁ ++ [m] = (x₀ ++ x :: x₂) ++ [y] := by simpa using hsplit
        obtain ⟨hl, -⟩ := List.append_inj' hsplit' rfl
        exact hlater x₀ x x₂ hl

/-- A question is no answer. -/
theorem Aside.not_restarts (h : Aside t m) : ¬Restarts t m := fun ⟨_, hsaid, _⟩ => hsaid.1 h

/-- Nor is a demo. -/
theorem Demo.not_restarts {n : ℕ} (h : Demo t m n) : ¬Restarts t m := by
  rintro ⟨text, hsaid, -⟩
  have hno := hsaid.2.1
  rw [h.2] at hno
  cases hno

/-- A dialogue with a type has no last submission. -/
theorem Dialogue.last_of_taskType {k : TaskType} (h : d.taskType = some k) : d.last = none := by
  cases d with
  | init => rfl
  | askPath k => rfl
  | askWorker task => rfl
  | askWorkerId task => rfl
  | done last => cases h

/-- **One message**: the dialogue remembers the last submission after it as well. -/
theorem Moves.remembers
    (h : Moves t repr d m (posts t repr (converse t repr history pre) m)
      (batch t repr (converse t repr history pre) m) d')
    (hlast : ∀ id, d.last = some id ↔ Recent t repr history pre id) (id : String) :
    d'.last = some id ↔ Recent t repr history (pre ++ [m]) id := by
  rw [recent_append, ← hlast id]
  unfold Submits
  generalize posts t repr (converse t repr history pre) m = bodies at h
  generalize batch t repr (converse t repr history pre) m = tasks at h
  cases h with
  | aside hm => simp [hm.not_restarts]
  | demo hdemo hk =>
    rw [Dialogue.last_of_taskType hk]
    simp [Dialogue.last]
  | noDemo hdemo => simp [hdemo.not_restarts]
  | chooses => simp [Dialogue.last]
  | greets => simp [Dialogue.last]
  | tells => simp [Dialogue.last]
  | picks => simp [Dialogue.last]
  | waits => simp [Dialogue.last]
  | auto _ _ hknows => simpa [Dialogue.last] using hknows id
  | named _ hknows => simpa [Dialogue.last] using hknows id
  | restarts hsaid hnew => simp [Dialogue.last, show Restarts t m from ⟨_, hsaid, hnew⟩]
  | idles hsaid hnew =>
    have hno : ¬Restarts t m := by
      rintro ⟨text, hsaid', hnew'⟩
      exact hnew (by rwa [hsaid.2.2, ← hsaid'.2.2])
    simp [hno]

/-- A message moves the machine that the history holds. -/
theorem heard_moves {s : Json} {history : List Json} (hs : readState history = .ok s)
    (hd : Stored (s.orElse initState) d) (m : Heard) :
    ∃ s' d', readState (heard t repr history m) = .ok s' ∧ Stored (s'.orElse initState) d' ∧
      Moves t repr d m (posts t repr history m) (batch t repr history m) d' := by
  have hmoves := chat_moves t repr hs hd m
  unfold heard posts batch
  cases hchat : chat t repr m.outside history m.message with
  | error e =>
    rw [hchat] at hmoves
    exact ⟨s, d, hs, hd, hmoves⟩
  | ok turn =>
    rw [hchat] at hmoves
    exact hmoves

/-- **A conversation** holds a state that was led to, and remembers the last submission. -/
theorem converse_led (hstart : readState history = .ok .null) (pre : List Heard) :
    ∃ s d, readState (converse t repr history pre) = .ok s ∧ Stored (s.orElse initState) d ∧
      Led t pre d ∧ ∀ id, d.last = some id ↔ Recent t repr history pre id := by
  induction pre using List.reverseRecOn with
  | nil =>
    refine ⟨.null, .init, hstart, .init, trivial, fun id => ⟨nofun, ?_⟩⟩
    rintro ⟨l₀, a, l₁, hnil, -⟩
    simp at hnil
  | append_singleton pre m ih =>
    obtain ⟨s, d, hs, hd, hled, hlast⟩ := ih
    obtain ⟨s', d', hs', hd', hmoves⟩ := heard_moves hs hd m
    refine ⟨s', d', ?_, hd', hmoves.led hled, hmoves.remembers hlast⟩
    unfold converse
    rw [List.foldl_append]
    exact hs'

/-! ### What is posted -/

/-- A body that `/createTask` keeps as the task was said, under the id and for the worker. -/
structure Carries (body : Json) (id : String) (task : Task) (worker : Option String) : Prop where
  /-- It is an object that passes the validation, with the data of the task. -/
  accepted : ∃ fields : Fields, body = .obj fields.entries ∧
    fields.getD "task_id" .null = .str id ∧
    fields.getD "worker_id" .null = ((worker.filter (· ≠ "")).map Json.str).getD .null ∧
    ∀ cfg s, Server.createTask cfg s fields = Server.submit cfg s fields task.data task.taskType
  /-- The record that is built for a worker has what was said. -/
  record : ∀ w assignedBy now, w ≠ "" → ∃ record,
    Storage.buildResultRecord (.str id) task.taskType (Server.fieldOr task.data "path" (.str ""))
      (Server.fieldOr task.data "script" (.str "")) (.str w) assignedBy now = .ok record ∧
    record.taskId = id ∧ record.taskType = task.taskType ∧ record.path = .str task.path ∧
    record.script = .str task.script

theorem taskId_ne (hex : String) : "task_" ++ hex ≠ "" := by
  intro h
  have hlength := congrArg String.length h
  rw [String.length_append] at hlength
  simp at hlength

/-- The worker in a body. -/
def workerField (worker : Option String) : List (String × Json) :=
  match worker with
  | some w => if w = "" then [] else [("worker_id", .str w)]
  | none => []

/-- A text is stored as it is. -/
theorem orEmpty_str (text : String) : Storage.orEmpty (.str text) = .str text := by
  unfold Storage.orEmpty
  split_ifs with h
  · rfl
  · have hempty : text = "" := by simpa [Json.truthy] using h
    rw [hempty]

/-- An object with the data of a task carries it. -/
theorem carries_obj {id : String} (hid : id ≠ "") (task : Task) (worker : Option String) :
    Carries (.obj ([("task_id", .str id), ("task_details", .obj task.data)] ++ workerField worker))
      id task worker := by
  have hdetails : (task.data.lookup "task_type").getD .null = .str (typeText task.taskType) := rfl
  have htype : Server.taskTypeOf (.str (typeText task.taskType)) = .ok (some task.taskType) := by
    cases task.taskType <;> rfl
  refine ⟨?_, fun w assignedBy now hw => ?_⟩
  · have hnodup : (([("task_id", .str id), ("task_details", .obj task.data)] ++
        workerField worker : List (String × Json)).map Prod.fst).Nodup := by
      unfold workerField
      split
      · split_ifs <;> simp
      · simp
    refine ⟨⟨_, hnodup⟩, rfl, rfl, ?_, fun cfg s => ?_⟩
    · cases worker with
      | none => rfl
      | some w =>
        unfold Fields.getD Dict.get
        by_cases hw : w = "" <;> simp [workerField, hw, Dict.find, Option.filter]
    · unfold Server.createTask
      have hid : (Fields.getD ⟨_, hnodup⟩ "task_id" .null).truthy = true := decide_eq_true hid
      have htask : Server.taskDetails ⟨_, hnodup⟩ = some task.data := rfl
      rw [if_neg (by rw [hid]; decide), htask]
      dsimp only
      rw [show Server.fieldOr task.data "task_type" .null = .str (typeText task.taskType) from rfl,
        htype, Storage.lift_ok_bind]
  · have hpath : Server.fieldOr task.data "path" (.str "") = .str task.path := rfl
    have hscript : Server.fieldOr task.data "script" (.str "") = .str task.script := rfl
    unfold Storage.buildResultRecord
    dsimp only
    rw [if_neg hid, if_neg hw, hpath, hscript, orEmpty_str, orEmpty_str]
    exact ⟨_, rfl, rfl, rfl, rfl, rfl⟩

theorem carries_payload (hex : String) (task : Task) (worker : Option String) :
    Carries (payload hex task.data worker) ("task_" ++ hex) task worker :=
  carries_obj (taskId_ne hex) task worker

theorem demoId_ne (now idx : ℕ) : demoId now idx ≠ "" := by
  intro h
  have hlength := congrArg String.length h
  unfold demoId at hlength
  simp only [String.length_append] at hlength
  have hlong : "chat-demo-".length = 10 := rfl
  have hnone : "".length = 0 := rfl
  omega

/-- The script of a demo is taken for one: it has spaces. -/
theorem looksLikePath_demoScript (now idx : ℕ) : looksLikePath (demoScript now idx) = false := by
  have hspace : (demoScript now idx).contains ' ' = true := by
    unfold demoScript
    simp [String.contains_char_eq]
  unfold looksLikePath
  rw [hspace]
  simp

theorem carries_demoTask (now idx : ℕ) :
    Carries (demoTask now idx) (demoId now idx) ⟨.script, demoScript now idx⟩ none := by
  have hcarries := carries_obj (demoId_ne now idx) ⟨.script, demoScript now idx⟩ none
  have hbody : Task.isBody ⟨.script, demoScript now idx⟩ = true := by
    unfold Task.isBody
    rw [looksLikePath_demoScript]
    rfl
  unfold Task.data Task.path Task.script at hcarries
  rw [hbody] at hcarries
  exact hcarries

/-- A demo has between one task and a hundred. -/
theorem Demo.count {n : ℕ} (h : Demo t m n) : 1 ≤ n ∧ n ≤ 100 := by
  have hsome := h.2
  unfold parseDemoIntent at hsome
  dsimp only at hsome
  split_ifs at hsome
  obtain rfl := Option.some.inj hsome
  omega

/-- **A task was begun**: its type was chosen, and perhaps more told. -/
def Begun (t : Tables) (pre : List Heard) : Prop :=
  (∃ k, Chosen t pre k) ∨ ∃ task rest, Told t pre task rest

theorem Led.begun {k : TaskType} (h : Led t pre d) (hk : d.taskType = some k) : Begun t pre := by
  cases d with
  | askPath k => exact .inl ⟨k, h⟩
  | askWorker task =>
    obtain ⟨rest, htold⟩ := h
    exact .inr ⟨task, rest, htold⟩
  | askWorkerId task =>
    obtain ⟨rest, htold, -⟩ := h
    exact .inr ⟨task, rest, htold⟩
  | init => cases hk
  | done last => cases hk

/-- **A body was said**: the task in the messages before, the worker, if any, in this one after
a request for it. -/
def Said (t : Tables) (pre : List Heard) (m : Heard) (body : Json) : Prop :=
  ∃ task worker rest text, Told t pre task rest ∧ Says t m text ∧ Carries body m.taskId task worker ∧
    (worker = none ∧ ¬wantsPick t text ∨ worker = some text ∧ ∃ x ∈ rest, Picks t x)

variable (repr) in
/-- **What is posted was said.**  In a conversation from a history without a state, a message that
has anything posted is of one of two kinds.  Either it submits one task by itself.  Its type was
chosen in one message and its path or its script told in a later one, with nothing but questions
in between and nothing but questions and requests for a worker since; it goes to no worker, or to
the one named in this message after such a request; and `/createTask` accepts it and keeps the
texts as they were said.  None of these messages is a question, a demo or a request for the list.
Or it is a demo, after a task was begun, and has posted the demo's tasks and nothing else; these
are scripts for no worker, which `/createTask` accepts. -/
theorem posted_said (hstart : readState history = .ok .null) (pre : List Heard) (m : Heard)
    (hposts : posts t repr (converse t repr history pre) m ++
      batch t repr (converse t repr history pre) m ≠ []) :
    (∃ body, posts t repr (converse t repr history pre) m = [body] ∧
        batch t repr (converse t repr history pre) m = [] ∧ Said t pre m body) ∨
      ∃ n, Demo t m n ∧ 1 ≤ n ∧ n ≤ 100 ∧ Begun t pre ∧
        posts t repr (converse t repr history pre) m = [] ∧
        batch t repr (converse t repr history pre) m = demoTasks m.outside.now n ∧
        ∀ body ∈ demoTasks m.outside.now n, ∃ idx,
          Carries body (demoId m.outside.now idx) ⟨.script, demoScript m.outside.now idx⟩ none := by
  obtain ⟨s, d, hs, hd, hled, -⟩ := converse_led hstart pre
  obtain ⟨s', d', -, -, hmoves⟩ := heard_moves hs hd m
  generalize posts t repr (converse t repr history pre) m = bodies at hposts hmoves
  generalize batch t repr (converse t repr history pre) m = tasks at hposts hmoves
  cases hmoves with
  | auto hsaid hpick =>
    obtain ⟨rest, htold⟩ := hled
    exact .inl ⟨_, rfl, rfl, _, none, rest, _, htold, hsaid, carries_payload .., .inl ⟨rfl, hpick⟩⟩
  | named hsaid =>
    obtain ⟨rest, htold, hpicks⟩ := hled
    exact .inl ⟨_, rfl, rfl, _, some _, rest, _, htold, hsaid, carries_payload ..,
      .inr ⟨rfl, hpicks⟩⟩
  | demo hdemo hk =>
    refine .inr ⟨_, hdemo, hdemo.count.1, hdemo.count.2, hled.begun hk, rfl, rfl,
      fun body hbody => ?_⟩
    obtain ⟨i, -, rfl⟩ := List.mem_map.1 hbody
    exact ⟨i + 1, carries_demoTask ..⟩
  | aside => exact absurd rfl hposts
  | noDemo => exact absurd rfl hposts
  | chooses => exact absurd rfl hposts
  | greets => exact absurd rfl hposts
  | tells => exact absurd rfl hposts
  | picks => exact absurd rfl hposts
  | waits => exact absurd rfl hposts
  | restarts => exact absurd rfl hposts
  | idles => exact absurd rfl hposts

/-! ### A conversation -/

/-- `/createTask` accepts everything, and every task is pending. -/
def willing : Outside where
  hex := "0123456789ab"
  now := 0
  get _ _ := .ok (.obj [("status", .str "PENDING")])
  post _ := .ok (201, .obj [("message", .str "Task accepted"), ("task_id", .null),
    ("worker_id", .str "w"), ("assigned_by", .str "frontend")])

/-- Messages to it. -/
def saying (messages : List String) : List Heard := messages.map fun message => ⟨message, willing⟩

/-- The history of a conversation that starts from nothing. -/
def before (messages : List String) : List Json :=
  converse .plain Json.text [] (saying messages)

theorem readState_nil : readState [] = .ok .null := rfl

/-- The hypotheses of `posted_said` are satisfiable: a script, with a question in between, and
a demo in its place. -/
theorem posted_said_script :
    (∃ body, posts .plain Json.text (before ["a script", "is it done?", "ls -l"])
        ⟨"auto", willing⟩ = [body] ∧
      Said .plain (saying ["a script", "is it done?", "ls -l"]) ⟨"auto", willing⟩ body) ∧
    batch .plain Json.text (before ["a script"]) ⟨"./demo.sh 2", willing⟩ = demoTasks 0 2 := by
  have hscript := posted_said (t := .plain) Json.text readState_nil
    (saying ["a script", "is it done?", "ls -l"]) ⟨"auto", willing⟩ (by decide +kernel)
  have hdemo := posted_said (t := .plain) Json.text readState_nil
    (saying ["a script"]) ⟨"./demo.sh 2", willing⟩ (by decide +kernel)
  have hauto : parseDemoIntent .plain (strip "auto") = none := by decide +kernel
  have htwo : parseDemoIntent .plain (strip "./demo.sh 2") = some 2 := by decide +kernel
  constructor
  · obtain ⟨body, hposts, -, hsaid⟩ | ⟨n, hn, -⟩ := hscript
    · exact ⟨body, hposts, hsaid⟩
    · have hsome : parseDemoIntent .plain (strip "auto") = some n := hn.2
      rw [hauto] at hsome
      cases hsome
  · obtain ⟨body, -, -, task, worker, rest, text, -, hsaid, -⟩ |
      ⟨n, hn, -, -, -, -, hbatch, -⟩ := hdemo
    · have hnone : parseDemoIntent .plain (strip "./demo.sh 2") = none := hsaid.2.1
      rw [htwo] at hnone
      cases hnone
    · have hsome : parseDemoIntent .plain (strip "./demo.sh 2") = some n := hn.2
      rw [htwo] at hsome
      obtain rfl := Option.some.inj hsome
      exact hbatch

/-! ### What a question is about -/

/-- **The state remembers** what the dialogue does. -/
theorem Stored.last {s : Json} (h : Stored s d) :
    s.getField "last_task_id" = .ok ((d.last.map Json.str).getD .null) := by
  cases h with
  | done last => rfl
  | init => rfl
  | askPath k => rfl
  | askWorker task => rfl
  | askWorkerId task => rfl
  | failed => rfl
  | demo => rfl

/-- A question that names no task names the one that the state remembers. -/
theorem answer_remembered {o : Outside} {q : Question} {state : Json} {id : String}
    (hnone : q.explicit = none) (hlast : state.getField "last_task_id" = .ok (.str id))
    (hid : id ≠ "") (state' : Json) :
    answer repr o q state = answer repr o { q with explicit := some id } state' := by
  have htruthy : (Json.str id).truthy = true := decide_eq_true hid
  have hfound : resolveTaskId none state = .ok (some (.str id)) := by
    unfold resolveTaskId
    rw [hlast]
    simp only [bind, Except.bind, htruthy, if_true]
    rfl
  unfold answer
  rw [hnone, hfound]
  rfl

/-- A question that names no task is answered with another one where the state remembers none. -/
theorem answer_forgotten {o : Outside} {q : Question} {state : Json} (hnone : q.explicit = none)
    (hlast : state.getField "last_task_id" = .ok .null) :
    answer repr o q state = .ok ("Which task ID would you like me to check?", .null) := by
  unfold answer resolveTaskId
  rw [hnone]
  dsimp only
  rw [hlast]
  rfl

/-- The action of an answer tells the task that the question names. -/
theorem inputTaskId_answer {o : Outside} {q : Question} {state : Json} {id : String}
    {replied : String × Json} (hid : q.explicit = some id)
    (h : answer repr o q state = .ok replied) : inputTaskId replied.2 = .str id := by
  unfold answer at h
  rw [hid] at h
  simp only [resolveTaskId, bind, Except.bind] at h
  split at h
  · cases h
  · split_ifs at h <;> (obtain rfl := Except.ok.inj h; rfl)

/-- The reply and the action of a turn. -/
def Turn.replied (turn : Turn) : String × Json := (turn.reply, turn.action)

variable (repr) in
/-- A question is answered from the state in the history. -/
theorem chat_question {o : Outside} {message : String} {s : Json} {q : Question}
    (hs : readState history = .ok s) (hq : question t (strip message) = some q) :
    (chat t repr o history message).map Turn.replied = answer repr o q (s.orElse initState) := by
  unfold chat
  rw [hs]
  simp only [bind, Except.bind, hq]
  cases answer repr o q (s.orElse initState) <;> rfl

variable (repr) in
/-- **A question that names no task** is answered as if it had named the last submission of the
conversation, if the agent got to know its id and nobody has started over since, nor run a demo;
otherwise the agent asks for an id. -/
theorem asked_recent (hstart : readState history = .ok .null) (pre : List Heard) (m : Heard)
    {q : Question} (hq : question t (strip m.message) = some q) (hnone : q.explicit = none) :
    (∀ id, Recent t repr history pre id →
      (chat t repr m.outside (converse t repr history pre) m.message).map Turn.replied =
          answer repr m.outside { q with explicit := some id } .null ∧
        ∀ turn, chat t repr m.outside (converse t repr history pre) m.message = .ok turn →
          inputTaskId turn.action = .str id) ∧
    ((¬∃ id, Recent t repr history pre id) →
      (chat t repr m.outside (converse t repr history pre) m.message).map Turn.replied =
        .ok ("Which task ID would you like me to check?", .null)) := by
  obtain ⟨s, d, hs, hd, -, hlast⟩ := converse_led hstart pre
  have hchat := chat_question repr (o := m.outside) hs hq
  have hfield := hd.last
  refine ⟨fun id hrecent => ?_, fun hno => ?_⟩
  · have hid : id ≠ "" := by
      obtain ⟨l₀, a, l₁, -, ⟨rfl, -⟩, -⟩ := hrecent
      exact taskId_ne _
    rw [(hlast id).2 hrecent] at hfield
    have hanswer := hchat.trans (answer_remembered hnone hfield hid .null)
    refine ⟨hanswer, fun turn hturn => ?_⟩
    rw [hturn] at hanswer
    exact inputTaskId_answer rfl hanswer.symm
  · cases hd' : d.last with
    | some id => exact absurd ⟨id, (hlast id).1 hd'⟩ hno
    | none =>
      rw [hd'] at hfield
      exact hchat.trans (answer_forgotten hnone hfield)

/-- The hypotheses of `asked_recent` are satisfiable: a task is submitted and asked after, and one
is asked after that has only been begun. -/
theorem asked_recent_script :
    Recent .plain Json.text [] (saying ["a script", "ls -l", "auto"]) "task_0123456789ab" ∧
      (∃ turn, chat .plain Json.text willing (before ["a script", "ls -l", "auto"])
          "is it done?" = .ok turn ∧ inputTaskId turn.action = .str "task_0123456789ab") ∧
      (chat .plain Json.text willing (before ["a script", "ls -l"]) "is it done?").map Turn.replied =
        .ok ("Which task ID would you like me to check?", .null) := by
  have hq : question .plain (strip "is it done?") = some ⟨none, false, false⟩ := by decide +kernel
  obtain ⟨hknown, -⟩ := asked_recent (t := .plain) Json.text readState_nil
    (saying ["a script", "ls -l", "auto"]) ⟨"is it done?", willing⟩ hq rfl
  obtain ⟨-, hforgotten⟩ := asked_recent (t := .plain) Json.text readState_nil
    (saying ["a script", "ls -l"]) ⟨"is it done?", willing⟩ hq rfl
  have hrecent : Recent .plain Json.text [] (saying ["a script", "ls -l", "auto"])
      "task_0123456789ab" := by
    have hlength : 0 < (posts .plain Json.text (before ["a script", "ls -l"])
        ⟨"auto", willing⟩).length := by decide +kernel
    obtain ⟨body, hbody⟩ := List.exists_mem_of_length_pos hlength
    refine ⟨saying ["a script", "ls -l"], ⟨"auto", willing⟩, [], rfl, ⟨rfl, body, hbody, ?_⟩, ?_⟩
    · exact ⟨_, _, _, rfl, rfl⟩
    · exact fun x₀ x x₁ h => absurd h.symm (by simp)
  refine ⟨hrecent, ?_, hforgotten ?_⟩
  · have hok : (chat .plain Json.text willing (before ["a script", "ls -l", "auto"])
        "is it done?").isOk = true := by decide +kernel
    have htask := (hknown _ hrecent).2
    cases hturn : chat .plain Json.text willing (before ["a script", "ls -l", "auto"])
        "is it done?" with
    | error e =>
      rw [hturn] at hok
      cases hok
    | ok turn => exact ⟨turn, rfl, htask turn hturn⟩
  · rintro ⟨id, l₀, a, l₁, hpre, ⟨-, body, hbody, -⟩, -⟩
    have hfirst : posts .plain Json.text [] ⟨"a script", willing⟩ = [] := by decide +kernel
    have hsecond : posts .plain Json.text (before ["a script"]) ⟨"ls -l", willing⟩ = [] := by
      decide +kernel
    rcases l₀ with _ | ⟨x, _ | ⟨y, l₀⟩⟩
    · obtain ⟨rfl, -⟩ := List.cons.inj hpre
      rw [show converse .plain Json.text [] [] = [] from rfl, hfirst] at hbody
      cases hbody
    · obtain ⟨rfl, hpre'⟩ := List.cons.inj hpre
      obtain ⟨rfl, -⟩ := List.cons.inj hpre'
      change body ∈ posts .plain Json.text (before ["a script"]) ⟨"ls -l", willing⟩ at hbody
      rw [hsecond] at hbody
      cases hbody
    · have hlength := congrArg List.length hpre
      simp [saying] at hlength

end Run

end Chat
end ChordInfra
