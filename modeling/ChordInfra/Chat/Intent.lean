/-
# What a message of a user asks for

The patterns of `ScriptedAgent` in `chord/conversation_agent.py`: questions about the
status of a task, the list of tasks, and demos.  They are looked for in every
message before the dialogue takes it for an answer.

The tables of Unicode that `\w`, `\d` and `str.lower` consult are a parameter.
-/

import ChordInfra.Storage.Json
import ChordInfra.Text.Pattern

namespace ChordInfra
namespace Chat

open Storage (isSpace strip)
open Text

/-- The tables of Unicode. -/
structure Tables where
  /-- `str.isalnum` on one character. -/
  alnum : Char → Bool
  /-- The value of a decimal digit. -/
  digit : Char → Option ℕ
  /-- `str.lower`. -/
  lower : String → String

/-- The tables for plain letters and digits only. -/
def Tables.plain : Tables where
  alnum := Char.isAlphanum
  digit c := if c.isDigit then some (c.toNat - '0'.toNat) else none
  lower s := String.ofList (s.toList.map Char.toLower)

/-! ### Patterns -/

/-- The characters that match a small letter under `re.I`. -/
def sameLetter (letter c : Char) : Bool :=
  c = letter || c.toLower = letter ||
    (letter = 'i' && (c.toNat = 0x130 || c.toNat = 0x131)) ||
    (letter = 's' && c.toNat = 0x17f) || (letter = 'k' && c.toNat = 0x212a)

/-- A word, in letters of either case. -/
def word (text : String) : Pattern := .letters sameLetter text

/-- One of some words. -/
def words (texts : List String) : Pattern := .anyOf (texts.map word)

/-- `\s+`. -/
def spaces : Pattern := .some isSpace

/-- Patterns with spaces between them. -/
def phrase (parts : List Pattern) : Pattern := .inOrder (parts.intersperse spaces)

/-- `the\s+task`. -/
def theTask : Pattern := phrase [word "the", word "task"]

/-- `(\s+is|\s*'s)?`. -/
def maybeIs : Pattern :=
  .opt (.alt (.seq spaces (word "is")) (.seq (.many isSpace) (word "'s")))

section Patterns

variable (t : Tables)

/-- `\w`. -/
def Tables.isWord (c : Char) : Bool := t.alnum c || c = '_'

/-- `\b`. -/
def edge : Pattern := .boundary t.isWord

/-- `task_\w+`. -/
def taskName : Pattern := .seq (word "task_") (.some t.isWord)

/-- `_RE_WAIT`. -/
def reWait : Pattern :=
  .inOrder [edge t,
    .anyOf [
      phrase [word "wait", words ["for", "until", "till", "on"]],
      phrase [word "let", word "me", word "know"],
      phrase [word "tell", word "me", word "when"],
      phrase [word "notify", word "me"],
      .inOrder [word "when", spaces, .anyOf [word "it", theTask, phrase [word "that", word "task"]],
        maybeIs, spaces, words ["done", "finished", "complete", "completes", "ready"]],
      .inOrder [word "when", spaces, .anyOf [word "it", theTask, word "that"], maybeIs, spaces,
        word "done"]],
    edge t]

/-- `_RE_STATUS`. -/
def reStatus : Pattern :=
  .inOrder [edge t,
    .anyOf [
      word "status",
      phrase [word "is", .anyOf [word "it", word "that", theTask, taskName t],
        words ["done", "finished", "ready", "complete"]],
      phrase [word "did", .anyOf [word "it", taskName t], words ["finish", "complete", "work", "run"]],
      phrase [word "check", word "on", .anyOf [word "it", word "that", theTask]],
      .inOrder [word "see", spaces, word "if", spaces, words ["it", "that"], spaces,
        .opt (.seq (word "is") spaces), word "done"]],
    edge t]

/-- `_RE_SHOW_FULL`. -/
def reShowFull : Pattern :=
  .inOrder [edge t, word "show", spaces, .opt (.seq (word "me") spaces),
    .opt (.seq (word "the") spaces), word "full", spaces,
    words ["output", "stdout", "stderr", "result"]]

/-- `_RE_TASK_ID`. -/
def reTaskId : Pattern := .inOrder [edge t, taskName t, edge t]

/-- `\d`. -/
def Tables.isDigit (c : Char) : Bool := (t.digit c).isSome

/-- `\b(\d+)\s*tasks?\b`, of a text in small letters. -/
def reNumTasks : Pattern :=
  .inOrder [edge t, .some t.isDigit, .many isSpace, .letters (· = ·) "task",
    .opt (.one (· = 's')), edge t]

/-! ### Intents -/

/-- A question about a task. -/
structure Question where
  explicit : Option String
  full : Bool
  wait : Bool
deriving DecidableEq, Repr

/-- What `_try_status_intent` finds in a message. -/
def question (msg : String) : Option Question :=
  let explicit := ((reTaskId t).search msg).filter (· ≠ "")
  let full := (reShowFull t).occurs msg
  let wait := (reWait t).occurs msg
  let status := (reStatus t).occurs msg
  if full || wait || status || explicit.isSome then some ⟨explicit, full, wait⟩ else none

/-- `_is_list_intent`. -/
def isListIntent (msg : String) : Bool :=
  let s := t.lower (strip msg)
  if s = "" then false
  else if ["list tasks", "list task", "list all tasks", "show tasks", "show all tasks", "my tasks",
      "what tasks", "tasks list", "all tasks"].any fun keyword => contains s keyword then true
  else ["list", "tasks", "ls"].contains s

/-- `int(text)` of digits. -/
def intOf (text : String) : ℕ := text.toList.foldl (fun n c => 10 * n + (t.digit c).getD 0) 0

/-- `_parse_demo_intent`. -/
def parseDemoIntent (msg : String) : Option ℕ :=
  let s := t.lower (strip msg)
  if s = "" then none
  else if !contains s "demo" && !(reNumTasks t).occurs s then none
  else
    let n := ((Pattern.some t.isDigit).search s).elim 10 (intOf t)
    some (max 1 (min n 100))

end Patterns

/-- A path with the word in it is a question. -/
example : question .plain "/opt/status.sh" = some ⟨none, false, false⟩ := by decide +kernel

example : question .plain "When it's done, tell me of TASK_1f!" = some ⟨some "TASK_1f", false, true⟩ := by
  decide +kernel

example : parseDemoIntent .plain "echo 500 > demo" = some 100 := by decide +kernel

end Chat
end ChordInfra
