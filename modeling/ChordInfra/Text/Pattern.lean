/-
# Searching a text for a pattern

Patterns of a backtracking matcher such as `re`, in which only single characters
are repeated.  `Pattern.ends` lists where a match from a position may end, in the
order in which the matcher tries them, and `Pattern.search` takes the first one
from the first position that has any.
-/

import Mathlib.Data.List.Basic

namespace ChordInfra
namespace Text

/-- A pattern in which only single characters are repeated. -/
inductive Pattern
  | empty
  | fail
  | one (p : Char → Bool)
  /-- As many characters as possible, then fewer. -/
  | many (p : Char → Bool)
  /-- Between a character of a word and one that is none. -/
  | boundary (word : Char → Bool)
  | seq (a b : Pattern)
  | alt (a b : Pattern)

/-- A position in a text: the character before it, and what follows. -/
structure Pos where
  before : Option Char
  rest : List Char
deriving DecidableEq, Repr

namespace Pattern

/-- `a?`. -/
def opt (a : Pattern) : Pattern := .alt a .empty

/-- `p+`. -/
def some (p : Char → Bool) : Pattern := .seq (.one p) (.many p)

/-- One pattern after the other. -/
def inOrder : List Pattern → Pattern := List.foldr .seq .empty

/-- `a|b|…`. -/
def anyOf : List Pattern → Pattern := List.foldr .alt .fail

/-- Letters that `same` takes for those of a word. -/
def letters (same : Char → Char → Bool) (word : String) : Pattern :=
  inOrder (word.toList.map fun c => .one (same c))

/-- Where a repetition may end. -/
def manyEnds (p : Char → Bool) (before : Option Char) : List Char → List Pos
  | [] => [⟨before, []⟩]
  | c :: rest =>
    if p c then manyEnds p (Option.some c) rest ++ [⟨before, c :: rest⟩] else [⟨before, c :: rest⟩]

/-- Where a match from a position may end, in the order of the attempts. -/
def ends : Pattern → Pos → List Pos
  | empty, pos => [pos]
  | fail, _ => []
  | one p, ⟨_, c :: rest⟩ => if p c then [⟨Option.some c, rest⟩] else []
  | one _, ⟨_, []⟩ => []
  | many p, pos => manyEnds p pos.before pos.rest
  | boundary word, pos => if pos.before.any word = pos.rest.head?.any word then [] else [pos]
  | seq a b, pos => (a.ends pos).flatMap b.ends
  | alt a b, pos => a.ends pos ++ b.ends pos

/-- The first match at or after a position: its text. -/
def searchFrom (r : Pattern) (before : Option Char) : List Char → Option (List Char)
  | [] => ((r.ends ⟨before, []⟩).head?).map fun _ => []
  | c :: rest =>
    match r.ends ⟨before, c :: rest⟩ with
    | stop :: _ => Option.some ((c :: rest).take ((c :: rest).length - stop.rest.length))
    | [] => searchFrom r (Option.some c) rest

/-- `re.search`: the text of the first match. -/
def search (r : Pattern) (text : String) : Option String :=
  (r.searchFrom none text.toList).map String.ofList

/-- Whether there is a match. -/
def occurs (r : Pattern) (text : String) : Bool := (r.search text).isSome

end Pattern

/-- `needle in text`. -/
def contains (text needle : String) : Bool :=
  text.toList.tails.any fun rest => needle.toList.isPrefixOf rest

end Text
end ChordInfra
