/-
# Texts and JSON values

What the services check of the values that reach them: `str.strip`, the truth
value of a JSON value, and its rendering in an error message.  A number with a
fractional part or an exponent is kept as the text Python renders it with.
-/

import ChordInfra.Dict.Basic
import Mathlib.Data.List.DropRight
import Mathlib.Data.List.TakeWhile

namespace ChordInfra
namespace Storage

/-- `str.isspace` on one character. -/
def isSpace (c : Char) : Bool :=
  c.toNat ∈ [0x20, 0x85, 0xa0, 0x1680, 0x2028, 0x2029, 0x202f, 0x205f, 0x3000] ||
    (0x09 ≤ c.toNat && c.toNat ≤ 0x0d) || (0x1c ≤ c.toNat && c.toNat ≤ 0x1f) ||
    (0x2000 ≤ c.toNat && c.toNat ≤ 0x200a)

/-- A list without the elements at its two ends that satisfy `p`. -/
def trim {α : Type} (p : α → Bool) (l : List α) : List α := (l.dropWhile p).rdropWhile p

/-- `str.strip`. -/
def strip (s : String) : String := String.ofList (trim isSpace s.toList)

/-- What is left has no such element at its ends, so trimming again changes
nothing. -/
theorem trim_trim {α : Type} (p : α → Bool) (l : List α) : trim p (trim p l) = trim p l := by
  have hhead : (trim p l).dropWhile p = trim p l := by
    unfold trim
    rw [List.dropWhile_eq_self_iff]
    intro hpos
    have hpre : (l.dropWhile p).rdropWhile p <+: l.dropWhile p := List.rdropWhile_prefix p _
    rw [hpre.getElem]
    exact List.dropWhile_get_zero_not p l (hpos.trans_le hpre.length_le)
  conv_lhs => rw [trim, hhead]
  exact List.rdropWhile_idempotent p (l.dropWhile p)

@[simp] theorem strip_strip (s : String) : strip (strip s) = strip s := by
  simp only [strip, String.toList_ofList, trim_trim]

/-- A JSON value as Python holds it. -/
inductive Json
  | null
  | bool (b : Bool)
  | int (n : ℤ)
  | float (text : String)
  | str (s : String)
  | arr (items : List Json)
  | obj (fields : List (String × Json))

namespace Json

/-- The truth value of a value in an `if`. -/
def truthy : Json → Bool
  | null => false
  | bool b => b
  | int n => n ≠ 0
  | float text => text ≠ "0.0" ∧ text ≠ "-0.0"
  | str s => s ≠ ""
  | arr items => !items.isEmpty
  | obj fields => !fields.isEmpty

/-- A value in an f-string; lists and objects are not rendered by any message. -/
def text : Json → String
  | null => "None"
  | bool b => if b then "True" else "False"
  | int n => toString n
  | float t => t
  | str s => s
  | arr _ => "[...]"
  | obj _ => "\x7b...\x7d"

/-- `isinstance(value, dict)`. -/
def isObj : Json → Bool
  | obj _ => true
  | _ => false

end Json

/-- What the code raises, with the text of its message. -/
inductive Exc
  /-- `requests.RequestException`: no answer, or an answer with an error status. -/
  | request
  | typeError (message : String)
  | valueError (message : String)
  | runtimeError (message : String)
  | taskValidation (message : String)
  | taskNotFound (message : String)
  | taskConflict (message : String)
  | resultValidation (message : String)
deriving DecidableEq, Repr

end Storage
end ChordInfra
