/-
# A value in memory with a file behind it

Each operation changes the value in memory and decides, from the value it
found, whether it writes the file.  `synced_prefixes_iff` says when the file
always holds what is in memory: when every operation of the run either writes
the file or changes nothing.
-/

import Mathlib.Data.List.Induction

namespace ChordInfra
namespace Durable

variable {S F : Type}

/-- The value in memory and the file, which may be missing. -/
structure Cell (S F : Type) where
  memory : S
  file : Option F

/-- How a value is written and read; a missing file stands for `blank`. -/
structure Format (S F : Type) where
  dump : S → F
  load : F → S
  blank : S
  load_dump : ∀ s, load (dump s) = s

/-- An operation: the change it makes, and whether it writes the file. -/
structure Op (S : Type) where
  change : S → S
  saves : S → Bool

variable (fmt : Format S F)

/-- What the file says. -/
def Format.read : Option F → S
  | none => fmt.blank
  | some f => fmt.load f

/-- The value of memory is written. -/
def Cell.save (c : Cell S F) : Cell S F := ⟨c.memory, some (fmt.dump c.memory)⟩

/-- Memory is lost and read back. -/
def Cell.restart (c : Cell S F) : Cell S F := ⟨fmt.read c.file, c.file⟩

/-- The file holds what is in memory. -/
def Cell.Synced (c : Cell S F) : Prop := fmt.read c.file = c.memory

def Op.apply (op : Op S) (c : Cell S F) : Cell S F :=
  let c' : Cell S F := ⟨op.change c.memory, c.file⟩
  if op.saves c.memory then c'.save fmt else c'

/-- The operations one after the other. -/
def run (ops : List (Op S)) (c : Cell S F) : Cell S F := ops.foldl (fun c op => op.apply fmt c) c

variable {fmt} {c : Cell S F} {op : Op S} {ops : List (Op S)}

theorem synced_save (c : Cell S F) : (c.save fmt).Synced fmt := fmt.load_dump c.memory

/-- A restart loses nothing exactly when the file holds what is in memory. -/
theorem restart_eq_iff : c.restart fmt = c ↔ c.Synced fmt := by
  obtain ⟨memory, file⟩ := c
  unfold Cell.restart Cell.Synced
  constructor
  · exact fun h => congrArg Cell.memory h
  · exact fun h => congrArg (fun s => (⟨s, file⟩ : Cell S F)) h

theorem synced_restart (c : Cell S F) : (c.restart fmt).Synced fmt := rfl

/-- The step: an operation keeps the file in step by writing it or by changing
nothing. -/
theorem Cell.Synced.apply_iff (h : c.Synced fmt) : (op.apply fmt c).Synced fmt ↔
    op.saves c.memory = true ∨ op.change c.memory = c.memory := by
  unfold Op.apply
  by_cases hsaves : op.saves c.memory = true
  · rw [if_pos hsaves]
    exact iff_of_true (synced_save _) (.inl hsaves)
  · rw [if_neg hsaves, or_iff_right hsaves]
    unfold Cell.Synced at h ⊢
    rw [h]
    exact eq_comm

/-- What the operations of a run do, each on the memory it finds. -/
def Faithful (fmt : Format S F) (c : Cell S F) (ops : List (Op S)) : Prop :=
  ∀ pre op post, ops = pre ++ op :: post →
    op.saves (run fmt pre c).memory = true ∨
      op.change (run fmt pre c).memory = (run fmt pre c).memory

theorem run_concat (pre : List (Op S)) (op : Op S) (c : Cell S F) :
    run fmt (pre ++ [op]) c = op.apply fmt (run fmt pre c) := by
  unfold run
  rw [List.foldl_append]
  rfl

/-- **The file is in step all along a run exactly when no operation of it
changes the memory without writing.** -/
theorem synced_prefixes_iff (h : c.Synced fmt) :
    (∀ pre, pre <+: ops → (run fmt pre c).Synced fmt) ↔ Faithful fmt c ops := by
  constructor
  · rintro hsynced pre op post rfl
    have hbefore := hsynced pre (List.prefix_append _ _)
    have hafter := hsynced (pre ++ [op]) ⟨post, (List.append_cons ..).symm⟩
    rw [run_concat] at hafter
    exact hbefore.apply_iff.1 hafter
  · intro hfaithful pre
    induction pre using List.reverseRecOn with
    | nil => exact fun _ => h
    | append_singleton pre op ih =>
      rintro ⟨post, rfl⟩
      rw [List.append_assoc] at hfaithful ih
      rw [run_concat]
      exact (ih (List.prefix_append _ _)).apply_iff.2 (hfaithful pre op post rfl)

end Durable
end ChordInfra
