/-
# Programs over operations of a shared world

A program is a tree: it ends with a value, ends by raising, or performs an
operation and goes on with the answer.  The operations and the type of each
one's answer are parameters, so that one text of a program serves two readings:
`exec` runs it alone on a world whose operations are given by a handler, and
`Interact.Pool` lets many programs take their operations in any order.

`wp` is the logic of a program that holds under both.  Among others the world
may change between two of its operations, so an assertion is about what the
program itself has seen and done: a ghost state that `note` updates with every
answer.  `wp note A P p Q g` says that `p`, started with ghost state `g`, performs
only operations that `P` allows and ends with `Q`, whatever answers it gets among
those that `A` grants.  `exec_wp` is its soundness for a program run alone.
-/

import Mathlib.Logic.Basic

namespace ChordInfra
namespace Interact

/-- A program that performs operations `Op`, is answered in `Res`, and ends with
a value in `α` or by raising an exception in `ε`. -/
inductive Prog (Op : Type) (Res : Op → Type) (ε α : Type)
  | ret (a : α)
  | raise (e : ε)
  | op (o : Op) (k : Res o → Prog Op Res ε α)

namespace Prog

variable {Op : Type} {Res : Op → Type} {ε α β γ : Type}

/-- Sequencing; a raised exception skips the rest. -/
def bind : Prog Op Res ε α → (α → Prog Op Res ε β) → Prog Op Res ε β
  | ret a, f => f a
  | raise e, _ => raise e
  | op o k, f => op o fun r => bind (k r) f

instance : Monad (Prog Op Res ε) where
  pure := ret
  bind := bind

/-- `try`: how the program ended, as a value. -/
def attempt : Prog Op Res ε α → Prog Op Res ε (Except ε α)
  | ret a => ret (.ok a)
  | raise e => ret (.error e)
  | op o k => op o fun r => attempt (k r)

/-- The program has nothing left to do. -/
def ended : Prog Op Res ε α → Bool
  | op .. => false
  | _ => true

/-- One operation. -/
def perform (o : Op) : Prog Op Res ε (Res o) := op o ret

@[simp] theorem ret_bind (a : α) (f : α → Prog Op Res ε β) : (ret a >>= f) = f a := rfl

@[simp] theorem pure_bind' (a : α) (f : α → Prog Op Res ε β) :
    ((pure a : Prog Op Res ε α) >>= f) = f a := rfl

@[simp] theorem raise_bind (e : ε) (f : α → Prog Op Res ε β) : (raise e >>= f) = raise e := rfl

@[simp] theorem perform_bind (o : Op) (f : Res o → Prog Op Res ε β) :
    (perform o >>= f) = op o f := rfl

@[simp] theorem op_bind (o : Op) (k : Res o → Prog Op Res ε α) (f : α → Prog Op Res ε β) :
    (op o k >>= f) = op o fun r => k r >>= f := rfl

theorem bind_assoc' (p : Prog Op Res ε α) (f : α → Prog Op Res ε β) (g : β → Prog Op Res ε γ) :
    (p >>= f >>= g) = (p >>= fun a => f a >>= g) := by
  induction p with
  | ret a => rfl
  | raise e => rfl
  | op o k ih => exact congrArg (op o) (funext ih)

@[simp] theorem attempt_ret (a : α) : attempt (ret a : Prog Op Res ε α) = ret (.ok a) := rfl

@[simp] theorem attempt_pure (a : α) : attempt (pure a : Prog Op Res ε α) = ret (.ok a) := rfl

@[simp] theorem attempt_raise (e : ε) : attempt (raise e : Prog Op Res ε α) = ret (.error e) := rfl

@[simp] theorem attempt_op (o : Op) (k : Res o → Prog Op Res ε α) :
    attempt (op o k) = op o fun r => attempt (k r) := rfl

/-- One program after the other, for each element of a list. -/
def each {X : Type} (f : X → Prog Op Res ε Unit) : List X → Prog Op Res ε Unit
  | [] => ret ()
  | x :: xs => f x >>= fun _ => each f xs

@[simp] theorem each_nil {X : Type} (f : X → Prog Op Res ε Unit) : each f [] = ret () := rfl

@[simp] theorem each_cons {X : Type} (f : X → Prog Op Res ε Unit) (x : X) (xs : List X) :
    each f (x :: xs) = (f x >>= fun _ => each f xs) := rfl

/-! ### Running alone -/

section Exec

variable {W : Type} (handle : (o : Op) → W → Res o × W)

/-- The program run to its end on a world, every operation answered by the
handler. -/
def exec : Prog Op Res ε α → W → Except ε α × W
  | ret a, w => (.ok a, w)
  | raise e, w => (.error e, w)
  | op o k, w => exec (k (handle o w).1) (handle o w).2

@[simp] theorem exec_pure (a : α) (w : W) :
    exec handle (pure a : Prog Op Res ε α) w = (.ok a, w) := rfl

@[simp] theorem exec_ret (a : α) (w : W) :
    exec handle (ret a : Prog Op Res ε α) w = (.ok a, w) := rfl

@[simp] theorem exec_raise (e : ε) (w : W) :
    exec handle (raise e : Prog Op Res ε α) w = (.error e, w) := rfl

@[simp] theorem exec_op (o : Op) (k : Res o → Prog Op Res ε α) (w : W) :
    exec handle (op o k) w = exec handle (k (handle o w).1) (handle o w).2 := rfl

@[simp] theorem exec_perform (o : Op) (w : W) :
    exec handle (perform o : Prog Op Res ε (Res o)) w = (.ok (handle o w).1, (handle o w).2) := rfl

/-- The operations that a run performs, each with its answer, in their order. -/
def log : Prog Op Res ε α → W → List (Σ o, Res o)
  | op o k, w => ⟨o, (handle o w).1⟩ :: log (k (handle o w).1) (handle o w).2
  | _, _ => []

@[simp] theorem log_ret (a : α) (w : W) : log handle (ret a : Prog Op Res ε α) w = [] := rfl

@[simp] theorem log_pure (a : α) (w : W) : log handle (pure a : Prog Op Res ε α) w = [] := rfl

@[simp] theorem log_raise (e : ε) (w : W) : log handle (raise e : Prog Op Res ε α) w = [] := rfl

@[simp] theorem log_op (o : Op) (k : Res o → Prog Op Res ε α) (w : W) :
    log handle (op o k) w =
      ⟨o, (handle o w).1⟩ :: log handle (k (handle o w).1) (handle o w).2 := rfl

theorem exec_bind (p : Prog Op Res ε α) (f : α → Prog Op Res ε β) (w : W) :
    exec handle (p >>= f) w =
      match exec handle p w with
      | (.ok a, w') => exec handle (f a) w'
      | (.error e, w') => (.error e, w') := by
  induction p generalizing w with
  | ret a => rfl
  | raise e => rfl
  | op o k ih => exact ih _ _

@[simp] theorem exec_attempt (p : Prog Op Res ε α) (w : W) :
    exec handle (attempt p) w = (.ok (exec handle p w).1, (exec handle p w).2) := by
  induction p generalizing w with
  | ret a => rfl
  | raise e => rfl
  | op o k ih => exact ih _ _

theorem log_bind (p : Prog Op Res ε α) (f : α → Prog Op Res ε β) (w : W) :
    log handle (p >>= f) w = log handle p w ++
      match exec handle p w with
      | (.ok a, w') => log handle (f a) w'
      | (.error _, _) => [] := by
  induction p generalizing w with
  | ret a => rfl
  | raise e => rfl
  | op o k ih => exact congrArg (List.cons _) (ih _ _)

@[simp] theorem log_attempt (p : Prog Op Res ε α) (w : W) :
    log handle (attempt p) w = log handle p w := by
  induction p generalizing w with
  | ret a => rfl
  | raise e => rfl
  | op o k ih => exact congrArg (List.cons _) (ih _ _)

theorem log_attempt_bind (p : Prog Op Res ε α) (f : Except ε α → Prog Op Res ε β) (w : W) :
    log handle (attempt p >>= f) w =
      log handle p w ++ log handle (f (exec handle p w).1) (exec handle p w).2 := by
  rw [log_bind, log_attempt, exec_attempt]

variable {handle}

/-- The run of a sequence whose first part ends with a value. -/
theorem exec_bind_ok {p : Prog Op Res ε α} {f : α → Prog Op Res ε β} {w w' : W} {a : α}
    (h : exec handle p w = (.ok a, w')) : exec handle (p >>= f) w = exec handle (f a) w' := by
  rw [exec_bind, h]

/-- The run of a sequence whose first part raises. -/
theorem exec_bind_error {p : Prog Op Res ε α} {f : α → Prog Op Res ε β} {w w' : W} {e : ε}
    (h : exec handle p w = (.error e, w')) : exec handle (p >>= f) w = (.error e, w') := by
  rw [exec_bind, h]

/-- What follows a run and does nothing leaves its world. -/
theorem exec_bind_pure (p : Prog Op Res ε α) (f : α → β) (w : W) :
    (exec handle (p >>= fun a => pure (f a)) w).2 = (exec handle p w).2 := by
  rw [exec_bind]
  cases exec handle p w with
  | mk x w' => cases x <;> rfl

/-- The run of a sequence whose first part is a `try`. -/
theorem exec_attempt_bind (p : Prog Op Res ε α) (f : Except ε α → Prog Op Res ε β) (w : W) :
    exec handle (attempt p >>= f) w = exec handle (f (exec handle p w).1) (exec handle p w).2 := by
  rw [exec_bind, exec_attempt]

end Exec

/-! ### Operations that are programs -/

section Expand

variable {Op' : Type} {Val : Op' → Type} (program : (o : Op') → Prog Op Res ε (Val o))

/-- One operation that is a program, and is answered by how the program ended: an
exception of the program is raised. -/
def call (o : Op') : Prog Op' (fun o => Except ε (Val o)) ε (Val o) :=
  op o fun x =>
    match x with
    | .ok a => ret a
    | .error e => raise e

/-- The program with its program in the place of each operation. -/
def expand : Prog Op' (fun o => Except ε (Val o)) ε α → Prog Op Res ε α
  | ret a => ret a
  | raise e => raise e
  | op o k => attempt (program o) >>= fun x => expand (k x)

theorem expand_bind (p : Prog Op' (fun o => Except ε (Val o)) ε α)
    (f : α → Prog Op' (fun o => Except ε (Val o)) ε β) :
    expand program (p >>= f) = expand program p >>= fun a => expand program (f a) := by
  induction p with
  | ret a => rfl
  | raise e => rfl
  | op o k ih =>
    refine Eq.trans ?_ (bind_assoc' ..).symm
    exact congrArg (attempt (program o) >>= ·) (funext ih)

/-- **Both grains are the same run**: a program run alone does what it does when each of
its operations is a step. -/
theorem exec_expand {W : Type} (handle : (o : Op) → W → Res o × W)
    (p : Prog Op' (fun o => Except ε (Val o)) ε α) (w : W) :
    exec handle (expand program p) w = exec (fun o w => exec handle (program o) w) p w := by
  induction p generalizing w with
  | ret a => rfl
  | raise e => rfl
  | op o k ih =>
    unfold expand
    rw [exec_attempt_bind, exec_op]
    exact ih _ _

end Expand

/-! ### What a program does -/

variable {G : Type} (note : G → (o : Op) → Res o → G) (A : (o : Op) → Res o → Prop)
  (P : G → Op → Prop)

/-- Started with ghost state `g`, the program performs only operations that `P`
allows and ends with `Q`, for all answers that `A` grants. -/
def wp : Prog Op Res ε α → (Except ε α → G → Prop) → G → Prop
  | ret a, Q, g => Q (.ok a) g
  | raise e, Q, g => Q (.error e) g
  | op o k, Q, g => P g o ∧ ∀ r, A o r → wp (k r) Q (note g o r)

variable {note A P}

@[simp] theorem wp_ret {a : α} {Q : Except ε α → G → Prop} {g : G} :
    wp note A P (ret a : Prog Op Res ε α) Q g ↔ Q (.ok a) g := Iff.rfl

@[simp] theorem wp_pure {a : α} {Q : Except ε α → G → Prop} {g : G} :
    wp note A P (pure a : Prog Op Res ε α) Q g ↔ Q (.ok a) g := Iff.rfl

@[simp] theorem wp_raise {e : ε} {Q : Except ε α → G → Prop} {g : G} :
    wp note A P (raise e : Prog Op Res ε α) Q g ↔ Q (.error e) g := Iff.rfl

@[simp] theorem wp_op {o : Op} {k : Res o → Prog Op Res ε α} {Q : Except ε α → G → Prop} {g : G} :
    wp note A P (op o k) Q g ↔ P g o ∧ ∀ r, A o r → wp note A P (k r) Q (note g o r) := Iff.rfl

@[simp] theorem wp_perform {o : Op} {Q : Except ε (Res o) → G → Prop} {g : G} :
    wp note A P (perform o : Prog Op Res ε (Res o)) Q g ↔
      P g o ∧ ∀ r, A o r → Q (.ok r) (note g o r) := Iff.rfl

theorem wp_perform_bind {o : Op} {f : Res o → Prog Op Res ε α} {Q : Except ε α → G → Prop} {g : G} :
    wp note A P (perform o >>= f) Q g ↔ P g o ∧ ∀ r, A o r → wp note A P (f r) Q (note g o r) :=
  Iff.rfl

/-- A weaker end. -/
theorem wp_mono {p : Prog Op Res ε α} {Q Q' : Except ε α → G → Prop} (h : ∀ x g, Q x g → Q' x g)
    {g : G} (hp : wp note A P p Q g) : wp note A P p Q' g := by
  induction p generalizing g with
  | ret a => exact h _ _ hp
  | raise e => exact h _ _ hp
  | op o k ih => exact ⟨hp.1, fun r hr => ih r (hp.2 r hr)⟩

/-- A program that has ended ended as said. -/
theorem wp_of_ended {p : Prog Op Res ε α} {Q : Except ε α → G → Prop} {g : G}
    (hp : wp note A P p Q g) (h : p.ended = true) : ∃ x, Q x g := by
  cases p with
  | ret a => exact ⟨_, hp⟩
  | raise e => exact ⟨_, hp⟩
  | op o k => cases h

/-- The rule of sequencing. -/
theorem wp_bind {p : Prog Op Res ε α} {f : α → Prog Op Res ε β} {Q : Except ε β → G → Prop} {g : G} :
    wp note A P (p >>= f) Q g ↔ wp note A P p (fun x g' =>
      match x with
      | .ok a => wp note A P (f a) Q g'
      | .error e => Q (.error e) g') g := by
  induction p generalizing g with
  | ret a => exact Iff.rfl
  | raise e => exact Iff.rfl
  | op o k ih => exact and_congr_right fun _ => forall_congr' fun r => imp_congr_right fun _ => ih r

/-- The rule of `try`. -/
@[simp] theorem wp_attempt {p : Prog Op Res ε α} {Q : Except ε (Except ε α) → G → Prop} {g : G} :
    wp note A P (attempt p) Q g ↔ wp note A P p (fun x g' => Q (.ok x) g') g := by
  induction p generalizing g with
  | ret a => exact Iff.rfl
  | raise e => exact Iff.rfl
  | op o k ih => exact and_congr_right fun _ => forall_congr' fun r => imp_congr_right fun _ => ih r

/-- **A program run alone does what `wp` says.**  `J` ties the ghost state to the
world; every operation that `P` allows keeps it and is answered as `A` grants. -/
theorem exec_wp {W : Type} {handle : (o : Op) → W → Res o × W} {J : G → W → Prop}
    (hJ : ∀ g w o, J g w → P g o →
      A o (handle o w).1 ∧ J (note g o (handle o w).1) (handle o w).2)
    {p : Prog Op Res ε α} {Q : Except ε α → G → Prop} {g : G} {w : W}
    (hp : wp note A P p Q g) (hw : J g w) :
    ∃ g', Q (exec handle p w).1 g' ∧ J g' (exec handle p w).2 := by
  induction p generalizing g w with
  | ret a => exact ⟨g, hp, hw⟩
  | raise e => exact ⟨g, hp, hw⟩
  | op o k ih =>
    obtain ⟨hA, hw'⟩ := hJ g w o hw hp.1
    exact ih _ (hp.2 _ hA) hw'

end Prog

end Interact
end ChordInfra
