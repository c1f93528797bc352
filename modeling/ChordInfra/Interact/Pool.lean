/-
# Many programs on one world

A pool is a shared world and threads, each with what is left of its program and
a ghost state of its own.  A step lets one thread perform its next operation,
where that is enabled, or lets a new thread in; an operation may launch a thread
as well (`Pool.step`).  A run is any sequence of steps, so it says nothing about
the order in which the threads take their turns.

`Steps.sound` is the rule for invariants of runs.  The programs are dealt with
one by one, by `Prog.wp`, which says which operations a thread may perform next,
given its ghost state; it remains to show that such an operation keeps an
invariant of the ghost states and the world (`Keeps`).
-/

import ChordInfra.Interact.Prog
import Mathlib.Logic.Function.Basic
import Mathlib.Logic.Relation
import Mathlib.Tactic.SplitIfs

namespace ChordInfra
namespace Interact

open Prog

/-- What is left of a program, with its ghost state. -/
structure Thread (Op : Type) (Res : Op → Type) (ε α G : Type) where
  ghost : G
  rest : Prog Op Res ε α

/-- What threads share: how operations are answered and when they can be
performed, how a ghost state goes on with an answer, and which operations launch
a thread. -/
structure System (Op : Type) (Res : Op → Type) (ε α G W : Type) where
  handle : (o : Op) → W → Res o × W
  enabled : W → Op → Bool
  note : G → (o : Op) → Res o → G
  launch : Op → Option (Thread Op Res ε α G)

/-- Threads on a world, each in a slot. -/
structure Pool (ι Op : Type) (Res : Op → Type) (ε α G W : Type) where
  threads : ι → Option (Thread Op Res ε α G)
  world : W

/-- What happens next: a thread acts, with a slot for the thread that its
operation may launch, or a thread comes in. -/
inductive Event (ι Op : Type) (Res : Op → Type) (ε α G : Type)
  | act (i slot : ι)
  | enter (i : ι) (t : Thread Op Res ε α G)

section Update

variable {ι X : Type} [DecidableEq ι] {f : ι → Option X} {i : ι} {x x' : X}

/-- A property of every slot, when one of them changed. -/
theorem forall_update {φ : ι → X → Prop} (hi : φ i x') (h : ∀ j, j ≠ i → ∀ y ∈ f j, φ j y) :
    ∀ j, ∀ y ∈ Function.update f i (some x') j, φ j y := by
  intro j y hy
  by_cases hj : j = i
  · subst hj
    rw [Function.update_self] at hy
    exact Option.some.inj hy ▸ hi
  · rw [Function.update_of_ne hj] at hy
    exact h j hj y hy

/-- Some slot has the property, whatever became of slot `i` that keeps it. -/
theorem exists_update {φ : X → Prop} (hi : f i = some x) (hφ : φ x → φ x')
    (h : ∃ j, ∃ y ∈ f j, φ y) : ∃ j, ∃ y ∈ Function.update f i (some x') j, φ y := by
  obtain ⟨j, y, hy, hj⟩ := h
  by_cases hji : j = i
  · subst hji
    obtain rfl : x = y := Option.some.inj (hi.symm.trans hy)
    exact ⟨j, x', Function.update_self .., hφ hj⟩
  · exact ⟨j, y, (Function.update_of_ne hji ..).trans hy, hj⟩

end Update

section Pool

variable {ι Op : Type} [DecidableEq ι] {Res : Op → Type} {ε α G W : Type}
  {sys : System Op Res ε α G W} {c c' : Pool ι Op Res ε α G W}

namespace Pool

/-- The ghost states of the threads. -/
def ghosts (c : Pool ι Op Res ε α G W) (i : ι) : Option G := (c.threads i).map Thread.ghost

/-- Every program has ended. -/
def Ended (c : Pool ι Op Res ε α G W) : Prop := ∀ i, ∀ t ∈ c.threads i, t.rest.ended = true

/-- A value put in a slot, when there is one. -/
def place {X : Type} (f : ι → Option X) (slot : ι) : Option X → ι → Option X
  | none => f
  | some x => Function.update f slot (some x)

/-- The pool after a thread with ghost state `g` performed `o`. -/
def acted (sys : System Op Res ε α G W) (c : Pool ι Op Res ε α G W) (i slot : ι) (g : G) (o : Op)
    (k : Res o → Prog Op Res ε α) : Pool ι Op Res ε α G W where
  threads := place (Function.update c.threads i (some
    ⟨sys.note g o (sys.handle o c.world).1, k (sys.handle o c.world).1⟩)) slot (sys.launch o)
  world := (sys.handle o c.world).2

/-- One step: a thread acts when its operation is enabled, and a thread is put in
a free slot only. -/
def step (sys : System Op Res ε α G W) (c : Pool ι Op Res ε α G W) :
    Event ι Op Res ε α G → Option (Pool ι Op Res ε α G W)
  | .act i slot =>
    match c.threads i with
    | some ⟨g, .op o k⟩ =>
      if sys.enabled c.world o ∧ ((sys.launch o).isNone ∨ (c.threads slot).isNone) then
        some (c.acted sys i slot g o k)
      else none
    | _ => none
  | .enter i t =>
    if (c.threads i).isNone then some { c with threads := Function.update c.threads i (some t) }
    else none

end Pool

/-! ### Runs -/

/-- A condition on steps: on the ghost states, the world, the thread that acts and
its operation. -/
abbrev Cond (ι Op G W : Type) := (ι → Option G) → W → ι → Op → Prop

namespace Pool

/-- The condition on the next step. -/
def Meets (cond : Cond ι Op G W) (c : Pool ι Op Res ε α G W) : Event ι Op Res ε α G → Prop
  | .act i _ =>
    match c.threads i with
    | some ⟨_, .op o _⟩ => cond c.ghosts c.world i o
    | _ => False
  | .enter .. => True

instance (cond : Cond ι Op G W) [∀ γ w i o, Decidable (cond γ w i o)]
    (c : Pool ι Op Res ε α G W) (e : Event ι Op Res ε α G) : Decidable (c.Meets cond e) :=
  match e with
  | .act i _ =>
    match h : c.threads i with
    | some ⟨_, .op o _⟩ => decidable_of_iff (cond c.ghosts c.world i o) (by simp [Meets, h])
    | some ⟨_, .ret _⟩ => isFalse (by simp [Meets, h])
    | some ⟨_, .raise _⟩ => isFalse (by simp [Meets, h])
    | none => isFalse (by simp [Meets, h])
  | .enter .. => isTrue trivial

/-- A sequence of steps that meet a condition. -/
def steps (sys : System Op Res ε α G W) (cond : Cond ι Op G W)
    [∀ γ w i o, Decidable (cond γ w i o)] :
    List (Event ι Op Res ε α G) → Pool ι Op Res ε α G W → Option (Pool ι Op Res ε α G W)
  | [], c => some c
  | e :: es, c => if c.Meets cond e then (c.step sys e).bind (steps sys cond es) else none

end Pool

/-- The steps of a run: threads among `entry` come in, and an operation is
performed only when `cond` allows. -/
inductive Step (sys : System Op Res ε α G W) (entry : Thread Op Res ε α G → Prop)
    (cond : Cond ι Op G W) : Pool ι Op Res ε α G W → Pool ι Op Res ε α G W → Prop
  | act {c c' : Pool ι Op Res ε α G W} {i slot : ι} {g : G} {o : Op} {k : Res o → Prog Op Res ε α}
      (hi : c.threads i = some ⟨g, .op o k⟩) (hcond : cond c.ghosts c.world i o)
      (hstep : c.step sys (.act i slot) = some c') : Step sys entry cond c c'
  | enter {c c' : Pool ι Op Res ε α G W} {i : ι} {t : Thread Op Res ε α G} (ht : entry t)
      (hstep : c.step sys (.enter i t) = some c') : Step sys entry cond c c'

/-- A run, of any length. -/
abbrev Steps (sys : System Op Res ε α G W) (entry : Thread Op Res ε α G → Prop)
    (cond : Cond ι Op G W) : Pool ι Op Res ε α G W → Pool ι Op Res ε α G W → Prop :=
  Relation.ReflTransGen (Step sys entry cond)

variable {entry : Thread Op Res ε α G → Prop} {cond : Cond ι Op G W}

/-- What a step of a thread is. -/
theorem Pool.step_act_eq {i slot : ι} (h : c.step sys (.act i slot) = some c') :
    ∃ g o k, c.threads i = some ⟨g, .op o k⟩ ∧ sys.enabled c.world o = true ∧
      (∀ t, sys.launch o = some t → c.threads slot = none) ∧ c' = c.acted sys i slot g o k := by
  simp only [Pool.step] at h
  split at h
  case h_1 g o k hi =>
    split_ifs at h with hen
    refine ⟨g, o, k, hi, hen.1, fun t ht => ?_, (Option.some.inj h).symm⟩
    rcases hen.2 with hnone | hnone
    · simp [ht] at hnone
    · exact Option.isNone_iff_eq_none.1 hnone
  case h_2 => cases h

/-- Where a thread comes from when another one acted: it was launched, it is the one that
acted, or it was there. -/
theorem Pool.acted_threads {i j slot : ι} {g : G} {o : Op} {k : Res o → Prog Op Res ε α}
    {t : Thread Op Res ε α G} (h : (c.acted sys i slot g o k).threads j = some t) :
    sys.launch o = some t ∨
      j = i ∧ t = ⟨sys.note g o (sys.handle o c.world).1, k (sys.handle o c.world).1⟩ ∨
      j ≠ i ∧ c.threads j = some t := by
  by_cases hlaunch : ∃ t', sys.launch o = some t' ∧ j = slot
  · obtain ⟨t', ht', rfl⟩ := hlaunch
    simp only [Pool.acted, ht', Pool.place, Function.update_self, Option.some.injEq] at h
    exact .inl (h ▸ ht')
  · have h' : Function.update c.threads i (some ⟨sys.note g o (sys.handle o c.world).1,
        k (sys.handle o c.world).1⟩) j = some t := by
      cases hl : sys.launch o with
      | none => simpa only [Pool.acted, hl, Pool.place] using h
      | some t' =>
        have hne : j ≠ slot := fun he => hlaunch ⟨t', hl, he⟩
        simpa only [Pool.acted, hl, Pool.place, Function.update_of_ne hne] using h
    by_cases hij : j = i
    · subst hij
      rw [Function.update_self, Option.some.injEq] at h'
      exact .inr (.inl ⟨rfl, h'.symm⟩)
    · rw [Function.update_of_ne hij] at h'
      exact .inr (.inr ⟨hij, h'⟩)

/-- What a step that lets a thread in is. -/
theorem Pool.step_enter_eq {i : ι} {t : Thread Op Res ε α G}
    (h : c.step sys (.enter i t) = some c') :
    c.threads i = none ∧ c' = { c with threads := Function.update c.threads i (some t) } := by
  simp only [Pool.step] at h
  split_ifs at h with hi
  exact ⟨Option.isNone_iff_eq_none.1 hi, (Option.some.inj h).symm⟩

/-- A sequence of steps that meet a condition is a run. -/
theorem Steps.of_steps [∀ γ w i o, Decidable (cond γ w i o)] {es : List (Event ι Op Res ε α G)}
    (hes : ∀ i t, .enter i t ∈ es → entry t) (h : c.steps sys cond es = some c') :
    Steps sys entry cond c c' := by
  induction es generalizing c with
  | nil =>
    obtain rfl : c = c' := Option.some.inj h
    exact .refl
  | cons e es ih =>
    unfold Pool.steps at h
    split_ifs at h with hmeets
    obtain ⟨c₁, he, hrest⟩ := Option.bind_eq_some_iff.1 h
    refine .head ?_ (ih (fun i t ht => hes i t (List.mem_cons_of_mem _ ht)) hrest)
    cases e with
    | act i slot =>
      obtain ⟨g, o, k, hi, -⟩ := Pool.step_act_eq he
      simp only [Pool.Meets, hi] at hmeets
      exact .act hi hmeets he
    | enter i t => exact .enter (hes i t List.mem_cons_self) he

/-- A run whose steps meet a condition meets whatever follows from it. -/
theorem Steps.mono {cond' : Cond ι Op G W} (hrun : Steps sys entry cond c c')
    (h : ∀ γ w i o, cond γ w i o → cond' γ w i o) : Steps sys entry cond' c c' := by
  refine Relation.ReflTransGen.mono (fun _ _ hstep => ?_) _ _ hrun
  cases hstep with
  | act hi hcond hstep => exact .act hi (h _ _ _ _ hcond) hstep
  | enter ht hstep => exact .enter ht hstep

/-! ### Invariants -/

/-- The operations that `P` allows keep `J`, and so do the threads that come in
or are launched. -/
structure Keeps (sys : System Op Res ε α G W) (entry : Thread Op Res ε α G → Prop)
    (cond : Cond ι Op G W) (A : (o : Op) → Res o → Prop) (P : G → Op → Prop)
    (Q : Except ε α → G → Prop) (J : (ι → Option G) → W → Prop) : Prop where
  act : ∀ γ w i slot g o, J γ w → γ i = some g → P g o → sys.enabled w o = true →
    cond γ w i o → (∀ t, sys.launch o = some t → γ slot = none) →
    A o (sys.handle o w).1 ∧
      J (Pool.place (Function.update γ i (some (sys.note g o (sys.handle o w).1))) slot
        ((sys.launch o).map Thread.ghost)) (sys.handle o w).2
  launched : ∀ o t, sys.launch o = some t → wp sys.note A P t.rest Q t.ghost
  enter : ∀ γ w i t, J γ w → γ i = none → entry t → J (Function.update γ i (some t.ghost)) w
  entered : ∀ t, entry t → wp sys.note A P t.rest Q t.ghost

/-- What holds throughout a run: every thread does from here on what `wp` says,
and the ghost states and the world satisfy `J`. -/
structure Sound (sys : System Op Res ε α G W) (A : (o : Op) → Res o → Prop) (P : G → Op → Prop)
    (Q : Except ε α → G → Prop) (J : (ι → Option G) → W → Prop) (c : Pool ι Op Res ε α G W) :
    Prop where
  threads : ∀ i t, c.threads i = some t → wp sys.note A P t.rest Q t.ghost
  world : J c.ghosts c.world

variable {A : (o : Op) → Res o → Prop} {P : G → Op → Prop} {Q : Except ε α → G → Prop}
  {J : (ι → Option G) → W → Prop}

theorem Pool.map_place {X Y : Type} (f : X → Y) (s : ι → Option X) (slot : ι) (x : Option X) :
    (fun i => (Pool.place s slot x i).map f) = Pool.place (fun i => (s i).map f) slot (x.map f) := by
  cases x with
  | none => rfl
  | some x =>
    funext i
    by_cases hi : i = slot
    · subst hi
      simp [Pool.place]
    · simp [Pool.place, hi]

theorem Pool.map_update {X Y : Type} (f : X → Y) (s : ι → Option X) (i : ι) (x : X) :
    (fun j => (Function.update s i (some x) j).map f) =
      Function.update (fun j => (s j).map f) i (some (f x)) :=
  Pool.map_place f s i (some x)

/-- One step keeps what holds throughout a run. -/
theorem Step.sound (hkeeps : Keeps sys entry cond A P Q J) (h : Step sys entry cond c c')
    (hc : Sound sys A P Q J c) : Sound sys A P Q J c' := by
  cases h with
  | @act i slot g o k hi hcond hstep =>
    obtain ⟨g', o', k', hi', hen, hslot, rfl⟩ := Pool.step_act_eq hstep
    rw [hi] at hi'
    cases hi'
    have hP := hc.threads i _ hi
    have hγ : c.ghosts i = some g := by rw [Pool.ghosts, hi]; rfl
    obtain ⟨hA, hJ⟩ := hkeeps.act c.ghosts c.world i slot g o hc.world hγ hP.1 hen hcond
      fun t ht => by rw [Pool.ghosts, hslot t ht]; rfl
    refine ⟨fun j t hj => ?_, ?_⟩
    · rcases Pool.acted_threads hj with hl | ⟨-, rfl⟩ | ⟨-, hj'⟩
      · exact hkeeps.launched o t hl
      · exact hP.2 _ hA
      · exact hc.threads j t hj'
    · have hghosts : (c.acted sys i slot g o k).ghosts = Pool.place (Function.update c.ghosts i
          (some (sys.note g o (sys.handle o c.world).1))) slot
            ((sys.launch o).map Thread.ghost) :=
        (Pool.map_place Thread.ghost _ slot (sys.launch o)).trans
          (congrArg (fun f => Pool.place f slot ((sys.launch o).map Thread.ghost))
            (Pool.map_update Thread.ghost c.threads i _))
      rw [hghosts]
      exact hJ
  | @enter i t ht hstep =>
    obtain ⟨hi, rfl⟩ := Pool.step_enter_eq hstep
    refine ⟨fun j t' hj => ?_, ?_⟩
    · change Function.update c.threads i (some t) j = some t' at hj
      by_cases hij : j = i
      · subst hij
        rw [Function.update_self, Option.some.injEq] at hj
        exact hj ▸ hkeeps.entered t ht
      · rw [Function.update_of_ne hij] at hj
        exact hc.threads j t' hj
    · have hghosts : Pool.ghosts { c with threads := Function.update c.threads i (some t) } =
          Function.update c.ghosts i (some t.ghost) := Pool.map_update Thread.ghost c.threads i t
      rw [hghosts]
      exact hkeeps.enter c.ghosts c.world i t hc.world (by rw [Pool.ghosts, hi]; rfl) ht

/-- **The rule for invariants of runs.** -/
theorem Steps.sound (hkeeps : Keeps sys entry cond A P Q J) (h : Steps sys entry cond c c')
    (hc : Sound sys A P Q J c) : Sound sys A P Q J c' := by
  induction h with
  | refl => exact hc
  | tail _ hstep ih => exact hstep.sound hkeeps ih

end Pool

end Interact
end ChordInfra
