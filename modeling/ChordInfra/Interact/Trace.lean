/-
# Events one after the other

A machine takes events one after the other, and an event that cannot happen in
a state has no step there.  `Along.invariant` is the rule for what holds all
along a run whose steps meet a condition, and `Along.of_not_passes` makes such a
condition of what the run never comes to.
-/

import Mathlib.Data.List.Induction

namespace ChordInfra
namespace Interact
namespace Trace

section Definitions

variable {S E : Type} (step : S → E → Option S)

/-- The state after the events, if each of them can happen. -/
def run : List E → S → Option S
  | [], s => some s
  | e :: es, s => (step s e).bind (run es)

/-- The events lead through a state with `P`, the first one included. -/
def Passes (P : S → Prop) (s : S) (es : List E) : Prop :=
  ∃ pre s', pre <+: es ∧ run step pre s = some s' ∧ P s'

/-- Every step of the events meets the condition. -/
def Along (C : S → E → S → Prop) (s : S) (es : List E) : Prop :=
  ∀ pre e post s₁ s₂, es = pre ++ e :: post → run step pre s = some s₁ → step s₁ e = some s₂ →
    C s₁ e s₂

end Definitions

variable {S E : Type} {step : S → E → Option S} {C C' : S → E → S → Prop} {P : S → Prop}
  {s s' s₁ s₂ : S} {e : E} {es es' : List E}

theorem run_append (es es' : List E) (s : S) :
    run step (es ++ es') s = (run step es s).bind (run step es') := by
  induction es generalizing s with
  | nil => rfl
  | cons e es ih =>
    simp only [List.cons_append, run, Option.bind_assoc]
    exact congrArg _ (funext ih)

theorem run_append_eq_some : run step (es ++ es') s = some s' ↔
    ∃ s₁, run step es s = some s₁ ∧ run step es' s₁ = some s' := by
  rw [run_append, Option.bind_eq_some_iff]

theorem run_cons_eq_some : run step (e :: es) s = some s' ↔
    ∃ s₁, step s e = some s₁ ∧ run step es s₁ = some s' := Option.bind_eq_some_iff

theorem run_concat_eq_some : run step (es ++ [e]) s = some s' ↔
    ∃ s₁, run step es s = some s₁ ∧ step s₁ e = some s' := by
  rw [run_append_eq_some]
  refine exists_congr fun s₁ => and_congr_right fun _ => ?_
  rw [run_cons_eq_some]
  exact ⟨by rintro ⟨s₂, he, ⟨⟩⟩; exact he, fun he => ⟨s', he, rfl⟩⟩

namespace Along

theorem left (h : Along step C s (es ++ es')) : Along step C s es := by
  rintro pre e post s₁ s₂ rfl hpre he
  exact h pre e (post ++ es') s₁ s₂ (by simp) hpre he

theorem right (h : Along step C s (es ++ es')) (hes : run step es s = some s₁) :
    Along step C s₁ es' := by
  rintro pre e post s₂ s₃ rfl hpre he
  exact h (es ++ pre) e post s₂ s₃ (by simp) (run_append_eq_some.2 ⟨s₁, hes, hpre⟩) he

theorem tail (h : Along step C s (e :: es)) (he : step s e = some s₁) : Along step C s₁ es := by
  rintro pre e' post s₂ s₃ rfl hpre he'
  exact h (e :: pre) e' post s₂ s₃ rfl (run_cons_eq_some.2 ⟨s₁, he, hpre⟩) he'

theorem and (h : Along step C s es) (h' : Along step C' s es) :
    Along step (fun s₁ e s₂ => C s₁ e s₂ ∧ C' s₁ e s₂) s es :=
  fun pre e post s₁ s₂ hes hpre he =>
    ⟨h pre e post s₁ s₂ hes hpre he, h' pre e post s₁ s₂ hes hpre he⟩

/-- A condition on the events alone. -/
theorem of_forall {φ : E → Prop} (h : ∀ e ∈ es, φ e) (hC : ∀ s₁ e s₂, φ e → C s₁ e s₂) :
    Along step C s es := by
  rintro pre e post s₁ s₂ rfl - -
  exact hC s₁ e s₂ (h e (by simp))

/-- What a run never comes to is in no state before or after its steps. -/
theorem of_not_passes (h : ¬Passes step P s es) :
    Along step (fun s₁ _ s₂ => ¬P s₁ ∧ ¬P s₂) s es := by
  rintro pre e post s₁ s₂ rfl hpre he
  refine ⟨fun hP => h ⟨pre, s₁, List.prefix_append _ _, hpre, hP⟩, fun hP => h ?_⟩
  refine ⟨pre ++ [e], s₂, ?_, run_concat_eq_some.2 ⟨s₁, hpre, he⟩, hP⟩
  exact ⟨post, (List.append_cons ..).symm⟩

/-- **The rule for invariants of runs.**  What the steps that meet the condition keep holds
after the events. -/
theorem invariant {I : S → Prop} (halong : Along step C s es)
    (hstep : ∀ s₁ e s₂, I s₁ → step s₁ e = some s₂ → C s₁ e s₂ → I s₂) (h : I s)
    (hrun : run step es s = some s') : I s' := by
  induction es using List.reverseRecOn generalizing s' with
  | nil =>
    obtain rfl := Option.some.inj hrun
    exact h
  | append_singleton es e ih =>
    obtain ⟨s₁, hes, he⟩ := run_concat_eq_some.1 hrun
    exact hstep s₁ e s' (ih halong.left hes) he (halong es e [] s₁ s' rfl hes he)

/-- An invariant rules out whatever contradicts it. -/
theorem not_passes {I : S → Prop} (halong : Along step C s es)
    (hstep : ∀ s₁ e s₂, I s₁ → step s₁ e = some s₂ → C s₁ e s₂ → I s₂) (h : I s)
    (hP : ∀ s, I s → ¬P s) : ¬Passes step P s es := by
  rintro ⟨pre, s', ⟨post, rfl⟩, hpre, hs'⟩
  exact hP s' (halong.left.invariant hstep h hpre) hs'

end Along

end Trace
end Interact
end ChordInfra
