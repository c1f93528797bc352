/-
# Triples of programs that run alone

`Ends H J p K`: on every world in `J` the program, run alone, ends with a value, and the
value and the world that it leaves are in `K`.  Unlike `Interact.Triple` it is about what
the operations do (`H`), so it says what a program that runs alone achieves, and not only
what it refrains from.

`Ends.call` and `Ends.expand` take an operation that is a program as one step, so that the
parts of a program are dealt with one by one.  `Serially` is about many programs, one
after the other.
-/

import ChordInfra.Interact.Prog
import Mathlib.Logic.Relation

namespace ChordInfra
namespace Interact

open Prog

variable {Op : Type} {Res : Op → Type} {ε α β X W : Type}

/-- From a world in `J` the program ends with a value, in `K` with the world it leaves. -/
structure Ends (H : (o : Op) → W → Res o × W) (J : W → Prop) (p : Prog Op Res ε α)
    (K : α → W → Prop) : Prop where
  holds : ∀ w, J w → ∃ a w', exec H p w = (.ok a, w') ∧ K a w'

namespace Ends

variable {H : (o : Op) → W → Res o × W} {J J' : W → Prop} {p : Prog Op Res ε α}
  {K K' : α → W → Prop} {L : β → W → Prop}

theorem pure {a : α} (h : ∀ w, J w → K a w) : Ends H J (pure a : Prog Op Res ε α) K :=
  ⟨fun w hw => ⟨a, w, rfl, h w hw⟩⟩

theorem perform {o : Op} {K : Res o → W → Prop} (h : ∀ w, J w → K (H o w).1 (H o w).2) :
    Ends H J (Prog.perform o : Prog Op Res ε (Res o)) K :=
  ⟨fun w hw => ⟨_, _, rfl, h w hw⟩⟩

theorem bind {f : α → Prog Op Res ε β} (hp : Ends H J p K) (hf : ∀ a, Ends H (K a) (f a) L) :
    Ends H J (p >>= f) L := by
  refine ⟨fun w hw => ?_⟩
  obtain ⟨a, w₁, hrun, hK⟩ := hp.holds w hw
  rw [exec_bind_ok hrun]
  exact (hf a).holds w₁ hK

theorem mono (hp : Ends H J p K) (h : ∀ a w, K a w → K' a w) : Ends H J p K' := by
  refine ⟨fun w hw => ?_⟩
  obtain ⟨a, w', hrun, hK⟩ := hp.holds w hw
  exact ⟨a, w', hrun, h a w' hK⟩

theorem pre (hp : Ends H J p K) (h : ∀ w, J' w → J w) : Ends H J' p K :=
  ⟨fun w hw => hp.holds w (h w hw)⟩

/-- A `try` around a program that does not raise. -/
theorem attempt (hp : Ends H J p K) :
    Ends H J (attempt p) fun x w => ∃ a, x = .ok a ∧ K a w := by
  refine ⟨fun w hw => ?_⟩
  obtain ⟨a, w', hrun, hK⟩ := hp.holds w hw
  refine ⟨.ok a, w', ?_, a, rfl, hK⟩
  rw [exec_attempt, hrun]

/-- A part of the assertion that does not speak about the world. -/
theorem assuming {c : Prop} (hp : c → Ends H J p K) : Ends H (fun w => c ∧ J w) p K :=
  ⟨fun w hw => (hp hw.1).holds w hw.2⟩

theorem ite {c : Prop} [Decidable c] {q : Prog Op Res ε α} (hp : c → Ends H J p K)
    (hq : ¬c → Ends H J q K) : Ends H J (if c then p else q) K := by
  by_cases h : c
  · rw [if_pos h]
    exact hp h
  · rw [if_neg h]
    exact hq h

/-- The invariant of a loop. -/
theorem each {f : X → Prog Op Res ε Unit} {l : List X}
    (h : ∀ x ∈ l, Ends H J (f x) fun _ => J) : Ends H J (each f l) fun _ => J := by
  induction l with
  | nil => exact ⟨fun w hw => ⟨(), w, rfl, hw⟩⟩
  | cons x l ih =>
    exact bind (h x List.mem_cons_self) fun _ => ih fun y hy => h y (List.mem_cons_of_mem _ hy)

/-- The invariant of a loop that speaks of the elements still to come. -/
theorem each_rest {f : X → Prog Op Res ε Unit} {J : List X → W → Prop}
    (h : ∀ x l, Ends H (J (x :: l)) (f x) fun _ => J l) (l : List X) :
    Ends H (J l) (Prog.each f l) fun _ => J [] := by
  induction l with
  | nil => exact ⟨fun w hw => ⟨(), w, rfl, hw⟩⟩
  | cons x l ih => exact bind (h x l) fun _ => ih

/-- A loop that, at one of the elements, gets from its invariant to another one. -/
theorem each_of_mem {f : X → Prog Op Res ε Unit} {l : List X} {x : X} (hx : x ∈ l)
    (h : ∀ y ∈ l, Ends H J (f y) fun _ w => J w ∨ J' w)
    (h' : ∀ y ∈ l, Ends H J' (f y) fun _ => J') (hturn : Ends H J (f x) fun _ => J') :
    Ends H J (Prog.each f l) fun _ => J' := by
  induction l with
  | nil => cases hx
  | cons y l ih =>
    have hrest : Ends H J' (Prog.each f l) fun _ => J' :=
      each fun z hz => h' z (List.mem_cons_of_mem _ hz)
    rcases List.mem_cons.1 hx with rfl | hmem
    · exact bind hturn fun _ => hrest
    · refine bind (h y List.mem_cons_self) fun _ => ⟨fun w hw => hw.elim (fun hJ => ?_) ?_⟩
      · exact (ih hmem (fun z hz => h z (List.mem_cons_of_mem _ hz))
          fun z hz => h' z (List.mem_cons_of_mem _ hz)).holds w hJ
      · exact hrest.holds w

section Expand

variable {Op' : Type} {Val : Op' → Type} {program : (o : Op') → Prog Op Res ε (Val o)}

/-- A step that is a program. -/
theorem call {o : Op'} {K : Val o → W → Prop} (h : Ends H J (program o) K) :
    Ends (fun o w => exec H (program o) w) J (Prog.call o) K := by
  refine ⟨fun w hw => ?_⟩
  obtain ⟨a, w', hrun, hK⟩ := h.holds w hw
  refine ⟨a, w', ?_, hK⟩
  unfold Prog.call
  rw [exec_op, hrun]
  rfl

/-- **From the coarse grain to the fine one.** -/
theorem expand {q : Prog Op' (fun o => Except ε (Val o)) ε α}
    (h : Ends (fun o w => exec H (program o) w) J q K) : Ends H J (expand program q) K := by
  refine ⟨fun w hw => ?_⟩
  rw [exec_expand]
  exact h.holds w hw

end Expand

end Ends

/-! ### One program after the other -/

/-- A sequence of programs, each run to its end on the world that the one before left;
`allowed` says which may be run on a world. -/
abbrev Serially (H : (o : Op) → W → Res o × W) (allowed : W → Prog Op Res ε α → Prop) :
    W → W → Prop :=
  Relation.ReflTransGen fun w w' => ∃ p, allowed w p ∧ (exec H p w).2 = w'

/-- The rule for invariants of such sequences. -/
theorem Serially.keeps {H : (o : Op) → W → Res o × W} {allowed : W → Prog Op Res ε α → Prop}
    {J : W → Prop} {w w' : W} (hrun : Serially H allowed w w')
    (h : ∀ w p, J w → allowed w p → J (exec H p w).2) (hw : J w) : J w' := by
  induction hrun with
  | refl => exact hw
  | tail _ hstep ih =>
    obtain ⟨p, hp, rfl⟩ := hstep
    exact h _ p ih hp

end Interact
end ChordInfra
