/-
# Triples

`Does A P p Q`: the program performs only operations in `P`, and what it ends with, when
it ends with a value, is in `Q`, for all answers that `A` grants.  It is `Prog.wp` with
nothing noted, which is enough wherever what is kept is a property of the world alone;
`Does.exec` is its soundness for a program run alone.

`Does.expand` goes from the steps of a program whose operations are programs to the
steps of these.

`Traced` is `Prog.wp` under a name, with its rules; `Under` is a triple whose program keeps an
invariant of a ghost state.  `Does.recall` says of a program that what it ends with was shown to it.
`Does.stays` is for a program that keeps its world in a set, by what the worlds of the set answer.
-/

import ChordInfra.Interact.Prog

namespace ChordInfra
namespace Interact

open Prog

variable {Op : Type} {Res : Op → Type} {ε α β X : Type}

/-- What a program performs, and what it ends with. -/
structure Does (A : (o : Op) → Res o → Prop) (P : Op → Prop) (p : Prog Op Res ε α)
    (Q : α → Prop) : Prop where
  holds : wp (fun (_ : Unit) _ _ => ()) A (fun _ o => P o) p (fun x _ => ∀ a, x = .ok a → Q a) ()

namespace Does

variable {A : (o : Op) → Res o → Prop} {P P' : Op → Prop} {p : Prog Op Res ε α} {Q R : α → Prop}
  {S : β → Prop}

theorem pure {a : α} (h : Q a) : Does A P (pure a : Prog Op Res ε α) Q := by
  refine ⟨fun b hb => ?_⟩
  cases hb
  exact h

theorem raise (e : ε) : Does A P (Prog.raise e : Prog Op Res ε α) Q :=
  ⟨fun _ h => (by cases h)⟩

theorem perform {o : Op} {Q : Res o → Prop} (hP : P o) (hQ : ∀ r, A o r → Q r) :
    Does A P (perform o : Prog Op Res ε (Res o)) Q := by
  refine ⟨hP, fun r hr a ha => ?_⟩
  cases ha
  exact hQ r hr

/-- An operation of whose answer nothing is asked. -/
theorem step {o : Op} (hP : P o) : Does A P (Prog.perform o : Prog Op Res ε (Res o)) fun _ => True :=
  perform hP fun _ _ => trivial

theorem bind {f : α → Prog Op Res ε β} (hp : Does A P p R) (hf : ∀ a, R a → Does A P (f a) S) :
    Does A P (p >>= f) S := by
  refine ⟨wp_bind.2 (wp_mono (fun x _ hx => ?_) hp.holds)⟩
  cases x with
  | ok a => exact (hf a (hx a rfl)).holds
  | error e => exact fun _ h => (by cases h)

theorem mono (hp : Does A P p R) (h : ∀ a, R a → Q a) : Does A P p Q :=
  ⟨wp_mono (fun _ _ hx a ha => h a (hx a ha)) hp.holds⟩

theorem attempt (hp : Does A P p Q) : Does A P (attempt p) fun x => ∀ a, x = .ok a → Q a := by
  refine ⟨wp_attempt.2 (wp_mono (fun x _ hx y hy => ?_) hp.holds)⟩
  cases hy
  exact hx

theorem ite {c : Prop} [Decidable c] {q : Prog Op Res ε α} (hp : c → Does A P p Q)
    (hq : ¬c → Does A P q Q) : Does A P (if c then p else q) Q := by
  by_cases h : c
  · rw [if_pos h]
    exact hp h
  · rw [if_neg h]
    exact hq h

/-- A property of the elements is one of the steps of the loop. -/
theorem each {f : X → Prog Op Res ε Unit} {l : List X}
    (h : ∀ x ∈ l, Does A P (f x) fun _ => True) : Does A P (each f l) fun _ => True := by
  induction l with
  | nil => exact pure trivial
  | cons x l ih =>
    exact bind (h x List.mem_cons_self) fun _ _ => ih fun y hy => h y (List.mem_cons_of_mem _ hy)

section Expand

variable {Op' : Type} {Val : Op' → Type} {program : (o : Op') → Prog Op Res ε (Val o)}
  {pre : Op' → Prop} {post : (o : Op') → Val o → Prop}

/-- An operation that is a program. -/
theorem call {o : Op'} {Q : Val o → Prop} (hpre : pre o) (h : ∀ a, post o a → Q a) :
    Does (fun o (x : Except ε (Val o)) => ∀ a, x = .ok a → post o a) pre (call o) Q := by
  refine ⟨hpre, fun x hx => ?_⟩
  cases x with
  | ok a =>
    intro b hb
    cases hb
    exact h a (hx a rfl)
  | error e => exact fun _ h => (by cases h)

/-- An operation that is a program, of whose end nothing is asked. -/
theorem invoke {A : (o : Op') → Except ε (Val o) → Prop} {o : Op'} (hpre : pre o) :
    Does A pre (Prog.call o : Prog Op' (fun o => Except ε (Val o)) ε (Val o)) fun _ => True := by
  refine ⟨hpre, fun x _ => ?_⟩
  cases x <;> exact fun _ _ => trivial

variable (pre post) in
/-- **From the coarse grain to the fine one.** -/
theorem expand {q : Prog Op' (fun o => Except ε (Val o)) ε α}
    (hprogram : ∀ o, pre o → Does A P (program o) (post o))
    (hq : Does (fun o (x : Except ε (Val o)) => ∀ a, x = .ok a → post o a) pre q Q) :
    Does A P (expand program q) Q := by
  obtain ⟨hq⟩ := hq
  induction q with
  | ret a => exact ⟨hq⟩
  | raise e => exact ⟨hq⟩
  | op o k ih => exact (hprogram o hq.1).attempt.bind fun x hx => ih x (hq.2 x hx)

end Expand

/-- **A program run alone does what the triple says.**  Every operation in `P` keeps
`J` and is answered as `A` grants. -/
theorem exec {W : Type} {handle : (o : Op) → W → Res o × W} {J : W → Prop}
    (hJ : ∀ w o, J w → P o → A o (handle o w).1 ∧ J (handle o w).2) (hp : Does A P p Q) {w : W}
    (hw : J w) : J (Prog.exec handle p w).2 ∧ ∀ a, (Prog.exec handle p w).1 = .ok a → Q a := by
  obtain ⟨_, hQ, hJ'⟩ := exec_wp (J := fun _ w => J w) (fun _ w o => hJ w o) hp.holds hw
  exact ⟨hJ', hQ⟩

/-- More operations may be performed. -/
theorem allow (h : ∀ o, P o → P' o) (hp : Does A P p Q) : Does A P' p Q := by
  obtain ⟨hp⟩ := hp
  refine ⟨?_⟩
  induction p with
  | ret a => exact hp
  | raise e => exact hp
  | op o k ih => exact ⟨h o hp.1, fun r hr => ih r (hp.2 r hr)⟩

/-- Where nothing is forbidden and nothing asked. -/
theorem any (p : Prog Op Res ε α) : Does A (fun _ => True) p fun _ => True := by
  refine ⟨?_⟩
  induction p with
  | ret a => exact fun _ _ => trivial
  | raise e => exact fun _ _ => trivial
  | op o k ih => exact ⟨trivial, fun r _ => ih r⟩

/-- What two triples say at once. -/
theorem and {A' : (o : Op) → Res o → Prop} (hp : Does A P p Q) (hp' : Does A' P' p fun _ => True) :
    Does (fun o r => A o r ∧ A' o r) (fun o => P o ∧ P' o) p Q := by
  obtain ⟨hp⟩ := hp
  obtain ⟨hp'⟩ := hp'
  refine ⟨?_⟩
  induction p with
  | ret a => exact hp
  | raise e => exact hp
  | op o k ih => exact ⟨⟨hp.1, hp'.1⟩, fun r hr => ih r (hp.2 r hr.1) (hp'.2 r hr.2)⟩

end Does

/-! ### Triples with a ghost state -/

/-- What a program performs and ends with, started with a ghost state. -/
structure Traced {G : Type} (note : G → (o : Op) → Res o → G) (A : (o : Op) → Res o → Prop)
    (P : G → Op → Prop) (p : Prog Op Res ε α) (T : Except ε α → G → Prop) (g : G) : Prop where
  holds : wp note A P p T g

namespace Traced

variable {G : Type} {note : G → (o : Op) → Res o → G} {A A' : (o : Op) → Res o → Prop}
  {P : G → Op → Prop} {P' : Op → Prop} {p : Prog Op Res ε α} {T T' : Except ε α → G → Prop}
  {U : Except ε β → G → Prop} {Q : α → Prop} {g : G}

theorem mono (hp : Traced note A P p T g) (h : ∀ x g, T x g → T' x g) : Traced note A P p T' g :=
  ⟨wp_mono h hp.holds⟩

theorem bind {f : α → Prog Op Res ε β} (hp : Traced note A P p T g)
    (hf : ∀ a g', T (.ok a) g' → Traced note A P (f a) U g')
    (herror : ∀ e g', T (.error e) g' → U (.error e) g') : Traced note A P (p >>= f) U g := by
  refine ⟨wp_bind.2 (wp_mono (fun x g' hx => ?_) hp.holds)⟩
  cases x with
  | ok a => exact (hf a g' hx).holds
  | error e => exact herror e g' hx

/-- A program that is tried, and what follows. -/
theorem attempt {f : Except ε α → Prog Op Res ε β} (hp : Traced note A P p T g)
    (hf : ∀ x g', T x g' → Traced note A P (f x) U g') :
    Traced note A P (Prog.attempt p >>= f) U g :=
  ⟨wp_bind.2 (wp_attempt.2 (wp_mono (fun x g' hx => (hf x g' hx).holds) hp.holds))⟩

/-- One operation, and what follows. -/
theorem act {o : Op} {f : Res o → Prog Op Res ε α} (hP : P g o)
    (hf : ∀ r, A o r → Traced note A P (f r) T (note g o r)) :
    Traced note A P (perform o >>= f) T g :=
  ⟨wp_perform_bind.2 ⟨hP, fun r hr => (hf r hr).holds⟩⟩

/-- What a triple says as well, of answers of which no more is asked. -/
theorem and_does (hA : ∀ o r, A o r → A' o r) (hdoes : Does A' P' p Q)
    (hp : Traced note A P p T g) :
    Traced note A P p (fun x g' => T x g' ∧ ∀ a, x = .ok a → Q a) g := by
  obtain ⟨hdoes⟩ := hdoes
  obtain ⟨hp⟩ := hp
  refine ⟨?_⟩
  induction p generalizing g with
  | ret a => exact ⟨hp, hdoes⟩
  | raise e => exact ⟨hp, hdoes⟩
  | op o k ih => exact ⟨hp.1, fun r hr => ih r (hdoes.2 r (hA o r hr)) (hp.2 r hr)⟩

end Traced

section Recall

variable {G S : Type} {note : G → (o : Op) → Res o → G} {A : (o : Op) → Res o → Prop}
  {P : G → Op → Prop} {P' : Op → Prop} {I : G → Prop} {p : Prog Op Res ε α}
  (shown : (o : Op) → Res o → S → Prop) (seen : G → S → Prop) (Q : (S → Prop) → α → Prop) {g : G}

/-- **What a program ends with was shown to it.**  A triple that holds for every property of what
is shown holds of having been shown, where the ghost state remembers it. -/
theorem Does.recall (hI : ∀ g o, I g → P' o → P g o ∧ ∀ r, A o r →
      I (note g o r) ∧ ∀ x, seen g x ∨ shown o r x → seen (note g o r) x) (hg : I g)
    (hp : ∀ φ : S → Prop, (∀ x, seen g x → φ x) →
      Does (fun o r => ∀ x, shown o r x → φ x) P' p (Q φ)) :
    Traced note A P p (fun x g' => I g' ∧ ∀ a, x = .ok a → Q (seen g') a) g := by
  induction p generalizing g with
  | ret a =>
    obtain ⟨h⟩ := hp (seen g) fun _ h => h
    exact ⟨hg, h⟩
  | raise e => exact ⟨hg, fun a h => (by cases h)⟩
  | op o k ih =>
    obtain ⟨ho, -⟩ := (hp (fun _ => True) fun _ _ => trivial).holds
    obtain ⟨hP, hnote⟩ := hI g o hg ho
    refine ⟨hP, fun r hr => ?_⟩
    obtain ⟨hg', hseen⟩ := hnote r hr
    refine (ih r hg' fun φ hφ => ⟨?_⟩).holds
    exact (hp φ fun x hx => hφ x (hseen x (.inl hx))).holds.2 r
      fun x hx => hφ x (hseen x (.inr hx))

end Recall

/-- A program keeps `I` of its ghost state, and what it ends with, when it ends with a value, is
in `Q`. -/
structure Under {G : Type} (note : G → (o : Op) → Res o → G) (A : (o : Op) → Res o → Prop)
    (P : G → Op → Prop) (I : G → Prop) (p : Prog Op Res ε α) (Q : α → Prop) : Prop where
  holds : ∀ g, I g → wp note A P p (fun x g' => I g' ∧ ∀ a, x = .ok a → Q a) g

section Under

variable {G : Type} {note : G → (o : Op) → Res o → G} {A : (o : Op) → Res o → Prop}
  {P : G → Op → Prop} {P' : Op → Prop} {I : G → Prop} {p : Prog Op Res ε α} {Q R : α → Prop}
  {S : β → Prop}

/-- Where every operation that the program performs keeps the invariant. -/
theorem Does.under (hp : Does A P' p Q)
    (hI : ∀ g o, I g → P' o → P g o ∧ ∀ r, A o r → I (note g o r)) : Under note A P I p Q := by
  obtain ⟨hp⟩ := hp
  refine ⟨fun g hg => ?_⟩
  induction p generalizing g with
  | ret a => exact ⟨hg, hp⟩
  | raise e => exact ⟨hg, hp⟩
  | op o k ih =>
    obtain ⟨hP, hnote⟩ := hI g o hg hp.1
    exact ⟨hP, fun r hr => ih r (hp.2 r hr) _ (hnote r hr)⟩

/-- What a triple says, together with what `wp` does. -/
theorem Does.wp_and {A' : (o : Op) → Res o → Prop} {T : Except ε α → G → Prop} {g : G}
    (hp : Does A' P' p Q) (hA : ∀ o r, A o r → A' o r) (h : wp note A P p T g) :
    wp note A (fun g o => P g o ∧ P' o) p T g := by
  obtain ⟨hp⟩ := hp
  induction p generalizing g with
  | ret a => exact h
  | raise e => exact h
  | op o k ih => exact ⟨⟨h.1, hp.1⟩, fun r hr => ih r (h.2 r hr) (hp.2 r (hA o r hr))⟩

namespace Under

/-- Started with one of the ghost states. -/
theorem traced {g : G} (hp : Under note A P I p Q) (hg : I g) :
    Traced note A P p (fun x g' => I g' ∧ ∀ a, x = .ok a → Q a) g :=
  ⟨hp.holds g hg⟩

theorem of_traced (h : ∀ g, I g → Traced note A P p (fun _ g' => I g') g) :
    Under note A P I p fun _ => True :=
  ⟨fun g hg => wp_mono (fun _ _ hx => ⟨hx, fun _ _ => trivial⟩) (h g hg).holds⟩

theorem pure {a : α} (h : Q a) : Under note A P I (pure a : Prog Op Res ε α) Q := by
  refine ⟨fun g hg => ⟨hg, fun b hb => ?_⟩⟩
  cases hb
  exact h

theorem bind {f : α → Prog Op Res ε β} (hp : Under note A P I p R)
    (hf : ∀ a, R a → Under note A P I (f a) S) : Under note A P I (p >>= f) S := by
  refine ⟨fun g hg => wp_bind.2 (wp_mono (fun x g' hx => ?_) (hp.holds g hg))⟩
  cases x with
  | ok a => exact (hf a (hx.2 a rfl)).holds g' hx.1
  | error e => exact ⟨hx.1, fun _ h => (by cases h)⟩

theorem mono (hp : Under note A P I p R) (h : ∀ a, R a → Q a) : Under note A P I p Q :=
  ⟨fun g hg => wp_mono (fun _ _ hx => ⟨hx.1, fun a ha => h a (hx.2 a ha)⟩) (hp.holds g hg)⟩

theorem attempt (hp : Under note A P I p Q) :
    Under note A P I (attempt p) fun x => ∀ a, x = .ok a → Q a := by
  refine ⟨fun g hg => wp_attempt.2 (wp_mono (fun x g' hx => ⟨hx.1, fun y hy => ?_⟩) (hp.holds g hg))⟩
  cases hy
  exact hx.2

theorem ite {c : Prop} [Decidable c] {q : Prog Op Res ε α} (hp : c → Under note A P I p Q)
    (hq : ¬c → Under note A P I q Q) : Under note A P I (if c then p else q) Q := by
  by_cases h : c
  · rw [if_pos h]
    exact hp h
  · rw [if_neg h]
    exact hq h

/-- One operation that keeps the invariant. -/
theorem perform {o : Op} (h : ∀ g, I g → P g o ∧ ∀ r, A o r → I (note g o r)) :
    Under note A P I (perform o : Prog Op Res ε (Res o)) fun _ => True := by
  refine ⟨fun g hg => ?_⟩
  obtain ⟨hP, hI⟩ := h g hg
  exact ⟨hP, fun r hr => ⟨hI r hr, fun _ _ => trivial⟩⟩

/-- The invariant of a loop. -/
theorem each {f : X → Prog Op Res ε Unit} {l : List X}
    (h : ∀ x ∈ l, Under note A P I (f x) fun _ => True) :
    Under note A P I (each f l) fun _ => True := by
  induction l with
  | nil => exact pure trivial
  | cons x l ih =>
    exact bind (h x List.mem_cons_self) fun _ _ => ih fun y hy => h y (List.mem_cons_of_mem _ hy)

/-- **From the coarse grain to the fine one**, where every operation of the coarse grain keeps the
invariant. -/
theorem expand {Op' : Type} {Val : Op' → Type} {program : (o : Op') → Prog Op Res ε (Val o)}
    (pre : Op' → Prop) (post : (o : Op') → Val o → Prop)
    {q : Prog Op' (fun o => Except ε (Val o)) ε α}
    (hprogram : ∀ o, pre o → Under note A P I (program o) (post o))
    (hq : Does (fun o (x : Except ε (Val o)) => ∀ a, x = .ok a → post o a) pre q Q) :
    Under note A P I (expand program q) Q := by
  obtain ⟨hq⟩ := hq
  induction q with
  | ret a => exact ⟨fun g hg => ⟨hg, hq⟩⟩
  | raise e => exact ⟨fun g hg => ⟨hg, hq⟩⟩
  | op o k ih => exact (hprogram o hq.1).attempt.bind fun x hx => ih x (hq.2 x hx)

end Under

end Under

/-- What a program performs that ends with a value, and with which. -/
structure Gives (A : (o : Op) → Res o → Prop) (P : Op → Prop) (p : Prog Op Res ε α)
    (Q : α → Prop) : Prop where
  holds : wp (fun (_ : Unit) _ _ => ()) A (fun _ o => P o) p (fun x _ => ∃ a, x = .ok a ∧ Q a) ()

namespace Gives

variable {A : (o : Op) → Res o → Prop} {P : Op → Prop} {p : Prog Op Res ε α} {Q R : α → Prop}
  {S : β → Prop}

theorem pure {a : α} (h : Q a) : Gives A P (pure a : Prog Op Res ε α) Q := ⟨⟨a, rfl, h⟩⟩

theorem perform {o : Op} {Q : Res o → Prop} (hP : P o) (hQ : ∀ r, A o r → Q r) :
    Gives A P (Prog.perform o : Prog Op Res ε (Res o)) Q :=
  ⟨hP, fun r hr => ⟨r, rfl, hQ r hr⟩⟩

theorem bind {f : α → Prog Op Res ε β} (hp : Gives A P p R) (hf : ∀ a, R a → Gives A P (f a) S) :
    Gives A P (p >>= f) S := by
  refine ⟨wp_bind.2 (wp_mono (fun x _ hx => ?_) hp.holds)⟩
  obtain ⟨a, rfl, ha⟩ := hx
  exact (hf a ha).holds

theorem attempt (hp : Gives A P p Q) :
    Does A P (attempt p) fun x => ∃ a, x = .ok a ∧ Q a := by
  refine ⟨wp_attempt.2 (wp_mono (fun x _ hx y hy => ?_) hp.holds)⟩
  cases hy
  exact hx

end Gives

/-! ### Programs in a larger set of operations -/

section Embed

variable {Op' : Type} {Res' : Op' → Type} (f : Op → Op') (answer : ∀ o, Res' (f o) → Res o)

/-- A program over operations of which each is one of a larger set. -/
def embed : Prog Op Res ε α → Prog Op' Res' ε α
  | ret a => ret a
  | raise e => Prog.raise e
  | op o k => op (f o) fun r => embed (k (answer o r))

variable {f answer}

theorem Does.embed {A : (o : Op) → Res o → Prop} {P : Op → Prop} {p : Prog Op Res ε α}
    {Q : α → Prop} {A' : (o : Op') → Res' o → Prop} {P' : Op' → Prop}
    (hA : ∀ o r, A' (f o) r → A o (answer o r)) (hP : ∀ o, P o → P' (f o)) (hp : Does A P p Q) :
    Does A' P' (Interact.embed f answer p) Q := by
  obtain ⟨hp⟩ := hp
  refine ⟨?_⟩
  induction p with
  | ret a => exact hp
  | raise e => exact hp
  | op o k ih => exact ⟨hP o hp.1, fun r hr => ih _ (hp.2 _ (hA o r hr))⟩

end Embed

/-! ### What a world answers -/

section World

variable {W : Type} (H : (o : Op) → W → Res o × W) (J : W → Prop)

/-- What an operation is answered on the worlds in `J`. -/
def AnsweredIn (o : Op) (r : Res o) : Prop := ∃ w, J w ∧ (H o w).1 = r

/-- The operation leaves the worlds in `J` there. -/
def KeptBy (o : Op) : Prop := ∀ w, J w → J (H o w).2

variable {H J} {p : Prog Op Res ε α} {Q : α → Prop} {w : W}

/-- **A program that stays in `J`**: each of its operations does, whatever the worlds in `J` have
answered before it. -/
theorem Does.stays (hp : Does (AnsweredIn H J) (KeptBy H J) p Q) (hw : J w) :
    J (Prog.exec H p w).2 :=
  (hp.exec (fun w _ hJ ho => ⟨⟨w, hJ, rfl⟩, ho w hJ⟩) hw).1

end World

end Interact
end ChordInfra
