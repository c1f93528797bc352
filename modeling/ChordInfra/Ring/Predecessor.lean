/-
# The predecessor of a node

`ChordNode.notify` takes a candidate for the predecessor when it lies nearer before the node,
and anything where there is none.  So whatever the order in which candidates come, the one that
stays is the nearest (`notified_nearest`).

`check_predecessor` pings the predecessor without the lock and clears it after two failures.
What it counts the failures in, `_pred_fail_count`, is not tied to the node that was pinged: a
predecessor that took the place of another after a failed ping is cleared after one
(`Checked.cleared_after_one`).
-/

import ChordInfra.Ring.Node
import Mathlib.Logic.Relation

namespace ChordInfra
namespace Ring

open Cyclic

variable {M : ℕ}

/-! ### Notifications -/

/-- The nearest before a node of some nodes, its own id being a whole turn away. -/
def Nearest (M nodeId : ℕ) (l : List NodeRef) (p : NodeRef) : Prop :=
  p ∈ l ∧ ∀ q ∈ l, arc (2 ^ M) p.id nodeId ≤ arc (2 ^ M) q.id nodeId

theorem Nearest.id_eq {nodeId : ℕ} {l l' : List NodeRef} {p p' : NodeRef}
    (hl : ∀ q ∈ l, q.id < 2 ^ M) (hsame : ∀ q, q ∈ l ↔ q ∈ l') (h : Nearest M nodeId l p)
    (h' : Nearest M nodeId l' p') : p.id = p'.id := by
  have hle := h.2 p' ((hsame p').2 h'.1)
  have hle' := h'.2 p ((hsame p).1 h.1)
  have hp := hl p h.1
  have hp' := hl p' ((hsame p').2 h'.1)
  unfold arc at hle hle'
  split_ifs at * <;> omega

namespace ChordNode

variable {n : ChordNode M} {p c : NodeRef}

/-- **One notification** leaves the nearer of the predecessor and the candidate. -/
theorem notify_nearest (hn : n.nodeId < 2 ^ M) (hpred : n.predecessor = some p)
    (hp : p.id < 2 ^ M) (hc : c.id < 2 ^ M) :
    ∃ p', (n.notify c).predecessor = some p' ∧ Nearest M n.nodeId [p, c] p' := by
  unfold notify
  rw [hpred]
  dsimp only
  by_cases hself : p.id = n.nodeId
  · rw [hself, if_pos (inRange_self ..)]
    refine ⟨c, rfl, by simp, fun q hq => ?_⟩
    rcases List.mem_pair.1 hq with rfl | rfl
    · rw [hself, arc_self]
      exact arc_le hc hn
    · exact le_rfl
  · have hbetween : inRange c.id p.id n.nodeId false = true ↔
        arc (2 ^ M) c.id n.nodeId < arc (2 ^ M) p.id n.nodeId := by
      rw [inRange_exclusive hc hp hn hself]
      unfold arc
      split_ifs <;> omega
    split_ifs with hin
    · refine ⟨c, rfl, by simp, fun q hq => ?_⟩
      rcases List.mem_pair.1 hq with rfl | rfl
      · exact (hbetween.1 hin).le
      · exact le_rfl
    · refine ⟨p, hpred, by simp, fun q hq => ?_⟩
      rcases List.mem_pair.1 hq with rfl | rfl
      · exact le_rfl
      · exact Nat.not_lt.1 fun hlt => hin (hbetween.2 hlt)

@[simp] theorem foldl_notify_nodeId (cs : List NodeRef) (n : ChordNode M) :
    (cs.foldl notify n).nodeId = n.nodeId := by
  induction cs generalizing n with
  | nil => rfl
  | cons c cs ih => rw [List.foldl_cons, ih, notify_nodeId]

/-- Notifications from a predecessor on leave the nearest of it and the candidates. -/
theorem foldl_notify_nearest (cs : List NodeRef) (hn : n.nodeId < 2 ^ M)
    (hpred : n.predecessor = some p) (hp : p.id < 2 ^ M) (hcs : ∀ c ∈ cs, c.id < 2 ^ M) :
    ∃ p', (cs.foldl notify n).predecessor = some p' ∧ Nearest M n.nodeId (p :: cs) p' := by
  induction cs generalizing n p with
  | nil => exact ⟨p, hpred, by simp [Nearest]⟩
  | cons c cs ih =>
    have hc := hcs c List.mem_cons_self
    obtain ⟨p₁, hp₁, hmem₁, hle₁⟩ := notify_nearest hn hpred hp hc
    have hp₁lt : p₁.id < 2 ^ M := by
      rcases List.mem_pair.1 hmem₁ with rfl | rfl <;> assumption
    obtain ⟨p', hp', hmem, hle⟩ := ih (n := n.notify c) (by rwa [notify_nodeId]) hp₁ hp₁lt
      fun q hq => hcs q (List.mem_cons_of_mem _ hq)
    rw [notify_nodeId] at hle
    refine ⟨p', hp', ?_, fun q hq => ?_⟩
    · rcases List.mem_cons.1 hmem with rfl | hmem
      · rcases List.mem_pair.1 hmem₁ with rfl | rfl <;> simp
      · simp [hmem]
    · have hfirst := hle p₁ List.mem_cons_self
      rcases List.mem_cons.1 hq with rfl | hq
      · exact hfirst.trans (hle₁ q (by simp))
      · rcases List.mem_cons.1 hq with rfl | hq
        · exact hfirst.trans (hle₁ q (by simp))
        · exact hle q (List.mem_cons_of_mem _ hq)

/-- The nearest of the predecessor and the candidates stays, where there is any. -/
theorem foldl_notify (cs : List NodeRef) (hn : n.nodeId < 2 ^ M)
    (hpred : ∀ p ∈ n.predecessor, p.id < 2 ^ M) (hcs : ∀ c ∈ cs, c.id < 2 ^ M) :
    ((cs.foldl notify n).predecessor = none ∧ n.predecessor.toList ++ cs = []) ∨
      ∃ p, (cs.foldl notify n).predecessor = some p ∧
        Nearest M n.nodeId (n.predecessor.toList ++ cs) p := by
  cases hp : n.predecessor with
  | some p => exact .inr (foldl_notify_nearest cs hn hp (hpred p hp) hcs)
  | none =>
    cases cs with
    | nil => exact .inl ⟨hp, rfl⟩
    | cons c cs =>
      have hc : (n.notify c).predecessor = some c := by
        unfold notify
        rw [hp]
      obtain ⟨p, hfound, hnearest⟩ := foldl_notify_nearest (n := n.notify c) cs
        (by rwa [notify_nodeId]) hc (hcs c List.mem_cons_self)
        fun q hq => hcs q (List.mem_cons_of_mem _ hq)
      rw [notify_nodeId] at hnearest
      exact .inr ⟨p, hfound, hnearest⟩

/-- **Whatever candidates come, in whatever order, the nearest stays**: the predecessor is then
the one of the first predecessor and the candidates that lies nearest before the node, its id is
the same for every order of them, and no notification moves it farther away. -/
theorem notified_nearest (n : ChordNode M) (cs : List NodeRef) (hn : n.nodeId < 2 ^ M)
    (hpred : ∀ p ∈ n.predecessor, p.id < 2 ^ M) (hcs : ∀ c ∈ cs, c.id < 2 ^ M) :
    (((cs.foldl notify n).predecessor = none ∧ n.predecessor.toList ++ cs = []) ∨
        ∃ p, (cs.foldl notify n).predecessor = some p ∧
          Nearest M n.nodeId (n.predecessor.toList ++ cs) p) ∧
      (∀ cs' : List NodeRef, cs'.Perm cs → (cs'.foldl notify n).predecessor.map NodeRef.id =
        (cs.foldl notify n).predecessor.map NodeRef.id) ∧
      ∀ before after : List NodeRef, cs = before ++ after → ∀ p ∈ (before.foldl notify n).predecessor,
        ∃ p' ∈ (cs.foldl notify n).predecessor,
          arc (2 ^ M) p'.id n.nodeId ≤ arc (2 ^ M) p.id n.nodeId := by
  refine ⟨foldl_notify cs hn hpred hcs, fun cs' hperm => ?_, fun before after he p hp => ?_⟩
  · have hcs' : ∀ c ∈ cs', c.id < 2 ^ M := fun c hc => hcs c (hperm.mem_iff.1 hc)
    have hsame : ∀ q, q ∈ n.predecessor.toList ++ cs' ↔ q ∈ n.predecessor.toList ++ cs := by
      intro q
      rw [List.mem_append, List.mem_append, hperm.mem_iff]
    have hids : ∀ q ∈ n.predecessor.toList ++ cs', q.id < 2 ^ M := by
      intro q hq
      rcases List.mem_append.1 hq with hq | hq
      · exact hpred q (Option.mem_toList.1 hq)
      · exact hcs' q hq
    rcases foldl_notify cs hn hpred hcs with ⟨hnone, hempty⟩ | ⟨p, hp, hnear⟩ <;>
      rcases foldl_notify cs' hn hpred hcs' with ⟨hnone', hempty'⟩ | ⟨p', hp', hnear'⟩
    · rw [hnone, hnone']
    · rw [hempty] at hsame
      exact absurd ((hsame p').1 hnear'.1) List.not_mem_nil
    · rw [hempty'] at hsame
      exact absurd ((hsame p).2 hnear.1) List.not_mem_nil
    · rw [hp, hp', Option.map_some, Option.map_some, hnear'.id_eq hids hsame hnear]
  · subst he
    have hbefore : ∀ c ∈ before, c.id < 2 ^ M := fun c hc => hcs c (List.mem_append_left _ hc)
    rcases foldl_notify before hn hpred hbefore with ⟨hnone, -⟩ | ⟨p₁, hp₁, hnear⟩
    · rw [hnone] at hp
      cases hp
    · obtain rfl : p₁ = p := Option.some.inj (hp₁.symm.trans hp)
      rcases foldl_notify (before ++ after) hn hpred hcs with ⟨-, hempty⟩ | ⟨p', hp', hnear'⟩
      · have hmem : p₁ ∈ n.predecessor.toList ++ (before ++ after) := by
          rw [← List.append_assoc]
          exact List.mem_append_left _ hnear.1
        rw [hempty] at hmem
        cases hmem
      · refine ⟨p', hp', hnear'.2 p₁ ?_⟩
        rw [← List.append_assoc]
        exact List.mem_append_left _ hnear.1

/-- Node `50` with the predecessor `30`. -/
def fifty : ChordNode 8 := { ChordNode.init 8 "b" 50 with predecessor := some ⟨30, "a"⟩ }

/-- The hypotheses of `notified_nearest` are satisfiable: `40` and `20` are candidates for the
predecessor of `50`. -/
theorem notified_nearest_fifty :
    let cs : List NodeRef := [⟨40, "d"⟩, ⟨20, "c"⟩]
    ((cs.foldl notify fifty).predecessor = none ∧ fifty.predecessor.toList ++ cs = [] ∨
        ∃ p, (cs.foldl notify fifty).predecessor = some p ∧
          Nearest 8 50 (fifty.predecessor.toList ++ cs) p) ∧
      ∀ cs' : List NodeRef, cs'.Perm cs → (cs'.foldl notify fifty).predecessor.map NodeRef.id =
        (cs.foldl notify fifty).predecessor.map NodeRef.id := by
  intro cs
  obtain ⟨hnearest, horder, -⟩ := notified_nearest fifty cs (by decide)
    (by rintro p ⟨⟩; decide) (by decide)
  exact ⟨hnearest, horder⟩

end ChordNode

/-! ### Checks -/

/-- A node with the rounds of its `check_predecessor`: `failCount` is `_pred_fail_count`,
`pinging` the predecessor that a round has read and pings, and `pings` the pings so far, the
latest first, with whether they were answered. -/
structure Checked (M : ℕ) where
  node : ChordNode M
  failCount : ℕ
  pinging : Option NodeRef
  pings : List (NodeRef × Bool)

/-- What happens to a node: requests to it, and the two parts of a round.  Nothing but the
rounds, one after the other in one thread, uses the count. -/
inductive CheckEvent
  | notify (candidate : NodeRef)
  | updatePredecessor (newPred : Option NodeRef)
  /-- A round reads the predecessor. -/
  | read
  /-- The ping of a round is answered or raises, and the round ends. -/
  | pinged (answered : Bool)

namespace Checked

open ChordNode (fifty)

variable {s s' : Checked M} {p q : NodeRef}

/-- The predecessor is cleared if it still is the one that was pinged. -/
def cleared (n : ChordNode M) (pred : NodeRef) : ChordNode M :=
  match n.predecessor with
  | some p => if p.id = pred.id then { n with predecessor := none } else n
  | none => n

/-- `check_predecessor` once its ping has ended. -/
def ended (s : Checked M) (pred : NodeRef) (answered : Bool) : Checked M :=
  let s := { s with pinging := none, pings := (pred, answered) :: s.pings }
  if answered then { s with failCount := 0 }
  else if s.failCount + 1 < 2 then { s with failCount := s.failCount + 1 }
  else { s with node := cleared s.node pred, failCount := 0 }

/-- The node after an event. -/
def after (s : Checked M) : CheckEvent → Checked M
  | .notify candidate => { s with node := s.node.notify candidate }
  | .updatePredecessor newPred => { s with node := { s.node with predecessor := newPred } }
  | .read => if s.pinging.isSome then s else { s with pinging := s.node.predecessor }
  | .pinged answered =>
    match s.pinging with
    | some pred => s.ended pred answered
    | none => s

/-- A node that was not checked yet. -/
def init (n : ChordNode M) : Checked M := ⟨n, 0, none, []⟩

/-- Any number of events. -/
abbrev Run : Checked M → Checked M → Prop := Relation.ReflTransGen fun s s' => ∃ e, s.after e = s'

/-- One failure is counted after a ping that failed, and none else. -/
structure Counted (s : Checked M) : Prop where
  le_one : s.failCount ≤ 1
  failed : s.failCount = 1 → ∃ e ∈ s.pings.head?, e.2 = false

/-- **One event** keeps the count. -/
theorem Counted.after (h : s.Counted) (e : CheckEvent) : (s.after e).Counted := by
  cases e with
  | notify c => exact ⟨h.le_one, h.failed⟩
  | updatePredecessor p => exact ⟨h.le_one, h.failed⟩
  | read =>
    unfold Checked.after
    split_ifs
    · exact h
    · exact ⟨h.le_one, h.failed⟩
  | pinged answered =>
    unfold Checked.after
    cases s.pinging with
    | none => exact h
    | some pred =>
      dsimp only
      unfold ended
      dsimp only
      split_ifs with hanswered hcount
      · exact ⟨Nat.zero_le 1, fun h => absurd h Nat.zero_ne_one⟩
      · refine ⟨Nat.lt_succ_iff.1 hcount, fun _ => ⟨_, rfl, ?_⟩⟩
        simpa using hanswered
      · exact ⟨Nat.zero_le 1, fun h => absurd h Nat.zero_ne_one⟩

/-- In every run the count is right. -/
theorem Run.counted {n : ChordNode M} (hrun : Run (init n) s) : s.Counted := by
  induction hrun with
  | refl => exact ⟨Nat.zero_le 1, fun h => absurd h Nat.zero_ne_one⟩
  | tail _ hstep ih =>
    obtain ⟨e, rfl⟩ := hstep
    exact ih.after e

/-- The last two pings were of the node, and both failed. -/
def FailedTwice (s : Checked M) (q : NodeRef) : Prop :=
  ∃ p p' rest, s.pings = (p, false) :: (p', false) :: rest ∧ p.id = q.id ∧ p'.id = q.id

/-- The ping before this one was of the same node. -/
def SameAsBefore (s : Checked M) : Prop :=
  ∀ p ∈ s.pinging, ∀ e ∈ s.pings.head?, e.1.id = p.id

/-- What a round that clears the predecessor has found. -/
theorem Counted.clears (h : s.Counted) {answered : Bool} (hq : s.node.predecessor = some q)
    (hnone : (s.after (.pinged answered)).node.predecessor = none) :
    ∃ p p' rest, s.pinging = some p ∧ s.pings = (p', false) :: rest ∧ p.id = q.id ∧
      (s.after (.pinged answered)).pings = (p, false) :: s.pings := by
  unfold Checked.after at hnone ⊢
  cases hpinging : s.pinging with
  | none =>
    rw [hpinging] at hnone
    exact absurd (hq.symm.trans hnone) (by simp)
  | some p =>
    rw [hpinging] at hnone
    dsimp only at hnone ⊢
    unfold ended at hnone ⊢
    dsimp only at hnone ⊢
    split_ifs at hnone ⊢ with hanswered hcount
    · exact absurd (hq.symm.trans hnone) (by simp)
    · exact absurd (hq.symm.trans hnone) (by simp)
    · have hle := h.le_one
      obtain ⟨⟨p', ok⟩, hhead, hok⟩ := h.failed (by omega)
      obtain ⟨rest, hrest⟩ := List.head?_eq_some_iff.1 hhead
      obtain rfl : ok = false := hok
      obtain rfl : answered = false := by simpa using hanswered
      refine ⟨p, p', rest, rfl, hrest, ?_, rfl⟩
      by_contra hne
      unfold cleared at hnone
      rw [hq] at hnone
      dsimp only at hnone
      rw [if_neg (Ne.symm hne)] at hnone
      exact absurd (hq.symm.trans hnone) (by simp)

/-- **A predecessor is cleared after two failures of its own exactly when the last ping that
failed before was of it too**, whatever notifications, updates and rounds came before. -/
theorem cleared_failedTwice_iff {n : ChordNode M} (hrun : Run (init n) s) {answered : Bool}
    (hq : s.node.predecessor = some q)
    (hnone : (s.after (.pinged answered)).node.predecessor = none) :
    (s.after (.pinged answered)).FailedTwice q ↔ s.SameAsBefore := by
  obtain ⟨p, p', rest, hpinging, hpings, hpq, hafter⟩ := hrun.counted.clears hq hnone
  unfold FailedTwice SameAsBefore
  rw [hafter, hpings, hpinging]
  constructor
  · rintro ⟨a, b, rest', he, ha, hb⟩ p₁ hp₁ e he₁
    cases hp₁
    cases he₁
    simp only [List.cons.injEq, Prod.mk.injEq] at he
    obtain ⟨⟨rfl, -⟩, ⟨rfl, -⟩, -⟩ := he
    exact hb.trans hpq.symm
  · intro hsame
    exact ⟨p, p', rest, rfl, hpq, (hsame p rfl _ rfl).trans hpq⟩

/-- The predecessor `30` does not answer one ping. -/
def once : Checked 8 := ((init fifty).after .read).after (.pinged false)

theorem run_once : Run (init fifty) once := .tail (.single ⟨.read, rfl⟩) ⟨.pinged false, rfl⟩

/-- The hypotheses of `cleared_failedTwice_iff` are satisfiable: a second ping of `30` fails. -/
theorem cleared_failedTwice_iff_fifty :
    ((once.after .read).after (.pinged false)).FailedTwice ⟨30, "a"⟩ ↔
      (once.after .read).SameAsBefore :=
  cleared_failedTwice_iff (run_once.tail ⟨.read, rfl⟩) rfl rfl

/-- **A predecessor is cleared after one failure**: `40` takes the place of `30` after a ping of
`30` failed. -/
theorem cleared_after_one : ∃ s : Checked 8, Run (init fifty) s ∧
    s.node.predecessor = some ⟨40, "d"⟩ ∧
    (s.after (.pinged false)).node.predecessor = none ∧
    (s.after (.pinged false)).pings = [(⟨40, "d"⟩, false), (⟨30, "a"⟩, false)] ∧
    ¬(s.after (.pinged false)).FailedTwice ⟨40, "d"⟩ := by
  refine ⟨(once.after (.notify ⟨40, "d"⟩)).after .read,
    (run_once.tail ⟨.notify ⟨40, "d"⟩, rfl⟩).tail ⟨.read, rfl⟩, rfl, rfl, rfl, ?_⟩
  rintro ⟨p, p', rest, he, -, hp'⟩
  have hthirty : p' = ⟨30, "a"⟩ := by
    have hpings : [((⟨40, "d"⟩ : NodeRef), false), (⟨30, "a"⟩, false)] =
        (p, false) :: (p', false) :: rest := he
    simp only [List.cons.injEq, Prod.mk.injEq] at hpings
    exact hpings.2.1.1.symm
  rw [hthirty] at hp'
  exact absurd hp' (by decide)

end Checked

end Ring
end ChordInfra
