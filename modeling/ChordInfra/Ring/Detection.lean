/-
# Who recovers from a crash

`FailureWatcherThread` of `chord/server.py`: in every turn a watcher compares the predecessor of its
node with the one it saw last, and where there is none any more it recovers from the failure
of the latter.  A recovery that raises leaves what was seen last, and so is started again.

After a crash in a ring with right pointers nobody but the node after the crashed one ever recovers,
and no more than once.  It happens exactly when a turn of that watcher falls between the check that
clears the crashed node and the notification of the node before it (`recovered_iff`): a watcher that
comes later finds the new predecessor, and the jobs of the crashed node stay where they are.  What
it recovers from is what it saw last, which is the crashed node if it has had a turn since that one
was its predecessor.
-/

import ChordInfra.Ring.Crash

namespace ChordInfra
namespace Ring

open Cyclic

variable {M : ℕ}

/-! ### Watchers -/

/-- The nodes with their watchers: `last` is `_last_predecessor_id`, and `recovered` says which node
has recovered from the failure of which, in their order. -/
structure Watched (M : ℕ) where
  rounds : Rounds M
  last : String → Option ℕ
  recovered : List (String × ℕ)

/-- A round of maintenance, or a turn of the watcher of a node, with whether a recovery raises. -/
inductive WatchEvent (M : ℕ) [NeZero M]
  | round (e : Round M)
  | check (a : String) (raises : Bool)

namespace Watched

/-- The watcher of a node has seen a predecessor. -/
def saw (s : Watched M) (a : String) (p : Option ℕ) : Watched M :=
  { s with last := Function.update s.last a p }

theorem saw_last_self (s : Watched M) (a : String) (p : Option ℕ) : (s.saw a p).last a = p :=
  Function.update_self ..

theorem saw_last_of_ne (s : Watched M) {a b : String} (p : Option ℕ) (h : b ≠ a) :
    (s.saw a p).last b = s.last b :=
  Function.update_of_ne h ..

/-- `_check`. -/
def check (s : Watched M) (a : String) (n : ChordNode M) (raises : Bool) : Watched M :=
  let current := n.predecessor.map NodeRef.id
  match s.last a, current with
  | some failed, none =>
    if raises then s
    else { s with recovered := s.recovered ++ [(a, failed)] }.saw a current
  | _, _ => s.saw a current

section Check

variable {s : Watched M} {a : String} {n : ChordNode M} {raises : Bool}

/-- A turn that sees a predecessor, or has seen none. -/
theorem check_known (h : s.last a = none ∨ n.predecessor ≠ none) :
    s.check a n raises = s.saw a (n.predecessor.map NodeRef.id) := by
  unfold check
  cases hn : n.predecessor with
  | none =>
    rw [h.resolve_right fun hne => hne hn]
  | some p =>
    cases s.last a <;> rfl

/-- A turn that sees the predecessor gone. -/
theorem check_lost {failed : ℕ} (hlast : s.last a = some failed) (hn : n.predecessor = none) :
    s.check a n raises = if raises then s else
      { s with recovered := s.recovered ++ [(a, failed)] }.saw a none := by
  unfold check
  rw [hlast, hn]
  rfl

end Check

variable [NeZero M]

/-- The nodes after an event; a node that has crashed watches nobody. -/
def after (s : Watched M) : WatchEvent M → Watched M
  | .round e => { s with rounds := s.rounds.after e }
  | .check a raises =>
    match s.rounds.nodes a with
    | some n => s.check a n raises
    | none => s

theorem after_check {s : Watched M} {a : String} {raises : Bool} {n : ChordNode M}
    (hn : s.rounds.nodes a = some n) : s.after (.check a raises) = s.check a n raises := by
  simp only [after, hn]

/-- Nobody watches at an address without a node. -/
theorem after_silent {s : Watched M} {a : String} {raises : Bool} (hn : s.rounds.nodes a = none) :
    s.after (.check a raises) = s := by
  simp only [after, hn]

end Watched

/-! ### After a crash -/

namespace Crash

variable [NeZero M] {r : Members M} {k : Crash r} {st : Rounds M} {y : Option NodeRef}
  {m n : ChordNode M}

/-- The pointers after the crash, when the node after has the predecessor `y`; with the node before
for its predecessor it is the successor of that one. -/
def Phase (k : Crash r) (y : Option NodeRef) (st : Rounds M) : Prop :=
  ∃ x, k.Plausible x ∧ k.At x y st.nodes ∧ (y = some k.before.ref → x = k.next.ref)

theorem Phase.waits_after (hr : r.Tended) (hreach : k.Reaches) (hbn : k.before ≠ k.next)
    (h : k.Phase (some k.crashed.ref) st) {e : Round M} (he : k.Allowed e) :
    k.Phase (some k.crashed.ref) (st.after e) ∨ k.Phase none (st.after e) ∨
      k.Phase (some k.before.ref) (st.after e) := by
  obtain ⟨x, hx, hat, -⟩ := h
  have hstage : k.Stage 0 st := ⟨x, hx, .inl ⟨hat, .inl rfl⟩⟩
  obtain ⟨-, -, ⟨x', hx', ⟨hat', -⟩ | ⟨hat', -⟩ | ⟨rfl, hat'⟩⟩, -⟩ :=
    hstage.after hr hreach hbn he
  · refine .inl ⟨x', hx', hat', fun hcb => ?_⟩
    exact absurd (congrArg NodeRef.id (Option.some.inj hcb)) k.id_ne.symm
  · exact .inr (.inl ⟨x', hx', hat', fun hnone => (by cases hnone)⟩)
  · exact .inr (.inr ⟨_, hx', hat', fun _ => rfl⟩)

/-- Once the crashed node is cleared it does not come back. -/
theorem Phase.free_after (hr : r.Tended) (hreach : k.Reaches) (hbn : k.before ≠ k.next)
    (h : k.Phase none st) {e : Round M} (he : k.Allowed e) :
    k.Phase none (st.after e) ∨ k.Phase (some k.before.ref) (st.after e) := by
  obtain ⟨x, hx, hat, -⟩ := h
  have hle := k.left_le x
  have hstage : k.Stage 2 st := ⟨x, hx, .inr (.inl ⟨hat, by omega⟩)⟩
  obtain ⟨j, hj, ⟨x', hx', ⟨-, hj'⟩ | ⟨hat', -⟩ | ⟨rfl, hat'⟩⟩, -⟩ :=
    hstage.after hr hreach hbn he
  · omega
  · exact .inl ⟨x', hx', hat', fun hnone => (by cases hnone)⟩
  · exact .inr ⟨_, hx', hat', fun _ => rfl⟩

/-- The node before stays the predecessor. -/
theorem Phase.done_after (hr : r.Tended) (hreach : k.Reaches) (hbn : k.before ≠ k.next)
    (h : k.Phase (some k.before.ref) st) {e : Round M} (he : k.Allowed e) :
    k.Phase (some k.before.ref) (st.after e) := by
  obtain ⟨x, hx, hat, hxn⟩ := h
  obtain rfl := hxn rfl
  have hstage : k.Stage (r.nodes.length + 3) st := .of_done hbn hat _
  obtain ⟨j, hj, ⟨x', hx', ⟨-, hj'⟩ | ⟨-, hleft⟩ | ⟨rfl, hat'⟩⟩, -⟩ :=
    hstage.after hr hreach hbn he
  · omega
  · omega
  · exact ⟨_, hx', hat', fun _ => rfl⟩

/-- What the node after has for its predecessor. -/
theorem Phase.next (h : k.Phase y st) :
    ∃ n, st.nodes k.next.address = some n ∧ n.predecessor = y := by
  obtain ⟨x, -, hat, -⟩ := h
  obtain ⟨n, hn, -, -, hpred⟩ := hat.alive k.next_mem k.next_ne
  rw [if_pos rfl] at hpred
  exact ⟨n, hn, hpred⟩

/-- The other nodes keep the predecessors they had. -/
theorem Phase.other (h : k.Phase y st) {a : String} (ha : a ≠ k.next.address)
    (hn : st.nodes a = some n) : ∃ m ∈ r.nodes, m ≠ k.crashed ∧ m.address = a ∧
      n.predecessor = m.predecessor := by
  obtain ⟨x, -, hat, -⟩ := h
  obtain ⟨m, hm, hmc, rfl, -⟩ := hat.cases hn
  obtain ⟨n', hn', -, -, hpred⟩ := hat.alive hm hmc
  obtain rfl := Option.some.inj (hn'.symm.trans hn)
  rw [if_neg ha] at hpred
  exact ⟨m, hm, hmc, rfl, hpred⟩

/-! ### Runs -/

/-- Some event of a list, with those before it, is of a kind. -/
def Happens {E : Type} (P : List E → E → Prop) (l : List E) : Prop :=
  ∃ l₁ e l₂, l = l₁ ++ e :: l₂ ∧ P l₁ e

theorem happens_concat {E : Type} {P : List E → E → Prop} {l : List E} {e : E} :
    Happens P (l ++ [e]) ↔ Happens P l ∨ P l e := by
  constructor
  · rintro ⟨l₁, e₁, l₂, heq, hP⟩
    rcases List.eq_nil_or_concat' l₂ with rfl | ⟨l₃, e₃, rfl⟩
    · obtain ⟨rfl, hlast⟩ := List.append_inj' heq rfl
      obtain rfl := List.singleton_inj.1 hlast
      exact .inr hP
    · rw [← List.cons_append, ← List.append_assoc] at heq
      obtain ⟨rfl, -⟩ := List.append_inj' heq rfl
      exact .inl ⟨l₁, e₁, l₃, rfl, hP⟩
  · rintro (⟨l₁, e₁, l₂, rfl, hP⟩ | hP)
    · exact ⟨l₁, e₁, l₂ ++ [e], by simp, hP⟩
    · exact ⟨l, e, [], rfl, hP⟩

/-- The nodes after events. -/
abbrev after (s : Watched M) (l : List (WatchEvent M)) : Watched M := l.foldl Watched.after s

/-- What the node after the crashed one has for its predecessor. -/
def known (k : Crash r) (s : Watched M) : Option NodeRef :=
  s.rounds.predecessorAt k.next.address

/-- In a turn of its watcher the node after has the crashed node for its predecessor. -/
def Sights (k : Crash r) (s : Watched M) (l : List (WatchEvent M)) : Prop :=
  Happens (fun l₁ e => (∃ raises, e = .check k.next.address raises) ∧
    k.known (after s l₁) = some k.crashed.ref) l

/-- What the watcher of the node after has seen last before the crashed node is cleared: that one, or
where it has had no turn since, what it had seen before. -/
def Seen (k : Crash r) (s : Watched M) (l : List (WatchEvent M)) (p : ℕ) : Prop :=
  k.Sights s l ∧ p = k.crashed.nodeId ∨ ¬k.Sights s l ∧ s.last k.next.address = some p

/-- A turn of the watcher that has seen `p` comes when the crashed node is cleared and nobody has
taken its place, and the recovery does not raise. -/
def Caught (k : Crash r) (s : Watched M) (l : List (WatchEvent M)) (p : ℕ) : Prop :=
  Happens (fun l₁ e => e = .check k.next.address false ∧ k.known (after s l₁) = none ∧
    k.Seen s l₁ p) l

/-- An event other than `fix_fingers` of the node before. -/
def AllowedEvent (k : Crash r) : WatchEvent M → Prop
  | .round e => k.Allowed e
  | .check .. => True

/-- Whether there was a recovery, and from whom. -/
def Settled (k : Crash r) (s : Watched M) (l : List (WatchEvent M)) (done : Option ℕ) : Prop :=
  (after s l).recovered = (done.map fun p => (k.next.address, p)).toList ∧
    ∀ p, k.Caught s l p ↔ done = some p

/-- What the watcher of the node after has seen last, before it has recovered. -/
def Watches (k : Crash r) (s : Watched M) (l : List (WatchEvent M)) : Prop :=
  ∀ p, (after s l).last k.next.address = some p ↔ k.Seen s l p

/-- **What holds after the events**: the way the crash takes, by what the node after has for its
predecessor. -/
def Follows (k : Crash r) (s : Watched M) (l : List (WatchEvent M)) : Prop :=
  k.Phase (some k.crashed.ref) (after s l).rounds ∧ k.Settled s l none ∧ k.Watches s l ∨
    k.Phase none (after s l).rounds ∧ (k.Settled s l none ∧ k.Watches s l ∨
      ∃ p, k.Seen s l p ∧ k.Settled s l (some p) ∧ (after s l).last k.next.address = none) ∨
    k.Phase (some k.before.ref) (after s l).rounds ∧ ∃ done, k.Settled s l done

section Runs

variable {s : Watched M} {l : List (WatchEvent M)} {e : WatchEvent M}

theorem Phase.known (h : k.Phase y s.rounds) : k.known s = y := by
  obtain ⟨n, hn, hpred⟩ := h.next
  unfold Crash.known Rounds.predecessorAt
  rw [hn]
  exact hpred

theorem after_concat : after s (l ++ [e]) = (after s l).after e := List.foldl_concat ..

/-- It has seen one node at most. -/
theorem Seen.unique {p q : ℕ} (hp : k.Seen s l p) (hq : k.Seen s l q) : p = q := by
  rcases hp with ⟨hsight, rfl⟩ | ⟨hno, hp⟩ <;> rcases hq with ⟨hsight', rfl⟩ | ⟨hno', hq⟩
  · rfl
  · exact absurd hsight hno'
  · exact absurd hsight' hno
  · exact Option.some.inj (hp.symm.trans hq)

/-- What is no turn of the watcher of the node after is no news for it. -/
theorem sights_concat_of_ne (h : ∀ raises, e ≠ .check k.next.address raises) :
    k.Sights s (l ++ [e]) ↔ k.Sights s l := by
  unfold Sights
  rw [happens_concat]
  refine or_iff_left ?_
  rintro ⟨⟨raises, he⟩, -⟩
  exact h raises he

theorem caught_concat_of_ne (h : ∀ raises, e ≠ .check k.next.address raises) (p : ℕ) :
    k.Caught s (l ++ [e]) p ↔ k.Caught s l p := by
  unfold Caught
  rw [happens_concat]
  exact or_iff_left fun hcaught => h false hcaught.1

theorem seen_congr {l' : List (WatchEvent M)} (h : k.Sights s l' ↔ k.Sights s l) (p : ℕ) :
    k.Seen s l' p ↔ k.Seen s l p := by
  unfold Seen
  rw [h]

/-- What no turn of the watcher of the node after changes. -/
theorem unseen (hlast : (after s (l ++ [e])).last k.next.address = (after s l).last k.next.address)
    (hrecovered : (after s (l ++ [e])).recovered = (after s l).recovered)
    (hne : ∀ raises, e ≠ .check k.next.address raises) :
    (∀ done, k.Settled s (l ++ [e]) done ↔ k.Settled s l done) ∧
      (k.Watches s (l ++ [e]) ↔ k.Watches s l) ∧ ∀ p, k.Seen s (l ++ [e]) p ↔ k.Seen s l p := by
  have hseen := seen_congr (sights_concat_of_ne (s := s) (l := l) hne)
  unfold Settled Watches
  simp only [hlast, hrecovered, hseen, caught_concat_of_ne hne, implies_true, and_self]

theorem Follows.phase (h : k.Follows s l) : ∃ y, k.Phase y (after s l).rounds := by
  obtain ⟨hphase, -⟩ | ⟨hphase, -⟩ | ⟨hphase, -⟩ := h <;> exact ⟨_, hphase⟩

/-- A round of maintenance is no news for the watchers. -/
theorem Follows.round (hr : r.Tended) (hreach : k.Reaches) (h : k.Follows s l) {e : Round M}
    (he : k.Allowed e) : k.Follows s (l ++ [.round e]) := by
  have hbn := hreach.before_ne_next hr
  have hafter : after s (l ++ [.round e]) =
      { after s l with rounds := (after s l).rounds.after e } := after_concat
  have hrounds := congrArg Watched.rounds hafter
  have hlast := congrArg Watched.last hafter
  have hrecovered : (after s (l ++ [.round e])).recovered = (after s l).recovered := by
    rw [hafter]
  have hunseen := unseen (k := k) (congrFun hlast _) hrecovered fun _ he => by cases he
  unfold Follows
  simp only [hunseen.1, hunseen.2.1, hunseen.2.2, hrounds, hlast]
  obtain ⟨hphase, hset, hwatch⟩ | ⟨hphase, hset⟩ | ⟨hphase, hset⟩ := h
  · -- the crashed node may be cleared, and the node before may notify at once
    obtain hphase | hphase | hphase := hphase.waits_after hr hreach hbn he
    · exact .inl ⟨hphase, hset, hwatch⟩
    · exact .inr (.inl ⟨hphase, .inl ⟨hset, hwatch⟩⟩)
    · exact .inr (.inr ⟨hphase, none, hset⟩)
  · obtain hphase | hphase := hphase.free_after hr hreach hbn he
    · exact .inr (.inl ⟨hphase, hset⟩)
    · obtain ⟨hset, -⟩ | ⟨p, -, hset, -⟩ := hset
      · exact .inr (.inr ⟨hphase, none, hset⟩)
      · exact .inr (.inr ⟨hphase, some p, hset⟩)
  · exact .inr (.inr ⟨hphase.done_after hr hreach hbn he, hset⟩)

/-- The other nodes have predecessors. -/
theorem predecessor_ne_none (k : Crash r) (hr : r.Tended) (hm : m ∈ r.nodes) (hmc : m ≠ k.crashed) :
    m.predecessor ≠ none := by
  obtain ⟨q, hq, hqm, hpred⟩ := hr.predecessors m hm
  rcases hpred with hpred | ⟨rfl, -⟩
  · rw [hpred]
    exact Option.some_ne_none _
  · exact absurd rfl (hqm.ne hm k.crashed_mem (Ne.symm hmc))

/-- A turn of another watcher recovers from nothing: whatever it saw last, its node has a
predecessor. -/
theorem Follows.check_other (hr : r.Tended) (h : k.Follows s l) {a : String}
    (ha : a ≠ k.next.address) (raises : Bool) : k.Follows s (l ++ [.check a raises]) := by
  have hsaw : ∃ s', after s (l ++ [.check a raises]) = s' ∧ s'.rounds = (after s l).rounds ∧
      s'.recovered = (after s l).recovered ∧
      s'.last k.next.address = (after s l).last k.next.address := by
    rw [after_concat]
    refine ⟨_, rfl, ?_⟩
    cases hn : (after s l).rounds.nodes a with
    | none =>
      rw [Watched.after_silent hn]
      exact ⟨rfl, rfl, rfl⟩
    | some n =>
      obtain ⟨y, hphase⟩ := h.phase
      obtain ⟨m, hm, hmc, rfl, hpred⟩ := hphase.other ha hn
      have hknown : n.predecessor ≠ none := hpred ▸ k.predecessor_ne_none hr hm hmc
      rw [Watched.after_check hn, Watched.check_known (.inr hknown)]
      exact ⟨rfl, rfl, Watched.saw_last_of_ne _ _ (Ne.symm ha)⟩
  obtain ⟨s', rfl, hrounds, hrecovered, hlast⟩ := hsaw
  have hunseen := unseen (k := k) hlast hrecovered
    fun raises' he => ha (WatchEvent.check.inj he).1
  unfold Follows at h ⊢
  simpa only [hunseen.1, hunseen.2.1, hunseen.2.2, hlast, hrounds] using h

/-- Nothing is caught while the node after has a predecessor. -/
theorem caught_concat_of_known (h : k.known (after s l) ≠ none) (p : ℕ) :
    k.Caught s (l ++ [e]) p ↔ k.Caught s l p := by
  unfold Caught
  rw [happens_concat]
  exact or_iff_left fun hcaught => h hcaught.2.1

/-- The crashed node is not seen once it is cleared. -/
theorem seen_concat_of_known (h : k.known (after s l) ≠ some k.crashed.ref) (p : ℕ) :
    k.Seen s (l ++ [e]) p ↔ k.Seen s l p := by
  refine seen_congr ?_ p
  unfold Sights
  rw [happens_concat]
  exact or_iff_left fun hsight => h hsight.2

theorem Settled.keep {done : Option ℕ} (h : k.Settled s l done)
    (hrecovered : (after s (l ++ [e])).recovered = (after s l).recovered)
    (hcaught : ∀ p, k.Caught s (l ++ [e]) p ↔ k.Caught s l p) : k.Settled s (l ++ [e]) done :=
  ⟨hrecovered.trans h.1, fun p => (hcaught p).trans (h.2 p)⟩

section Turn

variable {raises : Bool}

/-- A turn of the watcher of the node after sees what that node has for its predecessor. -/
theorem Phase.turn (h : k.Phase y (after s l).rounds) (raises : Bool) :
    ∃ n, n.predecessor = y ∧ after s (l ++ [.check k.next.address raises]) =
      (after s l).check k.next.address n raises := by
  obtain ⟨n, hn, hpred⟩ := h.next
  refine ⟨n, hpred, ?_⟩
  rw [after_concat, Watched.after_check hn]

/-- A turn that sees a node, or has seen none, is no recovery. -/
theorem Phase.turn_known (h : k.Phase y (after s l).rounds) (raises : Bool)
    (hknown : (after s l).last k.next.address = none ∨ y ≠ none) :
    after s (l ++ [.check k.next.address raises]) =
      (after s l).saw k.next.address (y.map NodeRef.id) := by
  obtain ⟨n, rfl, hafter⟩ := h.turn raises
  rw [hafter, Watched.check_known hknown]

/-- It sees the crashed node. -/
theorem Follows.turn_waits (hphase : k.Phase (some k.crashed.ref) (after s l).rounds)
    (hset : k.Settled s l none) : k.Follows s (l ++ [.check k.next.address raises]) := by
  have hafter := hphase.turn_known raises (.inr (Option.some_ne_none _))
  have hknown : k.known (after s l) ≠ none := by
    rw [hphase.known]
    exact Option.some_ne_none _
  have hlast : (after s (l ++ [.check k.next.address raises])).last k.next.address =
      some k.crashed.nodeId := by
    rw [hafter]
    exact Watched.saw_last_self ..
  have hsight : k.Sights s (l ++ [.check k.next.address raises]) :=
    happens_concat.2 (.inr ⟨⟨raises, rfl⟩, hphase.known⟩)
  have hseen : k.Seen s (l ++ [.check k.next.address raises]) k.crashed.nodeId := .inl ⟨hsight, rfl⟩
  refine .inl ⟨?_, hset.keep ?_ (caught_concat_of_known hknown), fun p => ?_⟩
  · rw [hafter]
    exact hphase
  · rw [hafter]
    rfl
  · rw [hlast, Option.some.injEq]
    exact ⟨fun he => he ▸ hseen, hseen.unique⟩

/-- It sees the node before. -/
theorem Follows.turn_done {done : Option ℕ}
    (hphase : k.Phase (some k.before.ref) (after s l).rounds) (hset : k.Settled s l done) :
    k.Follows s (l ++ [.check k.next.address raises]) := by
  have hafter := hphase.turn_known raises (.inr (Option.some_ne_none _))
  have hknown : k.known (after s l) ≠ none := by
    rw [hphase.known]
    exact Option.some_ne_none _
  refine .inr (.inr ⟨?_, done, hset.keep ?_ (caught_concat_of_known hknown)⟩)
  · rw [hafter]
    exact hphase
  · rw [hafter]
    rfl

/-- It sees nobody, and has seen nobody since it recovered. -/
theorem Follows.turn_recovered {p : ℕ} (hphase : k.Phase none (after s l).rounds)
    (hseen : k.Seen s l p) (hset : k.Settled s l (some p))
    (hlast : (after s l).last k.next.address = none) :
    k.Follows s (l ++ [.check k.next.address raises]) := by
  have hafter := hphase.turn_known raises (.inl hlast)
  have hcleared : k.known (after s l) ≠ some k.crashed.ref := by
    rw [hphase.known]
    exact nofun
  refine .inr (.inl ⟨?_, .inr ⟨p, (seen_concat_of_known hcleared p).2 hseen, hset.keep ?_ ?_, ?_⟩⟩)
  · rw [hafter]
    exact hphase
  · rw [hafter]
    rfl
  · -- what it would recover from is what it has recovered from
    intro q
    unfold Caught
    rw [happens_concat]
    refine or_iff_left_of_imp fun hcaught => ?_
    obtain rfl := hseen.unique hcaught.2.2
    exact (hset.2 p).2 rfl
  · rw [hafter]
    exact Watched.saw_last_self ..

/-- It sees nobody, and has seen nobody. -/
theorem Follows.turn_unseen (hphase : k.Phase none (after s l).rounds)
    (hset : k.Settled s l none) (hwatch : k.Watches s l)
    (hlast : (after s l).last k.next.address = none) :
    k.Follows s (l ++ [.check k.next.address raises]) := by
  have hafter := hphase.turn_known raises (.inl hlast)
  have hlast' : (after s (l ++ [.check k.next.address raises])).last k.next.address = none := by
    rw [hafter]
    exact Watched.saw_last_self ..
  have hcleared : k.known (after s l) ≠ some k.crashed.ref := by
    rw [hphase.known]
    exact nofun
  have hnobody : ∀ p, ¬k.Seen s l p := fun p hp => by
    rw [← hwatch p, hlast] at hp
    cases hp
  refine .inr (.inl ⟨?_, .inl ⟨hset.keep ?_ fun p => ?_, fun p => ?_⟩⟩)
  · rw [hafter]
    exact hphase
  · rw [hafter]
    rfl
  · unfold Caught
    rw [happens_concat]
    exact or_iff_left fun hcaught => hnobody p hcaught.2.2
  · rw [hlast', seen_concat_of_known hcleared]
    exact ⟨nofun, fun hp => absurd hp (hnobody p)⟩

/-- It sees its predecessor gone, and recovers if nothing is raised. -/
theorem Follows.turn_lost {p : ℕ} (hphase : k.Phase none (after s l).rounds)
    (hset : k.Settled s l none) (hwatch : k.Watches s l)
    (hlast : (after s l).last k.next.address = some p) :
    k.Follows s (l ++ [.check k.next.address raises]) := by
  obtain ⟨n, hnone, hafter⟩ := hphase.turn raises
  rw [Watched.check_lost hlast hnone] at hafter
  have hseen : k.Seen s l p := (hwatch p).1 hlast
  have hcleared : k.known (after s l) ≠ some k.crashed.ref := by
    rw [hphase.known]
    exact nofun
  cases raises with
  | true =>
    rw [if_pos rfl] at hafter
    refine .inr (.inl ⟨?_, .inl ⟨hset.keep ?_ fun q => ?_, fun q => ?_⟩⟩)
    · rw [hafter]
      exact hphase
    · rw [hafter]
    · unfold Caught
      rw [happens_concat]
      refine or_iff_left fun hcaught => ?_
      cases hcaught.1
    · rw [hafter, seen_concat_of_known hcleared]
      exact hwatch q
  | false =>
    rw [if_neg Bool.false_ne_true] at hafter
    refine .inr (.inl ⟨?_, .inr ⟨p, (seen_concat_of_known hcleared p).2 hseen, ⟨?_, fun q => ?_⟩, ?_⟩⟩)
    · rw [hafter]
      exact hphase
    · rw [hafter]
      show (after s l).recovered ++ [(k.next.address, p)] = _
      rw [hset.1]
      rfl
    · unfold Caught
      rw [happens_concat, Option.some.injEq]
      constructor
      · rintro (hcaught | ⟨-, -, hq⟩)
        · cases (hset.2 q).1 hcaught
        · exact hseen.unique hq
      · rintro rfl
        exact .inr ⟨rfl, hphase.known, hseen⟩
    · rw [hafter]
      exact Watched.saw_last_self ..

end Turn

/-- **A turn of the watcher of the node after.** -/
theorem Follows.check_next (h : k.Follows s l) (raises : Bool) :
    k.Follows s (l ++ [.check k.next.address raises]) := by
  obtain ⟨hphase, hset, -⟩ | ⟨hphase, ⟨hset, hwatch⟩ | ⟨p, hseen, hset, hlast⟩⟩ |
    ⟨hphase, done, hset⟩ := h
  · exact .turn_waits hphase hset
  · cases hlast : (after s l).last k.next.address with
    | none => exact .turn_unseen hphase hset hwatch hlast
    | some p => exact .turn_lost hphase hset hwatch hlast
  · exact .turn_recovered hphase hseen hset hlast
  · exact .turn_done hphase hset

/-- **One event.** -/
theorem Follows.after (hr : r.Tended) (hreach : k.Reaches) (h : k.Follows s l)
    (he : k.AllowedEvent e) : k.Follows s (l ++ [e]) := by
  cases e with
  | round e => exact h.round hr hreach he
  | check a raises =>
    by_cases ha : a = k.next.address
    · subst ha
      exact h.check_next raises
    · exact h.check_other hr ha raises

/-- Before the first event. -/
theorem Follows.nil (hr : r.Tended) (hbn : k.before ≠ k.next)
    (hnodes : s.rounds.nodes = Function.update r.net k.crashed.address none)
    (hrecovered : s.recovered = []) : k.Follows s [] := by
  have hstart := At.start k hr hbn
  rw [← hnodes] at hstart
  have hempty : ∀ P : List (WatchEvent M) → WatchEvent M → Prop, ¬Happens P [] := by
    rintro P ⟨l₁, e, l₂, heq, -⟩
    simp at heq
  refine .inl ⟨?_, ⟨hrecovered, fun p => ?_⟩, fun p => ?_⟩
  · have hx : k.Plausible k.crashed.ref := ⟨k.crashed, k.crashed_mem, Ne.symm k.ne, rfl⟩
    refine ⟨k.crashed.ref, hx, hstart, fun hcb => ?_⟩
    exact absurd (congrArg NodeRef.id (Option.some.inj hcb)) k.id_ne.symm
  · exact ⟨fun hcaught => absurd hcaught (hempty _), nofun⟩
  · refine ⟨fun hlast => .inr ⟨hempty _, hlast⟩, ?_⟩
    rintro (⟨hsight, -⟩ | ⟨-, hlast⟩)
    · exact absurd hsight (hempty _)
    · exact hlast

/-- **A run.** -/
theorem Follows.run (hr : r.Tended) (hreach : k.Reaches) (h : k.Follows s []) :
    ∀ l : List (WatchEvent M), (∀ e ∈ l, k.AllowedEvent e) → k.Follows s l := by
  intro l
  induction l using List.reverseRecOn with
  | nil => exact fun _ => h
  | append_singleton l e ih =>
    intro hl
    have hinit := ih fun e' he' => hl e' (List.mem_append_left _ he')
    exact hinit.after hr hreach (hl e (by simp))

end Runs

/-- **Nobody but the node after a crashed one recovers, and once at most**: when a turn of its
watcher comes between the check that clears the crashed node and the notification of the node
before, and never otherwise.  It recovers from the node that the watcher saw last, whatever the
watchers had seen before the crash. -/
theorem recovered_iff (k : Crash r) (hr : r.Tended) (hreach : k.Reaches) (s : Watched M)
    (hnodes : s.rounds.nodes = Function.update r.net k.crashed.address none)
    (hrecovered : s.recovered = []) {l : List (WatchEvent M)} (hl : ∀ e ∈ l, k.AllowedEvent e) :
    (∀ p, k.Caught s l p → (after s l).recovered = [(k.next.address, p)]) ∧
      ((∀ p, ¬k.Caught s l p) → (after s l).recovered = []) := by
  have hfollows := (Follows.nil hr (hreach.before_ne_next hr) hnodes hrecovered).run hr hreach l hl
  have hset : ∃ done, k.Settled s l done := by
    obtain ⟨-, hset, -⟩ | ⟨-, ⟨hset, -⟩ | ⟨p, -, hset, -⟩⟩ | ⟨-, hset⟩ := hfollows
    · exact ⟨_, hset⟩
    · exact ⟨_, hset⟩
    · exact ⟨_, hset⟩
    · exact hset
  obtain ⟨done, hlist, hcaught⟩ := hset
  constructor
  · intro p h
    rw [hlist, (hcaught p).1 h]
    rfl
  · intro h
    cases done with
    | none => exact hlist
    | some p => exact absurd ((hcaught p).2 rfl) (h p)

/-- The ring of four after 60 has crashed, with what the watcher of 120 saw last. -/
def watched (last : Option ℕ) : Watched 8 where
  rounds := ⟨Function.update (Members.canonical four four_valid).net healing.crashed.address none,
    fun _ => 0⟩
  last := fun a => if a = "c" then last else none
  recovered := []

/-- A turn after `j` rounds of the way back. -/
def lateTurn (j : ℕ) : List (WatchEvent 8) := (healing.plan.take j).map .round ++ [.check "c" false]

/-- A turn before the crashed node is cleared as well. -/
def turns (j : ℕ) : List (WatchEvent 8) := .check "c" false :: lateTurn j

theorem allowed_of_mem_turns {j : ℕ} : ∀ e ∈ turns j, healing.AllowedEvent e := by
  intro e he
  rcases List.mem_cons.1 he with rfl | he
  · trivial
  · rcases List.mem_append.1 he with he | he
    · obtain ⟨e', he', rfl⟩ := List.mem_map.1 he
      exact allowed_of_mem_plan e' (List.mem_of_mem_take he')
    · rw [List.mem_singleton.1 he]
      trivial

/-- The hypotheses of `recovered_iff` are satisfiable, and all outcomes occur: the watcher recovers
from the crashed node if it has had a turn before that was cleared, and from the node 10, which it
had seen before a join, if it has not; when the ring has healed it recovers from nobody. -/
theorem recovered_iff_turns :
    (after (watched none) (turns 2)).recovered = [("c", 60)] ∧
      (after (watched (some 10)) (lateTurn 2)).recovered = [("c", 10)] ∧
      ∀ p, ¬healing.Caught (watched none) (turns 6) p := by
  have hwatched := fun last {l} => recovered_iff (l := l) healing (Members.canonical_tended four_valid)
    (by decide +kernel) (watched last) rfl rfl
  have hlate : ∀ e ∈ lateTurn 2, healing.AllowedEvent e := fun e he =>
    allowed_of_mem_turns e (List.mem_cons_of_mem _ he)
  refine ⟨(hwatched none allowed_of_mem_turns).1 60 ⟨(turns 2).take 3, _, [], rfl, rfl, ?_, ?_⟩,
    (hwatched (some 10) hlate).1 10 ⟨(lateTurn 2).take 2, _, [], rfl, rfl, ?_, .inr ⟨?_, rfl⟩⟩,
    fun p hcaught => ?_⟩
  · decide +kernel
  · exact .inl ⟨⟨[], _, ((turns 2).drop 1).take 2, rfl, ⟨false, rfl⟩, by decide +kernel⟩, rfl⟩
  · decide +kernel
  · -- there is no turn among the two rounds
    rintro ⟨l₁, e, l₂, hsplit, ⟨raises, rfl⟩, -⟩
    have hmem : WatchEvent.check healing.next.address raises ∈ (lateTurn 2).take 2 :=
      hsplit ▸ List.mem_append_right _ List.mem_cons_self
    have hrounds : (lateTurn 2).take 2 = (healing.plan.take 2).map .round := rfl
    obtain ⟨e, -, he⟩ := List.mem_map.1 (hrounds ▸ hmem)
    cases he
  · exact absurd ((hwatched none allowed_of_mem_turns).1 p hcaught) (by
      rw [show (after (watched none) (turns 6)).recovered = [] by decide +kernel]
      exact nofun)

end Crash
end Ring
end ChordInfra
