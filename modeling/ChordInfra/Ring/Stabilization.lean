/-
# The ring settles once nobody joins any more

`Ring.Maintenance` gives what every step keeps.  Here is what the steps lead to.
In a run in which nobody joins and every node takes the next step of its rounds
of `stabilize` again and again (`FairRun`), whatever was in flight when it began,
all successor and predecessor pointers are right from some point on
(`settles`).

A step only moves a successor pointer back and a predecessor pointer nearer
(`Nearer`), so the weight of a node never rises and from some point on no pointer
changes.  What a round that changes nothing has found is then read off its five
steps (`Advance`): the successor names the node for its predecessor (`Quiet`).
So no two nodes have the same successor, every node is on the one cycle of
`one_ring`, and that cycle is in clockwise order (`Inv.settled_of_quiet`).
-/

import ChordInfra.Fair.Runs
import ChordInfra.Ring.Maintenance
import ChordInfra.Ring.Predecessor
import Mathlib.Data.Set.Finite.Basic

namespace ChordInfra
namespace Ring

open Cyclic

variable {M : ℕ} [NeZero M]

/-! ### What a step does to a node -/

namespace ChordNode

variable {n n' n'' m : ChordNode M} {p q r : NodeRef}

/-- How far before the node its predecessor is, more than a turn when it has none. -/
def before (n : ChordNode M) : ℕ := n.predecessor.elim (2 ^ M + 1) fun p => arc (2 ^ M) p.id n.nodeId

/-- How far the pointers of a node are from it. -/
def weight (n : ChordNode M) : ℕ := arc (2 ^ M) n.nodeId n.successor.id + n.before

/-- What a step may make of a node: its successor moves back and its predecessor nearer. -/
structure Nearer (n n' : ChordNode M) : Prop where
  ref : n'.ref = n.ref
  successor : n'.successor = n.successor ∨
    arc (2 ^ M) n.nodeId n'.successor.id < arc (2 ^ M) n.nodeId n.successor.id
  before : n'.before ≤ n.before

theorem Nearer.refl (n : ChordNode M) : n.Nearer n := ⟨rfl, .inl rfl, le_rfl⟩

theorem Nearer.nodeId (h : n.Nearer n') : n'.nodeId = n.nodeId := congrArg NodeRef.id h.ref

theorem Nearer.successor_le (h : n.Nearer n') :
    arc (2 ^ M) n'.nodeId n'.successor.id ≤ arc (2 ^ M) n.nodeId n.successor.id := by
  rw [h.nodeId]
  rcases h.successor with he | hlt
  · rw [he]
  · exact hlt.le

/-- The weight never rises. -/
theorem Nearer.weight_le (h : n.Nearer n') : n'.weight ≤ n.weight :=
  Nat.add_le_add h.successor_le h.before

/-- The pointers of a node, the predecessor by its id only. -/
structure Same (n n' : ChordNode M) : Prop where
  ref : n'.ref = n.ref
  successor : n'.successor = n.successor
  predecessor : n'.predecessor.map NodeRef.id = n.predecessor.map NodeRef.id

theorem Same.refl (n : ChordNode M) : n.Same n := ⟨rfl, rfl, rfl⟩

theorem Same.trans (h : n.Same n') (h' : n'.Same n'') : n.Same n'' :=
  ⟨h'.ref.trans h.ref, h'.successor.trans h.successor, h'.predecessor.trans h.predecessor⟩

theorem Same.symm (h : n.Same n') : n'.Same n := ⟨h.ref.symm, h.successor.symm, h.predecessor.symm⟩

theorem Same.nodeId (h : n.Same n') : n'.nodeId = n.nodeId := congrArg NodeRef.id h.ref

omit [NeZero M] in
/-- How far the predecessor is tells who it is. -/
theorem predecessor_eq_of_before_eq (hid : n'.nodeId = n.nodeId) (hn : n.nodeId < 2 ^ M)
    (hp : ∀ p ∈ n.predecessor, p.id < 2 ^ M) (hp' : ∀ p ∈ n'.predecessor, p.id < 2 ^ M)
    (h : n'.before = n.before) :
    n'.predecessor.map NodeRef.id = n.predecessor.map NodeRef.id := by
  unfold before at h
  rw [hid] at h
  cases hq : n'.predecessor with
  | none =>
    cases hr : n.predecessor with
    | none => rfl
    | some r =>
      rw [hq, hr] at h
      have hle : arc (2 ^ M) r.id n.nodeId ≤ 2 ^ M := arc_le (hp r hr) hn
      simp only [Option.elim] at h
      omega
  | some q =>
    cases hr : n.predecessor with
    | none =>
      rw [hq, hr] at h
      have hle : arc (2 ^ M) q.id n.nodeId ≤ 2 ^ M := arc_le (hp' q hq) hn
      simp only [Option.elim] at h
      omega
    | some r =>
      rw [hq, hr] at h
      have hqlt := hp' q hq
      have hrlt := hp r hr
      simp only [Option.elim] at h
      have hid : q.id = r.id := by
        unfold arc at h
        split_ifs at h <;> omega
      rw [Option.map_some, Option.map_some, hid]

/-- A step that leaves the weight alone leaves the pointers alone. -/
theorem Nearer.same (h : n.Nearer n') (hn : n.nodeId < 2 ^ M)
    (hp : ∀ p ∈ n.predecessor, p.id < 2 ^ M) (hp' : ∀ p ∈ n'.predecessor, p.id < 2 ^ M)
    (hw : n'.weight = n.weight) : n.Same n' := by
  have hsucc := h.successor_le
  have hbefore := h.before
  unfold weight at hw
  refine ⟨h.ref, ?_, predecessor_eq_of_before_eq h.nodeId hn hp hp' (by omega)⟩
  rcases h.successor with he | hlt
  · exact he
  · rw [h.nodeId] at hw
    omega

/-- A notification brings the predecessor nearer, and at least as near as the candidate. -/
theorem notify_before (hn : n.nodeId < 2 ^ M) (hp : ∀ p ∈ n.predecessor, p.id < 2 ^ M)
    (hr : r.id < 2 ^ M) : n.Nearer (n.notify r) ∧ ∃ q, (n.notify r).predecessor = some q ∧
      arc (2 ^ M) q.id n.nodeId ≤ arc (2 ^ M) r.id n.nodeId := by
  cases hpred : n.predecessor with
  | none =>
    have hnotify : (n.notify r).predecessor = some r := by
      unfold notify
      rw [hpred]
    refine ⟨⟨by simp [ref], .inl (by simp), ?_⟩, r, hnotify, le_rfl⟩
    have hle : arc (2 ^ M) r.id n.nodeId ≤ 2 ^ M := arc_le hr hn
    unfold before
    rw [hnotify, hpred, notify_nodeId]
    simp only [Option.elim]
    omega
  | some p =>
    obtain ⟨q, hq, -, hle⟩ := notify_nearest hn hpred (hp p hpred) hr
    refine ⟨⟨by simp [ref], .inl (by simp), ?_⟩, q, hq, hle r (by simp)⟩
    unfold before
    rw [hq, hpred, notify_nodeId]
    exact hle p (by simp)

end ChordNode

namespace State

variable {s s' : State M} {a b c : String} {n m n' : ChordNode M} {f : ℕ → State M} {t T : ℕ}

theorem Inv.predecessor_lt (hi : s.Inv b) (hn : s.nodes a = some n) :
    ∀ p ∈ n.predecessor, p.id < 2 ^ M := by
  intro p hp
  obtain ⟨k, hk, hkid⟩ := (hi.predecessor hn hp).1
  exact hkid ▸ hi.id_lt hk

theorem Inv.successor_lt (hi : s.Inv b) (hn : s.nodes a = some n) : n.successor.id < 2 ^ M := by
  obtain ⟨k, hk, hkid⟩ := hi.successor hn
  exact hkid ▸ hi.id_lt hk

/-- A node is named by its own id only. -/
theorem Inv.eq_of_names {r : NodeRef} (hi : s.Inv b) (hn : s.nodes a = some n) (hr : s.Names r)
    (hid : r.id = n.nodeId) : r = n.ref := by
  obtain ⟨k, hk, hkid⟩ := hr
  have haddr : r.address = a := hi.distinct hk hn (hkid.trans hid)
  cases r
  simp only [ChordNode.ref, NodeRef.mk.injEq]
  exact ⟨hid, haddr.trans (hi.address hn).symm⟩

/-- One node was replaced by a nearer one. -/
theorem nearer_set {st : Stage} {x : String} (hc : s.nodes c = some m) (hm : m.Nearer n')
    (hn : s.nodes a = some n) : ∃ k, (s.set c n' x st).nodes a = some k ∧ n.Nearer k := by
  by_cases ha : a = c
  · subst ha
    obtain rfl := Option.some.inj (hc.symm.trans hn)
    exact ⟨n', set_nodes_self .., hm⟩
  · exact ⟨n, by rw [set_nodes_ne ha, hn], .refl n⟩

/-- **One step** moves successors back and predecessors nearer. -/
theorem Step.nearer (hi : s.Inv b) (h : Step s s') (hn : s.nodes a = some n) :
    ∃ n', s'.nodes a = some n' ∧ n.Nearer n' := by
  cases h with
  | @join c _ _ hc _ _ _ =>
    have hne : a ≠ c := by
      rintro rfl
      rw [hc] at hn
      cases hn
    exact ⟨n, by rw [set_nodes_ne hne, hn], .refl n⟩
  | read hc _ => exact nearer_set hc (.refl _) hn
  | @alone c k succ pred hc hst hself =>
    refine nearer_set hc ?_ hn
    rcases k.stabilizeAlone_cases pred with he | ⟨p, hp, hne, he⟩
    · rw [he]
      exact .refl k
    · have hok := hi.stage hc
      rw [hst] at hok
      obtain ⟨rfl, hlearn⟩ := hok
      obtain ⟨q, hq, hqid⟩ := (hlearn p hp).1
      -- the old pointer makes the whole turn
      have hlt : arc (2 ^ M) k.nodeId p.id < arc (2 ^ M) k.nodeId k.successor.id := by
        rw [hself, arc_self]
        exact arc_lt_of_ne (hi.id_lt hc) (hqid ▸ hi.id_lt hq) (Ne.symm hne)
      rw [he]
      exact ⟨rfl, .inr (by rwa [ChordNode.setSuccessor_successor]), le_rfl⟩
  | reply hc _ _ _ => exact nearer_set hc (.refl _) hn
  | @update c k x hc hst =>
    refine nearer_set hc ?_ hn
    rcases k.stabilizeUpdate_cases x with he | ⟨r, hr, hin, he⟩
    · rw [he]
      exact .refl k
    · have hok := hi.stage hc
      rw [hst] at hok
      obtain ⟨hne, hlearn⟩ := hok
      obtain ⟨q, hq, hqid⟩ := (hlearn r hr).1
      rw [inRange_exclusive (hqid ▸ hi.id_lt hq) (hi.id_lt hc) (hi.successor_lt hc) (Ne.symm hne)]
        at hin
      rw [he]
      exact ⟨rfl, .inr (by rwa [ChordNode.setSuccessor_successor]), le_rfl⟩
  | @notify c t k m hc _ hm =>
    exact nearer_set hm (ChordNode.notify_before (hi.id_lt hm) (hi.predecessor_lt hm)
      (hi.id_lt hc)).1 hn
  | @fixFingers c k m i hc hi0 _ =>
    exact nearer_set hc ⟨rfl, .inl (k.setFinger_successor hi0 m.ref), le_rfl⟩ hn

/-- The step that node `a` takes in its round. -/
inductive Advance (s s' : State M) (a : String) (n : ChordNode M) : Prop
  | read : s.stage a = .idle → s'.stage a = .read n.successor n.predecessor → Advance s s' a n
  | alone (succ : NodeRef) (pred : Option NodeRef) : s.stage a = .read succ pred →
      succ.id = n.nodeId → s'.nodes a = some (n.stabilizeAlone pred) → s'.stage a = .idle →
      Advance s s' a n
  | reply (succ : NodeRef) (pred : Option NodeRef) (m : ChordNode M) :
      s.stage a = .read succ pred → succ.id ≠ n.nodeId → s.nodes succ.address = some m →
      s'.stage a = .replied m.predecessor → Advance s s' a n
  | update (x : Option NodeRef) : s.stage a = .replied x →
      s'.nodes a = some (n.stabilizeUpdate x) →
      s'.stage a = .notifying (n.stabilizeUpdate x).successor.address → Advance s s' a n
  | notify (t : String) (m : ChordNode M) : s.stage a = .notifying t → s.nodes t = some m →
      s'.nodes t = some (m.notify n.ref) → s'.stage a = .idle → Advance s s' a n

/-- The stage of a node changes in its own steps only. -/
theorem Step.advance (h : Step s s') (hn : s.nodes a = some n) (hst : s'.stage a ≠ s.stage a) :
    Advance s s' a n := by
  -- every step moves the round of one node on
  have hown : ∀ {c x : String} {k : ChordNode M} {st : Stage},
      (s.set c k x st).stage a ≠ s.stage a → x = a := by
    intro c x k st hne
    by_contra hxa
    exact hne (set_stage_ne (Ne.symm hxa) c k st)
  cases h with
  | join hc _ _ _ =>
    obtain rfl := hown hst
    rw [hc] at hn
    cases hn
  | read hc hidle =>
    obtain rfl := hown hst
    obtain rfl := Option.some.inj (hc.symm.trans hn)
    exact .read hidle (set_stage_self ..)
  | alone hc hread hself =>
    obtain rfl := hown hst
    obtain rfl := Option.some.inj (hc.symm.trans hn)
    exact .alone _ _ hread hself (set_nodes_self ..) (set_stage_self ..)
  | reply hc hread hne hm =>
    obtain rfl := hown hst
    obtain rfl := Option.some.inj (hc.symm.trans hn)
    exact .reply _ _ _ hread hne hm (set_stage_self ..)
  | update hc hreplied =>
    obtain rfl := hown hst
    obtain rfl := Option.some.inj (hc.symm.trans hn)
    exact .update _ hreplied (set_nodes_self ..) (set_stage_self ..)
  | notify hc hnotifying hm =>
    obtain rfl := hown hst
    obtain rfl := Option.some.inj (hc.symm.trans hn)
    exact .notify _ _ hnotifying hm (set_nodes_self ..) (set_stage_self ..)
  | fixFingers hc _ _ =>
    obtain rfl := hown hst
    exact absurd (set_stage_self ..) hst

/-! ### Fair runs -/

/-- A run in which nobody joins and every node takes the next step of its rounds
of `stabilize` again and again.  `fix_fingers` may come at any time, and at some
times nothing happens. -/
structure FairRun (f : ℕ → State M) : Prop where
  step : ∀ t, f (t + 1) = f t ∨ Step (f t) (f (t + 1))
  closed : ∀ t a, ((f (t + 1)).nodes a).isSome = ((f t).nodes a).isSome
  fair : ∀ a, ((f 0).nodes a).isSome → ∀ t, ∃ u, t ≤ u ∧ (f (u + 1)).stage a ≠ (f u).stage a

namespace FairRun

theorem isSome (h : FairRun f) (t : ℕ) (a : String) :
    ((f t).nodes a).isSome = ((f 0).nodes a).isSome := by
  induction t with
  | zero => rfl
  | succ t ih => exact (h.closed t a).trans ih

theorem inv (h : FairRun f) (h₀ : (f 0).Inv b) (t : ℕ) : (f t).Inv b := by
  induction t with
  | zero => exact h₀
  | succ t ih =>
    rcases h.step t with he | hstep
    · rw [he]
      exact ih
    · exact (hstep.inv ih).2

theorem nearer (h : FairRun f) (h₀ : (f 0).Inv b) (hn : (f t).nodes a = some n) :
    ∃ n', (f (t + 1)).nodes a = some n' ∧ n.Nearer n' := by
  rcases h.step t with he | hstep
  · exact ⟨n, by rw [he, hn], .refl n⟩
  · exact hstep.nearer (h.inv h₀ t) hn

/-- The next step of a node in its round. -/
theorem next_advance (h : FairRun f) (ha : ((f t).nodes a).isSome) :
    ∃ u, t ≤ u ∧ (f u).stage a = (f t).stage a ∧
      ∃ n, (f u).nodes a = some n ∧ Advance (f u) (f (u + 1)) a n := by
  rw [h.isSome t a] at ha
  obtain ⟨v, htv, hchange⟩ := h.fair a ha t
  obtain ⟨u, htu, hsame, hnext⟩ := Fair.exists_first_change (g := fun t => (f t).stage a) htv hchange
  obtain ⟨n, hn⟩ := Option.isSome_iff_exists.1 ((h.isSome u a).trans ha)
  refine ⟨u, htu, hsame, n, hn, ?_⟩
  rcases h.step u with he | hstep
  · exact absurd (congrArg (fun s : State M => s.stage a) he) hnext
  · exact hstep.advance hn hnext

end FairRun

/-- From time `T` on no pointer changes. -/
def Level (f : ℕ → State M) (T : ℕ) : Prop :=
  ∀ t, T ≤ t → ∀ a n, (f T).nodes a = some n → ∃ n', (f t).nodes a = some n' ∧ n.Same n'

/-- The weight of the node at an address. -/
def weightAt (s : State M) (a : String) : ℕ := (s.nodes a).elim 0 ChordNode.weight

theorem FairRun.weightAt_le (h : FairRun f) (h₀ : (f 0).Inv b) (t : ℕ) (a : String) :
    (f (t + 1)).weightAt a ≤ (f t).weightAt a := by
  unfold weightAt
  cases hn : (f t).nodes a with
  | none =>
    have hclosed := h.closed t a
    rw [hn, Option.isSome_none, Option.isSome_eq_false_iff, Option.isNone_iff_eq_none] at hclosed
    rw [hclosed]
  | some n =>
    obtain ⟨n', hn', hnear⟩ := h.nearer h₀ hn
    rw [hn']
    exact hnear.weight_le

/-- **From some time on no pointer changes**, as finitely many nodes have joined. -/
theorem FairRun.exists_level (h : FairRun f) (h₀ : (f 0).Inv b)
    (hfin : Set.Finite {a | ((f 0).nodes a).isSome}) : ∃ T, Level f T := by
  obtain ⟨T, hT⟩ := Fair.eventually_all (P := fun a t => (f (t + 1)).weightAt a = (f t).weightAt a)
    hfin.toFinset.toList fun a _ => by
      obtain ⟨T, hT⟩ := Fair.eventually_const (g := fun t => (f t).weightAt a)
        fun t => h.weightAt_le h₀ t a
      exact ⟨T, fun t ht => (hT (t + 1) (by omega)).trans (hT t ht).symm⟩
  refine ⟨T, fun t ht => ?_⟩
  induction t, ht using Nat.le_induction with
  | base => exact fun a n hn => ⟨n, hn, .refl n⟩
  | succ t ht ih =>
    intro a n hn
    obtain ⟨n₁, hn₁, hsame₁⟩ := ih a n hn
    obtain ⟨n₂, hn₂, hnear⟩ := h.nearer h₀ hn₁
    have hmem : a ∈ hfin.toFinset.toList := by
      rw [Finset.mem_toList, Set.Finite.mem_toFinset, Set.mem_ofPred_eq, ← h.isSome t a, hn₁]
      rfl
    have hw := hT t ht a hmem
    unfold weightAt at hw
    rw [hn₁, hn₂] at hw
    have hi := h.inv h₀ t
    exact ⟨n₂, hn₂, hsame₁.trans (hnear.same (hi.id_lt hn₁) (hi.predecessor_lt hn₁)
      ((h.inv h₀ (t + 1)).predecessor_lt hn₂) hw)⟩

/-- Finitely many nodes have joined. -/
theorem Steps.finite (h : Steps s s') (hs : Set.Finite {a | (s.nodes a).isSome}) :
    Set.Finite {a | (s'.nodes a).isSome} := by
  have hset : ∀ {s : State M} {c x : String} {k : ChordNode M} {st : Stage},
      Set.Finite {a | (s.nodes a).isSome} → Set.Finite {a | ((s.set c k x st).nodes a).isSome} := by
    intro s c x k st hfin
    refine Set.Finite.subset (hfin.union (Set.finite_singleton c)) fun a ha => ?_
    by_cases hac : a = c
    · exact .inr hac
    · rw [Set.mem_ofPred_eq, set_nodes_ne hac] at ha
      exact .inl ha
  induction h with
  | refl => exact hs
  | tail _ hstep ih => cases hstep <;> exact hset ih

theorem finite_start (b : String) (idb : ℕ) :
    Set.Finite {a | ((start (M := M) b idb).nodes a).isSome} := by
  refine Set.Finite.subset (Set.finite_singleton b) fun a ha => ?_
  by_contra hne
  have hnone : (start (M := M) b idb).nodes a = none :=
    Function.update_of_ne hne _ fun _ => none
  rw [Set.mem_ofPred_eq, hnone] at ha
  cases ha

/-! ### What a round finds that changes nothing -/

/-- The successor of a node names it for its predecessor; a node that is its own
successor knows of nobody else. -/
def QuietAt (s : State M) (n : ChordNode M) : Prop :=
  n.successor.id = n.nodeId ∧ (∀ p ∈ n.predecessor, p.id = n.nodeId) ∨
    n.successor.id ≠ n.nodeId ∧ ∃ m q, s.nodes n.successor.address = some m ∧
      m.predecessor = some q ∧ q.id = n.nodeId

/-- Every node is so. -/
def Quiet (s : State M) : Prop := ∀ a n, s.nodes a = some n → s.QuietAt n

/-- What lies no farther before the successor than the node, and not between the two, is the node. -/
theorem eq_of_not_between {N n q d : ℕ} (hn : n < N) (hq : q < N)
    (hle : arc N q d ≤ arc N n d) (hnot : ¬ arc N n q < arc N n d) : q = n := by
  unfold arc at *
  split_ifs at * <;> omega

namespace FairRun

/-- The step of an idle node. -/
theorem of_idle (h : FairRun f) (ha : ((f t).nodes a).isSome) (hst : (f t).stage a = .idle) :
    ∃ u, t ≤ u ∧ ∃ n, (f u).nodes a = some n ∧
      (f (u + 1)).stage a = .read n.successor n.predecessor := by
  obtain ⟨u, htu, hsame, n, hn, hadv⟩ := h.next_advance ha
  rw [hst] at hsame
  cases hadv with
  | read _ hnext => exact ⟨u, htu, n, hn, hnext⟩
  | alone _ _ hs | reply _ _ _ hs | update _ hs | notify _ _ hs =>
    rw [hsame] at hs
    cases hs

/-- The step of a node that has read its pointers. -/
theorem of_read {succ : NodeRef} {pred : Option NodeRef} (h : FairRun f)
    (ha : ((f t).nodes a).isSome) (hst : (f t).stage a = .read succ pred) :
    ∃ u, t ≤ u ∧ ∃ n, (f u).nodes a = some n ∧
      (succ.id = n.nodeId ∧ (f (u + 1)).nodes a = some (n.stabilizeAlone pred) ∧
          (f (u + 1)).stage a = .idle ∨
        succ.id ≠ n.nodeId ∧ ∃ m, (f u).nodes succ.address = some m ∧
          (f (u + 1)).stage a = .replied m.predecessor) := by
  obtain ⟨u, htu, hsame, n, hn, hadv⟩ := h.next_advance ha
  rw [hst] at hsame
  cases hadv with
  | alone _ _ hs hself hnode hnext =>
    rw [hsame] at hs
    cases hs
    exact ⟨u, htu, n, hn, .inl ⟨hself, hnode, hnext⟩⟩
  | reply _ _ m hs hne hm hnext =>
    rw [hsame] at hs
    cases hs
    exact ⟨u, htu, n, hn, .inr ⟨hne, m, hm, hnext⟩⟩
  | read hs | update _ hs | notify _ _ hs =>
    rw [hsame] at hs
    cases hs

/-- The step of a node that its successor has answered. -/
theorem of_replied {x : Option NodeRef} (h : FairRun f) (ha : ((f t).nodes a).isSome)
    (hst : (f t).stage a = .replied x) :
    ∃ u, t ≤ u ∧ ∃ n, (f u).nodes a = some n ∧ (f (u + 1)).nodes a = some (n.stabilizeUpdate x) ∧
      (f (u + 1)).stage a = .notifying (n.stabilizeUpdate x).successor.address := by
  obtain ⟨u, htu, hsame, n, hn, hadv⟩ := h.next_advance ha
  rw [hst] at hsame
  cases hadv with
  | update _ hs hnode hnext =>
    rw [hsame] at hs
    cases hs
    exact ⟨u, htu, n, hn, hnode, hnext⟩
  | read hs | alone _ _ hs | reply _ _ _ hs | notify _ _ hs =>
    rw [hsame] at hs
    cases hs

/-- The step of a node whose notification is on its way. -/
theorem of_notifying {d : String} (h : FairRun f) (ha : ((f t).nodes a).isSome)
    (hst : (f t).stage a = .notifying d) :
    ∃ u, t ≤ u ∧ ∃ n m, (f u).nodes a = some n ∧ (f u).nodes d = some m ∧
      (f (u + 1)).nodes d = some (m.notify n.ref) ∧ (f (u + 1)).stage a = .idle := by
  obtain ⟨u, htu, hsame, n, hn, hadv⟩ := h.next_advance ha
  rw [hst] at hsame
  cases hadv with
  | notify _ m hs hm hnode hnext =>
    rw [hsame] at hs
    cases hs
    exact ⟨u, htu, n, m, hn, hm, hnode, hnext⟩
  | read hs | alone _ _ hs | reply _ _ _ hs | update _ hs =>
    rw [hsame] at hs
    cases hs

/-- A node is idle again and again. -/
theorem exists_idle (h : FairRun f) (ha : ((f t).nodes a).isSome) :
    ∃ u, t ≤ u ∧ (f u).stage a = .idle := by
  have hall : ∀ u, ((f u).nodes a).isSome := fun u => by
    rw [h.isSome u a, ← h.isSome t a]
    exact ha
  have hnotifying : ∀ t d, (f t).stage a = .notifying d → ∃ u, t ≤ u ∧ (f u).stage a = .idle := by
    intro t d hst
    obtain ⟨u, htu, _, _, _, _, _, hidle⟩ := h.of_notifying (hall t) hst
    exact ⟨u + 1, by omega, hidle⟩
  have hreplied : ∀ t x, (f t).stage a = .replied x → ∃ u, t ≤ u ∧ (f u).stage a = .idle := by
    intro t x hst
    obtain ⟨u, htu, _, _, _, hnext⟩ := h.of_replied (hall t) hst
    obtain ⟨v, huv, hv⟩ := hnotifying (u + 1) _ hnext
    exact ⟨v, by omega, hv⟩
  cases hst : (f t).stage a with
  | idle => exact ⟨t, le_rfl, hst⟩
  | replied x => exact hreplied t x hst
  | notifying d => exact hnotifying t d hst
  | read succ pred =>
    obtain ⟨u, htu, _, _, ⟨_, _, hidle⟩ | ⟨_, _, _, hnext⟩⟩ := h.of_read (hall t) hst
    · exact ⟨u + 1, by omega, hidle⟩
    · obtain ⟨v, huv, hv⟩ := hreplied (u + 1) _ hnext
      exact ⟨v, by omega, hv⟩

/-- **A round that changes nothing has found the successor right**, and every node has one. -/
theorem quiet (h : FairRun f) (h₀ : (f 0).Inv b) (hlevel : Level f T) : (f T).Quiet := by
  intro a n hn
  have hi := h.inv h₀ T
  have hsome : ∀ t, ((f t).nodes a).isSome := fun t => by
    rw [h.isSome t a, ← h.isSome T a, hn]
    rfl
  have hsame : ∀ {t c k k'}, T ≤ t → (f T).nodes c = some k → (f t).nodes c = some k' → k.Same k' := by
    intro t c k k' ht hk hk'
    obtain ⟨k₁, hk₁, hs⟩ := hlevel t ht c k hk
    obtain rfl := Option.some.inj (hk₁.symm.trans hk')
    exact hs
  obtain ⟨t₀, ht₀, hidle⟩ := h.exists_idle (hsome T)
  obtain ⟨t₁, ht₁, n₁, hn₁, hread⟩ := h.of_idle (hsome t₀) hidle
  have hs₁ := hsame (by omega) hn hn₁
  obtain ⟨t₂, ht₂, n₂, hn₂, hround⟩ := h.of_read (hsome (t₁ + 1)) hread
  have hs₂ := hsame (by omega) hn hn₂
  rcases hround with ⟨hself, hnode, -⟩ | ⟨hne, m₂, hm₂, hreplied⟩
  · -- the node is its own successor and has not taken its predecessor for it
    have hself' : n.successor.id = n.nodeId := by rw [← hs₁.successor, hself, hs₂.nodeId]
    refine .inl ⟨hself', fun p hp => ?_⟩
    have hsucc := (hsame (by omega) hn hnode).successor
    have hpred := hs₁.predecessor
    rw [Option.mem_def.1 hp] at hpred
    obtain ⟨q, hq, hqid⟩ := Option.map_eq_some_iff.1 hpred
    by_contra hpne
    unfold ChordNode.stabilizeAlone at hsucc
    rw [hq] at hsucc
    dsimp only at hsucc
    rw [if_pos (by rw [hqid, hs₂.nodeId]; exact hpne), ChordNode.setSuccessor_successor] at hsucc
    exact hpne (by rw [← hqid, hsucc, hself'])
  · rw [hs₁.successor] at hm₂
    rw [hs₁.successor, hs₂.nodeId] at hne
    obtain ⟨t₃, ht₃, n₃, hn₃, hnode₃, hnotifying⟩ := h.of_replied (hsome (t₂ + 1)) hreplied
    have hs₃ := hsame (by omega) hn hn₃
    have hkept := (hsame (by omega) hn hnode₃).successor
    rw [hkept] at hnotifying
    obtain ⟨t₄, ht₄, n₄, m₄, hn₄, hm₄, hnode₄, -⟩ := h.of_notifying (hsome (t₃ + 1)) hnotifying
    have hs₄ := hsame (by omega) hn hn₄
    obtain ⟨m, hm, hmid⟩ := hi.successor hn
    have hi₄ := h.inv h₀ t₄
    -- the node has told the successor of itself
    obtain ⟨-, q, hq, hle⟩ := ChordNode.notify_before (hi₄.id_lt hm₄) (hi₄.predecessor_lt hm₄)
      (r := n₄.ref) (hi₄.id_lt hn₄)
    have hpred := (hsame (by omega) hm hnode₄).predecessor
    rw [hq, Option.map_some] at hpred
    obtain ⟨p, hp, hpq⟩ := Option.map_eq_some_iff.1 hpred.symm
    rw [← hpq, (hsame (by omega) hm hm₄).nodeId, show n₄.ref.id = n.nodeId from hs₄.nodeId] at hle
    -- and what the successor had answered does not lie between the two
    have hpred₂ := (hsame (by omega) hm hm₂).predecessor
    rw [hp, Option.map_some] at hpred₂
    obtain ⟨r, hr, hrp⟩ := Option.map_eq_some_iff.1 hpred₂
    have hplt : p.id < 2 ^ M := hi.predecessor_lt hm p hp
    have hnot : ¬ arc (2 ^ M) n.nodeId p.id < arc (2 ^ M) n.nodeId m.nodeId := by
      intro hlt
      have hin : inRange r.id n₃.nodeId n₃.successor.id false = true := by
        rw [hs₃.nodeId, hs₃.successor, hrp, inRange_exclusive hplt (hi.id_lt hn)
          (hi.successor_lt hn) (Ne.symm hne), ← hmid]
        exact hlt
      unfold ChordNode.stabilizeUpdate at hkept
      rw [hr] at hkept
      dsimp only at hkept
      rw [if_pos hin, ChordNode.setSuccessor_successor] at hkept
      rw [← hrp, hkept, ← hmid] at hlt
      exact Nat.lt_irrefl _ hlt
    exact .inr ⟨hne, m, p, hm, hp, eq_of_not_between (hi.id_lt hn) hplt hle hnot⟩

end FairRun

/-! ### The quiet ring -/

/-- All pointers are right: the successor is the next node clockwise, and has the node for its
predecessor unless it is the node itself. -/
def Settled (s : State M) : Prop :=
  ∀ a n, s.nodes a = some n → ∃ m, s.nodes n.successor.address = some m ∧
    m.nodeId = n.successor.id ∧
    (∀ c k, s.nodes c = some k → arc (2 ^ M) n.nodeId m.nodeId ≤ arc (2 ^ M) n.nodeId k.nodeId) ∧
    (m.nodeId ≠ n.nodeId → m.predecessor = some n.ref)

/-- No two nodes of a quiet ring have the same successor. -/
theorem Inv.injective_of_quiet {u v w : String} (hi : s.Inv b) (hq : s.Quiet)
    (hu : Points s.next u w) (hv : Points s.next v w) : u = v := by
  have hnode : ∀ {x}, Points s.next x w → ∃ n, s.nodes x = some n ∧ n.successor.address = w := by
    intro x hx
    simpa [Points, next] using hx
  obtain ⟨n, hn, rfl⟩ := hnode hu
  obtain ⟨k, hk, haddr⟩ := hnode hv
  obtain ⟨m, hm, hmid⟩ := hi.successor hn
  have hkid : m.nodeId = k.successor.id := by
    obtain ⟨m', hm', hmid'⟩ := hi.successor hk
    rw [haddr] at hm'
    obtain rfl := Option.some.inj (hm.symm.trans hm')
    exact hmid'
  have hself : ∀ {x l}, s.nodes x = some l → m.nodeId = l.nodeId → m = l := by
    intro x l hl hid
    obtain rfl := hi.distinct hm hl hid
    exact Option.some.inj (hm.symm.trans hl)
  -- who is his own successor knows of nobody else, so nobody else has it for a successor
  rcases hq u n hn with ⟨hnn, hnone⟩ | ⟨hnn, mn, p, hmn, hp, hpid⟩ <;>
    rcases hq v k hk with ⟨hkk, hkone⟩ | ⟨hkk, mk, q, hmk, hq', hqid⟩
  · exact hi.distinct hn hk (by omega)
  · rw [haddr] at hmk
    obtain rfl := Option.some.inj (hm.symm.trans hmk)
    obtain rfl := hself hn (by omega)
    have hqm := hnone q hq'
    omega
  · obtain rfl := Option.some.inj (hm.symm.trans hmn)
    obtain rfl := hself hk (by omega)
    have hpm := hkone p hp
    omega
  · rw [haddr] at hmk
    obtain rfl := Option.some.inj (hm.symm.trans hmn)
    obtain rfl := Option.some.inj (hm.symm.trans hmk)
    rw [hp] at hq'
    cases hq'
    exact hi.distinct hn hk (by omega)

/-- **A quiet ring has settled**: as no two nodes have the same successor, every
node is on the cycle of the bootstrap node, which is in clockwise order. -/
theorem Inv.settled_of_quiet (hi : s.Inv b) (hq : s.Quiet) : s.Settled := by
  obtain ⟨vs, hchain, hlast, hsorted, -⟩ := hi.turn.exists_trail hi.pos_lt le_rfl
  have hcycle : ∀ {a}, Relation.TransGen (Points s.next) a b →
      Relation.TransGen (Points s.next) a a := by
    intro a hreach
    induction hreach using Relation.TransGen.head_induction_on with
    | single hp =>
      obtain ⟨w, hw, hwb⟩ := Relation.TransGen.tail'_iff.1 hi.turn.reaches
      obtain rfl := hi.injective_of_quiet hq hp hwb
      exact .head' hp hw
    | head hp _ ih =>
      obtain ⟨w, hw, hwb⟩ := Relation.TransGen.tail'_iff.1 ih
      obtain rfl := hi.injective_of_quiet hq hp hwb
      exact .head' hp hw
  have hmem : ∀ {a n}, s.nodes a = some n → a ∈ vs := fun hn => by
    obtain ⟨L, hL⟩ := hi.reaches hn
    exact mem_trail_of_cycle hchain hlast hL.reaches.to_reflTransGen (hcycle hL.reaches)
  have hpos : ∀ v ∈ vs, s.pos v < 2 ^ M := by
    intro v hv
    obtain ⟨w, hw, -⟩ := Relation.TransGen.head'_iff.1 (cycle_of_mem_trail hchain hlast hv)
    exact (hi.pos_lt _ _ hw).1
  intro a n hn
  obtain ⟨m, hm, hmid⟩ := hi.successor hn
  refine ⟨m, hm, hmid, fun c k hk => ?_, fun hne => ?_⟩
  · have hle := trail_next hchain hlast hsorted hpos (hmem hn) ((points_iff hn).2 rfl) c (hmem hk)
    rwa [pos_eq hn, pos_eq hm, pos_eq hk] at hle
  · rcases hq a n hn with ⟨hself, -⟩ | ⟨-, m', p, hm', hp, hpid⟩
    · exact absurd (hmid.trans hself) hne
    · obtain rfl := Option.some.inj (hm.symm.trans hm')
      rw [hp, hi.eq_of_names hn (hi.predecessor hm hp).1 hpid]

/-- **The ring settles.**  From any state reached by joins, steps of `stabilize`
and of `fix_fingers` in any order, and in any run from there in which nobody
joins any more and every node takes the next step of its rounds again and again:
from some time on every successor is the next node clockwise, and has the node
for its predecessor unless the node is alone. -/
theorem settles {b : String} {idb : ℕ} (hb : idb < 2 ^ M)
    (hreached : Steps (start (M := M) b idb) (f 0)) (h : FairRun f) :
    ∃ T, ∀ t, T ≤ t → (f t).Settled := by
  have h₀ : (f 0).Inv b := (hreached.inv (inv_start hb)).2
  obtain ⟨T, hT⟩ := h.exists_level h₀ (hreached.finite (finite_start b idb))
  have hlevel : ∀ t, T ≤ t → Level f t := by
    intro t ht u htu a n hn
    have hsome : ((f T).nodes a).isSome := by
      rw [h.isSome T a, ← h.isSome t a, hn]
      rfl
    obtain ⟨k, hk⟩ := Option.isSome_iff_exists.1 hsome
    obtain ⟨n', hn', hs⟩ := hT t ht a k hk
    obtain rfl := Option.some.inj (hn'.symm.trans hn)
    obtain ⟨n₂, hn₂, hs₂⟩ := hT u (ht.trans htu) a k hk
    exact ⟨n₂, hn₂, hs.symm.trans hs₂⟩
  exact ⟨T, fun t ht => (h.inv h₀ t).settled_of_quiet (h.quiet h₀ (hlevel t ht))⟩

/-! ### There is such a run -/

/-- **Every node can always take the next step of its round.** -/
theorem Inv.exists_advance (hi : s.Inv b) (hn : s.nodes a = some n) :
    ∃ s', Step s s' ∧ s'.stage a ≠ s.stage a ∧ ∀ c, (s'.nodes c).isSome = (s.nodes c).isSome := by
  have hset : ∀ {c k k' st}, s.nodes c = some k → ∀ d,
      ((s.set c k' a st).nodes d).isSome = (s.nodes d).isSome := by
    intro c k k' st hk d
    by_cases hd : d = c
    · subst hd
      rw [set_nodes_self, hk]
      rfl
    · rw [set_nodes_ne hd]
  have hok := hi.stage hn
  cases hst : s.stage a with
  | idle => exact ⟨_, .read hn hst, by rw [set_stage_self]; nofun, hset hn⟩
  | read succ pred =>
    rw [hst] at hok
    obtain ⟨rfl, -⟩ := hok
    by_cases hself : n.successor.id = n.nodeId
    · exact ⟨_, .alone hn hst hself, by rw [set_stage_self]; nofun, hset hn⟩
    · obtain ⟨m, hm, -⟩ := hi.successor hn
      exact ⟨_, .reply hn hst hself hm, by rw [set_stage_self]; nofun, hset hn⟩
  | replied x => exact ⟨_, .update hn hst, by rw [set_stage_self]; nofun, hset hn⟩
  | notifying t =>
    rw [hst] at hok
    obtain ⟨⟨m, hm⟩, -⟩ := hok
    exact ⟨_, .notify hn hst hm, by rw [set_stage_self]; nofun, hset hm⟩

/-- From every state that was reached there is a fair run. -/
theorem exists_fairRun {b : String} {idb : ℕ} (hb : idb < 2 ^ M)
    (hreached : Steps (start (M := M) b idb) s) : ∃ f : ℕ → State M, f 0 = s ∧ FairRun f := by
  have hi : s.Inv b := (hreached.inv (inv_start hb)).2
  have hfin := hreached.finite (finite_start b idb)
  have hmem : ∀ {a}, a ∈ hfin.toFinset.toList ↔ (s.nodes a).isSome := by
    intro a
    rw [Finset.mem_toList, Set.Finite.mem_toFinset, Set.mem_ofPred_eq]
  have hne : hfin.toFinset.toList ≠ [] := by
    obtain ⟨n, hn⟩ : ∃ n, s.nodes b = some n := by
      obtain ⟨w, hw, -⟩ := Relation.TransGen.head'_iff.1 hi.turn.reaches
      obtain ⟨n, hn, -⟩ : ∃ n, s.nodes b = some n ∧ n.successor.address = w := by
        simpa [Points, next] using hw
      exact ⟨n, hn⟩
    exact List.ne_nil_of_mem (hmem.2 (by rw [hn]; rfl))
  obtain ⟨f, rfl, hstep, hfair⟩ := Fair.exists_turns
    (fun r : State M => r.Inv b ∧ ∀ c, (r.nodes c).isSome = (s.nodes c).isSome)
    (fun a r r' => Step r r' ∧ r'.stage a ≠ r.stage a ∧
      ∀ c, (r'.nodes c).isSome = (r.nodes c).isSome)
    (fun r hr a ha => by
      obtain ⟨n, hn⟩ := Option.isSome_iff_exists.1 ((hr.2 a).trans (hmem.1 ha))
      obtain ⟨r', hadv, hst, hsome⟩ := hr.1.exists_advance hn
      exact ⟨r', ⟨(hadv.inv hr.1).2, fun c => (hsome c).trans (hr.2 c)⟩, hadv, hst, hsome⟩)
    hne ⟨hi, fun _ => rfl⟩
  refine ⟨f, rfl, fun t => ?_, fun t => ?_, fun a ha t => ?_⟩
  · obtain ⟨a, -, hadv, -⟩ := hstep t
    exact .inr hadv
  · obtain ⟨a, -, -, -, hsome⟩ := hstep t
    exact hsome
  · obtain ⟨u, htu, -, hst, -⟩ := hfair a (hmem.2 ha) t
    exact ⟨u, htu, hst⟩

/-- Node `11` has joined node `10` and neither has done anything since. -/
def twoJoined : State 8 :=
  (start (M := 8) "a" 10).set "b" ((ChordNode.init 8 "b" 11).join (some ⟨10, "a"⟩)) "b" .idle

theorem steps_twoJoined : Steps (start (M := 8) "a" 10) twoJoined := by
  refine .single (Step.join (m := (ChordNode.init 8 "a" 10).join none)
    (by simp [start]) (by decide) (fun c n hn => ?_) (by simp [start, ChordNode.init]))
  by_cases hc : c = "a"
  · subst hc
    obtain rfl : (ChordNode.init 8 "a" 10).join none = n := by simpa [start] using hn
    decide
  · simp [start, hc] at hn

/-- The hypotheses of `settles` are satisfiable: node `11` has joined node `10`,
and neither knows of it; in some fair run from there the ring settles. -/
theorem settles_twoJoined :
    ∃ f : ℕ → State 8, f 0 = twoJoined ∧ FairRun f ∧ ∃ T, ∀ t, T ≤ t → (f t).Settled := by
  obtain ⟨f, hf, h⟩ := exists_fairRun (by decide) steps_twoJoined
  have hreached : Steps (start (M := 8) "a" 10) (f 0) := by
    rw [hf]
    exact steps_twoJoined
  exact ⟨f, hf, h, settles (by decide) hreached h⟩

end State
end Ring
end ChordInfra
