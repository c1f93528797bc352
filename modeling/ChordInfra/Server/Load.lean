/-
# The load of a worker

The score of a worker weighs the tasks that its last heartbeat counted and those that were placed on
it since.  A heartbeat counts what the process has in flight and takes the other count back to zero,
so a task that is placed and waits on the list of the worker is counted by neither.

`effectiveLoad_covers` is the theorem for runs in which a heartbeat counts every task of the worker:
its load is then never less than the number of its tasks that are not reported.
-/

import ChordInfra.Interact.Count
import ChordInfra.Server.Errand

namespace ChordInfra
namespace Server

open Interact Prog
open Storage
open ChordInfra.Ring (NodeRef)
open Workers (Process Registry)

/-! ### Steps -/

section Steps

variable {env : Env} (ring : FixedRing env) (home : String → Address) {ι : Type}

/-- The tasks of a worker that are not reported: the record that the owner keeps names the worker
and is pending. -/
def unreported (w : World) (v : String) : Set String :=
  {x | strip x = x ∧ ∃ r : ResultRecord,
    (w.stores (keeper ring.toOwned x)).get (.result x) = some (.result r) ∧ r.workerId = v ∧
      r.status = .pending}

/-- How many tasks a worker has that are not reported, or will have when their records are
written. -/
noncomputable def burden (γ : ι → Option Errand) (w : World) (v : String) : ℕ :=
  (unreported ring w v).ncard + headcount (Errand.Picked v) γ

/-- The load of every worker at its node covers its tasks, and so does every count that is under
way. -/
structure Covered (γ : ι → Option Errand) (w : World) : Prop where
  few : Few γ
  homes : ∀ b v t, (w.registries b).workers.get v = some t → home v = b
  finite : ∀ v, (unreported ring w v).Finite
  covers : ∀ v, (burden ring γ w v : ℤ) ≤ (w.registries (home v)).effectiveLoad v
  beats : ∀ i v n, γ i = some (.beats v n) → burden ring γ w v ≤ n

/-- When every task of a worker is counted: its tasks that are not reported are in flight at the
process that counts and no request is about to queue one, and the worker is picked while none of its
heartbeats is under way. -/
def Timely (γ : ι → Option Errand) (w : World) : Op → Prop
  | .memory p .pending =>
    (∀ x ∈ unreported ring w p.workerId, ∃ t ∈ (w.memories p).inflight, strip t = x) ∧
      ∀ j x, γ j ≠ some (.picked x p.workerId)
  | .registry _ (.noteAssignment v) => ∀ j n, γ j ≠ some (.beats v n)
  | _ => True

variable {ring home} {w : World} {o : Op} {g g' : Errand} {v x : String}

/-- A task that is not reported was not reported before, or was queued. -/
theorem unreported_handle (h : x ∈ unreported ring (handle env o w).2 v) :
    x ∈ unreported ring w v ∨ ∃ r, Queues ring o x r ∧ r.workerId = v := by
  obtain ⟨hx, r, hr, hv, hpending⟩ := h
  obtain ⟨d, -, ⟨u, hwrite, -, hget⟩ | ⟨-, hget⟩ | ⟨-, -, hget⟩⟩ :=
    handle_get env o w (keeper ring.toOwned x) (.result x)
  · rw [hget] at hr
    cases hr
    exact .inr ⟨r, ⟨hwrite, hx, hpending⟩, hv⟩
  · rw [hget] at hr
    cases hr
  · exact .inl ⟨hx, r, hget ▸ hr, hv, hpending⟩

theorem queues_unique {y : String} {r r' : ResultRecord} (h : Queues ring o x r)
    (h' : Queues ring o y r') : y = x ∧ r' = r := by
  have hsame := h.1.symm.trans h'.1
  simp only [Option.some.injEq, Prod.mk.injEq, Key.result.injEq, Value.result.injEq] at hsame
  exact ⟨hsame.2.1.symm, hsame.2.2.symm⟩

/-- Only who picked a worker queues a task. -/
theorem picked_of_queues {r : ResultRecord} (ho : Bears ring home g o) (hq : Queues ring o x r) :
    g = .picked x r.workerId ∧ ∀ a : o.Res, g.note ring.toOwned o a = .idle := by
  have hwrite : (Errand.picked x r.workerId).write ring.toOwned o = .idle := write_queue _ hq.1
  cases o with
  | put a k u => exact ⟨ho x r hq, fun _ => (ho x r hq) ▸ hwrite⟩
  | rpc a q => exact ⟨ho x r hq, fun _ => (ho x r hq) ▸ hwrite⟩
  | _ => cases hq.1

theorem finite_handle (h : (unreported ring w v).Finite) :
    (unreported ring (handle env o w).2 v).Finite := by
  by_cases hq : ∃ x r, Queues ring o x r
  · obtain ⟨x, r, hq⟩ := hq
    refine (h.insert x).subset fun y hy => ?_
    rcases unreported_handle hy with hold | ⟨r', hq', -⟩
    · exact .inr hold
    · exact .inl (queues_unique hq hq').1
  · refine h.subset fun y hy => (unreported_handle hy).resolve_right ?_
    rintro ⟨r', hq', -⟩
    exact hq ⟨y, r', hq'⟩

/-- A worker is picked by the placement only. -/
theorem picked_note {a : o.Res} (h : (g.note ring.toOwned o a).Picked v) :
    g.Picked v ∨ (∃ x, g = .asks x) ∧ ∃ b, o = .registry b (.noteAssignment v) := by
  rcases g.note_cases ring.toOwned o a with
    ⟨b, u, rfl, hnote⟩ | ⟨p, k, rfl, hnote⟩ | hnote | hnote | hnote <;>
      rw [hnote] at h <;> obtain ⟨x, hx⟩ := h
  · cases g with
    | asks y =>
      cases hx
      exact .inr ⟨⟨_, rfl⟩, b, rfl⟩
    | _ => exact .inl ⟨x, hx⟩
  · cases g with
    | picked => exact .inl ⟨x, hx⟩
    | _ => cases hx
  · cases g with
    | beats => cases hx
    | _ => exact .inl ⟨x, hx⟩
  · exact .inl ⟨x, hx⟩
  · cases g with
    | picked y u =>
      simp only [Errand.write] at hx
      split_ifs at hx
      exact .inl ⟨x, hx⟩
    | _ => cases hx

/-- A heartbeat is under way since the tasks were counted. -/
theorem beats_note {a : o.Res} {n : ℕ} (h : g.note ring.toOwned o a = .beats v n) :
    g = .beats v n ∨ ∃ p : Process, o = .memory p .pending := by
  rcases g.note_cases ring.toOwned o a with
    ⟨b, u, rfl, hnote⟩ | ⟨p, k, rfl, -⟩ | hnote | hnote | hnote
  · rw [hnote] at h
    cases g with
    | asks y => cases h
    | _ => exact .inl h
  · exact .inr ⟨p, rfl⟩
  · rw [hnote] at h
    cases g with
    | beats => cases h
    | _ => exact .inl h
  · exact .inl (hnote ▸ h)
  · rw [hnote] at h
    cases g with
    | picked y u =>
      simp only [Errand.write] at h
      split_ifs at h
    | _ => exact .inl h

section Act

variable [DecidableEq ι] {γ : ι → Option Errand} {i slot : ι} {launched : Option Errand}
  (h : Covered ring home γ w) (hi : γ i = some g)
  (hslot : ∀ t, launched = some t → γ slot = none) (hlaunched : ∀ t, launched = some t → t = .idle)

include hlaunched in
theorem not_picked_launched (v : String) : ∀ t, launched = some t → ¬t.Picked v := by
  rintro t ht ⟨x, hx⟩
  rw [hlaunched t ht] at hx
  cases hx

include h hi hslot hlaunched

/-- A step that places no task adds to no burden: a task that is queued was picked before. -/
theorem burden_le (ho : Bears ring home g o) {a : o.Res} (hg' : g' = g.note ring.toOwned o a)
    (hno : (∃ x, g = .asks x) → ∀ b, o ≠ .registry b (.noteAssignment v)) :
    burden ring (stepped γ i g' slot launched) (handle env o w).2 v ≤ burden ring γ w v := by
  have hpicked : g'.Picked v → g.Picked v := by
    intro hx
    rw [hg'] at hx
    rcases picked_note hx with hg | ⟨hasks, b, rfl⟩
    · exact hg
    · exact absurd rfl (hno hasks b)
  have hcount := headcount_le h.few hi hslot (not_picked_launched hlaunched v) hpicked
  by_cases hq : ∃ x r, Queues ring o x r ∧ r.workerId = v
  · obtain ⟨x, r, hq, rfl⟩ := hq
    obtain ⟨rfl, hidle⟩ := picked_of_queues ho hq
    have hloss : headcount (Errand.Picked r.workerId) (stepped γ i g' slot launched) + 1 =
        headcount (Errand.Picked r.workerId) γ := by
      refine headcount_loss h.few hi hslot (not_picked_launched hlaunched _) ⟨x, rfl⟩ ?_
      rintro ⟨y, hy⟩
      rw [hg', hidle a] at hy
      cases hy
    have hinsert : (unreported ring (handle env o w).2 r.workerId).ncard ≤
        (unreported ring w r.workerId).ncard + 1 := by
      refine (Set.ncard_le_ncard (fun y hy => ?_) ((h.finite _).insert x)).trans
        (Set.ncard_insert_le x _)
      rcases unreported_handle hy with hold | ⟨r', hq', -⟩
      · exact .inr hold
      · exact .inl (queues_unique hq hq').1
    unfold burden
    omega
  · have hsubset : (unreported ring (handle env o w).2 v).ncard ≤ (unreported ring w v).ncard := by
      refine Set.ncard_le_ncard (fun y hy => (unreported_handle hy).resolve_right ?_) (h.finite v)
      rintro ⟨r, hr⟩
      exact hq ⟨y, r, hr⟩
    unfold burden
    omega

/-- A step after which no burden is greater and every load covers what it covered. -/
theorem Covered.step (hhomes : ∀ b v t, ((handle env o w).2.registries b).workers.get v = some t →
      home v = b)
    (hburden : ∀ v, burden ring (stepped γ i g' slot launched) (handle env o w).2 v ≤
      burden ring γ w v)
    (hload : ∀ v, (burden ring γ w v : ℤ) ≤
      ((handle env o w).2.registries (home v)).effectiveLoad v)
    (hbeats : ∀ v n, g' = .beats v n →
      burden ring (stepped γ i g' slot launched) (handle env o w).2 v ≤ n) :
    Covered ring home (stepped γ i g' slot launched) (handle env o w).2 := by
  refine ⟨h.few.stepped .., hhomes, fun v => finite_handle (h.finite v), fun v => ?_,
    fun j v n hj => ?_⟩
  · exact (Int.ofNat_le.2 (hburden v)).trans (hload v)
  · refine forall_stepped (ψ := fun x => ∀ v n, x = .beats v n →
      burden ring (stepped γ i g' slot launched) (handle env o w).2 v ≤ n) (fun j x hj v n hx => ?_)
      hi hslot hbeats (fun t ht v n hx => ?_) hj v n rfl
    · subst hx
      exact (hburden v).trans (h.beats j v n hj)
    · rw [hlaunched t ht] at hx
      cases hx

omit h hi hslot hlaunched in
/-- Without heartbeats and removals the same workers are registered, and no load gets less. -/
theorem registries_handle (ho : ∀ b c, o = .registry b c → c.Quiet) (w : World) (a : Address) :
    ((handle env o w).2.registries a).workers = (w.registries a).workers ∧
      ∀ v, (w.registries a).effectiveLoad v ≤
        ((handle env o w).2.registries a).effectiveLoad v := by
  cases o with
  | registry b c =>
    rw [registry_handle]
    by_cases hab : a = b
    · subst hab
      rw [if_pos rfl]
      exact ⟨((w.registries a).call_of_quiet _ (ho a c rfl)).1,
        fun v => (w.registries a).effectiveLoad_le_call _ (ho a c rfl) v⟩
    · rw [if_neg hab]
      exact ⟨rfl, fun _ => le_rfl⟩
  | _ => exact ⟨rfl, fun _ => le_rfl⟩

/-- A worker is picked, while no heartbeat of it is under way. -/
theorem Covered.places {b : Address} {u x : String} (ho : o = .registry b (.noteAssignment u))
    (hg : g = .asks x) (hg' : g' = .picked x u) (hhome : home u = b) (hu : u ≠ "")
    (hnone : ∀ j n, γ j ≠ some (.beats u n)) :
    Covered ring home (stepped γ i g' slot launched) (handle env o w).2 := by
  have hquiet : ∀ b c, o = .registry b c → c.Quiet := by
    intro b c he
    rw [ho] at he
    cases he
    trivial
  have hbears : Bears ring home g o := by
    rw [ho]
    exact fun _ => ⟨hhome, hu⟩
  have hnote : g' = g.note ring.toOwned o (handle env o w).1 := by
    subst ho hg hg'
    rfl
  have hother : ∀ v, v ≠ u → burden ring (stepped γ i g' slot launched) (handle env o w).2 v ≤
      burden ring γ w v := by
    intro v hv
    refine burden_le h hi hslot hlaunched hbears hnote fun _ b' he => ?_
    rw [ho] at he
    cases he
    exact hv rfl
  have hself : burden ring (stepped γ i g' slot launched) (handle env o w).2 u ≤
      burden ring γ w u + 1 := by
    have hgain := headcount_gain (φ := Errand.Picked u) h.few hi hslot
      (not_picked_launched hlaunched u) (by rw [hg]; rintro ⟨y, hy⟩; cases hy) ⟨x, hg'⟩
    have hsubset : (unreported ring (handle env o w).2 u).ncard ≤ (unreported ring w u).ncard := by
      refine Set.ncard_le_ncard (fun y hy => (unreported_handle hy).resolve_right ?_) (h.finite u)
      rintro ⟨r, hq, -⟩
      rw [ho] at hq
      cases hq.1
    unfold burden
    omega
  refine ⟨h.few.stepped .., fun a v t hv => ?_, fun v => finite_handle (h.finite v), fun v => ?_,
    fun j v n hj => ?_⟩
  · rw [(registries_handle hquiet w a).1] at hv
    exact h.homes a v t hv
  · by_cases hv : v = u
    · subst hv
      have hload : ((handle env o w).2.registries (home v)).effectiveLoad v =
          (w.registries (home v)).effectiveLoad v + 1 := by
        rw [ho, registry_handle, if_pos hhome, hhome]
        exact ((w.registries b).effectiveLoad_noteAssignment hu v).trans (by rw [if_pos rfl])
      have hcovers := h.covers v
      rw [hload]
      omega
    · have hcovers := h.covers v
      have hload : (w.registries (home v)).effectiveLoad v ≤
          ((handle env o w).2.registries (home v)).effectiveLoad v :=
        (registries_handle hquiet w (home v)).2 v
      have hburden := hother v hv
      omega
  · refine forall_stepped (ψ := fun x => ∀ v n, x = .beats v n →
      burden ring (stepped γ i g' slot launched) (handle env o w).2 v ≤ n) (fun j y hj v n hy => ?_)
      hi hslot (fun v n hy => ?_) (fun t ht v n hy => ?_) hj v n rfl
    · subst hy
      have hv : v ≠ u := by
        rintro rfl
        exact hnone j n hj
      exact (hother v hv).trans (h.beats j v n hj)
    · rw [hg'] at hy
      cases hy
    · rw [hlaunched t ht] at hy
      cases hy

/-- A heartbeat arrives. -/
theorem Covered.arrives {b : Address} {u : String} {n : ℤ} {t : Option ℤ} {token : Option String}
    (ho : o = .registry b (.heartbeat u n t token)) (hbears : Bears ring home g o)
    (hg' : g' = g.note ring.toOwned o (handle env o w).1) :
    Covered ring home (stepped γ i g' slot launched) (handle env o w).2 := by
  have hcount := hbears
  rw [ho] at hcount
  obtain ⟨m, rfl, rfl, rfl⟩ := hcount
  have hregistry : (handle env o w).2.registries (home u) = ((w.registries (home u)).heartbeat
      (env.now w.trace.length) u m t token).2 := by
    rw [ho, registry_handle, if_pos rfl]
    rfl
  have hother : ∀ a, a ≠ home u → (handle env o w).2.registries a = w.registries a := by
    intro a ha
    rw [ho, registry_handle, if_neg ha]
  refine h.step hi hslot hlaunched (fun a v s hv => ?_) (fun v => ?_) (fun v => ?_) fun v k hk => ?_
  · by_cases ha : a = home u
    · subst ha
      rw [hregistry] at hv
      change ((w.registries (home u)).workers.set u _).get v = some s at hv
      rw [Dict.get_set] at hv
      split_ifs at hv with hvu
      · rw [hvu]
      · exact h.homes _ v s hv
    · rw [hother a ha] at hv
      exact h.homes a v s hv
  · exact burden_le h hi hslot hlaunched hbears hg' fun _ _ he => (by rw [ho] at he; cases he)
  · by_cases hv : home v = home u
    · rw [hv, hregistry, Registry.effectiveLoad_heartbeat]
      split_ifs with hvu
      · subst hvu
        exact Int.ofNat_le.2 (h.beats i v m hi)
      · rw [← hv]
        exact h.covers v
    · rw [hother _ hv]
      exact h.covers v
  · subst ho hg'
    cases hk

/-- The tasks in flight are counted, and none of the worker is anywhere else. -/
theorem Covered.takes {p : Process} (ho : o = .memory p .pending) (hbears : Bears ring home g o)
    (hg' : g' = g.note ring.toOwned o (handle env o w).1)
    (hflight : ∀ x ∈ unreported ring w p.workerId, ∃ t ∈ (w.memories p).inflight, strip t = x)
    (hnone : ∀ j x, γ j ≠ some (.picked x p.workerId)) :
    Covered ring home (stepped γ i g' slot launched) (handle env o w).2 := by
  have hburden : ∀ v, burden ring (stepped γ i g' slot launched) (handle env o w).2 v ≤
      burden ring γ w v := fun v =>
    burden_le h hi hslot hlaunched hbears hg' fun _ _ he => (by rw [ho] at he; cases he)
  refine h.step hi hslot hlaunched (fun a v t hv => ?_) hburden (fun v => ?_) fun v n hn => ?_
  · subst ho
    exact h.homes a v t hv
  · subst ho
    exact h.covers v
  · have hlength : burden ring γ w p.workerId ≤ (w.memories p).inflight.length := by
      have hzero : headcount (Errand.Picked p.workerId) γ = 0 := by
        have hempty : having (Errand.Picked p.workerId) γ = ∅ := by
          ext j
          simp only [having, Set.mem_ofPred_eq, Set.mem_empty_iff_false, iff_false]
          rintro ⟨x, hx, y, rfl⟩
          exact hnone j y hx
        rw [headcount, hempty, Set.ncard_empty]
      have hsubset : unreported ring w p.workerId ⊆
          (((w.memories p).inflight.map strip).toFinset : Set String) := by
        intro x hx
        obtain ⟨t, ht, rfl⟩ := hflight x hx
        simpa using ⟨t, ht, rfl⟩
      have hcard : (unreported ring w p.workerId).ncard ≤ (w.memories p).inflight.length := by
        refine (Set.ncard_le_ncard hsubset (Finset.finite_toSet _)).trans ?_
        rw [Set.ncard_coe_finset]
        exact (List.toFinset_card_le _).trans (by rw [List.length_map])
      unfold burden
      omega
    have htaken : v = p.workerId ∧ n = (w.memories p).inflight.length ∨ g = .beats v n := by
      subst ho hg'
      cases g with
      | idle =>
        cases hn
        exact .inl ⟨rfl, rfl⟩
      | beats u k =>
        cases hn
        exact .inl ⟨rfl, rfl⟩
      | _ => cases hn
    rcases htaken with ⟨rfl, rfl⟩ | rfl
    · exact (hburden _).trans hlength
    · exact (hburden _).trans (h.beats i v n hi)

/-- Any other step. -/
theorem Covered.quiet (hquiet : ∀ b c, o = .registry b c → c.Quiet) (hbears : Bears ring home g o)
    (hplaces : ∀ v, (∃ x, g = .asks x) → ∀ b, o ≠ .registry b (.noteAssignment v))
    (htakes : ∀ p : Process, o ≠ .memory p .pending)
    (hg' : g' = g.note ring.toOwned o (handle env o w).1) :
    Covered ring home (stepped γ i g' slot launched) (handle env o w).2 := by
  have hburden : ∀ v, burden ring (stepped γ i g' slot launched) (handle env o w).2 v ≤
      burden ring γ w v := fun v => burden_le h hi hslot hlaunched hbears hg' (hplaces v)
  refine h.step hi hslot hlaunched (fun b v t hv => ?_) hburden (fun v => ?_) fun v n hn => ?_
  · rw [(registries_handle hquiet w b).1] at hv
    exact h.homes b v t hv
  · exact (h.covers v).trans ((registries_handle hquiet w (home v)).2 v)
  · rw [hg'] at hn
    rcases beats_note hn with hg | ⟨p, hp⟩
    · rw [hg] at hi
      exact (hburden v).trans (h.beats i v n hi)
    · exact absurd hp (htakes p)

/-- **A step keeps every load over the tasks of its worker**, when every task of a worker is in
flight when these are counted, and no worker is picked while a heartbeat of it is under way. -/
theorem Covered.act (hbears : Bears ring home g o) (hcond : Timely ring γ w o)
    (hg' : g' = g.note ring.toOwned o (handle env o w).1) :
    Covered ring home (stepped γ i g' slot launched) (handle env o w).2 := by
  have hquiet : (∀ b c, o = .registry b c → c.Quiet) →
      (∀ v, (∃ x, g = .asks x) → ∀ b, o ≠ .registry b (.noteAssignment v)) →
      (∀ p : Process, o ≠ .memory p .pending) →
      Covered ring home (stepped γ i g' slot launched) (handle env o w).2 :=
    fun hquiet hplaces htakes => h.quiet hi hslot hlaunched hquiet hbears hplaces htakes hg'
  cases o with
  | registry b c =>
    cases c with
    | heartbeat u n t token => exact h.arrives hi hslot hlaunched rfl hbears hg'
    | remove => exact hbears.elim
    | noteAssignment u =>
      by_cases hasks : ∃ x, g = .asks x
      · obtain ⟨hhome, hu⟩ := hbears hasks
        obtain ⟨x, rfl⟩ := hasks
        exact h.places hi hslot hlaunched rfl rfl hg' hhome hu hcond
      · exact hquiet (fun _ _ he => (by cases he; trivial)) (fun _ hx => absurd hx hasks)
          fun _ he => (by cases he)
    | _ =>
      exact hquiet (fun _ _ he => (by cases he; trivial)) (fun _ _ _ he => (by cases he))
        fun _ he => (by cases he)
  | memory p c =>
    cases c with
    | pending => exact h.takes hi hslot hlaunched rfl hbears hg' hcond.1 hcond.2
    | _ =>
      exact hquiet (fun _ _ he => (by cases he)) (fun _ _ _ he => (by cases he))
        fun _ he => (by cases he)
  | _ =>
    exact hquiet (fun _ _ he => (by cases he)) (fun _ _ _ he => (by cases he))
      fun _ he => (by cases he)

end Act

/-- A thread that comes in has picked no worker and counted nothing. -/
theorem Covered.enter [DecidableEq ι] {γ : ι → Option Errand} {i : ι}
    (h : Covered ring home γ w) (hi : γ i = none) (hg : g.Unplaced) :
    Covered ring home (Function.update γ i (some g)) w := by
  have hburden : ∀ v, burden ring (Function.update γ i (some g)) w v = burden ring γ w v := by
    intro v
    unfold burden
    rw [headcount_enter hi]
    rintro ⟨x, rfl⟩
    rcases hg with hg | ⟨y, hg⟩ <;> cases hg
  refine ⟨h.few.enter i g, h.homes, h.finite, fun v => ?_, fun j v n hj => ?_⟩
  · rw [hburden]
    exact h.covers v
  · rw [hburden]
    have hold : γ j = some (.beats v n) := by
      by_cases hji : j = i
      · subst hji
        rw [Function.update_self] at hj
        rcases hg with hg | ⟨y, hg⟩ <;> rw [hg] at hj <;> cases hj
      · exact (Function.update_of_ne hji ..).symm.trans hj
    exact h.beats j v n hold

end Steps

/-! ### Runs -/

section Runs

variable {env : Env} (ring : FixedRing env) (home : String → Address)
  (services : NodeRef → Service)

/-- The nodes and the workers at work, with the errands of their threads and without rebalances. -/
def loading : System Op Op.Res Exc Unit Errand World where
  handle := handle env
  enabled := enabled
  note := Errand.note ring.toOwned
  launch
    | .spawn (.rebalance _) => none
    | .spawn j => some ⟨.idle, jobProgram services j⟩
    | _ => none

/-- What comes in: a request at a member that names no worker, a report, or a worker process, which
works and beats at the node of its worker. -/
inductive Employs : Thread Op Op.Res Exc Unit Errand → Prop
  | create (cfg : Config) (s : Service) (body : Fields) (hs : s.node ∈ ring.members)
      (hno : (body.getD "worker_id" .null).truthy = false) :
      Employs ⟨.first cfg body, (Activity.create cfg s body).program⟩
  | report (s : Service) (taskId : String) (status result : Json) :
      Employs ⟨.idle, (Activity.report s taskId status result).program⟩
  | work (p : Process) (n : ℕ)
      (hhome : home p.workerId = (services p.frontend).node.address) :
      Employs ⟨.idle, (Activity.work (services p.frontend) p n).program⟩
  | beat (p : Process) (n : ℕ)
      (hhome : home p.workerId = (services p.frontend).node.address) :
      Employs ⟨.idle, (Activity.beat (services p.frontend) p n).program⟩

variable {ring home services} {w : World} {o : Op} {ι : Type}

/-- The workers that a registry answers are registered there. -/
theorem answers_handle {γ : ι → Option Errand} (h : Covered ring home γ w) :
    Answers ring home o (handle env o w).1 := by
  cases o with
  | rpc a r =>
    intro hnone
    rw [ring.handle_rpc] at hnone
    cases hnone
  | findSuccessor a k =>
    rintro ⟨m, hm, rfl⟩
    exact ring.findSuccessor_eq _ m hm k
  | registry b c =>
    have hlive : ∀ v ∈ (w.registries b).liveWorkers (env.now w.trace.length), home v = b := by
      intro v hv
      obtain ⟨t, ht, -⟩ := Registry.mem_liveWorkers.1 hv
      exact h.homes b v t ht
    cases c with
    | scoreAllWorkers =>
      intro e he
      exact hlive _ (((w.registries b).map_fst_scoreAllWorkers _).subset
        (List.mem_map_of_mem (f := Prod.fst) he))
    | roundRobinAssign =>
      intro v hv
      exact hlive v (Registry.mem_of_roundRobinAssign hv)
    | _ => trivial
  | _ => trivial

/-- Nothing is placed yet. -/
theorem Covered.begin : Covered ring home (fun _ : ι => none) World.empty := by
  have hnone : ∀ v, unreported ring World.empty v = ∅ := by
    intro v
    ext x
    simp only [Set.mem_empty_iff_false, iff_false]
    rintro ⟨-, r, hr, -⟩
    cases hr
  refine ⟨few_none, fun b v t hv => (by cases hv), fun v => ?_, fun v => ?_,
    fun i v n hi => (by cases hi)⟩
  · rw [hnone]
    exact Set.finite_empty
  · rw [burden, hnone, Set.ncard_empty, headcount_none]
    exact le_rfl

theorem keeps_covered [DecidableEq ι] :
    Keeps (loading ring services) (Employs ring home services) (fun γ w _ o => Timely ring γ w o)
      (Answers ring home) (Bears ring home) (fun _ _ => True)
      (Covered ring home (ι := ι)) := by
  have hidle : ∀ {α : Type} {p : M α}, BearsCalm ring home p →
      wp (Errand.note ring.toOwned) (Answers ring home) (Bears ring home) p (fun _ _ => True)
        .idle :=
    fun hp => wp_mono (fun _ _ _ => trivial) (hp.holds .idle (.inl rfl))
  refine ⟨fun γ w i slot g o h hi ho _ hcond hslot => ⟨answers_handle h, ?_⟩, fun o t ht => ?_,
    fun γ w i t h hi ht => ?_, fun t ht => ?_⟩
  · refine h.act hi (fun t ht => ?_) (fun t ht => ?_) ho hcond rfl
    · obtain ⟨t', ht', -⟩ := Option.map_eq_some_iff.1 ht
      exact hslot t' ht'
    · obtain ⟨t', ht', rfl⟩ := Option.map_eq_some_iff.1 ht
      cases o with
      | spawn j => cases j <;> cases ht' <;> rfl
      | _ => cases ht'
  · cases o with
    | spawn j =>
      cases j with
      | cleanup node v id =>
        cases ht
        exact hidle (bears_clean (placing_clean.cleanup v id))
      | rebalance => cases ht
      | execute p id r =>
        cases ht
        exact hidle (bears_clean (clean_executeAndReport p id r))
    | _ => cases ht
  · cases ht with
    | create cfg s body => exact h.enter hi (Errand.unplaced_first cfg body)
    | _ => exact h.enter hi (.inl rfl)
  · cases ht with
    | create cfg s body hs hno =>
      refine Traced.holds ?_
      exact .attempt (bears_createTask hs hno) fun _ _ _ => ⟨trivial⟩
    | report s taskId status result =>
      exact hidle (bears_clean (runs_quietly (clean_resultComplete taskId status result)))
    | work p n hhome => exact hidle ((toils_calm hhome).runWorker n)
    | beat p n hhome => exact hidle (Toils.heartbeatLoop (bears_sendHeartbeat hhome) n)

/-- A world where nothing happened yet. -/
def idling (ι : Type) : Pool ι Op Op.Res Exc Unit Errand World := ⟨fun _ => none, World.empty⟩

/-- **The load of a worker covers its tasks**, in every run in which a worker counts all of its
tasks that are not reported: these are no more than the last heartbeat counted and were placed since. -/
theorem effectiveLoad_covers [DecidableEq ι] {c : Pool ι Op Op.Res Exc Unit Errand World}
    (hrun : Steps (loading ring services) (Employs ring home services)
      (fun γ w _ o => Timely ring γ w o) (idling ι) c) (v : String) :
    (unreported ring c.world v).Finite ∧
      (burden ring c.ghosts c.world v : ℤ) ≤ (c.world.registries (home v)).effectiveLoad v := by
  have hcovered : Covered ring home c.ghosts c.world :=
    (Steps.sound keeps_covered hrun ⟨fun i t hi => (by cases hi), .begin⟩).world
  exact ⟨hcovered.finite v, hcovered.covers v⟩

end Runs

namespace OneNode

/-- The threads of the runs: the worker's process, a request and the heartbeats. -/
inductive Part
  | process
  | request
  | beats
deriving DecidableEq

/-- Every worker is at the one node. -/
def athome (_ : String) : Address := node.address

/-- The node with the errands of its threads. -/
def loaded : System Op Op.Res Exc Unit Errand World :=
  loading (ring 0 fun _ => .delivered) fun _ => services

/-- The process beats and finds no task on its list; then a task is created, which its worker gets;
the process takes `n` steps, and then it beats again. -/
def beatAfter (n : ℕ) : List (Event Part Op Op.Res Exc Unit Errand) :=
  .enter .process ⟨.idle, (Activity.work services process 1).program⟩ ::
    (List.replicate 8 (.act .process .process) ++
      .enter .request ⟨.first config (body "t" none),
        (Activity.create config services (body "t" none)).program⟩ ::
      (List.replicate 16 (.act .request .request) ++ List.replicate n (.act .process .process) ++
        .enter .beats ⟨.idle, (Activity.beat services process 1).program⟩ ::
          List.replicate 4 (.act .beats .beats)))

theorem employs_beatAfter {n : ℕ} {i : Part} {t : Thread Op Op.Res Exc Unit Errand}
    (h : .enter i t ∈ beatAfter n) :
    Employs (ring 0 fun _ => .delivered) athome (fun _ => services) t := by
  simp only [beatAfter, List.mem_cons, List.mem_append, List.mem_replicate, Event.enter.injEq,
    reduceCtorEq, and_false, false_or, or_false] at h
  rcases h with ⟨-, rfl⟩ | ⟨-, rfl⟩ | ⟨-, rfl⟩
  · exact .work process 1 rfl
  · exact .create config services (body "t" none) rfl rfl
  · exact .beat process 1 rfl

/-- No thread has picked a worker or counted tasks. -/
def lone (γ : Part → Option Errand) : Bool :=
  [Part.process, .request, .beats].all fun j =>
    match γ j with
    | some (.picked ..) | some (.beats ..) => false
    | _ => true

/-- Every record of a task that the node keeps is of one in flight. -/
def flying (w : World) (p : Process) : Bool :=
  (w.stores node.address).entries.all fun e =>
    match e.1 with
    | .result x => decide (x ∈ (w.memories p).inflight)
    | _ => true

/-- One request or heartbeat at a time, and heartbeats when all tasks are in flight. -/
def singly (γ : Part → Option Errand) (w : World) : Op → Bool
  | .memory p .pending => lone γ && flying w p
  | .registry _ (.noteAssignment _) => lone γ
  | _ => true

def Singly : Cond Part Op Errand World := fun γ w _ o => singly γ w o = true

instance (γ : Part → Option Errand) (w : World) (i : Part) (o : Op) : Decidable (Singly γ w i o) :=
  inferInstanceAs (Decidable (_ = _))

theorem not_of_lone {γ : Part → Option Errand} (h : lone γ = true) (j : Part) (x v : String)
    (n : ℕ) : γ j ≠ some (.picked x v) ∧ γ j ≠ some (.beats v n) := by
  have hj := List.all_eq_true.1 h j (by cases j <;> simp)
  constructor <;> intro hγ <;> simp [hγ] at hj

theorem timely_of_singly {γ : Part → Option Errand} {w : World} {i : Part} {o : Op}
    (h : Singly γ w i o) : Timely (ring 0 fun _ => .delivered) γ w o := by
  cases o with
  | memory p c =>
    cases c with
    | pending =>
      obtain ⟨hlone, hflying⟩ := Bool.and_eq_true_iff.1 h
      refine ⟨fun x hx => ?_, fun j x => (not_of_lone hlone j x _ 0).1⟩
      obtain ⟨hstrip, r, hr, -, -⟩ := hx
      have hmem := List.all_eq_true.1 hflying _ ((Dict.mem_entries_iff _).2 hr)
      exact ⟨x, of_decide_eq_true hmem, hstrip⟩
    | _ => trivial
  | registry b c =>
    cases c with
    | noteAssignment v => exact fun j n => (not_of_lone h j "" v n).2
    | _ => trivial
  | _ => trivial

/-- The load of the worker and whether the task is its own and not reported, at the end of a run. -/
def told (c : Pool Part Op Op.Res Exc Unit Errand World) : ℤ × Bool :=
  ((c.world.registries node.address).effectiveLoad "w",
    shows c.world "t" fun r => r.workerId = "w" && r.status = .pending)

theorem mem_unreported {w : World}
    (h : (shows w "t" fun r => r.workerId = "w" && r.status = .pending) = true) :
    "t" ∈ unreported (ring 0 fun _ => .delivered) w "w" := by
  obtain ⟨r, hr, hp⟩ := exists_of_shows h
  obtain ⟨hv, hpending⟩ := Bool.and_eq_true_iff.1 hp
  exact ⟨by decide, r, hr, of_decide_eq_true hv, of_decide_eq_true hpending⟩

/-- The hypothesis of `effectiveLoad_covers` is satisfiable: a heartbeat counts the task that the
worker is at. -/
theorem effectiveLoad_covers_counted : ∃ c : Pool Part Op Op.Res Exc Unit Errand World,
    Steps loaded (Employs (ring 0 fun _ => .delivered) athome fun _ => services)
      (fun γ w _ o => Timely (ring 0 fun _ => .delivered) γ w o) (idling Part) c ∧
    (unreported (ring 0 fun _ => .delivered) c.world "w").ncard = 1 ∧
    (c.world.registries (athome "w")).effectiveLoad "w" = 1 := by
  have hrun : ((idling Part).steps loaded Singly (beatAfter 9)).map told = some (1, true) := by
    decide +kernel
  obtain ⟨c, hc, hfacts⟩ := Option.map_eq_some_iff.1 hrun
  obtain ⟨hload, hshows⟩ := Prod.mk.inj hfacts
  have hsteps : Steps loaded (Employs (ring 0 fun _ => .delivered) athome fun _ => services)
      (fun γ w _ o => Timely (ring 0 fun _ => .delivered) γ w o) (idling Part) c :=
    (Steps.of_steps (fun i t ht => employs_beatAfter ht) hc).mono fun _ _ _ _ => timely_of_singly
  obtain ⟨hfinite, hcovers⟩ := effectiveLoad_covers hsteps "w"
  have hpos : 0 < (unreported (ring 0 fun _ => .delivered) c.world "w").ncard :=
    (Set.ncard_pos hfinite).2 ⟨"t", mem_unreported hshows⟩
  have hburden : (burden (ring 0 fun _ => .delivered) c.ghosts c.world "w" : ℤ) ≤ 1 :=
    hcovers.trans hload.le
  refine ⟨c, hsteps, ?_, hload⟩
  unfold burden at hburden
  omega

/-- **A heartbeat takes back the count of a task that waits on the list of its worker**, which then
has a task and no load. -/
theorem effectiveLoad_forgets : ∃ c : Pool Part Op Op.Res Exc Unit Errand World,
    Steps loaded (Employs (ring 0 fun _ => .delivered) athome fun _ => services)
      (fun _ _ _ _ => True) (idling Part) c ∧
    "t" ∈ unreported (ring 0 fun _ => .delivered) c.world "w" ∧
    (c.world.registries (athome "w")).effectiveLoad "w" = 0 := by
  have hrun : ((idling Part).steps loaded (fun _ _ _ _ => True) (beatAfter 0)).map told =
      some (0, true) := by
    decide +kernel
  obtain ⟨c, hc, hfacts⟩ := Option.map_eq_some_iff.1 hrun
  obtain ⟨hload, hshows⟩ := Prod.mk.inj hfacts
  exact ⟨c, .of_steps (fun i t ht => employs_beatAfter ht) hc, mem_unreported hshows, hload⟩

end OneNode

end Server
end ChordInfra
