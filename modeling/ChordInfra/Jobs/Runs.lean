/-
# What becomes of one job

Rounds of the worker thread and executions take their turns in any order.  What
they do to one job is a few moves (`Move`), each by a thread that has the job in
hand (`Phase`).  As long as the reaper finds no job timed out whose execution has
not ended, at most one thread has the job in hand.  Then the job's outcome is
final and counted once (`final_stays`), and it is started at most once more
than it is retried (`starts_le`).
-/

import ChordInfra.Jobs.Worker
import Mathlib.Data.Fintype.Basic

namespace ChordInfra
namespace Jobs

open Interact Prog
open Storage (Json)

/-! ### One job -/

/-- How far the thread that has a job in hand has come: it claimed it, was started for
it, runs it, has read its retry count after the execution raised, or is about to
raise a counter. -/
inductive Phase
  | claimed | queued | running | read (retryCount : ℕ) | counting
deriving DecidableEq

/-- What a world says of one job. -/
structure View where
  status : Status
  retryCount : ℕ
  starts : ℕ
  counted : ℕ
deriving DecidableEq

/-- What a phase says of the job. -/
def Phase.Fits (v : View) : Phase → Prop
  | claimed | queued => v.status = .claimed
  | running => v.status = .running
  | read n => v.status = .running ∧ v.retryCount = n
  | counting => v.status.Final

/-- What a thread does to a job, with the phase it comes to. -/
inductive Move : Option Phase → View → Option Phase → View → Prop
  | still (p v) : Move p v p v
  | claim (v) (h : v.status = .pending) :
    Move none v (some .claimed) { v with status := .claimed }
  | start (v) : Move (some .queued) v (some .running)
    { v with status := .running, starts := v.starts + 1 }
  | read (v) : Move (some .running) v (some (.read v.retryCount)) v
  | finish (v) : Move (some .running) v (some .counting) { v with status := .done }
  | requeue (v n) (h : n < maxJobRetries) :
    Move (some (.read n)) v none { v with status := .pending, retryCount := n + 1 }
  | giveUp (v n) : Move (some (.read n)) v (some .counting) { v with status := .failed }
  | count (v) : Move (some .counting) v none { v with counted := v.counted + 1 }

/-- What the reaper does to a running job. -/
inductive Reaped : View → View → Prop
  | retry {v} (hstatus : v.status = .running) (h : v.retryCount < maxJobRetries) :
    Reaped v { v with status := .pending, retryCount := v.retryCount + 1 }
  | fail {v} (hstatus : v.status = .running) :
    Reaped v { v with status := .failed, counted := v.counted + 1 }

section View

variable {ι : Type} {f : ι → Option Phase} {v v' : View} {i j slot : ι} {p p' : Option Phase}

/-- At most one thread has the job in hand, and the job is as its phase says. -/
structure Exclusive (f : ι → Option Phase) (v : View) : Prop where
  alone : ∀ i j, f i ≠ none → f j ≠ none → i = j
  fits : ∀ i p, f i = some p → p.Fits v

/-- The outcome is counted at most once, and only when it is there. -/
structure CountedOnce (f : ι → Option Phase) (v : View) : Prop where
  uncounted : ¬v.status.Final → v.counted = 0
  counting : ∀ i, f i = some .counting → v.counted = 0
  once : v.counted ≤ 1

/-- The job was started once for each retry so far, and once more unless that start
is still to come. -/
structure StartsBounded (v : View) : Prop where
  retries : v.retryCount ≤ maxJobRetries
  starts : v.starts + (if v.status = .pending ∨ v.status = .claimed then 1 else 0) ≤
    v.retryCount + 1

variable [DecidableEq ι]

theorem Phase.Fits.final {q : Phase} (h : q.Fits v) (hfinal : v.status.Final) : q = .counting := by
  cases q with
  | claimed => rw [show v.status = .claimed from h] at hfinal; exact hfinal.elim
  | queued => rw [show v.status = .claimed from h] at hfinal; exact hfinal.elim
  | running => rw [show v.status = .running from h] at hfinal; exact hfinal.elim
  | read n => rw [h.1] at hfinal; exact hfinal.elim
  | counting => rfl

theorem Phase.Fits.not_pending {q : Phase} (h : q.Fits v) : v.status ≠ .pending := by
  intro hpending
  cases q with
  | claimed => exact Status.noConfusion (hpending.symm.trans h)
  | queued => exact Status.noConfusion (hpending.symm.trans h)
  | running => exact Status.noConfusion (hpending.symm.trans h)
  | read n => exact Status.noConfusion (hpending.symm.trans h.1)
  | counting =>
    have hfinal : v.status.Final := h
    rw [hpending] at hfinal
    exact hfinal

namespace Exclusive

omit [DecidableEq ι] in
/-- Where one thread has the job in hand, no other does. -/
theorem others (h : Exclusive f v) (hi : f i ≠ none) (hj : j ≠ i) : f j = none :=
  not_not.1 fun hne => hj (h.alone j i hne hi)

omit [DecidableEq ι] in
/-- A pending job is in nobody's hands. -/
theorem nobody (h : Exclusive f v) (hv : v.status = .pending) (j : ι) : f j = none := by
  rcases hj : f j with - | q
  · rfl
  · exact ((h.fits j q hj).not_pending hv).elim

theorem of_others (h : ∀ j, j ≠ i → f j = none) (hp : ∀ q, p' = some q → q.Fits v') :
    Exclusive (Function.update f i p') v' := by
  have hnone : ∀ j, Function.update f i p' j ≠ none → j = i := fun j hj => by
    by_contra hne
    rw [Function.update_of_ne hne] at hj
    exact hj (h j hne)
  refine ⟨fun j k hj hk => (hnone j hj).trans (hnone k hk).symm, fun j q hj => ?_⟩
  obtain rfl := hnone j (by rw [hj]; exact Option.some_ne_none q)
  rw [Function.update_self] at hj
  exact hp q hj

/-- **A move keeps the job in one hand.** -/
theorem move (h : Exclusive f v) (hi : f i = p) (hmove : Move p v p' v') :
    Exclusive (Function.update f i p') v' := by
  have hothers : p ≠ none → ∀ j, j ≠ i → f j = none := fun hp j hj => h.others (hi ▸ hp) hj
  cases hmove with
  | still p v =>
    rw [← hi, Function.update_eq_self]
    exact h
  | claim v hv => exact .of_others (fun j _ => h.nobody hv j) fun q hq => by cases hq; rfl
  | start v => exact .of_others (hothers (by simp)) fun q hq => by cases hq; rfl
  | read v =>
    refine .of_others (hothers (by simp)) fun q hq => ?_
    cases hq
    exact ⟨h.fits i _ hi, rfl⟩
  | finish v => exact .of_others (hothers (by simp)) fun q hq => by cases hq; trivial
  | requeue v n hn => exact .of_others (hothers (by simp)) fun q hq => by cases hq
  | giveUp v n => exact .of_others (hothers (by simp)) fun q hq => by cases hq; trivial
  | count v => exact .of_others (hothers (by simp)) fun q hq => by cases hq

/-- A claimed job is handed to the thread that is started for it. -/
theorem submit (h : Exclusive f v) (hi : f i = some .claimed) :
    Exclusive (Function.update (Function.update f i none) slot (some .queued)) v := by
  refine .of_others (fun j _ => ?_) fun q hq => ?_
  · by_cases hji : j = i
    · rw [hji, Function.update_self]
    · rw [Function.update_of_ne hji]
      exact h.others (by rw [hi]; exact Option.some_ne_none _) hji
  · cases hq
    have hclaimed : Phase.Fits v .claimed := h.fits i _ hi
    exact hclaimed

omit [DecidableEq ι] in
/-- A job in nobody's hands may be reaped. -/
theorem reaped (hnone : ∀ i, f i = none) : Exclusive f v' :=
  ⟨fun i _ hi => (hi (hnone i)).elim, fun i q hi => by rw [hnone i] at hi; cases hi⟩

end Exclusive

omit [DecidableEq ι] in
/-- Who has the job in hand and is not counting, has a job without outcome. -/
theorem Exclusive.not_final {q : Phase} (h : Exclusive f v) (hi : f i = some q) (hq : q ≠ .counting) :
    ¬v.status.Final := fun hfinal => hq ((h.fits i q hi).final hfinal)

namespace CountedOnce

omit [DecidableEq ι] in
theorem of_zero (h : v.counted = 0) : CountedOnce f v := ⟨fun _ => h, fun _ _ => h, by omega⟩

/-- **A move keeps the outcome counted once.** -/
theorem move (h : CountedOnce f v) (hex : Exclusive f v) (hi : f i = p) (hmove : Move p v p' v') :
    CountedOnce (Function.update f i p') v' := by
  cases hmove with
  | still p v =>
    rw [← hi, Function.update_eq_self]
    exact h
  | claim v hv => exact .of_zero (h.uncounted (by rw [hv]; exact id))
  | start v => exact .of_zero (h.uncounted (hex.not_final hi (by simp)))
  | read v => exact .of_zero (h.uncounted (hex.not_final hi (by simp)))
  | finish v => exact .of_zero (h.uncounted (hex.not_final hi (by simp)))
  | requeue v n hn => exact .of_zero (h.uncounted (hex.not_final hi (by simp)))
  | giveUp v n => exact .of_zero (h.uncounted (hex.not_final hi (by simp)))
  | count v =>
    have hfinal : v.status.Final := hex.fits i _ hi
    have hzero : v.counted = 0 := h.counting i hi
    refine ⟨fun hopen => (hopen hfinal).elim, fun j hj => ?_, by simp [hzero]⟩
    by_cases hji : j = i
    · rw [hji, Function.update_self] at hj
      cases hj
    · rw [Function.update_of_ne hji, hex.others (by rw [hi]; exact Option.some_ne_none _) hji] at hj
      cases hj

theorem submit (h : CountedOnce f v) (hex : Exclusive f v) (hi : f i = some .claimed) :
    CountedOnce (Function.update (Function.update f i none) slot (some .queued)) v :=
  .of_zero (h.uncounted (hex.not_final hi (by simp)))

omit [DecidableEq ι] in
theorem reaped (h : CountedOnce f v) (hnone : ∀ i, f i = none) (hreaped : Reaped v v') :
    CountedOnce f v' := by
  have hzero : v.status = .running → v.counted = 0 := fun hrunning =>
    h.uncounted (by rw [hrunning]; exact id)
  cases hreaped with
  | retry hstatus hn => exact .of_zero (hzero hstatus)
  | fail hstatus =>
    refine ⟨fun hopen => (hopen trivial).elim, fun i hi => ?_, by simp [hzero hstatus]⟩
    rw [hnone i] at hi
    cases hi

end CountedOnce

namespace StartsBounded

omit [DecidableEq ι] in
/-- **A move keeps the bound on the starts.** -/
theorem move (h : StartsBounded v) (hfits : ∀ q, p = some q → q.Fits v) (hmove : Move p v p' v') :
    StartsBounded v' := by
  obtain ⟨hretries, hstarts⟩ := h
  cases hmove with
  | still p v => exact ⟨hretries, hstarts⟩
  | claim v hv => exact ⟨hretries, by simpa [hv] using hstarts⟩
  | start v =>
    have hclaimed : v.status = .claimed := hfits _ rfl
    exact ⟨hretries, by simpa [hclaimed] using hstarts⟩
  | read v => exact ⟨hretries, hstarts⟩
  | finish v =>
    have hrunning : v.status = .running := hfits _ rfl
    exact ⟨hretries, by simpa [hrunning] using hstarts⟩
  | requeue v n hn =>
    obtain ⟨hrunning, hread⟩ : v.status = .running ∧ v.retryCount = n := hfits _ rfl
    refine ⟨hn, ?_⟩
    simp only [hrunning, reduceCtorEq, or_self, if_false] at hstarts
    simp
    omega
  | giveUp v n =>
    obtain ⟨hrunning, -⟩ : v.status = .running ∧ v.retryCount = n := hfits _ rfl
    exact ⟨hretries, by simpa [hrunning] using hstarts⟩
  | count v => exact ⟨hretries, hstarts⟩

omit [DecidableEq ι] in
theorem reaped (h : StartsBounded v) (hreaped : Reaped v v') : StartsBounded v' := by
  obtain ⟨hretries, hstarts⟩ := h
  cases hreaped with
  | retry hstatus hn =>
    refine ⟨hn, ?_⟩
    simp only [hstatus, reduceCtorEq, or_self, if_false] at hstarts
    simp
    omega
  | fail hstatus => exact ⟨hretries, by simpa [hstatus] using hstarts⟩

end StartsBounded

omit [DecidableEq ι] in
/-- No move lowers the retry count, and an outcome stays. -/
theorem Move.mono (hfits : ∀ q, p = some q → q.Fits v) (hmove : Move p v p' v') :
    v.retryCount ≤ v'.retryCount ∧ (v.status.Final → v'.status = v.status) := by
  have hnot : ∀ q, p = some q → q ≠ .counting → ¬v.status.Final := fun q hq hne hfinal =>
    hne ((hfits q hq).final hfinal)
  cases hmove with
  | still p v => exact ⟨le_rfl, fun _ => rfl⟩
  | claim v hv =>
    refine ⟨le_rfl, fun hfinal => ?_⟩
    rw [hv] at hfinal
    exact hfinal.elim
  | start v => exact ⟨le_rfl, fun hfinal => (hnot _ rfl (by simp) hfinal).elim⟩
  | read v => exact ⟨le_rfl, fun _ => rfl⟩
  | finish v => exact ⟨le_rfl, fun hfinal => (hnot _ rfl (by simp) hfinal).elim⟩
  | requeue v n hn =>
    obtain ⟨-, hread⟩ : v.status = .running ∧ v.retryCount = n := hfits _ rfl
    exact ⟨by simp [hread], fun hfinal => (hnot _ rfl (by simp) hfinal).elim⟩
  | giveUp v n => exact ⟨le_rfl, fun hfinal => (hnot _ rfl (by simp) hfinal).elim⟩
  | count v => exact ⟨le_rfl, fun _ => rfl⟩

omit [DecidableEq ι] in
theorem Reaped.mono (h : Reaped v v') :
    v.retryCount ≤ v'.retryCount ∧ (v.status.Final → v'.status = v.status) := by
  cases h with
  | retry hstatus hn => exact ⟨by simp, fun hfinal => by rw [hstatus] at hfinal; exact hfinal.elim⟩
  | fail hstatus => exact ⟨le_rfl, fun hfinal => by rw [hstatus] at hfinal; exact hfinal.elim⟩

end View

/-! ### Threads -/

/-- The job that a thread has in hand, and how far it has come with it. -/
abbrev Role := Option (String × Phase)

namespace Role

/-- The phase of the thread for one job. -/
def phase (key : String) (g : Role) : Option Phase :=
  g.bind fun x => if x.1 = key then some x.2 else none

@[simp] theorem phase_none (key : String) : phase key none = none := rfl

/-- The role after an operation. -/
def note (g : Role) : (o : Op) → o.Res → Role
  | .tryClaim key, claimed => if claimed then some (key, .claimed) else g
  | .submit _, _ => none
  | .start key, _ => some (key, .running)
  | .retryCount key, n => some (key, .read n)
  | .finish key _, _ | .giveUp key _, _ => some (key, .counting)
  | .requeue .., _ | .countCompleted _, _ | .countFailed _, _ => none
  | _, _ => g

/-- What a thread with a role does. -/
def Allowed (g : Role) : Op → Prop
  | .scan | .reap | .tryClaim _ => g = none
  | .submit key => g = some (key, .claimed)
  | .start key => g = some (key, .queued)
  | .execute key | .retryCount key | .finish key _ => g = some (key, .running)
  | .requeue key nextRetry _ =>
    ∃ n, g = some (key, .read n) ∧ n < maxJobRetries ∧ nextRetry = n + 1
  | .giveUp key _ => ∃ n, g = some (key, .read n)
  | .countCompleted key | .countFailed key => g = some (key, .counting)

end Role

/-- Rounds and executions: a submission starts an execution. -/
def system (env : Env) : System Op Op.Res Empty Unit Role World where
  handle := handle env
  enabled _ _ := true
  note := Role.note
  launch
    | .submit key => some ⟨some (key, .queued), runJob key⟩
    | _ => none

/-- The rounds of the worker thread. -/
def Entry (t : Thread Op Op.Res Empty Unit Role) : Prop := t = ⟨none, round⟩

/-- What a thread does, whatever it is answered. -/
abbrev Does (p : M Unit) (g : Role) : Prop :=
  wp Role.note (fun _ _ => True) Role.Allowed p (fun _ _ => True) g

theorem does_claimAll {p : M Unit} (hp : Does p none) (keys : List String) :
    Does (claimAll keys >>= fun _ => p) none := by
  induction keys with
  | nil => exact hp
  | cons key keys ih =>
    refine ⟨rfl, fun claimed _ => ?_⟩
    cases claimed with
    | true => exact ⟨rfl, fun _ _ => ih⟩
    | false => exact ih

theorem does_round : Does round none :=
  have hreap : Does (act .reap) none := ⟨rfl, fun _ _ => trivial⟩
  ⟨rfl, fun keys _ => does_claimAll hreap keys⟩

theorem does_runJob (key : String) : Does (runJob key) (some (key, .queued)) := by
  refine ⟨rfl, fun _ _ => ⟨rfl, fun outcome _ => ?_⟩⟩
  cases outcome with
  | ok result => exact ⟨rfl, fun _ _ => ⟨rfl, fun _ _ => trivial⟩⟩
  | error e =>
    refine ⟨rfl, fun n _ => ?_⟩
    change Does (if n < maxJobRetries then _ else _) (some (key, .read n))
    split_ifs with hn
    · exact ⟨⟨n, rfl, hn, rfl⟩, fun _ _ => trivial⟩
    · exact ⟨⟨n, rfl⟩, fun _ _ => ⟨rfl, fun _ _ => trivial⟩⟩

/-- A thread that an operation launches is an execution. -/
theorem does_of_launch {env : Env} {o : Op} {t : Thread Op Op.Res Empty Unit Role}
    (h : (system env).launch o = some t) : Does t.rest t.ghost := by
  cases o with
  | submit key =>
    obtain rfl := Option.some.inj h
    exact does_runJob key
  | _ => cases h

theorem does_of_entry {t : Thread Op Op.Res Empty Unit Role} (h : Entry t) :
    Does t.rest t.ghost := by
  rw [h]
  exact does_round

/-! ### One job of a world -/

namespace World

variable {key key' : String} {w : World} {v : View}

/-- What the world says of the job at a key. -/
def view (key : String) (w : World) : Option View :=
  (w.jobs.get key).map fun j => ⟨j.status, j.retryCount, w.started.count key, w.counted.count key⟩

@[simp] theorem view_tick : w.tick.view key = w.view key := rfl

theorem get_change (f : Job → Job) :
    (w.change key' f).jobs.get key =
      if key = key' then (w.jobs.get key).map f else w.jobs.get key := by
  unfold change
  split_ifs with h
  · subst h
    rcases hj : w.jobs.get key with - | j
    · exact hj
    · exact Dict.get_set_self _ _ _
  · rcases hj : w.jobs.get key' with - | j
    · rfl
    · exact Dict.get_set_ne _ h _

@[simp] theorem started_change (f : Job → Job) : (w.change key f).started = w.started := by
  unfold change
  split <;> rfl

@[simp] theorem counted_change (f : Job → Job) : (w.change key f).counted = w.counted := by
  unfold change
  split <;> rfl

/-- A job that is changed. -/
theorem view_change {s : Status} {n : ℕ → ℕ} {f : Job → Job}
    (hs : ∀ j, (f j).status = s) (hn : ∀ j, (f j).retryCount = n j.retryCount)
    (h : w.view key = some v) :
    (w.change key f).view key = some { v with status := s, retryCount := n v.retryCount } := by
  obtain ⟨j, hj, rfl⟩ := Option.map_eq_some_iff.1 h
  simp [view, get_change, hj, hs, hn]

/-- The other jobs. -/
theorem view_change_ne {f : Job → Job} (h : key ≠ key') :
    (w.change key' f).view key = w.view key := by
  simp [view, get_change, h]

theorem mem_exhausted {now : ℕ} :
    key ∈ w.exhausted now ↔ ∃ j, w.jobs.get key = some j ∧ j.Exhausted now := by
  simp [exhausted, Dict.mem_entries_iff]

theorem nodup_exhausted (w : World) (now : ℕ) : (w.exhausted now).Nodup :=
  w.jobs.nodup.sublist (List.filter_sublist.map Prod.fst)

/-- A claim is made of a pending job only. -/
theorem tryClaim_eq (w : World) (key address : String) (now : ℕ) :
    w.tryClaim key address now = (false, w) ∨ ∃ j, w.jobs.get key = some j ∧ j.status = .pending ∧
      w.tryClaim key address now = (true, w.change key (Job.claim address now)) := by
  unfold tryClaim
  split
  · rename_i j hj
    split_ifs with hpending
    · exact .inr ⟨j, hj, hpending, rfl⟩
    · exact .inl rfl
  · exact .inl rfl

/-- One more counted job. -/
theorem view_counted {w' : World} (hjobs : w'.jobs = w.jobs) (hstarted : w'.started = w.started)
    (hcounted : w'.counted = key' :: w.counted) (h : w.view key = some v) :
    w'.view key = some (if key = key' then { v with counted := v.counted + 1 } else v) := by
  obtain ⟨j, hj, rfl⟩ := Option.map_eq_some_iff.1 h
  rw [view, hjobs, hstarted, hcounted, hj]
  split_ifs with hkey
  · subst hkey
    simp
  · have hne : (key' == key) = false := by simpa using Ne.symm hkey
    simp [List.count_cons, hne]

/-- **The reaper** changes a job when it is timed out. -/
theorem view_reap (now : ℕ) (h : w.view key = some v) :
    (w.reap now).view key = some v ∨ ∃ j v', w.jobs.get key = some j ∧ j.TimedOut now ∧
      (w.reap now).view key = some v' ∧ Reaped v v' := by
  obtain ⟨j, hj, rfl⟩ := Option.map_eq_some_iff.1 h
  have hview : (w.reap now).view key = some ⟨(j.reap now).status, (j.reap now).retryCount,
      w.started.count key, (w.exhausted now).count key + w.counted.count key⟩ := by
    simp [view, reap, Dict.get_mapValues, hj]
  have hcount : ¬j.Exhausted now → (w.exhausted now).count key = 0 := fun hno => by
    rw [List.count_eq_zero, mem_exhausted]
    rintro ⟨j', hj', hex⟩
    rw [hj] at hj'
    cases hj'
    exact hno hex
  rw [hview]
  by_cases hout : j.TimedOut now
  · refine .inr ⟨j, _, hj, hout, rfl, ?_⟩
    unfold Job.reap
    rw [if_pos hout]
    split_ifs with hn
    · rw [hcount fun hex => hex.2 hn, Nat.zero_add]
      exact .retry hout.1 hn
    · have hone : (w.exhausted now).count key = 1 :=
        List.count_eq_one_of_mem (nodup_exhausted w now) (mem_exhausted.2 ⟨j, hj, hout, hn⟩)
      rw [hone, Nat.add_comm]
      exact .fail hout.1
  · left
    unfold Job.reap
    rw [if_neg hout, hcount fun hex => hout hex.1, Nat.zero_add]

end World

/-! ### Runs -/

section Runs

variable {ι : Type} [DecidableEq ι] {env : Env} {key : String} {γ : ι → Option Role} {w w' : World}
  {v v' : View} {i slot : ι} {g g' : Role} {I : (ι → Option Phase) → View → Prop}

/-- No job is reaped that a thread has in hand. -/
def Unhurried (env : Env) (key : String) : Cond ι Op Role World := fun γ w _ o =>
  match o with
  | .reap => ∀ j ∈ w.jobs.get key, j.TimedOut (env.now w.steps) → ∀ i, ∀ g ∈ γ i, g.phase key = none
  | _ => True

instance (key : String) [Fintype ι] (γ : ι → Option Role) (w : World) (i : ι) :
    (o : Op) → Decidable (Unhurried env key γ w i o)
  | .reap => inferInstanceAs (Decidable (∀ j ∈ w.jobs.get key, j.TimedOut (env.now w.steps) →
      ∀ i, ∀ g ∈ γ i, g.phase key = none))
  | .scan | .tryClaim _ | .submit _ | .start _ | .execute _ | .finish .. | .countCompleted _
  | .retryCount _ | .requeue .. | .giveUp .. | .countFailed _ => isTrue trivial

/-- The phases of the threads for one job. -/
def phases (key : String) (γ : ι → Option Role) (i : ι) : Option Phase := (γ i).bind (Role.phase key)

/-- A property of one job that the moves keep. -/
structure Stable (I : (ι → Option Phase) → View → Prop) : Prop where
  move : ∀ {f v i p p' v'}, I f v → f i = p → Move p v p' v' → I (Function.update f i p') v'
  submit : ∀ {f v i slot}, I f v → f i = some .claimed →
    I (Function.update (Function.update f i none) slot (some .queued)) v
  reaped : ∀ {f v v'}, I f v → (∀ i, f i = none) → Reaped v v' → I f v'

/-- The property holds of the job at a key. -/
def At (I : (ι → Option Phase) → View → Prop) (key : String) (γ : ι → Option Role) (w : World) :
    Prop := ∃ v, w.view key = some v ∧ I (phases key γ) v

theorem phases_update (g : Role) :
    phases key (Function.update γ i (some g)) = Function.update (phases key γ) i (g.phase key) := by
  funext j
  by_cases hj : j = i
  · subst hj
    simp [phases]
  · simp [phases, hj]

theorem At.move (v' : View) (hI : Stable I) (h : I (phases key γ) v)
    (hi : γ i = some g) (hmove : Move (g.phase key) v (g'.phase key) v') (hv' : w'.view key = some v') :
    At I key (Function.update γ i (some g')) w' := by
  refine ⟨v', hv', ?_⟩
  rw [phases_update]
  exact hI.move h (by rw [phases, hi]; rfl) hmove

/-- **An operation of a thread** moves the job, reaps it, or leaves it alone. -/
theorem At.act (hI : Stable I) (h : At I key γ w) {o : Op} (hi : γ i = some g)
    (hallowed : g.Allowed o) (hcond : Unhurried env key γ w i o)
    (hslot : ∀ t, (system env).launch o = some t → γ slot = none) :
    At I key (Pool.place (Function.update γ i (some (g.note o (handle env o w).1))) slot
      (((system env).launch o).map Thread.ghost)) (handle env o w).2 := by
  obtain ⟨v, hv, hinv⟩ := h
  -- an operation on another job, of which the phases for this one say nothing
  have helse : ∀ {g' : Role} {w' : World}, g.phase key = none → g'.phase key = none →
      w'.view key = some v → At I key (Function.update γ i (some g')) w' := by
    intro g' w' hg hg' hv'
    refine .move _ hI hinv hi ?_ hv'
    rw [hg, hg']
    exact .still none v
  have hself : ∀ p : Phase, Role.phase key (some (key, p)) = some p := fun p => if_pos rfl
  have hother : ∀ {key' : String} (p : Phase), key ≠ key' →
      Role.phase key (some (key', p)) = none := fun p hne => if_neg fun h => hne h.symm
  have hcount : ∀ {key' : String} {w' : World}, g = some (key', .counting) → w'.jobs = w.jobs →
      w'.started = w.started → w'.counted = key' :: w.counted →
        At I key (Function.update γ i (some none)) w' := by
    rintro key' w' rfl hjobs hstarted hcounted
    have hv' := World.view_counted hjobs hstarted hcounted hv
    by_cases hkey : key = key'
    · subst hkey
      rw [if_pos rfl] at hv'
      refine .move _ hI hinv hi ?_ hv'
      rw [hself]
      exact .count v
    · rw [if_neg hkey] at hv'
      exact helse (hother _ hkey) rfl hv'
  cases o with
  | scan => exact helse (by rw [hallowed]; rfl) (by rw [hallowed]; rfl) hv
  | reap =>
    obtain rfl : g = none := hallowed
    rcases World.view_reap (env.now w.steps) hv with hv' | ⟨j, v', hj, hout, hv', hreaped⟩
    · exact helse rfl rfl hv'
    · refine ⟨v', hv', ?_⟩
      change I (phases key (Function.update γ i (some none))) v'
      have hsame : phases key (Function.update γ i (some none)) = phases key γ := by
        rw [phases_update, Function.update_eq_self_iff, phases, hi]
        rfl
      rw [hsame]
      refine hI.reaped hinv (fun i' => ?_) hreaped
      rcases hi' : γ i' with - | g'
      · rw [phases, hi']; rfl
      · rw [phases, hi']
        exact hcond j hj hout i' g' hi'
  | tryClaim key' =>
    obtain rfl : g = none := hallowed
    rw [handle_tryClaim]
    rcases w.tryClaim_eq key' env.address (env.now w.steps) with hr | ⟨j, hj, hpending, hr⟩
    · rw [hr]
      exact helse rfl rfl hv
    · rw [hr]
      change At I key (Function.update γ i (some (some (key', .claimed)))) (World.tick _)
      by_cases hkey : key = key'
      · subst hkey
        refine .move _ hI hinv hi ?_ (World.view_change (n := id) (fun _ => rfl) (fun _ => rfl) hv)
        have hv' : v.status = .pending := by
          obtain ⟨j', hj', rfl⟩ := Option.map_eq_some_iff.1 hv
          rw [hj] at hj'
          cases hj'
          exact hpending
        rw [hself]
        exact .claim v hv'
      · exact helse rfl (hother _ hkey) ((World.view_change_ne hkey).trans hv)
  | submit key' =>
    obtain rfl : g = some (key', .claimed) := hallowed
    have hfree : γ slot = none := hslot _ rfl
    refine ⟨v, hv, ?_⟩
    change I (phases key (Function.update (Function.update γ i (some none)) slot
      (some (some (key', .queued))))) v
    rw [phases_update, phases_update]
    by_cases hkey : key = key'
    · subst hkey
      rw [hself]
      exact hI.submit hinv (by rw [phases, hi]; exact hself _)
    · rw [hother _ hkey, Role.phase_none, Function.update_eq_self_iff.2 ?_,
        Function.update_eq_self_iff.2 ?_]
      · exact hinv
      · rw [phases, hi]
        exact (hother _ hkey).symm
      · by_cases hsi : slot = i
        · rw [hsi, Function.update_self]
        · rw [Function.update_of_ne hsi, phases, hfree]
          rfl
  | start key' =>
    obtain rfl : g = some (key', .queued) := hallowed
    by_cases hkey : key = key'
    · subst hkey
      refine .move { v with status := .running, starts := v.starts + 1 } hI hinv hi ?_ ?_
      · rw [hself]
        change Move _ _ (Role.phase key (some (key, .running))) _
        rw [hself]
        exact .start v
      · obtain ⟨j, hj, rfl⟩ := Option.map_eq_some_iff.1 hv
        simp [handle, World.view, World.tick, World.get_change, hj, Job.start]
    · refine helse (hother _ hkey) (hother _ hkey) ?_
      have hne : (key' == key) = false := by simpa using Ne.symm hkey
      rw [← hv]
      simp [handle, World.view, World.tick, World.get_change, hkey, List.count_cons, hne]
  | execute key' =>
    obtain rfl : g = some (key', .running) := hallowed
    exact .move _ hI hinv hi (.still _ v) hv
  | retryCount key' =>
    obtain rfl : g = some (key', .running) := hallowed
    by_cases hkey : key = key'
    · subst hkey
      refine .move _ hI hinv hi ?_ hv
      obtain ⟨j, hj, rfl⟩ := Option.map_eq_some_iff.1 hv
      have hread : (handle env (.retryCount key) w).1 = j.retryCount := by simp [handle, hj]
      rw [hself, hread]
      change Move _ _ (Role.phase key (some (key, .read j.retryCount))) _
      rw [hself]
      exact .read _
    · exact helse (hother _ hkey) (hother _ hkey) hv
  | finish key' result =>
    obtain rfl : g = some (key', .running) := hallowed
    by_cases hkey : key = key'
    · subst hkey
      refine .move _ hI hinv hi ?_
        (World.view_change (s := .done) (n := id) (fun _ => rfl) (fun _ => rfl) hv)
      change Move (Role.phase key (some (key, .running))) _ (Role.phase key (some (key, .counting))) _
      rw [hself, hself]
      exact .finish v
    · exact helse (hother _ hkey) (hother _ hkey) ((World.view_change_ne hkey).trans hv)
  | countCompleted key' =>
    obtain rfl : g = some (key', .counting) := hallowed
    exact hcount rfl rfl rfl rfl
  | requeue key' nextRetry e =>
    obtain ⟨n, rfl, hn, rfl⟩ := hallowed
    by_cases hkey : key = key'
    · subst hkey
      refine .move _ hI hinv hi ?_ (World.view_change (s := .pending) (n := fun _ => n + 1)
        (fun _ => rfl) (fun _ => rfl) hv)
      change Move (Role.phase key (some (key, .read n))) _ none _
      rw [hself]
      exact .requeue v n hn
    · exact helse (hother _ hkey) rfl ((World.view_change_ne hkey).trans hv)
  | giveUp key' e =>
    obtain ⟨n, rfl⟩ := hallowed
    by_cases hkey : key = key'
    · subst hkey
      refine .move _ hI hinv hi ?_
        (World.view_change (s := .failed) (n := id) (fun _ => rfl) (fun _ => rfl) hv)
      change Move (Role.phase key (some (key, .read n))) _ (Role.phase key (some (key, .counting))) _
      rw [hself, hself]
      exact .giveUp v n
    · exact helse (hother _ hkey) (hother _ hkey) ((World.view_change_ne hkey).trans hv)
  | countFailed key' =>
    obtain rfl : g = some (key', .counting) := hallowed
    exact hcount rfl rfl rfl rfl

theorem keeps (hI : Stable (ι := ι) I) :
    Keeps (system env) Entry (Unhurried env key) (fun _ _ => True) Role.Allowed (fun _ _ => True)
      (At I key) where
  act := fun γ w i slot g o h hi hallowed _ hcond hslot =>
    ⟨trivial, h.act hI hi hallowed hcond hslot⟩
  launched _ _ ht := does_of_launch ht
  enter := by
    rintro γ w i t ⟨v, hv, h⟩ hi rfl
    refine ⟨v, hv, ?_⟩
    rw [phases_update, Function.update_eq_self_iff.2 ?_]
    · exact h
    · rw [phases, hi]
      rfl
  entered _ ht := does_of_entry ht

/-- The rounds and executions of a node, each in a slot. -/
abbrev Node (ι : Type) := Pool ι Op Op.Res Empty Unit Role World

variable {c c' c'' : Node ι}

/-- A step of a node, with a condition on the operations. -/
abbrev NodeSteps (env : Env) (cond : Cond ι Op Role World) : Node ι → Node ι → Prop :=
  Steps (system env) Entry cond

/-- A node with the jobs of a store, before the first round. -/
def boot (jobs : Dict String Job) : Node ι := ⟨fun _ => none, ⟨jobs, 0, 0, 0, [], []⟩⟩

omit [DecidableEq ι] in
theorem sound_boot {jobs : Dict String Job}
    (h : At I key (fun _ : ι => none) (boot (ι := ι) jobs).world) :
    Sound (system env) (fun _ _ => True) Role.Allowed (fun _ _ => True) (At I key) (boot jobs) :=
  ⟨fun i t ht => (by cases ht), h⟩

omit [DecidableEq ι] in
theorem view_boot {jobs : Dict String Job} {j : Job} (hj : jobs.get key = some j) :
    (boot (ι := ι) jobs).world.view key = some ⟨j.status, j.retryCount, 0, 0⟩ := by
  simp [World.view, boot, hj]

omit [DecidableEq ι] in
theorem exclusive_boot : Exclusive (phases key fun _ : ι => none) v :=
  ⟨fun i _ hi => (hi rfl).elim, fun i q hi => by cases hi⟩

/-- The job has one outcome; `s` is one that it already has. -/
def OneOutcome (s : Option Status) (f : ι → Option Phase) (v : View) : Prop :=
  Exclusive f v ∧ CountedOnce f v ∧ ∀ x ∈ s, x.Final ∧ v.status = x

theorem stable_oneOutcome (s : Option Status) : Stable (OneOutcome (ι := ι) s) where
  move := by
    rintro f v i p p' v' ⟨hex, hcount, hs⟩ hi hmove
    refine ⟨hex.move hi hmove, hcount.move hex hi hmove, fun x hx => ⟨(hs x hx).1, ?_⟩⟩
    obtain ⟨hfinal, hstatus⟩ := hs x hx
    exact ((hmove.mono fun q hq => hex.fits i q (hi.trans hq)).2 (hstatus ▸ hfinal)).trans hstatus
  submit := by
    rintro f v i slot ⟨hex, hcount, hs⟩ hi
    exact ⟨hex.submit hi, hcount.submit hex hi, hs⟩
  reaped := by
    rintro f v v' ⟨hex, hcount, hs⟩ hnone hreaped
    refine ⟨.reaped hnone, hcount.reaped hnone hreaped, fun x hx => ⟨(hs x hx).1, ?_⟩⟩
    obtain ⟨hfinal, hstatus⟩ := hs x hx
    exact (hreaped.mono.2 (hstatus ▸ hfinal)).trans hstatus

/-- **An outcome is final and counted once.**  In a run in which no job is reaped that a
thread has in hand, a job that is done or failed stays so, and it adds at most one
to the two counters. -/
theorem final_stays {jobs : Dict String Job} {j : Job} (hj : jobs.get key = some j)
    (hrun : NodeSteps env (Unhurried env key) (boot jobs) c)
    (hrun' : NodeSteps env (Unhurried env key) c c') :
    ∃ v v', c.world.view key = some v ∧ c'.world.view key = some v' ∧
      (v.status.Final → v'.status = v.status) ∧ v'.counted ≤ 1 := by
  have hboot : At (OneOutcome none) key (fun _ : ι => none) (boot (ι := ι) jobs).world :=
    ⟨_, view_boot hj, exclusive_boot, .of_zero rfl, fun x hx => by cases hx⟩
  have hsound := hrun.sound (keeps (stable_oneOutcome none)) (sound_boot hboot)
  obtain ⟨v, hv, hex, hcount, -⟩ := hsound.world
  by_cases hfinal : v.status.Final
  · have hsound' : Sound (system env) (fun _ _ => True) Role.Allowed (fun _ _ => True)
        (At (OneOutcome (some v.status)) key) c := by
      refine ⟨hsound.threads, v, hv, hex, hcount, fun x hx => ?_⟩
      obtain rfl := Option.some.inj hx
      exact ⟨hfinal, rfl⟩
    obtain ⟨-, v', hv', -, hcount', hstays⟩ :=
      hrun'.sound (keeps (stable_oneOutcome (some v.status))) hsound'
    exact ⟨v, v', hv, hv', fun _ => (hstays _ rfl).2, hcount'.once⟩
  · obtain ⟨-, v', hv', -, hcount', -⟩ := hrun'.sound (keeps (stable_oneOutcome none)) hsound
    exact ⟨v, v', hv, hv', fun h => (hfinal h).elim, hcount'.once⟩

/-- The starts of the job are bounded, and its retry count is at least `lo`. -/
def Bounded (lo : ℕ) (f : ι → Option Phase) (v : View) : Prop :=
  Exclusive f v ∧ StartsBounded v ∧ lo ≤ v.retryCount

theorem stable_bounded (lo : ℕ) : Stable (Bounded (ι := ι) lo) where
  move := by
    rintro f v i p p' v' ⟨hex, hstarts, hlo⟩ hi hmove
    have hfits : ∀ q, p = some q → q.Fits v := fun q hq => hex.fits i q (hi.trans hq)
    exact ⟨hex.move hi hmove, hstarts.move hfits hmove, hlo.trans (hmove.mono hfits).1⟩
  submit := by
    rintro f v i slot ⟨hex, hstarts, hlo⟩ hi
    exact ⟨hex.submit hi, hstarts, hlo⟩
  reaped := by
    rintro f v v' ⟨hex, hstarts, hlo⟩ hnone hreaped
    exact ⟨.reaped hnone, hstarts.reaped hreaped, hlo.trans hreaped.mono.1⟩

/-- **A submitted job is started at most four times**, in a run in which no job is reaped
that a thread has in hand, and its retry count never decreases. -/
theorem starts_le {jobs : Dict String Job} {jobType jobId : String} {payload : Json} {now : ℕ}
    (hj : jobs.get key = some (makeJob jobType payload jobId now))
    (hrun : NodeSteps env (Unhurried env key) (boot jobs) c)
    (hrun' : NodeSteps env (Unhurried env key) c c') :
    ∃ v v', c.world.view key = some v ∧ c'.world.view key = some v' ∧
      v.retryCount ≤ v'.retryCount ∧ v'.starts ≤ maxJobRetries + 1 := by
  have hboot : At (Bounded 0) key (fun _ : ι => none) (boot (ι := ι) jobs).world :=
    ⟨_, view_boot hj, exclusive_boot, ⟨by simp [makeJob], by simp [makeJob]⟩, Nat.zero_le _⟩
  have hsound := hrun.sound (keeps (stable_bounded 0)) (sound_boot hboot)
  obtain ⟨v, hv, hex, hstarts, -⟩ := hsound.world
  have hsound' : Sound (system env) (fun _ _ => True) Role.Allowed (fun _ _ => True)
      (At (Bounded v.retryCount) key) c := ⟨hsound.threads, v, hv, hex, hstarts, le_rfl⟩
  obtain ⟨-, v', hv', -, ⟨hretries, hbound⟩, hlo⟩ :=
    hrun'.sound (keeps (stable_bounded v.retryCount)) hsound'
  exact ⟨v, v', hv, hv', hlo, by omega⟩

end Runs

/-! ### A node with one job -/

namespace OneJob

/-- The job `job:1`, submitted. -/
def jobs : Dict String Job := Dict.empty.set "job:1" (makeJob "echo" .null "1" 0)

/-- Every operation takes a minute, and an execution ends with `outcome`. -/
def env (outcome : Except String Json) : Env := ⟨fun n => 60000 * n, fun _ _ => outcome, "a"⟩

/-- What happens at a node, with the slots of the threads. -/
abbrev Happening := Event (Fin 4) Op Op.Res Empty Unit Role

/-- A round comes in and claims the job, which starts an execution. -/
def claimed (i slot : Fin 4) : List Happening :=
  [.enter i ⟨none, round⟩, .act i slot, .act i slot, .act i slot]

/-- The job is reaped while its execution `j` runs, and claimed again as `l`. -/
def overlapping (i j k l : Fin 4) : List Happening :=
  claimed i j ++ [.act j j, .act i i] ++ claimed k l

theorem rounds {events : List Happening} (h : events ⊆ claimed 0 1 ++ claimed 2 3 ++
    [.act 0 0, .act 1 1, .act 2 2, .act 3 3]) (i : Fin 4) (t : Thread Op Op.Res Empty Unit Role)
    (ht : .enter i t ∈ events) : Entry t := by
  have hmem := h ht
  simp only [claimed, List.cons_append, List.nil_append, List.mem_cons, reduceCtorEq,
    List.not_mem_nil, or_false, false_or, Event.enter.injEq] at hmem
  rcases hmem with ⟨-, rfl⟩ | ⟨-, rfl⟩ <;> rfl

section After

variable (cond : Cond (Fin 4) Op Role World) [∀ γ w i o, Decidable (cond γ w i o)]
  (outcome : Except String Json)

/-- What is known of the job after some events, and after some more. -/
def after (events events' : List Happening) : Option (View × View) :=
  ((boot jobs).steps (system (env outcome)) cond events).bind fun c =>
    (c.steps (system (env outcome)) cond events').bind fun c' =>
      (c.world.view "job:1").bind fun v => (c'.world.view "job:1").map fun v' => (v, v')

theorem runs_of_after {events events' : List Happening} {v v' : View}
    (hevents : events ++ events' ⊆ claimed 0 1 ++ claimed 2 3 ++
      [.act 0 0, .act 1 1, .act 2 2, .act 3 3])
    (h : after cond outcome events events' = some (v, v')) :
    ∃ c c' : Node (Fin 4), NodeSteps (env outcome) cond (boot jobs) c ∧
      NodeSteps (env outcome) cond c c' ∧ c.world.view "job:1" = some v ∧
      c'.world.view "job:1" = some v' := by
  obtain ⟨c, hc, h⟩ := Option.bind_eq_some_iff.1 h
  obtain ⟨c', hc', h⟩ := Option.bind_eq_some_iff.1 h
  obtain ⟨u, hu, h⟩ := Option.bind_eq_some_iff.1 h
  obtain ⟨u', hu', h⟩ := Option.map_eq_some_iff.1 h
  obtain ⟨rfl, rfl⟩ := Prod.mk.inj h
  exact ⟨c, c', .of_steps (rounds fun e he => hevents (List.mem_append_left _ he)) hc,
    .of_steps (rounds fun e he => hevents (List.mem_append_right _ he)) hc', hu, hu'⟩

end After

end OneJob

open OneJob in
/-- The hypotheses of `final_stays` are satisfiable: the job is claimed and done, and the
next round finds nothing. -/
theorem final_stays_oneJob :
    ∃ (c c' : Node (Fin 4)) (v v' : View), c.world.view "job:1" = some v ∧
      c'.world.view "job:1" = some v' ∧ (v.status.Final → v'.status = v.status) ∧ v'.counted ≤ 1 := by
  have hafter : after (Unhurried (env (.ok .null)) "job:1") (.ok .null)
      (claimed 0 1 ++ [.act 1 1, .act 1 1, .act 1 1, .act 1 1]) [.act 0 0] =
        some (⟨.done, 0, 1, 1⟩, ⟨.done, 0, 1, 1⟩) := by decide +kernel
  obtain ⟨c, c', hrun, hrun', -, -⟩ := runs_of_after _ _ (by simp [claimed]) hafter
  obtain ⟨v, v', hv, hv', hstays⟩ := final_stays (j := makeJob "echo" .null "1" 0) rfl hrun hrun'
  exact ⟨c, c', v, v', hv, hv', hstays⟩

open OneJob in
/-- **A reaped execution ends after the job is done.**  The job is reaped while it runs and
claimed again; the first execution makes it done, and the second one makes it
running and then done a second time. -/
theorem reaped_job_done_twice :
    ∃ (c c' : Node (Fin 4)) (v v' : View),
      NodeSteps (env (.ok .null)) (fun _ _ _ _ => True) (boot jobs) c ∧
      NodeSteps (env (.ok .null)) (fun _ _ _ _ => True) c c' ∧
      c.world.view "job:1" = some v ∧ c'.world.view "job:1" = some v' ∧
      v.status = .done ∧ v'.status = .running ∧
      ∃ (c'' : Node (Fin 4)) (v'' : View),
        NodeSteps (env (.ok .null)) (fun _ _ _ _ => True) (boot jobs) c'' ∧
        c''.world.view "job:1" = some v'' ∧ v''.counted = 2 := by
  have hafter : after (fun _ _ _ _ => True) (.ok .null) (overlapping 0 1 2 3 ++ [.act 1 1, .act 1 1])
      [.act 3 3] = some (⟨.done, 1, 1, 0⟩, ⟨.running, 1, 2, 0⟩) := by decide +kernel
  have hafter' : after (fun _ _ _ _ => True) (.ok .null) (overlapping 0 1 2 3 ++ [.act 1 1, .act 1 1])
      [.act 3 3, .act 1 1, .act 3 3, .act 3 3, .act 3 3] =
        some (⟨.done, 1, 1, 0⟩, ⟨.done, 1, 2, 2⟩) := by decide +kernel
  obtain ⟨c, c', hrun, hrun', hv, hv'⟩ := runs_of_after _ _ (by simp [overlapping, claimed]) hafter
  obtain ⟨d, c'', hrund, hrun'', -, hv''⟩ :=
    runs_of_after _ _ (by simp [overlapping, claimed]) hafter'
  exact ⟨c, c', _, _, hrun, hrun', hv, hv', rfl, rfl, c'', _, hrund.trans hrun'', hv'', rfl⟩

open OneJob in
/-- The hypotheses of `starts_le` are satisfiable: the execution raises, and the job is
re-queued and claimed again. -/
theorem starts_le_oneJob :
    ∃ (c c' : Node (Fin 4)) (v v' : View), c.world.view "job:1" = some v ∧
      c'.world.view "job:1" = some v' ∧ v.retryCount ≤ v'.retryCount ∧
      v'.starts ≤ maxJobRetries + 1 := by
  have hafter : after (Unhurried (env (.error "e")) "job:1") (.error "e") (claimed 0 1)
      ([.act 1 1, .act 1 1, .act 1 1, .act 1 1] ++ claimed 2 3) =
        some (⟨.claimed, 0, 0, 0⟩, ⟨.claimed, 1, 1, 0⟩) := by decide +kernel
  obtain ⟨c, c', hrun, hrun', -, -⟩ := runs_of_after _ _ (by simp [claimed]) hafter
  have hj : jobs.get "job:1" = some (makeJob "echo" .null "1" 0) := rfl
  obtain ⟨v, v', hv, hv', hle⟩ := starts_le hj hrun hrun'
  exact ⟨c, c', v, v', hv, hv', hle⟩

open OneJob in
/-- **A reaped execution writes back an old retry count.**  The first execution raises and
reads zero, the job is reaped and claimed again, the second execution raises and
re-queues the job with two, and then the first one does with one. -/
theorem retry_count_decreases :
    ∃ (c c' : Node (Fin 4)) (v v' : View),
      NodeSteps (env (.error "e")) (fun _ _ _ _ => True) (boot jobs) c ∧
      NodeSteps (env (.error "e")) (fun _ _ _ _ => True) c c' ∧
      c.world.view "job:1" = some v ∧ c'.world.view "job:1" = some v' ∧
      v'.retryCount < v.retryCount := by
  have hafter : after (fun _ _ _ _ => True) (.error "e")
      (claimed 0 1 ++ [.act 1 1, .act 1 1, .act 1 1, .act 0 0] ++ claimed 2 3 ++
        [.act 3 3, .act 3 3, .act 3 3, .act 3 3]) [.act 1 1] =
        some (⟨.pending, 2, 2, 0⟩, ⟨.pending, 1, 2, 0⟩) := by decide +kernel
  obtain ⟨c, c', hrun, hrun', hv, hv'⟩ := runs_of_after _ _ (by simp [claimed]) hafter
  exact ⟨c, c', _, _, hrun, hrun', hv, hv', by decide⟩

end Jobs
end ChordInfra
