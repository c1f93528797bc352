/-
# How long an assigned task waits

A worker process polls its list of tasks in order, and starts the pending ones that it has not seen
while its pool has a slot left.  A task at some place of the list therefore waits for the tasks before
it, and for slots.  `started_within` says for how long: every turn of the loop that does not start the
task was cut short by a full pool, and of these turns all but as many as there are unseen tasks before
it had started nothing.  The other threads may do to the in-flight set what they want in between.

A record before the task that is no dictionary would end each turn before the task is reached.
-/

import Mathlib.Data.Finset.Card
import ChordInfra.Server.WorkerProcess

namespace ChordInfra
namespace Server
namespace WorkerProcess

open Interact Prog
open Storage (Json ExecutionResult)
open Workers (Memory)

/-! ### The main thread among others -/

/-- What the other threads do before an operation of the main thread, by its number. -/
abbrev Others := ℕ → World → World

/-- The executions and the heartbeats leave what the process has seen, and do not stop it. -/
def Others.Quiet (others : Others) : Prop :=
  ∀ n w, (others n w).memory.seen = w.memory.seen ∧ (others n w).stopped = w.stopped

/-- How an operation of the main thread is performed among others. -/
def among (answers : Answers) (others : Others) (o : Op) (w : World) : o.Res × World :=
  handle answers o (others w.operations w)

/-- The operations that the main thread performed, with their answers. -/
abbrev Log := List (Σ o : Op, o.Res)

/-- The tasks that were started: submitted to the pool, or executed in the loop. -/
def started (l : Log) : List String :=
  l.filterMap fun e =>
    match e with
    | ⟨.submit taskId _, _⟩ | ⟨.execute taskId _, _⟩ => some taskId
    | _ => none

/-- The pool was found full. -/
def isFull : (Σ o : Op, o.Res) → Bool
  | ⟨.memory (.full _), isFull⟩ => isFull
  | _ => false

/-- A turn that found the pool full and had started nothing. -/
def barred (l : Log) : Bool := l.any isFull && (started l).isEmpty

/-- What each of the first turns of the loop performs. -/
def turns (H : (o : Op) → World → o.Res × World) (concurrency : ℕ) : ℕ → World → List Log
  | 0, _ => []
  | n + 1, w =>
    let w := (H .stopped w).2
    log H (pollTick concurrency) w :: turns H concurrency n (exec H (pollTick concurrency) w).2

@[simp] theorem started_append (l l' : Log) : started (l ++ l') = started l ++ started l' :=
  List.filterMap_append

/-! ### One task -/

section Turn

variable (answers : Answers) {others : Others} {w : World} (concurrency : ℕ) {taskId t : String}

/-- The operation leaves what the process has seen. -/
def Op.Unseeing : Op → Prop
  | .memory (.see _) => False
  | _ => True

theorem among_stopped (h : others.Quiet) (o : Op) (w : World) :
    (among answers others o w).2.stopped = w.stopped := by
  rw [← (h w.operations w).2]
  cases o <;> rfl

theorem among_seen (h : others.Quiet) {o : Op} (ho : o.Unseeing) (w : World) :
    (among answers others o w).2.memory.seen = w.memory.seen := by
  rw [← (h w.operations w).1]
  cases o with
  | memory c =>
    cases c with
    | see t => exact ho.elim
    | _ => rfl
  | _ => rfl

theorem mem_seen_see (h : others.Quiet) (taskId : String) (w : World) :
    t ∈ (among answers others (.memory (.see taskId)) w).2.memory.seen ↔
      t = taskId ∨ t ∈ w.memory.seen := by
  rw [← (h w.operations w).1]
  exact Memory.mem_add

theorem hasSeen_among (h : others.Quiet) (taskId : String) (w : World) :
    (among answers others (.memory (.hasSeen taskId)) w).1 = decide (taskId ∈ w.memory.seen) := by
  rw [← (h w.operations w).1]
  rfl

/-- An execution in the loop starts its task, claims none, and does not raise. -/
theorem exec_executeAndReport (h : others.Quiet) (taskId : String) (record : Json) (w : World) :
    (exec (among answers others) (executeAndReport taskId record) w).1 = .ok () ∧
      (exec (among answers others) (executeAndReport taskId record) w).2.memory.seen =
        w.memory.seen ∧
      (exec (among answers others) (executeAndReport taskId record) w).2.stopped = w.stopped := by
  have hreport : ∀ (st : String) (result : Json) (tries : ℕ),
      wp (fun (_ : Unit) (_ : Op) _ => ()) (fun _ _ => True) (fun _ o => o.Unseeing)
        (reportTries taskId st result tries) (fun x _ => x = .ok ()) () := by
    intro st result tries
    induction tries with
    | zero => exact rfl
    | succ tries ih =>
      refine wp_perform_bind.2 ⟨trivial, fun ok _ => ?_⟩
      cases ok with
      | true => exact rfl
      | false => exact ih
  have hwhole : wp (fun (_ : Unit) (_ : Op) _ => ()) (fun _ _ => True) (fun _ o => o.Unseeing)
      (executeAndReport taskId record) (fun x _ => x = .ok ()) () := by
    refine wp_perform_bind.2 ⟨trivial, fun _ _ => wp_perform_bind.2 ⟨trivial, fun result _ => ?_⟩⟩
    refine wp_bind.2 (wp_mono (fun x _ hx => ?_) (hreport _ _ _))
    rw [hx]
    exact wp_perform.2 ⟨trivial, fun _ _ => rfl⟩
  have hkept : ∀ (_ : Unit) (w' : World) (o : Op),
      (w'.memory.seen = w.memory.seen ∧ w'.stopped = w.stopped) → o.Unseeing →
      True ∧ (among answers others o w').2.memory.seen = w.memory.seen ∧
        (among answers others o w').2.stopped = w.stopped :=
    fun _ w' o hw' ho => ⟨trivial, (among_seen answers h ho w').trans hw'.1,
      (among_stopped answers h o w').trans hw'.2⟩
  obtain ⟨-, hok, hseen, hstopped⟩ := exec_wp hkept hwhole ⟨rfl, rfl⟩
  exact ⟨hok, hseen, hstopped⟩

theorem mem_started_executeAndReport (taskId : String) (record : Json) (w : World) :
    taskId ∈ started (log (among answers others) (executeAndReport taskId record) w) :=
  List.mem_cons_self

/-- A task that is started is claimed, and no other. -/
theorem startTask_spec (h : others.Quiet) (taskId : String) (record : Json) (w : World) :
    (exec (among answers others) (startTask concurrency taskId record) w).1 = .ok () ∧
      (∀ t, t ∈ (exec (among answers others) (startTask concurrency taskId record) w).2.memory.seen ↔
        t = taskId ∨ t ∈ w.memory.seen) ∧
      (exec (among answers others) (startTask concurrency taskId record) w).2.stopped = w.stopped ∧
      taskId ∈ started (log (among answers others) (startTask concurrency taskId record) w) := by
  have hsee : ∀ t, t ∈ (among answers others (.memory (.see taskId)) w).2.memory.seen ↔
      t = taskId ∨ t ∈ w.memory.seen := fun t => mem_seen_see answers h taskId w
  have hstop := among_stopped answers h (.memory (.see taskId)) w
  generalize hw₁ : (among answers others (.memory (.see taskId)) w).2 = w₁ at hsee hstop
  unfold startTask
  simp only [act, perform_bind, exec_op, log_op, hw₁]
  split
  · -- into the pool: marked, then submitted
    have hmark := among_seen answers h (o := .mark taskId) trivial w₁
    have hsubmit := among_seen answers h (o := .submit taskId record) trivial
      (among answers others (.mark taskId) w₁).2
    refine ⟨rfl, fun t => ?_, ?_, List.mem_cons_self⟩
    · refine Iff.trans ?_ (hsee t)
      exact iff_of_eq (congrArg (t ∈ ·) (hsubmit.trans hmark))
    · exact (among_stopped answers h _ _).trans ((among_stopped answers h (.mark taskId) w₁).trans hstop)
  · obtain ⟨hok, hseen, hstopped⟩ := exec_executeAndReport answers h taskId record w₁
    refine ⟨hok, fun t => ?_, hstopped.trans hstop, mem_started_executeAndReport answers taskId record w₁⟩
    rw [hseen]
    exact hsee t

/-- What a turn does about a task with a readable record. -/
structure Past (taskId : String) (w w' : World) (l : Log) : Prop where
  /-- What was seen stays seen. -/
  keeps : ∀ t, t ∈ w.memory.seen → t ∈ w'.memory.seen
  /-- Other tasks stay unseen. -/
  others : ∀ t, t ≠ taskId → t ∈ w'.memory.seen → t ∈ w.memory.seen
  stopped : w'.stopped = w.stopped
  /-- It is started only when it was not seen, and is seen from then on. -/
  claims : started l = [] ∨ taskId ∉ w.memory.seen ∧ taskId ∈ w'.memory.seen

/-- A turn that starts nothing and sees nothing but the task. -/
theorem Past.of_seen {w' : World} {l : Log}
    (hseen : ∀ t, t ∈ w'.memory.seen ↔ t = taskId ∨ t ∈ w.memory.seen)
    (hstopped : w'.stopped = w.stopped) (hstarted : started l = []) : Past taskId w w' l where
  keeps t ht := (hseen t).2 (.inr ht)
  others t ht h := ((hseen t).1 h).resolve_left ht
  stopped := hstopped
  claims := .inl hstarted

/-- A turn that starts nothing and sees nothing. -/
theorem Past.of_same {w' : World} {l : Log} (hseen : w'.memory.seen = w.memory.seen)
    (hstopped : w'.stopped = w.stopped) (hstarted : started l = []) : Past taskId w w' l where
  keeps _ ht := hseen ▸ ht
  others _ _ h := hseen ▸ h
  stopped := hstopped
  claims := .inl hstarted

/-- A task whose record is none or a dictionary ends no turn. -/
theorem past_pollTask (h : others.Quiet)
    (hread : ∀ k, answers.record k taskId = .null ∨ ∃ fields, answers.record k taskId = .obj fields)
    (w : World) :
    (exec (among answers others) (pollTask concurrency taskId) w).1 = .ok () ∧
      Past taskId w (exec (among answers others) (pollTask concurrency taskId) w).2
        (log (among answers others) (pollTask concurrency taskId) w) := by
  have hseen := among_seen answers h (o := .record taskId) trivial w
  have hstop := among_stopped answers h (.record taskId) w
  have hrecord : (among answers others (.record taskId) w).1 =
      answers.record (others w.operations w).operations taskId := rfl
  generalize hw₁ : (among answers others (.record taskId) w).2 = w₁ at hseen hstop
  rcases hread (others w.operations w).operations with hr | ⟨fields, hr⟩ <;> rw [hr] at hrecord
  · simp only [pollTask, act, perform_bind, exec_op, log_op, hrecord, hw₁]
    exact ⟨rfl, .of_same hseen hstop rfl⟩
  simp only [pollTask, act, perform_bind, exec_op, log_op, hrecord, hw₁, getStatus, status,
    pure_bind']
  split
  · refine ⟨rfl, .of_seen (fun t => ?_) ((among_stopped answers h _ w₁).trans hstop) rfl⟩
    rw [← hseen]
    exact mem_seen_see answers h taskId w₁
  · have hseen₂ := (among_seen answers h (o := .memory (.hasSeen taskId)) trivial
      w₁).trans hseen
    have hstop₂ := (among_stopped answers h (.memory (.hasSeen taskId)) w₁).trans hstop
    have hasSeen := hasSeen_among answers h taskId w₁
    generalize hw₂ : (among answers others (.memory (.hasSeen taskId)) w₁).2 = w₂ at hseen₂ hstop₂
    simp only [exec_op, log_op, hasSeen, hw₂, hseen]
    by_cases hmem : taskId ∈ w.memory.seen
    · simp only [hmem, decide_true, if_true]
      exact ⟨rfl, .of_same hseen₂ hstop₂ rfl⟩
    · simp only [hmem, decide_false, Bool.false_eq_true, if_false]
      obtain ⟨hok, hclaim, hstop₃, -⟩ := startTask_spec answers concurrency h taskId (.obj fields) w₂
      rw [hseen₂] at hclaim
      exact ⟨hok, fun t ht => (hclaim t).2 (.inr ht),
        fun t ht ht' => ((hclaim t).1 ht').resolve_left ht, hstop₃.trans hstop₂,
        .inr ⟨hmem, (hclaim taskId).2 (.inl rfl)⟩⟩

/-- A record that the polling loop does not pass over. -/
def Due (record : Json) : Prop := ∃ st, status record = some st ∧ passedOver st = false

/-- An unseen task that is due is started where a turn comes to it. -/
theorem mem_started_pollTask (h : others.Quiet) (hdue : ∀ k, Due (answers.record k taskId))
    (hunseen : taskId ∉ w.memory.seen) :
    taskId ∈ started (log (among answers others) (pollTask concurrency taskId) w) := by
  have hseen := among_seen answers h (o := .record taskId) trivial w
  have hrecord : (among answers others (.record taskId) w).1 =
      answers.record (others w.operations w).operations taskId := rfl
  generalize hw₁ : (among answers others (.record taskId) w).2 = w₁ at hseen
  obtain ⟨st, hst, hpassed⟩ := hdue (others w.operations w).operations
  obtain ⟨fields, hr⟩ : ∃ fields, answers.record (others w.operations w).operations taskId =
      .obj fields := by
    cases hr : answers.record (others w.operations w).operations taskId with
    | obj fields => exact ⟨fields, rfl⟩
    | _ => rw [hr] at hst; cases hst
  rw [hr] at hrecord hst
  cases hst
  have hasSeen := hasSeen_among answers h taskId w₁
  rw [hseen] at hasSeen
  simp only [pollTask, act, perform_bind, log_op, hrecord, hw₁, getStatus, status, pure_bind',
    hpassed, Bool.false_eq_true, if_false, hasSeen, hunseen, decide_false]
  exact (startTask_spec answers concurrency h taskId (.obj fields) _).2.2.2

/-- What comes before an assigned task is looked at: the turn ends there with a full pool, or
goes on. -/
theorem pollTasks_cons (h : others.Quiet) (taskId : String) (taskIds : List String)
    (hstop : w.stopped = false) :
    ∃ (w₁ : World) (l : Log), w₁.memory.seen = w.memory.seen ∧ w₁.stopped = false ∧ started l = [] ∧
      (l.any isFull = true ∧
          exec (among answers others) (pollTasks concurrency (taskId :: taskIds)) w = (.ok (), w₁) ∧
          log (among answers others) (pollTasks concurrency (taskId :: taskIds)) w = l ∨
        exec (among answers others) (pollTasks concurrency (taskId :: taskIds)) w =
            exec (among answers others)
              (pollTask concurrency taskId >>= fun _ => pollTasks concurrency taskIds) w₁ ∧
          log (among answers others) (pollTasks concurrency (taskId :: taskIds)) w = l ++
            log (among answers others)
              (pollTask concurrency taskId >>= fun _ => pollTasks concurrency taskIds) w₁) := by
  have hseen := among_seen answers h (o := .stopped) trivial w
  have hstop₁ := (among_stopped answers h .stopped w).trans hstop
  have hanswer : (among answers others .stopped w).1 = false := (h w.operations w).2.trans hstop
  generalize hw₁ : (among answers others .stopped w).2 = w₁ at hseen hstop₁
  simp only [pollTasks, act, perform_bind, exec_op, log_op, hanswer, hw₁, Bool.false_eq_true,
    if_false, full]
  by_cases hpool : 1 < concurrency
  · have hseen₂ := (among_seen answers h (o := .memory (.full concurrency)) trivial w₁).trans hseen
    have hstop₂ := (among_stopped answers h (.memory (.full concurrency)) w₁).trans hstop₁
    generalize hw₂ : (among answers others (.memory (.full concurrency)) w₁).2 = w₂ at hseen₂ hstop₂
    simp only [if_pos hpool, perform_bind, exec_op, log_op, hw₂]
    cases hb : (among answers others (.memory (.full concurrency)) w₁).1 with
    | true => exact ⟨w₂, _, hseen₂, hstop₂, rfl, .inl ⟨rfl, rfl, rfl⟩⟩
    | false =>
      exact ⟨w₂, [⟨.stopped, false⟩, ⟨.memory (.full concurrency), false⟩], hseen₂, hstop₂, rfl,
        .inr ⟨rfl, rfl⟩⟩
  · simp only [if_neg hpool, pure_bind']
    exact ⟨w₁, [⟨.stopped, false⟩], hseen, hstop₁, rfl, .inr ⟨rfl, rfl⟩⟩

/-- A turn that found the pool full before it came to a task: it had started nothing, or one of
the tasks before it was seen for the first time. -/
structure Delayed (ahead : Finset String) (t : String) (w w' : World) (l : Log) : Prop where
  unseen : t ∉ w'.memory.seen
  running : w'.stopped = false
  keeps : ∀ x, x ∈ w.memory.seen → x ∈ w'.memory.seen
  full : l.any isFull = true
  progress : started l = [] ∨ ∃ x ∈ ahead, x ∉ w.memory.seen ∧ x ∈ w'.memory.seen

/-- What the process is told of a task and of those before it: the list that it polls has the task,
with no others before it than these, whose records end no turn, and the task itself is due. -/
structure Queued (answers : Answers) (ahead : Finset String) (t : String) : Prop where
  assigned : ∀ k, ∃ pre post, answers.assigned k = pre ++ t :: post ∧ ∀ x ∈ pre, x ∈ ahead
  apart : t ∉ ahead
  readable : ∀ k, ∀ x ∈ ahead,
    answers.record k x = .null ∨ ∃ fields, answers.record k x = .obj fields
  due : ∀ k, Due (answers.record k t)

variable {answers} {ahead : Finset String}

theorem pollTasks_spec (h : others.Quiet) (hq : Queued answers ahead t) (pre post : List String)
    (hpre : ∀ x ∈ pre, x ∈ ahead) (hstop : w.stopped = false) (hunseen : t ∉ w.memory.seen) :
    t ∈ started (log (among answers others) (pollTasks concurrency (pre ++ t :: post)) w) ∨
      Delayed ahead t w (exec (among answers others) (pollTasks concurrency (pre ++ t :: post)) w).2
        (log (among answers others) (pollTasks concurrency (pre ++ t :: post)) w) := by
  induction pre generalizing w with
  | nil =>
    obtain ⟨w₁, l, hseen, hstop₁, hnone, ⟨hfull, hexec, hlog⟩ | ⟨-, hlog⟩⟩ :=
      pollTasks_cons answers concurrency h t post hstop
    · rw [List.nil_append, hexec, hlog]
      exact .inr ⟨hseen ▸ hunseen, hstop₁, fun _ hx => hseen ▸ hx, hfull, .inl hnone⟩
    · left
      rw [List.nil_append, hlog, log_bind, started_append, started_append]
      refine List.mem_append_right _ (List.mem_append_left _ ?_)
      exact mem_started_pollTask answers concurrency h hq.due (hseen ▸ hunseen)
  | cons x pre ih =>
    have hx : x ∈ ahead := hpre x List.mem_cons_self
    have hne : t ≠ x := fun he => hq.apart (he ▸ hx)
    rw [List.cons_append]
    obtain ⟨w₁, l, hseen, hstop₁, hnone, ⟨hfull, hexec, hlog⟩ | ⟨hexec, hlog⟩⟩ :=
      pollTasks_cons answers concurrency h x (pre ++ t :: post) hstop
    · rw [hexec, hlog]
      exact .inr ⟨hseen ▸ hunseen, hstop₁, fun _ hx => hseen ▸ hx, hfull, .inl hnone⟩
    obtain ⟨hok, hpast⟩ := past_pollTask answers concurrency h (fun k => hq.readable k x hx) w₁
    rcases hrun : exec (among answers others) (pollTask concurrency x) w₁ with ⟨r, w₂⟩
    rw [hrun] at hok hpast
    cases hok
    rw [hexec, hlog, exec_bind_ok hrun, log_bind, hrun]
    have hunseen₂ : t ∉ w₂.memory.seen := fun ht => hunseen (hseen ▸ hpast.others t hne ht)
    have hkeeps : ∀ y, y ∈ w.memory.seen → y ∈ w₂.memory.seen :=
      fun y hy => hpast.keeps y (hseen ▸ hy)
    rcases ih (fun y hy => hpre y (List.mem_cons_of_mem _ hy)) (hpast.stopped.trans hstop₁)
      hunseen₂ with ht | hlate
    · left
      rw [started_append, started_append]
      exact List.mem_append_right _ (List.mem_append_right _ ht)
    · refine .inr ⟨hlate.unseen, hlate.running, fun y hy => hlate.keeps y (hkeeps y hy), ?_, ?_⟩
      · rw [List.any_append, List.any_append, hlate.full, Bool.or_true, Bool.or_true]
      · -- the first start, if any, is that of a task not seen before
        rcases hpast.claims with hpast | ⟨hnew, hnow⟩
        · rcases hlate.progress with hrest | ⟨y, hy, hnew, hnow⟩
          · left
            rw [started_append, started_append, hnone, hpast]
            exact hrest
          · exact .inr ⟨y, hy, fun h => hnew (hkeeps y h), hnow⟩
        · exact .inr ⟨x, hx, fun h => hnew (hseen ▸ h), hlate.keeps x hnow⟩

/-- The tasks before it that the process has not seen. -/
def unclaimed (ahead : Finset String) (w : World) : Finset String :=
  ahead.filter fun x => x ∉ w.memory.seen

/-- A turn that did not come to the task was barred, or left fewer unseen tasks before it. -/
theorem Delayed.card_le {w' : World} {l : Log} (h : Delayed ahead t w w' l) :
    (unclaimed ahead w').card + 1 ≤ (unclaimed ahead w).card + (if barred l then 1 else 0) := by
  have hsub : unclaimed ahead w' ⊆ unclaimed ahead w := fun x hx => by
    obtain ⟨hx, hnot⟩ := Finset.mem_filter.1 hx
    exact Finset.mem_filter.2 ⟨hx, fun hseen => hnot (h.keeps x hseen)⟩
  rcases h.progress with hnone | ⟨x, hx, hnew, hnow⟩
  · have hbarred : barred l = true := by rw [barred, h.full, hnone]; rfl
    rw [if_pos hbarred]
    exact Nat.succ_le_succ (Finset.card_le_card hsub)
  · refine Nat.le_add_right_of_le (Finset.card_lt_card (Finset.ssubset_iff_of_subset hsub |>.2 ?_))
    exact ⟨x, Finset.mem_filter.2 ⟨hx, hnew⟩, fun hmem => (Finset.mem_filter.1 hmem).2 hnow⟩

end Turn

/-- A turn of a loop that has not been stopped, and the turns after it. -/
theorem log_pollingLoop {answers : Answers} {others : Others} {w : World} (concurrency n : ℕ)
    (h : others.Quiet) (hstop : w.stopped = false) :
    log (among answers others) (pollingLoop concurrency (n + 1)) w =
      ⟨.stopped, false⟩ ::
        (log (among answers others) (pollTick concurrency) (among answers others .stopped w).2 ++
          log (among answers others) (pollingLoop concurrency n)
            (exec (among answers others) (pollTick concurrency)
              (among answers others .stopped w).2).2) := by
  have hanswer : (among answers others .stopped w).1 = false := (h w.operations w).2.trans hstop
  simp only [pollingLoop, act, perform_bind, log_op, hanswer, Bool.false_eq_true, if_false]
  rw [log_attempt_bind]

/-- **An assigned task is started within so many turns.**  A task that is due and that the process
has not seen, whatever the other threads do to the in-flight set between the operations of the
loop, is started in the first `n` turns, if the turns of these that found the pool full and had
started nothing are less than `n` by more than the unseen tasks before it.  The records of the tasks
before it can be read, or are missing. -/
theorem started_within {answers : Answers} {others : Others} {ahead : Finset String} {t : String}
    (concurrency n : ℕ) (w : World) (h : others.Quiet) (hq : Queued answers ahead t)
    (hstop : w.stopped = false) (hunseen : t ∉ w.memory.seen)
    (hturns : (unclaimed ahead w).card +
      (turns (among answers others) concurrency n w).countP barred < n) :
    t ∈ started (log (among answers others) (pollingLoop concurrency n) w) := by
  induction n generalizing w with
  | zero => exact absurd hturns (Nat.not_lt_zero _)
  | succ n ih =>
    rw [log_pollingLoop concurrency n h hstop]
    rw [turns] at hturns
    have hseen := among_seen answers h (o := .stopped) trivial w
    have hstop₁ := (among_stopped answers h .stopped w).trans hstop
    have hcard : unclaimed ahead (among answers others .stopped w).2 = unclaimed ahead w := by
      rw [unclaimed, hseen, unclaimed]
    generalize (among answers others .stopped w).2 = w₁ at hseen hstop₁ hcard hturns ⊢
    -- the list that this turn polls
    have hseen₂ := (among_seen answers h (o := .assigned) trivial w₁).trans hseen
    have hstop₂ := (among_stopped answers h .assigned w₁).trans hstop₁
    obtain ⟨pre, post, hlist, hpre⟩ := hq.assigned (others w₁.operations w₁).operations
    have hassigned : (among answers others .assigned w₁).1 = pre ++ t :: post := hlist
    have hlog : log (among answers others) (pollTick concurrency) w₁ =
        ⟨.assigned, pre ++ t :: post⟩ :: log (among answers others)
          (pollTasks concurrency (pre ++ t :: post)) (among answers others .assigned w₁).2 := by
      rw [← hassigned]
      rfl
    have hexec : exec (among answers others) (pollTick concurrency) w₁ = exec (among answers others)
        (pollTasks concurrency (pre ++ t :: post)) (among answers others .assigned w₁).2 := by
      rw [← hassigned]
      rfl
    have hspec := pollTasks_spec concurrency h hq pre post hpre hstop₂ (hseen₂ ▸ hunseen)
    rw [← hexec] at hspec
    have hstarted : started (log (among answers others) (pollTick concurrency) w₁) =
        started (log (among answers others) (pollTasks concurrency (pre ++ t :: post))
          (among answers others .assigned w₁).2) := by rw [hlog]; rfl
    have hbarred : barred (log (among answers others) (pollTick concurrency) w₁) =
        barred (log (among answers others) (pollTasks concurrency (pre ++ t :: post))
          (among answers others .assigned w₁).2) := by rw [hlog]; rfl
    have happend : ∀ l l' : Log, started (⟨.stopped, false⟩ :: (l ++ l')) = started l ++ started l' :=
      fun l l' => started_append l l'
    rw [happend]
    rcases hspec with ht | hlate
    · exact List.mem_append_left _ (hstarted ▸ ht)
    · refine List.mem_append_right _ (ih _ hlate.running hlate.unseen ?_)
      have hcard₂ : unclaimed ahead (among answers others .assigned w₁).2 = unclaimed ahead w := by
        rw [unclaimed, hseen₂, unclaimed]
      have hfewer := hlate.card_le
      rw [hcard₂, ← hbarred] at hfewer
      rw [List.countP_cons] at hturns
      omega

/-- Three pending tasks for two slots, which two executions leave in the third turn. -/
theorem started_within_four :
    let answers : Answers :=
      ⟨fun _ => ["a", "b", "t"], fun _ _ => .obj [("status", .str "PENDING")],
        fun _ _ _ => .error "", fun _ _ => true⟩
    let others : Others := fun n w =>
      if n = 22 then { w with memory := { w.memory with inflight := [] } } else w
    (turns (among answers others) 2 4 .init).countP barred = 1 ∧
      "t" ∈ started (log (among answers others) (pollingLoop 2 4) .init) := by
  intro answers others
  have hquiet : others.Quiet := fun n w => by
    by_cases h : n = 22
    · simp only [others, if_pos h, and_self]
    · simp only [others, if_neg h, and_self]
  have hqueued : Queued answers {"a", "b"} "t" :=
    ⟨fun _ => ⟨["a", "b"], [], rfl, by decide⟩, by decide, fun _ _ _ => .inr ⟨_, rfl⟩,
      fun _ => ⟨_, rfl, rfl⟩⟩
  exact ⟨by decide +kernel,
    started_within 2 4 .init hquiet hqueued rfl (by decide) (by decide +kernel)⟩

end WorkerProcess
end Server
end ChordInfra
