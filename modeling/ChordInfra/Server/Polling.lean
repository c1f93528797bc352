/-
# Queued again and not executed again

The server believes that a pending task in the queue of a live worker will run.  The
polling loop of the worker passes over every task that its process has seen before, in
whatever status, and nothing ever takes a task out of what a process has seen: a turn of
the loop that reads the pending record of a task starts it just when the process had not
seen the task before (`poll_starts_iff`).
-/

import ChordInfra.Server.Acting
import ChordInfra.Server.OneNode
import ChordInfra.Storage.Interference

namespace ChordInfra
namespace Server

open Interact Prog
open Storage
open Workers (Process Memory)

/-! ### What a turn reads and starts -/

/-- The operations of a turn with their answers. -/
abbrev PollLog := List (Σ o : PollOp, Except Exc o.Val)

/-- The records that a turn read, each with the id it was read for. -/
def PollLog.records (l : PollLog) : List (String × ResultRecord) :=
  l.filterMap fun
    | ⟨.record taskId, .ok (some record)⟩ => some (taskId, record)
    | _ => none

/-- The tasks that a turn started. -/
def PollLog.started (l : PollLog) : List String :=
  l.filterMap fun
    | ⟨.start taskId _, _⟩ => some taskId
    | _ => none

theorem PollLog.records_append (l l' : PollLog) :
    PollLog.records (l ++ l') = PollLog.records l ++ PollLog.records l' := List.filterMap_append

theorem PollLog.started_append (l l' : PollLog) :
    PollLog.started (l ++ l') = PollLog.started l ++ PollLog.started l' := List.filterMap_append

/-- The others leave alone what a process has seen. -/
def Others.KeepSeen (others : Others) (p : Process) : Prop :=
  ∀ t w, ((others.act t w).memories p).seen = (w.memories p).seen

/-- An operation that does not add to what the process has seen. -/
def KeepsSeen (p : Process) (o : Op) : Prop := ∀ taskId, o ≠ .memory p (.see taskId)

theorem acting_keepsSeen (p : Process) :
    Acting (fun _ _ => True) (KeepsSeen p) (fun _ _ => True) fun _ => True :=
  acting_of fun _ ho _ _ he => ho p _ he

section Turn

variable {env : Env} {others : Others} {s : Service} {p : Process} {taskId t : String} {w : World}

theorem seen_handle {o : Op} (ho : KeepsSeen p o) (w : World) :
    ((handle env o w).2.memories p).seen = (w.memories p).seen := by
  cases o with
  | memory q c =>
    have hne : ∀ t, q = p → c ≠ .see t := fun t hq hc => ho t (hq ▸ hc ▸ rfl)
    by_cases hq : p = q
    · subst hq
      have hself : (handle env (.memory p c) w).2.memories p = ((w.memories p).call c).2 :=
        Function.update_self ..
      rw [hself]
      cases c with
      | see t => exact absurd rfl (hne t rfl)
      | _ => rfl
    · exact congrArg Memory.seen (Function.update_of_ne hq ..)
  | _ => rfl

/-- How an operation of a turn is performed among others. -/
abbrev pollStep (env : Env) (others : Others) (s : Service) (p : Process) (o : PollOp) (w : World) :
    Except Exc o.Val × World :=
  runAmong env others (o.program s p) w

/-- Only `see` adds to what the process has seen. -/
theorem seen_pollStep (hothers : Others.KeepSeen others p) {o : PollOp} (ho : ∀ t, o ≠ .see t)
    (w : World) : ((pollStep env others s p o w).2.memories p).seen = (w.memories p).seen := by
  have h := acting_keepsSeen p
  have hmemory : ∀ c : Memory.Call, (∀ t, c ≠ .see t) → KeepsSeen p (.memory p c) :=
    fun c hc t he => hc t (by cases he; rfl)
  have hdoes : Does (fun _ _ => True) (KeepsSeen p) (o.program s p) fun _ => True := by
    cases o with
    | assigned => exact h.fetchAssigned p
    | record t => exact (h.fetchRecord t).mono fun _ _ => trivial
    | full => exact .ite (fun _ => .step (hmemory _ fun _ he => (by cases he))) fun _ => .pure trivial
    | hasSeen t => exact .step (hmemory _ fun _ he => (by cases he))
    | see t => exact absurd rfl (ho t)
    | start t r =>
      exact h.startTask law_trivial trivial (fun _ => trivial) (hmemory _ fun _ he => (by cases he))
        (fun _ he => (by cases he)) (hmemory _ fun _ he => (by cases he))
  refine (hdoes.exec (J := fun w' : World => (w'.memories p).seen = (w.memories p).seen)
    (fun w' o hw' hP => ⟨trivial, ?_⟩) rfl).1
  exact (seen_handle hP _).trans ((hothers _ w').trans hw')

/-- `see` adds one task. -/
theorem mem_seen_see (hothers : Others.KeepSeen others p) (w : World) :
    t ∈ ((pollStep env others s p (.see taskId) w).2.memories p).seen ↔
      t = taskId ∨ t ∈ (w.memories p).seen := by
  have hself : (pollStep env others s p (.see taskId) w).2.memories p =
      (((others.act w.trace.length w).memories p).call (.see taskId)).2 := Function.update_self ..
  rw [hself, ← hothers w.trace.length w]
  exact Memory.mem_add

/-- What `hasSeen` answers. -/
theorem hasSeen_pollStep (hothers : Others.KeepSeen others p) (w : World) :
    (pollStep env others s p (.hasSeen taskId) w).1 =
      .ok (decide (taskId ∈ (w.memories p).seen)) := by
  rw [← hothers w.trace.length w]
  rfl

/-- What a turn does about one of the assigned tasks. -/
structure Dealt (p : Process) (taskId : String) (w w' : World) (l : PollLog) : Prop where
  /-- Other tasks stay unseen. -/
  others : ∀ t, t ≠ taskId → (t ∈ (w'.memories p).seen ↔ t ∈ (w.memories p).seen)
  /-- Nothing else is read. -/
  records : ∀ e ∈ l.records, e.1 = taskId
  /-- A task that was seen is not started, and stays seen. -/
  seen : taskId ∈ (w.memories p).seen → l.started = [] ∧ taskId ∈ (w'.memories p).seen
  /-- Nothing else is started. -/
  started : ∀ t ∈ l.started, t = taskId
  /-- A task that was not seen is started where its record is pending. -/
  fresh : taskId ∉ (w.memories p).seen → ∀ e ∈ l.records, e.2.status = .pending →
    taskId ∈ l.started
  /-- A task is seen only when its record is read. -/
  unread : taskId ∉ (w.memories p).seen → l.records = [] → taskId ∉ (w'.memories p).seen

/-- A turn that performs nothing but operations that read. -/
theorem Dealt.of_unread {w' : World} {l : PollLog}
    (hseen : (w'.memories p).seen = (w.memories p).seen) (hrecords : l.records = [])
    (hstarted : l.started = []) : Dealt p taskId w w' l where
  others t _ := by rw [hseen]
  records := by simp [hrecords]
  seen h := ⟨hstarted, hseen ▸ h⟩
  started := by simp [hstarted]
  fresh _ := by simp [hrecords]
  unread h _ := hseen ▸ h

/-- A turn that reads the record of a task and does not start it. -/
theorem Dealt.of_passed {w' : World} {l : PollLog} {record : ResultRecord}
    (hrecords : l.records = [(taskId, record)]) (hstarted : l.started = [])
    (hseen : ∀ t, t ∈ (w'.memories p).seen ↔ t = taskId ∨ t ∈ (w.memories p).seen)
    (hwhy : taskId ∈ (w.memories p).seen ∨ record.status ≠ .pending) : Dealt p taskId w w' l where
  others t ht := (hseen t).trans (or_iff_right ht)
  records e he := by
    rw [hrecords, List.mem_singleton] at he
    rw [he]
  seen _ := ⟨hstarted, (hseen taskId).2 (.inl rfl)⟩
  started := by simp [hstarted]
  fresh hnot e he hpending := by
    rw [hrecords, List.mem_singleton] at he
    rw [he] at hpending
    exact absurd hpending (hwhy.resolve_left hnot)
  unread _ h := by
    rw [hrecords] at h
    cases h

/-- A turn that starts a task. -/
theorem Dealt.of_started {w' : World} {l : PollLog} {record : ResultRecord}
    (hrecords : l.records = [(taskId, record)]) (hstarted : l.started = [taskId])
    (hseen : ∀ t, t ∈ (w'.memories p).seen ↔ t = taskId ∨ t ∈ (w.memories p).seen)
    (hfresh : taskId ∉ (w.memories p).seen) : Dealt p taskId w w' l where
  others t ht := (hseen t).trans (or_iff_right ht)
  records e he := by
    rw [hrecords, List.mem_singleton] at he
    rw [he]
  seen h := absurd h hfresh
  started := by simp [hstarted]
  fresh _ _ _ _ := by simp [hstarted]
  unread _ h := by
    rw [hrecords] at h
    cases h

theorem dealt_pollTask (hothers : Others.KeepSeen others p) (taskId : String) (w : World) :
    Dealt p taskId w (exec (pollStep env others s p) (pollTask taskId) w).2
      (log (pollStep env others s p) (pollTask taskId) w) := by
  have hread : ((pollStep env others s p (.record taskId) w).2.memories p).seen =
      (w.memories p).seen := seen_pollStep hothers (fun _ h => (by cases h)) w
  generalize hw₁ : (pollStep env others s p (.record taskId) w).2 = w₁ at hread
  simp only [pollTask, Poll.act, call, op_bind, exec_op, log_op, hw₁]
  rcases (pollStep env others s p (.record taskId) w).1 with e | record
  · exact .of_unread hread rfl rfl
  rcases record with - | record
  · exact .of_unread hread rfl rfl
  by_cases hpending : record.status = .pending
  · have hasSeen : ((pollStep env others s p (.hasSeen taskId) w₁).2.memories p).seen =
        (w.memories p).seen := (seen_pollStep hothers (fun _ h => (by cases h)) w₁).trans hread
    generalize hw₂ : (pollStep env others s p (.hasSeen taskId) w₁).2 = w₂ at hasSeen
    simp only [ret_bind, if_pos hpending, claimTask, call, op_bind, exec_op, log_op, hw₂,
      hasSeen_pollStep hothers, hread]
    by_cases hmem : taskId ∈ (w.memories p).seen
    · -- seen before: the turn goes on with the next task
      simp only [hmem, decide_true, if_true, exec_pure, log_pure]
      refine .of_passed rfl rfl (fun t => ?_) (.inl hmem)
      rw [hasSeen]
      exact ⟨.inr, fun h => h.elim (fun he => he ▸ hmem) id⟩
    · -- not seen before: it is noted, and started
      have hsee : ∀ t, t ∈ ((pollStep env others s p (.see taskId) w₂).2.memories p).seen ↔
          t = taskId ∨ t ∈ (w.memories p).seen := fun t => by rw [mem_seen_see hothers, hasSeen]
      generalize hw₃ : (pollStep env others s p (.see taskId) w₂).2 = w₃ at hsee
      have hstart : ((pollStep env others s p (.start taskId record) w₃).2.memories p).seen =
          (w₃.memories p).seen := seen_pollStep hothers (fun _ h => (by cases h)) w₃
      generalize hw₄ : (pollStep env others s p (.start taskId record) w₃).2 = w₄ at hstart
      simp only [hmem, decide_false, Bool.false_eq_true, if_false, exec_op, log_op, hw₃]
      have hsee' : (pollStep env others s p (.see taskId) w₂).1 = .ok () := rfl
      simp only [hsee', ret_bind, exec_op, log_op, hw₄]
      rcases (pollStep env others s p (.start taskId record) w₃).1 with e | u
      · exact .of_started rfl rfl (fun t => by rw [exec_raise, hstart, hsee]) hmem
      · exact .of_started rfl rfl (fun t => by rw [exec_ret, hstart, hsee]) hmem
  · have hsee : (pollStep env others s p (.see taskId) w₁).1 = .ok () := rfl
    simp only [ret_bind, if_neg hpending, exec_op, log_op, hsee, exec_ret, log_ret]
    refine .of_passed rfl rfl (fun t => ?_) (.inr hpending)
    rw [mem_seen_see hothers, hread]

/-- What a turn, or the rest of one, does about a task: it starts a task whose pending
record it reads just when the process had not seen the task. -/
structure Polled (p : Process) (taskId : String) (w : World) (l : PollLog) : Prop where
  seen : taskId ∈ (w.memories p).seen → taskId ∉ l.started
  fresh : taskId ∉ (w.memories p).seen →
    (∀ e ∈ l.records, e.1 = taskId → e.2.status = .pending) →
    (∃ e ∈ l.records, e.1 = taskId) → taskId ∈ l.started

/-- Nothing read and nothing started. -/
theorem Polled.of_nothing {l : PollLog} (hrecords : l.records = []) (hstarted : l.started = []) :
    Polled p taskId w l where
  seen _ := by simp [hstarted]
  fresh _ _ h := by simp [hrecords] at h

/-- One assigned task, and then the rest. -/
theorem Dealt.polled {w' : World} {l l' : PollLog} (h : Dealt p t w w' l)
    (h' : Polled p taskId w' l') : Polled p taskId w (l ++ l') where
  seen hseen := by
    rw [PollLog.started_append, List.mem_append, not_or]
    by_cases ht : taskId = t
    · subst ht
      obtain ⟨hnone, hstays⟩ := h.seen hseen
      exact ⟨by simp [hnone], h'.seen hstays⟩
    · exact ⟨fun hmem => ht (h.started _ hmem), h'.seen ((h.others _ ht).2 hseen)⟩
  fresh hnot hpending hread := by
    rw [PollLog.started_append, List.mem_append]
    simp only [PollLog.records_append, List.mem_append] at hpending hread
    by_cases ht : taskId = t
    · subst ht
      -- its record is read here, or the task is as unseen as before
      by_cases hnone : l.records = []
      · refine .inr (h'.fresh (h.unread hnot hnone) (fun e he => hpending e (.inr he)) ?_)
        obtain ⟨e, he, heq⟩ := hread
        exact ⟨e, he.resolve_left (by simp [hnone]), heq⟩
      · obtain ⟨e, he⟩ := List.exists_mem_of_ne_nil _ hnone
        exact .inl (h.fresh hnot e he (hpending e (.inl he) (h.records e he)))
    · have hnot' : taskId ∉ (w'.memories p).seen := fun hmem => hnot ((h.others _ ht).1 hmem)
      refine .inr (h'.fresh hnot' (fun e he => hpending e (.inr he)) ?_)
      obtain ⟨e, he, heq⟩ := hread
      exact ⟨e, he.resolve_left fun hl => ht (heq.symm.trans (h.records e hl)), heq⟩

theorem polled_pollTasks (hothers : Others.KeepSeen others p) (taskIds : List String) (w : World) :
    Polled p taskId w (log (pollStep env others s p) (pollTasks taskIds) w) := by
  induction taskIds generalizing w with
  | nil => exact .of_nothing rfl rfl
  | cons t taskIds ih =>
    have hfull : ((pollStep env others s p .full w).2.memories p).seen = (w.memories p).seen :=
      seen_pollStep hothers (fun _ h => (by cases h)) w
    generalize hw₁ : (pollStep env others s p .full w).2 = w₁ at hfull
    have hsame : ∀ {l : PollLog}, Polled p taskId w₁ l →
        Polled p taskId w (⟨.full, (pollStep env others s p .full w).1⟩ :: l) :=
      fun h => ⟨fun hs => h.seen (hfull ▸ hs), fun hs => h.fresh (hfull ▸ hs)⟩
    simp only [pollTasks, Poll.act, call, op_bind, log_op, hw₁]
    refine hsame ?_
    rcases (pollStep env others s p .full w).1 with e | full
    · exact .of_nothing rfl rfl
    · cases full with
      | true => exact .of_nothing rfl rfl
      | false =>
        simp only [ret_bind, Bool.false_eq_true, if_false, log_bind]
        refine (dealt_pollTask hothers t w₁).polled ?_
        rcases hrest : exec (pollStep env others s p) (pollTask t) w₁ with ⟨e | u, w₂⟩
        · exact .of_nothing rfl rfl
        · exact ih w₂

end Turn

/-- **A turn of the polling loop starts a pending task just when its process had not seen
the task before**, whatever else happens meanwhile and whatever happened before. -/
theorem poll_starts_iff {env : Env} {others : Others} {s : Service} {p : Process} {taskId : String}
    {w : World} (hothers : Others.KeepSeen others p)
    (hread : ∃ e ∈ PollLog.records (log (pollStep env others s p) poll w), e.1 = taskId)
    (hpending : ∀ e ∈ PollLog.records (log (pollStep env others s p) poll w), e.1 = taskId →
      e.2.status = .pending) :
    taskId ∈ PollLog.started (log (pollStep env others s p) poll w) ↔
      taskId ∉ (w.memories p).seen := by
  have h : Polled p taskId w (log (pollStep env others s p) poll w) := by
    have hassigned : ((pollStep env others s p .assigned w).2.memories p).seen =
        (w.memories p).seen := seen_pollStep hothers (fun _ h => (by cases h)) w
    generalize hw₁ : (pollStep env others s p .assigned w).2 = w₁ at hassigned
    have hsame : ∀ {l : PollLog}, Polled p taskId w₁ l →
        Polled p taskId w (⟨.assigned, (pollStep env others s p .assigned w).1⟩ :: l) :=
      fun h => ⟨fun hs => h.seen (hassigned ▸ hs), fun hs => h.fresh (hassigned ▸ hs)⟩
    simp only [poll, Poll.act, call, op_bind, log_op, hw₁]
    refine hsame ?_
    rcases (pollStep env others s p .assigned w).1 with e | assigned
    · exact .of_nothing rfl rfl
    · exact polled_pollTasks hothers assigned w₁
  constructor
  · exact fun hstarted hseen => h.seen hseen hstarted
  · exact fun hnot => h.fresh hnot hpending hread

namespace OneNode

/-- A worker is given the task `t`. -/
def assigned : World := after 0 (create "t" (some "w")) (after 0 (beat "w") World.empty)

/-- What a turn of the polling loop of the process does when the clock reads `now`. -/
def turn (now : ℕ) (w : World) : PollLog :=
  log (pollStep (env now) Others.nobody services process) poll w

/-- The hypotheses of `poll_starts_iff` are satisfiable: the first turn that finds a task
starts it. -/
theorem poll_starts_iff_assigned :
    "t" ∈ PollLog.started (turn 1000 assigned) ↔ "t" ∉ (assigned.memories process).seen := by
  have hread : ∃ e ∈ PollLog.records (turn 1000 assigned), e.1 = "t" := by decide +kernel
  have hpending : ∀ e ∈ PollLog.records (turn 1000 assigned), e.1 = "t" →
      e.2.status = .pending := by decide +kernel
  exact poll_starts_iff (fun _ _ => rfl) hread hpending

/-- The worker executes the task and none of its reports arrives; it is cut off from the
node until the manager finds it dead, with no worker left to take the task over, and back
when the task is due: it is queued to the same worker again. -/
def queuedAgain : World :=
  let lost : Call → Delivery := fun c =>
    match c with
    | .complete .. => .lost
    | _ => .delivered
  let executed := (run (env 1000 lost) (pollTick services process) assigned).2
  after 60000 scan (after 60000 (beat "w") (after 20000 scan executed))

/-- **A task that its only worker will never start again.**  It is pending, assigned to
the worker, in its list and not being executed, and the worker reads all that and starts
nothing. -/
theorem queuedAgain_not_started :
    record queuedAgain "t" =
        some (.pending, "w", 1, [.waitAndRetry 50000, .retryDifferent "w"]) ∧
      tasks queuedAgain "w" = ["t"] ∧ (queuedAgain.memories process).inflight = [] ∧
      ((turn 60000 queuedAgain).records.map fun e => (e.1, e.2.status)) = [("t", .pending)] ∧
      (turn 60000 queuedAgain).started = [] := by decide +kernel

end OneNode

end Server
end ChordInfra
