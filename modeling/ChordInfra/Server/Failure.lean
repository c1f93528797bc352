/-
# Tasks that failed

A report of a failure leaves the wait for a retry as it is.  A task that was put off
because its worker seemed lost is therefore queued again after that worker, late,
reported that it failed (`OneNode.failure_requeued`).

Where the task does not wait when the report comes, it is never queued again
(`failure_final`): being over, and not waiting, lasts.
-/

import ChordInfra.Server.Mirror
import ChordInfra.Server.OneNode

namespace ChordInfra
namespace Server

open Interact Prog
open Storage
open ChordInfra.Ring (NodeRef)

/-- The task is over and nobody waits to retry it. -/
def Final (r : ResultRecord) : Prop :=
  (r.status = .success ∨ r.status = .failure) ∧ r.waiting = false

theorem Final.not_active {r : ResultRecord} (h : Final r) :
    ¬(r.status = .pending ∨ r.status = .running) := by
  rcases h.1 with hs | hs <;> rw [hs] <;> decide

theorem lasting_final : Lasting Final where
  completed _ _ hst h := ⟨hst, h.2⟩
  crash _ h hstatus := absurd hstatus h.not_active
  failed r _ _ _ := by
    intro r hregular hr
    split_ifs
    · exact hr
    · intro live r' hrec
      obtain ⟨now, rfl⟩ := hrec.eq_gaveUp hregular
      exact ⟨.inr rfl, hr.2⟩
  resumes r _ hwaiting h := absurd (hwaiting.symm.trans h.2) (by decide)

section Runs

variable {env : Env} {ring : FixedRing env} {k : ℕ} {w w' : World}

/-- **A task that is reported to have failed while nobody waits to retry it is never queued
again**, whatever requests, reports, scans, heartbeats and deaths of workers follow. -/
theorem failure_final (hcalls : ∀ t a c, env.deliverCall t a c = .delivered)
    (hrun : Serially (handle env) (Routine ring k) World.empty w) {s : Service}
    (hs : Serves ring k s) {r : ResultRecord} (hid : strip r.taskId ≠ "")
    (hrecord : (w.stores (ring.home r.taskId).address).get (.result (strip r.taskId)) =
      some (.result r)) (hwaiting : r.waiting = false) (result : Json)
    (hlater : Serially (handle env) (Routine ring k)
      (run env (resultComplete s r.taskId (.str "FAILURE") result) w).2 w') :
    ∃ r', (w'.stores (ring.home r.taskId).address).get (.result (strip r.taskId)) =
      some (.result r') ∧ r'.status ≠ .pending := by
  obtain ⟨id, hsame, hmirror⟩ := mirrored hcalls hrun hid
  have hhome : ring.home id = ring.home r.taskId := by rw [FixedRing.home, FixedRing.home, hsame]
  obtain ⟨r₀, heq, rfl, -⟩ := hmirror.record (.result r) (by rw [hhome, hsame]; exact hrecord)
  cases heq
  have hhere : Mirror ring k r.taskId True (fun r => r.waiting = false) w :=
    { hmirror with
      present := fun _ => ⟨_, hrecord⟩
      record := fun v hv => by
        obtain ⟨r', rfl, htask, hworker, -⟩ := hmirror.record v hv
        cases hrecord.symm.trans hv
        exact ⟨r, rfl, htask, hworker, hwaiting⟩ }
  -- the report makes it final, which lasts
  have hown : ∀ r', (w.stores (ring.home r.taskId).address).get (.result (strip r.taskId)) =
      some (.result r') → r'.taskId = r.taskId := by
    intro r' hr'
    cases hrecord.symm.trans hr'
    rfl
  obtain ⟨hkept, hproper⟩ := Routine.laws (.report (.str "FAILURE") result hs hown)
    hmirror.kept hmirror.proper
  simp only [Activity.program, run_quietly] at hkept hproper
  have hreported : Mirror ring k r.taskId True Final
      (run env (resultComplete s r.taskId (.str "FAILURE") result) w).2 := by
    refine hhere.report hid hs hown hkept hproper (fun hnot => ?_) fun r' st now hst hr' => ?_
    · exact absurd ⟨⟨.failure, rfl⟩, trivial, rfl⟩ hnot
    · exact ⟨reportedStatus_eq_some hst, hr'⟩
  have hfinal : Mirror ring k r.taskId True Final w' := by
    refine hlater.keeps (J := Mirror ring k r.taskId True Final) (fun w₁ p h hp => ?_) hreported
    obtain ⟨id', -, heq, h'⟩ := h.routine hcalls hid (fun h => absurd trivial h) lasting_final hp
    rw [heq trivial] at h'
    exact h'
  obtain ⟨v, hv⟩ := hfinal.present trivial
  obtain ⟨r', rfl, -, -, hr'⟩ := hfinal.record v hv
  exact ⟨r', hv, fun hpending => hr'.not_active (.inl hpending)⟩

end Runs

namespace OneNode

/-- The clock stands still until a worker that seemed lost has reported, and then shows that
the wait of its task is over. -/
def clock (n : ℕ) : ℕ := if n < 39 then 0 else 40000

/-- What a worker reports of a task whose command failed. -/
def failedResult : Json := executionPayload ⟨1, "", "", 30, false⟩

/-- The world after an operation. -/
def next (p : M Unit) (w : World) : World := (run (clocked clock) p w).2

/-- The task `t` is requested for the worker `w`. -/
def submitTask : M Unit := (Activity.create config services (body "t" (some "w"))).program

/-- The node looks for tasks to recover. -/
def scanTasks : M Unit := (Activity.scan config services order).program

/-- The worker `w` is heard of again. -/
def returns : M Unit := (Activity.heartbeat services "w" 0 none none).program

/-- A report of the failure. -/
def failTask (w : World) : World :=
  (run (clocked clock) (resultComplete services "t" (.str "FAILURE") failedResult) w).2

theorem serves : Serves (clockedRing clock) 3 services := ⟨rfl, rfl⟩

theorem routine_submit (w : World) : Routine (clockedRing clock) 3 w submitTask :=
  .create _ serves rfl

theorem routine_scan (w : World) : Routine (clockedRing clock) 3 w scanTasks :=
  .scan _ _ serves

theorem routine_returns (w : World) : Routine (clockedRing clock) 3 w returns :=
  .heartbeat _ _ _ _ _

/-- **A task that failed is queued again**: its worker was not heard of, the task was put
off, the worker reported that it failed, and came back. -/
theorem failure_requeued : ∃ (w w' : World) (r r' : ResultRecord),
    Serially (handle (clocked clock)) (Routine (clockedRing clock) 3) World.empty w ∧
    (w.stores node.address).get (.result "t") = some (.result r) ∧ r.retryOnFailure = false ∧
    Serially (handle (clocked clock)) (Routine (clockedRing clock) 3) (failTask w) w' ∧
    (w'.stores node.address).get (.result "t") = some (.result r') ∧ r'.status = .pending := by
  have hbefore : shows (next scanTasks (next submitTask World.empty)) "t"
      (fun r => !r.retryOnFailure) = true := by decide +kernel
  have hafter : shows (next scanTasks (next returns (failTask (next scanTasks (next submitTask
      World.empty))))) "t" (fun r => decide (r.status = .pending)) = true := by decide +kernel
  obtain ⟨r, hr, hretry⟩ := exists_of_shows hbefore
  obtain ⟨r', hr', hpending⟩ := exists_of_shows hafter
  refine ⟨_, _, r, r', .tail (.single ⟨_, routine_submit _, rfl⟩) ⟨_, routine_scan _, rfl⟩, hr, ?_,
    .tail (.single ⟨_, routine_returns _, rfl⟩) ⟨_, routine_scan _, rfl⟩, hr',
    of_decide_eq_true hpending⟩
  simpa using hretry

/-- The hypotheses of `failure_final` are satisfiable: a task is requested, reported to have
failed, and looked at. -/
theorem failure_final_submitted : ∃ r',
    ((next scanTasks (failTask (next submitTask World.empty))).stores node.address).get
      (.result "t") = some (.result r') ∧ r'.status ≠ .pending := by
  have hsubmitted : shows (next submitTask World.empty) "t"
      (fun r => decide (r.taskId = "t" ∧ r.waiting = false)) = true := by decide +kernel
  obtain ⟨r, hr, hfacts⟩ := exists_of_shows hsubmitted
  obtain ⟨htask, hwaiting⟩ := of_decide_eq_true hfacts
  have hrun : Serially (handle (clocked clock)) (Routine (clockedRing clock) 3) World.empty
      (next submitTask World.empty) := .single ⟨_, routine_submit _, rfl⟩
  have hlater : Serially (handle (clocked clock)) (Routine (clockedRing clock) 3)
      (run (clocked clock) (resultComplete services r.taskId (.str "FAILURE") failedResult)
        (next submitTask World.empty)).2
      (next scanTasks (failTask (next submitTask World.empty))) := by
    rw [htask]
    exact .single ⟨_, routine_scan _, rfl⟩
  have h := failure_final (fun _ _ _ => rfl) hrun serves (r := r) (by rw [htask]; decide)
    (by rw [htask]; exact hr) hwaiting failedResult hlater
  rw [htask] at h
  exact h

end OneNode

end Server
end ChordInfra
