/-
# Tasks that timed out

A report says in the result that a task timed out.  The handler keeps the result and
leaves the field `timed_out` of the record, which the detectors test, as it is: so the
scan takes the task for one that failed, and gives it up.

`timedOut_retried_iff` is what a scan of the home node does after such a report, in full:
the task is tried again just when it was already waiting for a retry, and not yet given
up, when the report came.
-/

import ChordInfra.Server.OneNode
import ChordInfra.Server.Outcomes
import ChordInfra.Server.Watch

namespace ChordInfra
namespace Server

open Interact Prog
open Storage
open ChordInfra.Ring (NodeRef)

/-- The task is queued or waits for a retry, and was not given up. -/
def Retried (r : ResultRecord) : Prop :=
  (r.status = .pending ∨ r.waiting = true) ∧ .giveUp ∉ r.recoveryHistory

/-- The task was given up. -/
def GivenUp (r : ResultRecord) : Prop := .giveUp ∈ r.recoveryHistory

/-- The task failed, waits for a retry and has tries left. -/
def Waits (r : ResultRecord) : Prop :=
  r.status = .failure ∧ r.waiting = true ∧ .giveUp ∉ r.recoveryHistory ∧
    r.attemptCount < r.maxAttempts

/-- The task failed and has tries left, but nobody waits to retry it. -/
def Failing (r : ResultRecord) : Prop :=
  r.status = .failure ∧ r.waiting = false ∧ .giveUp ∉ r.recoveryHistory ∧
    r.attemptCount < r.maxAttempts

theorem Recovers.givenUp {r r' : ResultRecord} {failureType : Option FailureType}
    {live : List String} (h : Recovers r failureType live r') (hr : GivenUp r) : GivenUp r' := by
  obtain ⟨entry, he⟩ := h.history
  unfold GivenUp
  rw [he]
  exact List.mem_append_left _ hr

/-- A task that was lost or timed out is tried again while it has tries left. -/
theorem Recovers.retried {r r' : ResultRecord} {failureType : Option FailureType}
    {live : List String} (h : Recovers r failureType live r')
    (hreason : failureType = some .workerCrash ∨ failureType = some .taskTimeout)
    (hattempts : r.attemptCount < r.maxAttempts) (hnot : .giveUp ∉ r.recoveryHistory) :
    Retried r' := by
  cases h with
  | gaveUp now hpath =>
    unfold chooseRecoveryPath at hpath
    rw [if_neg (Nat.not_le.2 hattempts)] at hpath
    rcases hreason with rfl | rfl <;> cases hlive : live.isEmpty <;> simp [hlive] at hpath
  | waits now retryAt hpath => exact ⟨.inr rfl, by simpa [Server.waiting] using hnot⟩
  | requeued now worker hpath hlive =>
    exact ⟨.inl rfl, by simpa [Server.requeued, retryEntry] using hnot⟩

/-- A task that failed is given up where nobody opted in to retries. -/
theorem Recovers.failed {r r' : ResultRecord} {live : List String}
    (h : Recovers r (some .taskFailure) live r') (hr : Regular r) : GivenUp r' := by
  obtain ⟨now, rfl⟩ := h.eq_gaveUp hr
  exact List.mem_append_right _ (List.mem_singleton_self _)

section Scan

variable {env : Env} (ring : FixedRing env) {cfg : Config} {s : Service} {id : String}
  {φ ψ : ResultRecord → Prop}

variable (hs : s.node ∈ ring.members) (hhome : s.node = ring.home id) (hid : strip id ≠ "")

/-! ### What becomes of the task -/

theorem turns_givenUp (failureType : Option FailureType) : Turns GivenUp GivenUp failureType := by
  intro r _ hr
  split_ifs
  · exact hr
  · exact fun live r' h => h.givenUp hr

theorem resumes_givenUp (r : ResultRecord) : Resumes GivenUp GivenUp r := by
  intro hr now
  split_ifs
  · exact hr
  · exact fun live r' h => h.givenUp hr

include hs hhome hid

/-- A task that was given up before stays so. -/
theorem scan_givenUp (o : SetOrder) :
    Ends (handle env) (Watch s id GivenUp) (RecoveryManager.trigger cfg s o)
      fun _ => Watch s id GivenUp := by
  have htracks := Watch.tracks ring hs hhome hid
  exact htracks.scan o (fun _ _ _ => turns_givenUp _)
    (htracks.failed fun _ _ _ _ => turns_givenUp _) (fun _ _ _ => turns_givenUp _)
    (fun _ hr => hr) fun r _ _ => resumes_givenUp r

/-- A task that waits stays so or is queued again. -/
theorem scan_waits (o : SetOrder) :
    Ends (handle env) (Watch s id Waits) (RecoveryManager.trigger cfg s o)
      fun _ => Watch s id Retried := by
  have hturns : ∀ failureType, Turns Waits Waits failureType := by
    intro failureType r _ hr
    rw [if_pos (.inl hr.2.1)]
    exact hr
  have htracks := Watch.tracks ring hs hhome hid
  refine htracks.scan o (fun _ _ _ => hturns _) (htracks.failed fun _ _ _ _ => hturns _)
    (fun _ _ _ => hturns _) (fun r hr => ⟨.inr hr.2.1, hr.2.2.1⟩)
    fun r hregular hwaiting hr now => ?_
  obtain ⟨hstatus, -, hnot, hattempts⟩ := hr
  rw [if_neg (by rw [hstatus]; decide)]
  exact fun live r' h => h.retried (hregular.reason hwaiting) hattempts hnot

/-- A task that fails without waiting is given up. -/
theorem scan_failing (o : SetOrder) :
    Ends (handle env) (Watch s id Failing) (RecoveryManager.trigger cfg s o)
      fun _ => Watch s id GivenUp := by
  have hgives : Turns Failing GivenUp (some .taskFailure) := by
    intro r hregular hr
    rw [if_neg (by rw [hr.1, hr.2.1]; decide)]
    exact fun live r' h => h.failed hregular
  have htracks := Watch.tracks ring hs hhome hid
  have hrecords : Ends (scanStep env cfg s) (Watch s id Failing) (Scan.act .records)
      fun (l : List ResultRecord) w => ((∀ r ∈ l, Shown id (fun _ => True) Failing r) ∧
        ∃ r ∈ l, strip r.taskId = strip id ∧ Failing r) ∧ Watch s id Failing w :=
    .call (Watch.records ring hs hhome hid Failing)
  have hfailed : Ends (scanStep env cfg s) (Watch s id Failing) RecoveryManager.detectFailedTasks
      fun _ => Watch s id GivenUp := by
    refine .bind hrecords fun l => .assuming fun hl => ?_
    obtain ⟨record, hmem, htask, -⟩ := hl.2
    have hturn : ∀ y ∈ l, strip y.taskId = strip id → Ends (scanStep env cfg s)
        (Watch s id Failing) (RecoveryManager.takeUp (fun r => RecoveryManager.Failed r)
          .taskFailure y) fun _ => Watch s id GivenUp := by
      intro y hy hsame
      obtain ⟨hkind, hshown⟩ := hl.1 y hy
      obtain ⟨-, -, hstatus, hwaiting, hnot, -⟩ := hshown hsame
      unfold RecoveryManager.takeUp
      rw [if_pos (decide_eq_true ⟨hstatus, hkind.2.timedOut, hwaiting, hnot⟩)]
      exact htracks.recoverStep y .taskFailure (fun hne => absurd hsame hne)
        fun _ => hgives
    -- the loop turns from the one property to the other at the record of the task
    refine .each_of_mem hmem (fun y hy => ?_) (fun y hy => ?_) (hturn record hmem htask)
    · by_cases hsame : strip y.taskId = strip id
      · exact (hturn y hy hsame).mono fun _ _ => .inr
      · have hother : Ends (scanStep env cfg s) (Watch s id Failing) (RecoveryManager.takeUp
            (fun r => RecoveryManager.Failed r) .taskFailure y) fun _ => Watch s id Failing :=
          .ite (fun _ => htracks.recoverStep y .taskFailure (fun _ _ hr => hr)
            fun h => absurd h hsame) fun _ => .pure fun _ hw => hw
        exact hother.mono fun _ _ => .inl
    · exact .ite (fun _ => htracks.recoverStep y .taskFailure (fun _ _ hr => hr)
        fun _ => turns_givenUp _) fun _ => .pure fun _ hw => hw
  refine htracks.scan o (fun r hr hstatus => ?_) hfailed
    (fun _ _ _ => turns_givenUp _) (fun _ hr => hr) fun r _ _ => resumes_givenUp r
  exact absurd hstatus (by rw [hr.1]; decide)

/-! ### The report -/

omit hs in
/-- What a report of a failure does to a record that is there: it overwrites it, and it is
accepted only of a record that names a worker. -/
theorem run_report {reporter : Service} (hreporter : reporter.node ∈ ring.members)
    {r : ResultRecord} {w : World} (hown : Kept Owns w)
    (hget : (w.stores s.node.address).get (.result (strip id)) = some (.result r)) (result : Json) :
    (∃ now, Overwritten ring reporter.replicationK id (completed r .failure result now) w
        (run env (resultComplete reporter id (.str "FAILURE") result) w).2) ∧
      ∀ t st, (run env (resultComplete reporter id (.str "FAILURE") result) w).1 =
        .ok (.done t st) → r.workerId ≠ "" := by
  obtain ⟨x, hread, hdone⟩ := run_resultComplete ring hreporter id (.str "FAILURE") result hown
  have hx : x = some r := hread.home (.result r) hid (hhome ▸ hget)
  subst hx
  obtain ⟨⟨now, hwritten⟩, hdone⟩ := hdone
  exact ⟨⟨now, hwritten.overwritten⟩, hdone⟩

omit hs in
/-- A report of a failure overwrites the record. -/
theorem report_watch {reporter : Service} (hreporter : reporter.node ∈ ring.members)
    {r : ResultRecord} (result : Json) {w : World} (hw : Watch s id (fun r' => r' = r) w) :
    Watch s id (fun r' => ∃ now, r' = completed r .failure result now)
      (run env (resultComplete reporter id (.str "FAILURE") result) w).2 := by
  obtain ⟨r₀, hget, hworker, hr₀⟩ := hw.record
  subst hr₀
  obtain ⟨⟨now, hov⟩, -⟩ := run_report ring hhome hid hreporter hw.kept.owns hget result
  have hruns : Serving.Runs (Granted Kind) (Writes Kind)
      (resultComplete reporter id (.str "FAILURE") result) :=
    acting_kind.resultComplete law_kind.toUpdateLaw trivial id (.str "FAILURE") trivial
  have hkept := hw.kept.run env hruns
  exact hw.overwritten hhome hkept (calm_resultComplete env reporter id _ result w) hov
    (fun hne => absurd rfl hne) fun _ => ⟨hworker, now, rfl⟩

end Scan

/-! ### After any run -/

theorem kept_empty : Kept Kind World.empty := fun _ _ _ hv => (by cases hv)

theorem proper_empty : Proper World.empty := fun _ => rfl

theorem tidy_empty (owner : Key → NodeRef) : Tidy owner World.empty := fun _ _ _ hv => (by cases hv)

section Runs

variable {ι : Type} [DecidableEq ι] {env : Env} {services : NodeRef → Service}
  {c : Pool ι Op Op.Res Exc Unit Unit World}

/-- **A task that is reported to have failed, timed out or not, is tried again just when it
was waiting for a retry and not given up before.**  In any run of the ring, with requests
lost or not, a report of a failure and then a scan of the node that owns the record. -/
theorem timedOut_retried_iff {quiet : Env} (ring : FixedRing quiet)
    (howner : ∀ t a k, env.findSuccessor t a k = ring.owner k)
    (hrun : Run ι env services World.empty c) (home reporter : Service) {taskId : String}
    (hid : strip taskId ≠ "") (hhome : home.node = ring.home taskId)
    (hreporter : reporter.node ∈ ring.members) {r : ResultRecord}
    (hrecord : (c.world.stores home.node.address).get (.result (strip taskId)) =
      some (.result r))
    (hattempts : r.attemptCount < r.maxAttempts)
    (hfree : ∀ t, strip t = strip taskId →
      t ∉ (c.world.managers home.node.address).inProgress)
    (cfg : Config) (o : SetOrder) {result : Json} {reported : World}
    (hreport : run quiet (resultComplete reporter taskId (.str "FAILURE") result) c.world =
      (.ok (.done taskId .failure), reported)) :
    (∃ r', ((run quiet (RecoveryManager.trigger cfg home o) reported).2.stores
        home.node.address).get (.result (strip taskId)) = some (.result r') ∧ Retried r') ↔
      r.waiting = true ∧ .giveUp ∉ r.recoveryHistory := by
  have hs : home.node ∈ ring.members := hhome ▸ ring.owner_mem _
  have hkept : Kept Kind c.world := lawful kind_worker law_kind hrun kept_empty
  have hproper : Proper c.world := proper hrun proper_empty
  have htidy : Tidy ring.owner c.world := tidy howner hrun (tidy_empty ring.owner)
  have hworker : r.workerId ≠ "" := by
    refine (run_report ring hhome hid hreporter hkept.owns hrecord result).2 taskId .failure ?_
    rw [hreport]
  have hwatch : Watch home taskId (fun r' => r' = r) c.world := {
    kept := hkept
    proper := hproper _
    free := hfree
    alone := fun x v hv hx => by
      refine (htidy _ x v hv ?_).trans hx
      rw [hhome, FixedRing.home, hx]
    record := ⟨r, hrecord, hworker, rfl⟩ }
  have hreported := report_watch ring hhome hid hreporter result hwatch
  rw [hreport] at hreported
  -- what the record is after the report decides what the scan makes of it
  have hends : ∀ {φ ψ : ResultRecord → Prop}, (∀ now, φ (completed r .failure result now)) →
      Ends (handle quiet) (Watch home taskId φ) (RecoveryManager.trigger cfg home o)
        (fun _ => Watch home taskId ψ) →
      ∃ r', ((run quiet (RecoveryManager.trigger cfg home o) reported).2.stores
        home.node.address).get (.result (strip taskId)) = some (.result r') ∧ ψ r' := by
    intro φ ψ hφ hscan
    obtain ⟨_, w', hrun', hw'⟩ := hscan.holds reported (hreported.mono fun r' _ h => by
      obtain ⟨now, rfl⟩ := h
      exact hφ now)
    obtain ⟨r', hget, -, hψ⟩ := hw'.record
    exact ⟨r', by rw [run, hrun']; exact hget, hψ⟩
  have hlost : ∀ {φ : ResultRecord → Prop}, (∀ now, φ (completed r .failure result now)) →
      Ends (handle quiet) (Watch home taskId φ) (RecoveryManager.trigger cfg home o)
        (fun _ => Watch home taskId GivenUp) →
      ¬∃ r', ((run quiet (RecoveryManager.trigger cfg home o) reported).2.stores
        home.node.address).get (.result (strip taskId)) = some (.result r') ∧ Retried r' := by
    rintro φ hφ hscan ⟨r', hget', hretried⟩
    obtain ⟨r'', hget'', hgivenUp⟩ := hends hφ hscan
    cases hget''.symm.trans hget'
    exact hretried.2 hgivenUp
  by_cases hgivenUp : .giveUp ∈ r.recoveryHistory
  · exact iff_of_false (hlost (fun _ => hgivenUp) (scan_givenUp ring hs hhome hid o))
      fun h => h.2 hgivenUp
  · cases hwaiting : r.waiting with
    | true =>
      refine iff_of_true ?_ ⟨rfl, hgivenUp⟩
      exact hends (fun _ => ⟨rfl, hwaiting, hgivenUp, hattempts⟩) (scan_waits ring hs hhome hid o)
    | false =>
      refine iff_of_false ?_ fun h => (by cases h.1)
      exact hlost (fun _ => ⟨rfl, hwaiting, hgivenUp, hattempts⟩)
        (scan_failing ring hs hhome hid o)

end Runs

namespace OneNode

/-- The request for the task `t`, whose operations are performed one by one. -/
def submitted : List (Event (Fin 1) Op Op.Res Exc Unit Unit) :=
  .enter 0 ⟨(), (Activity.create config services (body "t" (some "w"))).program⟩ ::
    List.replicate 14 (.act 0 0)

/-- What a worker reports of a task that timed out. -/
def timedOutResult : Json := executionPayload ⟨-1, "", "", 30000, true⟩

/-- The report of the task that timed out. -/
def timeoutReport : M CompleteReply :=
  resultComplete services "t" (.str "FAILURE") timedOutResult

/-- The answer of the handler, when it gives one. -/
def answerOf : Except Exc CompleteReply → Option CompleteReply
  | .ok reply => some reply
  | .error _ => none

/-- The task `t` is created; a report that it timed out is accepted, and the node scans. -/
theorem submitted_run : ∃ c, Run (Fin 1) (env 0) (fun _ => services) World.empty c ∧
    record c.world "t" = some (.pending, "w", 0, []) ∧
    (c.world.managers node.address).inProgress = [] ∧
    answerOf (run (env 1000) timeoutReport c.world).1 = some (.done "t" .failure) ∧
    record (after 1000 scan (after 1000 timeoutReport c.world)) "t" =
      some (.failure, "w", 0, [.giveUp]) := by
  have hrun : ((still (Fin 1) World.empty).steps (system (env 0) fun _ => services)
      (anyStep (Fin 1)) submitted).map (fun c =>
        decide (record c.world "t" = some (.pending, "w", 0, [])) &&
          (decide ((c.world.managers node.address).inProgress = []) &&
            (decide (answerOf (run (env 1000) timeoutReport c.world).1 =
                some (.done "t" .failure)) &&
              decide (record (after 1000 scan (after 1000 timeoutReport c.world)) "t" =
                some (.failure, "w", 0, [.giveUp]))))) = some true := by
    decide +kernel
  obtain ⟨c, hc, hfacts⟩ := Option.map_eq_some_iff.1 hrun
  have hsteps : Run (Fin 1) (env 0) (fun _ => services) World.empty c := by
    refine .of_steps (fun i t ht => ?_) hc
    simp only [submitted, List.mem_cons, Event.enter.injEq, List.mem_replicate] at ht
    obtain ⟨-, rfl⟩ := ht.resolve_right (by simp)
    exact ⟨_, rfl⟩
  simp only [Bool.and_eq_true, decide_eq_true_eq] at hfacts
  exact ⟨c, hsteps, hfacts⟩

/-- The record behind what `record` shows of it. -/
theorem exists_of_record {w : World} {id : String} {status : Status} {worker : String}
    {attempts : ℕ} {history : List HistoryEntry}
    (h : record w id = some (status, worker, attempts, history)) :
    ∃ r, (w.stores node.address).get (.result id) = some (.result r) ∧ r.status = status ∧
      r.attemptCount = attempts ∧ r.recoveryHistory = history := by
  obtain ⟨r, hr, heq⟩ := Option.map_eq_some_iff.1 h
  obtain ⟨v, hv, hr⟩ := Option.bind_eq_some_iff.1 hr
  cases v with
  | result r' =>
    cases hr
    simp only [Prod.mk.injEq] at heq
    exact ⟨r, hv, heq.1, heq.2.2.1, heq.2.2.2⟩
  | _ => cases hr

theorem eq_of_answer {x : Except Exc CompleteReply × World} {reply : CompleteReply}
    (h : answerOf x.1 = some reply) : x = (.ok reply, x.2) := by
  obtain ⟨y | y, w⟩ := x
  · cases h
  · cases h
    rfl

/-- The hypotheses of `timedOut_retried_iff` are satisfiable: a task is created, and
reported to have timed out. -/
theorem timedOut_retried_iff_submitted : ∃ (w : World) (r : ResultRecord),
    (∃ r', ((run (env 1000) (RecoveryManager.trigger config services order)
        (after 1000 timeoutReport w)).2.stores services.node.address).get (.result (strip "t")) =
          some (.result r') ∧ Retried r') ↔
      r.waiting = true ∧ .giveUp ∉ r.recoveryHistory := by
  obtain ⟨c, hrun, hrecord, hfree, hanswer, -⟩ := submitted_run
  obtain ⟨r, hget, -, hattempts, -⟩ := exists_of_record hrecord
  have hmax : r.maxAttempts = 3 := (lawful kind_worker law_kind hrun kept_empty _ _ _ hget).2.3
  have hread : (c.world.stores services.node.address).get (.result (strip "t")) =
      some (.result r) := hget
  have hattempts' : r.attemptCount < r.maxAttempts := by
    rw [hattempts, hmax]
    decide
  have hnone : ∀ t, strip t = strip "t" →
      t ∉ (c.world.managers services.node.address).inProgress := by
    intro t _ ht
    have hempty : (c.world.managers services.node.address).inProgress = [] := hfree
    rw [hempty] at ht
    cases ht
  have hreport : run (env 1000) timeoutReport c.world =
      (.ok (.done "t" .failure), after 1000 timeoutReport c.world) := eq_of_answer hanswer
  have h := timedOut_retried_iff (ring 1000 fun _ => .delivered) (fun _ _ _ => rfl) hrun services
    services (by decide) rfl rfl hread hattempts' hnone config order hreport
  exact ⟨c.world, r, h⟩

/-- **A task that timed out once and is given up.** -/
theorem timedOut_givenUp : ∃ (c : Pool (Fin 1) Op Op.Res Exc Unit Unit World) (r : ResultRecord),
    Run (Fin 1) (env 0) (fun _ => services) World.empty c ∧
    (c.world.stores node.address).get (.result "t") = some (.result r) ∧
    r.attemptCount < r.maxAttempts ∧
    answerOf (run (env 1000) timeoutReport c.world).1 = some (.done "t" .failure) ∧
    ¬∃ r', ((after 1000 scan (after 1000 timeoutReport c.world)).stores node.address).get
      (.result "t") = some (.result r') ∧ Retried r' := by
  obtain ⟨c, hrun, hrecord, -, hanswer, hafter⟩ := submitted_run
  obtain ⟨r, hget, -, hattempts, -⟩ := exists_of_record hrecord
  have hmax : r.maxAttempts = 3 := (lawful kind_worker law_kind hrun kept_empty _ _ _ hget).2.3
  refine ⟨c, r, hrun, hget, by rw [hattempts, hmax]; decide, hanswer, ?_⟩
  generalize after 1000 scan (after 1000 timeoutReport c.world) = w' at hafter ⊢
  rintro ⟨r', hget', hretried⟩
  obtain ⟨r'', hget'', -, -, hhistory⟩ := exists_of_record hafter
  cases hget'.symm.trans hget''
  exact hretried.2 (by rw [hhistory]; exact List.mem_singleton_self _)

end OneNode

end Server
end ChordInfra
