/-
# One task under the scans of a node

What holds of every record in every run (`Regular`), and what a scan makes of the record
of one task.

`Tracks` is what one needs to know of an assertion about that record to follow it through a
scan: what the reads of a scan show of it, and what a recovery of it, and the recoveries
of other tasks, make of it.  From it there is one rule for each detector, and one for the
whole scan (`Tracks.scan`).
-/

import ChordInfra.Server.Recovered

namespace ChordInfra
namespace Server

open Interact Prog
open Storage
open ChordInfra.Ring (NodeRef)

/-! ### The records of a run -/

/-- What no handler changes of the records that `/createTask` makes: the report of a task
that timed out is kept in the result alone, nobody opts in to retries, and only a task
that was lost or timed out is put off. -/
structure Regular (r : ResultRecord) : Prop where
  timedOut : r.timedOut = false
  retryOnFailure : r.retryOnFailure = false
  maxAttempts : r.maxAttempts = 3
  reason : r.waiting = true →
    r.lastFailureReason = some .workerCrash ∨ r.lastFailureReason = some .taskTimeout

/-- Every record is regular, and under its own id. -/
def Kind : Key → Value → Prop
  | .result x, .result r => strip r.taskId = strip x ∧ Regular r
  | _, _ => True

/-- Only a task that was lost or timed out is worth another try. -/
theorem reason_of_ne_giveUp {r : ResultRecord} {failureType : Option FailureType} {live : Bool}
    (hr : Regular r) (h : chooseRecoveryPath r failureType live ≠ .giveUp) :
    failureType = some .workerCrash ∨ failureType = some .taskTimeout := by
  unfold chooseRecoveryPath at h
  by_cases hmax : r.maxAttempts ≤ r.attemptCount
  · rw [if_pos hmax] at h
    exact absurd rfl h
  · rw [if_neg hmax] at h
    rcases failureType with - | - | - | -
    · exact absurd rfl h
    · exact .inl rfl
    · exact .inr rfl
    · simp [hr.retryOnFailure] at h

/-- A task that failed is given up where nobody opted in to retries. -/
theorem Recovers.eq_gaveUp {r r' : ResultRecord} {live : List String}
    (h : Recovers r (some .taskFailure) live r') (hr : Regular r) :
    ∃ now, r' = Server.gaveUp r (some .taskFailure) now := by
  have hgives : ∀ {path}, chooseRecoveryPath r (some .taskFailure) (!live.isEmpty) = path →
      path = .giveUp := by
    rintro path rfl
    by_contra hne
    rcases reason_of_ne_giveUp hr hne with h | h <;> cases h
  cases h with
  | gaveUp now => exact ⟨now, rfl⟩
  | waits now retryAt h => cases hgives h
  | requeued now worker h => cases hgives h

theorem law_kind : Law Kind where
  stripped {x y v} h hv := by
    cases v with
    | result r => exact ⟨hv.1.trans h, hv.2⟩
    | _ => trivial
  own h := ⟨rfl, h.2⟩
  built {taskId workerId path script taskType assignedBy now r} h := by
    unfold buildResultRecord at h
    split at h
    · split_ifs at h
      cases h
      exact ⟨rfl, rfl, rfl, rfl, fun hw => (by cases hw)⟩
    · cases h
    · cases h
  completed _ _ _ _ h := ⟨h.1, h.2.1, h.2.2, h.2.3, h.2.4⟩
  reassigned _ _ h := ⟨h.1, h.2.1, h.2.2, h.2.3, h.2.4⟩
  cleared _ h := ⟨h.1, h.2.1, h.2.2, h.2.3, fun hw => (by cases hw)⟩
  gaveUp _ hwaiting _ h := by
    refine ⟨h.1, h.2.1, h.2.2, h.2.3, fun hw => ?_⟩
    exact absurd (hwaiting.symm.trans hw) (by decide)
  waits _ _ _ hpath _ h := ⟨h.1, h.2.1, h.2.2, h.2.3, fun _ => reason_of_ne_giveUp h.2 hpath⟩
  requeued _ _ _ _ h := ⟨h.1, rfl, h.2.2, h.2.3, fun hw => (by cases hw)⟩

theorem kind_worker (k : String) (r : WorkerRecord) : Kind (.worker k) (.worker r) := trivial

theorem Kept.owns {w : World} (h : Kept Kind w) : Kept Owns w := by
  intro a k v hv
  cases k with
  | result x =>
    cases v with
    | result r => exact (h a _ _ hv).1
    | _ => trivial
  | _ => trivial

/-- Records are regular whatever program runs alone. -/
theorem Kept.run {α : Type} (env : Env) {p : M α} {Q : α → Prop} {w : World} (h : Kept Kind w)
    (hp : Does (Granted Kind) (Writes Kind) p Q) : Kept Kind (run env p w).2 :=
  (kept_run env hp h).1

theorem acting_kind : Acting (Granted Kind) (Writes Kind) Kind fun _ => True :=
  acting_writes kind_worker law_kind

/-! ### Assertions about one task -/

/-- How the operations of a scan are performed. -/
abbrev scanStep (env : Env) (cfg : Config) (s : Service) (o : ScanOp) (w : World) :
    Except Exc o.Val × World :=
  exec (handle env) (o.program cfg s) w

/-- A recovery that finds the record with the one property leaves it with the other. -/
def Turns (φ ψ : ResultRecord → Prop) (failureType : Option FailureType) : Prop :=
  ∀ r, Regular r → φ r →
    if r.waiting = true ∨ r.status = .success then ψ r
    else ∀ live r', Recovers r failureType live r' → ψ r'

/-- A retry of a record that is listed with the one property leaves it with the other. -/
def Resumes (φ ψ : ResultRecord → Prop) (r : ResultRecord) : Prop :=
  φ r → ∀ now, if r.status = .success then ψ (cleared r now)
    else ∀ live r', Recovers (cleared r now) r.lastFailureReason live r' → ψ r'

/-- What a listing shows of the task is the record of the assertion; `own` is what else is
known of its records. -/
def Shown (id : String) (own φ : ResultRecord → Prop) (r : ResultRecord) : Prop :=
  Kind (.result r.taskId) (.result r) ∧
    (strip r.taskId = strip id → own r ∧ r.workerId ≠ "" ∧ φ r)

/-- What one needs to know of assertions `T φ`, where `φ` is a property of the record of the
task `id`, to follow them through the scans of `s`. -/
structure Tracks {env : Env} (ring : FixedRing env) (s : Service) (id : String)
    (own : ResultRecord → Prop) (T : (ResultRecord → Prop) → World → Prop) : Prop where
  member : s.node ∈ ring.members
  named : strip id ≠ ""
  kept : ∀ {φ w}, T φ w → Kept Kind w
  proper : ∀ {φ w}, T φ w → (w.registries s.node.address).Proper
  free : ∀ {φ w}, T φ w → ∀ t, strip t = strip id → t ∉ (w.managers s.node.address).inProgress
  mono : ∀ {φ ψ : ResultRecord → Prop} {w}, T φ w → (∀ r, Regular r → φ r → ψ r) → T ψ w
  same : ∀ {φ w w'}, T φ w → Kept Kind w' → Calm w w' → SameResults w w' → T φ w'
  taskId : ∀ {r r'}, r'.taskId = r.taskId → own r → own r'
  /-- The write of a record. -/
  overwritten : ∀ {φ ψ : ResultRecord → Prop} {w w' record}, T φ w → Kept Kind w' → Calm w w' →
    Overwritten ring s.replicationK record.taskId record w w' →
    (strip record.taskId ≠ strip id → ∀ r, φ r → ψ r) →
    (strip record.taskId = strip id → own record ∧ record.workerId ≠ "" ∧ ψ record) → T ψ w'
  /-- A record that `s` has. -/
  listed : ∀ {φ w x r}, T φ w →
    (w.stores s.node.address).get (.result x) = some (.result r) → Shown id own φ r
  /-- The read of the task. -/
  found : ∀ {φ w t x}, T φ w → strip t = strip id → ReadOf ring t w x →
    (∀ r ∈ x, Shown id own φ r) ∧ ∀ ψ : ResultRecord → Prop, (∀ r ∈ x, ψ r) → T ψ w

namespace Tracks

variable {env : Env} {ring : FixedRing env} {cfg : Config} {s : Service} {id : String}
  {own : ResultRecord → Prop} {T : (ResultRecord → Prop) → World → Prop}
  {φ χ ψ : ResultRecord → Prop} (h : Tracks ring s id own T)

include h

theorem congr {w w' : World} (hw : T φ w) (haside : Aside w w') (hstores : w'.stores = w.stores) :
    T φ w' := by
  refine h.same hw (fun a k v hv => ?_) haside.calm (.of_stores hstores)
  exact h.kept hw a k v (hstores ▸ hv)

/-! ### The operations of a scan -/

/-- A program that only reads. -/
theorem reads {α : Type} {p : M α} (honly : Only Op.Looks p)
    (hyields : Yields (fun _ => True) p) : Ends (handle env) (T φ) p fun _ => T φ := by
  refine ⟨fun w hw => ?_⟩
  obtain ⟨x, hx, -⟩ := hyields.exec (handle env) w
  exact ⟨x, _, Prod.ext hx rfl, h.congr hw ((honly.mono fun _ h => h.1).aside env w)
    ((honly.mono fun _ h => h.2).stores env w)⟩

/-- An operation that only reads. -/
theorem looks {o : Op} (ho : o.Looks) : Ends (handle env) (T φ) (act o) fun _ => T φ :=
  h.reads (.act ho) (.act o)

theorem safePut {record : ResultRecord} (hx : strip record.taskId ≠ "")
    (hkind : Kind (.result record.taskId) (.result record))
    (hother : strip record.taskId ≠ strip id → ∀ r, φ r → ψ r)
    (hsame : strip record.taskId = strip id → own record ∧ record.workerId ≠ "" ∧ ψ record) :
    Ends (handle env) (T φ) (Server.safePut s record.taskId record) fun _ => T ψ := by
  refine ⟨fun w hw => ?_⟩
  obtain ⟨w', hrun, haside, hov⟩ := run_safePut ring h.member hx record w
  have hkept := (h.kept hw).run env
    (Placing.safePut (acting_kind.putKept law_kind.toUpdateLaw (s := s) trivial hkind))
  rw [hrun] at hkept
  exact ⟨(), w', hrun, h.overwritten hw hkept haside.calm hov hother hsame⟩

/-- The listing of the records. -/
theorem records : Ends (handle env) (T φ) (allHt1Records s) fun l w =>
    (∀ r ∈ l, Shown id own φ r) ∧ T φ w := by
  unfold allHt1Records
  refine ⟨fun w hw => ⟨_, _, rfl, fun r hr => ?_,
    h.congr hw (handle_aside (o := .items s.node.address) trivial env w) rfl⟩⟩
  obtain ⟨⟨k, v⟩, he, hr⟩ := List.mem_filterMap.1 hr
  split at hr
  case h_2 => cases hr
  case h_1 x record heq =>
    cases heq
    cases hr
    exact h.listed hw ((w.stores s.node.address).mem_entries_iff.1 he)

/-- The read of a record. -/
theorem read (t : String) : Ends (handle env) (T φ) (safeGet s t) fun x w =>
    (∀ r ∈ x, strip r.taskId = strip t ∧ (strip t = strip id → φ r)) ∧ T φ w := by
  refine ⟨fun w hw => ?_⟩
  obtain ⟨x, w', hrun, hread, haside, hstores⟩ := run_safeGet ring h.member t (h.kept hw).owns
  refine ⟨x, w', hrun, fun r hr => ⟨(hread.task r hr).1, fun htask => ?_⟩, h.congr hw haside hstores⟩
  exact (((h.found hw htask hread).1 r hr).2 ((hread.task r hr).1.trans htask)).2.2

/-- The recovery of a task. -/
theorem recover (record : ResultRecord) (failureType : Option FailureType)
    (hother : strip record.taskId ≠ strip id → ∀ r, φ r → ψ r)
    (hsame : strip record.taskId = strip id → Turns φ ψ failureType) :
    Ends (handle env) (T φ) (attemptRecovery cfg s record failureType) fun _ => T ψ := by
  refine ⟨fun w hw => ?_⟩
  obtain ⟨x, w', hrun, haside, hof, hdone, hread⟩ := run_attemptRecovery ring cfg h.member record
    failureType (h.kept hw).owns
  have hkept : Kept Kind w' := by
    have hkeeps := (h.kept hw).run env
      (acting_kind.attemptRecovery law_kind (s := s) trivial record failureType :
        Does _ _ (attemptRecovery cfg s record failureType) _)
    rw [hrun] at hkeeps
    exact hkeeps
  refine ⟨(), w', hrun, ?_⟩
  unfold Recovered at hdone
  by_cases htask : strip record.taskId = strip id
  · -- it is this task: what is read is the record of the assertion
    obtain ⟨hshown, hexact⟩ := h.found hw htask (hread (h.free hw _ htask))
    cases x with
    | none => exact h.same (hexact ψ (by simp)) hkept haside.calm hdone
    | some fresh =>
      have hfresh : strip fresh.taskId = strip id := (hof fresh rfl).trans htask
      obtain ⟨hkind, hheld⟩ := hshown fresh rfl
      obtain ⟨hown, hworker, hφ⟩ := hheld hfresh
      have hcase := hsame htask fresh hkind.2 hφ
      dsimp only at hdone
      split_ifs at hcase hdone with hgo
      · exact h.same (hexact ψ fun r hr => by cases hr; exact hcase) hkept haside.calm hdone
      · obtain ⟨now, r', hrec, hov⟩ := hdone
        rw [← hrec.taskId_eq] at hov hfresh
        refine h.overwritten hw hkept haside.calm hov (fun hne => absurd hfresh hne) fun _ =>
          ⟨h.taskId hrec.taskId_eq hown, ?_, hcase _ r' hrec⟩
        cases hrec with
        | gaveUp | waits => exact hworker
        | requeued now' worker hpath hlive =>
          rintro rfl
          exact (h.proper hw).not_live hlive
  · have hψ : T ψ w := h.mono hw fun r _ => hother htask r
    cases x with
    | none => exact h.same hψ hkept haside.calm hdone
    | some fresh =>
      dsimp only at hdone
      split_ifs at hdone with hgo
      · exact h.same hψ hkept haside.calm hdone
      · obtain ⟨now, r', hrec, hov⟩ := hdone
        have hne : strip r'.taskId ≠ strip id := by
          rw [hrec.taskId_eq, hof fresh rfl]
          exact htask
        rw [← hrec.taskId_eq] at hov
        exact h.overwritten hψ hkept haside.calm hov (fun _ _ hr => hr) fun h => absurd h hne

/-- The retry of a task that waited: its record, as it was listed, is written back, and
then recovered. -/
theorem retry {record : ResultRecord} (hshown : Shown id own φ record)
    (hresumes : strip record.taskId = strip id → Resumes φ ψ record) :
    Ends (handle env) (T ψ) (retryWaiting cfg s record) fun _ => T ψ := by
  obtain ⟨hkind, hheld⟩ := hshown
  unfold retryWaiting
  refine .bind (K := fun _ => T ψ) (.perform fun w hw =>
    h.congr hw (handle_aside (o := .now) trivial env w) rfl) fun now => ?_
  have hcleared : Kind (.result (cleared record now).taskId) (.result (cleared record now)) :=
    ⟨rfl, (law_kind.cleared now hkind).2⟩
  by_cases hx : strip record.taskId = ""
  · -- such a record is neither written nor read
    have htask : strip record.taskId ≠ strip id := fun he => h.named (he.symm.trans hx)
    have hput : Ends (handle env) (T ψ) (Server.safePut s record.taskId (cleared record now))
        fun _ => T ψ := by
      refine ⟨fun w hw => ⟨(), w, ?_, hw⟩⟩
      unfold Server.safePut ResultService.put buildResultKey
      rw [if_pos hx]
      cases validateResultRecord (cleared record now) <;> rfl
    refine .bind hput fun _ => h.recover _ _ (fun _ _ hr => hr) fun he => ?_
    exact absurd he htask
  · by_cases htask : strip record.taskId = strip id
    · obtain ⟨hown, hworker, hφ⟩ := hheld htask
      refine .bind (h.safePut (ψ := fun r => r = cleared record now) hx hcleared
        (fun hne => absurd htask hne)
        fun _ => ⟨h.taskId (r := record) rfl hown, hworker, rfl⟩) fun _ => ?_
      refine h.recover _ _ (fun hne => absurd htask hne) fun _ r _ hr => ?_
      subst hr
      have hcase := hresumes htask hφ now
      by_cases hsuccess : record.status = .success
      · rw [if_pos hsuccess] at hcase
        rw [if_pos (.inr hsuccess)]
        exact hcase
      · rw [if_neg hsuccess] at hcase
        rw [if_neg (by simpa [cleared] using hsuccess)]
        exact hcase
    · refine .bind (h.safePut (ψ := ψ) hx hcleared (fun _ _ hr => hr) fun he => absurd he htask)
        fun _ => ?_
      exact h.recover _ _ (fun _ _ hr => hr) fun he => absurd he htask

/-! ### The detectors -/

/-- The recovery of a record, when it is one of the task. -/
theorem recoverStep (record : ResultRecord) (failureType : FailureType)
    (hother : strip record.taskId ≠ strip id → ∀ r, φ r → ψ r)
    (hturns : strip record.taskId = strip id → Turns φ ψ (some failureType)) :
    Ends (scanStep env cfg s) (T φ) (Scan.act (.recover record failureType)) fun _ => T ψ :=
  .call (h.recover record (some failureType) hother hturns)

/-- The listing of the records. -/
theorem recordsStep : Ends (scanStep env cfg s) (T φ) (Scan.act .records)
    fun (l : List ResultRecord) w => (∀ r ∈ l, Shown id own φ r) ∧ T φ w :=
  .call h.records

/-- `_detect_worker_crashes`. -/
theorem crashes (o : SetOrder) (hturns : ∀ r, φ r → r.status = .pending ∨ r.status = .running →
    Turns φ φ (some .workerCrash)) :
    Ends (scanStep env cfg s) (T φ) (RecoveryManager.detectWorkerCrashes o) fun _ => T φ := by
  have hlive : Ends (scanStep env cfg s) (T φ) (Scan.act .liveWorkers) fun _ => T φ :=
    .call (h.looks ⟨trivial, trivial⟩)
  have hseen : Ends (scanStep env cfg s) (T φ) (Scan.act .allWorkers)
      fun (l : List (String × ℤ × ℤ)) w => "" ∉ l.map Prod.fst ∧ T φ w :=
    .call (.perform fun w hw => ⟨(h.proper hw).not_seen, h.congr hw
      (handle_aside (o := .registry s.node.address .allWorkers) trivial env w) rfl⟩)
  refine .bind hlive fun live => .bind hseen fun seen => .assuming fun hnot => .each fun w hw => ?_
  have hname : w ≠ "" := by
    rintro rfl
    exact hnot (List.mem_filter.1 ((o.perm _).mem_iff.1 hw)).1
  refine .bind (K := fun _ => T φ) (.call (h.reads (only_assignmentGet s w)
    (yields_assignmentGet s hname))) fun taskIds => .each fun t _ => ?_
  have hread : Ends (scanStep env cfg s) (T φ) (Scan.act (.read t))
      fun (x : Option ResultRecord) w => (∀ r ∈ x, strip r.taskId = strip t ∧
        (strip t = strip id → φ r)) ∧ T φ w := .call (h.read t)
  refine .bind hread fun x => .assuming fun hx => ?_
  cases x with
  | none => exact .pure fun _ hw => hw
  | some record =>
    obtain ⟨htask, hφ⟩ := hx record rfl
    refine .ite (fun hstatus => ?_) fun _ => .pure fun _ hw => hw
    refine h.recoverStep record .workerCrash (fun _ _ hφ => hφ) fun hsame => ?_
    exact hturns record (hφ (htask.symm.trans hsame)) hstatus

/-- A detector that looks at the records themselves. -/
theorem takeUp {p : ResultRecord → Bool} {failureType : FailureType} {record : ResultRecord}
    (hshown : Shown id own φ record)
    (hturns : Regular record → φ record → p record = true → Turns φ φ (some failureType)) :
    Ends (scanStep env cfg s) (T φ) (RecoveryManager.takeUp p failureType record)
      fun _ => T φ := by
  refine .ite (fun hp => ?_) fun _ => .pure fun _ hw => hw
  refine h.recoverStep record failureType (fun _ _ hφ => hφ) fun htask => ?_
  exact hturns hshown.1.2 (hshown.2 htask).2.2 hp

/-- `_detect_timed_out_tasks` finds no task: no handler marks a record as timed out. -/
theorem timedOut : Ends (scanStep env cfg s) (T φ) RecoveryManager.detectTimedOutTasks
    fun _ => T φ := by
  refine .bind h.recordsStep fun l => .assuming fun hl => .each fun record hmem => ?_
  refine h.takeUp (hl record hmem) fun hr _ hp => ?_
  have htimedOut : record.timedOut = true := (of_decide_eq_true hp).2.1
  exact absurd (hr.timedOut.symm.trans htimedOut) (by decide)

/-- `_detect_failed_tasks`. -/
theorem failed (hturns : ∀ r, Regular r → φ r → RecoveryManager.Failed r →
    Turns φ φ (some .taskFailure)) :
    Ends (scanStep env cfg s) (T φ) RecoveryManager.detectFailedTasks fun _ => T φ := by
  refine .bind h.recordsStep fun l => .assuming fun hl => .each fun record hmem => ?_
  exact h.takeUp (hl record hmem) fun hr hφ hp => hturns record hr hφ (of_decide_eq_true hp)

/-- `_detect_stuck_tasks`. -/
theorem stuck (hturns : ∀ r, φ r → r.status = .pending ∨ r.status = .running →
    Turns φ φ (some .workerCrash)) :
    Ends (scanStep env cfg s) (T φ) RecoveryManager.detectStuckTasks fun _ => T φ := by
  refine .bind h.recordsStep fun l => .assuming fun hl => .each fun record hmem => ?_
  refine .ite (fun hstatus => ?_) fun _ => .pure fun _ hw => hw
  have hlive : Ends (scanStep env cfg s) (T φ) (Scan.act (.isLive record.workerId))
      fun _ => T φ := .call (h.looks ⟨trivial, trivial⟩)
  refine .bind hlive fun live => .ite (fun _ => .pure fun _ hw => hw) fun _ => ?_
  refine h.recoverStep record .workerCrash (fun _ _ hφ => hφ) fun hsame => ?_
  exact hturns record ((hl record hmem).2 hsame).2.2 hstatus.1

/-- `_retry_waiting_tasks`. -/
theorem waiting (hφψ : ∀ r, φ r → ψ r)
    (hresumes : ∀ r, Regular r → r.waiting = true → Resumes φ ψ r) :
    Ends (scanStep env cfg s) (T φ) RecoveryManager.retryWaitingTasks fun _ => T ψ := by
  have hnow : Ends (scanStep env cfg s) (T φ) (Scan.act .now) fun _ => T φ :=
    .call (h.looks ⟨trivial, trivial⟩)
  refine .bind hnow fun now => .bind h.recordsStep fun l => .assuming fun hl => ?_
  refine .pre (J := T ψ) (.each fun record hmem => ?_) fun w hw => h.mono hw fun r _ => hφψ r
  refine .ite (fun hdue => .call ?_) fun _ => .pure fun _ hw => hw
  exact h.retry (hl record hmem) fun _ => hresumes record (hl record hmem).1.2 hdue.1

/-- **The five detectors in turn.** -/
theorem scan (o : SetOrder)
    (hcrash : ∀ r, φ r → r.status = .pending ∨ r.status = .running →
      Turns φ φ (some .workerCrash))
    (hfailed : Ends (scanStep env cfg s) (T φ) RecoveryManager.detectFailedTasks fun _ => T χ)
    (hstuck : ∀ r, χ r → r.status = .pending ∨ r.status = .running →
      Turns χ χ (some .workerCrash))
    (hχψ : ∀ r, χ r → ψ r) (hwaiting : ∀ r, Regular r → r.waiting = true → Resumes χ ψ r) :
    Ends (handle env) (T φ) (RecoveryManager.trigger cfg s o) fun _ => T ψ := by
  have hscan : Ends (scanStep env cfg s) (T φ) (RecoveryManager.scan o) fun _ => T ψ :=
    .bind (h.crashes o hcrash) fun _ => .bind h.timedOut fun _ => .bind hfailed fun _ =>
      .bind (h.stuck hstuck) fun _ => h.waiting hχψ hwaiting
  refine ⟨fun w hw => ?_⟩
  obtain ⟨u, w', hrun, hw'⟩ := (Ends.expand hscan).holds w hw
  refine ⟨(), w', ?_, hw'⟩
  unfold RecoveryManager.trigger
  rw [exec_attempt_bind, hrun]
  rfl

end Tracks

end Server
end ChordInfra
