/-
# What a recovery does

The recovery of one task, run alone in a ring of fixed membership: which record it reads,
what it makes of it (`Recovers`) and where it writes that (`Overwritten`).
-/

import ChordInfra.Interact.Hoare
import ChordInfra.Server.System
import ChordInfra.Storage.ResultRuns

namespace ChordInfra
namespace Server

open Interact Prog
open Storage
open ChordInfra.Ring (NodeRef)

/-- What a recovery makes of a record, with the workers that are live. -/
inductive Recovers (record : ResultRecord) (failureType : Option FailureType)
    (live : List String) : ResultRecord → Prop
  | gaveUp (now : ℕ) : chooseRecoveryPath record failureType (!live.isEmpty) = .giveUp →
      Recovers record failureType live (gaveUp record failureType now)
  | waits (now retryAt : ℕ) :
      chooseRecoveryPath record failureType (!live.isEmpty) = .waitAndRetry →
      Recovers record failureType live
        (waiting record failureType now retryAt (.waitAndRetry retryAt))
  | requeued (now : ℕ) (worker : String) :
      chooseRecoveryPath record failureType (!live.isEmpty) = .retryDifferent → worker ∈ live →
      Recovers record failureType live (requeued record failureType now .retryDifferent worker)

/-- A recovery keeps the id of the record. -/
theorem Recovers.taskId_eq {record record' : ResultRecord} {failureType : Option FailureType}
    {live : List String} (h : Recovers record failureType live record') :
    record'.taskId = record.taskId := by
  cases h <;> rfl

/-- A recovery adds to the history. -/
theorem Recovers.history {record record' : ResultRecord} {failureType : Option FailureType}
    {live : List String} (h : Recovers record failureType live record') :
    ∃ entry, record'.recoveryHistory = record.recoveryHistory ++ [entry] := by
  cases h <;> exact ⟨_, rfl⟩

/-- With any live worker there is one to queue a task to. -/
theorem otherWorker_spec (current : String) {scored : List (String × ℚ)} (h : scored ≠ []) :
    ∃ worker, otherWorker current scored = some worker ∧ worker ∈ scored.map Prod.fst := by
  unfold otherWorker
  split
  case h_1 worker score rest heq =>
    have hmem : (worker, score) ∈ scored.filter fun e => e.1 ≠ current := heq ▸ List.mem_cons_self
    exact ⟨worker, rfl, List.mem_map.2 ⟨_, List.mem_of_mem_filter hmem, rfl⟩⟩
  case h_2 =>
    cases scored with
    | nil => exact absurd rfl h
    | cons e rest => exact ⟨e.1, rfl, List.mem_cons_self⟩

/-- The live workers of a node. -/
def liveAt (env : Env) (s : Service) (w : World) : List String :=
  (w.registries s.node.address).liveWorkers (env.now w.trace.length)

/-! ### Records under their own ids -/

/-- A record is kept under its own id, up to white space around it. -/
def Owns : Key → Value → Prop
  | .result x, .result r => strip r.taskId = strip x
  | _, _ => True

theorem law_owns : Law Owns where
  stripped {x y v} h hv := by
    cases v with
    | result r => exact (show strip r.taskId = strip x from hv).trans h
    | _ => trivial
  own _ := rfl
  built _ := rfl
  completed _ _ _ _ h := h
  reassigned _ _ h := h
  cleared _ h := h
  gaveUp _ _ _ h := h
  waits _ _ _ _ _ h := h
  requeued _ _ _ _ h := h

theorem owns_worker (k : String) (r : WorkerRecord) : Owns (.worker k) (.worker r) := trivial

section Fixed

variable {env : Env} (ring : FixedRing env) (cfg : Config) {s : Service}

/-- A record was written, unless it names no worker. -/
def Overwritten (k : ℕ) (id : String) (record : ResultRecord) (w w' : World) : Prop :=
  ∀ a x, (w'.stores a).get (.result x) =
    ((if record.workerId = "" then w.stores else ring.written k id record w.stores) a).get
      (.result x)

theorem overwritten_put (hs : s.node ∈ ring.members) {id : String} (hid : strip id ≠ "")
    {record : ResultRecord} (hworker : record.workerId ≠ "") (w : World) :
    Overwritten ring s.replicationK id record w (run env (ResultService.put s id record) w).2 := by
  intro a x
  rw [if_neg hworker, (ring.run_resultPut hs hid hworker w).2]

theorem run_safePut (hs : s.node ∈ ring.members) {id : String} (hid : strip id ≠ "")
    (record : ResultRecord) (w : World) :
    ∃ w', run env (safePut s id record) w = (.ok (), w') ∧ Aside w w' ∧
      Overwritten ring s.replicationK id record w w' := by
  have haside := (only_resultPut s id record).aside env w
  unfold safePut
  by_cases hworker : record.workerId = ""
  · obtain ⟨e, he⟩ := FixedRing.run_resultPut_invalid env id hworker w
    rw [run_attempt_bind, he]
    exact ⟨w, rfl, .refl w, fun a x => by rw [if_pos hworker]⟩
  · rw [run_attempt_bind]
    exact ⟨_, rfl, haside, overwritten_put ring hs hid hworker w⟩

/-- What follows the write of a record that is queued again deals with lists only. -/
theorem run_relist (env : Env) (s : Service) (id oldWorker worker : String) (w : World) :
    ∃ w', run env (unlist s id oldWorker worker >>= fun _ =>
        attempt (WorkerAssignment.append s worker id) >>= fun _ => pure ()) w = (.ok (), w') ∧
      Aside w w' ∧ SameResults w w' := by
  have hunlist : Only Op.Listing (unlist s id oldWorker worker) :=
    .ite (.bind (.attempt (.of_does (serving_listing.remove _ _))) fun _ => .pure _) (.pure _)
  have hyields : Yields (fun _ => True) (unlist s id oldWorker worker) :=
    .ite (.bind (.attempt _) fun _ _ => .pure trivial) (.pure trivial)
  have happend : Only Op.Listing (WorkerAssignment.append s worker id) :=
    .of_does (serving_listing.append _ _)
  obtain ⟨_, hok, -⟩ := hyields.exec (handle env) w
  obtain ⟨haside, hsame⟩ := hunlist.listing env w
  obtain ⟨haside', hsame'⟩ := happend.listing env (run env (unlist s id oldWorker worker) w).2
  rw [run_bind hok, run_attempt_bind]
  exact ⟨_, rfl, haside.trans haside', hsame.trans hsame'⟩

/-- The workers that are scored are the live ones, at least one where one is live. -/
theorem scored_spec (env : Env) (s : Service) (w : World) :
    ((w.registries s.node.address).scoreAllWorkers (env.now w.trace.length)).isEmpty =
        (liveAt env s w).isEmpty ∧
      ∀ worker ∈ ((w.registries s.node.address).scoreAllWorkers (env.now w.trace.length)).map
        Prod.fst, worker ∈ liveAt env s w := by
  have hperm := (w.registries s.node.address).map_fst_scoreAllWorkers (env.now w.trace.length)
  refine ⟨?_, fun worker hmem => hperm.mem_iff.1 hmem⟩
  have hlen := hperm.length_eq
  rw [List.length_map] at hlen
  rw [Bool.eq_iff_iff, List.isEmpty_iff_length_eq_zero, List.isEmpty_iff_length_eq_zero, hlen]
  exact Iff.rfl

theorem run_spawnWorker (env : Env) (cfg : Config) (s : Service) (w : World) :
    ∃ x w', run env (spawnWorker cfg s) w = (.ok x, w') ∧ Aside w w' ∧ w'.stores = w.stores := by
  have honly : Only Op.Looks (spawnWorker cfg s) := by
    refine .bind (.act ⟨trivial, trivial⟩) fun due => .ite ?_ (.pure _)
    exact .bind (.act ⟨trivial, trivial⟩) fun _ => .pure _
  have hyields : Yields (fun _ => True) (spawnWorker cfg s) := by
    refine .bind (.act (.manager s.node.address .spawnDue)) fun due _ => .ite ?_ (.pure trivial)
    exact .bind (.act (.spawn _)) fun _ _ => .pure trivial
  obtain ⟨x, hx, -⟩ := hyields.exec (handle env) w
  exact ⟨x, _, Prod.ext hx rfl, (honly.mono fun _ h => h.1).aside env w,
    (honly.mono fun _ h => h.2).stores env w⟩

/-- A retry is chosen only where a worker is live. -/
theorem ne_nil_of_retry {record : ResultRecord} {failureType : Option FailureType}
    {live : List String}
    (h : chooseRecoveryPath record failureType (!live.isEmpty) = .retryDifferent) : live ≠ [] := by
  rintro rfl
  unfold chooseRecoveryPath at h
  by_cases hmax : record.maxAttempts ≤ record.attemptCount
  · rw [if_pos hmax] at h
    cases h
  · rw [if_neg hmax] at h
    rcases failureType with - | - | - | - <;> cases hretry : record.retryOnFailure <;>
      simp [hretry] at h

/-- What is done about a record once the path is chosen. -/
theorem run_execute (hs : s.node ∈ ring.members) {fresh : ResultRecord}
    (hid : strip fresh.taskId ≠ "") (failureType : Option FailureType) {live : List String}
    {scored : List (String × ℚ)} (hempty : scored.isEmpty = live.isEmpty)
    (hmem : ∀ worker ∈ scored.map Prod.fst, worker ∈ live) (justSpawned : Bool) (w : World) :
    ∃ record w', run env (execute s fresh (chooseRecoveryPath fresh failureType (!live.isEmpty))
        failureType scored justSpawned) w = (.ok (), w') ∧
      Recovers fresh failureType live record ∧ Aside w w' ∧
      Overwritten ring s.replicationK fresh.taskId record w w' := by
  unfold execute
  rw [run_act_bind]
  generalize hw₁ : (handle env .now w).2 = w₁
  have haside : Aside w w₁ := by
    rw [← hw₁]
    exact handle_aside (o := .now) trivial env w
  have hstores : w₁.stores = w.stores := by rw [← hw₁]; rfl
  have hfrom : ∀ {w₂ w₃ : World} {record : ResultRecord}, Aside w₁ w₂ → w₂.stores = w₁.stores →
      Aside w₂ w₃ → Overwritten ring s.replicationK fresh.taskId record w₂ w₃ →
      Aside w w₃ ∧ Overwritten ring s.replicationK fresh.taskId record w w₃ := by
    intro w₂ w₃ record ha hst ha' hov
    refine ⟨(haside.trans ha).trans ha', fun a x => ?_⟩
    rw [hov a x, hst, hstores]
  cases hpath : chooseRecoveryPath fresh failureType (!live.isEmpty) with
  | retrySame => exact absurd hpath (chooseRecoveryPath_ne_retrySame _ _ _)
  | giveUp =>
    obtain ⟨w', hrun, ha, hov⟩ := run_safePut ring hs hid
      (gaveUp fresh failureType (handle env .now w).1) w₁
    exact ⟨_, w', hrun, .gaveUp _ hpath, hfrom (.refl _) rfl ha hov⟩
  | waitAndRetry =>
    dsimp only
    rw [run_act_bind]
    obtain ⟨w', hrun, ha, hov⟩ := run_safePut ring hs hid (waiting fresh failureType
      (handle env .now w).1 ((handle env .now w₁).1 + if justSpawned = true then shortWait
        else recoveryWait) (.waitAndRetry ((handle env .now w₁).1 +
          if justSpawned = true then shortWait else recoveryWait))) (handle env .now w₁).2
    exact ⟨_, w', hrun, .waits _ _ hpath,
      hfrom (handle_aside (o := .now) trivial env w₁) rfl ha hov⟩
  | retryDifferent =>
    have hne : scored ≠ [] := by
      rintro rfl
      exact ne_nil_of_retry hpath (List.isEmpty_iff.1 hempty.symm)
    obtain ⟨worker, hworker, hin⟩ := otherWorker_spec fresh.workerId hne
    dsimp only
    unfold executeRetry retryWorker
    rw [pure_bind', hworker]
    obtain ⟨w₂, hrun₂, ha₂, hov₂⟩ := run_safePut ring hs hid
      (requeued fresh failureType (handle env .now w).1 .retryDifferent worker) w₁
    obtain ⟨w', hrun', ha', hsame'⟩ := run_relist env s fresh.taskId fresh.workerId
      worker w₂
    obtain ⟨ha, hov⟩ := hfrom (.refl _) rfl ha₂ hov₂
    exact ⟨_, w', (run_bind_eq_ok hrun₂).trans hrun',
      .requeued (handle env .now w).1 worker hpath (hmem worker hin), ha.trans ha',
      fun a x => (hsame' a x).trans (hov a x)⟩

/-- The recovery of a record just read. -/
theorem run_recoverFresh (hs : s.node ∈ ring.members) {fresh : ResultRecord}
    (hid : strip fresh.taskId ≠ "") (failureType : Option FailureType) (w : World) :
    ∃ record w', run env (recoverFresh cfg s fresh failureType) w = (.ok (), w') ∧
      Recovers fresh failureType (liveAt env s w) record ∧ Aside w w' ∧
      Overwritten ring s.replicationK fresh.taskId record w w' := by
  obtain ⟨hempty, hmem⟩ := scored_spec env s w
  unfold recoverFresh
  rw [run_act_bind]
  have hscored : (handle env (.registry s.node.address .scoreAllWorkers) w).1 =
      (w.registries s.node.address).scoreAllWorkers (env.now w.trace.length) := rfl
  rw [hscored, hempty]
  generalize (w.registries s.node.address).scoreAllWorkers (env.now w.trace.length) = scored
    at hempty hmem
  generalize hw₁ : (handle env (.registry s.node.address .scoreAllWorkers) w).2 = w₁
  have haside : Aside w w₁ := by
    rw [← hw₁]
    exact handle_aside (o := .registry s.node.address .scoreAllWorkers) trivial env w
  have hstores : w₁.stores = w.stores := by rw [← hw₁]; rfl
  split_ifs
  · obtain ⟨justSpawned, w₂, hrun₂, ha₂, hst₂⟩ := run_spawnWorker env cfg s w₁
    obtain ⟨record, w', hrun, hrec, ha, hov⟩ := run_execute ring hs hid failureType hempty hmem
      justSpawned w₂
    refine ⟨record, w', (run_bind_eq_ok hrun₂).trans hrun, hrec, (haside.trans ha₂).trans ha,
      fun a x => ?_⟩
    rw [hov a x, hst₂, hstores]
  · obtain ⟨record, w', hrun, hrec, ha, hov⟩ := run_execute ring hs hid failureType hempty hmem
      false w₁
    refine ⟨record, w', hrun, hrec, haside.trans ha, fun a x => ?_⟩
    rw [hov a x, hstores]

/-! ### The recovery of one task -/

/-- What is read of a task: what its owner has, always a record of that task, and nothing
where nobody has one. -/
structure ReadOf (id : String) (w : World) (x : Option ResultRecord) : Prop where
  task : ∀ r ∈ x, strip r.taskId = strip id ∧ strip id ≠ ""
  home : ∀ v, strip id ≠ "" →
    (w.stores (ring.home id).address).get (.result (strip id)) = some v → x = v.asResult
  absent : (∀ a y, strip y = strip id → (w.stores a).get (.result y) = none) → x = none

theorem run_safeGet (hs : s.node ∈ ring.members) (id : String) {w : World} (hown : Kept Owns w) :
    ∃ x w', run env (safeGet s id) w = (.ok x, w') ∧ ReadOf ring id w x ∧ Aside w w' ∧
      w'.stores = w.stores := by
  have honly := only_resultGet s id
  have haside : Aside w (run env (ResultService.get s id) w).2 :=
    (honly.mono fun _ h => h.1).aside env w
  have hstores : (run env (ResultService.get s id) w).2.stores = w.stores :=
    (honly.mono fun _ h => h.2).stores env w
  have hread := kept_run env ((serving_writes owns_worker).resultGet (s := s) id) hown
  unfold safeGet
  rw [run_attempt_bind]
  by_cases hid : strip id = ""
  · have herror : ∃ e, run env (ResultService.get s id) w = (.error e, w) := by
      unfold ResultService.get buildResultKey
      rw [if_pos hid]
      exact ⟨_, rfl⟩
    obtain ⟨e, he⟩ := herror
    rw [he]
    exact ⟨none, w, rfl, ⟨by simp, fun v h => absurd hid h, fun _ => rfl⟩, .refl w, rfl⟩
  · cases hget : (run env (ResultService.get s id) w).1 with
    | ok x =>
      refine ⟨x, _, rfl, ⟨fun r hr => ⟨?_, hid⟩, fun v _ hv => ?_, fun hnone => ?_⟩, haside,
        hstores⟩
      · exact (hread.2 x hget r hr).elim (fun h => Eq.trans h (strip_strip id)) fun h => h
      · rw [ring.run_resultGet hs hid hv] at hget
        cases hget
        rfl
      · rw [ring.run_resultGet_none hs hid hnone] at hget
        cases hget
        rfl
    | error e =>
      refine ⟨none, _, rfl, ⟨by simp, fun v _ hv => ?_, fun _ => rfl⟩, haside, hstores⟩
      rw [ring.run_resultGet hs hid hv] at hget
      cases hget

/-- What is done about a record that was read. -/
def Recovered (s : Service) (failureType : Option FailureType) (x : Option ResultRecord)
    (w w' : World) : Prop :=
  match x with
  | none => SameResults w w'
  | some fresh =>
    if fresh.waiting = true ∨ fresh.status = .success then SameResults w w'
    else ∃ now record,
      Recovers fresh failureType ((w.registries s.node.address).liveWorkers now) record ∧
        Overwritten ring s.replicationK fresh.taskId record w w'

theorem run_recoverClaimed (hs : s.node ∈ ring.members) (id : String)
    (failureType : Option FailureType) {w : World} (hown : Kept Owns w) :
    ∃ x w', run env (recoverClaimed cfg s id failureType) w = (.ok (), w') ∧ ReadOf ring id w x ∧
      Aside w w' ∧ Recovered ring s failureType x w w' := by
  obtain ⟨x, w₁, hrun₁, hread, haside, hstores⟩ := run_safeGet ring hs id hown
  refine ⟨x, ?_⟩
  unfold recoverClaimed
  rw [run_bind_eq_ok hrun₁]
  cases x with
  | none => exact ⟨w₁, rfl, hread, haside, .of_stores hstores⟩
  | some fresh =>
    obtain ⟨hsame, hid⟩ := hread.task fresh rfl
    dsimp only
    unfold Recovered
    dsimp only
    by_cases hgo : fresh.waiting = true ∨ fresh.status = .success
    · rw [if_pos hgo]
      refine ⟨w₁, rfl, hread, haside, ?_⟩
      rw [if_pos hgo]
      exact .of_stores hstores
    · rw [if_neg hgo]
      obtain ⟨record, w', hrun, hrec, ha, hov⟩ := run_recoverFresh ring cfg hs
        (hsame ▸ hid) failureType w₁
      refine ⟨w', hrun, hread, haside.trans ha, ?_⟩
      rw [if_neg hgo]
      refine ⟨env.now w₁.trace.length, record, ?_, fun a y => ?_⟩
      · rw [← haside.registries]
        exact hrec
      · rw [hov a y, hstores]

/-- **The recovery of a task**: where nobody else is at it, its record is read and dealt
with, and no other task is touched. -/
theorem run_attemptRecovery (hs : s.node ∈ ring.members) (record : ResultRecord)
    (failureType : Option FailureType) {w : World} (hown : Kept Owns w) :
    ∃ x w', run env (attemptRecovery cfg s record failureType) w = (.ok (), w') ∧
      Aside w w' ∧ (∀ r ∈ x, strip r.taskId = strip record.taskId) ∧
      Recovered ring s failureType x w w' ∧
      (record.taskId ∉ (w.managers s.node.address).inProgress → ReadOf ring record.taskId w x) := by
  unfold attemptRecovery
  by_cases hempty : record.taskId = ""
  · rw [if_pos hempty]
    refine ⟨none, w, rfl, .refl w, by simp, .of_stores rfl,
      fun _ => ⟨by simp, fun v h => ?_, fun _ => rfl⟩⟩
    exact absurd (by rw [hempty]; decide) h
  rw [if_neg hempty, run_act_bind]
  have hanswer : (handle env (.manager s.node.address (.claim record.taskId)) w).1 =
      decide (record.taskId ∉ (w.managers s.node.address).inProgress) := rfl
  rw [hanswer]
  generalize hw₁ : (handle env (.manager s.node.address (.claim record.taskId)) w).2 = w₁
  have hstores : w₁.stores = w.stores := by rw [← hw₁]; rfl
  have hregistries : w₁.registries = w.registries := by rw [← hw₁]; rfl
  have hself : w₁.managers s.node.address =
      ((w.managers s.node.address).call (env.now w.trace.length) (.claim record.taskId)).2 := by
    rw [← hw₁]
    exact Function.update_self ..
  have hother : ∀ a, a ≠ s.node.address → w₁.managers a = w.managers a := by
    intro a ha
    rw [← hw₁]
    exact Function.update_of_ne ha ..
  by_cases hclaim : record.taskId ∈ (w.managers s.node.address).inProgress
  · -- another scan is at it
    rw [if_neg (by simpa using hclaim)]
    refine ⟨none, w₁, rfl, ⟨hregistries, fun a => ?_⟩, by simp, .of_stores hstores,
      fun h => absurd hclaim h⟩
    by_cases ha : a = s.node.address
    · rw [ha, hself]
      exact if_pos hclaim
    · rw [hother a ha]
  · have hown₁ : Kept Owns w₁ := by
      intro a k v hv
      rw [hstores] at hv
      exact hown a k v hv
    obtain ⟨x, w₂, hrun₂, hread, haside, hdone⟩ := run_recoverClaimed ring cfg hs
      record.taskId failureType hown₁
    rw [if_pos (by simpa using hclaim), run_attempt_bind, hrun₂]
    refine ⟨x, _, rfl, ⟨haside.registries.trans hregistries, fun a => ?_⟩,
      fun r hr => (hread.task r hr).1, ?_,
      fun _ => ⟨hread.task, fun v hv h => ?_, fun h => hread.absent fun a y hy => ?_⟩⟩
    · -- the task is taken off the list again
      by_cases ha : a = s.node.address
      · subst ha
        have hdiscard : ((handle env (.manager s.node.address (.discard record.taskId)) w₂).2.managers
            s.node.address) = ((w₂.managers s.node.address).call (env.now w₂.trace.length)
              (.discard record.taskId)).2 := Function.update_self ..
        have hlist : (w₂.managers s.node.address).inProgress =
            record.taskId :: (w.managers s.node.address).inProgress := by
          rw [haside.inProgress, hself]
          exact if_neg hclaim
        refine (congrArg Workers.Manager.inProgress hdiscard).trans ?_
        change (w₂.managers s.node.address).inProgress.filter _ = _
        rw [hlist, List.filter_cons_of_neg (by simp), List.filter_eq_self.2]
        intro t ht
        have hne : t ≠ record.taskId := fun he => hclaim (he ▸ ht)
        simpa using hne
      · have hleft : (handle env (.manager s.node.address (.discard record.taskId)) w₂).2.managers a =
          w₂.managers a := Function.update_of_ne ha ..
        refine (congrArg Workers.Manager.inProgress hleft).trans ?_
        rw [haside.inProgress, hother a ha]
    · unfold Recovered at hdone ⊢
      cases x with
      | none => exact fun a y => (hdone a y).trans (by rw [hstores])
      | some fresh =>
        dsimp only at hdone ⊢
        split_ifs at hdone ⊢
        · exact fun a y => (hdone a y).trans (by rw [hstores])
        · obtain ⟨now, r, hrec, hov⟩ := hdone
          refine ⟨now, r, by rw [← hregistries]; exact hrec, fun a y => ?_⟩
          rw [← hstores]
          exact hov a y
    · rw [← hstores] at h
      exact hread.home v hv h
    · rw [hstores]
      exact h a y hy

end Fixed

end Server
end ChordInfra
