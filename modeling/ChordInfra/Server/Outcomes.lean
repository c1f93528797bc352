/-
# What the handlers do to the records

In a ring of fixed membership a request for a task either leaves the records alone or
writes the record that was made of it and puts the task on a list (`run_createTask`), and a
report either leaves them alone or overwrites the one that was read (`run_resultComplete`).
Neither of them tells a registry of workers (`only_calm`).
-/

import ChordInfra.Server.CreateTask
import ChordInfra.Server.Recovered

namespace ChordInfra
namespace Server

open Interact Prog
open Storage
open ChordInfra.Ring (NodeRef)

/-! ### Calm handlers -/

theorem Op.calm_of_writes {o : Op} {e : Address × Key × Value} (h : o.writes = some e) :
    o.Calm := by
  cases o with
  | registry | manager => cases h
  | _ => trivial

theorem Op.calm_of_deletes {o : Op} {e : Address × Key} (h : o.deletes = some e) : o.Calm := by
  cases o with
  | registry | manager => cases h
  | _ => trivial

theorem handling_calm :
    Handling (fun _ _ => True) Op.Calm (fun _ _ => True) fun _ => True := by
  have hserving : Serving (fun _ _ => True) Op.Calm fun _ _ => True := {
    get := fun _ _ => ⟨trivial, fun _ _ => trivial⟩
    rpcGet := fun _ _ => ⟨trivial, fun _ _ => trivial⟩
    getReplica := fun _ _ => ⟨trivial, fun _ _ => trivial⟩
    getState := fun _ => trivial
    findSuccessor := fun _ _ => trivial
    now := trivial
    lock := fun _ _ => trivial
    unlock := fun _ _ => trivial
    deliver := fun _ _ => trivial
    writes := fun _ _ _ _ ho => Op.calm_of_writes ho }
  exact ⟨⟨hserving, fun _ _ _ _ _ _ => hserving.resultPut fun _ _ _ _ ho => Op.calm_of_writes ho,
    fun _ _ hc _ => hc, fun _ => trivial⟩,
    fun _ => ⟨trivial, fun _ _ _ _ => ⟨trivial, fun _ _ => trivial⟩⟩⟩

theorem calm_createTask (env : Env) (cfg : Config) (s : Service) (body : Fields) (w : World) :
    Calm w (run env (createTask cfg s body) w).2 := by
  have hdoes : Serving.Runs (fun _ _ => True) Op.Calm (createTask cfg s body) :=
    handling_calm.createTask law_trivial.toHandlerLaw trivial
      (fun _ _ => handling_calm.assign (fun _ _ _ ho => Op.calm_of_deletes ho) _) body
  exact (Only.of_does hdoes).calm env w

theorem calm_resultComplete (env : Env) (s : Service) (taskId : String) (status result : Json)
    (w : World) : Calm w (run env (resultComplete s taskId status result) w).2 := by
  have hdoes : Serving.Runs (fun _ _ => True) Op.Calm (resultComplete s taskId status result) :=
    handling_calm.resultComplete law_trivial.toUpdateLaw trivial taskId status trivial
  exact (Only.of_does hdoes).calm env w

/-! ### Tries -/

section Tries

variable {env : Env} {α : Type} {opName : String} {op : M α}

theorem run_retryLoop_ok {x : α} {w w' : World} (h : run env op w = (.ok x, w')) (n : ℕ) :
    run env (retryLoop opName op (n + 1)) w = (.ok x, w') := by
  unfold retryLoop
  rw [run_attempt_bind, h]
  rfl

/-- What always fails, and without a trace, is tried in vain. -/
theorem run_retryLoop_error (opName : String) (h : ∀ w, ∃ e, run env op w = (.error e, w)) (n : ℕ)
    (w : World) :
    ∃ e, run env (retryLoop opName op n) w = (.error e, w) := by
  induction n with
  | zero => exact ⟨_, rfl⟩
  | succ n ih =>
    obtain ⟨e, he⟩ := h w
    unfold retryLoop
    rw [run_attempt_bind, he]
    exact ih

end Tries

/-! ### Lists -/

section Lists

variable {workerId : String}

theorem yields_appendLocal (hw : workerId ≠ "") (a : Address) (k : ℕ) (id : String)
    (primary : Option NodeRef) :
    Yields (fun _ => True) (WorkerAssignment.appendLocal a k workerId id primary) := by
  unfold WorkerAssignment.appendLocal buildWorkerKey
  rw [if_neg hw, lift_ok_bind]
  have howner : Yields (fun _ => True)
      (WorkerAssignment.ownerOr a (.worker (strip workerId)) primary) := by
    cases primary with
    | none => exact .act (.findSuccessor _ _)
    | some primary => exact .pure trivial
  exact howner.bind fun _ _ => .changeLocal _ _ _ _ _ _

/-- A removal never raises: a failure at another node is passed over. -/
theorem yields_remove (hw : workerId ≠ "") (s : Service) (id : String) :
    Yields (fun _ => True) (WorkerAssignment.remove s workerId id) := by
  unfold WorkerAssignment.remove WorkerAssignment.removeLocal buildWorkerKey
  rw [if_neg hw, lift_ok_bind]
  refine .bind (.act (.findSuccessor _ _)) fun primary _ => .ite ?_ ?_
  · rw [lift_ok_bind]
    exact .changeLocal _ _ _ _ _ _
  · refine .bind (.attempt _) fun answer _ => .ite (.pure trivial) ?_
    exact .bind (.act .now) fun _ _ => .bind (.attempt _) fun _ _ => .pure trivial

/-- Where calls arrive, a task gets on the list of a worker. -/
theorem run_append_ok {env : Env} (hcalls : ∀ t a c, env.deliverCall t a c = .delivered)
    (s : Service) (hw : workerId ≠ "") {id : String} (hid : id ≠ "") (w : World) :
    ∃ x, (run env (WorkerAssignment.append s workerId id) w).1 = .ok x := by
  unfold WorkerAssignment.append WorkerAssignment.appendBy buildWorkerKey
  rw [if_neg hw, run_lift_ok_bind]
  have howner : (run env (s.owner (.worker (strip workerId))) w).1 =
      .ok (env.findSuccessor w.trace.length s.node.address (.worker (strip workerId))) := rfl
  rw [run_bind howner]
  split_ifs
  · obtain ⟨x, hx, -⟩ := (yields_appendLocal hw _ _ _ _).exec (handle env) _
    exact ⟨x, hx⟩
  · generalize env.findSuccessor _ _ _ = primary
    generalize (run env (s.owner (.worker (strip workerId))) w).2 = w₁
    unfold Service.primaryWriteRetries WorkerAssignment.appendTries Transport.call
      Transport.callTries
    rw [run_attempt_bind, run_act_bind]
    have hdelivered : (handle env (.deliver primary.address (.append workerId id)) w₁).1 =
        .delivered := hcalls _ _ _
    generalize (handle env (.deliver primary.address (.append workerId id)) w₁).2 = w₂
    rw [hdelivered]
    dsimp only
    rw [run_attempt_bind]
    have hhandler : Yields (fun _ => True)
        (WorkerAssignment.handleAppend primary.address s.replicationK workerId id) := by
      unfold WorkerAssignment.handleAppend
      rw [if_neg hid]
      exact yields_appendLocal hw _ _ _ _
    obtain ⟨x, hx, -⟩ := hhandler.exec (handle env) w₂
    have hok : (run env (WorkerAssignment.handleAppend primary.address s.replicationK workerId id)
        w₂).1 = .ok x := hx
    rw [hok]
    exact ⟨x, rfl⟩

end Lists

/-! ### Requests for tasks -/

section Fixed

variable {env : Env} (ring : FixedRing env) {cfg : Config} {s : Service}

/-- The record is one that `/createTask` makes. -/
def Built (record : ResultRecord) : Prop :=
  ∃ taskId taskType path script workerId assignedBy now,
    buildResultRecord taskId taskType path script workerId assignedBy now = .ok record

/-- Where no record of the task was read a new one was written, and after that the task
put on the list of its worker. -/
structure Created (s : Service) (record : ResultRecord) (w mid w' : World) : Prop where
  built : Built record
  named : strip record.taskId ≠ ""
  worker : record.workerId ≠ ""
  fresh : ReadOf ring record.taskId w none
  calm : Calm w mid
  written : mid.stores = ring.written s.replicationK record.taskId record w.stores
  listed : w' = (run env (WorkerAssignment.append s record.workerId record.taskId) mid).2

theorem Created.overwritten {record : ResultRecord} {w mid w' : World}
    (h : Created ring s record w mid w') :
    Overwritten ring s.replicationK record.taskId record w w' := by
  intro a x
  have happend : Only Op.Listing (WorkerAssignment.append s record.workerId record.taskId) :=
    .of_does (serving_listing.append _ _)
  rw [if_neg h.worker, ← h.written, h.listed]
  exact (happend.listing env mid).2 a x

/-- A record that can be written is written, and its task put on the list. -/
theorem run_persist (hcalls : ∀ t a c, env.deliverCall t a c = .delivered)
    (hs : s.node ∈ ring.members) (hinject : cfg.inject = .nothing) {record : ResultRecord}
    (hid : strip record.taskId ≠ "") (hw : record.workerId ≠ "") (w : World) :
    ∃ mid, mid.stores = ring.written s.replicationK record.taskId record w.stores ∧
      Calm w mid ∧ (run env (persist cfg s record) w).2 =
        (run env (WorkerAssignment.append s record.workerId record.taskId) mid).2 := by
  obtain ⟨hput, hstores⟩ := ring.run_resultPut hs hid hw w
  have hcalm : Calm w (run env (ResultService.put s record.taskId record) w).2 :=
    ((only_resultPut s record.taskId record).aside env w).calm
  refine ⟨_, hstores, hcalm, ?_⟩
  have hht1 : run env (ht1Op cfg s record) w =
      (.ok (), (run env (ResultService.put s record.taskId record) w).2) := by
    unfold ht1Op
    rw [if_neg (by rw [hinject]; decide), run_bind hput]
    rfl
  have hne : record.taskId ≠ "" := by
    intro h
    rw [h] at hid
    exact hid (by decide)
  generalize (run env (ResultService.put s record.taskId record) w).2 = mid at hht1
  obtain ⟨x, hx⟩ := run_append_ok hcalls s hw hne mid
  have hht2 : run env (ht2Op cfg s record) mid =
      (.ok (), (run env (WorkerAssignment.append s record.workerId record.taskId) mid).2) := by
    unfold ht2Op
    rw [if_neg (by rw [hinject]; decide), run_bind hx]
    rfl
  unfold persist withTimeoutAndRetry
  rw [run_attempt_bind, run_retryLoop_ok hht1]
  dsimp only
  unfold assign withTimeoutAndRetry
  rw [run_attempt_bind, run_retryLoop_ok hht2]
  rfl

/-- A record of a task without a name is not written. -/
theorem run_persist_unnamed (env : Env) (cfg : Config) (s : Service) {record : ResultRecord}
    (hid : strip record.taskId = "") (w : World) : (run env (persist cfg s record) w).2 = w := by
  have hht1 : ∀ w, ∃ e, run env (ht1Op cfg s record) w = (.error e, w) := by
    intro w
    unfold ht1Op
    split_ifs
    · exact ⟨_, rfl⟩
    · unfold ResultService.put buildResultKey
      rw [if_pos hid]
      cases validateResultRecord record <;> exact ⟨_, rfl⟩
  obtain ⟨e, he⟩ := run_retryLoop_error (ht1OpName record) hht1 (maxRetries + 1) w
  unfold persist withTimeoutAndRetry
  rw [run_attempt_bind, he]
  rfl

/-- The records are as they were, or a new one was made. -/
def Outcome (s : Service) (w w' : World) : Prop :=
  w'.stores = w.stores ∨ ∃ record mid, Created ring s record w mid w'

/-- A first part that only reads. -/
theorem Outcome.bind {α β : Type} {p : M α} {f : α → M β} {w w₁ : World}
    (hstores : w₁.stores = w.stores) (hcalm : Calm w w₁) (hreads : Only Op.Reads p)
    (hquiet : Only Op.Calm p)
    (hf : ∀ x w₂, run env p w₁ = (.ok x, w₂) → w₂.stores = w.stores → Calm w w₂ →
      Outcome ring s w (run env (f x) w₂).2) :
    Outcome ring s w (run env (p >>= f) w₁).2 := by
  have hstores' : (run env p w₁).2.stores = w.stores := (hreads.stores env w₁).trans hstores
  have hcalm' : Calm w (run env p w₁).2 := hcalm.trans (hquiet.calm env w₁)
  cases hrun : run env p w₁ with
  | mk x w₂ =>
    rw [hrun] at hstores' hcalm'
    cases x with
    | ok x =>
      rw [run_bind_eq_ok hrun]
      exact hf x w₂ hrun hstores' hcalm'
    | error e =>
      rw [run_bind_eq_error hrun]
      exact .inl hstores'

/-- Steps 2 to 5, of a task of which no record was read. -/
theorem outcome_accept (hcalls : ∀ t a c, env.deliverCall t a c = .delivered)
    (hs : s.node ∈ ring.members) (hinject : cfg.inject = .nothing) {taskId : Json} {w w₁ : World}
    (hfresh : ∀ id, taskId = .str id → ReadOf ring id w none) (hstores : w₁.stores = w.stores)
    (hcalm : Calm w w₁) (taskType : TaskType) (details : List (String × Json))
    (worker : Option (Json × AssignedBy)) :
    Outcome ring s w (run env (accept cfg s taskId taskType details worker) w₁).2 := by
  rcases worker with - | ⟨workerId, assignedBy⟩
  · exact .inl hstores
  refine .bind ring hstores hcalm (.act trivial) (.act trivial) fun now w₂ _ hstores₂ hcalm₂ => ?_
  generalize hbuild : buildResultRecord taskId taskType (fieldOr details "path" (.str ""))
    (fieldOr details "script" (.str "")) workerId assignedBy now = built
  cases built with
  | error e =>
    cases e with
    | _ => exact .inl hstores₂
  | ok record =>
    have hbuilt : Built record := ⟨_, _, _, _, _, _, _, hbuild⟩
    have htask : taskId = .str record.taskId := by
      unfold buildResultRecord at hbuild
      split at hbuild
      · split_ifs at hbuild
        cases hbuild
        rfl
      · cases hbuild
      · cases hbuild
    change Outcome ring s w (run env (persist cfg s record) w₂).2
    by_cases hid : strip record.taskId = ""
    · rw [run_persist_unnamed env cfg s hid]
      exact .inl hstores₂
    · have hworker : record.workerId ≠ "" := worker_of_build hbuild
      obtain ⟨mid, hmid, hcalm', hlisted⟩ := run_persist ring hcalls hs hinject hid hworker w₂
      rw [hstores₂] at hmid
      exact .inr ⟨record, mid, hbuilt, hid, hworker, hfresh _ htask, hcalm₂.trans hcalm', hmid,
        hlisted⟩

/-- **What a request for a task does**: nothing to the records, or it makes a new one. -/
theorem run_createTask (hcalls : ∀ t a c, env.deliverCall t a c = .delivered)
    (hs : s.node ∈ ring.members) (hinject : cfg.inject = .nothing) (body : Fields) {w : World}
    (hown : Kept Owns w) : Outcome ring s w (run env (createTask cfg s body) w).2 := by
  unfold createTask
  split_ifs
  · exact .inl rfl
  · split
    · exact .inl rfl
    · refine .bind ring rfl (.refl w) (.lift _) (.lift _) fun taskType w₁ _ hstores hcalm => ?_
      cases taskType with
      | none => exact .inl hstores
      | some taskType =>
        dsimp only
        unfold submit
        refine .bind ring hstores hcalm ((only_existingRecord _).mono fun _ h => h.1)
          (.of_does (handling_calm.existingRecord _)) fun existing w₂ hrun hstores₂ hcalm₂ => ?_
        cases existing with
        | some existing => exact .inl hstores₂
        | none =>
          dsimp only
          refine .bind ring hstores₂ hcalm₂ ((only_determineWorker _).mono fun _ h => h.1)
            (.of_does (handling_calm.determineWorker _)) fun worker w₃ _ hstores₃ hcalm₃ => ?_
          refine outcome_accept ring hcalls hs hinject (fun id hid => ?_) hstores₃ hcalm₃ _ _ _
          -- the read of the record found none
          rw [hid] at hrun
          have hown₁ : Kept Owns w₁ := by
            intro a k v hv
            rw [hstores] at hv
            exact hown a k v hv
          obtain ⟨x, w', hget, hread, -, -⟩ := run_safeGet ring hs id hown₁
          have hx : run env (existingRecord s (.str id)) w₁ = (.ok x, w') := hget
          rw [hrun] at hx
          cases hx
          refine ⟨hread.task, fun v hv h => hread.home v hv ?_, fun _ => rfl⟩
          rw [hstores]
          exact h

/-! ### Reports -/

theorem stores_afterReport (env : Env) (s : Service) (workerId taskId : String) (status : Status)
    (w : World) : (run env (afterReport s workerId taskId status) w).2.stores = w.stores := by
  have hreads : Only Op.Reads (afterReport s workerId taskId status) :=
    .bind (.ite (.act trivial) (.pure _)) fun _ => .bind (.act trivial) fun _ => .pure _
  exact hreads.stores env w

/-- A record was written, unless it names no worker, and nothing else. -/
def Written (k : ℕ) (id : String) (record : ResultRecord) (w w' : World) : Prop :=
  w'.stores = if record.workerId = "" then w.stores else ring.written k id record w.stores

theorem Written.overwritten {k : ℕ} {id : String} {record : ResultRecord} {w w' : World}
    (h : Written ring k id record w w') : Overwritten ring k id record w w' := by
  intro a x
  rw [h]

/-- The record that was read is overwritten, unless it names no worker; only then is the
report not accepted. -/
theorem run_writeReport (hs : s.node ∈ ring.members) {id : String} (hid : strip id ≠ "")
    (status : Status) (result : Json) (r : ResultRecord) (w : World) :
    (∃ now, Written ring s.replicationK id (completed r status result now) w
        (run env (writeReport s id status result r) w).2) ∧
      ∀ t st, (run env (writeReport s id status result r) w).1 = .ok (.done t st) →
        r.workerId ≠ "" := by
  unfold writeReport
  rw [run_act_bind, run_attempt_bind]
  have hstores : (handle env .now w).2.stores = w.stores := rfl
  generalize (handle env .now w).1 = now
  generalize (handle env .now w).2 = w₁ at hstores
  by_cases hworker : r.workerId = ""
  · have hcompleted : (completed r status result now).workerId = "" := hworker
    obtain ⟨e, he⟩ := FixedRing.run_resultPut_invalid env id hcompleted w₁
    rw [he]
    refine ⟨⟨now, ?_⟩, fun t st h => (by cases h)⟩
    rw [Written, if_pos hcompleted, ← hstores]
    rfl
  · have hcompleted : (completed r status result now).workerId ≠ "" := hworker
    obtain ⟨hok, hput⟩ := ring.run_resultPut hs hid hcompleted w₁
    rw [hok]
    refine ⟨⟨now, ?_⟩, fun _ _ _ => hworker⟩
    rw [Written, if_neg hcompleted, ← hstores, ← hput]
    exact stores_afterReport ..

/-- **What a report does**: it overwrites the record that was read, if it is of one of the
two statuses and any record was read. -/
theorem run_resultComplete (hs : s.node ∈ ring.members) (id : String) (status result : Json)
    {w : World} (hown : Kept Owns w) :
    ∃ x, ReadOf ring id w x ∧
      match reportedStatus status, x with
      | .ok (some st), some r =>
        (∃ now, Written ring s.replicationK id (completed r st result now) w
          (run env (resultComplete s id status result) w).2) ∧
        ∀ t st', (run env (resultComplete s id status result) w).1 = .ok (.done t st') →
          r.workerId ≠ ""
      | _, _ => (run env (resultComplete s id status result) w).2.stores = w.stores := by
  obtain ⟨x, w₁, hrun, hread, haside, hstores⟩ := run_safeGet ring hs id hown
  refine ⟨x, hread, ?_⟩
  unfold resultComplete
  cases reportedStatus status with
  | error e => rfl
  | ok st =>
    rw [run_lift_ok_bind]
    cases st with
    | none => rfl
    | some st =>
      dsimp only
      unfold safeGet at hrun
      rw [run_attempt_bind] at hrun
      cases hget : run env (ResultService.get s id) w with
      | mk y w₂ =>
        rw [hget] at hrun
        cases y with
        | error e =>
          cases hrun
          rw [run_bind_eq_error hget]
          exact hstores
        | ok y =>
          cases hrun
          rw [run_bind_eq_ok hget]
          cases x with
          | none => exact hstores
          | some r =>
            have hid := (hread.task r rfl).2
            obtain ⟨⟨now, hwritten⟩, hdone⟩ := run_writeReport ring hs hid st result r _
            refine ⟨⟨now, ?_⟩, hdone⟩
            rw [Written, ← hstores]
            exact hwritten

end Fixed

end Server
end ChordInfra
