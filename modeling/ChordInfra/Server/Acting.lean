/-
# What the handlers read and write

The triples of the handlers, the scans and the workers.  `Acting A P φ` says of a property
`φ` of keys with their values that what they read has it, and that they may write what
has it; `Law φ` says that every record they make of one that has it has it too.  Under
both, each of them performs only operations in `P`.
-/

import ChordInfra.Server.Recovery
import ChordInfra.Server.TaskRunner
import ChordInfra.Storage.Serving

namespace ChordInfra
namespace Server

open Interact Prog
open Storage
open Storage.Serving (Runs)
open Workers (Process)

/-- What a handler that is granted `A` and allowed `P` can rely on, at a node that `ok`
names: a record with the property may be put by the service of results.  How a task ended is
recorded where `credits` says so. -/
structure Placing (A : (o : Op) → o.Res → Prop) (P : Op → Prop) (φ : Key → Value → Prop)
    (ok : Service → Prop) (credits : Prop := True) : Prop extends Serving A P φ where
  put : ∀ s, ok s → ∀ {id : String} {record : ResultRecord}, φ (.result id) (.result record) →
    φ (.result (strip id)) (.result record) → Runs A P (ResultService.put s id record)
  registry : ∀ a {c}, c.Quiet → (c.Credits → credits) → P (.registry a c)
  spawn : ∀ j, P (.spawn j)

/-- What one can rely on that goes through a store as well: a record with the property may be put
where one is kept already. -/
structure Handling (A : (o : Op) → o.Res → Prop) (P : Op → Prop) (φ : Key → Value → Prop)
    (ok : Service → Prop) (credits : Prop := True) : Prop extends Placing A P φ ok credits where
  items : ∀ a, P (.items a) ∧ ∀ l, A (.items a) l → ∀ e ∈ l,
    φ e.1 e.2 ∧ ∀ v, φ e.1 v → P (.put a e.1 v)

/-- At fewer nodes. -/
theorem Handling.weaken {A : (o : Op) → o.Res → Prop} {P : Op → Prop} {φ : Key → Value → Prop}
    {ok ok' : Service → Prop} {credits : Prop} (h : Handling A P φ ok credits)
    (hok : ∀ s, ok' s → ok s) : Handling A P φ ok' credits :=
  { h with put := fun s hs => h.put s (hok s hs) }

/-- What the managers, the heartbeats and the rollbacks can rely on as well. -/
structure Acting (A : (o : Op) → o.Res → Prop) (P : Op → Prop) (φ : Key → Value → Prop)
    (ok : Service → Prop) (credits : Prop := True) : Prop extends Handling A P φ ok credits where
  deletes : ∀ o a x, o.deletes = some (a, .result x) → P o
  named : ∀ a {c}, c.Named → (c.Credits → credits) → P (.registry a c)
  manager : ∀ a c, P (.manager a c)

/-- The property is one of every record that a report or a move makes of one that has it, where
`R` holds of the results that are reported. -/
structure UpdateLaw (φ : Key → Value → Prop) (R : Json → Prop := fun _ => True) : Prop where
  stripped : ∀ {x y : String} {v : Value}, strip x = strip y → φ (.result x) v → φ (.result y) v
  completed : ∀ {x : String} {r : ResultRecord} {status : Status} (result : Json) (now : ℕ),
    R result → status = .success ∨ status = .failure →
    φ (.result x) (.result r) → φ (.result x) (.result (completed r status result now))
  reassigned : ∀ {x : String} {r : ResultRecord} (dst : String), r.status = .pending →
    φ (.result x) (.result r) → φ (.result x) (.result (reassigned r dst))

/-- And of those that requests make. -/
structure HandlerLaw (φ : Key → Value → Prop) (R : Json → Prop := fun _ => True) : Prop
    extends UpdateLaw φ R where
  built : ∀ {taskId workerId path script : Json} {taskType : TaskType} {assignedBy : AssignedBy}
    {now : ℕ} {r : ResultRecord},
    buildResultRecord taskId taskType path script workerId assignedBy now = .ok r →
    φ (.result r.taskId) (.result r)

/-- The property is one of every record that is made of one that has it. -/
structure Law (φ : Key → Value → Prop) (R : Json → Prop := fun _ => True) : Prop
    extends HandlerLaw φ R where
  own : ∀ {x : String} {r : ResultRecord}, φ (.result x) (.result r) →
    φ (.result r.taskId) (.result r)
  cleared : ∀ {x : String} {r : ResultRecord} (now : ℕ),
    φ (.result x) (.result r) → φ (.result x) (.result (cleared r now))
  gaveUp : ∀ {x : String} {r : ResultRecord} {failureType : Option FailureType} {live : Bool}
    (now : ℕ), r.waiting = false → chooseRecoveryPath r failureType live = .giveUp →
    φ (.result x) (.result r) → φ (.result x) (.result (gaveUp r failureType now))
  waits : ∀ {x : String} {r : ResultRecord} {failureType : Option FailureType} {live : Bool}
    {entry : HistoryEntry} (now retryAt : ℕ), r.waiting = false →
    chooseRecoveryPath r failureType live ≠ .giveUp →
    entry = .waitAndRetry retryAt ∨ entry = .noWorkers retryAt →
    φ (.result x) (.result r) → φ (.result x) (.result (waiting r failureType now retryAt entry))
  requeued : ∀ {x : String} {r : ResultRecord} {failureType : Option FailureType} {live : Bool}
    (now : ℕ) (worker : String), r.waiting = false →
    chooseRecoveryPath r failureType live = .retryDifferent →
    φ (.result x) (.result r) →
    φ (.result x) (.result (requeued r failureType now .retryDifferent worker))

/-- The property that everything has. -/
theorem law_trivial : Law fun _ _ => True where
  stripped _ _ := trivial
  own _ := trivial
  built _ := trivial
  completed _ _ _ _ _ := trivial
  reassigned _ _ _ := trivial
  cleared _ _ := trivial
  gaveUp _ _ _ _ := trivial
  waits _ _ _ _ _ _ := trivial
  requeued _ _ _ _ _ := trivial

/-- Where nothing but the memories of the workers and nameless heartbeats is forbidden. -/
theorem acting_of {P : Op → Prop} {ok : Service → Prop}
    (h : ∀ o, (∀ p c, o ≠ .memory p c) → (∀ a c, o = .registry a c → c.Named) → P o) :
    Acting (fun _ _ => True) P (fun _ _ => True) ok := by
  have hplain : ∀ o, (∀ p c, o ≠ Op.memory p c) ∧ (∀ a c, o ≠ Op.registry a c) → P o :=
    fun o ho => h o ho.1 fun a c he => absurd he (ho.2 a c)
  have hserving : Serving (fun _ _ => True) P fun _ _ => True := {
    get := fun _ _ => ⟨hplain _ (by simp), fun _ _ => trivial⟩
    rpcGet := fun _ _ => ⟨hplain _ (by simp), fun _ _ => trivial⟩
    getReplica := fun _ _ => ⟨hplain _ (by simp), fun _ _ => trivial⟩
    getState := fun _ => hplain _ (by simp)
    findSuccessor := fun _ _ => hplain _ (by simp)
    now := hplain _ (by simp)
    lock := fun _ _ => hplain _ (by simp)
    unlock := fun _ _ => hplain _ (by simp)
    deliver := fun _ _ => hplain _ (by simp)
    writes := fun o _ _ _ ho => hplain o ⟨fun _ _ he => (by subst he; cases ho),
      fun _ _ he => (by subst he; cases ho)⟩ }
  have hnamed : ∀ a (c : Workers.Registry.Call), c.Named → P (.registry a c) := by
    refine fun a c hc => h _ (by simp) fun b d he => ?_
    cases he
    exact hc
  refine ⟨⟨⟨hserving, fun s _ id r _ _ => hserving.resultPut fun o a x _ ho => ?_,
    fun a c hc _ => hnamed a c hc.named, fun _ => hplain _ (by simp)⟩,
    fun _ => ⟨hplain _ (by simp), fun _ _ _ _ => ⟨trivial, fun _ _ => hplain _ (by simp)⟩⟩⟩,
    fun o a x ho => ?_, fun a c hc _ => hnamed a c hc, fun _ _ => hplain _ (by simp)⟩
  · exact hplain o ⟨fun _ _ he => (by subst he; cases ho), fun _ _ he => (by subst he; cases ho)⟩
  · exact hplain o ⟨fun _ _ he => (by subst he; cases ho), fun _ _ he => (by subst he; cases ho)⟩

/-- Retries are on a different worker where there is one. -/
theorem chooseRecoveryPath_ne_retrySame (record : ResultRecord) (failureType : Option FailureType)
    (live : Bool) : chooseRecoveryPath record failureType live ≠ .retrySame := by
  unfold chooseRecoveryPath
  by_cases hmax : record.maxAttempts ≤ record.attemptCount
  · rw [if_pos hmax]
    exact fun h => (by cases h)
  · rw [if_neg hmax]
    rcases failureType with - | - | - | - <;> cases live <;> cases record.retryOnFailure <;>
      exact fun h => (by cases h)

/-- The operations of a scan: a record is retried only where it has the property. -/
def ScanOp.Fits (φ : Key → Value → Prop) : ScanOp → Prop
  | .retry record => ∃ x, φ (.result x) (.result record)
  | _ => True

/-- What an operation of a scan ends with. -/
def ScanOp.Ends (φ : Key → Value → Prop) : (o : ScanOp) → o.Val → Prop
  | .records, l => ∀ r ∈ l, ∃ x, φ (.result x) (.result r)
  | _, _ => True

/-- A record that is made of a request names a worker. -/
theorem worker_of_build {taskId path script workerId : Json} {taskType : TaskType}
    {assignedBy : AssignedBy} {now : ℕ} {record : ResultRecord}
    (h : buildResultRecord taskId taskType path script workerId assignedBy now = .ok record) :
    record.workerId ≠ "" := by
  unfold buildResultRecord at h
  split at h
  · split_ifs at h with _ hw
    cases h
    exact hw
  · cases h
  · cases h

/-- A report is of a success or of a failure. -/
theorem ends_of_reported {status : Json} {st : Status} (h : reportedStatus status = .ok (some st)) :
    st = .success ∨ st = .failure := by
  unfold reportedStatus at h
  split at h <;> cases h
  · exact .inl rfl
  · exact .inr rfl

/-- A pending record that is kept under an id, and may be put there. -/
def Handling.Listed (P : Op → Prop) (φ : Key → Value → Prop) (s : Service)
    (e : String × ResultRecord) : Prop :=
  e.2.status = .pending ∧ φ (.result e.1) (.result e.2) ∧
    ∀ v, φ (.result e.1) v → P (.put s.node.address (.result e.1) v)

namespace Placing

variable {A : (o : Op) → o.Res → Prop} {P : Op → Prop} {φ : Key → Value → Prop}
  {ok : Service → Prop} {credits : Prop} {R : Json → Prop} (h : Placing A P φ ok credits)
  (updates : UpdateLaw φ R) (law : HandlerLaw φ R) {cfg : Config} {s : Service} (hs : ok s)

include h

/-! ### Handlers -/

include updates hs in
/-- What has the property may be put under an id. -/
theorem putKept {id : String} {record : ResultRecord} (hr : φ (.result id) (.result record)) :
    Runs A P (ResultService.put s id record) :=
  h.put s hs hr (updates.stripped (strip_strip _).symm hr)

omit h in
theorem retryLoop {α : Type} {opName : String} {op : M α} (hop : Runs A P op) (n : ℕ) :
    Runs A P (retryLoop opName op n) := by
  induction n with
  | zero => exact .raise _
  | succ n ih =>
    refine .bind hop.attempt fun x _ => ?_
    cases x with
    | ok x => exact .pure trivial
    | error e => exact ih

theorem existingRecord (taskId : Json) : Runs A P (existingRecord s taskId) := by
  cases taskId with
  | str id =>
    refine .bind ((h.resultGet id).mono fun _ _ => trivial).attempt fun x _ => ?_
    cases x <;> exact .pure trivial
  | _ => exact .pure trivial

theorem placed : Runs A P (placed s) := by
  refine .bind (.step (h.registry _ trivial False.elim)) fun scored _ => ?_
  split
  · exact .pure trivial
  · exact .bind (.step (h.registry _ (c := .roundRobinAssign) trivial False.elim)) fun _ _ =>
      .pure trivial

theorem waitLive (workerId : String) (n : ℕ) : Runs A P (waitLive s workerId n) := by
  induction n with
  | zero => exact .pure trivial
  | succ n ih =>
    exact .bind (.step (h.registry _ trivial False.elim)) fun live _ =>
      .ite (fun _ => .pure trivial) fun _ => ih

theorem determineWorker (provided : Json) : Runs A P (determineWorker cfg s provided) := by
  have hspawn : Runs A P (spawnAndPlace cfg s) := by
    unfold spawnAndPlace
    split
    · exact .pure trivial
    · exact .bind (.step (h.spawn _)) fun _ _ => .bind (h.waitLive _ _) fun _ _ => h.placed
  have hnote : ∀ w, Runs A P (noteAssignment s w) := by
    rintro (- | w)
    · exact .pure trivial
    · exact .ite (fun _ => .pure trivial) fun _ => .step (h.registry _ trivial False.elim)
  have hrest : ∀ w, Runs A P (if w.isNone && cfg.autospawn then pure none else do
      noteAssignment s w
      pure (some ((w.map Json.str).getD .null, AssignedBy.frontend))) := fun w =>
    .ite (fun _ => .pure trivial) fun _ => .bind (hnote w) fun _ _ => .pure trivial
  refine .ite (fun _ => .pure trivial) fun _ => .bind h.placed fun first _ => ?_
  exact .ite (fun _ => .bind hspawn fun w _ => hrest w) fun _ => hrest first

/-- The append is followed by a rollback when it fails. -/
theorem assign (hdeletes : ∀ o a x, o.deletes = some (a, .result x) → P o)
    (record : ResultRecord) : Runs A P (assign cfg s record) := by
  have ht2 : Runs A P (ht2Op cfg s record) :=
    .ite (fun _ => .raise _) fun _ => .bind (h.append _ _) fun _ _ => .pure trivial
  refine .bind (Placing.retryLoop ht2 _).attempt fun y _ => ?_
  cases y with
  | ok y => exact .pure trivial
  | error e => exact .bind (h.resultDelete hdeletes _).attempt fun _ _ => .pure trivial

include law hs in
theorem persist {record : ResultRecord} (hassign : Runs A P (Server.assign cfg s record))
    (hr : φ (.result record.taskId) (.result record)) : Runs A P (persist cfg s record) := by
  have ht1 : Runs A P (ht1Op cfg s record) :=
    .ite (fun _ => .raise _) fun _ => .bind (h.putKept law.toUpdateLaw hs hr) fun _ _ =>
      .pure trivial
  refine .bind (Placing.retryLoop ht1 _).attempt fun x _ => ?_
  cases x with
  | error e => exact .pure trivial
  | ok x => exact hassign

include law hs in
theorem createTask (hassign : ∀ record : ResultRecord, record.workerId ≠ "" →
    Runs A P (Server.assign cfg s record)) (body : Fields) : Runs A P (createTask cfg s body) := by
  refine .ite (fun _ => .pure trivial) fun _ => ?_
  split
  · exact .pure trivial
  · refine .bind (R := fun _ => True) (Serving.lift fun _ _ => trivial) fun taskType _ => ?_
    split
    · exact .pure trivial
    · refine .bind (h.existingRecord _) fun existing _ => ?_
      split
      · exact .pure trivial
      · refine .bind (h.determineWorker _) fun worker _ => ?_
        rcases worker with - | ⟨workerId, assignedBy⟩
        · exact .pure trivial
        · refine .bind (.step h.now) fun now _ => ?_
          split
          · exact .pure trivial
          · exact .raise _
          case h_3 record hbuild =>
            exact h.persist law hs (hassign record (worker_of_build hbuild)) (law.built hbuild)

theorem cleanup (workerId taskId : String) : Runs A P (cleanup s workerId taskId) :=
  .bind (h.remove _ _).attempt fun _ _ => .pure trivial

omit h in
/-- A report, where the record that it makes may be put. -/
theorem completes (h : Placing A P φ ok) {taskId : String} {status result : Json}
    (hput : ∀ st r now, reportedStatus status = .ok (some st) →
      φ (.result (strip taskId)) (.result r) ∨ φ (.result taskId) (.result r) →
      Runs A P (ResultService.put s taskId (completed r st result now))) :
    Runs A P (resultComplete s taskId status result) := by
  refine .bind (R := fun x => reportedStatus status = .ok x) (Serving.lift fun _ hx => hx)
    fun x hx => ?_
  cases x with
  | none => exact .pure trivial
  | some st =>
    refine .bind (h.resultGet taskId) fun existing hexisting => ?_
    cases existing with
    | none => exact .pure trivial
    | some r =>
      refine .bind (.step h.now) fun now _ => ?_
      refine .bind (hput st r now hx (hexisting r rfl)).attempt fun y _ => ?_
      cases y with
      | error e => exact .pure trivial
      | ok y =>
        refine .bind (R := fun _ => True) (.ite (fun _ => .step (h.spawn _))
          fun _ => .pure trivial) fun _ _ => ?_
        exact .bind (.step (h.registry _ trivial fun _ => trivial)) fun _ _ => .pure trivial

omit h in
include updates hs in
theorem resultComplete (h : Placing A P φ ok) (taskId : String) (status : Json) {result : Json}
    (hresult : R result) :
    Runs A P (resultComplete s taskId status result) := by
  refine h.completes fun st r now hst hexisting => ?_
  have hr : φ (.result taskId) (.result r) :=
    hexisting.elim (updates.stripped (strip_strip _)) id
  have hnew : φ (.result taskId) (.result (completed r st result now)) :=
    updates.completed result now hresult (ends_of_reported hst) hr
  exact h.putKept updates hs hnew

include updates in
theorem moveAll (target : ℕ) (pending : List (String × ResultRecord)) (load : Dict String ℕ)
    (hpending : ∀ e ∈ pending, Handling.Listed P φ s e) :
    Runs A P (moveAll s target pending load) := by
  induction pending generalizing load with
  | nil => exact .pure trivial
  | cons e pending ih =>
    obtain ⟨taskId, record⟩ := e
    obtain ⟨⟨hp, hr, hput⟩, hrest⟩ := List.forall_mem_cons.1 hpending
    unfold Server.moveAll
    split
    · exact ih _ hrest
    · have hmove : ∀ b dst, Runs A P (move s taskId record b dst) := by
        intro b dst
        refine .bind (.step (hput _ (updates.reassigned dst hp hr))) fun _ _ => ?_
        have hrest : Runs A P (WorkerAssignment.append s dst taskId >>= fun _ => pure ()) :=
          .bind (h.append _ _) fun _ _ => .pure trivial
        exact .ite (fun _ => .bind (h.remove _ _) fun _ _ => hrest) fun _ => hrest
      refine .bind (hmove _ _).attempt fun x _ => ?_
      cases x with
      | ok x => exact .bind (ih _ hrest) fun _ _ => .pure trivial
      | error e => exact ih _ hrest

/-! ### Recoveries -/

theorem safeGet (taskId : String) : Does A P (safeGet s taskId) fun x => ∀ r ∈ x,
    φ (.result (strip taskId)) (.result r) ∨ φ (.result taskId) (.result r) := by
  refine .bind (h.resultGet taskId).attempt fun x hx => ?_
  cases x with
  | ok r => exact .pure (hx r rfl)
  | error e => exact .pure (by simp)

omit h in
theorem safePut {id : String} {record : ResultRecord}
    (hput : Runs A P (ResultService.put s id record)) : Runs A P (safePut s id record) :=
  .bind hput.attempt fun _ _ => .pure trivial

section Recover

variable (recovery : Law φ R) (hmanager : ∀ a c, P (.manager a c)) {fresh : ResultRecord}
  {failureType : Option FailureType}
  (hput : ∀ {record : ResultRecord}, φ (.result fresh.taskId) (.result record) →
    Runs A P (ResultService.put s fresh.taskId record))

include recovery hput in
theorem executeRetry {live : Bool} (scored : List (String × ℚ)) (now : ℕ)
    (hwaiting : fresh.waiting = false)
    (hpath : chooseRecoveryPath fresh failureType live = .retryDifferent)
    (hr : φ (.result fresh.taskId) (.result fresh)) :
    Runs A P (executeRetry s fresh .retryDifferent failureType scored now) := by
  refine .bind (R := fun _ => True) (.pure trivial) fun worker _ => ?_
  cases worker with
  | none =>
    refine .bind (.step h.now) fun time _ => safePut (hput ?_)
    exact recovery.waits _ _ hwaiting (by rw [hpath]; decide) (.inr rfl) hr
  | some worker =>
    refine .bind (safePut (hput (recovery.requeued now worker hwaiting hpath hr))) fun _ _ => ?_
    refine .bind (R := fun _ => True) (.ite (fun _ => .bind (h.remove _ _).attempt
      fun _ _ => .pure trivial) fun _ => .pure trivial) fun _ _ => ?_
    exact .bind (h.append _ _).attempt fun _ _ => .pure trivial

include recovery hmanager hput in
/-- What is done about a record, where what is made of it may be put. -/
theorem recoverFresh (hwaiting : fresh.waiting = false)
    (hr : φ (.result fresh.taskId) (.result fresh)) :
    Runs A P (recoverFresh cfg s fresh failureType) := by
  refine .bind (.step (h.registry _ trivial False.elim)) fun scored _ => ?_
  have hspawn : Runs A P (spawnWorker cfg s) := by
    refine .bind (.step (hmanager _ _)) fun due _ => .ite (fun _ => ?_) fun _ => .pure trivial
    exact .bind (.step (h.spawn _)) fun _ _ => .pure trivial
  have hrest : ∀ justSpawned, Runs A P (execute s fresh (chooseRecoveryPath fresh failureType
      !scored.isEmpty) failureType scored justSpawned) := by
    intro justSpawned
    refine .bind (.step h.now) fun now _ => ?_
    cases hpath : chooseRecoveryPath fresh failureType !scored.isEmpty with
    | giveUp => exact safePut (hput (recovery.gaveUp now hwaiting hpath hr))
    | waitAndRetry =>
      refine .bind (.step h.now) fun time _ => safePut (hput ?_)
      exact recovery.waits _ _ hwaiting (by rw [hpath]; decide) (.inl rfl) hr
    | retryDifferent => exact h.executeRetry recovery hput scored now hwaiting hpath hr
    | retrySame => exact absurd hpath (chooseRecoveryPath_ne_retrySame _ _ _)
  exact .ite (fun _ => .bind hspawn fun justSpawned _ => hrest justSpawned) fun _ => hrest false

end Recover

/-! ### Requests of workers -/

/-- What is asked of the answer of a handler is asked of what the request ends with. -/
theorem callOnce {α : Type} {a : Address} {c : Call} {handler : M α} {Q : α → Prop}
    (hh : Does A P handler Q) : Does A P (callOnce a c handler) fun x => ∀ y ∈ x, Q y := by
  refine .bind (.step (h.deliver _ _)) fun d _ => ?_
  cases d with
  | delivered =>
    refine .bind hh.attempt fun x hx => ?_
    cases x with
    | ok y =>
      refine .pure fun z hz => ?_
      cases hz
      exact hx y rfl
    | error e => exact .pure (by simp)
  | lost => exact .pure (by simp)
  | replyLost => exact .bind hh.attempt fun _ _ => .pure (by simp)

theorem fetchAssigned (p : Process) : Runs A P (fetchAssigned s p) :=
  .bind (h.callOnce (h.assignmentGet _)) fun _ _ => .pure trivial

theorem fetchRecord (taskId : String) : Does A P (fetchRecord s taskId) fun x => ∀ r ∈ x,
    φ (.result (strip taskId)) (.result r) ∨ φ (.result taskId) (.result r) := by
  refine .bind (h.callOnce (h.resultGet taskId)) fun x hx => .pure fun r hr => ?_
  cases x with
  | none => cases hr
  | some y => exact hx y rfl r hr

end Placing

namespace Handling

variable {A : (o : Op) → o.Res → Prop} {P : Op → Prop} {φ : Key → Value → Prop}
  {ok : Service → Prop} {credits : Prop} {R : Json → Prop} (h : Handling A P φ ok credits)
  (updates : UpdateLaw φ R)
  {s : Service}

include h

/-! ### Rebalances -/

/-- The pending records are kept under the ids they are listed with. -/
theorem pendingRecords (keys : List Key)
    (hkeys : ∀ k ∈ keys, ∀ v, φ k v → P (.put s.node.address k v)) :
    Does A P (pendingRecords s keys) fun l => ∀ e ∈ l, Listed P φ s e := by
  induction keys with
  | nil => exact .pure (by simp)
  | cons k keys ih =>
    obtain ⟨hk, hrest⟩ := List.forall_mem_cons.1 hkeys
    cases k with
    | result id =>
      refine .bind (R := fun x : Option Value => ∀ v ∈ x, φ (.result id) v)
        (.perform (h.get _ _).1 fun x hx v hv => (h.get _ _).2 v (hv ▸ hx)) fun value hvalue => ?_
      refine .bind (ih hrest) fun rest hl => ?_
      split
      · refine .ite (fun hp => .pure ?_) fun _ => .pure hl
        exact List.forall_mem_cons.2 ⟨⟨hp, hvalue _ rfl, hk⟩, hl⟩
      · exact .pure hl
    | _ => exact ih hrest

include updates in
theorem doRebalance : Runs A P (doRebalance s) := by
  refine .bind (.step (h.registry _ trivial False.elim)) fun live _ =>
    .ite (fun _ => .pure trivial) fun _ => ?_
  refine .bind (.perform (h.items _).1 (h.items _).2) fun items hitems => ?_
  refine .bind (h.pendingRecords (s := s) _ ?_) fun pending hp => ?_
  · intro k hk
    obtain ⟨e, he, rfl⟩ := List.mem_map.1 hk
    exact (hitems e he).2
  · exact .ite (fun _ => .pure trivial) fun _ =>
      .bind (h.moveAll updates _ _ _ hp) fun _ _ => .pure trivial

theorem allHt1Records : Does A P (allHt1Records s) fun l =>
    ∀ r ∈ l, ∃ x, φ (.result x) (.result r) := by
  refine .bind (.perform (Q := fun l : List (Key × Value) => ∀ e ∈ l, φ e.1 e.2) (h.items _).1
    fun l hl e he => ((h.items _).2 l hl e he).1) fun items hitems => .pure fun r hr => ?_
  obtain ⟨⟨k, v⟩, he, hr⟩ := List.mem_filterMap.1 hr
  split at hr
  case h_1 x record heq =>
    cases heq
    cases hr
    exact ⟨x, hitems _ he⟩
  case h_2 => cases hr

end Handling

/-! ### Detectors -/

section Detectors

variable {B : (o : ScanOp) → Except Exc o.Val → Prop} {R : ScanOp → Prop}
  (hR : ∀ o, (∀ record, o ≠ .retry record) → R o)

include hR

/-- What the detectors perform: anything but a retry. -/
theorem detects (o : ScanOp) (ho : ∀ record, o ≠ .retry record) :
    Does B R (Scan.act o) fun _ => True := .invoke (hR o ho)

theorem detects_recover (record : ResultRecord) (failureType : FailureType) :
    Does B R (Scan.act (.recover record failureType)) fun _ => True :=
  detects hR (.recover record failureType) fun _ h => (by cases h)

theorem detects_takeUps (p : ResultRecord → Bool) (failureType : FailureType) :
    Does B R (Scan.act .records >>= fun records =>
      each (RecoveryManager.takeUp p failureType) records) fun _ => True :=
  .bind (detects hR .records fun _ h => (by cases h)) fun _ _ => .each fun _ _ =>
    .ite (fun _ => detects_recover hR _ _) fun _ => .pure trivial

theorem detects_workerCrashes (o : SetOrder) :
    Does B R (RecoveryManager.detectWorkerCrashes o) fun _ => True := by
  refine .bind (detects hR .liveWorkers fun _ h => (by cases h)) fun live _ => ?_
  refine .bind (detects hR .allWorkers fun _ h => (by cases h)) fun seen _ => .each fun w _ => ?_
  refine .bind (detects hR (.assigned w) fun _ h => (by cases h)) fun taskIds _ =>
    .each fun taskId _ => ?_
  refine .bind (detects hR (.read taskId) fun _ h => (by cases h)) fun record _ => ?_
  cases record with
  | none => exact .pure trivial
  | some record => exact .ite (fun _ => detects_recover hR _ _) fun _ => .pure trivial

theorem detects_stuckTasks : Does B R RecoveryManager.detectStuckTasks fun _ => True := by
  refine .bind (detects hR .records fun _ h => (by cases h)) fun records _ =>
    .each fun record _ => ?_
  refine .ite (fun _ => ?_) fun _ => .pure trivial
  refine .bind (detects hR (.isLive _) fun _ h => (by cases h)) fun live _ => ?_
  exact .ite (fun _ => .pure trivial) fun _ => detects_recover hR _ _

end Detectors

namespace Acting

variable {A : (o : Op) → o.Res → Prop} {P : Op → Prop} {φ : Key → Value → Prop}
  {ok : Service → Prop} {credits : Prop} {R : Json → Prop} (h : Acting A P φ ok credits)
  (law : Law φ R) {cfg : Config}
  {s : Service} (hs : ok s)

include h

theorem heartbeat (workerId : String) (pendingTasks : ℤ) (timestamp : Option ℤ)
    (processToken : Option String) :
    Runs A P (heartbeat s workerId pendingTasks timestamp processToken) :=
  .ite (fun _ => .pure trivial) fun hname =>
    .bind (.step (h.named _ hname False.elim)) fun _ _ => .pure trivial

theorem killWorker (workerId : String) : Runs A P (killWorker s workerId) :=
  .bind (.step (h.named _ (c := .remove workerId) trivial False.elim)) fun _ _ => .step (h.manager _ _)

/-! ### Recovery -/

include law hs in
theorem attemptRecovery (record : ResultRecord) (failureType : Option FailureType) :
    Runs A P (attemptRecovery cfg s record failureType) := by
  refine .ite (fun _ => .pure trivial) fun _ => .bind (.step (h.manager _ _)) fun claimed _ => ?_
  refine .ite (fun _ => ?_) fun _ => .pure trivial
  refine .bind (R := fun _ => True) (.mono (.attempt (Q := fun _ => True) ?_) fun _ _ => trivial)
    fun _ _ => .step (h.manager _ _)
  refine .bind (h.safeGet _) fun fresh hfresh => ?_
  cases fresh with
  | none => exact .pure trivial
  | some fresh =>
    refine .ite (fun _ => .pure trivial) fun hgo => ?_
    have hr : φ (.result fresh.taskId) (.result fresh) := (hfresh fresh rfl).elim law.own law.own
    exact h.recoverFresh law h.manager (h.putKept law.toUpdateLaw hs)
      (by simpa using (not_or.1 hgo).1) hr

include law hs in
theorem retryWaiting {record : ResultRecord} {x : String}
    (hr : φ (.result x) (.result record)) : Runs A P (retryWaiting cfg s record) := by
  refine .bind (.step h.now) fun now _ => .bind (R := fun _ => True) ?_ fun _ _ =>
    h.attemptRecovery law hs _ _
  exact Placing.safePut (h.putKept law.toUpdateLaw hs (law.cleared now (law.own hr)))

include law hs in
theorem scanOp (o : ScanOp) (ho : ScanOp.Fits φ o) :
    Does A P (o.program cfg s) (ScanOp.Ends φ o) := by
  cases o with
  | liveWorkers => exact .step (h.registry _ trivial False.elim)
  | allWorkers => exact .step (h.registry _ trivial False.elim)
  | isLive w => exact .step (h.registry _ trivial False.elim)
  | assigned w => exact h.assignmentGet w
  | read taskId => exact (h.safeGet taskId).mono fun _ _ => trivial
  | records => exact h.allHt1Records
  | now => exact .step h.now
  | recover record failureType => exact h.attemptRecovery law hs _ _
  | retry record =>
    obtain ⟨x, hx⟩ := ho
    exact h.retryWaiting law hs hx

include law hs in
/-- Every operation of a scan is one of those in `P`. -/
theorem scan (o : SetOrder) :
    Runs A P (expand (ScanOp.program cfg s) (RecoveryManager.scan o)) := by
  refine .expand (ScanOp.Fits φ) (ScanOp.Ends φ) (h.scanOp law hs) ?_
  have hfits : ∀ o : ScanOp, (∀ record, o ≠ .retry record) → ScanOp.Fits φ o := by
    intro o ho
    cases o with
    | retry record => exact absurd rfl (ho record)
    | _ => trivial
  refine .bind (detects_workerCrashes hfits o) fun _ _ => .bind (detects_takeUps hfits _ _)
    fun _ _ => .bind (detects_takeUps hfits _ _) fun _ _ =>
    .bind (detects_stuckTasks hfits) fun _ _ => .bind (.invoke trivial) fun now _ => ?_
  refine .bind (R := fun l => ∀ r ∈ l, ∃ x, φ (.result x) (.result r))
    (.call (o := ScanOp.records) trivial fun _ ha => ha) fun records hrecords =>
      .each fun record hmem => ?_
  exact .ite (fun _ => .invoke (hrecords record hmem)) fun _ => .pure trivial

include law hs in
theorem trigger (o : SetOrder) : Runs A P (RecoveryManager.trigger cfg s o) :=
  .bind (h.scan law hs o).attempt fun _ _ => .pure trivial

/-! ### Task workers -/

theorem sendHeartbeat (hmemory : ∀ p c, P (.memory p c)) (p : Process) :
    Runs A P (sendHeartbeat s p) := by
  refine .bind (.step (hmemory _ _)) fun pending _ => .bind (.step h.now) fun now _ => ?_
  exact .bind (h.callOnce (h.heartbeat _ _ _ _)) fun _ _ => .pure trivial

theorem heartbeatLoop (hmemory : ∀ p c, P (.memory p c)) (p : Process) (n : ℕ) :
    Runs A P (heartbeatLoop s p n) := by
  induction n with
  | zero => exact .pure trivial
  | succ n ih => exact .bind (h.sendHeartbeat hmemory p) fun _ _ => ih

end Acting

/-! ### Reports -/

namespace Acting

variable {A : (o : Op) → o.Res → Prop} {P : Op → Prop} {φ : Key → Value → Prop}
  {ok : Service → Prop} {R : Json → Prop} (h : Acting A P φ ok) (law : Law φ R) {s : Service}
  (hs : ok s)

include h

include law hs in
theorem report (taskId status : String) {result : Json} (hresult : R result) :
    Runs A P (report s taskId status result) := by
  suffices htries : ∀ n, Runs A P (reportTries s taskId status result n) from htries _
  intro n
  induction n with
  | zero => exact .pure trivial
  | succ n ih =>
    refine .bind (h.callOnce (h.resultComplete law.toUpdateLaw hs _ _ hresult)) fun x _ => ?_
    split
    · exact .pure trivial
    · exact ih

variable (houtcomes : ∀ e, R (outcome e).2) {p : Process}

include law hs houtcomes in
theorem executeAndReport {taskId : String} {record : ResultRecord}
    (hbegin : P (.memory p (.begin taskId))) (hexecute : P (.execute p taskId record))
    (hfinish : P (.memory p (.finish taskId))) :
    Runs A P (executeAndReport s p taskId record) := by
  refine .bind (.step hbegin) fun _ _ => .bind (.step hexecute) fun result _ => ?_
  exact .bind (h.report law hs _ _ (houtcomes result)) fun _ _ => .step hfinish

include law hs houtcomes in
theorem startTask {taskId : String} {record : ResultRecord}
    (hbegin : P (.memory p (.begin taskId))) (hexecute : P (.execute p taskId record))
    (hfinish : P (.memory p (.finish taskId))) : Runs A P (startTask s p taskId record) :=
  .ite (fun _ => .bind (.step hbegin) fun _ _ => .step (h.spawn _)) fun _ =>
    h.executeAndReport law hs houtcomes hbegin hexecute hfinish

/-! ### Whole workers -/

variable (hmemory : ∀ p c, P (.memory p c)) (hexecute : ∀ p id r, P (.execute p id r))

include law hs houtcomes hmemory hexecute

theorem pollTick (p : Process) : Runs A P (pollTick s p) := by
  refine .expand (fun _ => True) (fun _ _ => True) (fun o _ => ?_) ?_
  · cases o with
    | assigned => exact h.fetchAssigned p
    | record t => exact (h.fetchRecord t).mono fun _ _ => trivial
    | full => exact .ite (fun _ => .step (hmemory _ _)) fun _ => .pure trivial
    | hasSeen t => exact .step (hmemory _ _)
    | see t => exact .step (hmemory _ _)
    | start t r => exact h.startTask law hs houtcomes (hmemory _ _) (hexecute _ _ _) (hmemory _ _)
  · have hcall : ∀ o : PollOp, Does (fun (o : PollOp) (x : Except Exc o.Val) =>
        ∀ a, x = .ok a → True) (fun _ => True) (Poll.act o) fun _ => True :=
      fun o => .call trivial fun _ _ => trivial
    refine .bind (hcall .assigned) fun taskIds _ => ?_
    induction taskIds with
    | nil => exact .pure trivial
    | cons t taskIds ih =>
      refine .bind (hcall .full) fun full _ => .ite (fun _ => .pure trivial) fun _ => ?_
      refine .bind (R := fun _ => True) (.bind (hcall (.record t)) fun record _ => ?_)
        fun _ _ => ih
      cases record with
      | none => exact .pure trivial
      | some r =>
        refine .ite (fun _ => ?_) fun _ => hcall (.see t)
        refine .bind (hcall (.hasSeen t)) fun seen _ => .ite (fun _ => .pure trivial) fun _ => ?_
        exact .bind (hcall (.see t)) fun _ _ => hcall (.start t r)

theorem runWorker (p : Process) (n : ℕ) : Runs A P (runWorker s p n) := by
  refine .bind (h.sendHeartbeat hmemory p) fun _ _ => ?_
  have hrecover : Runs A P (recoverPendingTasks s p) := by
    refine .bind (h.fetchAssigned p) fun taskIds _ => .each fun t _ => ?_
    refine .bind (.step (hmemory _ _)) fun _ _ => .bind (h.fetchRecord t) fun record _ => ?_
    cases record with
    | none => exact .pure trivial
    | some r =>
      exact .ite (fun _ => h.executeAndReport law hs houtcomes (hmemory _ _) (hexecute _ _ _)
        (hmemory _ _))
        fun _ => .pure trivial
  refine .bind hrecover.attempt fun _ _ => ?_
  induction n with
  | zero => exact .pure trivial
  | succ n ih => exact .bind (h.pollTick law hs houtcomes hmemory hexecute p).attempt fun _ _ => ih

end Acting

/-! ### Workers with a ghost state -/

/-- What a worker process is made of keeps an invariant of its ghost state. -/
structure Toils {G : Type} (note : G → (o : Op) → o.Res → G) (A : (o : Op) → o.Res → Prop)
    (P : G → Op → Prop) (I : G → Prop) (s : Service) (p : Process) : Prop where
  assigned : Under note A P I (fetchAssigned s p) fun _ => True
  record : ∀ taskId, Under note A P I (fetchRecord s taskId) fun _ => True
  memory : ∀ c, c ≠ .pending → Under note A P I (act (.memory p c)) fun _ => True
  spawn : ∀ taskId r, Under note A P I (act (.spawn (.execute p taskId r))) fun _ => True
  execute : ∀ taskId r, Under note A P I (executeAndReport s p taskId r) fun _ => True
  beat : Under note A P I (sendHeartbeat s p) fun _ => True

namespace Toils

variable {G : Type} {note : G → (o : Op) → o.Res → G} {A : (o : Op) → o.Res → Prop}
  {P : G → Op → Prop} {I : G → Prop} {s : Service} {p : Process} (h : Toils note A P I s p)

include h

theorem startTask (taskId : String) (record : ResultRecord) :
    Under note A P I (startTask s p taskId record) fun _ => True :=
  .ite (fun _ => .bind (h.memory (.begin taskId) (by simp)) fun _ _ => h.spawn taskId record)
    fun _ => h.execute taskId record

theorem pollTick : Under note A P I (pollTick s p) fun _ => True := by
  refine .expand (fun _ => True) (fun _ _ => True) (fun o _ => ?_) (.any _)
  cases o with
  | assigned => exact h.assigned
  | record t => exact h.record t
  | full => exact .ite (fun _ => h.memory _ (by simp)) fun _ => .pure trivial
  | hasSeen t => exact h.memory _ (by simp)
  | see t => exact h.memory _ (by simp)
  | start t r => exact h.startTask t r

theorem recoverPendingTasks : Under note A P I (recoverPendingTasks s p) fun _ => True := by
  refine .bind h.assigned fun taskIds _ => ?_
  induction taskIds with
  | nil => exact .pure trivial
  | cons t taskIds ih =>
    refine .bind (R := fun _ => True) ?_ fun _ _ => ih
    refine .bind (h.memory (.see t) (by simp)) fun _ _ => .bind (h.record t) fun record _ => ?_
    cases record with
    | none => exact .pure trivial
    | some r => exact .ite (fun _ => h.execute t r) fun _ => .pure trivial

/-- **A worker process keeps the invariant**, whatever its concurrency. -/
theorem runWorker (n : ℕ) : Under note A P I (runWorker s p n) fun _ => True := by
  refine .bind h.beat fun _ _ => .bind h.recoverPendingTasks.attempt fun _ _ => ?_
  induction n with
  | zero => exact .pure trivial
  | succ n ih => exact .bind h.pollTick.attempt fun _ _ => ih

omit h in
theorem heartbeatLoop (hbeat : Under note A P I (sendHeartbeat s p) fun _ => True) (n : ℕ) :
    Under note A P I (heartbeatLoop s p n) fun _ => True := by
  induction n with
  | zero => exact .pure trivial
  | succ n ih => exact .bind hbeat fun _ _ => ih

end Toils

end Server
end ChordInfra
