/-
# What a hard delete leaves behind

`TaskService.deregister_task` with `hard_delete=True` deletes the record at the owner and then asks
each replica to delete its copy; a replica that fails is logged and passed over.  A read that finds
nothing at the owner asks the replicas, and so does the conflict check of `register_task`.  So one
copy left behind is the task again: it is read at every node, and its id stays taken
(`FixedRing.vacant_iff`).  `delete_replicas` says that such a copy stays until the next
stabilization sweep, but nothing deletes copies later.

The removal may run under any failures; afterwards the ring is fixed and no request fails
(`FixedRing`).  `Later` is what may happen afterwards: any calls of the task service, at any nodes,
but a registration of the id, and whatever else that leaves the copies under the key alone.
-/

import ChordInfra.Storage.Addressing
import ChordInfra.Storage.Interference
import ChordInfra.Storage.TaskMap

namespace ChordInfra
namespace Storage

open Interact Prog
open ChordInfra.Ring (NodeRef)
open Replication

/-! ### A read without a primary -/

section Reads

variable {env : Env} {w w' : World} {s : Service} {taskId : Json} {id : String}

/-- What a replica shows of a key. -/
def World.copy (w : World) (id : String) (n : NodeRef) : Option TaskRecord :=
  ((w.stores n.address).get (.task id)).bind Value.asTask

/-- **The replicas are read in turn**: the first copy is what is found. -/
theorem FixedRing.run_firstCopy (ring : FixedRing env) (id : String) (nodes : List NodeRef)
    (w : World) :
    (run env (firstFound (.task id) nodes) w).1 =
      .ok ((nodes.findSome? (w.copy id)).map Value.task) := by
  induction nodes generalizing w with
  | nil => rfl
  | cons n nodes ih =>
    obtain ⟨hok, hstores⟩ := ring.run_request n.address (.getReplica (.task id)) w
    have hanswer : World.answer env w n.address (.getReplica (.task id)) =
        (w.copy id n).map Value.task := by
      unfold World.copy
      cases h : (w.stores n.address).get (.task id) <;> simp [World.answer, h]
    have hcopy : (run env (Transport.request n.address (.getReplica (.task id))) w).2.copy id =
        w.copy id := by
      unfold World.copy
      rw [hstores]
      rfl
    unfold firstFound
    rw [run_attempt_bind, hok, hanswer, List.findSome?_cons]
    cases hn : w.copy id n with
    | some r => rfl
    | none => exact (ih _).trans (by rw [hcopy])

/-- **Without a primary the first copy is read.** -/
theorem FixedRing.run_getTask_copies (ring : FixedRing env) (hs : s.node ∈ ring.members)
    (hid : TaskMap.idOf taskId = .ok id)
    (hnone : (w.stores (ring.owner (.task id)).address).get (.task id) = none) :
    (run env (TaskService.getTask s taskId true) w).1 =
      .ok ((ring.replicas s.replicationK (ring.owner (.task id))).findSome? (w.copy id)) := by
  have hkey : buildTaskKey taskId = .ok (.task id) := by
    rw [buildTaskKey_eq, hid]
    rfl
  obtain ⟨howner, hstores₁⟩ := ring.resolves hs (.task id) w
  obtain ⟨hget, hstores₂⟩ := ring.run_tryGetOnNode hs (.task id) (run env (s.owner (.task id)) w).2
  rw [hstores₁, hnone] at hget
  rw [hstores₁] at hstores₂
  generalize hw₂ : (run env (s.tryGetOnNode (ring.owner (.task id)) (.task id))
    (run env (s.owner (.task id)) w).2).2 = w₂ at hstores₂
  obtain ⟨hreplicas, hstores₃⟩ :=
    ring.run_getReplicas s.replicationK (ring.owner (.task id)) w₂
  have hcopy : (run env (getReplicas s.replicationK (ring.owner (.task id))) w₂).2.copy id =
      w.copy id := by
    unfold World.copy
    rw [hstores₃, hstores₂]
  have hread : (run env (readFromReplicas s.replicationK (.task id) (ring.owner (.task id))) w₂).1 =
      .ok (((ring.replicas s.replicationK (ring.owner (.task id))).findSome? (w.copy id)).map
        Value.task) := by
    unfold readFromReplicas
    rw [run_bind hreplicas, ring.run_firstCopy, hcopy]
  unfold TaskService.getTask
  rw [hkey, run_lift_ok_bind, run_bind howner, run_bind hget, hw₂]
  change (run env (readFromReplicas _ _ _ >>= _) w₂).1 = _
  rw [run_bind hread]
  cases (ring.replicas s.replicationK (ring.owner (.task id))).findSome? (w.copy id) <;> rfl

end Reads

/-! ### An id without a record -/

section Gone

variable {env : Env} {w w' : World} {s : Service} {taskId : Json} {id : String} {k : ℕ}

/-- The owner has nothing under the key of the task and no replica has a copy. -/
structure Gone (ring : FixedRing env) (k : ℕ) (id : String) (w : World) : Prop where
  owner : (w.stores (ring.owner (.task id)).address).get (.task id) = none
  copies : ∀ n ∈ ring.replicas k (ring.owner (.task id)), w.copy id n = none

/-- What is under the key of the task is the same at every node. -/
def World.SameTask (id : String) (w w' : World) : Prop :=
  ∀ a, (w'.stores a).get (.task id) = (w.stores a).get (.task id)

theorem World.SameTask.of_stores (h : w'.stores = w.stores) : w.SameTask id w' :=
  fun _ => by rw [h]

theorem Gone.same {ring : FixedRing env} (h : Gone ring k id w) (hsame : w.SameTask id w') :
    Gone ring k id w' := by
  refine ⟨(hsame _).trans h.owner, fun n hn => ?_⟩
  unfold World.copy
  rw [hsame]
  exact h.copies n hn

theorem Gone.findSome? {ring : FixedRing env} (h : Gone ring k id w) :
    (ring.replicas k (ring.owner (.task id))).findSome? (w.copy id) = none :=
  List.findSome?_eq_none_iff.2 h.copies

/-- A record that is gone is not read. -/
theorem Gone.run_getTask {ring : FixedRing env} (h : Gone ring s.replicationK id w)
    (hs : s.node ∈ ring.members) (hid : TaskMap.idOf taskId = .ok id) :
    (run env (TaskService.getTask s taskId true) w).1 = .ok none := by
  rw [ring.run_getTask_copies hs hid h.owner, h.findSome?]

/-- The head of `update_task` and `deregister_task` raises for an id without a record. -/
theorem Gone.run_existing {ring : FixedRing env} (h : Gone ring s.replicationK id w)
    (hs : s.node ∈ ring.members) {α : Type} {taskId : String}
    (hid : TaskMap.idOf (.str taskId) = .ok id) (f : Key → NodeRef → TaskRecord → M α) :
    ∃ w', run env (lift (buildTaskKey (.str taskId)) >>= fun key => s.owner key >>= fun primary =>
        TaskService.existingTask s taskId >>= fun existing => f key primary existing) w =
          (.error (.taskNotFound ("task not found: " ++ taskId)), w') ∧
      w'.stores = w.stores := by
  have hkey : buildTaskKey (.str taskId) = .ok (.task id) := by
    rw [buildTaskKey_eq, hid]
    rfl
  obtain ⟨howner, hstores⟩ := ring.resolves hs (.task id) w
  have hget := (h.same (.of_stores hstores)).run_getTask hs hid
  have hraise : (run env (TaskService.existingTask s taskId) (run env (s.owner (.task id)) w).2).1 =
      .error (.taskNotFound ("task not found: " ++ taskId)) := by
    unfold TaskService.existingTask
    rw [run_bind hget]
    rfl
  rw [hkey, run_lift_ok_bind, run_bind howner]
  exact ⟨_, run_bind_error hraise, ((Only.existingTask s taskId).stores env _).trans hstores⟩

end Gone

/-! ### Calls after the removal -/

/-- The call registers the id: its input names it, or names none and the fresh id is it. -/
def TaskCall.Registers (fresh id : String) : TaskCall → Prop
  | .register taskInput =>
    TaskMap.idOf (if (taskInput.getD "task_id" .null).truthy then taskInput.getD "task_id" .null
      else .str fresh) = .ok id
  | _ => False

section Calls

variable {env : Env} {w w' : World} {s : Service} {taskId : Json} {id : String} {k : ℕ}

/-- What is done about another id leaves the copies of the task alone. -/
theorem sameTask_of_about {α : Type} {p : M α} {taskId : String}
    (hp : Only (Op.About .tasks taskId) p) (hne : strip taskId ≠ id) (env : Env) (w : World) :
    w.SameTask id (run env p w).2 := by
  have hother : ∀ k, k = Table.key .tasks taskId ∨ k = Table.copy .tasks taskId → k ≠ .task id := by
    rintro k (rfl | rfl) hk
    · exact hne (Key.task.inj hk)
    · exact hne (Key.task.inj hk)
  intro a
  refine Only.get_eq env (nobody_keep _) (hp.mono fun o ho => ⟨?_, ?_⟩) w
  · exact fun v hv => hother _ (ho.writes hv) rfl
  · exact fun hd => hother _ (ho.deletes hd) rfl

/-- The conflict check and the choice of an id change no store, and go on with the id of the input,
or the fresh one where it names none. -/
theorem run_candidate_reads (s : Service) (taskId : Json) {α : Type} (f : Json → M α) (w : World) :
    (∃ e w', run env (TaskService.checkConflict s taskId) w = (.error e, w') ∧
      run env (TaskService.checkConflict s taskId >>= fun _ =>
        TaskService.candidateId taskId >>= f) w = (.error e, w') ∧ w'.stores = w.stores) ∨
    ∃ w', run env (TaskService.checkConflict s taskId >>= fun _ =>
        TaskService.candidateId taskId >>= f) w =
          run env (f (if taskId.truthy then taskId else .str (env.newId w.trace.length))) w' ∧
      w'.stores = w.stores := by
  have hreads : Only Op.Reads (TaskService.checkConflict s taskId) := by
    unfold TaskService.checkConflict
    refine .ite (.bind (.getTask _ _ _) fun existing => ?_) (.pure _)
    cases existing with
    | some record => exact .ite (.pure _) (.raise _)
    | none => exact .pure _
  have hstores := hreads.stores env w
  generalize hrun : run env (TaskService.checkConflict s taskId) w = r at hstores
  obtain ⟨x, w'⟩ := r
  cases x with
  | error e => exact .inl ⟨e, w', rfl, run_bind_eq_error hrun, hstores⟩
  | ok u =>
    refine .inr ?_
    rw [run_bind_eq_ok hrun]
    unfold TaskService.candidateId
    by_cases ht : taskId.truthy = true
    · simp only [if_pos ht]
      exact ⟨w', rfl, hstores⟩
    · have hnothing : w' = w := by
        unfold TaskService.checkConflict at hrun
        rw [if_neg ht] at hrun
        exact (congrArg Prod.snd hrun).symm
      simp only [if_neg ht, hnothing]
      exact ⟨(handle env .newId w).2, rfl, rfl⟩

/-- **A registration of another id leaves the copies of the task alone.** -/
theorem FixedRing.sameTask_register (ring : FixedRing env) (hs : s.node ∈ ring.members)
    {taskInput : Fields} (hno : ¬(TaskCall.register taskInput).Registers (env.newId w.trace.length) id) :
    w.SameTask id (run env (TaskService.registerTask s taskInput) w).2 := by
  rw [registerTask_eq]
  rcases run_candidate_reads s (taskInput.getD "task_id" .null) (TaskService.registerAs s taskInput) w
    with ⟨e, w₁, -, hrun, hstores⟩ | ⟨w₁, hrun, hstores⟩
  · rw [hrun]
    exact .of_stores hstores
  · rw [hrun]
    generalize hcand : (if (taskInput.getD "task_id" .null).truthy = true then
      taskInput.getD "task_id" .null else .str (env.newId w.trace.length)) = candidate
    have hno' : TaskMap.idOf candidate ≠ .ok id := hcand ▸ hno
    cases hid : TaskMap.idOf candidate with
    | error e =>
      have hraise : run env (TaskService.registerAs s taskInput candidate) w₁ = (.error e, w₁) := by
        unfold TaskService.registerAs
        rw [buildTaskKey_eq, hid]
        rfl
      rw [hraise]
      exact .of_stores hstores
    | ok id' =>
      have hne : id ≠ id' := fun h => hno' (h ▸ hid)
      obtain ⟨created, updated, herror, hok⟩ := ring.run_registerAs hs hid taskInput w₁
      cases hnew : createTaskRecord taskInput (ring.owner (.task id')) s.replicationK id' created with
      | error e =>
        obtain ⟨w₂, hraise, hstores₂⟩ := herror e hnew
        rw [hraise]
        exact .of_stores (hstores₂.trans hstores)
      | ok r =>
        obtain ⟨report, w₂, hstore, hget⟩ := hok r hnew
        rw [hstore]
        intro a
        rw [hget, if_neg (fun h => hne (Key.task.inj h.2)), hstores]

/-- **A record that is gone stays gone**, unless it is registered again. -/
theorem Gone.step {ring : FixedRing env} (h : Gone ring s.replicationK id w)
    (hs : s.node ∈ ring.members) (hne : id ≠ "") {call : TaskCall}
    (hno : ¬call.Registers (env.newId w.trace.length) id) :
    Gone ring s.replicationK id (run env (call.program s) w).2 := by
  have hidOf : ∀ taskId, strip taskId = id → TaskMap.idOf (.str taskId) = .ok id := by
    rintro taskId rfl
    exact if_neg hne
  cases call with
  | register taskInput =>
    have hsame := ring.sameTask_register hs hno
    generalize hrun : run env (TaskService.registerTask s taskInput) w = r at hsame
    obtain ⟨x, w'⟩ := r
    rw [TaskCall.program]
    cases x with
    | ok written =>
      rw [run_bind_eq_ok hrun]
      exact h.same hsame
    | error e =>
      rw [run_bind_eq_error hrun]
      exact h.same hsame
  | get taskId allow =>
    have hreads : Only Op.Reads ((TaskCall.get taskId allow).program s) :=
      .bind (.getTask _ _ _) fun _ => .pure _
    exact h.same (.of_stores (hreads.stores env w))
  | update taskId patch =>
    by_cases hid : strip taskId = id
    · obtain ⟨w', hrun, hstores⟩ := h.run_existing hs (hidOf taskId hid) fun key primary existing =>
        if existing.status = .deleted then raise (.taskValidation "cannot update a deleted task")
        else act .now >>= fun now => lift (existing.update patch now) >>= fun updated =>
          TaskService.store s key primary updated
      have hrun' : run env (TaskService.updateTask s taskId patch) w = _ := hrun
      rw [TaskCall.program, run_bind_eq_error hrun']
      exact h.same (.of_stores hstores)
    · have hp : Only (Op.About .tasks taskId) ((TaskCall.update taskId patch).program s) :=
        .bind (about_updateTask s taskId patch) fun _ => .pure _
      exact h.same (sameTask_of_about hp hid env w)
  | deregister taskId hardDelete =>
    by_cases hid : strip taskId = id
    · obtain ⟨w', hrun, hstores⟩ := h.run_existing hs (hidOf taskId hid) fun key primary existing =>
        if hardDelete = true then s.deleteOnNode primary key >>= fun _ =>
          deleteReplicas s.replicationK key primary >>= fun deleted =>
            pure (Deregistered.hard deleted)
        else act .now >>= fun now =>
          TaskService.store s key primary (existing.markDeleted now) >>= fun written =>
            pure (Deregistered.soft written)
      have hrun' : run env (TaskService.deregisterTask s taskId hardDelete) w = _ := hrun
      rw [TaskCall.program, run_bind_eq_error hrun']
      exact h.same (.of_stores hstores)
    · have hp : Only (Op.About .tasks taskId) ((TaskCall.deregister taskId hardDelete).program s) :=
        .bind (about_deregisterTask s taskId hardDelete) fun x => by
          cases x <;> exact .pure _
      exact h.same (sameTask_of_about hp hid env w)

/-- What may happen once a call has returned: calls of the task service that do not register the id,
and anything else that leaves the copies of the task alone. -/
inductive Later (ring : FixedRing env) (k : ℕ) (id : String) (w : World) : World → Prop
  | refl : Later ring k id w w
  | call {w₁ : World} (h : Later ring k id w w₁) (s : Service) (hs : s.node ∈ ring.members)
      (hk : s.replicationK = k) (call : TaskCall)
      (hno : ¬call.Registers (env.newId w₁.trace.length) id) :
      Later ring k id w (run env (call.program s) w₁).2
  | other {w₁ w₂ : World} (h : Later ring k id w w₁) (hsame : w₁.SameTask id w₂) :
      Later ring k id w w₂

/-- A record that is gone is gone ever after. -/
theorem Gone.later {ring : FixedRing env} (h : Gone ring k id w) (hne : id ≠ "")
    (hlater : Later ring k id w w') : Gone ring k id w' := by
  induction hlater with
  | refl => exact h
  | call hlater s hs hk call hno ih =>
    subst hk
    exact ih.step hs hne hno
  | other hlater hsame ih => exact ih.same hsame

end Calls

/-! ### What may be read -/

section Vacant

/-- The outcome is not the refusal of an id that is taken. -/
def NoConflict {α : Type} (x : Except Exc α) : Prop := ∀ message, x ≠ .error (.taskConflict message)

namespace NoConflict

variable {α β : Type}

theorem ok (a : α) : NoConflict (.ok a : Except Exc α) := fun _ h => by cases h

theorem bind {x : Except Exc α} {f : α → Except Exc β} (hx : NoConflict x)
    (hf : ∀ a, NoConflict (f a)) : NoConflict (x >>= f) := by
  cases x with
  | ok a => exact hf a
  | error e => exact fun message h => hx message (congrArg Except.error (Except.error.inj h))

theorem requiredText (message : String) (j : Json) : NoConflict (requiredText message j) := by
  intro message' h
  unfold Storage.requiredText at h
  split at h
  · split_ifs at h
    cases h
  · cases h

theorem requiredTaskFields (taskInput : Fields) : NoConflict (requiredTaskFields taskInput) := by
  unfold Storage.requiredTaskFields
  split
  · exact fun _ h => by cases h
  · exact fun _ h => by cases h
  · exact fun _ h => by cases h
  · exact .bind (.requiredText _ _) fun _ => .bind (.requiredText _ _) fun _ => .ok _

theorem status (j : Json) : NoConflict (TaskStatus.ofJson j) := by
  intro message h
  unfold TaskStatus.ofJson at h
  split at h <;> cases h

theorem priority (j : Json) : NoConflict (Priority.ofJson j) := by
  intro message h
  unfold Priority.ofJson at h
  split at h <;> cases h

/-- A record is never refused because its id is taken. -/
theorem createTaskRecord (taskInput : Fields) (owner : NodeRef) (k : ℕ) (id : String) (now : ℕ) :
    NoConflict (createTaskRecord taskInput owner k id now) :=
  .bind (.requiredTaskFields _) fun _ => .bind (.status _) fun _ => .bind (.priority _) fun _ => .ok _

end NoConflict

variable {env : Env} {w : World} {s : Service} {id : String} {k : ℕ}

/-- Every node finds nothing under the id, and none holds it to be taken. -/
structure Vacant (ring : FixedRing env) (k : ℕ) (id : String) (w : World) : Prop where
  unread : ∀ s : Service, s.node ∈ ring.members → s.replicationK = k →
    ∀ taskId, strip taskId = id →
      (run env (TaskService.getTask s (.str taskId) true) w).1 = .ok none
  free : ∀ s : Service, s.node ∈ ring.members → s.replicationK = k →
    ∀ taskInput taskId, taskInput.getD "task_id" .null = .str taskId → strip taskId = id →
      NoConflict (run env (TaskService.registerTask s taskInput) w).1

/-- **Nothing is read and the id is free** where the record is gone. -/
theorem Gone.vacant {ring : FixedRing env} (h : Gone ring k id w) (hne : id ≠ "") :
    Vacant ring k id w := by
  have hidOf : ∀ taskId, strip taskId = id → TaskMap.idOf (.str taskId) = .ok id := by
    rintro taskId rfl
    exact if_neg hne
  refine ⟨?_, ?_⟩
  · rintro s hs rfl taskId hid
    exact h.run_getTask hs (hidOf taskId hid)
  · rintro s hs rfl taskInput taskId hinput hid message hrun
    have htaskId : taskId ≠ "" := by
      rintro rfl
      exact hne (hid ▸ rfl)
    rw [run_registerTask_named htaskId hinput (h.run_getTask hs (hidOf taskId hid))] at hrun
    obtain ⟨created, updated, herror, hok⟩ := ring.run_registerAs hs (hidOf taskId hid) taskInput
      (run env (TaskService.checkConflict s (.str taskId)) w).2
    cases hnew : createTaskRecord taskInput (ring.owner (.task id)) s.replicationK id created with
    | error e =>
      obtain ⟨w', hraise, -⟩ := herror e hnew
      have he : Except.error e = Except.error (Exc.taskConflict message) :=
        (congrArg Prod.fst hraise).symm.trans hrun
      rw [Except.error.inj he] at hnew
      exact NoConflict.createTaskRecord _ _ _ _ _ _ hnew
    | ok r =>
      obtain ⟨report, w', hstore, -⟩ := hok r hnew
      have he := (congrArg Prod.fst hstore).symm.trans hrun
      cases he

end Vacant

/-! ### The removal -/

section Removal

variable {env : Env} {w w' : World} {s : Service} {id : String} {k : ℕ}

/-- What is under a key after a program that writes nothing: what was there, or nothing. -/
theorem Only.kept_eq {α : Type} {p : M α} (hp : Only (fun o => o.writes = none) p) (env : Env)
    (w : World) (a : Address) (key : Key) :
    ((run env p w).2.stores a).get key = none ∨
      ((run env p w).2.stores a).get key = (w.stores a).get key := by
  refine hp.exec (R := fun w w' => (w'.stores a).get key = none ∨
    (w'.stores a).get key = (w.stores a).get key) (fun _ => .inr rfl) ?_ (fun w o ho => ?_) w
  · rintro w₁ w₂ w₃ h₁ (h₂ | h₂)
    · exact .inl h₂
    · rw [h₂]
      exact h₁
  · obtain ⟨d, -, ⟨v, hv, -⟩ | ⟨-, hget⟩ | ⟨-, -, hsame⟩⟩ := handle_get env o w a key
    · rw [ho] at hv
      cases hv
    · exact .inl hget
    · exact .inr hsame

/-- What only reads writes nothing. -/
theorem Only.noWrites {α : Type} {p : M α} (hp : Only Op.Reads p) :
    Only (fun o => o.writes = none) p :=
  hp.mono fun _ h => h.writes

theorem Only.deleteReplicas (k : ℕ) (key : Key) (primary : NodeRef) :
    Only (fun o => o.writes = none) (Replication.deleteReplicas k key primary) := by
  have hdelete : ∀ a, (Op.rpc a (.deleteReplica key)).writes = none := fun _ => rfl
  exact .bind (.getReplicas (fun _ => rfl) _ _) fun _ =>
    .visitAll (fun n => .requestWithRetry (hdelete n.address) _) _

/-- A hard delete writes nothing. -/
theorem Only.hardDelete (s : Service) (taskId : String) :
    Only (fun o => o.writes = none) (TaskService.deregisterTask s taskId true) :=
  .bind (.lift _) fun _ => .bind (.act rfl) fun _ => .bind (Only.existingTask s taskId).noWrites
    fun _ => .bind (.ite (.act rfl) (.request rfl)) fun _ =>
      .bind (.deleteReplicas _ _ _) fun _ => .pure _

/-- A deletion that is answered has been done. -/
theorem run_requestTries_delete (env : Env) (a : Address) (key : Key) {n : ℕ} {w w' : World}
    {b : Bool} (hrun : run env (Transport.requestTries a (.delete key) n) w = (.ok b, w')) :
    (w'.stores a).get key = none := by
  induction n generalizing w with
  | zero => cases hrun
  | succ n ih =>
    unfold Transport.requestTries at hrun
    rw [run_act_bind] at hrun
    by_cases hd : env.deliver w.trace.length a (.delete key) = .delivered
    · have hreply : (handle env (.rpc a (.delete key)) w).1 =
          some (World.answer env w a (.delete key)) := if_pos hd
      have hserved : (handle env (.rpc a (.delete key)) w).2.stores = w.stores.delete a key :=
        if_neg (by rw [hd]; decide)
      rw [hreply] at hrun
      have hw' : (handle env (.rpc a (.delete key)) w).2 = w' := congrArg Prod.snd hrun
      rw [← hw', hserved]
      exact Stores.get_delete_self _ _ _
    · have hreply : (handle env (.rpc a (.delete key)) w).1 = none := if_neg hd
      rw [hreply] at hrun
      exact ih hrun

/-- The deletion of the primary, where it returns. -/
theorem Owned.run_deleteOnNode (owned : Owned env) (hs : s.node ∈ owned.members) (key : Key)
    {b : Bool} (hrun : run env (s.deleteOnNode (owned.owner key) key) w = (.ok b, w')) :
    (w'.stores (owned.owner key).address).get key = none := by
  unfold Service.deleteOnNode at hrun
  split_ifs at hrun with h
  · have hw' : (handle env (.delete s.node.address key) w).2 = w' := congrArg Prod.snd hrun
    rw [← owned.eq_owner hs h, ← hw']
    exact Stores.get_delete_self _ _ _
  · exact run_requestTries_delete env _ _ hrun

/-- A hard delete that returns was of a task with an id, and leaves nothing at the owner. -/
theorem Owned.run_hardDelete (owned : Owned env) (hs : s.node ∈ owned.members) {taskId : String}
    {removed : Deregistered}
    (hrun : run env (TaskService.deregisterTask s taskId true) w = (.ok removed, w')) :
    strip taskId ≠ "" ∧
      (w'.stores (owned.owner (.task (strip taskId))).address).get (.task (strip taskId)) = none := by
  obtain ⟨key, w₁, hkey, hrest⟩ := ok_of_run_bind hrun
  have hbuilt : strip taskId ≠ "" ∧ key = .task (strip taskId) ∧ w₁ = w := by
    unfold buildTaskKey at hkey
    by_cases hne : strip taskId = ""
    · simp only [if_pos hne] at hkey
      cases hkey
    · simp only [if_neg hne] at hkey
      cases hkey
      exact ⟨hne, rfl, rfl⟩
  obtain ⟨hne, rfl, rfl⟩ := hbuilt
  refine ⟨hne, ?_⟩
  obtain ⟨primary, w₂, howner, hrest⟩ := ok_of_run_bind hrest
  have hprimary : primary = owned.owner (.task (strip taskId)) := by
    have h : (run env (s.owner (.task (strip taskId))) w₁).1 =
        .ok (owned.owner (.task (strip taskId))) :=
      congrArg Except.ok (owned.findSuccessor_eq _ _ hs _)
    exact Except.ok.inj ((congrArg Prod.fst howner).symm.trans h)
  subst hprimary
  obtain ⟨existing, w₃, -, hrest⟩ := ok_of_run_bind hrest
  obtain ⟨wasThere, w₄, hdelete, hrest⟩ := ok_of_run_bind hrest
  have hgone := owned.run_deleteOnNode hs _ hdelete
  -- The deletions of the copies write nothing, so nothing comes back at the owner.
  have hkept := Only.kept_eq (.bind (.deleteReplicas s.replicationK (.task (strip taskId))
    (owned.owner (.task (strip taskId)))) fun deleted => .pure (Deregistered.hard deleted)) env w₄
    (owned.owner (.task (strip taskId))).address (.task (strip taskId))
  have hw' : (run env (deleteReplicas s.replicationK (.task (strip taskId))
      (owned.owner (.task (strip taskId))) >>= fun deleted => pure (Deregistered.hard deleted)) w₄).2
      = w' := congrArg Prod.snd hrest
  rw [hw', hgone, or_self] at hkept
  exact hkept

/-- The copy of a replica after a hard delete: gone if and only if there was none or a deletion of
it arrived. -/
theorem copy_hardDelete_iff {taskId : String} {x : Except Exc Deregistered}
    (hrun : run env (TaskService.deregisterTask s taskId true) w = (x, w')) (id : String)
    (n : NodeRef) :
    w'.copy id n = none ↔
      (w.copy id n ≠ none → ∃ e ∈ since w w', Entry.Erased n.address (.task id) e) := by
  have hnoWrites := Only.hardDelete s taskId
  have hamong : runAmong env .nobody (TaskService.deregisterTask s taskId true) w = (x, w') := hrun
  have hnotHere : Only (fun o => ∀ v, o.writes ≠ some (n.address, .task id, v))
      (TaskService.deregisterTask s taskId true) := hnoWrites.mono fun o ho v hv => by
    rw [ho] at hv
    cases hv
  have hkept := @Only.kept_iff env .nobody _ _ _ _ (nobody_keep (.task id)) hnotHere w
  rw [hamong] at hkept
  have hget := hnoWrites.kept_eq env w n.address (.task id)
  rw [hrun] at hget
  unfold World.copy
  rcases hget with hget | hget
  · refine ⟨fun _ hcopy => ?_, fun _ => by rw [hget]; rfl⟩
    by_contra hno
    exact hkept.2 ⟨fun hnone => hcopy (by rw [hnone]; rfl), hno⟩ hget
  · rw [hget] at hkept
    rw [hget]
    refine ⟨fun hnone hcopy => absurd hnone hcopy, fun herased => ?_⟩
    by_contra hcopy
    have hthere : (w.stores n.address).get (.task id) ≠ none :=
      fun hnone => hcopy (by rw [hnone]; rfl)
    exact (hkept.1 hthere).2 (herased hcopy)

end Removal

/-! ### The main theorem -/

section Main

variable {env : Env} {w w' : World} {s : Service}

/-- **A hard delete that returns removes the task** if and only if a deletion reached every replica
that held a copy.  `deliver` says which requests of the removal fail; whatever happens later but a
registration of the id, no node then reads the task and none refuses to register it.  The id
reaches the handlers as it is. -/
theorem FixedRing.vacant_iff (ring : FixedRing env) (hs : s.node ∈ ring.members)
    {deliver : ℕ → Address → Request → Delivery} {taskId : String} {removed : Deregistered}
    (hrun : run { env with deliver } (TaskService.deregisterTask s taskId true) w =
      (.ok removed, w')) :
    (∀ w'', Later ring s.replicationK (strip taskId) w' w'' →
        Vacant ring s.replicationK (strip taskId) w'') ↔
      ∀ n ∈ ring.replicas s.replicationK (ring.owner (.task (strip taskId))),
        w.copy (strip taskId) n ≠ none →
          ∃ e ∈ since w w', Entry.Erased n.address (.task (strip taskId)) e := by
  have hsame : { env with deliver }.findSuccessor = env.findSuccessor := rfl
  obtain ⟨hne, howner⟩ := (ring.toOwned.congr hsame).run_hardDelete hs hrun
  have hcopy := copy_hardDelete_iff hrun (strip taskId)
  constructor
  · intro hvacant n hn
    have hread := (hvacant w' .refl).unread s hs rfl taskId rfl
    have hid : TaskMap.idOf (.str taskId) = .ok (strip taskId) := if_neg hne
    rw [ring.run_getTask_copies hs hid howner] at hread
    have hnone := List.findSome?_eq_none_iff.1 (Except.ok.inj hread) n hn
    exact (hcopy n).1 hnone
  · intro herased w'' hlater
    have hgone : Gone ring s.replicationK (strip taskId) w' :=
      ⟨howner, fun n hn => (hcopy n).2 (herased n hn)⟩
    exact (hgone.later hne hlater).vacant hne

end Main

namespace ThreeNodes

/-- Every request arrives but the deletion of the copy on `nodeC`. -/
def refusing (_ : ℕ) (a : Address) : Request → Delivery
  | .deleteReplica _ => if a = "c" then .lost else .delivered
  | _ => .delivered

/-- The ring with a task. -/
def registered : World :=
  (run (env fun _ _ _ => .delivered) (TaskService.registerTask (services nodeB) taskInput)
    World.empty).2

/-- The hypotheses of `FixedRing.vacant_iff` are satisfiable: a task is removed at `nodeB`, and the
copy on `nodeC` stays. -/
theorem vacant_iff_refusing : ∃ removed w',
    run { env (fun _ _ _ => .delivered) with deliver := refusing }
      (TaskService.deregisterTask (services nodeB) "t" true) registered = (.ok removed, w') ∧
    ((∀ w'', Later ring 3 (strip "t") w' w'' → Vacant ring 3 (strip "t") w'') ↔
      ∀ n ∈ ring.replicas 3 (ring.owner (.task (strip "t"))),
        registered.copy (strip "t") n ≠ none →
          ∃ e ∈ since registered w', Entry.Erased n.address (.task (strip "t")) e) := by
  obtain ⟨removed, w', hrun⟩ : ∃ removed w',
      run { env (fun _ _ _ => .delivered) with deliver := refusing }
        (TaskService.deregisterTask (services nodeB) "t" true) registered = (.ok removed, w') :=
    ⟨_, _, rfl⟩
  have hs : (services nodeB).node ∈ ring.members := .inr (.inl rfl)
  exact ⟨removed, w', hrun, ring.vacant_iff hs hrun⟩

/-- **A removed task that is read**, and whose id is refused: the copy on `nodeC` was not deleted. -/
theorem removed_but_read : ∃ removed w' r,
    run { env (fun _ _ _ => .delivered) with deliver := refusing }
      (TaskService.deregisterTask (services nodeB) "t" true) registered = (.ok removed, w') ∧
    (run (env fun _ _ _ => .delivered) (TaskService.getTask (services nodeA) (.str "t") true) w').1 =
      .ok (some r) ∧
    (run (env fun _ _ _ => .delivered) (TaskService.registerTask (services nodeA) taskInput) w').1 =
      .error (.taskConflict "task already exists: t") :=
  ⟨_, _, _, rfl, rfl, rfl⟩

end ThreeNodes

end Storage
end ChordInfra
