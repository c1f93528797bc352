/-
# Reading a worker's list after it was changed

In a ring of fixed membership in which no request fails, `get` answers with the list of the
owner's record, or else with what the first replica of the chain has (`FixedRing.run_get`).
`append` and `remove` work with the owner's record alone (`FixedRing.run_append`,
`FixedRing.run_remove`): where the owner has no record they take the list for empty, whatever
the replicas have.  So a list that only a replica has is not what an append or a removal
changes (`get_after_change_iff`).
-/

import ChordInfra.Storage.FixedRing

namespace ChordInfra
namespace Storage

open Interact Prog
open ChordInfra.Ring (NodeRef)
open Replication
open WorkerAssignment (tasksOf)

namespace FixedRing

variable {env : Env} {workerId taskId : String}

/-! ### Reads -/

/-- The first copy that the replicas have. -/
theorem run_firstFound (ring : FixedRing env) (id : String) (nodes : List NodeRef) (w : World) :
    (run env (firstFound (.worker id) nodes) w).1 =
      .ok (nodes.findSome? fun n => (w.stores n.address).get (.worker id)) := by
  induction nodes generalizing w with
  | nil => rfl
  | cons n nodes ih =>
    obtain ⟨hok, hstores⟩ := ring.run_request n.address (.getReplica (.worker id)) w
    unfold firstFound
    rw [run_attempt_bind, hok, List.findSome?_cons]
    cases hv : (w.stores n.address).get (.worker id) with
    | none =>
      have hanswer : World.answer env w n.address (.getReplica (.worker id)) = none := hv
      rw [hanswer]
      dsimp only
      rw [ih, hstores]
      rfl
    | some v =>
      have hanswer : World.answer env w n.address (.getReplica (.worker id)) = some v := hv
      rw [hanswer]
      rfl

/-- The owner of the key of a worker. -/
def workerOwner (ring : FixedRing env) (workerId : String) : NodeRef :=
  ring.owner (.worker (strip workerId))

/-- What the owner has under the key of a worker. -/
def atOwner (ring : FixedRing env) (workerId : String) (stores : Stores) : Option Value :=
  (stores (ring.workerOwner workerId).address).get (.worker (strip workerId))

/-- The list that `get` answers with, in a ring with these stores. -/
def listed (ring : FixedRing env) (k : ℕ) (workerId : String) (stores : Stores) : List String :=
  tasksOf (if ((ring.atOwner workerId stores).bind Value.asWorker).isSome = true then
      ring.atOwner workerId stores
    else (ring.replicas k (ring.workerOwner workerId)).findSome? fun n =>
      (stores n.address).get (.worker workerId))

/-- **What `get` answers.** -/
theorem run_get (ring : FixedRing env) {s : Service} (hs : s.node ∈ ring.members)
    (hw : workerId ≠ "") (w : World) : (run env (WorkerAssignment.get s workerId) w).1 =
      .ok (ring.listed s.replicationK workerId w.stores) := by
  obtain ⟨howner, hstores⟩ := ring.resolves hs (.worker (strip workerId)) w
  obtain ⟨hget, hgetStores⟩ := ring.run_tryGetOnNode hs (.worker (strip workerId))
    (run env (s.owner (.worker (strip workerId))) w).2
  rw [hstores] at hget hgetStores
  change _ = Except.ok (ring.atOwner workerId w.stores) at hget
  unfold WorkerAssignment.get listed
  rw [show buildWorkerKey workerId = .ok (.worker (strip workerId)) from if_neg hw, run_lift_ok_bind,
    run_bind howner, run_bind hget]
  unfold orReplicas
  by_cases henough : ((ring.atOwner workerId w.stores).bind Value.asWorker).isSome = true
  · simp only [if_pos henough]
    rfl
  · simp only [if_neg henough]
    generalize (run env (s.tryGetOnNode (ring.owner (.worker (strip workerId)))
      (.worker (strip workerId))) (run env (s.owner (.worker (strip workerId))) w).2).2 = w'
      at hgetStores ⊢
    obtain ⟨hreplicas, hreplicaStores⟩ :=
      ring.run_getReplicas s.replicationK (ring.workerOwner workerId) w'
    have hfound := ring.run_firstFound workerId
      (ring.replicas s.replicationK (ring.workerOwner workerId))
      (run env (getReplicas s.replicationK (ring.workerOwner workerId)) w').2
    rw [hreplicaStores, hgetStores] at hfound
    have hread : (run env (WorkerAssignment.readFromReplicas s workerId
        (ring.workerOwner workerId)) w').1 = .ok ((ring.replicas s.replicationK
          (ring.workerOwner workerId)).findSome? fun n =>
            (w.stores n.address).get (.worker workerId)) := by
      unfold WorkerAssignment.readFromReplicas Replication.readFromReplicas
      rw [run_bind hreplicas]
      exact hfound
    change (run env (WorkerAssignment.readFromReplicas s workerId
      (ring.workerOwner workerId) >>= fun value => pure (tasksOf value)) w').1 = _
    rw [run_bind hread]
    rfl

/-! ### Changes -/

/-- What a change of the list leaves: the stores as they were where it changes nothing in the
list of the owner's record, and otherwise a record with the list at the owner. -/
def Leaves (ring : FixedRing env) (workerId : String) (s s' : Stores) (tasks : List String) : Prop :=
  (tasksOf (ring.atOwner workerId s) = tasks ∧ s' = s) ∨
    (tasksOf (ring.atOwner workerId s) ≠ tasks ∧ ∃ record : WorkerRecord, record.tasks = tasks ∧
      ring.atOwner workerId s' = some (.worker record))

/-- The list that is read after a change. -/
theorem Leaves.listed {ring : FixedRing env} {s s' : Stores} {tasks : List String}
    (h : ring.Leaves workerId s s' tasks) (k : ℕ) : ring.listed k workerId s' =
      if tasksOf (ring.atOwner workerId s) = tasks then ring.listed k workerId s else tasks := by
  rcases h with ⟨hsame, rfl⟩ | ⟨hne, record, rfl, hget⟩
  · rw [if_pos hsame]
  · rw [if_neg hne]
    unfold FixedRing.listed
    rw [hget]
    rfl

/-- What a change comes to, when it writes with `write`: nothing where it changes nothing in the list
of the owner's record, and otherwise one write of a record with the list. -/
def Changes (ring : FixedRing env) (write : WorkerRecord → Stores → Stores) (workerId : String)
    (s s' : Stores) (tasks : List String) : Prop :=
  (tasksOf (ring.atOwner workerId s) = tasks ∧ s' = s) ∨
    (tasksOf (ring.atOwner workerId s) ≠ tasks ∧ ∃ record : WorkerRecord, record.tasks = tasks ∧
      s' = write record s)

theorem Changes.leaves {ring : FixedRing env} {write : WorkerRecord → Stores → Stores}
    {s s' : Stores} {tasks : List String} (h : ring.Changes write workerId s s' tasks)
    (hwrite : ∀ record s, ring.atOwner workerId (write record s) = some (.worker record)) :
    ring.Leaves workerId s s' tasks := by
  rcases h with hsame | ⟨hne, record, htasks, rfl⟩
  · exact .inl hsame
  · exact .inr ⟨hne, record, htasks, hwrite record s⟩

/-- The record of a worker written at the owner of its key. -/
def recorded (ring : FixedRing env) (workerId : String) (record : WorkerRecord) (s : Stores) : Stores :=
  s.put (ring.workerOwner workerId).address (.worker (strip workerId)) (.worker record)

/-- The record written at the owner and at the replicas. -/
def mirrored (ring : FixedRing env) (k : ℕ) (workerId : String) (record : WorkerRecord)
    (s : Stores) : Stores :=
  serveAll (.putReplica (.worker workerId) (.worker record))
    (ring.replicas k (ring.workerOwner workerId)) (ring.recorded workerId record s)

theorem atOwner_recorded (ring : FixedRing env) (workerId : String) (record : WorkerRecord)
    (s : Stores) :
    ring.atOwner workerId (ring.recorded workerId record s) = some (.worker record) :=
  Stores.get_put_self ..

theorem atOwner_mirrored (ring : FixedRing env) (k : ℕ) (workerId : String) (record : WorkerRecord)
    (s : Stores) :
    ring.atOwner workerId (ring.mirrored k workerId record s) = some (.worker record) := by
  have hreplicas : (ring.workerOwner workerId).address ∉
      (ring.replicas k (ring.workerOwner workerId)).map NodeRef.address := by
    intro hmem
    obtain ⟨n, hn, he⟩ := List.mem_map.1 hmem
    exact ring.replicas_ne _ _ n hn he
  unfold mirrored
  rw [atOwner, get_serveAll_putReplica, if_neg fun h => hreplicas h.1]
  exact ring.atOwner_recorded workerId record s

/-- The second half of a change: the record is written at the owner, and replicated. -/
theorem run_write (ring : FixedRing env) (k : ℕ) (workerId : String) (record : WorkerRecord)
    (x : Assignment) (w : World) :
    let p : M Assignment := do
      act (.put (ring.workerOwner workerId).address (.worker (strip workerId)) (.worker record))
      let _ ← WorkerAssignment.replicate k workerId record (ring.workerOwner workerId)
      act (.unlock (ring.workerOwner workerId).address (.worker (strip workerId)))
      pure x
    (run env p w).1 = .ok x ∧
      (run env p w).2.stores = ring.mirrored k workerId record w.stores := by
  intro p
  obtain ⟨hok, hstores⟩ := ring.run_replicateWith k
    (.putReplica (.worker workerId) (.worker record)) 0 (ring.workerOwner workerId)
    (handle env (.put (ring.workerOwner workerId).address (.worker (strip workerId))
      (.worker record)) w).2
  have hrun : run env p w = _ := (run_act_bind ..).trans (run_bind hok)
  rw [hrun]
  exact ⟨rfl, hstores⟩

/-- **Under the lock** the owner's record is what is changed. -/
theorem run_changeLocal (ring : FixedRing env) (k : ℕ) (workerId : String)
    (change : List String → List String) (w : World) :
    (∃ x, (run env (WorkerAssignment.changeLocal (ring.workerOwner workerId).address k
        (.worker (strip workerId)) workerId change (ring.workerOwner workerId)) w).1 = .ok x) ∧
      ring.Changes (ring.mirrored k workerId) workerId w.stores (run env
        (WorkerAssignment.changeLocal (ring.workerOwner workerId).address k
          (.worker (strip workerId)) workerId change (ring.workerOwner workerId)) w).2.stores
        (change (tasksOf (ring.atOwner workerId w.stores))) := by
  unfold WorkerAssignment.changeLocal
  rw [run_act_bind, run_act_bind]
  have hcurrent : (handle env (.get (ring.workerOwner workerId).address (.worker (strip workerId)))
      (handle env (.lock (ring.workerOwner workerId).address (.worker (strip workerId))) w).2).1 =
        ring.atOwner workerId w.stores := rfl
  simp only [hcurrent]
  by_cases hsame : change (tasksOf (ring.atOwner workerId w.stores)) =
      tasksOf (ring.atOwner workerId w.stores)
  · rw [if_pos hsame]
    exact ⟨⟨_, rfl⟩, .inl ⟨hsame.symm, rfl⟩⟩
  · rw [if_neg hsame, run_act_bind]
    obtain ⟨hok, hstores⟩ := ring.run_write k workerId _ _ _
    exact ⟨⟨_, hok⟩, .inr ⟨Ne.symm hsame, _, WorkerAssignment.renew_tasks .., hstores⟩⟩

/-- A change in the owner's process, which knows that it is the owner or finds it out. -/
theorem run_ownerOr (ring : FixedRing env) (k : ℕ) (workerId : String)
    (change : List String → List String) {owner : Option NodeRef}
    (howner : owner = some (ring.workerOwner workerId) ∨ owner = none) (w : World) :
    let p : M Assignment := do
      let primary ← WorkerAssignment.ownerOr (ring.workerOwner workerId).address
        (.worker (strip workerId)) owner
      WorkerAssignment.changeLocal (ring.workerOwner workerId).address k (.worker (strip workerId))
        workerId change primary
    (∃ x, (run env p w).1 = .ok x) ∧ ring.Changes (ring.mirrored k workerId) workerId w.stores
      (run env p w).2.stores (change (tasksOf (ring.atOwner workerId w.stores))) := by
  intro p
  rcases howner with rfl | rfl
  · exact ring.run_changeLocal k workerId change w
  · have hfind : env.findSuccessor w.trace.length (ring.workerOwner workerId).address
        (.worker (strip workerId)) = ring.workerOwner workerId :=
      ring.findSuccessor_eq _ _ (ring.owner_mem _) _
    have hrun : run env p w = run env (WorkerAssignment.changeLocal
        (ring.workerOwner workerId).address k (.worker (strip workerId)) workerId change
          (ring.workerOwner workerId))
        (handle env (.findSuccessor (ring.workerOwner workerId).address
          (.worker (strip workerId))) w).2 := by
      refine (run_act_bind ..).trans ?_
      rw [show (handle env (.findSuccessor (ring.workerOwner workerId).address
        (.worker (strip workerId))) w).1 = ring.workerOwner workerId from hfind]
    rw [hrun]
    exact ring.run_changeLocal k workerId change _

/-- An append that another node asks the owner for is refused when its id is empty. -/
def refuses (ring : FixedRing env) (s : Service) (workerId taskId : String) : Prop :=
  taskId = "" ∧ (ring.workerOwner workerId).id ≠ s.node.id

instance (ring : FixedRing env) (s : Service) (workerId taskId : String) :
    Decidable (ring.refuses s workerId taskId) :=
  inferInstanceAs (Decidable (_ ∧ _))

/-- A call of a handler that raises, and raises nothing but the stores as they were. -/
theorem run_call_error {α : Type} (hdeliver : ∀ t a c, env.deliverCall t a c = .delivered)
    (a : Address) (c : Call) (e : Exc) (w : World) :
    (run env (Transport.call a c (raise e : M α)) w).1 = .error .request ∧
      (run env (Transport.call a c (raise e : M α)) w).2.stores = w.stores := by
  unfold Transport.call Transport.callTries
  rw [run_act_bind, show (handle env (.deliver a c) w).1 = .delivered from hdeliver _ _ _]
  exact ⟨rfl, rfl⟩

/-- A call of a handler that ends with a value. -/
theorem run_call_ok {α : Type} (hdeliver : ∀ t a c, env.deliverCall t a c = .delivered)
    (a : Address) (c : Call) {handler : M α} {x : α} (w : World)
    (h : (run env handler (handle env (.deliver a c) w).2).1 = .ok x) :
    (run env (Transport.call a c handler) w).1 = .ok x ∧
      (run env (Transport.call a c handler) w).2.stores =
        (run env handler (handle env (.deliver a c) w).2).2.stores := by
  unfold Transport.call Transport.callTries
  rw [run_act_bind, show (handle env (.deliver a c) w).1 = .delivered from hdeliver _ _ _]
  dsimp only
  rw [run_attempt_bind, h]
  exact ⟨rfl, rfl⟩

/-- The requests of an append that are refused change nothing. -/
theorem run_appendTries_refused (ring : FixedRing env) {s : Service} (hs : s.node ∈ ring.members)
    (hdeliver : ∀ t a c, env.deliverCall t a c = .delivered) (workerId : String) (n : ℕ) (w : World) :
    (run env (WorkerAssignment.appendTries s (.worker (strip workerId)) workerId ""
      (WorkerAssignment.asked s workerId "") n (ring.workerOwner workerId)) w).2.stores = w.stores := by
  induction n generalizing w with
  | zero =>
    exact (run_call_error hdeliver _ _ _ w).2
  | succ n ih =>
    unfold WorkerAssignment.appendTries
    have hasked : WorkerAssignment.asked s workerId "" (ring.workerOwner workerId).address =
        raise (.valueError "task_id required") := if_pos rfl
    rw [hasked, run_attempt_bind]
    obtain ⟨herror, hstores⟩ := run_call_error (α := Assignment) hdeliver
      (ring.workerOwner workerId).address (.append workerId "") (.valueError "task_id required") w
    rw [herror]
    dsimp only
    obtain ⟨howner, hownerStores⟩ := ring.resolves hs (.worker (strip workerId))
      (run env (Transport.call (ring.workerOwner workerId).address (.append workerId "")
        (raise (.valueError "task_id required") : M Assignment)) w).2
    rw [run_bind howner]
    exact (ih _).trans (hownerStores.trans hstores)

/-- **What `append` does.** -/
theorem run_append (ring : FixedRing env) (taskId : String) {s : Service} (hs : s.node ∈ ring.members)
    (hw : workerId ≠ "") (hdeliver : ∀ t a c, env.deliverCall t a c = .delivered) (w : World) :
    ring.Changes (ring.mirrored s.replicationK workerId) workerId w.stores
      (run env (WorkerAssignment.append s workerId taskId) w).2.stores
      (if ring.refuses s workerId taskId then tasksOf (ring.atOwner workerId w.stores)
        else WorkerAssignment.appended taskId (tasksOf (ring.atOwner workerId w.stores))) := by
  obtain ⟨howner, hstores⟩ := ring.resolves hs (.worker (strip workerId)) w
  generalize hw₁ : (run env (s.owner (.worker (strip workerId))) w).2 = w₁ at hstores
  have hrun : run env (WorkerAssignment.append s workerId taskId) w =
      run env (if (ring.workerOwner workerId).id = s.node.id then
        WorkerAssignment.appendLocal s.node.address s.replicationK workerId taskId
          (some (ring.workerOwner workerId))
      else WorkerAssignment.appendTries s (.worker (strip workerId)) workerId taskId
        (WorkerAssignment.asked s workerId taskId) Service.primaryWriteRetries
        (ring.workerOwner workerId)) w₁ := by
    unfold WorkerAssignment.append WorkerAssignment.appendBy
    rw [show buildWorkerKey workerId = .ok (.worker (strip workerId)) from if_neg hw,
      run_lift_ok_bind, run_bind howner, hw₁]
    rfl
  have hlocal : ∀ (k : ℕ) (owner : Option NodeRef),
      owner = some (ring.workerOwner workerId) ∨ owner = none → ∀ w' : World,
      (∃ x, (run env (WorkerAssignment.appendLocal (ring.workerOwner workerId).address k workerId
          taskId owner) w').1 = .ok x) ∧
        ring.Changes (ring.mirrored k workerId) workerId w'.stores (run env
          (WorkerAssignment.appendLocal (ring.workerOwner workerId).address k workerId taskId owner)
            w').2.stores (WorkerAssignment.appended taskId (tasksOf (ring.atOwner workerId w'.stores))) := by
    intro k owner hkind w'
    unfold WorkerAssignment.appendLocal
    rw [show buildWorkerKey workerId = .ok (.worker (strip workerId)) from if_neg hw,
      run_lift_ok_bind]
    exact ring.run_ownerOr k workerId (WorkerAssignment.appended taskId) hkind w'
  rw [hrun, ← hstores]
  by_cases hid : (ring.workerOwner workerId).id = s.node.id
  · have hnode : s.node = ring.workerOwner workerId := ring.eq_owner hs hid
    rw [if_pos hid, if_neg fun h => h.2 hid, hnode]
    exact (hlocal s.replicationK _ (.inl rfl) w₁).2
  · rw [if_neg hid]
    by_cases ht : taskId = ""
    · subst ht
      rw [if_pos ⟨rfl, hid⟩, ring.run_appendTries_refused hs hdeliver]
      exact .inl ⟨rfl, rfl⟩
    · rw [if_neg fun h => ht h.1]
      unfold Service.primaryWriteRetries WorkerAssignment.appendTries WorkerAssignment.asked
        WorkerAssignment.handleAppend
      rw [if_neg ht, run_attempt_bind]
      obtain ⟨⟨x, hx⟩, hleaves⟩ := hlocal s.replicationK none (.inr rfl)
        (handle env (.deliver (ring.workerOwner workerId).address (.append workerId taskId)) w₁).2
      obtain ⟨hok, hcall⟩ := run_call_ok hdeliver (ring.workerOwner workerId).address
        (.append workerId taskId) w₁ hx
      rw [hok]
      dsimp only
      rw [run_pure]
      dsimp only
      rw [hcall]
      exact hleaves

/-- What `remove` writes: away from the owner only the owner's record. -/
def rewritten (ring : FixedRing env) (s : Service) (workerId : String) (record : WorkerRecord)
    (stores : Stores) : Stores :=
  if (ring.workerOwner workerId).id = s.node.id then
    ring.mirrored s.replicationK workerId record stores
  else ring.recorded workerId record stores

theorem atOwner_rewritten (ring : FixedRing env) (s : Service) (workerId : String)
    (record : WorkerRecord) (stores : Stores) :
    ring.atOwner workerId (ring.rewritten s workerId record stores) = some (.worker record) := by
  unfold rewritten
  split_ifs
  · exact ring.atOwner_mirrored ..
  · exact ring.atOwner_recorded ..

/-- **What `remove` does.** -/
theorem run_remove (ring : FixedRing env) (taskId : String) {s : Service} (hs : s.node ∈ ring.members)
    (hw : workerId ≠ "") (w : World) :
    ring.Changes (ring.rewritten s workerId) workerId w.stores
      (run env (WorkerAssignment.remove s workerId taskId) w).2.stores
      (WorkerAssignment.removed taskId (tasksOf (ring.atOwner workerId w.stores))) := by
  obtain ⟨howner, hstores⟩ := ring.resolves hs (.worker (strip workerId)) w
  generalize hw₁ : (run env (s.owner (.worker (strip workerId))) w).2 = w₁ at hstores
  have hrun : run env (WorkerAssignment.remove s workerId taskId) w =
      run env (if (ring.workerOwner workerId).id = s.node.id then
        WorkerAssignment.removeLocal s.node.address s.replicationK workerId taskId
          (some (ring.workerOwner workerId))
      else WorkerAssignment.removeRemote (ring.workerOwner workerId) (.worker (strip workerId))
        workerId taskId) w₁ := by
    unfold WorkerAssignment.remove
    rw [show buildWorkerKey workerId = .ok (.worker (strip workerId)) from if_neg hw,
      run_lift_ok_bind, run_bind howner, hw₁]
    rfl
  rw [hrun, ← hstores]
  by_cases hid : (ring.workerOwner workerId).id = s.node.id
  · have hnode : s.node = ring.workerOwner workerId := ring.eq_owner hs hid
    have hwrite : ring.rewritten s workerId = ring.mirrored s.replicationK workerId := by
      funext record stores
      exact if_pos hid
    rw [if_pos hid, hwrite, hnode]
    unfold WorkerAssignment.removeLocal
    rw [show buildWorkerKey workerId = .ok (.worker (strip workerId)) from if_neg hw,
      run_lift_ok_bind]
    exact (ring.run_ownerOr s.replicationK workerId (WorkerAssignment.removed taskId) (.inl rfl)
      w₁).2
  · have hwrite : ring.rewritten s workerId = ring.recorded workerId := by
      funext record stores
      exact if_neg hid
    rw [if_neg hid, hwrite]
    unfold WorkerAssignment.removeRemote
    obtain ⟨hget, hgetStores⟩ := ring.run_request (ring.workerOwner workerId).address
      (.get (.worker (strip workerId))) w₁
    rw [run_attempt_bind, hget]
    have hcurrent : World.answer env w₁ (ring.workerOwner workerId).address
        (.get (.worker (strip workerId))) = ring.atOwner workerId w₁.stores := rfl
    simp only [hcurrent]
    generalize (run env (Transport.request (ring.workerOwner workerId).address
      (.get (.worker (strip workerId)))) w₁).2 = w₂ at hgetStores ⊢
    replace hgetStores : w₂.stores = w₁.stores := hgetStores
    by_cases hmem : taskId ∉ tasksOf (ring.atOwner workerId w₁.stores)
    · rw [if_pos hmem]
      exact .inl ⟨(WorkerAssignment.removed_eq_self.2 hmem).symm, hgetStores⟩
    · rw [if_neg hmem, run_act_bind, run_attempt_bind]
      refine .inr ⟨fun h => hmem (WorkerAssignment.removed_eq_self.1 h.symm),
        WorkerAssignment.renew workerId (ring.atOwner workerId w₁.stores)
          (WorkerAssignment.removed taskId (tasksOf (ring.atOwner workerId w₁.stores)))
          (handle env .now w₂).1, WorkerAssignment.renew_tasks .., ?_⟩
      obtain ⟨-, hputStores⟩ := ring.run_request (ring.workerOwner workerId).address
        (.put (.worker (strip workerId)) (.worker (WorkerAssignment.renew workerId
          (ring.atOwner workerId w₁.stores)
          (WorkerAssignment.removed taskId (tasksOf (ring.atOwner workerId w₁.stores)))
          (handle env .now w₂).1))) (handle env .now w₂).2
      exact hputStores.trans (congrArg (ring.recorded workerId _) hgetStores)

end FixedRing

/-! ### Appends, removals and reads -/

theorem WorkerAssignment.appended_eq_self {taskId : String} {tasks : List String} :
    WorkerAssignment.appended taskId tasks = tasks ↔ taskId ∈ tasks := by
  constructor
  · intro h
    rw [← h]
    exact WorkerAssignment.mem_appended taskId tasks
  · exact fun h => if_pos h

/-- One task is what the list becomes from nothing, and from the task alone. -/
theorem WorkerAssignment.singleton_eq_appended {taskId : String} {tasks : List String} :
    [taskId] = WorkerAssignment.appended taskId tasks ↔ tasks = [] ∨ tasks = [taskId] := by
  unfold WorkerAssignment.appended
  split_ifs with hmem
  · constructor
    · exact fun h => .inr h.symm
    · rintro (rfl | rfl)
      · exact absurd hmem List.not_mem_nil
      · rfl
  · constructor
    · intro h
      cases tasks with
      | nil => exact .inl rfl
      | cons t tasks => simp at h
    · rintro (rfl | rfl)
      · rfl
      · exact absurd List.mem_cons_self hmem

/-- **A list is read as it was changed exactly when the owner has it**: it has a record, or the
list is empty; and the append is not refused, or its id is there.  The worker's id reaches the
handlers as it is. -/
theorem get_after_change_iff {env : Env} (ring : FixedRing env)
    (hdeliver : ∀ t a c, env.deliverCall t a c = .delivered) {s sa sr sg : Service}
    (hs : s.node ∈ ring.members) (hsa : sa.node ∈ ring.members) (hsr : sr.node ∈ ring.members)
    (hsg : sg.node ∈ ring.members) (hk : sg.replicationK = s.replicationK) {w : World}
    {workerId : String} (taskId : String) {tasks : List String}
    (hget : (run env (WorkerAssignment.get s workerId) w).1 = .ok tasks) :
    ((run env (WorkerAssignment.get sg workerId)
          (run env (WorkerAssignment.append sa workerId taskId) w).2).1 =
        .ok (WorkerAssignment.appended taskId tasks) ∧
      (run env (WorkerAssignment.get sg workerId)
          (run env (WorkerAssignment.remove sr workerId taskId) w).2).1 =
        .ok (WorkerAssignment.removed taskId tasks)) ↔
    (((ring.atOwner workerId w.stores).bind Value.asWorker).isSome = true ∨ tasks = []) ∧
      (¬ ring.refuses sa workerId taskId ∨ taskId ∈ tasks) := by
  have hw : workerId ≠ "" := by
    rintro rfl
    cases hget
  rw [ring.run_get hs hw] at hget
  obtain rfl := Except.ok.inj hget
  have happend := ((ring.run_append taskId hsa hw hdeliver w).leaves
    (ring.atOwner_mirrored _ _)).listed s.replicationK
  have hremove := ((ring.run_remove taskId hsr hw w).leaves
    (ring.atOwner_rewritten _ _)).listed s.replicationK
  rw [ring.run_get hsg hw, ring.run_get hsg hw, hk, happend, hremove, Except.ok.injEq,
    Except.ok.injEq]
  by_cases hrecord : ((ring.atOwner workerId w.stores).bind Value.asWorker).isSome = true
  · -- the owner's list is the one that is read
    have hlisted : ring.listed s.replicationK workerId w.stores =
        tasksOf (ring.atOwner workerId w.stores) := by
      unfold FixedRing.listed
      rw [if_pos hrecord]
    rw [hlisted]
    generalize tasksOf (ring.atOwner workerId w.stores) = tasks
    have hif : ∀ l : List String, (if tasks = l then tasks else l) = l := by
      intro l
      split_ifs with h
      · exact h
      · rfl
    rw [hif, hif, and_iff_left rfl, and_iff_right (.inl hrecord)]
    split_ifs with href
    · rw [eq_comm, WorkerAssignment.appended_eq_self]
      simp [href]
    · exact iff_of_true rfl (.inl href)
  · -- the owner's list is taken for empty
    have hempty : tasksOf (ring.atOwner workerId w.stores) = [] := by
      unfold tasksOf
      rw [Option.not_isSome_iff_eq_none.1 hrecord]
    rw [hempty]
    generalize ring.listed s.replicationK workerId w.stores = tasks
    have hremoved : (if [] = WorkerAssignment.removed taskId [] then tasks
        else WorkerAssignment.removed taskId []) = tasks := if_pos rfl
    rw [hremoved, eq_comm (a := tasks), WorkerAssignment.removed_eq_self]
    by_cases href : ring.refuses sa workerId taskId
    · rw [if_pos href, if_pos rfl, eq_comm (a := tasks), WorkerAssignment.appended_eq_self]
      refine iff_of_false (fun h => h.2 h.1) fun h => ?_
      rcases h with ⟨h | rfl, hmem | hmem⟩
      · exact hrecord h
      · exact hrecord h
      · exact hmem href
      · exact List.not_mem_nil hmem
    · rw [if_neg href, if_neg (by simp [WorkerAssignment.appended])]
      change [taskId] = _ ∧ _ ↔ _
      rw [WorkerAssignment.singleton_eq_appended]
      constructor
      · rintro ⟨rfl | rfl, hmem⟩
        · exact ⟨.inr rfl, .inl href⟩
        · exact absurd List.mem_cons_self hmem
      · rintro ⟨h | rfl, -⟩
        · exact absurd h hrecord
        · exact ⟨.inl rfl, List.not_mem_nil⟩

/-- The replica at `b` has the list `t1`, and the owner no record. -/
def ThreeNodes.atReplica : World :=
  { World.empty with
    stores := Stores.put World.empty.stores "b" (.worker "w") (.worker ⟨"w", ["t1"], 0, 0, 1⟩) }

open ThreeNodes in
/-- **An append forgets the list that only a replica has**: `[t1]` is read, `t2` is appended, and
`[t2]` is read. -/
theorem get_after_append_lost :
    ¬ (∀ (env : Env) (ring : FixedRing env), (∀ t a c, env.deliverCall t a c = .delivered) →
        ∀ s : Service, s.node ∈ ring.members → ∀ (w : World) (workerId taskId : String)
          (tasks : List String),
        (run env (WorkerAssignment.get s workerId) w).1 = .ok tasks →
        (run env (WorkerAssignment.get s workerId)
            (run env (WorkerAssignment.append s workerId taskId) w).2).1 =
          .ok (WorkerAssignment.appended taskId tasks)) ∧
      (run (env fun _ _ _ => .delivered) (WorkerAssignment.get (services nodeA) "w")
        (run (env fun _ _ _ => .delivered) (WorkerAssignment.append (services nodeA) "w" "t2")
          atReplica).2).1 = .ok ["t2"] := by
  have hbefore : (run (env fun _ _ _ => .delivered) (WorkerAssignment.get (services nodeA) "w")
      atReplica).1 = .ok ["t1"] := by rfl
  have hafter : (run (env fun _ _ _ => .delivered) (WorkerAssignment.get (services nodeA) "w")
      (run (env fun _ _ _ => .delivered) (WorkerAssignment.append (services nodeA) "w" "t2")
        atReplica).2).1 = .ok ["t2"] := by rfl
  refine ⟨fun h => ?_, hafter⟩
  have hclaim := h _ ring (fun _ _ _ => rfl) (services nodeA) (.inl rfl) atReplica "w" "t2" ["t1"]
    hbefore
  rw [hafter] at hclaim
  exact absurd (Except.ok.inj hclaim) (by decide)

open ThreeNodes in
/-- The hypotheses of `get_after_change_iff` are satisfiable: the list is read at `nodeA`, appended
to at `nodeB` and removed from at `nodeC`. -/
theorem get_after_change_threeNodes :
    ((run (env fun _ _ _ => .delivered) (WorkerAssignment.get (services nodeA) "w")
          (run (env fun _ _ _ => .delivered) (WorkerAssignment.append (services nodeB) "w" "t2")
            atReplica).2).1 = .ok (WorkerAssignment.appended "t2" ["t1"]) ∧
      (run (env fun _ _ _ => .delivered) (WorkerAssignment.get (services nodeA) "w")
          (run (env fun _ _ _ => .delivered) (WorkerAssignment.remove (services nodeC) "w" "t2")
            atReplica).2).1 = .ok (WorkerAssignment.removed "t2" ["t1"])) ↔
    (((ring.atOwner "w" atReplica.stores).bind Value.asWorker).isSome = true ∨ ["t1"] = []) ∧
      (¬ ring.refuses (services nodeB) "w" "t2" ∨ "t2" ∈ ["t1"]) :=
  get_after_change_iff ring (fun _ _ _ => rfl)
    (show (services nodeA).node ∈ ring.members from .inl rfl)
    (show (services nodeB).node ∈ ring.members from .inr (.inl rfl))
    (show (services nodeC).node ∈ ring.members from .inr (.inr rfl))
    (show (services nodeA).node ∈ ring.members from .inl rfl) rfl "t2" (by rfl)

end Storage
end ChordInfra
