/-
# The record of a task and the list of its worker

On a node alone the two tables of the store agree (`Matched`): a task that is on the list of a
worker has a record that names this worker, and a pending one is on the list of the worker that
its record names.

A record and a list are written one after the other, so `Matched` is not kept by each
operation of a handler but by the whole of what it does to a task: `Matched.moved` is the rule
for a task that goes to another worker, and `Matched.relist` and `Matched.run_move` are the two
ways in which the code does it.
-/

import ChordInfra.Server.Attempts
import ChordInfra.Storage.AssignmentReads

namespace ChordInfra
namespace Server

open Interact Prog
open Storage
open Storage.WorkerAssignment (tasksOf appended removed)
open ChordInfra.Ring (NodeRef)

/-! ### Lists -/

/-- The lists after a task was taken off one of them, if any, and put on another. -/
def relisted (taskId : String) (old : Option String) (new : String)
    (lists : String → List String) (v : String) : List String :=
  let rest := if some v = old then removed taskId (lists v) else lists v
  if v = new then appended taskId rest else rest

theorem mem_appended_iff {t t' : String} {l : List String} :
    t' ∈ appended t l ↔ t' = t ∨ t' ∈ l := by
  unfold appended
  split_ifs with h
  · constructor
    · exact .inr
    · rintro (rfl | h') <;> assumption
  · rw [List.mem_append, List.mem_singleton, or_comm]

theorem mem_removed_iff {t t' : String} {l : List String} :
    t' ∈ removed t l ↔ t' ∈ l ∧ t' ≠ t := by
  simp [removed]

section Relisted

variable {taskId t new v : String} {old : Option String} {lists : String → List String}

/-- The other tasks stay where they are. -/
theorem mem_relisted_of_ne (h : t ≠ taskId) : t ∈ relisted taskId old new lists v ↔ t ∈ lists v := by
  unfold relisted
  split_ifs <;> simp [mem_appended_iff, mem_removed_iff, h]

/-- The task is on its new list, and where it was but on the old one. -/
theorem mem_relisted_self :
    taskId ∈ relisted taskId old new lists v ↔ v = new ∨ (taskId ∈ lists v ∧ some v ≠ old) := by
  unfold relisted
  dsimp only
  by_cases hnew : v = new
  · rw [if_pos hnew, mem_appended_iff]
    simp [hnew]
  · rw [if_neg hnew]
    by_cases hold : some v = old
    · rw [if_pos hold, mem_removed_iff]
      simp [hnew, hold]
    · rw [if_neg hold]
      simp [hnew, hold]

end Relisted

/-- The list that a node keeps of a worker. -/
def listAt (node : NodeRef) (w : World) (v : String) : List String :=
  tasksOf ((w.stores node.address).get (.worker v))

/-- The records are as they were, but for the one put under a key. -/
def Puts (node : NodeRef) (x : String) (record : ResultRecord) (w w' : World) : Prop :=
  ∀ a y, (w'.stores a).get (.result y) =
    if a = node.address ∧ y = x then some (.result record) else (w.stores a).get (.result y)

/-! ### Two tables -/

/-- The two tables of a node agree. -/
structure Matched (node : NodeRef) (w : World) : Prop where
  owns : Kept Owns w
  placed : ∀ a x v, (w.stores a).get (.result x) = some v → a = node.address ∧ x = strip x
  named : ∀ a x r, (w.stores a).get (.result x) = some (.result r) → r.workerId ≠ ""
  listed : ∀ v t, t ∈ listAt node w v → ∃ r, recordAt w node.address (strip t) = some r ∧
    r.taskId = t ∧ strip r.workerId = v
  pending : ∀ x r, recordAt w node.address x = some r → r.status = .pending →
    r.taskId ∈ listAt node w (strip r.workerId)

namespace Matched

variable {node : NodeRef} {w w' : World} {fresh record : ResultRecord}

/-- Where a record is. -/
theorem key_eq (h : Matched node w) {a : Address} {x : String} {r : ResultRecord}
    (hr : recordAt w a x = some r) : a = node.address ∧ strip r.taskId = x := by
  have hget := recordAt_eq_some.1 hr
  obtain ⟨ha, hx⟩ := h.placed a x _ hget
  have howns : strip r.taskId = strip x := h.owns a _ _ hget
  exact ⟨ha, howns.trans hx.symm⟩

/-- A pending task is on the list of the worker that its record names, and on no other. -/
theorem on_list_iff (h : Matched node w) {x : String} {r : ResultRecord}
    (hr : recordAt w node.address x = some r) (hpending : r.status = .pending) (v : String) :
    r.taskId ∈ listAt node w v ↔ v = strip r.workerId := by
  constructor
  · intro hmem
    obtain ⟨r', hr', -, rfl⟩ := h.listed v _ hmem
    rw [(h.key_eq hr).2, hr] at hr'
    cases hr'
    rfl
  · rintro rfl
    exact h.pending x r hr hpending

theorem recordAt_puts {x : String} (hput : Puts node x record w w') (a : Address) (y : String) :
    recordAt w' a y = if a = node.address ∧ y = x then some record else recordAt w a y := by
  unfold recordAt
  rw [hput]
  split_ifs <;> rfl

/-- A record under its own id that names a worker, and whatever becomes of the lists. -/
theorem put (h : Matched node w) (hput : Puts node (strip record.taskId) record w w')
    (hworker : record.workerId ≠ "")
    (hlisted : ∀ v t, t ∈ listAt node w' v → ∃ r, recordAt w' node.address (strip t) = some r ∧
      r.taskId = t ∧ strip r.workerId = v)
    (hpending : ∀ x r, recordAt w' node.address x = some r → r.status = .pending →
      r.taskId ∈ listAt node w' (strip r.workerId)) : Matched node w' := by
  refine ⟨fun a k v hv => ?_, fun a x v hv => ?_, fun a x r hr => ?_, hlisted, hpending⟩
  · cases k with
    | result x =>
      rw [hput] at hv
      split_ifs at hv with hspot
      · cases hv
        change strip record.taskId = strip x
        rw [hspot.2, strip_strip]
      · exact h.owns a _ v hv
    | _ => cases v <;> trivial
  · rw [hput] at hv
    split_ifs at hv with hspot
    · exact ⟨hspot.1, by rw [hspot.2, strip_strip]⟩
    · exact h.placed a x v hv
  · rw [hput] at hr
    split_ifs at hr with hspot
    · cases hr
      exact hworker
    · exact h.named a x r hr

/-- **The record of a task is written anew**: for the same worker and pending only if it was, and
the lists stay. -/
theorem rewritten (h : Matched node w)
    (hfresh : recordAt w node.address (strip fresh.taskId) = some fresh)
    (htask : record.taskId = fresh.taskId) (hworker : record.workerId = fresh.workerId)
    (hstatus : record.status = .pending → fresh.status = .pending)
    (hput : Puts node (strip record.taskId) record w w')
    (hlists : ∀ v, listAt node w' v = listAt node w v) : Matched node w' := by
  have hnamed : fresh.workerId ≠ "" := h.named _ _ _ (recordAt_eq_some.1 hfresh)
  refine h.put hput (hworker ▸ hnamed) (fun v t ht => ?_) fun x r hr hpending => ?_
  · rw [hlists] at ht
    obtain ⟨r, hr, rfl, rfl⟩ := h.listed v t ht
    by_cases hsame : strip r.taskId = strip record.taskId
    · rw [hsame, htask, hfresh] at hr
      cases hr
      refine ⟨record, ?_, htask, by rw [hworker]⟩
      rw [recordAt_puts hput, if_pos ⟨rfl, hsame⟩]
    · refine ⟨r, ?_, rfl, rfl⟩
      rw [recordAt_puts hput, if_neg fun hspot => hsame hspot.2]
      exact hr
  · rw [recordAt_puts hput] at hr
    rw [hlists]
    split_ifs at hr with hspot
    · cases hr
      rw [htask, hworker]
      exact h.pending _ fresh hfresh (hstatus hpending)
    · exact h.pending x r hr hpending

/-- **A task goes to another worker**: its record names the new one, it is taken off the list of
the old one, unless the two are the same, and put on the list of the new one. -/
theorem moved (h : Matched node w)
    (hfresh : recordAt w node.address (strip fresh.taskId) = some fresh)
    (htask : record.taskId = fresh.taskId) (hworker : record.workerId ≠ "")
    (hput : Puts node (strip record.taskId) record w w') (old : Option String)
    (hold : old = some (strip fresh.workerId) ∨ strip record.workerId = strip fresh.workerId)
    (hlists : ∀ v, listAt node w' v =
      relisted fresh.taskId old (strip record.workerId) (listAt node w) v) : Matched node w' := by
  have hother : ∀ {t}, strip t ≠ strip fresh.taskId → t ≠ fresh.taskId := by
    rintro t hne rfl
    exact hne rfl
  refine h.put hput hworker (fun v t ht => ?_) fun x r hr hpending => ?_
  · rw [hlists] at ht
    by_cases hself : t = fresh.taskId
    · subst hself
      refine ⟨record, ?_, htask, ?_⟩
      · rw [recordAt_puts hput, if_pos ⟨rfl, by rw [htask]⟩]
      · rcases mem_relisted_self.1 ht with rfl | ⟨hmem, hne⟩
        · rfl
        · obtain ⟨r, hr, -, rfl⟩ := h.listed v _ hmem
          rw [hfresh] at hr
          cases hr
          exact hold.elim (fun he => absurd he.symm hne) id
    · obtain ⟨r, hr, rfl, rfl⟩ := h.listed v t ((mem_relisted_of_ne hself).1 ht)
      refine ⟨r, ?_, rfl, rfl⟩
      rw [recordAt_puts hput, if_neg]
      · exact hr
      · rintro ⟨-, hsame⟩
        rw [hsame, htask, hfresh] at hr
        cases hr
        exact hself rfl
  · rw [hlists]
    rw [recordAt_puts hput] at hr
    split_ifs at hr with hspot
    · cases hr
      rw [htask]
      exact mem_relisted_self.2 (.inl rfl)
    · have hx : strip r.taskId = x := (h.key_eq hr).2
      refine (mem_relisted_of_ne (hother fun hsame => hspot ⟨rfl, ?_⟩)).2
        (h.pending x r hr hpending)
      rw [← hx, hsame, htask]

/-- **A new task** is put on the list of its worker. -/
theorem created (h : Matched node w)
    (hnone : recordAt w node.address (strip record.taskId) = none) (hworker : record.workerId ≠ "")
    (hput : Puts node (strip record.taskId) record w w')
    (hlists : ∀ v, listAt node w' v =
      relisted record.taskId none (strip record.workerId) (listAt node w) v) : Matched node w' := by
  refine h.put hput hworker (fun v t ht => ?_) fun x r hr hpending => ?_
  · rw [hlists] at ht
    by_cases hself : t = record.taskId
    · subst hself
      refine ⟨record, ?_, rfl, ?_⟩
      · rw [recordAt_puts hput, if_pos ⟨rfl, rfl⟩]
      · rcases mem_relisted_self.1 ht with rfl | ⟨hmem, -⟩
        · rfl
        · obtain ⟨r, hr, -⟩ := h.listed v _ hmem
          rw [hnone] at hr
          cases hr
    · obtain ⟨r, hr, rfl, rfl⟩ := h.listed v t ((mem_relisted_of_ne hself).1 ht)
      refine ⟨r, ?_, rfl, rfl⟩
      rw [recordAt_puts hput, if_neg]
      · exact hr
      · rintro ⟨-, hsame⟩
        rw [hsame, hnone] at hr
        cases hr
  · rw [hlists]
    rw [recordAt_puts hput] at hr
    split_ifs at hr with hspot
    · cases hr
      exact mem_relisted_self.2 (.inl rfl)
    · have hx : strip r.taskId = x := (h.key_eq hr).2
      refine (mem_relisted_of_ne fun hself => hspot ⟨rfl, ?_⟩).2 (h.pending x r hr hpending)
      rw [← hx, hself]

/-- **A task is taken off a list** to which it does not belong, or where it is not pending. -/
theorem unlisted (h : Matched node w) (hsame : SameResults w w') {v₀ t₀ : String}
    (hlists : ∀ v, listAt node w' v = if v = v₀ then removed t₀ (listAt node w v) else listAt node w v)
    (hdone : ∀ r, recordAt w node.address (strip t₀) = some r → r.status = .pending →
      r.taskId = t₀ → strip r.workerId ≠ v₀) : Matched node w' := by
  have hrecord : ∀ a x, recordAt w' a x = recordAt w a x := by
    intro a x
    rw [recordAt, hsame]
    rfl
  refine ⟨fun a k v hv => ?_, fun a x v hv => h.placed a x v ((hsame a x).symm.trans hv),
    fun a x r hr => h.named a x r ((hsame a x).symm.trans hr), fun v t ht => ?_,
    fun x r hr hpending => ?_⟩
  · cases k with
    | result x => exact h.owns a _ v ((hsame a x).symm.trans hv)
    | _ => cases v <;> trivial
  · rw [hrecord]
    refine h.listed v t ?_
    rw [hlists] at ht
    split_ifs at ht
    · exact (mem_removed_iff.1 ht).1
    · exact ht
  · rw [hrecord] at hr
    have hmem := h.pending x r hr hpending
    rw [hlists]
    split_ifs with hv
    · refine mem_removed_iff.2 ⟨hmem, ?_⟩
      rintro rfl
      refine hdone r ?_ hpending rfl hv
      rw [(h.key_eq hr).2]
      exact hr
    · exact hmem

/-- What changes neither records nor lists. -/
theorem congr (h : Matched node w) (hstores : w'.stores = w.stores) : Matched node w' := by
  obtain ⟨howns, hplaced, hnamed, hlisted, hpending⟩ := h
  unfold listAt recordAt at hlisted hpending
  constructor
  · unfold Kept
    rw [hstores]
    exact howns
  · rw [hstores]
    exact hplaced
  · rw [hstores]
    exact hnamed
  · unfold listAt recordAt
    rw [hstores]
    exact hlisted
  · unfold listAt recordAt
    rw [hstores]
    exact hpending

end Matched

/-! ### What the services do to the lists -/

section Alone

variable {env : Env} {ring : FixedRing env} {node : NodeRef} (halone : Alone ring node)
  {s : Service} (hs : s.node = node)

/-- The lists after a change, where the node has no replicas. -/
theorem listAt_of_changes (halone : Alone ring node) {k : ℕ} {workerId : String}
    {tasks : List String} {w w' : World}
    (h : ring.Changes (ring.mirrored k workerId) workerId w.stores w'.stores tasks) (v : String) :
    listAt node w' v = if v = strip workerId then tasks else listAt node w v := by
  have howner : ring.workerOwner workerId = node := halone.owner _
  unfold listAt
  rcases h with ⟨hsame, hstores⟩ | ⟨-, record, rfl, hstores⟩
  · rw [hstores]
    split_ifs with hv
    · rw [hv, ← hsame]
      unfold FixedRing.atOwner
      rw [howner]
    · rfl
  · have hput : w'.stores = w.stores.put node.address (.worker (strip workerId)) (.worker record) := by
      rw [hstores]
      unfold FixedRing.mirrored FixedRing.recorded
      rw [howner, halone.replicas]
      rfl
    rw [hput, Stores.get_put]
    by_cases hv : v = strip workerId
    · rw [hv, if_pos ⟨rfl, rfl⟩, if_pos rfl]
      rfl
    · rw [if_neg (by simpa using hv), if_neg hv]

/-- A change under the lock of a list. -/
theorem lists_changeLocal (halone : Alone ring node) (k : ℕ) (workerId : String)
    (change : List String → List String) (w : World) :
    (∃ x, (run env (WorkerAssignment.changeLocal node.address k (.worker (strip workerId))
        workerId change node) w).1 = .ok x) ∧
      ∀ v, listAt node (run env (WorkerAssignment.changeLocal node.address k
          (.worker (strip workerId)) workerId change node) w).2 v =
        if v = strip workerId then change (listAt node w v) else listAt node w v := by
  have howner : ring.workerOwner workerId = node := halone.owner _
  obtain ⟨hok, hchanges⟩ := ring.run_changeLocal k workerId change w
  unfold FixedRing.atOwner at hchanges
  rw [howner] at hok hchanges
  refine ⟨hok, fun v => ?_⟩
  rw [listAt_of_changes halone hchanges]
  split_ifs with hv
  · rw [hv]
    rfl
  · rfl

include halone hs

/-- A task is put on a list. -/
theorem run_append_alone {workerId : String} (hw : workerId ≠ "") (taskId : String) (w : World) :
    (∃ x, (run env (WorkerAssignment.append s workerId taskId) w).1 = .ok x) ∧
      ∀ v, listAt node (run env (WorkerAssignment.append s workerId taskId) w).2 v =
        if v = strip workerId then appended taskId (listAt node w v) else listAt node w v := by
  obtain ⟨howner, hstores⟩ :=
    ring.resolves (hs ▸ halone.mem : s.node ∈ ring.members) (.worker (strip workerId)) w
  rw [halone.owner] at howner
  unfold WorkerAssignment.append WorkerAssignment.appendBy WorkerAssignment.appendLocal
  rw [show buildWorkerKey workerId = .ok (.worker (strip workerId)) from if_neg hw,
    run_lift_ok_bind, run_bind howner, if_pos (by rw [hs]), run_lift_ok_bind, hs]
  unfold listAt
  rw [← hs, ← hstores, hs]
  exact lists_changeLocal halone s.replicationK workerId (appended taskId) _

/-- A task is taken off a list. -/
theorem run_remove_alone {workerId : String} (hw : workerId ≠ "") (taskId : String) (w : World) :
    (∃ x, (run env (WorkerAssignment.remove s workerId taskId) w).1 = .ok x) ∧
      ∀ v, listAt node (run env (WorkerAssignment.remove s workerId taskId) w).2 v =
        if v = strip workerId then removed taskId (listAt node w v) else listAt node w v := by
  obtain ⟨howner, hstores⟩ :=
    ring.resolves (hs ▸ halone.mem : s.node ∈ ring.members) (.worker (strip workerId)) w
  rw [halone.owner] at howner
  unfold WorkerAssignment.remove WorkerAssignment.removeLocal
  rw [show buildWorkerKey workerId = .ok (.worker (strip workerId)) from if_neg hw,
    run_lift_ok_bind, run_bind howner, if_pos (by rw [hs]), run_lift_ok_bind, hs]
  unfold listAt
  rw [← hs, ← hstores, hs]
  exact lists_changeLocal halone s.replicationK workerId (removed taskId) _

/-- The write of a record. -/
theorem run_put_alone {id : String} (hid : strip id ≠ "") {record : ResultRecord}
    (hworker : record.workerId ≠ "") (w : World) :
    (∃ x, (run env (ResultService.put s id record) w).1 = .ok x) ∧
      (run env (ResultService.put s id record) w).2.stores =
        w.stores.put node.address (.result (strip id)) (.result record) := by
  obtain ⟨hok, hstores⟩ := ring.run_resultPut (hs ▸ halone.mem) hid hworker w
  refine ⟨⟨_, hok⟩, hstores.trans ?_⟩
  unfold FixedRing.written
  rw [halone.home, halone.replicas]
  rfl

theorem stores_safePut {id : String} (hid : strip id ≠ "") {record : ResultRecord}
    (hworker : record.workerId ≠ "") (w : World) :
    (run env (safePut s id record) w).2.stores =
      w.stores.put node.address (.result (strip id)) (.result record) := by
  unfold safePut
  rw [run_attempt_bind]
  exact (run_put_alone halone hs hid hworker w).2

omit halone hs in
theorem puts_of_stores {x : String} {record : ResultRecord} {w w' : World}
    (h : w'.stores = w.stores.put node.address (.result x) (.result record)) :
    Puts node x record w w' ∧ ∀ v, listAt node w' v = listAt node w v := by
  constructor
  · intro a y
    rw [h, Stores.get_put]
    simp
  · intro v
    unfold listAt
    rw [h, Stores.get_put, if_neg (by simp)]

namespace Matched

variable {w : World} {fresh : ResultRecord}

/-- A task that is queued again: its record was written, and the lists follow. -/
theorem relist (h : Matched node w)
    (hfresh : recordAt w node.address (strip fresh.taskId) = some fresh) {record : ResultRecord}
    (htask : record.taskId = fresh.taskId) (hworker : record.workerId ≠ "") {w₁ : World}
    (hput : Puts node (strip record.taskId) record w w₁)
    (hlists : ∀ v, listAt node w₁ v = listAt node w v) :
    Matched node (run env (unlist s fresh.taskId fresh.workerId record.workerId >>= fun _ =>
      attempt (WorkerAssignment.append s record.workerId fresh.taskId) >>= fun _ => pure ()) w₁).2 := by
  have hnamed : fresh.workerId ≠ "" := h.named _ _ _ (recordAt_eq_some.1 hfresh)
  obtain ⟨w', hrun, -, hsame⟩ :=
    run_relist env s fresh.taskId fresh.workerId record.workerId w₁
  rw [hrun]
  have hunlist : ∃ w₂, run env (unlist s fresh.taskId fresh.workerId record.workerId) w₁ =
      (.ok (), w₂) ∧ ∀ v, listAt node w₂ v =
        if fresh.workerId ≠ record.workerId ∧ v = strip fresh.workerId then
          removed fresh.taskId (listAt node w v) else listAt node w v := by
    unfold unlist
    by_cases hsame : fresh.workerId = record.workerId
    · rw [if_neg fun hc => hc.2 hsame]
      refine ⟨w₁, rfl, fun v => ?_⟩
      rw [if_neg fun hc => hc.1 hsame, hlists]
    · rw [if_pos ⟨hnamed, hsame⟩, run_attempt_bind]
      refine ⟨_, rfl, fun v => ((run_remove_alone halone hs hnamed fresh.taskId w₁).2 v).trans ?_⟩
      simp only [hlists, ne_eq, hsame, not_false_eq_true, true_and]
  obtain ⟨w₂, hrun₂, hlists₂⟩ := hunlist
  rw [run_bind_eq_ok hrun₂, run_attempt_bind] at hrun
  have hw' : w' = (run env (WorkerAssignment.append s record.workerId fresh.taskId) w₂).2 :=
    (congrArg Prod.snd hrun).symm
  refine h.moved hfresh htask hworker (fun a y => (hsame a y).trans (hput a y))
    (if fresh.workerId = record.workerId then none else some (strip fresh.workerId)) ?_
    fun v => ?_
  · split_ifs with he
    · exact .inr (by rw [he])
    · exact .inl rfl
  · rw [hw', (run_append_alone halone hs hworker fresh.taskId w₂).2, hlists₂]
    unfold relisted
    by_cases he : fresh.workerId = record.workerId
    · simp [he]
    · simp [he]

/-- The write of a record that stays with its worker. -/
theorem safePut (h : Matched node w)
    (hfresh : recordAt w node.address (strip fresh.taskId) = some fresh)
    (hid : strip fresh.taskId ≠ "") {record : ResultRecord} (htask : record.taskId = fresh.taskId)
    (hworker : record.workerId = fresh.workerId)
    (hstatus : record.status = .pending → fresh.status = .pending) :
    Matched node (run env (Server.safePut s fresh.taskId record) w).2 := by
  have hnamed : record.workerId ≠ "" := hworker ▸ h.named _ _ _ (recordAt_eq_some.1 hfresh)
  obtain ⟨hput, hlists⟩ := puts_of_stores (stores_safePut halone hs hid hnamed w)
  exact h.rewritten hfresh htask hworker hstatus (by rw [htask]; exact hput) hlists

/-- What is done about a task once the path is chosen. -/
theorem execute (h : Matched node w)
    (hfresh : recordAt w node.address (strip fresh.taskId) = some fresh)
    (hid : strip fresh.taskId ≠ "") (failureType : Option FailureType) {live : List String}
    {scored : List (String × ℚ)} (hempty : scored.isEmpty = live.isEmpty)
    (hnames : ∀ worker ∈ scored.map Prod.fst, worker ≠ "") (justSpawned : Bool) :
    Matched node (run env (Server.execute s fresh
      (chooseRecoveryPath fresh failureType (!live.isEmpty)) failureType scored justSpawned) w).2 := by
  unfold Server.execute
  rw [run_act_bind]
  have h₁ : Matched node (handle env .now w).2 := h.congr rfl
  have hfresh₁ : recordAt (handle env .now w).2 node.address (strip fresh.taskId) = some fresh :=
    hfresh
  generalize (handle env .now w).1 = now
  generalize (handle env .now w).2 = w₁ at h₁ hfresh₁
  cases hpath : chooseRecoveryPath fresh failureType (!live.isEmpty) with
  | retrySame => exact absurd hpath (chooseRecoveryPath_ne_retrySame _ _ _)
  | giveUp => exact h₁.safePut halone hs hfresh₁ hid rfl rfl fun he => (by cases he)
  | waitAndRetry =>
    dsimp only
    rw [run_act_bind]
    have h₂ : Matched node (handle env .now w₁).2 := h₁.congr rfl
    exact h₂.safePut halone hs hfresh₁ hid rfl rfl id
  | retryDifferent =>
    have hne : scored ≠ [] := by
      rintro rfl
      exact ne_nil_of_retry hpath (List.isEmpty_iff.1 hempty.symm)
    obtain ⟨worker, hworker, hin⟩ := otherWorker_spec fresh.workerId hne
    have hnamed : worker ≠ "" := hnames worker hin
    dsimp only
    unfold executeRetry retryWorker
    rw [pure_bind', hworker]
    dsimp only
    have hrequeued : (requeued fresh failureType now .retryDifferent worker).workerId ≠ "" := hnamed
    obtain ⟨hput, hlists⟩ := puts_of_stores (stores_safePut halone hs hid hrequeued w₁)
    have hyields : Yields (fun _ => True) (Server.safePut s fresh.taskId
        (requeued fresh failureType now .retryDifferent worker)) :=
      .bind (.attempt _) fun _ _ => .pure trivial
    obtain ⟨_, hok, -⟩ := hyields.exec (handle env) w₁
    rw [run_bind hok]
    exact h₁.relist halone hs hfresh₁ (show (requeued fresh failureType now .retryDifferent
      worker).taskId = fresh.taskId from rfl) hnamed hput hlists

end Matched

/-! ### Moves -/

namespace Matched

variable {w : World}

/-- **A move** of a record that is kept under its own id, from a worker whose list it leaves. -/
theorem run_move (h : Matched node w) {x : String} {record : ResultRecord}
    (hrecord : recordAt w node.address x = some record) (htask : record.taskId = x) {dst : String}
    (hdst : dst ≠ "") {srcLive : Bool}
    (hleaves : srcLive = true ∨ strip dst = strip record.workerId) :
    ∃ w', run env (move s x record srcLive dst) w = (.ok (), w') ∧ Matched node w' ∧
      ∀ y, y ≠ x → recordAt w' node.address y = recordAt w node.address y := by
  obtain ⟨-, hx⟩ := h.key_eq hrecord
  have hnamed : record.workerId ≠ "" := h.named _ _ _ (recordAt_eq_some.1 hrecord)
  have hstores : (handle env (.put s.node.address (.result x)
      (.result (reassigned record dst))) w).2.stores =
        w.stores.put node.address (.result x) (.result (reassigned record dst)) := by
    rw [← hs]
    rfl
  obtain ⟨hput, hlists⟩ := puts_of_stores hstores
  unfold move
  rw [run_act_bind]
  generalize (handle env (.put s.node.address (.result x) (.result (reassigned record dst))) w).2 =
    w₁ at hput hlists
  -- the lists, once the task has left that of `old`
  have happend : ∀ (old : Option String) (w₂ : World), SameResults w₁ w₂ →
      (∀ v, listAt node w₂ v = if some v = old then removed x (listAt node w v) else
        listAt node w v) →
      old = some (strip record.workerId) ∨ strip dst = strip record.workerId →
      ∃ w', run env (WorkerAssignment.append s dst x >>= fun _ => pure ()) w₂ = (.ok (), w') ∧
        Matched node w' ∧ ∀ y, y ≠ x → recordAt w' node.address y = recordAt w node.address y := by
    intro old w₂ hsame₂ hlists₂ hold
    obtain ⟨⟨z, hz⟩, hlists₃⟩ := run_append_alone halone hs hdst x w₂
    have honly : Only Op.Listing (WorkerAssignment.append s dst x) :=
      .of_does (serving_listing.append _ _)
    have hsame₃ := (honly.listing env w₂).2
    rw [run_bind hz]
    generalize (run env (WorkerAssignment.append s dst x) w₂).2 = w₃ at hlists₃ hsame₃
    have hputs : Puts node x (reassigned record dst) w w₃ := fun a y =>
      ((hsame₃ a y).trans (hsame₂ a y)).trans (hput a y)
    refine ⟨w₃, rfl, ?_, fun y hy => ?_⟩
    · have hfresh : recordAt w node.address (strip record.taskId) = some record := hx ▸ hrecord
      refine h.moved hfresh (show (reassigned record dst).taskId = record.taskId from rfl) hdst ?_
        old hold fun v => ?_
      · rw [show strip (reassigned record dst).taskId = x from hx]
        exact hputs
      · rw [hlists₃, hlists₂, htask]
        rfl
    · rw [recordAt_puts hputs, if_neg fun hspot => hy hspot.2]
  cases srcLive with
  | false => exact happend none w₁ (fun _ _ => rfl) hlists (.inr (hleaves.resolve_left (by decide)))
  | true =>
    obtain ⟨⟨y, hy⟩, hlists₂⟩ := run_remove_alone halone hs hnamed x w₁
    have honly : Only Op.Listing (WorkerAssignment.remove s record.workerId x) :=
      .of_does (serving_listing.remove _ _)
    have hafter := happend (some (strip record.workerId)) _ (honly.listing env w₁).2
      (fun v => by rw [hlists₂, hlists]; simp) (.inl rfl)
    simp only [if_true]
    rw [run_bind hy]
    exact hafter

end Matched

end Alone

end Server
end ChordInfra
