/-
# A move of a task

`RecoveryManager._execute` queues a task again on another worker, and `_do_rebalance` gives it to a
less loaded one.  Both write three things: the record (HT1), the list of the old worker, from which
the task is removed, and the list of the new one, to which it is appended (HT2).  Each write may
fail, a failure of the first and of the second does not stop a recovery, and nothing is undone.

A task that is on no list of the worker its record names is looked at by no detector as long as that
worker lives.  `Move.kept_iff` says when the task stays on that list, and a move that failed leaves
record and lists alone: exactly when the record and the append went well, or the record did not and
nothing else was written either.  (`createTask` deletes the record again when its append fails.)

The owners are fixed and any request may fail (`Owned`); the move runs alone.
-/

import ChordInfra.Server.CreateTask
import ChordInfra.Server.Recovery
import ChordInfra.Storage.ListWrites

namespace ChordInfra
namespace Server

open Interact Prog
open Storage Replication WorkerAssignment
open ChordInfra.Ring (NodeRef)

/-! ### What a move is about -/

section Books

variable {env : Env}

/-- The stored record of a task. -/
def storedRecord (owned : Owned env) (w : World) (key : String) : Option ResultRecord :=
  ((w.stores (owned.owner (.result key)).address).get (.result key)).bind Value.asResult

/-- The stored list of a worker. -/
def storedTasks (owned : Owned env) (w : World) (workerId : String) : List String :=
  tasksOf ((w.stores (owned.listHome workerId)).get (.worker (strip workerId)))

/-- What a move may change of a record: the worker and the number of attempts. -/
def assignment (record : ResultRecord) : String × ℕ := (record.workerId, record.attemptCount)

end Books

/-- A move: the task, the workers, the record that is written, whether the write of the record or
the append failed, and the worlds before the move and after each of its three writes. -/
structure Move where
  key : String
  taskId : String
  src : String
  dst : String
  record : ResultRecord
  failed : Prop
  before : World
  written : World
  unlisted : World
  after : World

namespace Move

/-- The moves of a service: those of a retry, with what became of its three writes, and those of a
rebalance. -/
inductive Made (env : Env) (s : Service) : Move → Prop
  | retry {record : ResultRecord} {path : Path} {failureType : Option FailureType}
      {scored : List (String × ℚ)} {now : ℕ} {dst : String} {w w₀ w₁ w₂ w₃ : World}
      {x₁ : Except Exc WriteReport} {x₂ : Except Exc Unit} {x₃ : Except Exc Assignment}
      (hworker : run env (retryWorker s path record.workerId scored) w = (.ok (some dst), w₀))
      (hput : run env (ResultService.put s record.taskId
        (requeued record failureType now path dst)) w₀ = (x₁, w₁))
      (hremove : run env (unlist s record.taskId record.workerId dst) w₁ = (x₂, w₂))
      (happend : run env (append s dst record.taskId) w₂ = (x₃, w₃)) :
      Made env s ⟨strip record.taskId, record.taskId, record.workerId, dst,
        requeued record failureType now path dst, ¬(x₁.isOk ∧ x₃.isOk), w, w₁, w₂, w₃⟩
  | rebalance {taskId : String} {record : ResultRecord} {srcLive : Bool} {dst : String}
      {w w₂ w₃ : World} {x₂ : Except Exc Assignment} {x : Except Exc Unit}
      (hremove : run env (if srcLive then remove s record.workerId taskId else pure ⟨[], false⟩)
        (handle env (.put s.node.address (.result taskId) (.result (reassigned record dst))) w).2 =
          (x₂, w₂))
      (hmove : run env (move s taskId record srcLive dst) w = (x, w₃)) :
      Made env s ⟨taskId, taskId, record.workerId, dst, reassigned record dst, ¬x.isOk, w,
        (handle env (.put s.node.address (.result taskId) (.result (reassigned record dst))) w).2,
        w₂, w₃⟩

variable {env : Env} {s : Service} {m : Move} (owned : Owned env)

/-- The record was written at its owner. -/
def Recorded (m : Move) : Prop :=
  Arrived (owned.owner (.result m.key)).address (.result m.key) m.before m.written

/-- The list of the old worker was written without the task. -/
def Unlisted (m : Move) : Prop :=
  Arrived (owned.listHome m.src) (.worker (strip m.src)) m.written m.unlisted

/-- The list of the new worker was written with the task. -/
def Listed (m : Move) : Prop :=
  Arrived (owned.listHome m.dst) (.worker (strip m.dst)) m.unlisted m.after

/-- What is asked of a move: the task is on the list of the worker that its record names, and a move
that failed changed neither the assignment nor a list. -/
structure Kept (m : Move) : Prop where
  onList : ∃ r, storedRecord owned m.after m.key = some r ∧
    m.taskId ∈ storedTasks owned m.after r.workerId
  undone : m.failed →
    (storedRecord owned m.after m.key).map assignment =
        (storedRecord owned m.before m.key).map assignment ∧
      storedTasks owned m.after m.src = storedTasks owned m.before m.src ∧
      storedTasks owned m.after m.dst = storedTasks owned m.before m.dst

/-- The writes of the move do what is asked.  Where record and append went well, the record is at its
owner, or the worker that the owner's record names is the new one, or keeps the task.  Where one
failed, the task was on the list of its worker, a record that arrived names the same worker and
attempt, and no list was written, or one list twice: the task, which was its last, taken off and put
on again. -/
def Survives (m : Move) : Prop :=
  (¬m.failed ∧ (m.Recorded owned ∨ ∃ r, storedRecord owned m.before m.key = some r ∧
    (strip r.workerId = strip m.dst ∨ (m.taskId ∈ storedTasks owned m.before r.workerId ∧
      ¬(m.Unlisted owned ∧ strip r.workerId = strip m.src))))) ∨
  (m.failed ∧ (∃ r, storedRecord owned m.before m.key = some r ∧
      m.taskId ∈ storedTasks owned m.before r.workerId ∧
      (m.Recorded owned → assignment r = assignment m.record)) ∧
    ((¬m.Unlisted owned ∧ ¬m.Listed owned) ∨
      (m.Unlisted owned ∧ m.Listed owned ∧ strip m.src = strip m.dst ∧
        removed m.taskId (storedTasks owned m.before m.src) ++ [m.taskId] =
          storedTasks owned m.before m.src)))

/-- What the three writes do, each to what it is about. -/
structure Effects (m : Move) : Prop where
  worker : m.record.workerId = m.dst
  recorded : m.Recorded owned → storedRecord owned m.after m.key = some m.record
  unrecorded : ¬m.Recorded owned →
    storedRecord owned m.after m.key = storedRecord owned m.before m.key
  unlist : (m.Unlisted owned ∧ m.taskId ∈ storedTasks owned m.before m.src ∧
      storedTasks owned m.unlisted m.src = removed m.taskId (storedTasks owned m.before m.src)) ∨
    (¬m.Unlisted owned ∧ storedTasks owned m.unlisted m.src = storedTasks owned m.before m.src)
  unlistOther : ∀ v, strip v ≠ strip m.src →
    storedTasks owned m.unlisted v = storedTasks owned m.before v
  list : (m.Listed owned ∧ m.taskId ∉ storedTasks owned m.unlisted m.dst ∧
      storedTasks owned m.after m.dst = storedTasks owned m.unlisted m.dst ++ [m.taskId]) ∨
    (¬m.Listed owned ∧ storedTasks owned m.after m.dst = storedTasks owned m.unlisted m.dst)
  listOther : ∀ v, strip v ≠ strip m.dst →
    storedTasks owned m.after v = storedTasks owned m.unlisted v
  done : ¬m.failed → m.taskId ∈ storedTasks owned m.after m.dst

/-- A list is found by the trimmed name of its worker. -/
theorem storedTasks_congr {u v : String} (h : strip u = strip v) (w : World) :
    storedTasks owned w u = storedTasks owned w v := by
  unfold storedTasks Owned.listHome
  rw [h]

namespace Effects

variable {owned}

/-- Where no list was written, each is as it was. -/
theorem same (h : Effects owned m) (hu : ¬m.Unlisted owned) (hl : ¬m.Listed owned) (v : String) :
    storedTasks owned m.after v = storedTasks owned m.before v := by
  have hunlisted : storedTasks owned m.unlisted v = storedTasks owned m.before v := by
    by_cases hv : strip v = strip m.src
    · rw [storedTasks_congr owned hv, storedTasks_congr owned hv]
      exact (h.unlist.resolve_left fun h => hu h.1).2
    · exact h.unlistOther v hv
  rw [← hunlisted]
  by_cases hv : strip v = strip m.dst
  · rw [storedTasks_congr owned hv, storedTasks_congr owned hv]
    exact (h.list.resolve_left fun h => hl h.1).2
  · exact h.listOther v hv

/-- **When both lists are as they were**: neither was written, or they are one list, from which the
task was taken and to which it was put again, at the end. -/
theorem lists_iff (h : Effects owned m) :
    (storedTasks owned m.after m.src = storedTasks owned m.before m.src ∧
      storedTasks owned m.after m.dst = storedTasks owned m.before m.dst) ↔
    (¬m.Unlisted owned ∧ ¬m.Listed owned) ∨
      (m.Unlisted owned ∧ m.Listed owned ∧ strip m.src = strip m.dst ∧
        removed m.taskId (storedTasks owned m.before m.src) ++ [m.taskId] =
          storedTasks owned m.before m.src) := by
  have hremoved : ∀ l, m.taskId ∈ l → removed m.taskId l ≠ l := fun l hmem heq =>
    removed_eq_self.1 heq hmem
  constructor
  · rintro ⟨hsrc, hdst⟩
    rcases h.unlist with ⟨hu, hmem, hwithout⟩ | ⟨hu, hkept⟩
    · have heq : strip m.src = strip m.dst := by
        by_contra hne
        rw [h.listOther m.src hne, hwithout] at hsrc
        exact hremoved _ hmem hsrc
      rw [storedTasks_congr owned heq] at hwithout
      rcases h.list with ⟨hl, -, hwith⟩ | ⟨hl, hsame⟩
      · rw [hwithout, ← storedTasks_congr owned heq, hsrc] at hwith
        exact .inr ⟨hu, hl, heq, hwith.symm⟩
      · rw [hsame, hwithout, ← storedTasks_congr owned heq] at hdst
        exact absurd hdst (hremoved _ hmem)
    · refine .inl ⟨hu, fun hl => ?_⟩
      have hunlisted : storedTasks owned m.unlisted m.dst = storedTasks owned m.before m.dst := by
        by_cases heq : strip m.dst = strip m.src
        · rw [storedTasks_congr owned heq, hkept, storedTasks_congr owned heq]
        · exact h.unlistOther m.dst heq
      obtain ⟨-, hnot, hwith⟩ := h.list.resolve_right fun h => h.1 hl
      rw [hdst, hunlisted] at hwith
      have hlength := congrArg List.length hwith
      rw [List.length_append, List.length_singleton] at hlength
      omega
  · rintro (⟨hu, hl⟩ | ⟨hu, hl, heq, hend⟩)
    · exact ⟨h.same hu hl _, h.same hu hl _⟩
    · obtain ⟨-, -, hwithout⟩ := h.unlist.resolve_right fun h => h.1 hu
      obtain ⟨-, -, hwith⟩ := h.list.resolve_right fun h => h.1 hl
      rw [← storedTasks_congr owned heq, ← storedTasks_congr owned heq, hwithout, hend] at hwith
      exact ⟨hwith, by rw [← storedTasks_congr owned heq, ← storedTasks_congr owned heq, hwith]⟩

/-- Where both lists are as they were, every list is. -/
theorem lists_same (h : Effects owned m)
    (hsame : storedTasks owned m.after m.src = storedTasks owned m.before m.src ∧
      storedTasks owned m.after m.dst = storedTasks owned m.before m.dst) (v : String) :
    storedTasks owned m.after v = storedTasks owned m.before v := by
  by_cases hsrc : strip v = strip m.src
  · rw [storedTasks_congr owned hsrc, storedTasks_congr owned hsrc, hsame.1]
  by_cases hdst : strip v = strip m.dst
  · rw [storedTasks_congr owned hdst, storedTasks_congr owned hdst, hsame.2]
  · rw [h.listOther v hdst, h.unlistOther v hsrc]

/-- Where the task was put on the list of the new worker, it is on the list of a worker that is the
new one or keeps it. -/
theorem mem_iff (h : Effects owned m) (hdone : m.taskId ∈ storedTasks owned m.after m.dst)
    (v : String) :
    m.taskId ∈ storedTasks owned m.after v ↔ strip v = strip m.dst ∨
      (m.taskId ∈ storedTasks owned m.before v ∧ ¬(m.Unlisted owned ∧ strip v = strip m.src)) := by
  by_cases hdst : strip v = strip m.dst
  · exact iff_of_true (by rwa [storedTasks_congr owned hdst]) (.inl hdst)
  rw [h.listOther v hdst]
  by_cases hsrc : strip v = strip m.src
  · have hne : strip m.src ≠ strip m.dst := hsrc ▸ hdst
    rw [storedTasks_congr owned hsrc, storedTasks_congr owned hsrc, hsrc]
    rcases h.unlist with ⟨hu, -, hwithout⟩ | ⟨hu, hkept⟩
    · rw [hwithout]
      simp [hne, hu, removed]
    · rw [hkept]
      simp [hne, hu]
  · rw [h.unlistOther v hsrc]
    simp [hdst, hsrc]

/-- **What is asked of a move and when it is done**, from what the writes do. -/
theorem kept_iff (h : Effects owned m) : m.Kept owned ↔ m.Survives owned := by
  constructor
  · rintro ⟨⟨r, hr, hmem⟩, hundone⟩
    by_cases hfailed : m.failed
    · obtain ⟨hnames, hlists⟩ := hundone hfailed
      rw [h.lists_same hlists] at hmem
      refine .inr ⟨hfailed, ?_, h.lists_iff.1 hlists⟩
      by_cases hrec : m.Recorded owned
      · have hafter := h.recorded hrec
        obtain rfl : r = m.record := Option.some.inj (hr.symm.trans hafter)
        rw [hafter] at hnames
        obtain ⟨r₀, hr₀, hsame⟩ := Option.map_eq_some_iff.1 hnames.symm
        have hworker : r₀.workerId = m.record.workerId := congrArg Prod.fst hsame
        exact ⟨r₀, hr₀, hworker ▸ hmem, fun _ => hsame⟩
      · exact ⟨r, (h.unrecorded hrec).symm.trans hr, hmem, fun h => absurd h hrec⟩
    · refine .inl ⟨hfailed, ?_⟩
      by_cases hrec : m.Recorded owned
      · exact .inl hrec
      · exact .inr ⟨r, (h.unrecorded hrec).symm.trans hr, (h.mem_iff (h.done hfailed) _).1 hmem⟩
  · rintro (⟨hok, hcases⟩ | ⟨hfailed, ⟨r, hr, hmem, hnames⟩, hlists⟩)
    · have hdone := h.done hok
      refine ⟨?_, fun hfailed => absurd hfailed hok⟩
      by_cases hrec : m.Recorded owned
      · exact ⟨m.record, h.recorded hrec, by rwa [h.worker]⟩
      · obtain ⟨r, hr, hwhere⟩ := hcases.resolve_left hrec
        exact ⟨r, (h.unrecorded hrec).trans hr, (h.mem_iff hdone _).2 hwhere⟩
    · have hsame := h.lists_iff.2 hlists
      by_cases hrec : m.Recorded owned
      · have hafter := h.recorded hrec
        have hassignment := hnames hrec
        have hworker : r.workerId = m.record.workerId := congrArg Prod.fst hassignment
        refine ⟨⟨m.record, hafter, ?_⟩, fun _ => ⟨?_, hsame⟩⟩
        · rw [h.lists_same hsame, ← hworker]
          exact hmem
        · rw [hafter, hr]
          exact congrArg some hassignment.symm
      · have hafter := h.unrecorded hrec
        refine ⟨⟨r, hafter.trans hr, ?_⟩, fun _ => ⟨by rw [hafter], hsame⟩⟩
        rw [h.lists_same hsame]
        exact hmem

end Effects

/-! ### The three writes -/

/-- Nothing changed but what is under the keys of the list of a worker and of its copies. -/
def OnlyList (workerId : String) (w w' : World) : Prop :=
  ∀ a k, k ≠ .worker (strip workerId) → k ≠ .worker workerId →
    (w'.stores a).get k = (w.stores a).get k

theorem OnlyList.record {workerId : String} {w w' : World} (h : OnlyList workerId w w')
    (key : String) : storedRecord owned w' key = storedRecord owned w key := by
  unfold storedRecord
  rw [h _ _ (fun hk => by cases hk) (fun hk => by cases hk)]

theorem OnlyList.tasks {workerId : String} {w w' : World} (h : OnlyList workerId w w') {v : String}
    (hv : strip v ≠ strip workerId) : storedTasks owned w' v = storedTasks owned w v := by
  unfold storedTasks
  rw [h _ _ (fun hk => hv (Key.worker.inj hk)) fun hk => hv ?_]
  rw [← Key.worker.inj hk, strip_strip]

end Move

namespace ThreeNodes

open Storage.ThreeNodes

/-- The task `t` of the worker `w1`. -/
def assigned : ResultRecord where
  taskId := "t"
  taskType := .script
  path := .null
  script := .str "true"
  status := .pending
  workerId := "w1"
  assignedBy := .frontend
  result := .null
  createdAt := 0
  updatedAt := 0
  attemptCount := 0
  maxAttempts := 3
  lastFailureReason := none
  retryOnFailure := true
  recoveryHistory := []
  waiting := false
  retryAt := none
  timedOut := false
  workerResult := none

/-- What `nodeB` does for the task of a crashed worker. -/
def recovery : M Unit :=
  executeRetry (services nodeB) assigned .retryDifferent (some .workerCrash) [("w2", 1)] 0

end ThreeNodes

end Server
end ChordInfra
