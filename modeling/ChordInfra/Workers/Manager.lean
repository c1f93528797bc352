/-
# What the scans and the polls of a process remember

The state that the scans of one `RecoveryManager` share (`chord/recovery.py`): the
tasks that one of them is recovering at the moment, which the others pass over, and
when the manager last asked for a worker.

The state of one task worker (`chord/task_runner.py`): the tasks that its polling
loop has dealt with, and those that it is executing.
-/

import ChordInfra.Ring.Node

namespace ChordInfra
namespace Workers

open ChordInfra.Ring (NodeRef)

/-- The state of a `RecoveryManager`. -/
structure Manager where
  inProgress : List String
  lastSpawnTrigger : ℕ

namespace Manager

/-- `RecoveryManager.__init__`. -/
def init : Manager := ⟨[], 0⟩

/-- `_spawn_cooldown_s`, in milliseconds. -/
def spawnCooldown : ℕ := 3000

/-- The tests and updates of the state. -/
inductive Call
  /-- A task is marked as being recovered, unless it is. -/
  | claim (taskId : String)
  | discard (taskId : String)
  /-- Whether a worker may be asked for, which is then noted. -/
  | spawnDue
  /-- A worker may be asked for again. -/
  | resetSpawn

/-- What a call returns. -/
@[reducible] def Call.Res : Call → Type
  | claim _ | spawnDue => Bool
  | discard _ | resetSpawn => Unit

/-- A call made when the clock reads `now`. -/
def call (now : ℕ) : (c : Call) → Manager → c.Res × Manager
  | .claim taskId, m =>
    (decide (taskId ∉ m.inProgress),
      { m with inProgress := if taskId ∈ m.inProgress then m.inProgress else taskId :: m.inProgress })
  | .discard taskId, m => ((), { m with inProgress := m.inProgress.filter fun t => t ≠ taskId })
  | .spawnDue, m =>
    (decide (spawnCooldown ≤ now - m.lastSpawnTrigger),
      { m with lastSpawnTrigger :=
        if spawnCooldown ≤ now - m.lastSpawnTrigger then now else m.lastSpawnTrigger })
  | .resetSpawn, m => ((), { m with lastSpawnTrigger := 0 })

end Manager

/-- A worker process: the worker it is, the node it talks to, and how many tasks it
executes at a time (one, in the polling loop itself, when that is 1).  The token tells
processes with the same worker id apart. -/
structure Process where
  token : String
  workerId : String
  frontend : NodeRef
  concurrency : ℕ
deriving DecidableEq, Repr

/-- The state of a worker process. -/
structure Memory where
  seen : List String
  inflight : List String

namespace Memory

/-- `Worker.__init__`. -/
def init : Memory := ⟨[], []⟩

/-- A task added to a set of tasks. -/
def add (taskId : String) (tasks : List String) : List String :=
  if taskId ∈ tasks then tasks else taskId :: tasks

/-- The tests and updates of the state. -/
inductive Call
  /-- `len(self._inflight) >= self.concurrency`. -/
  | full (concurrency : ℕ)
  /-- `self.seen_task_ids.add`. -/
  | see (taskId : String)
  /-- `tid in self.seen_task_ids`. -/
  | hasSeen (taskId : String)
  /-- `self._inflight.add`. -/
  | begin (taskId : String)
  /-- `self._inflight.discard`. -/
  | finish (taskId : String)
  /-- `len(self._inflight)`. -/
  | pending

/-- What a call returns. -/
@[reducible] def Call.Res : Call → Type
  | full _ | hasSeen _ => Bool
  | see _ | begin _ | finish _ => Unit
  | pending => ℕ

/-- A call. -/
def call : (c : Call) → Memory → c.Res × Memory
  | .full concurrency, m => (decide (concurrency ≤ m.inflight.length), m)
  | .see taskId, m => ((), { m with seen := add taskId m.seen })
  | .hasSeen taskId, m => (decide (taskId ∈ m.seen), m)
  | .begin taskId, m => ((), { m with inflight := add taskId m.inflight })
  | .finish taskId, m => ((), { m with inflight := m.inflight.filter fun t => t ≠ taskId })
  | .pending, m => (m.inflight.length, m)

@[simp] theorem mem_add {taskId t : String} {tasks : List String} :
    t ∈ add taskId tasks ↔ t = taskId ∨ t ∈ tasks := by
  unfold add
  split_ifs with h
  · constructor
    · exact .inr
    · rintro (rfl | ht)
      · exact h
      · exact ht
  · exact List.mem_cons

end Memory

end Workers
end ChordInfra
