/-
# A ring of one node

A node alone, whose clock is set by whoever runs a program on it, with the bodies and the
processes that the concrete runs of the other modules are made of.
-/

import ChordInfra.Server.Recovery
import ChordInfra.Server.TaskRunner
import ChordInfra.Storage.FixedRing

namespace ChordInfra
namespace Server

open Storage
open ChordInfra.Ring (NodeRef)
open Workers (Process)

namespace OneNode

def node : NodeRef := ⟨10, "a"⟩

def services : Service := .standard node

/-- The node when its clock reads `now`; `deliver` says what becomes of each call. -/
def env (now : ℕ) (deliver : Call → Delivery := fun _ => .delivered) : Env where
  deliver _ _ _ := .delivered
  deliverCall _ _ c := deliver c
  findSuccessor _ _ _ := node
  successor _ _ := some node
  now _ := now
  newId _ := "fresh"
  execute _ _ := .ok ⟨0, "", "", 0, false⟩

/-- A node alone is a ring of fixed membership. -/
def ring (now : ℕ) (deliver : Call → Delivery) : FixedRing (env now deliver) where
  members := {node}
  ids_distinct := by
    rintro m rfl m' rfl _
    rfl
  owner _ := node
  owner_mem _ := rfl
  successor _ := some node
  delivered _ _ _ := rfl
  findSuccessor_eq _ _ _ _ := rfl
  successor_eq _ _ := rfl

/-- The request for a task, with a worker where one is named. -/
def body (taskId : String) (workerId : Option String) : Fields :=
  ⟨[("task_id", .str taskId), ("worker_id", (workerId.map Json.str).getD .null),
    ("task_details", .obj [("task_type", .str "SCRIPT")])], by simp⟩

/-- No worker is spawned and no failure injected. -/
def config : Config := ⟨false, none, .nothing⟩

/-- Sets gone through in the order of the registry. -/
def order : SetOrder := ⟨id, fun _ => .refl _⟩

/-- A process of the worker `w` that executes one task at a time. -/
def process : Process := ⟨"p", "w", node, 1⟩

/-- The world after a program run when the clock reads `now`. -/
def after {α : Type} (now : ℕ) (p : M α) (w : World) : World := (run (env now) p w).2

/-- A heartbeat of a worker. -/
def beat (workerId : String) : M (Option Bool) := heartbeat services workerId 0 none none

/-- A request for a task. -/
def create (taskId : String) (workerId : Option String) : M CreateReply :=
  createTask config services (body taskId workerId)

/-- A scan of the manager of the node. -/
def scan : M Unit := RecoveryManager.trigger config services order

/-- What the node's record of a task says: its status, its worker, how often it was queued
again and its history. -/
def record (w : World) (taskId : String) :
    Option (Status × String × ℕ × List HistoryEntry) :=
  (((w.stores node.address).get (.result taskId)).bind Value.asResult).map fun r =>
    (r.status, r.workerId, r.attemptCount, r.recoveryHistory)

/-- Whether there is a record of a task that passes a test. -/
def shows (w : World) (taskId : String) (p : ResultRecord → Bool) : Bool :=
  (((w.stores node.address).get (.result taskId)).bind Value.asResult).any p

theorem exists_of_shows {w : World} {taskId : String} {p : ResultRecord → Bool}
    (h : shows w taskId p = true) :
    ∃ r, (w.stores node.address).get (.result taskId) = some (.result r) ∧ p r = true := by
  cases hget : (w.stores node.address).get (.result taskId) with
  | none =>
    rw [shows, hget] at h
    cases h
  | some v =>
    rw [shows, hget] at h
    cases v with
    | result r => exact ⟨r, rfl, h⟩
    | _ => cases h

/-- The node when its clock shows what `clock` says. -/
def clocked (clock : ℕ → ℕ) : Env := { env 0 with now := clock }

/-- A node alone is a ring of fixed membership, whatever its clock. -/
def clockedRing (clock : ℕ → ℕ) : FixedRing (clocked clock) where
  members := {node}
  ids_distinct := by
    rintro m rfl m' rfl _
    rfl
  owner _ := node
  owner_mem _ := rfl
  successor _ := some node
  delivered _ _ _ := rfl
  findSuccessor_eq _ _ _ _ := rfl
  successor_eq _ _ := rfl

/-- The list of a worker. -/
def tasks (w : World) (workerId : String) : List String :=
  WorkerAssignment.tasksOf ((w.stores node.address).get (.worker workerId))

end OneNode

end Server
end ChordInfra
