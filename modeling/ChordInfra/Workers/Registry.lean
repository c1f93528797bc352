/-
# The registry of workers

`chord/worker_registry.py` and the placement constants of
`chord/worker_config.py`.  A node's registry remembers each worker's last
heartbeat, what it reported there and how its tasks ended, and says which
workers are live and which of them is placed first.

Times are milliseconds and scores are exact rationals.  Every method reads the
clock at most once, so the reading is an argument.
-/

import ChordInfra.Dict.Basic
import Mathlib.Data.List.Sort
import Mathlib.Algebra.Order.Field.Rat
import Mathlib.Data.String.Basic

namespace ChordInfra
namespace Workers

/-- `WorkerMetrics`: what the last heartbeat said. -/
structure WorkerMetrics where
  pendingTasks : ℤ
  latencyMs : ℤ
  lastHeartbeatTs : ℤ

/-- `WorkerStats`: how the worker's tasks ended. -/
structure WorkerStats where
  totalExecuted : ℕ
  successful : ℕ
  failed : ℕ

namespace WorkerStats

/-- The counters of a worker that ran nothing. -/
def zero : WorkerStats := ⟨0, 0, 0⟩

/-- `success_rate`, one for a worker that ran nothing. -/
def successRate (s : WorkerStats) : ℚ :=
  if s.totalExecuted = 0 then 1 else s.successful / s.totalExecuted

/-- `add_result`. -/
def addResult (s : WorkerStats) (isSuccess : Bool) : WorkerStats :=
  if isSuccess then ⟨s.totalExecuted + 1, s.successful + 1, s.failed⟩
  else ⟨s.totalExecuted + 1, s.successful, s.failed + 1⟩

end WorkerStats

/-- `PLACEMENT_WEIGHT_LOAD`. -/
def placementWeightLoad : ℚ := 1 / 2

/-- `PLACEMENT_WEIGHT_LATENCY`. -/
def placementWeightLatency : ℚ := 3 / 10

/-- `PLACEMENT_WEIGHT_AVAILABILITY`. -/
def placementWeightAvailability : ℚ := 1 / 5

/-- `LATENCY_NORMALIZATION_MS`. -/
def latencyNormalizationMs : ℚ := 100

/-- `WorkerRegistry`. -/
structure Registry where
  workers : Dict String ℤ
  metrics : Dict String WorkerMetrics
  stats : Dict String WorkerStats
  tokens : Dict String String
  optimisticPending : Dict String ℕ
  rrIndex : ℤ
  timeout : ℤ

namespace Registry

/-- `WorkerRegistry.__init__`. -/
def init (timeout : ℤ) : Registry :=
  ⟨.empty, .empty, .empty, .empty, .empty, -1, timeout⟩

/-- `heartbeat`: the time, the report and the process token are kept, and the
optimistic count starts again from zero.  The answer is the token of another
process under the same id. -/
def heartbeat (r : Registry) (now : ℤ) (workerId : String) (pendingTasks : ℤ)
    (timestamp : Option ℤ) (processToken : Option String) : Option String × Registry :=
  let collision := processToken.bind fun token =>
    (r.tokens.get workerId).filter fun prev => prev ≠ "" ∧ prev ≠ token
  (collision,
    { r with
      tokens := match processToken with
        | some token => r.tokens.set workerId token
        | none => r.tokens
      workers := r.workers.set workerId now
      metrics := r.metrics.set workerId
        ⟨pendingTasks, (timestamp.map fun t => max 0 (now - t)).getD 0, now⟩
      stats := r.stats.set workerId ((r.stats.get workerId).getD .zero)
      optimisticPending := r.optimisticPending.erase workerId })

/-- `remove`: whether the worker was there. -/
def remove (r : Registry) (workerId : String) : Bool × Registry :=
  ((r.workers.get workerId).isSome,
    { r with workers := r.workers.erase workerId, metrics := r.metrics.erase workerId })

/-- A worker whose last heartbeat is recent enough; a timeout of zero or less
never expires. -/
def Fresh (r : Registry) (now last : ℤ) : Prop := r.timeout ≤ 0 ∨ now - last ≤ r.timeout

instance (r : Registry) (now last : ℤ) : Decidable (r.Fresh now last) :=
  inferInstanceAs (Decidable (_ ∨ _))

/-- `live_workers`, sorted by id. -/
def liveWorkers (r : Registry) (now : ℤ) : List String :=
  ((r.workers.entries.filter fun e => r.Fresh now e.2).map Prod.fst).insertionSort (· ≤ ·)

/-- `all_workers`: every worker seen, with its last heartbeat and its age. -/
def allWorkers (r : Registry) (now : ℤ) : List (String × ℤ × ℤ) :=
  (r.workers.entries.insertionSort fun e e' => e.1 ≤ e'.1).map fun e => (e.1, e.2, now - e.2)

/-- `is_live`. -/
def isLive (r : Registry) (now : ℤ) (workerId : String) : Bool := workerId ∈ r.liveWorkers now

/-- `round_robin_assign`. -/
def roundRobinAssign (r : Registry) (now : ℤ) : Option String × Registry :=
  let live := r.liveWorkers now
  if live = [] then (none, r)
  else
    let index := (r.rrIndex + 1) % live.length
    (live[index.toNat]?, { r with rrIndex := index })

/-- `_score_locked`. -/
def score (r : Registry) (workerId : String) : ℚ :=
  let m := (r.metrics.get workerId).getD ⟨0, 0, 0⟩
  let s := (r.stats.get workerId).getD .zero
  let optimistic := (r.optimisticPending.get workerId).getD 0
  placementWeightLoad * -(m.pendingTasks + optimistic : ℚ)
    + placementWeightLatency * -(m.latencyMs / latencyNormalizationMs)
    + placementWeightAvailability * s.successRate

/-- The load that a score weighs: what the last heartbeat said, and what was placed since. -/
def effectiveLoad (r : Registry) (workerId : String) : ℤ :=
  ((r.metrics.get workerId).getD ⟨0, 0, 0⟩).pendingTasks +
    (r.optimisticPending.get workerId).getD 0

/-- `score_all_workers`: the live workers with their scores, best first. -/
def scoreAllWorkers (r : Registry) (now : ℤ) : List (String × ℚ) :=
  ((r.liveWorkers now).map fun w => (w, r.score w)).insertionSort fun x y => y.2 ≤ x.2

/-- `note_assignment`. -/
def noteAssignment (r : Registry) (workerId : String) : Registry :=
  if workerId = "" then r
  else { r with
    optimisticPending :=
      r.optimisticPending.set workerId ((r.optimisticPending.get workerId).getD 0 + 1) }

/-- `record_completion`. -/
def recordCompletion (r : Registry) (workerId : String) (isSuccess : Bool) : Registry :=
  if workerId = "" then r
  else { r with
    stats := r.stats.set workerId (((r.stats.get workerId).getD .zero).addResult isSuccess) }

/-- `get_stats(worker_id).total_executed`. -/
def totalExecuted (r : Registry) (workerId : String) : ℕ :=
  ((r.stats.get workerId).getD .zero).totalExecuted

/-- A call of one of the methods. -/
inductive Call
  | heartbeat (workerId : String) (pendingTasks : ℤ) (timestamp : Option ℤ)
      (processToken : Option String)
  | remove (workerId : String)
  | liveWorkers
  | allWorkers
  | isLive (workerId : String)
  | roundRobinAssign
  | scoreAllWorkers
  | noteAssignment (workerId : String)
  | recordCompletion (workerId : String) (isSuccess : Bool)

/-- What a call returns. -/
@[reducible] def Call.Res : Call → Type
  | heartbeat .. => Option String
  | remove _ => Bool
  | liveWorkers => List String
  | allWorkers => List (String × ℤ × ℤ)
  | isLive _ => Bool
  | roundRobinAssign => Option String
  | scoreAllWorkers => List (String × ℚ)
  | noteAssignment _ => Unit
  | recordCompletion .. => Unit

/-- A heartbeat names its worker. -/
def Call.Named : Call → Prop
  | heartbeat workerId .. => workerId ≠ ""
  | _ => True

/-- A call that changes neither which workers there are nor when they were last heard of. -/
def Call.Quiet : Call → Prop
  | heartbeat .. | remove _ => False
  | _ => True

/-- A call that adds to how the tasks of a worker ended. -/
def Call.Credits : Call → Prop
  | recordCompletion .. => True
  | _ => False

theorem Call.Quiet.named {c : Call} (h : c.Quiet) : c.Named := by
  cases c with
  | heartbeat => exact h.elim
  | _ => trivial

/-- A call made when the clock reads `now`. -/
def call (now : ℤ) : (c : Call) → Registry → c.Res × Registry
  | .heartbeat w p t token, r => r.heartbeat now w p t token
  | .remove w, r => r.remove w
  | .liveWorkers, r => (r.liveWorkers now, r)
  | .allWorkers, r => (r.allWorkers now, r)
  | .isLive w, r => (r.isLive now w, r)
  | .roundRobinAssign, r => r.roundRobinAssign now
  | .scoreAllWorkers, r => (r.scoreAllWorkers now, r)
  | .noteAssignment w, r => ((), r.noteAssignment w)
  | .recordCompletion w ok, r => ((), r.recordCompletion w ok)

variable {r : Registry} {now : ℤ} {w : String}

theorem mem_liveWorkers : w ∈ r.liveWorkers now ↔ ∃ t, r.workers.get w = some t ∧ r.Fresh now t := by
  rw [liveWorkers, List.mem_insertionSort, List.mem_map]
  constructor
  · rintro ⟨⟨w', t⟩, he, rfl⟩
    obtain ⟨hmem, hfresh⟩ := List.mem_filter.1 he
    exact ⟨t, r.workers.mem_entries_iff.1 hmem, by simpa using hfresh⟩
  · rintro ⟨t, hget, hfresh⟩
    exact ⟨(w, t), List.mem_filter.2 ⟨r.workers.mem_entries_iff.2 hget, by simpa using hfresh⟩, rfl⟩

@[simp] theorem isLive_iff : r.isLive now w = true ↔ w ∈ r.liveWorkers now := by
  simp [isLive]

theorem nodup_liveWorkers (r : Registry) (now : ℤ) : (r.liveWorkers now).Nodup :=
  (List.perm_insertionSort _ _).nodup_iff.2
    (r.workers.nodup.sublist (List.filter_sublist.map Prod.fst))

/-- No worker is registered without a name. -/
def Proper (r : Registry) : Prop := r.workers.get "" = none

theorem Proper.of_workers {r' : Registry} (h : r.Proper) (hw : r'.workers = r.workers) :
    r'.Proper := by
  unfold Proper
  rw [hw]
  exact h

theorem Proper.call {c : Call} (h : r.Proper) (hc : c.Named) : (r.call now c).2.Proper := by
  unfold Proper at h ⊢
  cases c with
  | heartbeat v n t token => exact (Dict.get_set_ne _ (Ne.symm hc) _).trans h
  | remove v =>
    change (r.workers.erase v).get "" = none
    rw [Dict.get_erase]
    split_ifs <;> first | rfl | exact h
  | roundRobinAssign =>
    change (r.roundRobinAssign now).2.workers.get "" = none
    unfold roundRobinAssign
    dsimp only
    split_ifs <;> exact h
  | noteAssignment v =>
    change (r.noteAssignment v).workers.get "" = none
    unfold noteAssignment
    split_ifs <;> exact h
  | recordCompletion v ok =>
    change (r.recordCompletion v ok).workers.get "" = none
    unfold recordCompletion
    split_ifs <;> exact h
  | _ => exact h

/-- A quiet call leaves the workers and the timeout as they are. -/
theorem call_of_quiet (r : Registry) (now : ℤ) {c : Call} (hc : c.Quiet) :
    (r.call now c).2.workers = r.workers ∧ (r.call now c).2.timeout = r.timeout := by
  cases c with
  | heartbeat => exact hc.elim
  | remove => exact hc.elim
  | roundRobinAssign =>
    change (r.roundRobinAssign now).2.workers = _ ∧ (r.roundRobinAssign now).2.timeout = _
    unfold roundRobinAssign
    dsimp only
    split_ifs <;> exact ⟨rfl, rfl⟩
  | noteAssignment v =>
    change (r.noteAssignment v).workers = _ ∧ (r.noteAssignment v).timeout = _
    unfold noteAssignment
    split_ifs <;> exact ⟨rfl, rfl⟩
  | recordCompletion v ok =>
    change (r.recordCompletion v ok).workers = _ ∧ (r.recordCompletion v ok).timeout = _
    unfold recordCompletion
    split_ifs <;> exact ⟨rfl, rfl⟩
  | _ => exact ⟨rfl, rfl⟩

/-- More load, a lower score. -/
theorem score_eq (r : Registry) (w : String) :
    r.score w = placementWeightLoad * -(r.effectiveLoad w : ℚ)
      + placementWeightLatency *
        -(((r.metrics.get w).getD ⟨0, 0, 0⟩).latencyMs / latencyNormalizationMs)
      + placementWeightAvailability * ((r.stats.get w).getD .zero).successRate := by
  simp only [score, effectiveLoad, Int.cast_add, Int.cast_natCast]

/-- A heartbeat replaces the load of its worker. -/
theorem effectiveLoad_heartbeat (r : Registry) (now : ℤ) (u : String) (n : ℤ) (t : Option ℤ)
    (token : Option String) (v : String) :
    (r.heartbeat now u n t token).2.effectiveLoad v = if v = u then n else r.effectiveLoad v := by
  unfold effectiveLoad heartbeat
  dsimp only
  rw [Dict.get_set, Dict.get_erase]
  split_ifs <;> simp

/-- A placement adds one to the load of its worker. -/
theorem effectiveLoad_noteAssignment (r : Registry) {u : String} (hu : u ≠ "") (v : String) :
    (r.noteAssignment u).effectiveLoad v = r.effectiveLoad v + if v = u then 1 else 0 := by
  unfold noteAssignment
  rw [if_neg hu]
  unfold effectiveLoad
  dsimp only
  rw [Dict.get_set]
  split_ifs with hv
  · subst hv
    rw [Option.getD_some, Nat.cast_add, Nat.cast_one, add_assoc]
  · rw [add_zero]

/-- Calls other than heartbeats and removals take nothing from a load. -/
theorem effectiveLoad_le_call (r : Registry) (now : ℤ) {c : Call} (hc : c.Quiet) (v : String) :
    r.effectiveLoad v ≤ (r.call now c).2.effectiveLoad v := by
  cases c with
  | heartbeat => exact hc.elim
  | remove => exact hc.elim
  | roundRobinAssign =>
    change _ ≤ (r.roundRobinAssign now).2.effectiveLoad v
    unfold roundRobinAssign
    dsimp only
    split_ifs <;> exact le_rfl
  | noteAssignment u =>
    change _ ≤ (r.noteAssignment u).effectiveLoad v
    by_cases hu : u = ""
    · unfold noteAssignment
      rw [if_pos hu]
    · rw [effectiveLoad_noteAssignment r hu]
      split_ifs <;> omega
  | recordCompletion u ok =>
    change _ ≤ (r.recordCompletion u ok).effectiveLoad v
    unfold recordCompletion
    split_ifs <;> exact le_rfl
  | _ => exact le_rfl

/-- The worker that comes next in turn is live. -/
theorem mem_of_roundRobinAssign (h : (r.roundRobinAssign now).1 = some w) :
    w ∈ r.liveWorkers now := by
  unfold roundRobinAssign at h
  dsimp only at h
  split_ifs at h
  exact List.mem_of_getElem? h

/-- What adds to how the tasks of a worker ended adds one to its executions. -/
theorem totalExecuted_recordCompletion (r : Registry) (u : String) (ok : Bool) {v : String}
    (hv : v ≠ "") :
    (r.recordCompletion u ok).totalExecuted v = r.totalExecuted v + if u = v then 1 else 0 := by
  unfold recordCompletion
  by_cases hempty : u = ""
  · subst hempty
    rw [if_pos rfl, if_neg (Ne.symm hv)]
    rfl
  · rw [if_neg hempty]
    unfold totalExecuted
    rw [Dict.get_set]
    by_cases huv : u = v
    · subst huv
      rw [if_pos rfl, if_pos rfl]
      cases ok <;> rfl
    · rw [if_neg (Ne.symm huv), if_neg huv]
      rfl

/-- The other calls leave the executions of every worker as they are. -/
theorem totalExecuted_call (r : Registry) (now : ℤ) {c : Call} (hc : ¬c.Credits) (v : String) :
    (r.call now c).2.totalExecuted v = r.totalExecuted v := by
  cases c with
  | heartbeat u n t token =>
    unfold totalExecuted
    change (((r.stats.set u _).get v).getD _).totalExecuted = _
    rw [Dict.get_set]
    by_cases huv : v = u
    · subst huv
      rw [if_pos rfl, Option.getD_some]
    · rw [if_neg huv]
  | roundRobinAssign =>
    change (r.roundRobinAssign now).2.totalExecuted v = _
    unfold roundRobinAssign
    dsimp only
    split_ifs <;> rfl
  | noteAssignment u =>
    change (r.noteAssignment u).totalExecuted v = _
    unfold noteAssignment
    split_ifs <;> rfl
  | recordCompletion => exact absurd trivial hc
  | _ => rfl

theorem Proper.not_live (h : r.Proper) : "" ∉ r.liveWorkers now := by
  intro hmem
  obtain ⟨t, ht, -⟩ := mem_liveWorkers.1 hmem
  exact absurd (h.symm.trans ht) (by simp)

theorem Proper.not_seen (h : r.Proper) : "" ∉ (r.allWorkers now).map Prod.fst := by
  intro hmem
  obtain ⟨e, he, heq⟩ := List.mem_map.1 hmem
  obtain ⟨⟨w', t⟩, he', rfl⟩ := List.mem_map.1 he
  obtain rfl : w' = "" := heq
  have hget := r.workers.mem_entries_iff.1 ((List.mem_insertionSort _).1 he')
  exact absurd (h.symm.trans hget) (by simp)

/-- The workers that are scored are the live ones. -/
theorem map_fst_scoreAllWorkers (r : Registry) (now : ℤ) :
    ((r.scoreAllWorkers now).map Prod.fst).Perm (r.liveWorkers now) := by
  have h := (List.perm_insertionSort (fun x y : String × ℚ => y.2 ≤ x.2)
    ((r.liveWorkers now).map fun w => (w, r.score w))).map Prod.fst
  simpa [scoreAllWorkers, Function.comp_def] using h

end Registry

end Workers
end ChordInfra
