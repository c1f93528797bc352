/-
# Placements

The score-based placements of `/createTask` (`chord/server.py`) on the registry of a node: the best
worker is taken and noted.  Between two heartbeats a placement changes nothing of a score but the
load of the worker it names, so a row of placements is a greedy burst (`Greedy.Burst`).
-/

import ChordInfra.Greedy.Burst
import ChordInfra.Workers.Registry
import Mathlib.Algebra.Order.Ring.Rat
import Mathlib.Tactic.Linarith
import Mathlib.Tactic.Ring

namespace ChordInfra
namespace Workers
namespace Registry

open Greedy (Best Burst charged)

/-- A placement by the scores: the worker named, if any, and noted. -/
def place (r : Registry) (now : ℤ) : Option String × Registry :=
  match r.scoreAllWorkers now with
  | [] => (none, r)
  | (w, _) :: _ => (some w, r.noteAssignment w)

/-- Placements when the clock reads the times given, with the workers that they name. -/
def placements (r : Registry) : List ℤ → List String × Registry
  | [] => ([], r)
  | now :: times =>
    let (w, r₁) := r.place now
    let (ws, r₂) := r₁.placements times
    (w.toList ++ ws, r₂)

variable {r : Registry} {now : ℤ} {w : String}

/-- The worker that comes first is a live one with the best score. -/
theorem best_of_scoreAllWorkers {e : String × ℚ} {rest : List (String × ℚ)}
    (h : r.scoreAllWorkers now = e :: rest) : Best (r.liveWorkers now) r.score e.1 := by
  have hsorted := List.pairwise_insertionSort (fun x y : String × ℚ => y.2 ≤ x.2)
    ((r.liveWorkers now).map fun w => (w, r.score w))
  change (r.scoreAllWorkers now).Pairwise _ at hsorted
  rw [h, List.pairwise_cons] at hsorted
  have hmem : ∀ x ∈ r.scoreAllWorkers now, x.1 ∈ r.liveWorkers now ∧ x.2 = r.score x.1 := by
    intro x hx
    obtain ⟨v, hv, rfl⟩ := List.mem_map.1 ((List.mem_insertionSort _).1 hx)
    exact ⟨hv, rfl⟩
  obtain ⟨hlive, hscore⟩ := hmem e (h ▸ List.mem_cons_self)
  refine ⟨hlive, fun v hv => ?_⟩
  have hv' : (v, r.score v) ∈ e :: rest :=
    h ▸ (List.mem_insertionSort _).2 (List.mem_map.2 ⟨v, hv, rfl⟩)
  rcases List.mem_cons.1 hv' with heq | hrest
  · exact le_of_eq (by rw [← heq])
  · exact hscore ▸ hsorted.1 _ hrest

/-- The load of the worker noted is one more, and no other score changes. -/
theorem score_noteAssignment (hw : w ≠ "") :
    (r.noteAssignment w).score = charged placementWeightLoad r.score w := by
  funext v
  unfold noteAssignment charged
  rw [if_neg hw]
  by_cases hv : v = w
  · subst hv
    rw [Function.update_self]
    simp only [score, Dict.get_set_self, Option.getD_some]
    push_cast
    ring
  · rw [Function.update_of_ne hv]
    simp only [score, Dict.get_set_ne _ hv]

theorem workers_noteAssignment (r : Registry) (w : String) :
    (r.noteAssignment w).workers = r.workers :=
  (call_of_quiet r 0 (c := .noteAssignment w) trivial).1

theorem liveWorkers_noteAssignment (r : Registry) (w : String) (now : ℤ) :
    (r.noteAssignment w).liveWorkers now = r.liveWorkers now := by
  unfold noteAssignment
  split_ifs <;> rfl

/-- **Placements are greedy choices** among the live workers, while these stay the same. -/
theorem burst_placements {live : List String} {times : List ℤ} (hr : r.Proper)
    (hlive : ∀ t ∈ times, r.liveWorkers t = live) :
    Burst live placementWeightLoad r.score (r.placements times).1 (r.placements times).2.score := by
  induction times generalizing r with
  | nil => exact .done _
  | cons t times ih =>
    obtain ⟨ht, hrest⟩ := List.forall_mem_cons.1 hlive
    unfold placements place
    cases h : r.scoreAllWorkers t with
    | nil => exact ih hr hrest
    | cons e rest =>
      have hbest := best_of_scoreAllWorkers h
      have hname : e.1 ≠ "" := fun he => hr.not_live (he ▸ hbest.1)
      have hproper : (r.noteAssignment e.1).Proper := hr.of_workers (workers_noteAssignment r _)
      have hnext := ih hproper fun t' ht' => (liveWorkers_noteAssignment r e.1 t').trans (hrest t' ht')
      rw [score_noteAssignment hname] at hnext
      exact .choose (ht ▸ hbest) hnext

/-- **No worker is piled onto.**  After any number of placements without a heartbeat, a completion
or an expiry in between, no live worker's score is above that of a worker that received a task by
more than the weight of one task; and workers that started with equal scores received equally many
tasks, up to one. -/
theorem placements_balanced (hr : r.Proper) {live : List String} {times : List ℤ}
    (hlive : ∀ t ∈ times, r.liveWorkers t = live) :
    (∀ i ∈ live, ∀ j ∈ (r.placements times).1,
      (r.placements times).2.score i ≤ (r.placements times).2.score j + placementWeightLoad) ∧
    ∀ i ∈ live, ∀ j ∈ live, r.score i = r.score j →
      (r.placements times).1.count j ≤ (r.placements times).1.count i + 1 := by
  have hcost : (0 : ℚ) < placementWeightLoad := by norm_num [placementWeightLoad]
  have hburst := burst_placements hr hlive
  exact ⟨fun i hi j hj => hburst.balanced hcost.le hi hj,
    fun i hi j _ hij => hburst.count_le hcost hi hij⟩

/-- A registry with two workers that were heard of, one of them with a task. -/
def twoWorkers : Registry :=
  (((Registry.init 10000).heartbeat 0 "v" 0 none none).2.heartbeat 0 "w" 1 none none).2

/-- Three placements on them. -/
theorem placements_balanced_twoWorkers :
    (∀ i ∈ ["v", "w"], ∀ j ∈ (twoWorkers.placements [1, 2, 3]).1,
      (twoWorkers.placements [1, 2, 3]).2.score i ≤
        (twoWorkers.placements [1, 2, 3]).2.score j + placementWeightLoad) ∧
    ∀ i ∈ ["v", "w"], ∀ j ∈ ["v", "w"], twoWorkers.score i = twoWorkers.score j →
      (twoWorkers.placements [1, 2, 3]).1.count j ≤ (twoWorkers.placements [1, 2, 3]).1.count i + 1 :=
  have hproper : twoWorkers.Proper := by rfl
  placements_balanced hproper (by decide +kernel)

end Registry
end Workers
end ChordInfra
