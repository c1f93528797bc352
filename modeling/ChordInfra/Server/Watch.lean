/-
# One task under the scans of its home node

`Watch` says of a property of records that the record of a task, at the node that owns it,
has it, with what is needed to follow that record through the recoveries of a scan of
that node: no second copy of it there and no other recovery of it under way.
-/

import ChordInfra.Server.Scans

namespace ChordInfra
namespace Server

open Interact Prog
open Storage
open ChordInfra.Ring (NodeRef)

/-! ### The record under watch -/

/-- The node that owns the record of the task `id` has one, with the property, under
no other id, and is not recovering it. -/
structure Watch (s : Service) (id : String) (φ : ResultRecord → Prop) (w : World) : Prop where
  kept : Kept Kind w
  proper : (w.registries s.node.address).Proper
  free : ∀ t, strip t = strip id → t ∉ (w.managers s.node.address).inProgress
  alone : ∀ x v, (w.stores s.node.address).get (.result x) = some v → strip x = strip id →
    x = strip id
  record : ∃ r, (w.stores s.node.address).get (.result (strip id)) = some (.result r) ∧
    r.workerId ≠ "" ∧ φ r

namespace Watch

variable {s : Service} {id : String} {φ ψ : ResultRecord → Prop} {w w' : World}

theorem mono (h : Watch s id φ w) (hφ : ∀ r, Regular r → φ r → ψ r) : Watch s id ψ w := by
  obtain ⟨r, hget, hworker, hr⟩ := h.record
  exact { h with record := ⟨r, hget, hworker, hφ r (h.kept _ _ _ hget).2 hr⟩ }

variable {env : Env} {ring : FixedRing env}

/-- Where the write of a record is seen at the home node of a task. -/
theorem home_get (hhome : s.node = ring.home id) {k : ℕ} {x : String} {record : ResultRecord}
    (hov : Overwritten ring k x record w w') (y : String) (hy : strip y = strip id) :
    (w'.stores s.node.address).get (.result y) =
      if record.workerId ≠ "" ∧ strip x = strip id ∧ y = strip id then some (.result record)
      else (w.stores s.node.address).get (.result y) := by
  rw [hov s.node.address y]
  by_cases hworker : record.workerId = ""
  · rw [if_pos hworker, if_neg fun h => h.1 hworker]
  · rw [if_neg hworker, ring.get_written]
    by_cases hx : strip x = strip id
    · have haddress : (ring.home x).address = s.node.address := by
        rw [hhome, FixedRing.home, FixedRing.home, hx]
      have hnot : s.node.address ∉ (ring.replicas k (ring.home x)).map
          NodeRef.address := by
        intro hmem
        obtain ⟨m, hm, heq⟩ := List.mem_map.1 hmem
        exact ring.replicas_ne _ _ m hm (heq.trans haddress.symm)
      by_cases hyx : y = strip id
      · rw [if_pos (.inr ⟨haddress.symm, hyx.trans hx.symm⟩), if_pos ⟨hworker, hx, hyx⟩]
      · rw [if_neg, if_neg fun h => hyx h.2.2]
        rintro (⟨hmem, -⟩ | ⟨-, h⟩)
        · exact hnot hmem
        · exact hyx (h.trans hx)
    · rw [if_neg, if_neg fun h => hx h.2.1]
      rintro (⟨-, rfl⟩ | ⟨-, h⟩)
      · exact hx hy
      · exact hx (by rw [← hy, h, strip_strip])

/-- The write of a record: one of another task keeps the property, one of this task
replaces the record. -/
theorem overwritten (h : Watch s id φ w) (hhome : s.node = ring.home id) (hkept : Kept Kind w')
    (hcalm : Calm w w') {k : ℕ} {x : String} {record : ResultRecord}
    (hov : Overwritten ring k x record w w')
    (hother : strip x ≠ strip id → ∀ r, φ r → ψ r)
    (hsame : strip x = strip id → record.workerId ≠ "" ∧ ψ record) : Watch s id ψ w' where
  kept := hkept
  proper := h.proper.of_workers (hcalm.workers _)
  free t ht := by
    rw [hcalm.inProgress]
    exact h.free t ht
  alone y v hv hy := by
    rw [home_get hhome hov y hy] at hv
    split_ifs at hv with hcase
    · exact hcase.2.2
    · exact h.alone y v hv hy
  record := by
    rw [home_get hhome hov _ (strip_strip id)]
    by_cases hx : strip x = strip id
    · obtain ⟨hworker, hψ⟩ := hsame hx
      rw [if_pos ⟨hworker, hx, rfl⟩]
      exact ⟨record, rfl, hworker, hψ⟩
    · rw [if_neg fun hc => hx hc.2.1]
      obtain ⟨r, hget, hworker, hr⟩ := h.record
      exact ⟨r, hget, hworker, hother hx r hr⟩

variable (ring)

/-- The record under watch can be followed through the scans of its home node. -/
theorem tracks (hs : s.node ∈ ring.members) (hhome : s.node = ring.home id)
    (hid : strip id ≠ "") : Tracks ring s id (fun _ => True) (Watch s id) where
  member := hs
  named := hid
  kept := kept
  proper := proper
  free := free
  mono := mono
  same h hkept hcalm hsame := {
    kept := hkept
    proper := h.proper.of_workers (hcalm.workers _)
    free := fun t ht => by rw [hcalm.inProgress]; exact h.free t ht
    alone := fun y v hv => h.alone y v ((hsame _ y) ▸ hv)
    record := by rw [hsame]; exact h.record }
  taskId _ _ := trivial
  overwritten h hkept hcalm hov hother hsame :=
    h.overwritten hhome hkept hcalm hov hother fun htask => (hsame htask).2
  listed {φ w x r} h hget := by
    have hkind := h.kept _ _ _ hget
    refine ⟨⟨rfl, hkind.2⟩, fun htask => ?_⟩
    obtain rfl := h.alone x _ hget (hkind.1.symm.trans htask)
    obtain ⟨r', hget', hworker, hφ⟩ := h.record
    cases hget.symm.trans hget'
    exact ⟨trivial, hworker, hφ⟩
  found {φ w t x} h htask hread := by
    obtain ⟨r, hget, hworker, hφ⟩ := h.record
    have hx : x = some r := by
      refine hread.home (.result r) (htask ▸ hid) ?_
      have hfrom : ring.home t = s.node := by rw [hhome, FixedRing.home, FixedRing.home, htask]
      rw [hfrom, htask]
      exact hget
    subst hx
    refine ⟨fun r' hr' => ?_, fun ψ hψ => { h with record := ⟨r, hget, hworker, hψ r rfl⟩ }⟩
    cases hr'
    exact ⟨⟨rfl, (h.kept _ _ _ hget).2⟩, fun _ => ⟨trivial, hworker, hφ⟩⟩

/-- The listing of the records has the one under watch. -/
theorem records (hs : s.node ∈ ring.members) (hhome : s.node = ring.home id)
    (hid : strip id ≠ "") (φ : ResultRecord → Prop) :
    Ends (handle env) (Watch s id φ) (allHt1Records s) fun l w =>
      ((∀ r ∈ l, Shown id (fun _ => True) φ r) ∧ ∃ r ∈ l, strip r.taskId = strip id ∧ φ r) ∧
        Watch s id φ w := by
  refine ⟨fun w hw => ?_⟩
  obtain ⟨l, w', hrun, hshown, hw'⟩ := (tracks ring hs hhome hid).records.holds w hw
  refine ⟨l, w', hrun, ⟨hshown, ?_⟩, hw'⟩
  obtain ⟨r, hget, -, hφ⟩ := hw.record
  cases hrun
  refine ⟨r, List.mem_filterMap.2 ⟨(.result (strip id), .result r), ?_, rfl⟩, ?_, hφ⟩
  · exact (w.stores s.node.address).mem_entries_iff.2 hget
  · exact (hw.kept _ _ _ hget).1.trans (strip_strip id)

end Watch

end Server
end ChordInfra
