/-
# The copies of a record

`Mirror` says of a task that all copies of its record say the same, where every node
writes to the same replicas.  It holds throughout every run in which each operation runs to
its end and no access to a record fails (`Routine`): no node is then taken in by a stale
copy, whichever node scans.

`Mirror.routine` follows a property of the record through such a run.
-/

import ChordInfra.Server.Outcomes
import ChordInfra.Server.Scans

namespace ChordInfra
namespace Server

open Interact Prog
open Storage
open ChordInfra.Ring (NodeRef)

/-- The record of the task `id` has the property, and every copy of it says what its owner
says, where writes put them; `here` is whether there is one. -/
structure Mirror {env : Env} (ring : FixedRing env) (k : ℕ) (id : String) (here : Prop)
    (φ : ResultRecord → Prop) (w : World) : Prop where
  kept : Kept Kind w
  proper : Proper w
  free : ∀ a t, strip t = strip id → t ∉ (w.managers a).inProgress
  present : here → ∃ v, (w.stores (ring.home id).address).get (.result (strip id)) = some v
  copies : ∀ a x v, (w.stores a).get (.result x) = some v → strip x = strip id →
    (a ∈ (ring.replicas k (ring.home id)).map NodeRef.address ∧ x = id ∨
      a = (ring.home id).address ∧ x = strip id) ∧
    (w.stores (ring.home id).address).get (.result (strip id)) = some v
  record : ∀ v, (w.stores (ring.home id).address).get (.result (strip id)) = some v →
    ∃ r, v = .result r ∧ r.taskId = id ∧ r.workerId ≠ "" ∧ φ r

namespace Mirror

variable {env : Env} {ring : FixedRing env} {k : ℕ} {id : String} {here : Prop}
  {φ ψ : ResultRecord → Prop} {w w' : World}

theorem mono (h : Mirror ring k id here φ w) (hφ : ∀ r, Regular r → φ r → ψ r) :
    Mirror ring k id here ψ w := by
  refine { h with record := fun v hv => ?_ }
  obtain ⟨r, rfl, htask, hworker, hr⟩ := h.record v hv
  exact ⟨r, rfl, htask, hworker, hφ r (h.kept _ _ _ hv).2 hr⟩

/-- What writes no record keeps it. -/
theorem same (h : Mirror ring k id here φ w) (hkept : Kept Kind w') (hproper : Proper w')
    (hfree : ∀ a, (w'.managers a).inProgress = (w.managers a).inProgress)
    (hsame : SameResults w w') : Mirror ring k id here φ w' where
  kept := hkept
  proper := hproper
  free a t ht := by
    rw [hfree]
    exact h.free a t ht
  present hhere := by
    rw [hsame]
    exact h.present hhere
  copies a x v hv hx := by
    rw [hsame]
    exact h.copies a x v ((hsame a x).symm.trans hv) hx
  record v hv := h.record v ((hsame _ _).symm.trans hv)

theorem proper_of_calm (h : Proper w) (hcalm : Calm w w') : Proper w' :=
  fun a => (h a).of_workers (hcalm.workers a)

/-- Where the write of a record is seen. -/
theorem get_overwritten {x : String} {record : ResultRecord} (hworker : record.workerId ≠ "")
    (hov : Overwritten ring k x record w w') (a : Address) (y : String) :
    (w'.stores a).get (.result y) =
      if a ∈ (ring.replicas k (ring.home x)).map NodeRef.address ∧ y = x ∨
        a = (ring.home x).address ∧ y = strip x then some (.result record)
      else (w.stores a).get (.result y) := by
  rw [hov a y, if_neg hworker, ring.get_written]

/-- The write of the record of another task. -/
theorem get_overwritten_other {x : String} {record : ResultRecord}
    (hov : Overwritten ring k x record w w') (hx : strip x ≠ strip id) (a : Address) {y : String}
    (hy : strip y = strip id) : (w'.stores a).get (.result y) = (w.stores a).get (.result y) := by
  by_cases hworker : record.workerId = ""
  · rw [hov a y, if_pos hworker]
  · rw [get_overwritten hworker hov, if_neg]
    rintro (⟨-, rfl⟩ | ⟨-, rfl⟩)
    · exact hx hy
    · exact hx (by rw [← hy, strip_strip])

/-- The write of the record of another task keeps it. -/
theorem overwritten_other (h : Mirror ring k id here φ w) (hkept : Kept Kind w')
    (hcalm : Calm w w') {x : String} {record : ResultRecord}
    (hov : Overwritten ring k x record w w') (hx : strip x ≠ strip id) :
    Mirror ring k id here φ w' where
  kept := hkept
  proper := proper_of_calm h.proper hcalm
  free a t ht := by
    rw [hcalm.inProgress]
    exact h.free a t ht
  present hhere := by
    rw [get_overwritten_other hov hx _ (strip_strip id)]
    exact h.present hhere
  copies a y v hv hy := by
    rw [get_overwritten_other hov hx _ hy] at hv
    rw [get_overwritten_other hov hx _ (strip_strip id)]
    exact h.copies a y v hv hy
  record v hv := by
    rw [get_overwritten_other hov hx _ (strip_strip id)] at hv
    exact h.record v hv

/-- The write of a record of the task, under the id it has, where copies are only where the
write puts them. -/
theorem overwritten_same (hkept : Kept Kind w') (hproper : Proper w)
    (hfree : ∀ a t, strip t = strip id → t ∉ (w.managers a).inProgress) (hcalm : Calm w w')
    (hspots : ∀ a x v, (w.stores a).get (.result x) = some v → strip x = strip id →
      a ∈ (ring.replicas k (ring.home id)).map NodeRef.address ∧ x = id ∨
        a = (ring.home id).address ∧ x = strip id)
    {record : ResultRecord} (hov : Overwritten ring k id record w w') (htask : record.taskId = id)
    (hworker : record.workerId ≠ "") (hψ : ψ record) : Mirror ring k id here ψ w' := by
  have hhome : (w'.stores (ring.home id).address).get (.result (strip id)) =
      some (.result record) := by
    rw [get_overwritten hworker hov, if_pos (.inr ⟨rfl, rfl⟩)]
  refine ⟨hkept, proper_of_calm hproper hcalm, fun a t ht => ?_, fun _ => ⟨_, hhome⟩,
    fun a x v hv hx => ?_, fun v hv => ?_⟩
  · rw [hcalm.inProgress]
    exact hfree a t ht
  · rw [hhome]
    rw [get_overwritten hworker hov] at hv
    split_ifs at hv with hspot
    · exact ⟨hspot, hv⟩
    · exact absurd (hspots a x v hv hx) hspot
  · rw [hhome] at hv
    cases hv
    exact ⟨record, rfl, htask, hworker, hψ⟩

/-- Where the owner has no record nobody has. -/
theorem nowhere (h : Mirror ring k id here φ w)
    (hnone : (w.stores (ring.home id).address).get (.result (strip id)) = none) (a : Address)
    {y : String} (hy : strip y = strip id) : (w.stores a).get (.result y) = none := by
  by_contra hsome
  obtain ⟨v, hv⟩ := Option.ne_none_iff_exists'.1 hsome
  have hhome := (h.copies a y v hv hy).2
  rw [hnone] at hhome
  cases hhome

/-- Where nothing was read nothing is. -/
theorem absent (h : Mirror ring k id here φ w) (hid : strip id ≠ "") {t : String}
    (ht : strip t = strip id) (hread : ReadOf ring t w none) :
    (w.stores (ring.home id).address).get (.result (strip id)) = none := by
  cases hget : (w.stores (ring.home id).address).get (.result (strip id)) with
  | none => rfl
  | some v =>
    obtain ⟨r, rfl, -⟩ := h.record v hget
    have hhome : ring.home t = ring.home id := by rw [FixedRing.home, FixedRing.home, ht]
    have hnone := hread.home (.result r) (ht ▸ hid) (by rw [hhome, ht]; exact hget)
    cases hnone

/-- The record of a task can be followed through the scans of every node. -/
theorem tracks (ring : FixedRing env) {s : Service} (hs : s.node ∈ ring.members)
    (hid : strip id ≠ "") (here : Prop) : Tracks ring s id (fun r => r.taskId = id)
      (Mirror ring s.replicationK id here) where
  member := hs
  named := hid
  kept := kept
  proper h := h.proper _
  free h := h.free _
  mono := mono
  same h hkept hcalm hsame :=
    h.same hkept (proper_of_calm h.proper hcalm) hcalm.inProgress hsame
  taskId he hr := he.trans hr
  overwritten {φ ψ w w' record} h hkept hcalm hov hother hsame := by
    by_cases htask : strip record.taskId = strip id
    · obtain ⟨hown, hworker, hψ⟩ := hsame htask
      rw [hown] at hov
      exact overwritten_same hkept h.proper h.free hcalm (fun a x v hv hx => (h.copies a x v hv hx).1)
        hov hown hworker hψ
    · exact (h.mono fun r _ => hother htask r).overwritten_other hkept hcalm hov htask
  listed {φ w x r} h hget := by
    have hkind := h.kept _ _ _ hget
    refine ⟨⟨rfl, hkind.2⟩, fun htask => ?_⟩
    obtain ⟨-, hhome⟩ := h.copies _ x _ hget (hkind.1.symm.trans htask)
    obtain ⟨r', heq, hown, hworker, hφ⟩ := h.record _ hhome
    cases heq
    exact ⟨hown, hworker, hφ⟩
  found {φ w t x} h htask hread := by
    have hfrom : ring.home t = ring.home id := by rw [FixedRing.home, FixedRing.home, htask]
    cases hget : (w.stores (ring.home id).address).get (.result (strip id)) with
    | none =>
      have hx : x = none := hread.absent fun a y hy => h.nowhere hget a (hy.trans htask)
      subst hx
      refine ⟨by simp, fun ψ _ => { h with record := fun v hv => ?_ }⟩
      rw [hget] at hv
      cases hv
    | some v =>
      obtain ⟨r, rfl, hown, hworker, hφ⟩ := h.record v hget
      have hx : x = some r := hread.home (.result r) (htask ▸ hid) (by rw [hfrom, htask]; exact hget)
      subst hx
      refine ⟨fun r' hr' => ?_, fun ψ hψ => { h with record := fun v hv => ?_ }⟩
      · cases hr'
        exact ⟨⟨rfl, (h.kept _ _ _ hget).2⟩, fun _ => ⟨hown, hworker, hφ⟩⟩
      · rw [hget] at hv
        cases hv
        exact ⟨r, rfl, hown, hworker, hψ r rfl⟩

end Mirror

/-! ### Routine operations -/

section Routine

variable {env : Env}

/-- A service of a member that writes to `k` nodes. -/
structure Serves (ring : FixedRing env) (k : ℕ) (s : Service) : Prop where
  member : s.node ∈ ring.members
  replicationK : s.replicationK = k

/-- What goes on at the nodes: requests for tasks, reports, each under the id that the
record of its task has, scans, heartbeats, workers killed, and the cleanups that
reports start. -/
inductive Routine (ring : FixedRing env) (k : ℕ) (w : World) : M Unit → Prop
  | create {cfg : Config} {s : Service} (body : Fields) : Serves ring k s →
      cfg.inject = .nothing → Routine ring k w (Activity.create cfg s body).program
  | report {s : Service} {taskId : String} (status result : Json) : Serves ring k s →
      (∀ r, (w.stores (ring.home taskId).address).get (.result (strip taskId)) =
        some (.result r) → r.taskId = taskId) →
      Routine ring k w (Activity.report s taskId status result).program
  | scan {s : Service} (cfg : Config) (o : SetOrder) : Serves ring k s →
      Routine ring k w (Activity.scan cfg s o).program
  | heartbeat (s : Service) (workerId : String) (pendingTasks : ℤ) (timestamp : Option ℤ)
      (processToken : Option String) : Routine ring k w
        (Activity.heartbeat s workerId pendingTasks timestamp processToken).program
  | kill (s : Service) (workerId : String) : Routine ring k w (Activity.kill s workerId).program
  | cleanup (s : Service) (workerId taskId : String) : Routine ring k w (cleanup s workerId taskId)

/-- What a routine operation does to a property of a record that lasts. -/
structure Lasting (φ : ResultRecord → Prop) : Prop where
  completed : ∀ {r st} (result : Json) (now : ℕ), st = .success ∨ st = .failure → φ r →
    φ (completed r st result now)
  crash : ∀ r, φ r → r.status = .pending ∨ r.status = .running → Turns φ φ (some .workerCrash)
  failed : ∀ r, Regular r → φ r → RecoveryManager.Failed r → Turns φ φ (some .taskFailure)
  resumes : ∀ r, Regular r → r.waiting = true → Resumes φ φ r

theorem lasting_trivial : Lasting fun _ => True where
  completed _ _ _ _ := trivial
  crash _ _ _ r _ _ := by split_ifs <;> simp
  failed _ _ _ _ r _ _ := by split_ifs <;> simp
  resumes r _ _ _ now := by split_ifs <;> simp

/-- Records are regular, and registries proper, whatever operation runs. -/
theorem Routine.laws {ring : FixedRing env} {k : ℕ} {w : World} {p : M Unit}
    (h : Routine ring k w p) (hkept : Kept Kind w) (hproper : Proper w) :
    Kept Kind (run env p w).2 ∧ Proper (run env p w).2 := by
  have hruns : ∀ {A P φ}, Working A P φ → Law φ → Serving.Runs A P p := by
    intro A P φ hworking law
    cases h with
    | cleanup s v t => exact hworking.cleanup v t
    | _ => exact hworking.activity law _
  exact ⟨hkept.run env (hruns (working_writes kind_worker law_kind) law_kind),
    proper_run env (hruns working_named law_trivial) hproper⟩

theorem run_quietly {α : Type} (p : M α) (w : World) :
    (run env (quietly p) w).2 = (run env p w).2 := by
  unfold quietly
  rw [run_attempt_bind]
  rfl

/-- A heartbeat changes no store and no list of tasks under recovery. -/
theorem run_heartbeat (env : Env) (s : Service) (workerId : String) (pendingTasks : ℤ)
    (timestamp : Option ℤ) (processToken : Option String) (w : World) :
    let w' := (run env
      (Activity.heartbeat s workerId pendingTasks timestamp processToken).program w).2
    (∀ a, (w'.managers a).inProgress = (w.managers a).inProgress) ∧ w'.stores = w.stores := by
  simp only [Activity.program, run_quietly]
  unfold Server.heartbeat
  split_ifs <;> exact ⟨fun _ => rfl, rfl⟩

/-- Neither does the end of a worker. -/
theorem run_kill (env : Env) (s : Service) (workerId : String) (w : World) :
    let w' := (run env (Activity.kill s workerId).program w).2
    (∀ a, (w'.managers a).inProgress = (w.managers a).inProgress) ∧ w'.stores = w.stores := by
  refine ⟨fun a => ?_, rfl⟩
  by_cases ha : a = s.node.address
  · subst ha
    have hself : (run env (Activity.kill s workerId).program w).2.managers s.node.address =
        { w.managers s.node.address with lastSpawnTrigger := 0 } := Function.update_self ..
    rw [hself]
  · exact congrArg Workers.Manager.inProgress (Function.update_of_ne ha ..)

/-- Only the two statuses are accepted. -/
theorem reportedStatus_eq_some {status : Json} {st : Status}
    (h : reportedStatus status = .ok (some st)) : st = .success ∨ st = .failure := by
  unfold reportedStatus at h
  split at h <;> cases h
  · exact .inl rfl
  · exact .inr rfl

namespace Mirror

variable {ring : FixedRing env} {k : ℕ} {id : String} {here : Prop} {φ : ResultRecord → Prop}
  {w : World}

/-- A request for a task writes a record of it only where there is none. -/
theorem create (hcalls : ∀ t a c, env.deliverCall t a c = .delivered) (hid : strip id ≠ "")
    (hnew : ¬here → ∀ r, φ r) (h : Mirror ring k id here φ w) {cfg : Config} {s : Service}
    (hs : Serves ring k s) (hinject : cfg.inject = .nothing) (body : Fields)
    (hkept : Kept Kind (run env (createTask cfg s body) w).2)
    (hproper : Proper (run env (createTask cfg s body) w).2) :
    ∃ id', strip id' = strip id ∧ (here → id' = id) ∧
      Mirror ring k id' here φ (run env (createTask cfg s body) w).2 := by
  obtain ⟨hmember, rfl⟩ := hs
  have hcalm := calm_createTask env cfg s body w
  rcases run_createTask ring hcalls hmember hinject body h.kept.owns with
    hstores | ⟨record, mid, hcreated⟩
  · exact ⟨id, rfl, fun _ => rfl,
      h.same hkept hproper hcalm.inProgress (.of_stores hstores)⟩
  · have hov := hcreated.overwritten
    by_cases htask : strip record.taskId = strip id
    · have habsent := h.absent hid htask hcreated.fresh
      have hnot : ¬here := fun hhere => by
        obtain ⟨v, hv⟩ := h.present hhere
        rw [habsent] at hv
        cases hv
      refine ⟨record.taskId, htask, fun hhere => absurd hhere hnot, ?_⟩
      refine overwritten_same hkept h.proper (fun a t ht => h.free a t (ht.trans htask)) hcalm
        (fun a x v hv hx => ?_) hov rfl hcreated.worker (hnew hnot record)
      rw [h.nowhere habsent a (hx.trans htask)] at hv
      cases hv
    · exact ⟨id, rfl, fun _ => rfl, h.overwritten_other hkept hcalm hov htask⟩

/-- A report overwrites the record of its task. -/
theorem report (hid : strip id ≠ "") {ψ : ResultRecord → Prop} (h : Mirror ring k id here φ w)
    {s : Service} (hs : Serves ring k s) {taskId : String} {status result : Json}
    (hown : ∀ r, (w.stores (ring.home taskId).address).get (.result (strip taskId)) =
      some (.result r) → r.taskId = taskId)
    (hkept : Kept Kind (run env (resultComplete s taskId status result) w).2)
    (hproper : Proper (run env (resultComplete s taskId status result) w).2)
    (hφ : ¬((∃ st, reportedStatus status = .ok (some st)) ∧ here ∧ strip taskId = strip id) →
      ∀ r, φ r → ψ r)
    (hψ : ∀ r st now, reportedStatus status = .ok (some st) → φ r →
      ψ (completed r st result now)) :
    Mirror ring k id here ψ (run env (resultComplete s taskId status result) w).2 := by
  obtain ⟨hmember, rfl⟩ := hs
  have hcalm := calm_resultComplete env s taskId status result w
  obtain ⟨x, hread, hdone⟩ :=
    run_resultComplete ring hmember taskId status result h.kept.owns
  split at hdone
  case h_2 hnot =>
    refine (h.mono fun r _ => hφ ?_ r).same hkept hproper hcalm.inProgress (.of_stores hdone)
    rintro ⟨⟨st, hst⟩, hhere, htask⟩
    obtain ⟨v, hv⟩ := h.present hhere
    obtain ⟨r, rfl, -⟩ := h.record v hv
    have hfrom : ring.home taskId = ring.home id := by
      rw [FixedRing.home, FixedRing.home, htask]
    exact hnot st r hst (hread.home (.result r) (htask ▸ hid) (by rw [hfrom, htask]; exact hv))
  case h_1 st r hst =>
    obtain ⟨⟨now, hwritten⟩, -⟩ := hdone
    have hov := hwritten.overwritten
    by_cases htask : strip taskId = strip id
    · have hfrom : ring.home taskId = ring.home id := by
        rw [FixedRing.home, FixedRing.home, htask]
      cases hget : (w.stores (ring.home id).address).get (.result (strip id)) with
      | none =>
        have hnone := hread.absent fun a y hy => h.nowhere hget a (hy.trans htask)
        cases hnone
      | some v =>
        obtain ⟨r', rfl, hrid, hworker, hr⟩ := h.record v hget
        cases hread.home (.result r') (htask ▸ hid) (by rw [hfrom, htask]; exact hget)
        obtain rfl : taskId = id := by
          rw [← hrid]
          exact (hown r (by rw [hfrom, htask]; exact hget)).symm
        exact overwritten_same hkept h.proper h.free hcalm
          (fun a x v hv hx => (h.copies a x v hv hx).1) hov hrid hworker (hψ r st now hst hr)
    · exact (h.mono fun r _ => hφ (fun hc => htask hc.2.2) r).overwritten_other hkept hcalm hov
        htask

/-- **A property that lasts is kept by every routine operation**, at whatever node. -/
theorem routine (hcalls : ∀ t a c, env.deliverCall t a c = .delivered) (hid : strip id ≠ "")
    (hnew : ¬here → ∀ r, φ r) (hφ : Lasting φ) (h : Mirror ring k id here φ w) {p : M Unit}
    (hp : Routine ring k w p) :
    ∃ id', strip id' = strip id ∧ (here → id' = id) ∧
      Mirror ring k id' here φ (run env p w).2 := by
  obtain ⟨hkept, hproper⟩ := hp.laws h.kept h.proper
  cases hp with
  | create body hs hinject =>
    simp only [Activity.program, run_quietly] at hkept hproper ⊢
    exact h.create hcalls hid hnew hs hinject body hkept hproper
  | report status result hs hown =>
    simp only [Activity.program, run_quietly] at hkept hproper ⊢
    exact ⟨id, rfl, fun _ => rfl, h.report hid hs hown hkept hproper (fun _ _ hr => hr)
      fun r st now hst hr => hφ.completed result now (reportedStatus_eq_some hst) hr⟩
  | @scan s cfg o hs =>
    obtain ⟨hmember, rfl⟩ := hs
    have htracks := Mirror.tracks ring hmember hid here
    have hends : Ends (handle env) (Mirror ring s.replicationK id here φ)
        (RecoveryManager.trigger cfg s o) fun _ => Mirror ring s.replicationK id here φ :=
      htracks.scan o hφ.crash (htracks.failed hφ.failed) hφ.crash (fun _ hr => hr) hφ.resumes
    obtain ⟨_, w', hrun, hw'⟩ := hends.holds w h
    refine ⟨id, rfl, fun _ => rfl, ?_⟩
    change Mirror ring s.replicationK id here φ
      (run env (RecoveryManager.trigger cfg s o) w).2
    rw [run, hrun]
    exact hw'
  | heartbeat s workerId pendingTasks timestamp processToken =>
    obtain ⟨hfree, hstores⟩ := run_heartbeat env s workerId pendingTasks timestamp processToken w
    exact ⟨id, rfl, fun _ => rfl, h.same hkept hproper hfree (.of_stores hstores)⟩
  | kill s workerId =>
    obtain ⟨hfree, hstores⟩ := run_kill env s workerId w
    exact ⟨id, rfl, fun _ => rfl, h.same hkept hproper hfree (.of_stores hstores)⟩
  | cleanup s workerId taskId =>
    have honly : Only Op.Listing (cleanup s workerId taskId) :=
      .bind (.attempt (.of_does (serving_listing.remove _ _))) fun _ => .pure _
    obtain ⟨haside, hsame⟩ := honly.listing env w
    exact ⟨id, rfl, fun _ => rfl, h.same hkept hproper haside.inProgress hsame⟩

end Mirror

/-- **In every routine run the copies of a record agree.** -/
theorem mirrored (hcalls : ∀ t a c, env.deliverCall t a c = .delivered) {ring : FixedRing env}
    {k : ℕ} {w : World} (hrun : Serially (handle env) (Routine ring k) World.empty w)
    {id : String} (hid : strip id ≠ "") :
    ∃ id', strip id' = strip id ∧ Mirror ring k id' False (fun _ => True) w := by
  refine hrun.keeps (J := fun w => ∃ id', strip id' = strip id ∧
    Mirror ring k id' False (fun _ => True) w) ?_ ⟨id, rfl, ?_⟩
  · rintro w p ⟨id', hsame, h⟩ hp
    obtain ⟨id'', hsame', -, h'⟩ :=
      h.routine hcalls (hsame ▸ hid) (fun _ _ => trivial) lasting_trivial hp
    exact ⟨id'', hsame'.trans hsame, h'⟩
  · exact ⟨fun _ _ _ hv => (by cases hv), fun _ => rfl, fun _ _ _ h => (by cases h),
      fun h => h.elim, fun _ _ _ hv => (by cases hv), fun _ hv => (by cases hv)⟩

end Routine

end Server
end ChordInfra
