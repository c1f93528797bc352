/-
# What is told of a task

Anybody may ask any node for the status of a task (`get_status_v2`).  In a run whose operations run
to their ends, one after the other, and in which no access to a record fails, all nodes tell the
same of a task, and once one of them knows a task all do for good (`told_alike`).  After a report
of success they all tell the success with the result that was reported, through every later
request, scan, heartbeat and death of a worker, and through the same report coming again
(`success_told`).
-/

import ChordInfra.Server.Mirror
import ChordInfra.Server.StatusReply

namespace ChordInfra
namespace Server

open Interact Prog
open Storage
open ChordInfra.Ring (NodeRef)

/-- What a node tells of a task. -/
def told (env : Env) (s : Service) (taskId : String) (w : World) : Except Exc StatusAnswer :=
  (run env (getStatus s taskId) w).1

section Told

variable {env : Env} {ring : FixedRing env} {s s' : Service} {k : ℕ} {taskId : String} {w w' : World}

/-- An answer says what was read. -/
theorem told_eq (env : Env) (s : Service) (taskId : String) (w : World) :
    told env s taskId w =
      .ok (match (run env (ResultService.get s taskId) w).1 with
        | .ok (some record) => .found (statusBody taskId record)
        | .ok none => .notFound taskId
        | .error e => .failed e) := by
  unfold told getStatus
  rw [run_attempt_bind]
  rcases (run env (ResultService.get s taskId) w).1 with e | - | record <;> rfl

/-- Without a name nothing is looked up. -/
theorem told_blank (env : Env) (hid : strip taskId = "") :
    ∃ e, ∀ s w, told env s taskId w = .ok (.failed e) := by
  have herror : ∃ e, ∀ s w, run env (ResultService.get s taskId) w = (.error e, w) := by
    unfold ResultService.get buildResultKey
    rw [if_pos hid]
    exact ⟨_, fun _ _ => rfl⟩
  obtain ⟨e, he⟩ := herror
  exact ⟨e, fun s w => by rw [told_eq, he]⟩

/-- What the owner has is told. -/
theorem told_record (ring : FixedRing env) (hs : s.node ∈ ring.members) (hid : strip taskId ≠ "")
    {r : ResultRecord}
    (hr : (w.stores (ring.home taskId).address).get (.result (strip taskId)) = some (.result r)) :
    told env s taskId w = .ok (.found (statusBody taskId r)) := by
  rw [told_eq, ring.run_resultGet hs hid hr]
  rfl

/-- Where nobody has a record, none is told. -/
theorem told_none (ring : FixedRing env) (hs : s.node ∈ ring.members) (hid : strip taskId ≠ "")
    (hnone : ∀ a x, strip x = strip taskId → (w.stores a).get (.result x) = none) :
    told env s taskId w = .ok (.notFound taskId) := by
  rw [told_eq, ring.run_resultGet_none hs hid hnone]

/-- What is told where the copies of the record agree: that there is none, or its contents. -/
theorem Mirror.told {id : String} {here : Prop} {φ : ResultRecord → Prop}
    (h : Mirror ring k id here φ w) (hsame : strip id = strip taskId) (hid : strip taskId ≠ "") :
    (¬here ∧ ∀ s, s.node ∈ ring.members → Server.told env s taskId w = .ok (.notFound taskId)) ∨
      ∃ r, φ r ∧ (w.stores (ring.home id).address).get (.result (strip id)) = some (.result r) ∧
        ∀ s, s.node ∈ ring.members →
          Server.told env s taskId w = .ok (.found (statusBody taskId r)) := by
  have hhome : ring.home id = ring.home taskId := by rw [FixedRing.home, FixedRing.home, hsame]
  cases hget : (w.stores (ring.home id).address).get (.result (strip id)) with
  | none =>
    refine .inl ⟨fun hhere => ?_, fun s hs => told_none ring hs hid fun a x hx => ?_⟩
    · obtain ⟨v, hv⟩ := h.present hhere
      rw [hget] at hv
      cases hv
    · exact h.nowhere hget a (hx.trans hsame.symm)
  | some v =>
    obtain ⟨r, rfl, -, -, hr⟩ := h.record v hget
    refine .inr ⟨r, hr, rfl, fun s hs => told_record ring hs hid ?_⟩
    rw [← hhome, ← hsame]
    exact hget

/-- **All nodes tell the same of a task**, at any time of a run of requests, reports, scans,
heartbeats, deaths of workers and cleanups, and once a node knows the task, every node does for
good.  Reports come under the id that the record of the task has, no failure is injected into
a request, and ids reach the handlers as they are. -/
theorem told_alike (hcalls : ∀ t a c, env.deliverCall t a c = .delivered)
    (hrun : Serially (handle env) (Routine ring k) World.empty w) (hs : s.node ∈ ring.members)
    (hs' : s'.node ∈ ring.members) (taskId : String)
    (hlater : Serially (handle env) (Routine ring k) w w') :
    told env s taskId w = told env s' taskId w ∧
      ∀ body, told env s taskId w = .ok (.found body) →
        ∃ body', told env s' taskId w' = .ok (.found body') := by
  by_cases hid : strip taskId = ""
  · obtain ⟨e, he⟩ := told_blank env hid
    refine ⟨(he s w).trans (he s' w).symm, fun body hbody => ?_⟩
    rw [he] at hbody
    cases hbody
  obtain ⟨id, hsame, hmirror⟩ := mirrored hcalls hrun hid
  rcases hmirror.told hsame hid with ⟨-, hnone⟩ | ⟨r, -, hget, hfound⟩
  · refine ⟨(hnone s hs).trans (hnone s' hs').symm, fun body hbody => ?_⟩
    rw [hnone s hs] at hbody
    cases hbody
  · refine ⟨(hfound s hs).trans (hfound s' hs').symm, fun _ _ => ?_⟩
    have hhere : Mirror ring k id True (fun _ => True) w :=
      { hmirror with present := fun _ => ⟨_, hget⟩ }
    have hlast : Mirror ring k id True (fun _ => True) w' := by
      refine hlater.keeps (J := Mirror ring k id True fun _ => True) (fun w₁ p h hp => ?_) hhere
      obtain ⟨id', -, heq, h'⟩ := h.routine hcalls (by rw [hsame]; exact hid)
        (fun hnot => absurd trivial hnot) lasting_trivial hp
      rw [heq trivial] at h'
      exact h'
    rcases hlast.told hsame hid with ⟨hnot, -⟩ | ⟨r', -, -, hfound'⟩
    · exact absurd trivial hnot
    · exact ⟨_, hfound' s' hs'⟩

end Told

/-! ### A success -/

section Success

variable {env : Env} {ring : FixedRing env} {k : ℕ} {id : String} {result : Json} {w w' : World}

/-- What goes on at the nodes after a success with a result was reported of a task: reports about
the task only say the same again. -/
inductive Further (ring : FixedRing env) (k : ℕ) (id : String) (result : Json) (w : World) :
    M Unit → Prop
  | create {cfg : Config} {s : Service} (body : Fields) : Serves ring k s →
      cfg.inject = .nothing → Further ring k id result w (Activity.create cfg s body).program
  | report {s : Service} {taskId : String} (status result' : Json) : Serves ring k s →
      (∀ r, (w.stores (ring.home taskId).address).get (.result (strip taskId)) =
        some (.result r) → r.taskId = taskId) →
      (strip taskId = strip id → status = .str "SUCCESS" ∧ result' = result) →
      Further ring k id result w (Activity.report s taskId status result').program
  | scan {s : Service} (cfg : Config) (o : SetOrder) : Serves ring k s →
      Further ring k id result w (Activity.scan cfg s o).program
  | heartbeat (s : Service) (workerId : String) (pendingTasks : ℤ) (timestamp : Option ℤ)
      (processToken : Option String) : Further ring k id result w
        (Activity.heartbeat s workerId pendingTasks timestamp processToken).program
  | kill (s : Service) (workerId : String) :
      Further ring k id result w (Activity.kill s workerId).program
  | cleanup (s : Service) (workerId taskId : String) :
      Further ring k id result w (cleanup s workerId taskId)

theorem Further.routine {p : M Unit} (h : Further ring k id result w p) : Routine ring k w p := by
  cases h with
  | create body hs hinject => exact .create body hs hinject
  | report status result hs hown _ => exact .report status result hs hown
  | scan cfg o hs => exact .scan cfg o hs
  | heartbeat s workerId n now token => exact .heartbeat s workerId n now token
  | kill s workerId => exact .kill s workerId
  | cleanup s workerId taskId => exact .cleanup s workerId taskId

/-- A record of a task that succeeded with a result. -/
def SucceededWith (result : Json) (r : ResultRecord) : Prop := r.status = .success ∧ r.result = result

/-- Neither a crash of the worker nor a failure is seen in a task that succeeded, and a retry that
it waited for is called off. -/
theorem Mirror.succeeded_scan {s : Service} (hmember : s.node ∈ ring.members) (hid : strip id ≠ "")
    (h : Mirror ring s.replicationK id True (SucceededWith result) w) (cfg : Config) (o : SetOrder) :
    Mirror ring s.replicationK id True (SucceededWith result)
      (run env (RecoveryManager.trigger cfg s o) w).2 := by
  have htracks := Mirror.tracks ring hmember hid True
  have hover : ∀ r, SucceededWith result r → ¬(r.status = .pending ∨ r.status = .running) := by
    intro r hr hstatus
    rw [hr.1] at hstatus
    revert hstatus
    decide
  have hends : Ends (handle env) (Mirror ring s.replicationK id True (SucceededWith result))
      (RecoveryManager.trigger cfg s o) fun _ =>
        Mirror ring s.replicationK id True (SucceededWith result) := by
    refine htracks.scan o (fun r hr hstatus => absurd hstatus (hover r hr))
      (htracks.failed fun r _ hr hfailed => ?_) (fun r hr hstatus => absurd hstatus (hover r hr))
      (fun _ hr => hr) fun r _ _ hr now => ?_
    · have hstatus := hfailed.1
      rw [hr.1] at hstatus
      cases hstatus
    · rw [if_pos hr.1]
      exact hr
  obtain ⟨_, w', hrun, hw'⟩ := hends.holds w h
  rw [run, hrun]
  exact hw'

/-- A success stays. -/
theorem Mirror.succeeded_further (hcalls : ∀ t a c, env.deliverCall t a c = .delivered)
    (hid : strip id ≠ "") (h : Mirror ring k id True (SucceededWith result) w) {p : M Unit}
    (hp : Further ring k id result w p) :
    Mirror ring k id True (SucceededWith result) (run env p w).2 := by
  obtain ⟨hkept, hproper⟩ := hp.routine.laws h.kept h.proper
  cases hp with
  | create body hs hinject =>
    simp only [Activity.program, run_quietly] at hkept hproper ⊢
    obtain ⟨id', -, heq, h'⟩ := h.create hcalls hid (fun hnot => absurd trivial hnot) hs hinject body
      hkept hproper
    rw [heq trivial] at h'
    exact h'
  | @report s taskId status result' hs hown hsame =>
    simp only [Activity.program, run_quietly] at hkept hproper ⊢
    by_cases htask : strip taskId = strip id
    · obtain ⟨rfl, rfl⟩ := hsame htask
      refine h.report hid hs hown hkept hproper (fun _ _ hr => hr) fun r st now hst hr => ?_
      cases hst
      exact ⟨rfl, rfl⟩
    · -- the report is about another task
      obtain ⟨hmember, rfl⟩ := hs
      have hcalm := calm_resultComplete env s taskId status result' w
      obtain ⟨x, -, hdone⟩ := run_resultComplete ring hmember taskId status result' h.kept.owns
      split at hdone
      · obtain ⟨⟨now, hwritten⟩, -⟩ := hdone
        exact h.overwritten_other hkept hcalm hwritten.overwritten htask
      · exact h.same hkept hproper hcalm.inProgress (.of_stores hdone)
  | @scan s cfg o hs =>
    obtain ⟨hmember, rfl⟩ := hs
    exact h.succeeded_scan hmember hid cfg o
  | heartbeat s workerId n now token =>
    obtain ⟨hfree, hstores⟩ := run_heartbeat env s workerId n now token w
    exact h.same hkept hproper hfree (.of_stores hstores)
  | kill s workerId =>
    obtain ⟨hfree, hstores⟩ := run_kill env s workerId w
    exact h.same hkept hproper hfree (.of_stores hstores)
  | cleanup s workerId taskId =>
    have honly : Only Op.Listing (cleanup s workerId taskId) :=
      .bind (.attempt (.of_does (serving_listing.remove _ _))) fun _ => .pure _
    obtain ⟨haside, hsame⟩ := honly.listing env w
    exact h.same hkept hproper haside.inProgress hsame

/-- **A success that was reported is told by every node, with its result, for good**: through every
request for a task, report, scan, heartbeat, death of a worker and cleanup that follows, as long as
reports about the task say the same again.  The runs are those of `told_alike`. -/
theorem success_told (hcalls : ∀ t a c, env.deliverCall t a c = .delivered)
    (hrun : Serially (handle env) (Routine ring k) World.empty w) {s : Service}
    (hs : Serves ring k s) {r : ResultRecord} (hid : strip r.taskId ≠ "")
    (hrecord : (w.stores (ring.home r.taskId).address).get (.result (strip r.taskId)) =
      some (.result r)) (result : Json)
    (hlater : Serially (handle env) (Further ring k r.taskId result)
      (run env (resultComplete s r.taskId (.str "SUCCESS") result) w).2 w')
    {s' : Service} (hs' : s'.node ∈ ring.members) {taskId : String}
    (hname : strip taskId = strip r.taskId) :
    ∃ r', SucceededWith result r' ∧
      told env s' taskId w' = .ok (.found (statusBody taskId r')) := by
  obtain ⟨id, hsame, hmirror⟩ := mirrored hcalls hrun hid
  have hhome : ring.home id = ring.home r.taskId := by rw [FixedRing.home, FixedRing.home, hsame]
  obtain ⟨r₀, heq, rfl, -⟩ := hmirror.record (.result r) (by rw [hhome, hsame]; exact hrecord)
  cases heq
  have hhere : Mirror ring k r.taskId True (fun _ => True) w :=
    { hmirror with present := fun _ => ⟨_, hrecord⟩ }
  have hown : ∀ r', (w.stores (ring.home r.taskId).address).get (.result (strip r.taskId)) =
      some (.result r') → r'.taskId = r.taskId := by
    intro r' hr'
    cases hrecord.symm.trans hr'
    rfl
  obtain ⟨hkept, hproper⟩ := Routine.laws (.report (.str "SUCCESS") result hs hown)
    hmirror.kept hmirror.proper
  simp only [Activity.program, run_quietly] at hkept hproper
  have hreported : Mirror ring k r.taskId True (SucceededWith result)
      (run env (resultComplete s r.taskId (.str "SUCCESS") result) w).2 := by
    refine hhere.report hid hs hown hkept hproper (fun hnot => ?_) fun r' st now hst _ => ?_
    · exact absurd ⟨⟨.success, rfl⟩, trivial, rfl⟩ hnot
    · cases hst
      exact ⟨rfl, rfl⟩
  have hlast : Mirror ring k r.taskId True (SucceededWith result) w' :=
    hlater.keeps (fun _ _ h hp => h.succeeded_further hcalls hid hp) hreported
  rcases hlast.told hname.symm (by rw [hname]; exact hid) with ⟨hnot, -⟩ | ⟨r', hr', -, hfound⟩
  · exact absurd trivial hnot
  · exact ⟨r', hr', hfound s' hs'⟩

end Success

/-! ### A ring of three nodes -/

namespace ThreeNodes

open Storage.ThreeNodes

theorem serves_member (m : NodeRef) (hm : m ∈ Storage.ThreeNodes.ring.members) :
    Serves Storage.ThreeNodes.ring 3 (services m) := ⟨hm, rfl⟩

/-- The world after an operation. -/
def next (p : M Unit) (w : World) : World := (run (env fun _ _ _ => .delivered) p w).2

/-- The task `t` is requested at `nodeB`. -/
def submitted : World := next (Activity.create config (services nodeB) body).program World.empty

/-- Its success is reported at `nodeC`. -/
def reported : World :=
  (run (env fun _ _ _ => .delivered)
    (resultComplete (services nodeC) "t" (.str "SUCCESS") (.int 7)) submitted).2

/-- A scan of `nodeA`. -/
def scanned : World :=
  next (Activity.scan config (services nodeA) ⟨id, List.Perm.refl⟩).program reported

/-- The record of the task at its owner. -/
def recorded (w : World) : Option ResultRecord :=
  ((w.stores nodeA.address).get (.result "t")).bind Value.asResult

theorem run_submitted : Serially (handle (env fun _ _ _ => .delivered))
    (Routine Storage.ThreeNodes.ring 3) World.empty submitted :=
  .single ⟨_, .create _ (serves_member nodeB (.inr (.inl rfl))) rfl, rfl⟩

end ThreeNodes

open Storage.ThreeNodes ThreeNodes

/-- `nodeA` and `nodeB` tell the same of a task that was requested at `nodeB`. -/
theorem told_alike_threeNodes :
    told (env fun _ _ _ => .delivered) (services nodeA) "t" submitted =
        told (env fun _ _ _ => .delivered) (services nodeB) "t" submitted ∧
      ∀ answer, told (env fun _ _ _ => .delivered) (services nodeA) "t" submitted =
        .ok (.found answer) → ∃ answer', told (env fun _ _ _ => .delivered) (services nodeB) "t"
          submitted = .ok (.found answer') :=
  told_alike (k := 3) (fun _ _ _ => rfl) run_submitted (.inl rfl)
    (.inr (.inl rfl)) "t" .refl

/-- The hypotheses of `success_told` are satisfiable: `nodeB` tells the success after a scan of
`nodeA`. -/
theorem success_told_threeNodes : ∃ r', SucceededWith (.int 7) r' ∧
    told (env fun _ _ _ => .delivered) (services nodeB) " t" scanned =
      .ok (.found (statusBody " t" r')) := by
  have hshown : (recorded submitted).any (fun r => decide (r.taskId = "t")) = true := by
    decide +kernel
  obtain ⟨r, hr, htask⟩ : ∃ r, (submitted.stores nodeA.address).get (.result "t") =
      some (.result r) ∧ r.taskId = "t" := by
    unfold recorded at hshown
    cases hget : (submitted.stores nodeA.address).get (.result "t") with
    | none =>
      rw [hget] at hshown
      cases hshown
    | some v =>
      rw [hget] at hshown
      cases v with
      | result r => exact ⟨r, rfl, of_decide_eq_true hshown⟩
      | _ => cases hshown
  have hname : strip " t" = strip r.taskId := by
    rw [htask]
    decide +kernel
  have hlater : Serially (handle (env fun _ _ _ => .delivered))
      (Further Storage.ThreeNodes.ring 3 r.taskId (.int 7))
      (run (env fun _ _ _ => .delivered)
        (resultComplete (services nodeC) r.taskId (.str "SUCCESS") (.int 7)) submitted).2 scanned := by
    rw [htask]
    exact .single ⟨_, .scan config ⟨id, List.Perm.refl⟩ (serves_member nodeA (.inl rfl)), rfl⟩
  exact success_told (fun _ _ _ => rfl) run_submitted (serves_member nodeC (.inr (.inr rfl)))
    (by rw [htask]; decide) (by rw [htask]; exact hr) (.int 7) hlater (.inr (.inl rfl)) hname

end Server
end ChordInfra
