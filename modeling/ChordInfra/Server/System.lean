/-
# The nodes and the workers at work

What can come in at the nodes (`Activity`) and what their handlers start (`Job`), as the
threads of one system whose steps are single operations: a run lets them take their
operations in any order, with any requests lost.

`lawful` is the rule for what every result record satisfies, whatever the order: a
property that every record made of one that has it has too is one of all records in all
stores, in every run.
-/

import ChordInfra.Interact.Pool
import ChordInfra.Server.Acting
import ChordInfra.Storage.Interference

namespace ChordInfra
namespace Server

open Interact Prog
open Storage
open ChordInfra.Ring (NodeRef)
open Workers (Process)

/-! ### Threads -/

/-- What comes in. -/
inductive Activity
  | create (cfg : Config) (s : Service) (body : Fields)
  | report (s : Service) (taskId : String) (status result : Json)
  | scan (cfg : Config) (s : Service) (o : SetOrder)
  | rebalance (s : Service)
  | heartbeat (s : Service) (workerId : String) (pendingTasks : ℤ) (timestamp : Option ℤ)
      (processToken : Option String)
  | kill (s : Service) (workerId : String)
  /-- A worker process with the first `n` turns of its polling loop. -/
  | work (s : Service) (p : Process) (n : ℕ)
  /-- The first `n` heartbeats of a worker process. -/
  | beat (s : Service) (p : Process) (n : ℕ)

/-- What is left when nobody looks at the answer. -/
def quietly {α : Type} (p : M α) : M Unit := do
  let _ ← attempt p
  pure ()

theorem runs_quietly {A : (o : Op) → o.Res → Prop} {P : Op → Prop} {α : Type} {p : M α}
    (hp : Serving.Runs A P p) : Serving.Runs A P (quietly p) :=
  .bind hp.attempt fun _ _ => .pure trivial

/-- The program of what comes in. -/
def Activity.program : Activity → M Unit
  | create cfg s body => quietly (createTask cfg s body)
  | report s taskId status result => quietly (resultComplete s taskId status result)
  | scan cfg s o => RecoveryManager.trigger cfg s o
  | rebalance s => quietly (doRebalance s)
  | heartbeat s workerId pendingTasks timestamp processToken =>
    quietly (Server.heartbeat s workerId pendingTasks timestamp processToken)
  | kill s workerId => killWorker s workerId
  | work s p n => runWorker s p n
  | beat s p n => heartbeatLoop s p n

/-- Results with `R` are reported, where what comes in is a report. -/
def Activity.Reports (R : Json → Prop) : Activity → Prop
  | report _ _ _ result => R result
  | _ => True

/-- Reports may come in with any result. -/
theorem Activity.reports (a : Activity) : a.Reports fun _ => True := by
  cases a <;> trivial

/-- The program of a thread that a handler or a worker starts. -/
def jobProgram (services : NodeRef → Service) : Job → M Unit
  | .cleanup node workerId taskId => cleanup (services node) workerId taskId
  | .rebalance node => rebalanceAfterSpawn (services node)
  | .execute p taskId record => executeAndReport (services p.frontend) p taskId record

/-- A lock is taken only when it is free. -/
def enabled (w : World) : Op → Bool
  | .lock a k => !w.locked a k
  | _ => true

/-- The system of the nodes and the workers, with what their threads note. -/
def system (env : Env) (services : NodeRef → Service) : System Op Op.Res Exc Unit Unit World where
  handle := handle env
  enabled := enabled
  note _ _ _ := ()
  launch
    | .spawn j => some ⟨(), jobProgram services j⟩
    | _ => none

/-- Anything may come in. -/
def Comes (t : Thread Op Op.Res Exc Unit Unit) : Prop := ∃ a : Activity, t = ⟨(), a.program⟩

/-- Any step may be taken. -/
def anyStep (ι : Type) : Cond ι Op Unit World := fun _ _ _ _ => True

instance (ι : Type) (γ : ι → Option Unit) (w : World) (i : ι) (o : Op) :
    Decidable (anyStep ι γ w i o) := isTrue trivial

/-- A world without threads. -/
def still (ι : Type) (w : World) : Pool ι Op Op.Res Exc Unit Unit World := ⟨fun _ => none, w⟩

/-- A run from a world, of any length. -/
abbrev Run (ι : Type) [DecidableEq ι] (env : Env) (services : NodeRef → Service) (w : World)
    (c : Pool ι Op Op.Res Exc Unit Unit World) : Prop :=
  Steps (system env services) Comes (anyStep ι) (still ι w) c

/-! ### Invariants of runs -/

section Runs

variable {A : (o : Op) → o.Res → Prop} {P : Op → Prop} {φ : Key → Value → Prop}

/-- What every thread can rely on: a handler may do what it does at any node, and the
workers what they do. -/
structure Working (A : (o : Op) → o.Res → Prop) (P : Op → Prop) (φ : Key → Value → Prop) : Prop
    extends Acting A P φ fun _ => True where
  memory : ∀ p c, P (.memory p c)
  execute : ∀ p id r, P (.execute p id r)

variable {R : Json → Prop} (h : Working A P φ) (law : Law φ R)

include h law

theorem Working.activityWhere (houtcomes : ∀ e, R (outcome e).2) {a : Activity} (ha : a.Reports R) :
    Serving.Runs A P a.program := by
  cases a with
  | create cfg s body =>
    exact runs_quietly (h.createTask law.toHandlerLaw trivial (fun _ _ => h.assign h.deletes _) body)
  | report s taskId status result =>
    exact runs_quietly (h.resultComplete law.toUpdateLaw trivial _ _ ha)
  | scan cfg s o => exact h.trigger law trivial o
  | rebalance s => exact runs_quietly (h.doRebalance law.toUpdateLaw)
  | heartbeat s w n t token => exact runs_quietly (h.heartbeat _ _ _ _)
  | kill s w => exact h.killWorker w
  | work s p n => exact h.runWorker law trivial houtcomes h.memory h.execute p n
  | beat s p n => exact h.heartbeatLoop h.memory p n

theorem Working.jobWhere (houtcomes : ∀ e, R (outcome e).2) (services : NodeRef → Service) (j : Job) :
    Serving.Runs A P (jobProgram services j) := by
  cases j with
  | cleanup node w t => exact h.cleanup w t
  | rebalance node => exact .bind (h.doRebalance law.toUpdateLaw).attempt fun _ _ => .pure trivial
  | execute p t r =>
    exact h.executeAndReport law trivial houtcomes (h.memory _ _) (h.execute _ _ _) (h.memory _ _)

variable {J : World → Prop} {ι : Type} [DecidableEq ι] {env : Env} {services : NodeRef → Service}
  {w : World} {c : Pool ι Op Op.Res Exc Unit Unit World}

/-- What every operation in `P` keeps holds throughout every run in which what comes in does no
other operation. -/
theorem Working.keepsWhere (houtcomes : ∀ e, R (outcome e).2)
    {C : Thread Op Op.Res Exc Unit Unit → Prop} (hC : ∀ t, C t → Serving.Runs A P t.rest)
    (hJ : ∀ w o, J w → P o → A o (handle env o w).1 ∧ J (handle env o w).2)
    (hrun : Steps (system env services) C (anyStep ι) (still ι w) c) (hw : J w) : J c.world := by
  have hkeeps : Keeps (system env services) C (anyStep ι) A (fun _ => P)
      (fun (_ : Except Exc Unit) _ => True) fun _ => J := by
    refine ⟨?_, ?_, ?_, ?_⟩
    · exact fun γ w i slot g o hw _ ho _ _ _ => hJ w o hw ho
    · intro o t ho
      cases o with
      | spawn j =>
        cases ho
        exact wp_mono (fun _ _ _ => trivial) (h.jobWhere law houtcomes services j).holds
      | _ => cases ho
    · exact fun γ w i t hw _ _ => hw
    · exact fun t ht => wp_mono (fun _ _ _ => trivial) (hC t ht).holds
  exact (Steps.sound hkeeps hrun ⟨fun i t hi => (by cases hi), hw⟩).world

omit law in
theorem Working.activity (law : Law φ) (a : Activity) : Serving.Runs A P a.program :=
  h.activityWhere law (fun _ => trivial) a.reports

omit law in
theorem Working.job (law : Law φ) (services : NodeRef → Service) (j : Job) :
    Serving.Runs A P (jobProgram services j) :=
  h.jobWhere law (fun _ => trivial) services j

omit law in
/-- **What every operation in `P` keeps holds throughout every run**, in any order of
operations and whatever requests are lost. -/
theorem Working.keeps (law : Law φ)
    (hJ : ∀ w o, J w → P o → A o (handle env o w).1 ∧ J (handle env o w).2)
    (hrun : Run ι env services w c) (hw : J w) : J c.world := by
  refine h.keepsWhere law (fun _ => trivial) (fun t ht => ?_) hJ hrun hw
  obtain ⟨a, rfl⟩ := ht
  exact h.activity law a

end Runs

/-! ### What is read and written -/

/-- What is read has the property. -/
def Granted (φ : Key → Value → Prop) : (o : Op) → o.Res → Prop
  | .get _ k, x => ∀ v, x = some v → φ k v
  | .items _, l => ∀ e ∈ l, φ e.1 e.2
  | .rpc _ (.get k), x => ∀ v, x = some (some v) → φ k v
  | .rpc _ (.getReplica k), x => ∀ v, x = some (some v) → φ k v
  | _, _ => True

/-- What is written has the property. -/
def Writes (φ : Key → Value → Prop) (o : Op) : Prop := ∀ a k v, o.writes = some (a, k, v) → φ k v

/-- What is kept has the property. -/
def Kept (φ : Key → Value → Prop) (w : World) : Prop :=
  ∀ a k v, (w.stores a).get k = some v → φ k v

section Law

variable {φ : Key → Value → Prop} {R : Json → Prop}

theorem serving_writes (hworker : ∀ k r, φ (.worker k) (.worker r)) :
    Serving (Granted φ) (Writes φ) φ where
  get _ _ := ⟨fun _ _ _ h => (by cases h), fun _ h => h _ rfl⟩
  rpcGet _ _ := ⟨fun _ _ _ h => (by cases h), fun _ h => h _ rfl⟩
  getReplica _ _ := ⟨fun _ _ _ h => (by cases h), fun _ h => h _ rfl⟩
  getState _ _ _ _ h := by cases h
  findSuccessor _ _ _ _ _ h := by cases h
  now _ _ _ h := by cases h
  lock _ _ _ _ _ h := by cases h
  unlock _ _ _ _ _ h := by cases h
  deliver _ _ _ _ _ h := by cases h
  writes _ _ _ _ ho _ _ _ h := by
    rw [ho] at h
    cases h
    exact hworker _ _

theorem handling_writes (hworker : ∀ k r, φ (.worker k) (.worker r)) (law : UpdateLaw φ R) :
    Handling (Granted φ) (Writes φ) φ fun _ => True := by
  refine ⟨⟨serving_writes hworker, fun s _ id r hr _ => ?_, ?_, ?_⟩,
    fun _ => ⟨fun _ _ _ h => (by cases h), ?_⟩⟩
  · refine (serving_writes hworker).resultPut fun o a x hx ho b k v h => ?_
    rw [ho] at h
    cases h
    exact law.stripped hx.symm hr
  · exact fun _ _ _ _ _ _ _ h => (by cases h)
  · exact fun _ _ _ _ h => (by cases h)
  · refine fun l hl e he => ⟨hl e he, fun v hv b k u h => ?_⟩
    cases h
    exact hv

theorem acting_writes (hworker : ∀ k r, φ (.worker k) (.worker r)) (law : Law φ R) :
    Acting (Granted φ) (Writes φ) φ fun _ => True := by
  refine ⟨handling_writes hworker law.toUpdateLaw, fun o a x ho b k v h => ?_,
    fun _ _ _ _ _ _ _ h => (by cases h), fun _ _ _ _ _ h => (by cases h)⟩
  rw [Op.deletes_of_writes h] at ho
  cases ho

/-- A request that is answered is answered by the process asked. -/
theorem answered {env : Env} {a : Address} {r : Request} {w : World} {x : r.Reply}
    (h : (handle env (.rpc a r) w).1 = some x) : World.answer env w a r = x := by
  change (if env.deliver w.trace.length a r = .delivered then some (World.answer env w a r)
    else none) = some x at h
  split_ifs at h
  exact Option.some.inj h

/-- An operation reads what is kept, and keeps what it writes. -/
theorem kept_handle {env : Env} {o : Op} {w : World} (hw : Kept φ w) (ho : Writes φ o) :
    Granted φ o (handle env o w).1 ∧ Kept φ (handle env o w).2 := by
  constructor
  · cases o with
    | get a k => exact fun v hv => hw a k v hv
    | items a => exact fun e he => hw a e.1 e.2 ((w.stores a).mem_entries_iff.1 he)
    | rpc a r =>
      cases r with
      | get k => exact fun v hv => hw a k v (answered hv)
      | getReplica k =>
        intro v hv
        have hkept := answered hv
        cases k with
        | task id =>
          obtain ⟨u, hu, ht⟩ := Option.bind_eq_some_iff.1 hkept
          cases u with
          | task r =>
            cases ht
            exact hw a _ _ hu
          | _ => cases ht
        | _ => exact hw a _ v hkept
      | _ => trivial
    | _ => trivial
  · intro a k v hv
    obtain ⟨d, -, ⟨u, hwrite, -, hget⟩ | ⟨-, hget⟩ | ⟨-, -, hget⟩⟩ := handle_get env o w a k
    · rw [hget] at hv
      cases hv
      exact ho a k v hwrite
    · rw [hget] at hv
      cases hv
    · exact hw a k v (hget ▸ hv)

/-- What a program that runs alone keeps and ends with. -/
theorem kept_run (env : Env) {α : Type} {p : M α} {Q : α → Prop} {w : World}
    (hp : Does (Granted φ) (Writes φ) p Q) (hw : Kept φ w) :
    Kept φ (run env p w).2 ∧ ∀ a, (run env p w).1 = .ok a → Q a := by
  have hstep : ∀ w o, Kept φ w → Writes φ o →
      Granted φ o (handle env o w).1 ∧ Kept φ (handle env o w).2 := fun _ _ => kept_handle
  exact hp.exec hstep hw

variable (hworker : ∀ k r, φ (.worker k) (.worker r)) (law : Law φ R)

include hworker law in
theorem working_writes : Working (Granted φ) (Writes φ) φ :=
  ⟨acting_writes hworker law, fun _ _ _ _ _ h => (by cases h), fun _ _ _ _ _ _ h => (by cases h)⟩

include hworker in
/-- **What the law says holds of every record in every run**, in any order of operations
and whatever requests are lost. -/
theorem lawful (law : Law φ) {ι : Type} [DecidableEq ι] {env : Env} {services : NodeRef → Service}
    {w : World}
    {c : Pool ι Op Op.Res Exc Unit Unit World} (hrun : Run ι env services w c) (hw : Kept φ w) :
    Kept φ c.world :=
  (working_writes hworker law).keeps law (fun _ _ => kept_handle) hrun hw

end Law

/-! ### Registries -/

/-- A call changes the registry that it is made of. -/
theorem registry_handle (env : Env) (b : Address) (c : Workers.Registry.Call) (w : World)
    (a : Address) : (handle env (.registry b c) w).2.registries a =
      if a = b then ((w.registries b).call (env.now w.trace.length) c).2 else w.registries a :=
  Function.update_apply ..

/-- No registry has a worker without a name. -/
def Proper (w : World) : Prop := ∀ a, (w.registries a).Proper

theorem proper_handle {env : Env} {o : Op} {w : World} (hw : Proper w)
    (ho : ∀ a c, o = .registry a c → c.Named) : Proper (handle env o w).2 := by
  intro a
  cases o with
  | registry b c =>
    rw [registry_handle]
    by_cases hab : a = b
    · subst hab
      rw [if_pos rfl]
      exact (hw a).call (ho a c rfl)
    · rw [if_neg hab]
      exact hw a
  | _ => exact hw a

section Runs

variable {ι : Type} [DecidableEq ι] {env : Env} {services : NodeRef → Service} {w : World}
  {c : Pool ι Op Op.Res Exc Unit Unit World}

theorem working_named : Working (fun _ _ => True) (fun o => ∀ a c, o = .registry a c → c.Named)
    fun _ _ => True :=
  ⟨acting_of fun _ _ h => h, fun _ _ _ _ h => (by cases h), fun _ _ _ _ _ h => (by cases h)⟩

theorem proper (hrun : Run ι env services w c) (hw : Proper w) : Proper c.world :=
  working_named.keeps law_trivial (fun _ _ hw ho => ⟨trivial, proper_handle hw ho⟩) hrun hw

/-- What a program that runs alone leaves is proper. -/
theorem proper_run (env : Env) {α : Type} {p : M α} (hp : Serving.Runs (fun _ _ => True)
    (fun o => ∀ a c, o = .registry a c → c.Named) p) (hw : Proper w) : Proper (run env p w).2 := by
  have hstep : ∀ w o, Proper w → (∀ a c, o = .registry a c → c.Named) →
      True ∧ Proper (handle env o w).2 := fun _ _ hw ho => ⟨trivial, proper_handle hw ho⟩
  exact (hp.exec hstep hw).1

end Runs

/-! ### The one record of an owner -/

section Located

variable {owner : Key → NodeRef}

/-- Where the owner of a record keeps it: under its id stripped. -/
def Located (owner : Key → NodeRef) (a : Address) (x : String) : Prop :=
  a = (owner (.result (strip x))).address → x = strip x

/-- Every record that its owner keeps is where it belongs. -/
def Tidy (owner : Key → NodeRef) (w : World) : Prop :=
  ∀ a x v, (w.stores a).get (.result x) = some v → Located owner a x

/-- Lookups name the owner, and what a store has is where it belongs. -/
def Resolved (owner : Key → NodeRef) : (o : Op) → o.Res → Prop
  | .findSuccessor _ k, n => n = owner k
  | .items a, l => ∀ e ∈ l, ∀ x, e.1 = .result x → Located owner a x
  | _, _ => True

/-- What is written is written where it belongs. -/
def Places (owner : Key → NodeRef) (o : Op) : Prop :=
  ∀ a x v, o.writes = some (a, .result x, v) → Located owner a x

theorem serving_places : Serving (Resolved owner) (Places owner) fun _ _ => True where
  get _ _ := ⟨fun _ _ _ h => (by cases h), fun _ _ => trivial⟩
  rpcGet _ _ := ⟨fun _ _ _ h => (by cases h), fun _ _ => trivial⟩
  getReplica _ _ := ⟨fun _ _ _ h => (by cases h), fun _ _ => trivial⟩
  getState _ _ _ _ h := by cases h
  findSuccessor _ _ _ _ _ h := by cases h
  now _ _ _ h := by cases h
  lock _ _ _ _ _ h := by cases h
  unlock _ _ _ _ _ h := by cases h
  deliver _ _ _ _ _ h := by cases h
  writes _ _ _ _ ho _ _ _ h := by
    rw [ho] at h
    cases h

/-- The copies of a record are put on other nodes than its owner. -/
theorem places_put (s : Service) (id : String) (record : ResultRecord) :
    Serving.Runs (Resolved owner) (Places owner) (ResultService.put s id record) := by
  have h : Serving (Resolved owner) (Places owner) fun _ _ => True := serving_places
  refine .bind (Serving.lift (Q := fun _ => True) fun _ _ => trivial) fun _ _ =>
    .bind (Serving.resultKey id) ?_
  rintro key rfl
  have howner : Does (Resolved owner) (Places owner) (s.owner (.result (strip id)))
      fun n => n = owner (.result (strip id)) := .perform (h.findSuccessor _ _) fun _ hn => hn
  refine .bind howner ?_
  rintro primary rfl
  refine .bind (h.putOnNode (fun o a ho b x v hw => ?_) _) fun _ _ =>
    .bind (h.replicaNodes _ _) fun replicas hreplicas =>
    .bind (R := fun _ => True) ?_ fun _ _ => .pure trivial
  · rw [ho] at hw
    cases hw
    exact fun _ => (strip_strip id).symm
  · induction replicas with
    | nil => exact .pure trivial
    | cons n replicas ih =>
      obtain ⟨hn, hrest⟩ := List.forall_mem_cons.1 hreplicas
      refine .bind (Serving.requestWithRetry (fun a x v hw => ?_) _) fun _ _ =>
        .bind (ih hrest) fun _ _ => .pure trivial
      cases hw
      exact fun he => absurd he hn

theorem acting_places :
    Acting (Resolved owner) (Places owner) (fun _ _ => True) fun _ => True := by
  refine ⟨⟨⟨serving_places, fun s _ id r _ _ => places_put s id r,
    fun _ _ _ _ _ _ _ h => (by cases h), fun _ _ _ _ h => (by cases h)⟩,
    fun a => ⟨fun _ _ _ h => (by cases h), fun l hl e he => ⟨trivial, fun v _ b x u h => ?_⟩⟩⟩,
    fun o a x ho b y v h => absurd ho (by rw [Op.deletes_of_writes h]; simp),
    fun _ _ _ _ _ _ _ h => (by cases h), fun _ _ _ _ _ h => (by cases h)⟩
  obtain ⟨rfl, hx, -⟩ : a = b ∧ e.1 = .result x ∧ v = u := by simpa [Op.writes] using h
  exact hl e he x hx

variable {ι : Type} [DecidableEq ι] {env : Env} {services : NodeRef → Service} {w : World}
  {c : Pool ι Op Op.Res Exc Unit Unit World}

theorem tidy_handle (howner : ∀ t a k, env.findSuccessor t a k = owner k) {o : Op} (hw : Tidy owner w)
    (ho : Places owner o) : Resolved owner o (handle env o w).1 ∧ Tidy owner (handle env o w).2 := by
  constructor
  · cases o with
    | findSuccessor a k => exact howner _ a k
    | items a =>
      rintro ⟨k, v⟩ he x rfl
      exact hw a x v ((w.stores a).mem_entries_iff.1 he)
    | _ => trivial
  · intro a x v hv
    obtain ⟨d, -, ⟨u, hwrite, -, hget⟩ | ⟨-, hget⟩ | ⟨-, -, hget⟩⟩ := handle_get env o w a (.result x)
    · exact ho a x u hwrite
    · rw [hget] at hv
      cases hv
    · exact hw a x v (hget ▸ hv)

/-- **While every key has one owner, no owner keeps a second copy of a record** under an
id with other white space. -/
theorem tidy (howner : ∀ t a k, env.findSuccessor t a k = owner k)
    (hrun : Run ι env services w c) (hw : Tidy owner w) : Tidy owner c.world :=
  Working.keeps ⟨acting_places, fun _ _ _ _ _ h => (by cases h), fun _ _ _ _ _ _ h => (by cases h)⟩
    law_trivial (fun _ _ => tidy_handle howner) hrun hw

end Located

end Server
end ChordInfra
