/-
# The services of results and of lists, running alone

What reading and writing a result does in a ring of fixed membership (`run_resultGet`,
`run_resultPut`), and what the services leave alone: the registries and the tasks under
recovery (`Aside`), and, when they deal with lists, the results (`SameResults`).
-/

import ChordInfra.Storage.FixedRing
import ChordInfra.Storage.Interference
import ChordInfra.Storage.Serving

namespace ChordInfra
namespace Storage

open Interact Prog
open ChordInfra.Ring (NodeRef)
open Replication
open Workers (Registry Manager)

/-! ### What is left alone -/

/-- The registries and the tasks under recovery are as they were. -/
structure Aside (w w' : World) : Prop where
  registries : w'.registries = w.registries
  inProgress : ∀ a, (w'.managers a).inProgress = (w.managers a).inProgress

namespace Aside

variable {w w' w'' : World}

theorem refl (w : World) : Aside w w := ⟨rfl, fun _ => rfl⟩

theorem trans (h : Aside w w') (h' : Aside w' w'') : Aside w w'' :=
  ⟨h'.registries.trans h.registries, fun a => (h'.inProgress a).trans (h.inProgress a)⟩

end Aside

/-- An operation that does not change the registries and the tasks under recovery. -/
def Op.Idle : Op → Prop
  | .registry _ .liveWorkers | .registry _ .allWorkers | .registry _ (.isLive _) => True
  | .registry _ .scoreAllWorkers | .manager _ .spawnDue => True
  | .registry .. | .manager .. => False
  | _ => True

theorem handle_aside {o : Op} (h : o.Idle) (env : Env) (w : World) :
    Aside w (handle env o w).2 := by
  cases o with
  | registry a c =>
    cases c with
    | liveWorkers => exact ⟨Function.update_eq_self .., fun _ => rfl⟩
    | allWorkers => exact ⟨Function.update_eq_self .., fun _ => rfl⟩
    | isLive v => exact ⟨Function.update_eq_self .., fun _ => rfl⟩
    | scoreAllWorkers => exact ⟨Function.update_eq_self .., fun _ => rfl⟩
    | _ => exact h.elim
  | manager a c =>
    cases c with
    | spawnDue =>
      refine ⟨rfl, fun b => ?_⟩
      by_cases hb : b = a
      · subst hb
        have hself : (handle env (.manager b .spawnDue) w).2.managers b =
          ((w.managers b).call (env.now w.trace.length) .spawnDue).2 := Function.update_self ..
        rw [hself]
        rfl
      · exact congrArg Manager.inProgress (Function.update_of_ne hb ..)
    | _ => exact h.elim
  | _ => exact ⟨rfl, fun _ => rfl⟩

theorem Only.aside {α : Type} {p : M α} (hp : Only Op.Idle p) (env : Env) (w : World) :
    Aside w (Storage.run env p w).2 :=
  hp.exec Aside.refl (fun h h' => h.trans h') (fun w _ h => handle_aside h env w) w

/-- The workers that the registries know and the tasks under recovery are as they were. -/
structure Calm (w w' : World) : Prop where
  workers : ∀ a, (w'.registries a).workers = (w.registries a).workers
  timeout : ∀ a, (w'.registries a).timeout = (w.registries a).timeout
  inProgress : ∀ a, (w'.managers a).inProgress = (w.managers a).inProgress

namespace Calm

variable {w w' w'' : World}

theorem refl (w : World) : Calm w w := ⟨fun _ => rfl, fun _ => rfl, fun _ => rfl⟩

theorem trans (h : Calm w w') (h' : Calm w' w'') : Calm w w'' :=
  ⟨fun a => (h'.workers a).trans (h.workers a), fun a => (h'.timeout a).trans (h.timeout a),
    fun a => (h'.inProgress a).trans (h.inProgress a)⟩

end Calm

theorem Aside.calm {w w' : World} (h : Aside w w') : Calm w w' :=
  ⟨fun a => by rw [h.registries], fun a => by rw [h.registries], h.inProgress⟩

/-- An operation that tells no registry of workers, and is not of a recovery. -/
def Op.Calm : Op → Prop
  | .registry _ c => c.Quiet
  | .manager .. => False
  | _ => True

theorem handle_calm {o : Op} (h : o.Calm) (env : Env) (w : World) :
    Storage.Calm w (handle env o w).2 := by
  cases o with
  | registry a c =>
    have hself : (handle env (.registry a c) w).2.registries a =
        ((w.registries a).call (env.now w.trace.length) c).2 := Function.update_self ..
    obtain ⟨hworkers, htimeout⟩ :=
      (w.registries a).call_of_quiet (env.now w.trace.length) h
    have hother : ∀ b, b ≠ a → (handle env (.registry a c) w).2.registries b = w.registries b :=
      fun b hb => Function.update_of_ne hb ..
    refine ⟨fun b => ?_, fun b => ?_, fun _ => rfl⟩ <;> by_cases hb : b = a
    · rw [hb, hself, hworkers]
    · rw [hother b hb]
    · rw [hb, hself, htimeout]
    · rw [hother b hb]
  | manager => exact h.elim
  | _ => exact ⟨fun _ => rfl, fun _ => rfl, fun _ => rfl⟩

theorem Only.calm {α : Type} {p : M α} (hp : Only Op.Calm p) (env : Env) (w : World) :
    Calm w (Storage.run env p w).2 :=
  hp.exec Calm.refl (fun h h' => h.trans h') (fun w _ h => handle_calm h env w) w

/-- The results are as they were. -/
def SameResults (w w' : World) : Prop :=
  ∀ a x, (w'.stores a).get (.result x) = (w.stores a).get (.result x)

theorem SameResults.of_stores {w w' : World} (h : w'.stores = w.stores) : SameResults w w' :=
  fun a x => by rw [h]

theorem SameResults.trans {w w' w'' : World} (h : SameResults w w') (h' : SameResults w' w'') :
    SameResults w w'' := fun a x => (h' a x).trans (h a x)

/-- An operation that touches no result. -/
def Op.NoResult (o : Op) : Prop :=
  (∀ a x v, o.writes ≠ some (a, .result x, v)) ∧ ∀ a x, o.deletes ≠ some (a, .result x)

theorem Op.NoResult.of_reads {o : Op} (h : o.Reads) : o.NoResult :=
  ⟨fun _ _ _ hw => absurd (h.writes.symm.trans hw) (by simp),
    fun _ _ hd => absurd (h.deletes.symm.trans hd) (by simp)⟩

theorem handle_sameResults {o : Op} (h : o.NoResult) (env : Env) (w : World) :
    SameResults w (handle env o w).2 := by
  intro a x
  obtain ⟨d, -, ⟨u, hwrite, -, -⟩ | ⟨hdelete, -⟩ | ⟨-, -, hget⟩⟩ := handle_get env o w a (.result x)
  · exact absurd hwrite (h.1 a x u)
  · exact absurd hdelete.1 (h.2 a x)
  · exact hget

/-- What the lists are dealt with by. -/
def Op.Listing (o : Op) : Prop := o.Idle ∧ o.NoResult

theorem Op.Listing.of_reads {o : Op} (hi : o.Idle) (hr : o.Reads) : o.Listing := ⟨hi, .of_reads hr⟩

theorem serving_listing : Serving (fun _ _ => True) Op.Listing fun _ _ => True where
  get _ _ := ⟨.of_reads trivial trivial, fun _ _ => trivial⟩
  rpcGet _ _ := ⟨.of_reads trivial trivial, fun _ _ => trivial⟩
  getReplica _ _ := ⟨.of_reads trivial trivial, fun _ _ => trivial⟩
  getState _ := .of_reads trivial trivial
  findSuccessor _ _ := .of_reads trivial trivial
  now := .of_reads trivial trivial
  lock _ _ := .of_reads trivial trivial
  unlock _ _ := .of_reads trivial trivial
  deliver _ _ := .of_reads trivial trivial
  writes o a k r ho := by
    refine ⟨?_, fun b x v hv => ?_, fun b x hd => ?_⟩
    · cases o with
      | registry b c => cases ho
      | manager b c => cases ho
      | _ => trivial
    · rw [ho] at hv
      cases hv
    · rw [Op.deletes_of_writes ho] at hd
      cases hd

theorem Only.of_does {α : Type} {P : Op → Prop} {p : M α} {Q : α → Prop}
    (hp : Does (fun _ _ => True) P p Q) : Only P p :=
  ⟨wp_mono (fun _ _ _ => trivial) hp.holds⟩

/-- What a program that only deals with lists leaves alone. -/
theorem Only.listing {α : Type} {p : M α} (hp : Only Op.Listing p) (env : Env) (w : World) :
    Aside w (Storage.run env p w).2 ∧ SameResults w (Storage.run env p w).2 := by
  refine ⟨(hp.mono fun _ h => h.1).aside env w, ?_⟩
  exact hp.exec (R := SameResults) (fun w => .of_stores rfl) (fun h h' => h.trans h')
    (fun w o h => handle_sameResults h.2 env w) w

/-- An operation that only reads, and leaves the registries and the recoveries alone. -/
def Op.Looks (o : Op) : Prop := o.Idle ∧ o.Reads

/-- Reading a result leaves everything alone. -/
theorem only_resultGet (s : Service) (id : String) : Only Op.Looks (ResultService.get s id) := by
  refine .bind (.lift _) fun key => .bind (.act ⟨trivial, trivial⟩) fun primary => ?_
  refine .bind (.tryGetOnNode ⟨trivial, trivial⟩ (fun _ => ⟨trivial, trivial⟩) _) fun value => ?_
  refine .bind (.orReplicas ?_ _ _) fun _ => .pure _
  exact .readFromReplicas (fun _ => ⟨trivial, trivial⟩) (fun _ => ⟨trivial, trivial⟩) _ _

/-- Reading a list leaves everything alone. -/
theorem only_assignmentGet (s : Service) (workerId : String) :
    Only Op.Looks (WorkerAssignment.get s workerId) := by
  refine .bind (.lift _) fun key => .bind (.act ⟨trivial, trivial⟩) fun primary => ?_
  refine .bind (.tryGetOnNode ⟨trivial, trivial⟩ (fun _ => ⟨trivial, trivial⟩) _) fun value => ?_
  refine .bind (.orReplicas ?_ _ _) fun _ => .pure _
  exact .readFromReplicas (fun _ => ⟨trivial, trivial⟩) (fun _ => ⟨trivial, trivial⟩) _ _

theorem yields_readFromReplicas (k : ℕ) (key : Key) (primary : NodeRef) :
    Yields (fun _ => True) (Replication.readFromReplicas k key primary) := by
  refine (Yields.getReplicas _ _).bind fun replicas hreplicas => ?_
  clear hreplicas
  induction replicas with
  | nil => exact .pure trivial
  | cons n replicas ih =>
    refine .bind (.attempt _) fun reply _ => ?_
    split
    · exact .pure trivial
    · exact ih

/-- Only a worker without a name has no list to read. -/
theorem yields_assignmentGet (s : Service) {workerId : String} (h : workerId ≠ "") :
    Yields (fun _ => True) (WorkerAssignment.get s workerId) := by
  unfold WorkerAssignment.get buildWorkerKey
  rw [if_neg h, lift_ok_bind]
  refine .bind (.act (.findSuccessor _ _)) fun primary _ => ?_
  have htry : Yields (fun _ => True) (s.tryGetOnNode primary (.worker (strip workerId))) := by
    refine .bind (.attempt _) fun reply _ => ?_
    cases reply <;> exact .pure trivial
  have hread : ∀ value : Option Value, Yields (fun _ => True)
      (orReplicas value (value.bind Value.asWorker).isSome
        (WorkerAssignment.readFromReplicas s workerId primary)) := fun value =>
    .ite (.pure trivial) (yields_readFromReplicas _ _ _)
  exact htry.bind fun value _ => (hread value).bind fun _ _ => .pure trivial

/-- Writing a result leaves the registries and the recoveries alone. -/
theorem only_resultPut (s : Service) (id : String) (record : ResultRecord) :
    Only Op.Idle (ResultService.put s id record) := by
  refine .bind (.lift _) fun _ => .bind (.lift _) fun key => .bind (.act trivial) fun primary => ?_
  refine .bind (.putOnNode trivial trivial (fun _ => trivial) _) fun _ => ?_
  exact .replicateWith (fun _ => trivial) (fun _ => .requestWithRetry trivial _) _ _

/-! ### In a ring of fixed membership -/

namespace FixedRing

variable {env : Env} (ring : FixedRing env) {s : Service}

/-- The node that owns the record of a task. -/
def home (id : String) : NodeRef := ring.owner (.result (strip id))

/-- The stores after a result was written: at its owner under the id stripped, and at the
replicas under the id as it is. -/
def written (k : ℕ) (id : String) (record : ResultRecord) (stores : Stores) : Stores :=
  serveAll (.putReplica (.result id) (.result record)) (ring.replicas k (ring.home id))
    (stores.put (ring.home id).address (.result (strip id)) (.result record))

theorem get_written (k : ℕ) (id : String) (record : ResultRecord) (stores : Stores) (a : Address)
    (x : String) :
    (ring.written k id record stores a).get (.result x) =
      if a ∈ (ring.replicas k (ring.home id)).map NodeRef.address ∧ x = id ∨
        a = (ring.home id).address ∧ x = strip id then some (.result record)
      else (stores a).get (.result x) := by
  simp only [written, get_serveAll_putReplica, Stores.get_put, Key.result.injEq]
  by_cases hr : a ∈ (ring.replicas k (ring.home id)).map NodeRef.address ∧ x = id
  · rw [if_pos hr, if_pos (.inl hr)]
  · by_cases ho : a = (ring.home id).address ∧ x = strip id
    · rw [if_neg hr, if_pos ho, if_pos (.inr ho)]
    · rw [if_neg hr, if_neg ho, if_neg (not_or.2 ⟨hr, ho⟩)]

theorem run_resultPut (hs : s.node ∈ ring.members) {id : String} (hid : strip id ≠ "")
    {record : ResultRecord} (hworker : record.workerId ≠ "") (w : World) :
    (run env (ResultService.put s id record) w).1 =
        .ok (report s.replicationK (ring.replicas s.replicationK (ring.home id))) ∧
      (run env (ResultService.put s id record) w).2.stores =
        ring.written s.replicationK id record w.stores := by
  unfold ResultService.put validateResultRecord buildResultKey
  rw [if_neg hworker, if_neg hid, run_lift_ok_bind, run_lift_ok_bind]
  obtain ⟨howner, hown⟩ := ring.resolves hs (.result (strip id)) w
  obtain ⟨hput, hstores⟩ := ring.run_putOnNode hs (.result (strip id)) (.result record)
    (run env (s.owner (.result (strip id))) w).2
  rw [run_bind howner, run_bind hput]
  obtain ⟨hrep, hrepStores⟩ := ring.run_replicateWith s.replicationK
    (.putReplica (.result id) (.result record)) 0 (ring.home id)
    (run env (s.putOnNode (ring.owner (.result (strip id))) (.result (strip id)) (.result record))
      (run env (s.owner (.result (strip id))) w).2).2
  rw [hstores, hown] at hrepStores
  exact ⟨hrep, hrepStores⟩

/-- A record without a worker is not written. -/
theorem run_resultPut_invalid (env : Env) (id : String) {record : ResultRecord}
    (hworker : record.workerId = "") (w : World) :
    ∃ e, run env (ResultService.put s id record) w = (.error e, w) := by
  unfold ResultService.put validateResultRecord
  rw [if_pos hworker]
  exact ⟨_, rfl⟩

/-- What the owner has is what is read. -/
theorem run_resultGet (hs : s.node ∈ ring.members) {id : String} (hid : strip id ≠ "") {v : Value}
    {w : World} (hv : (w.stores (ring.home id).address).get (.result (strip id)) = some v) :
    (run env (ResultService.get s id) w).1 = .ok v.asResult := by
  unfold ResultService.get buildResultKey
  rw [if_neg hid, run_lift_ok_bind]
  obtain ⟨howner, hown⟩ := ring.resolves hs (.result (strip id)) w
  obtain ⟨hget, -⟩ := ring.run_tryGetOnNode hs (.result (strip id))
    (run env (s.owner (.result (strip id))) w).2
  have hvalue : (w.stores (ring.owner (.result (strip id))).address).get (.result (strip id)) =
      some v := hv
  rw [hown, hvalue] at hget
  rw [run_bind howner, run_bind hget]
  rfl

/-- Where nobody has a record, none is read. -/
theorem run_resultGet_none (hs : s.node ∈ ring.members) {id : String} (hid : strip id ≠ "")
    {w : World} (hnone : ∀ a x, strip x = strip id → (w.stores a).get (.result x) = none) :
    (run env (ResultService.get s id) w).1 = .ok none := by
  unfold ResultService.get buildResultKey
  rw [if_neg hid, run_lift_ok_bind]
  obtain ⟨howner, hown⟩ := ring.resolves hs (.result (strip id)) w
  obtain ⟨hget, hstores⟩ := ring.run_tryGetOnNode hs (.result (strip id))
    (run env (s.owner (.result (strip id))) w).2
  rw [hown, hnone _ _ (strip_strip id)] at hget
  rw [run_bind howner, run_bind hget]
  have hreplicas : (run env (ResultService.readFromReplicas s id (ring.home id))
      (run env (s.tryGetOnNode (ring.owner (.result (strip id))) (.result (strip id)))
        (run env (s.owner (.result (strip id))) w).2).2).1 = .ok none := by
    refine ring.run_readFromReplicas_none _ _ fun n _ => ?_
    rw [hstores, hown]
    exact hnone _ _ rfl
  have horElse : (run env (orReplicas none (none : Option Value).isSome
      (ResultService.readFromReplicas s id (ring.home id)))
      (run env (s.tryGetOnNode (ring.owner (.result (strip id))) (.result (strip id)))
        (run env (s.owner (.result (strip id))) w).2).2).1 = .ok none := hreplicas
  exact congrArg Prod.fst (run_bind horElse)

end FixedRing

end Storage
end ChordInfra
