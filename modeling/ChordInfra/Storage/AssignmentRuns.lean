/-
# Calls on one worker's list, in any order

Appends and removals of one worker's tasks, issued from any members of a ring of
fixed membership in which no request fails, take their turns at single reads and
writes (`system`).  The lock of the owner's process serialises all of them but
the removals that are called on another node, which write back what they read
without it.  In a run whose unlocked write-backs find what they read, and no
call that holds the lock between its read and its write, the list is at the end
what the calls make of it in some order (`Calls.serial`).
-/

import ChordInfra.Interact.Pool
import ChordInfra.Storage.FixedRing
import Mathlib.Data.Fintype.Basic
import Mathlib.Tactic.Simps.Basic

namespace ChordInfra
namespace Storage

open Interact Prog
open ChordInfra.Ring (NodeRef)
open Replication

/-- Taking a lock waits until it is free. -/
def Op.enabled (w : World) : Op → Bool
  | .lock a k => !w.locked a k
  | _ => true

/-! ### Calls -/

/-- A call on the list of one worker, at the service of a node. -/
inductive ChangeCall
  | append (s : Service) (taskId : String)
  | remove (s : Service) (taskId : String)

namespace ChangeCall

/-- The node a call is issued at. -/
def service : ChangeCall → Service
  | append s _ | remove s _ => s

def program (workerId : String) : ChangeCall → M Assignment
  | append s taskId => WorkerAssignment.append s workerId taskId
  | remove s taskId => WorkerAssignment.remove s workerId taskId

/-- An append that another node is asked for is refused when its id is empty. -/
def refused (primary : NodeRef) : ChangeCall → Bool
  | append s taskId => taskId = "" ∧ primary.id ≠ s.node.id
  | remove .. => false

/-- What a call makes of the list. -/
def apply (primary : NodeRef) (call : ChangeCall) (tasks : List String) : List String :=
  if call.refused primary then tasks
  else
    match call with
    | append _ taskId => WorkerAssignment.appended taskId tasks
    | remove _ taskId => WorkerAssignment.removed taskId tasks

/-- What calls make of the list, one after another. -/
def applyAll (primary : NodeRef) (calls : List ChangeCall) (tasks : List String) : List String :=
  calls.foldl (fun tasks call => call.apply primary tasks) tasks

end ChangeCall

/-- How far a call has come: whether it holds the lock, the list it has read and
is yet to write back, and whether it has done what it does to the list. -/
structure Progress where
  call : ChangeCall
  holds : Bool
  read : Option (List String)
  done : Bool

namespace Progress

/-- A call that has not begun; one that is refused does nothing. -/
def init (primary : NodeRef) (call : ChangeCall) : Progress :=
  ⟨call, false, none, call.refused primary⟩

/-- The lock is taken or released. -/
@[simps] def hold (g : Progress) (b : Bool) : Progress := { g with holds := b }

/-- The list is read, to be written back. -/
@[simps] def see (g : Progress) (tasks : List String) : Progress := { g with read := some tasks }

/-- The call has done what it does to the list. -/
@[simps] def finish (g : Progress) : Progress := { g with read := none, done := true }

/-- The list is read; where the call changes nothing in it, that was all. -/
def observe (primary : NodeRef) (g : Progress) (tasks : List String) : Progress :=
  if g.call.apply primary tasks = tasks then g.finish else g.see tasks

/-- What a call has done after one more operation on the owner's record. -/
def note (primary : NodeRef) (g : Progress) : (o : Op) → o.Res → Progress
  | .lock .., _ => g.hold true
  | .unlock .., _ => g.hold false
  | .get .., current => g.observe primary (WorkerAssignment.tasksOf current)
  | .rpc _ (.get _), some current => g.observe primary (WorkerAssignment.tasksOf current)
  | .put .., _ | .rpc _ (.put ..), _ => g.finish
  | _, _ => g

end Progress

/-- The calls on a world whose owner of the worker's key is `primary`. -/
def Calls.system (env : Env) (primary : NodeRef) :
    System Op Op.Res Exc Assignment Progress World where
  handle := handle env
  enabled := Op.enabled
  note := Progress.note primary
  launch _ := none

/-- The calls before their first operation. -/
def Calls.pool {ι : Type} (primary : NodeRef) (workerId : String) (calls : ι → ChangeCall)
    (w : World) : Pool ι Op Op.Res Exc Assignment Progress World where
  threads i := some ⟨.init primary (calls i), (calls i).program workerId⟩
  world := w

/-- The list that the owner holds. -/
def World.tasks (w : World) (primary : NodeRef) (key : Key) : List String :=
  WorkerAssignment.tasksOf ((w.stores primary.address).get key)

/-- The operation writes a record back without its lock. -/
def Op.writesBack : Op → Bool
  | .rpc _ (.put ..) => true
  | _ => false

/-- An unlocked write-back finds the list that it is about as it was read, and no
call that holds the lock between its read and its write. -/
def Calls.WritesBackFresh {ι : Type} (primary : NodeRef) (key : Key) : Cond ι Op Progress World :=
  fun γ w i o => o.writesBack = true →
    (∀ g ∈ γ i, g.read = some (w.tasks primary key)) ∧
      ∀ j, ∀ g ∈ γ j, g.holds = true → g.read = none

instance {ι : Type} [Fintype ι] (primary : NodeRef) (key : Key) (γ : ι → Option Progress)
    (w : World) (i : ι) (o : Op) : Decidable (Calls.WritesBackFresh primary key γ w i o) :=
  inferInstanceAs (Decidable (_ → _))

/-! ### What a call makes of the list -/

namespace ChangeCall

variable {primary : NodeRef} {call : ChangeCall} {calls : List ChangeCall} {tasks : List String}

theorem nodup_apply (h : tasks.Nodup) : (call.apply primary tasks).Nodup := by
  unfold apply
  split_ifs
  · exact h
  · cases call with
    | append s taskId =>
      simp only [WorkerAssignment.appended]
      split_ifs with hmem
      · exact h
      · exact List.nodup_append.2 ⟨h, by simp, by
          rintro a ha b hb rfl
          exact hmem (List.mem_singleton.1 hb ▸ ha)⟩
    | remove s taskId => exact h.filter _

/-- Calls that are refused do nothing. -/
theorem applyAll_of_refused (h : ∀ call ∈ calls, call.refused primary = true) :
    applyAll primary calls tasks = tasks := by
  induction calls with
  | nil => rfl
  | cons call calls ih =>
    have hcall : call.apply primary tasks = tasks := if_pos (h call List.mem_cons_self)
    unfold applyAll
    rw [List.foldl_cons, hcall]
    exact ih fun c hc => h c (List.mem_cons_of_mem _ hc)

/-- **No id occurs twice.** -/
theorem nodup_applyAll (h : tasks.Nodup) : (applyAll primary calls tasks).Nodup := by
  induction calls generalizing tasks with
  | nil => exact h
  | cons call calls ih => exact ih (nodup_apply h)

/-- Only a call about an id changes whether it is in the list. -/
theorem mem_apply {t : String} :
    t ∈ call.apply primary tasks ↔
      (t ∈ tasks ∧ ∀ s, call ≠ remove s t) ∨
        (∃ s, call = append s t) ∧ call.refused primary = false := by
  unfold apply
  cases hr : call.refused primary with
  | true =>
    cases call with
    | append s taskId => simp
    | remove s taskId => simp [refused] at hr
  | false =>
    cases call with
    | append s taskId =>
      have happend : (∃ s', append s taskId = append s' t) ↔ t = taskId :=
        ⟨fun ⟨s', he⟩ => by cases he; rfl, fun he => ⟨s, he ▸ rfl⟩⟩
      simp only [Bool.false_eq_true, if_false, WorkerAssignment.appended, happend]
      split_ifs with hmem
      · simpa using fun he => he ▸ hmem
      · simp
    | remove s taskId =>
      have hremove : (∀ s', remove s taskId ≠ remove s' t) ↔ t ≠ taskId :=
        ⟨fun h he => h s (he ▸ rfl), fun h s' he => h (by cases he; rfl)⟩
      simp only [Bool.false_eq_true, if_false, WorkerAssignment.removed, hremove]
      simp

/-- **No appended and never removed id is missing.** -/
theorem mem_applyAll_of_append {s : Service} {t : String} (h : append s t ∈ calls)
    (hok : (append s t).refused primary = false) (hnever : ∀ s', remove s' t ∉ calls) :
    t ∈ applyAll primary calls tasks := by
  have hkeep : ∀ calls : List ChangeCall, (∀ s', remove s' t ∉ calls) → ∀ tasks, t ∈ tasks →
      t ∈ applyAll primary calls tasks := by
    intro calls
    induction calls with
    | nil => exact fun _ _ hmem => hmem
    | cons call calls ih =>
      intro hnever tasks hmem
      refine ih (fun s' hs' => hnever s' (List.mem_cons_of_mem _ hs')) _ (mem_apply.2 (.inl ⟨hmem, ?_⟩))
      exact fun s' hs' => hnever s' (hs' ▸ List.mem_cons_self)
  obtain ⟨before, after, rfl⟩ := List.append_of_mem h
  unfold applyAll
  rw [List.foldl_append, List.foldl_cons]
  refine hkeep after (fun s' hs' => hnever s' (by simp [hs'])) _ (mem_apply.2 (.inr ⟨⟨s, rfl⟩, hok⟩))

/-- **No removed id that was not appended again is present.** -/
theorem not_mem_applyAll_of_remove {s : Service} {t : String} {before after : List ChangeCall}
    (hcalls : calls = before ++ remove s t :: after) (hnever : ∀ s', append s' t ∉ after) :
    t ∉ applyAll primary calls tasks := by
  subst hcalls
  have hkeep : ∀ calls : List ChangeCall, (∀ s', append s' t ∉ calls) → ∀ tasks, t ∉ tasks →
      t ∉ applyAll primary calls tasks := by
    intro calls
    induction calls with
    | nil => exact fun _ _ hmem => hmem
    | cons call calls ih =>
      intro hnever tasks hmem
      refine ih (fun s' hs' => hnever s' (List.mem_cons_of_mem _ hs')) _ fun hmem' => ?_
      rcases mem_apply.1 hmem' with ⟨hmem', -⟩ | ⟨⟨s', rfl⟩, -⟩
      · exact hmem hmem'
      · exact hnever s' List.mem_cons_self
  unfold applyAll
  rw [List.foldl_append, List.foldl_cons]
  refine hkeep after hnever _ fun hmem => ?_
  rcases mem_apply.1 hmem with ⟨-, hne⟩ | ⟨⟨s', hs'⟩, -⟩
  · exact hne s rfl
  · cases hs'

end ChangeCall

/-! ### What a call does -/

namespace Calls

variable {env : Env} {ring : FixedRing env} {primary : NodeRef} {key : Key} {g : Progress}

/-- The answers in a ring of fixed membership in which no request fails. -/
def Granted (ring : FixedRing env) : (o : Op) → o.Res → Prop
  | .rpc .., reply => reply.isSome = true
  | .deliver .., delivery => delivery = .delivered
  | .findSuccessor a k, n => (∃ m ∈ ring.members, m.address = a) → n = ring.owner k
  | _, _ => True

/-- What a call may do next: of the owner's record, read it, write back what it
makes of what it read, and hold the lock while it is there. -/
def Allowed (primary : NodeRef) (key : Key) (g : Progress) : Op → Prop
  | .lock a k => a = primary.address ∧ k = key ∧ g.holds = false ∧ g.read = none
  | .unlock a k => a = primary.address ∧ k = key ∧ g.holds = true ∧ g.read = none
  | .get a k =>
    a = primary.address ∧ k = key ∧ g.holds = true ∧ g.done = false ∧ g.read = none
  | .rpc a (.get k) =>
    a = primary.address ∧ k = key ∧ g.holds = false ∧ g.done = false ∧ g.read = none
  | .put a k v => a = primary.address ∧ k = key ∧ g.holds = true ∧ g.done = false ∧
      ∃ tasks, g.read = some tasks ∧
        WorkerAssignment.tasksOf (some v) = g.call.apply primary tasks
  | .rpc a (.put k v) => a = primary.address ∧ k = key ∧ g.holds = false ∧ g.done = false ∧
      ∃ tasks, g.read = some tasks ∧
        WorkerAssignment.tasksOf (some v) = g.call.apply primary tasks
  | .rpc a (.putReplica ..) => a ≠ primary.address
  | .rpc _ .getState | .findSuccessor .. | .deliver .. | .now => True
  | _ => False

/-- The operations that are no business of the owner's record. -/
def Aside (primary : NodeRef) : Op → Prop
  | .rpc a (.putReplica ..) => a ≠ primary.address
  | .rpc _ .getState | .deliver .. | .findSuccessor .. => True
  | _ => False

theorem Aside.allowed (o : Op) (h : Aside primary o) (g : Progress) :
    Allowed primary key g o ∧ ∀ r, Progress.note primary g o r = g := by
  cases o with
  | rpc a r =>
    cases r with
    | getState => exact ⟨trivial, fun _ => rfl⟩
    | putReplica k v => exact ⟨h, fun _ => rfl⟩
    | _ => exact h.elim
  | deliver a c => exact ⟨trivial, fun _ => rfl⟩
  | findSuccessor a k => exact ⟨trivial, fun _ => rfl⟩
  | _ => exact h.elim

/-- The end of a call: it has done what it does to the list, and the lock is free
of it. -/
def Over (x : Except Exc Assignment) (g : Progress) : Prop :=
  g.done = true ∧ g.holds = false ∧ ∃ a, x = .ok a

/-- **Under the lock.**  The record is read, and written when the list changes. -/
theorem wp_changeLocal (hholds : g.holds = false) (hread : g.read = none) (hdone : g.done = false)
    (k : ℕ) (workerId : String) :
    wp (Progress.note primary) (Granted ring) (Allowed primary key)
      (WorkerAssignment.changeLocal primary.address k key workerId (g.call.apply primary) primary)
      Over g := by
  have hlock : Progress.note primary g (.lock primary.address key) () = g.hold true := rfl
  unfold WorkerAssignment.changeLocal
  refine wp_perform_bind.2 ⟨⟨rfl, rfl, hholds, hread⟩, fun _ _ => ?_⟩
  refine wp_perform_bind.2 ⟨⟨rfl, rfl, rfl, hdone, hread⟩, fun current _ => ?_⟩
  rw [hlock]
  by_cases hsame : g.call.apply primary (WorkerAssignment.tasksOf current) =
      WorkerAssignment.tasksOf current
  · have hget : Progress.note primary (g.hold true) (.get primary.address key) current =
        (g.hold true).finish := if_pos hsame
    rw [if_pos hsame, hget]
    exact ⟨⟨rfl, rfl, rfl, rfl⟩, fun _ _ => ⟨rfl, rfl, _, rfl⟩⟩
  · have hget : Progress.note primary (g.hold true) (.get primary.address key) current =
        (g.hold true).see (WorkerAssignment.tasksOf current) := if_neg hsame
    rw [if_neg hsame, hget]
    refine wp_perform_bind.2 ⟨trivial, fun now _ => ?_⟩
    refine wp_perform_bind.2
      ⟨⟨rfl, rfl, rfl, hdone, _, rfl, WorkerAssignment.tasksOf_renew _ _ _ _⟩, fun _ _ => ?_⟩
    refine Only.wp_bind (S := Aside primary) ?_ (.replicateWith (fun _ => .requestWithRetry _ _ _) _ _)
      (fun o ho g => ho.allowed o g) fun _ _ => ?_
    · exact .replicas (fun _ => trivial) (fun n hn => .requestWithRetry hn _) k
    · exact ⟨⟨rfl, rfl, rfl, rfl⟩, fun _ _ => ⟨rfl, rfl, _, rfl⟩⟩

/-- A change of the list in the owner's process, which knows the owner or resolves
it. -/
theorem wp_local (hholds : g.holds = false) (hread : g.read = none) (hdone : g.done = false)
    (k : ℕ) (workerId : String) {owner : Option NodeRef}
    (howner : owner = some primary ∨
      owner = none ∧ primary ∈ ring.members ∧ ring.owner key = primary) :
    wp (Progress.note primary) (Granted ring) (Allowed primary key)
      (WorkerAssignment.ownerOr primary.address key owner >>= fun primary' =>
        WorkerAssignment.changeLocal primary.address k key workerId (g.call.apply primary) primary')
      Over g := by
  have hchange : wp (Progress.note primary) (Granted ring) (Allowed primary key)
      (WorkerAssignment.changeLocal primary.address k key workerId (g.call.apply primary) primary)
      Over g := wp_changeLocal hholds hread hdone k workerId
  rcases howner with rfl | ⟨rfl, hmem, howner⟩
  · exact hchange
  · refine wp_perform_bind.2 ⟨trivial, fun primary' hp => ?_⟩
    obtain rfl : primary' = ring.owner key := hp ⟨primary, hmem, rfl⟩
    rw [howner]
    exact hchange

section Programs

variable {s : Service} {workerId taskId : String}

/-- The owner of a worker's key. -/
def ownerOf (ring : FixedRing env) (workerId : String) : NodeRef :=
  ring.owner (.worker (strip workerId))

/-- The logic of a call on the list of a worker. -/
abbrev Does (ring : FixedRing env) (workerId : String) (p : M Assignment)
    (Q : Except Exc Assignment → Progress → Prop) (g : Progress) : Prop :=
  wp (Progress.note (ownerOf ring workerId)) (Granted ring)
    (Allowed (ownerOf ring workerId) (.worker (strip workerId))) p Q g

theorem does_appendLocal (hw : workerId ≠ "") (hholds : g.holds = false) (hread : g.read = none)
    (hdone : g.done = false) (hcall : g.call = .append s taskId)
    (hok : g.call.refused (ownerOf ring workerId) = false) (k : ℕ) {owner : Option NodeRef}
    (howner : owner = some (ownerOf ring workerId) ∨ owner = none) :
    Does ring workerId
      (WorkerAssignment.appendLocal (ownerOf ring workerId).address k workerId taskId owner) Over
      g := by
  have happly : g.call.apply (ownerOf ring workerId) = WorkerAssignment.appended taskId := by
    funext tasks
    unfold ChangeCall.apply
    rw [hok, hcall]
    rfl
  unfold WorkerAssignment.appendLocal
  rw [show buildWorkerKey workerId = .ok (.worker (strip workerId)) from if_neg hw, lift_ok_bind,
    ← happly]
  exact wp_local hholds hread hdone k workerId (howner.imp_right fun h => ⟨h, ring.owner_mem _, rfl⟩)

theorem does_removeLocal (hw : workerId ≠ "") (hholds : g.holds = false) (hread : g.read = none)
    (hdone : g.done = false) (hcall : g.call = .remove s taskId) (k : ℕ) :
    Does ring workerId
      (WorkerAssignment.removeLocal (ownerOf ring workerId).address k workerId taskId
        (some (ownerOf ring workerId))) Over g := by
  have happly : g.call.apply (ownerOf ring workerId) = WorkerAssignment.removed taskId := by
    funext tasks
    rw [hcall]
    rfl
  unfold WorkerAssignment.removeLocal
  rw [show buildWorkerKey workerId = .ok (.worker (strip workerId)) from if_neg hw, lift_ok_bind,
    ← happly]
  exact wp_local hholds hread hdone k workerId (.inl rfl)

/-- A removal called on another node: the record is read and written back without
the lock. -/
theorem does_removeRemote (hholds : g.holds = false) (hread : g.read = none)
    (hdone : g.done = false) (hcall : g.call = .remove s taskId) :
    Does ring workerId (WorkerAssignment.removeRemote (ownerOf ring workerId)
      (.worker (strip workerId)) workerId taskId) (fun _ g' => g'.done = true) g := by
  have happly : g.call.apply (ownerOf ring workerId) = WorkerAssignment.removed taskId := by
    funext tasks
    rw [hcall]
    rfl
  unfold WorkerAssignment.removeRemote
  refine wp_bind.2 (wp_attempt.2 (wp_request (fun _ h => h) ⟨rfl, rfl, hholds, hdone, hread⟩
    fun current _ => ?_))
  have hnote : Progress.note (ownerOf ring workerId) g (.rpc (ownerOf ring workerId).address
      (.get (.worker (strip workerId)))) (some current) =
        g.observe (ownerOf ring workerId) (WorkerAssignment.tasksOf current) := rfl
  rw [hnote, Progress.observe, happly]
  change wp _ _ _ (if taskId ∉ WorkerAssignment.tasksOf current then _ else _) _ _
  by_cases hmem : taskId ∉ WorkerAssignment.tasksOf current
  · rw [if_pos hmem, if_pos (WorkerAssignment.removed_eq_self.2 hmem)]
    exact rfl
  · rw [if_neg hmem, if_neg (mt WorkerAssignment.removed_eq_self.1 hmem)]
    refine wp_perform_bind.2 ⟨trivial, fun now _ => ?_⟩
    refine wp_bind.2 (wp_attempt.2 (wp_request (fun _ h => h)
      ⟨rfl, rfl, hholds, hdone, _, rfl, ?_⟩ fun _ _ => rfl))
    exact (WorkerAssignment.tasksOf_renew _ _ _ _).trans (congrFun happly.symm _)

/-- An append that the owner's process serves for another node. -/
theorem does_appendTries (hw : workerId ≠ "") (hholds : g.holds = false) (hread : g.read = none)
    (hdone : g.done = g.call.refused (ownerOf ring workerId)) (hcall : g.call = .append s taskId)
    (hne : (ownerOf ring workerId).id ≠ s.node.id) (n : ℕ) :
    Does ring workerId (WorkerAssignment.appendTries s (.worker (strip workerId)) workerId taskId
      (WorkerAssignment.asked s workerId taskId) n (ownerOf ring workerId))
      (fun _ g' => g'.done = true) g := by
  by_cases ht : taskId = ""
  · have hdone' : g.done = true := by
      rw [hdone, hcall]
      simpa [ChangeCall.refused, ht] using hne
    have honly : ∀ n primary, Only (Aside (ownerOf ring workerId)) (WorkerAssignment.appendTries s
        (.worker (strip workerId)) workerId taskId (WorkerAssignment.asked s workerId taskId) n
        primary) := by
      intro n
      induction n with
      | zero =>
        intro primary
        unfold WorkerAssignment.appendTries WorkerAssignment.asked WorkerAssignment.handleAppend
        rw [if_pos ht]
        exact .callTries trivial (.raise _) _
      | succ n ih =>
        intro primary
        unfold WorkerAssignment.appendTries WorkerAssignment.asked WorkerAssignment.handleAppend
        rw [if_pos ht]
        refine .bind (.attempt (.callTries trivial (.raise _) _)) fun x => ?_
        cases x with
        | ok x => exact .pure _
        | error e => exact .bind (.act trivial) fun primary => ih primary
    refine wp_mono (fun _ g' hg' => ?_) ((honly n _).wp fun o ho g => ho.allowed o g)
    rw [hg']
    exact hdone'
  · have hok : g.call.refused (ownerOf ring workerId) = false := by
      rw [hcall]
      simp [ChangeCall.refused, ht]
    have hhandle : Does ring workerId (WorkerAssignment.handleAppend (ownerOf ring workerId).address
        s.replicationK workerId taskId) Over g := by
      unfold WorkerAssignment.handleAppend
      rw [if_neg ht]
      exact does_appendLocal hw hholds hread (hdone.trans hok) hcall hok _ (.inr rfl)
    have hcall' : Does ring workerId (Transport.call (ownerOf ring workerId).address
        (.append workerId taskId) (WorkerAssignment.handleAppend (ownerOf ring workerId).address
          s.replicationK workerId taskId)) Over g := by
      refine wp_call (fun _ h => h) ⟨trivial, fun _ => rfl⟩ (wp_mono (fun x g' hx => ?_) hhandle)
      exact ⟨hx, hx.2.2⟩
    cases n with
    | zero => exact wp_mono (fun _ _ hx => hx.1) hcall'
    | succ n =>
      refine wp_bind.2 (wp_attempt.2 (wp_mono (fun x g' hx => ?_) hcall'))
      obtain ⟨hdone', -, a, rfl⟩ := hx
      exact hdone'

/-- **A call does to the list what it is for, once.** -/
theorem does_program (hw : workerId ≠ "") {call : ChangeCall}
    (hmem : call.service.node ∈ ring.members) :
    Does ring workerId (call.program workerId) (fun _ g => g.done = true)
      (.init (ownerOf ring workerId) call) := by
  have hkey : buildWorkerKey workerId = .ok (.worker (strip workerId)) := if_neg hw
  cases call with
  | append s taskId =>
    change Does ring workerId (WorkerAssignment.append s workerId taskId) _ _
    unfold WorkerAssignment.append WorkerAssignment.appendBy
    rw [hkey, lift_ok_bind]
    refine wp_perform_bind.2 ⟨trivial, fun primary hp => ?_⟩
    obtain rfl : primary = ownerOf ring workerId := hp ⟨s.node, hmem, rfl⟩
    by_cases hid : (ownerOf ring workerId).id = s.node.id
    · have hok : (ChangeCall.append s taskId).refused (ownerOf ring workerId) = false := by
        simp [ChangeCall.refused, hid]
      have hnode : s.node = ownerOf ring workerId := ring.eq_owner hmem hid
      rw [if_pos hid, hnode]
      exact wp_mono (fun _ _ hx => hx.1) (does_appendLocal hw rfl rfl hok rfl hok _ (.inl rfl))
    · rw [if_neg hid]
      exact does_appendTries hw rfl rfl rfl rfl hid _
  | remove s taskId =>
    change Does ring workerId (WorkerAssignment.remove s workerId taskId) _ _
    unfold WorkerAssignment.remove
    rw [hkey, lift_ok_bind]
    refine wp_perform_bind.2 ⟨trivial, fun primary hp => ?_⟩
    obtain rfl : primary = ownerOf ring workerId := hp ⟨s.node, hmem, rfl⟩
    by_cases hid : (ownerOf ring workerId).id = s.node.id
    · have hnode : s.node = ownerOf ring workerId := ring.eq_owner hmem hid
      rw [if_pos hid, hnode]
      exact wp_mono (fun _ _ hx => hx.1) (does_removeLocal hw rfl rfl rfl rfl _)
    · rw [if_neg hid]
      exact does_removeRemote rfl rfl rfl rfl

end Programs

/-! ### The order of the calls -/

variable {ι : Type} {calls : ι → ChangeCall} {tasks₀ : List String} {f : ι → Progress}
  {w w' : World} {i : ι}

/-- What holds throughout a run: at most one call holds the lock, what it has read
is still there, and the list is what the calls that are done made of it in some
order. -/
structure Serial (primary : NodeRef) (key : Key) (calls : ι → ChangeCall) (tasks₀ : List String)
    (f : ι → Progress) (w : World) : Prop where
  call_eq : ∀ i, (f i).call = calls i
  locked : w.locked primary.address key = true ↔ ∃ i, (f i).holds = true
  alone : ∀ i j, (f i).holds = true → (f j).holds = true → i = j
  fresh : ∀ i tasks, (f i).holds = true → (f i).read = some tasks → w.tasks primary key = tasks
  order : ∃ order : List ι, order.Nodup ∧ (∀ i, i ∈ order ↔ (f i).done = true) ∧
    w.tasks primary key = ChangeCall.applyAll primary (order.map calls) tasks₀

namespace Serial

/-- Nothing happened to the list or the lock. -/
theorem aside (h : Serial primary key calls tasks₀ f w)
    (htasks : w'.tasks primary key = w.tasks primary key)
    (hlocked : w'.locked primary.address key = w.locked primary.address key) :
    Serial primary key calls tasks₀ f w' :=
  ⟨h.call_eq, hlocked ▸ h.locked, h.alone, fun i t hi hr => htasks.trans (h.fresh i t hi hr),
    htasks ▸ h.order⟩

variable [DecidableEq ι]

/-- What an update of one call's progress leaves as it was, is as it was of all. -/
theorem update_field {X : Type} (field : Progress → X) {g : Progress} (h : field g = field (f i))
    (j : ι) : field (Function.update f i g j) = field (f j) := by
  by_cases hj : j = i
  · subst hj
    rw [Function.update_self, h]
  · rw [Function.update_of_ne hj]

theorem call_update {g : Progress} (h : Serial primary key calls tasks₀ f w)
    (hg : g.call = (f i).call) (j : ι) : (Function.update f i g j).call = calls j :=
  (update_field Progress.call hg j).trans (h.call_eq j)

/-- The order stays as it is while no call finishes. -/
theorem order_update {g : Progress} (h : Serial primary key calls tasks₀ f w)
    (hdone : g.done = (f i).done) (htasks : w'.tasks primary key = w.tasks primary key) :
    ∃ order : List ι, order.Nodup ∧ (∀ j, j ∈ order ↔ (Function.update f i g j).done = true) ∧
      w'.tasks primary key = ChangeCall.applyAll primary (order.map calls) tasks₀ := by
  obtain ⟨order, hnodup, hmem, hlist⟩ := h.order
  refine ⟨order, hnodup, fun j => ?_, htasks.trans hlist⟩
  rw [hmem, update_field Progress.done hdone]

/-- The lock is taken while it is free. -/
theorem lock (h : Serial primary key calls tasks₀ f w) (hfree : w.locked primary.address key = false)
    (hread : (f i).read = none) (htasks : w'.tasks primary key = w.tasks primary key)
    (hlocked : w'.locked primary.address key = true) :
    Serial primary key calls tasks₀ (Function.update f i ((f i).hold true)) w' := by
  have hnone : ∀ j, (f j).holds ≠ true := fun j hj =>
    Bool.false_ne_true (hfree.symm.trans (h.locked.2 ⟨j, hj⟩))
  have hholds : ∀ j, (Function.update f i ((f i).hold true) j).holds = true ↔ j = i := by
    intro j
    by_cases hj : j = i
    · subst hj
      simp
    · simp [hj, hnone j]
  refine ⟨h.call_update rfl, by simp [hlocked, hholds],
    fun j j' hj hj' => ?_, fun j t hj hr => ?_, h.order_update rfl htasks⟩
  · rw [(hholds j).1 hj, (hholds j').1 hj']
  · obtain rfl := (hholds j).1 hj
    simp [hread] at hr

/-- The lock is released by the call that holds it. -/
theorem unlock (h : Serial primary key calls tasks₀ f w) (hi : (f i).holds = true)
    (htasks : w'.tasks primary key = w.tasks primary key)
    (hlocked : w'.locked primary.address key = false) :
    Serial primary key calls tasks₀ (Function.update f i ((f i).hold false)) w' := by
  have hnone : ∀ j, (Function.update f i ((f i).hold false) j).holds = false := by
    intro j
    by_cases hj : j = i
    · subst hj
      simp
    · have hother : ¬(f j).holds = true := fun hj' => hj (h.alone j i hj' hi)
      simpa [hj] using hother
  exact ⟨h.call_update rfl, by simp [hlocked, hnone],
    fun j j' hj => by simp [hnone] at hj, fun j t hj => by simp [hnone] at hj,
    h.order_update rfl htasks⟩

/-- A call does what it does to the list: it is the next one in the order. -/
theorem finish (h : Serial primary key calls tasks₀ f w) (hdone : (f i).done = false)
    (hothers : ∀ j t, j ≠ i → (f j).holds = true → (f j).read = some t → w'.tasks primary key = t)
    (htasks : w'.tasks primary key = (calls i).apply primary (w.tasks primary key))
    (hlocked : w'.locked primary.address key = w.locked primary.address key) :
    Serial primary key calls tasks₀ (Function.update f i (f i).finish) w' := by
  have hholds : ∀ j, (Function.update f i (f i).finish j).holds = (f j).holds :=
    update_field Progress.holds rfl
  refine ⟨h.call_update rfl,
    by simp only [hlocked, hholds, h.locked], fun j j' hj hj' => ?_, fun j t hj hr => ?_, ?_⟩
  · rw [hholds] at hj hj'
    exact h.alone j j' hj hj'
  · rw [hholds] at hj
    by_cases hji : j = i
    · subst hji
      simp at hr
    · exact hothers j t hji hj (by simpa [hji] using hr)
  · obtain ⟨order, hnodup, hmem, hlist⟩ := h.order
    have hi : i ∉ order := fun hi => Bool.false_ne_true (hdone.symm.trans ((hmem i).1 hi))
    refine ⟨order ++ [i], ?_, fun j => ?_, ?_⟩
    · rw [← List.concat_eq_append]
      exact hnodup.concat hi
    · by_cases hj : j = i
      · subst hj
        simp
      · simp [hj, hmem j]
    · rw [htasks, hlist, List.map_append, ChangeCall.applyAll, ChangeCall.applyAll,
        List.foldl_append]
      rfl

/-- The list is read. -/
theorem observe (h : Serial primary key calls tasks₀ f w) (hdone : (f i).done = false)
    (htasks : w'.tasks primary key = w.tasks primary key)
    (hlocked : w'.locked primary.address key = w.locked primary.address key) :
    Serial primary key calls tasks₀
      (Function.update f i ((f i).observe primary (w.tasks primary key))) w' := by
  unfold Progress.observe
  split_ifs with hsame
  · refine h.finish hdone (fun j t _ hj hr => htasks.trans (h.fresh j t hj hr)) ?_ hlocked
    rw [htasks, ← h.call_eq, hsame]
  · have hholds : ∀ j, (Function.update f i ((f i).see (w.tasks primary key)) j).holds =
        (f j).holds := update_field Progress.holds rfl
    refine ⟨h.call_update rfl,
      by simp only [hlocked, hholds, h.locked], fun j j' hj hj' => ?_, fun j t hj hr => ?_,
      h.order_update rfl htasks⟩
    · rw [hholds] at hj hj'
      exact h.alone j j' hj hj'
    · rw [hholds] at hj
      by_cases hji : j = i
      · subst hji
        rw [Function.update_self] at hr
        exact htasks.trans (Option.some.inj hr)
      · exact htasks.trans (h.fresh j t hj (by simpa [hji] using hr))

end Serial

/-! ### Runs -/

section Runs

variable [DecidableEq ι] {workerId : String}

/-- **An operation of a call keeps the order.**  The cases are the operations that
a call may perform. -/
theorem Serial.act (hdeliver : ∀ t a c, env.deliverCall t a c = .delivered)
    (h : Serial (ownerOf ring workerId) (.worker (strip workerId)) calls tasks₀ f w) {o : Op}
    (hallowed : Allowed (ownerOf ring workerId) (.worker (strip workerId)) (f i) o)
    (henabled : Op.enabled w o = true)
    (hcond : WritesBackFresh (ownerOf ring workerId) (.worker (strip workerId))
      (fun i => some (f i)) w i o) :
    Granted ring o (handle env o w).1 ∧
      Serial (ownerOf ring workerId) (.worker (strip workerId)) calls tasks₀
        (Function.update f i (Progress.note (ownerOf ring workerId) (f i) o (handle env o w).1))
        (handle env o w).2 := by
  have hsame : ∀ w' : World, w'.tasks (ownerOf ring workerId) (.worker (strip workerId)) =
        w.tasks (ownerOf ring workerId) (.worker (strip workerId)) →
      w'.locked = w.locked → Serial (ownerOf ring workerId) (.worker (strip workerId)) calls tasks₀
        (Function.update f i (f i)) w' := fun w' htasks hlocked => by
    rw [Function.update_eq_self]
    exact h.aside htasks (by rw [hlocked])
  cases o with
  | lock a k =>
    obtain ⟨rfl, rfl, hholds, hread⟩ := hallowed
    have hfree : w.locked (ownerOf ring workerId).address (.worker (strip workerId)) = false := by
      simpa [Op.enabled] using henabled
    exact ⟨trivial, h.lock hfree hread rfl (by simp [handle, World.did])⟩
  | unlock a k =>
    obtain ⟨rfl, rfl, hholds, -⟩ := hallowed
    exact ⟨trivial, h.unlock hholds rfl (by simp [handle, World.did])⟩
  | get a k =>
    obtain ⟨rfl, rfl, -, hdone, -⟩ := hallowed
    exact ⟨trivial, h.observe hdone rfl rfl⟩
  | put a k v =>
    obtain ⟨rfl, rfl, hholds, hdone, tasks, hread, hv⟩ := hallowed
    refine ⟨trivial, h.finish hdone (fun j t hji hj _ => (hji (h.alone j i hj hholds)).elim) ?_ rfl⟩
    rw [h.fresh i tasks hholds hread, ← h.call_eq, ← hv]
    exact congrArg WorkerAssignment.tasksOf (Stores.get_put_self _ _ _ _)
  | rpc a r =>
    have hanswer := ring.handle_rpc a r w
    have hstores := ring.handle_rpc_stores a r w
    refine ⟨?_, ?_⟩
    · change ((handle env (.rpc a r) w).1).isSome = true
      rw [hanswer]
      rfl
    · rw [hanswer]
      have htasks : (handle env (.rpc a r) w).2.tasks (ownerOf ring workerId)
          (.worker (strip workerId)) = WorkerAssignment.tasksOf ((World.serve w.stores a r
            (ownerOf ring workerId).address).get (.worker (strip workerId))) := by
        unfold World.tasks
        rw [hstores]
      cases r with
      | getState => exact hsame _ htasks rfl
      | get k =>
        obtain ⟨rfl, rfl, -, hdone, -⟩ := hallowed
        exact h.observe hdone htasks rfl
      | put k v =>
        obtain ⟨rfl, rfl, -, hdone, tasks, hread, hv⟩ := hallowed
        obtain ⟨hmine, hothers⟩ := hcond rfl
        have hfresh : some tasks = some (w.tasks (ownerOf ring workerId) (.worker (strip workerId))) :=
          hread.symm.trans (hmine _ rfl)
        refine h.finish hdone (fun j t _ hj hr => ?_) ?_ rfl
        · rw [hothers j _ rfl hj] at hr
          cases hr
        · rw [htasks, ← Option.some.inj hfresh, ← h.call_eq, ← hv]
          exact congrArg WorkerAssignment.tasksOf (Stores.get_put_self _ _ _ _)
      | putReplica k v =>
        refine hsame _ (htasks.trans (congrArg WorkerAssignment.tasksOf ?_)) rfl
        exact (Stores.get_put ..).trans (if_neg fun he => hallowed he.1.symm)
      | delete k => exact hallowed.elim
      | getReplica k => exact hallowed.elim
      | deleteReplica k => exact hallowed.elim
  | deliver a c => exact ⟨hdeliver _ _ _, hsame _ rfl rfl⟩
  | findSuccessor a k =>
    exact ⟨fun ⟨m, hm, ha⟩ => ha ▸ ring.findSuccessor_eq _ m hm k, hsame _ rfl rfl⟩
  | now => exact ⟨trivial, hsame _ rfl rfl⟩
  | delete a k => exact hallowed.elim
  | items a => exact hallowed.elim
  | newId => exact hallowed.elim
  | registry a c => exact hallowed.elim
  | manager a c => exact hallowed.elim
  | memory p c => exact hallowed.elim
  | spawn j => exact hallowed.elim
  | execute workerId taskId record => exact hallowed.elim

omit [DecidableEq ι] in
/-- Before the first operation only the calls that will be refused count as done. -/
theorem Serial.init [Fintype ι]
    (hfree : w.locked primary.address key = false) :
    Serial primary key calls (w.tasks primary key) (fun i => .init primary (calls i)) w := by
  refine ⟨fun i => rfl, by simp [hfree, Progress.init], fun i j hi => Bool.noConfusion hi,
    fun i t hi => Bool.noConfusion hi, ?_⟩
  refine ⟨(Finset.univ.filter fun i => (calls i).refused primary = true).toList,
    Finset.nodup_toList _, fun i => by simp [Progress.init], ?_⟩
  rw [ChangeCall.applyAll_of_refused]
  simp

/-- The calls keep what holds throughout a run. -/
theorem keeps (hdeliver : ∀ t a c, env.deliverCall t a c = .delivered) :
    Keeps (system env (ownerOf ring workerId)) (fun _ => False)
      (WritesBackFresh (ι := ι) (ownerOf ring workerId) (.worker (strip workerId))) (Granted ring)
      (Allowed (ownerOf ring workerId) (.worker (strip workerId))) (fun _ g => g.done = true)
      (fun γ w => ∃ f : ι → Progress, γ = (fun i => some (f i)) ∧
        Serial (ownerOf ring workerId) (.worker (strip workerId)) calls tasks₀ f w) where
  act := by
    rintro γ w i slot g o ⟨f, rfl, hserial⟩ hg hallowed henabled hcond -
    obtain rfl : f i = g := Option.some.inj hg
    obtain ⟨hgranted, hserial'⟩ := hserial.act hdeliver hallowed henabled hcond
    exact ⟨hgranted, _, (Function.comp_update some f i _).symm, hserial'⟩
  launched := fun o t ht => by cases ht
  enter := fun γ w i t _ _ ht => ht.elim
  entered := fun t ht => ht.elim

/-- **The calls are serialised.**  In a run whose unlocked write-backs are fresh, the
list is at the end what the calls make of it in some order: no appended and never
removed id is missing, no removed id that was not appended again is present, and
no id occurs twice.  The worker's id reaches the handlers as it is. -/
theorem serial [Fintype ι] (hdeliver : ∀ t a c, env.deliverCall t a c = .delivered)
    (hw : workerId ≠ "") (hmem : ∀ i, (calls i).service.node ∈ ring.members)
    (hfree : w.locked (ownerOf ring workerId).address (.worker (strip workerId)) = false)
    {c : Pool ι Op Op.Res Exc Assignment Progress World}
    (hrun : Steps (system env (ownerOf ring workerId)) (fun _ => False)
      (WritesBackFresh (ownerOf ring workerId) (.worker (strip workerId)))
      (pool (ownerOf ring workerId) workerId calls w) c) (hended : c.Ended) :
    ∃ order : List ι, order.Nodup ∧ (∀ i, i ∈ order) ∧
      c.world.tasks (ownerOf ring workerId) (.worker (strip workerId)) =
        ChangeCall.applyAll (ownerOf ring workerId) (order.map calls)
          (w.tasks (ownerOf ring workerId) (.worker (strip workerId))) ∧
      (∀ i s t, calls i = .append s t → (calls i).refused (ownerOf ring workerId) = false →
        (∀ j s', calls j ≠ .remove s' t) →
          t ∈ c.world.tasks (ownerOf ring workerId) (.worker (strip workerId))) ∧
      (∀ before i after s t, order = before ++ i :: after → calls i = .remove s t →
        (∀ j ∈ after, ∀ s', calls j ≠ .append s' t) →
          t ∉ c.world.tasks (ownerOf ring workerId) (.worker (strip workerId))) ∧
      ((w.tasks (ownerOf ring workerId) (.worker (strip workerId))).Nodup →
        (c.world.tasks (ownerOf ring workerId) (.worker (strip workerId))).Nodup) := by
  have hinit : Sound (system env (ownerOf ring workerId)) (Granted ring)
      (Allowed (ownerOf ring workerId) (.worker (strip workerId))) (fun _ g => g.done = true)
      (fun γ w' => ∃ f : ι → Progress, γ = (fun i => some (f i)) ∧
        Serial (ownerOf ring workerId) (.worker (strip workerId)) calls
          (w.tasks (ownerOf ring workerId) (.worker (strip workerId))) f w')
      (pool (ownerOf ring workerId) workerId calls w) := by
    refine ⟨fun i t ht => ?_, _, rfl, .init hfree⟩
    obtain rfl := Option.some.inj ht
    exact does_program hw (hmem i)
  obtain ⟨hthreads, f, hf, hserial⟩ := hrun.sound (keeps hdeliver) hinit
  have hdone : ∀ i, (f i).done = true := by
    intro i
    obtain ⟨t, ht, hghost⟩ : ∃ t, c.threads i = some t ∧ t.ghost = f i :=
      Option.map_eq_some_iff.1 (congrFun hf i)
    obtain ⟨-, hdone⟩ := wp_of_ended (hthreads i t ht) (hended i t ht)
    rw [← hghost]
    exact hdone
  obtain ⟨order, hnodup, horder, hlist⟩ := hserial.order
  have hall : ∀ i, i ∈ order := fun i => (horder i).2 (hdone i)
  refine ⟨order, hnodup, hall, hlist, fun i s t hi hok hnever => ?_, ?_, fun h => ?_⟩
  · rw [hlist]
    refine ChangeCall.mem_applyAll_of_append (hi ▸ List.mem_map_of_mem (hall i)) (hi ▸ hok) ?_
    rintro s' hs'
    obtain ⟨j, -, hj⟩ := List.mem_map.1 hs'
    exact hnever j s' hj
  · rintro before i after s t rfl hi hnever
    rw [hlist]
    refine ChangeCall.not_mem_applyAll_of_remove (s := s) (by rw [List.map_append, List.map_cons, hi])
      fun s' hs' => ?_
    obtain ⟨j, hj, hj'⟩ := List.mem_map.1 hs'
    exact hnever j hj s' hj'
  · rw [hlist]
    exact ChangeCall.nodup_applyAll h

end Runs

end Calls

namespace ThreeNodes

/-- `nodeA` owns every key. -/
def changeCalls : Fin 2 → ChangeCall
  | 0 => .append (services nodeA) "t2"
  | 1 => .remove (services nodeB) "t1"

/-- A world in which the worker `w` is assigned `t1`. -/
def assigned : World :=
  { World.empty with
    stores := Stores.put World.empty.stores "a" (.worker "w") (.worker ⟨"w", ["t1"], 0, 0, 1⟩) }

/-- The calls of `changeCalls` take their turns in this order. -/
def turns (order : List (Fin 2)) : List (Event (Fin 2) Op Op.Res Exc Assignment Progress) :=
  order.map fun i => .act i i

/-- The calls before their first operation. -/
abbrev pool : Pool (Fin 2) Op Op.Res Exc Assignment Progress World :=
  Calls.pool nodeA "w" changeCalls assigned

/-- The calls in the ring in which every request is delivered. -/
abbrev system : System Op Op.Res Exc Assignment Progress World :=
  Calls.system (env fun _ _ _ => .delivered) nodeA

/-- The list of the worker at the end, when both calls have ended. -/
def outcome (c : Pool (Fin 2) Op Op.Res Exc Assignment Progress World) : Option (List String) :=
  if (List.finRange 2).all fun i => ((c.threads i).map fun t => t.rest.ended).getD true then
    some (c.world.tasks nodeA (.worker "w"))
  else none

theorem ended_of_outcome {c : Pool (Fin 2) Op Op.Res Exc Assignment Progress World}
    {tasks : List String} (h : outcome c = some tasks) :
    c.Ended ∧ c.world.tasks nodeA (.worker "w") = tasks := by
  unfold outcome at h
  split_ifs at h with hall
  refine ⟨fun i t ht => ?_, Option.some.inj h⟩
  have hi := List.all_eq_true.1 hall i (List.mem_finRange i)
  simpa [Option.mem_def.1 ht] using hi

end ThreeNodes

open ThreeNodes in
/-- The hypotheses of `Calls.serial` are satisfiable: `nodeA` appends `t2`, and then
`nodeB` removes `t1`. -/
theorem serial_threeNodes :
    ∃ (c : Pool (Fin 2) Op Op.Res Exc Assignment Progress World) (order : List (Fin 2)),
      order.Nodup ∧ (∀ i, i ∈ order) ∧
      c.world.tasks nodeA (.worker "w") =
        ChangeCall.applyAll nodeA (order.map changeCalls) (assigned.tasks nodeA (.worker "w")) := by
  have hrun : (pool.steps system (Calls.WritesBackFresh nodeA (.worker "w"))
      (turns (List.replicate 11 0 ++ List.replicate 4 1))).bind outcome = some ["t2"] := by
    decide
  obtain ⟨c, hc, houtcome⟩ := Option.bind_eq_some_iff.1 hrun
  have howner : Calls.ownerOf ring "w" = nodeA := rfl
  have hstrip : strip "w" = "w" := by decide
  have hsteps : Steps (Calls.system (env fun _ _ _ => .delivered) (Calls.ownerOf ring "w"))
      (fun _ => False) (Calls.WritesBackFresh (Calls.ownerOf ring "w") (.worker (strip "w")))
      (Calls.pool (Calls.ownerOf ring "w") "w" changeCalls assigned) c := by
    rw [howner, hstrip]
    exact .of_steps (by simp [turns]) hc
  have hmem : ∀ i, (changeCalls i).service.node ∈ ring.members
    | 0 => .inl rfl
    | 1 => .inr (.inl rfl)
  obtain ⟨order, hnodup, hall, hlist, -⟩ := Calls.serial (fun _ _ _ => rfl) (by decide) hmem rfl
    hsteps (ended_of_outcome houtcome).1
  rw [howner, hstrip] at hlist
  exact ⟨c, order, hnodup, hall, hlist⟩

open ThreeNodes in
/-- **An unlocked write-back loses an append.**  `nodeB` reads `[t1]` to remove `t1`,
`nodeA` appends `t2` under the lock, and `nodeB` writes back the empty list: the
result of the two calls in no order. -/
theorem remove_loses_append :
    ∃ c, Steps system (fun _ => False) (fun _ _ _ _ => True) pool c ∧ c.Ended ∧
      c.world.tasks nodeA (.worker "w") = [] ∧
      ¬∃ order : List (Fin 2), order.Nodup ∧ (∀ i, i ∈ order) ∧
        c.world.tasks nodeA (.worker "w") =
          ChangeCall.applyAll nodeA (order.map changeCalls) (assigned.tasks nodeA (.worker "w")) := by
  have hrun : (pool.steps system (fun _ _ _ _ => True)
      (turns ([1, 1] ++ List.replicate 11 0 ++ [1, 1]))).bind outcome = some [] := by
    decide
  obtain ⟨c, hc, houtcome⟩ := Option.bind_eq_some_iff.1 hrun
  obtain ⟨hended, hlist⟩ := ended_of_outcome houtcome
  refine ⟨c, .of_steps (by simp [turns]) hc, hended, hlist, ?_⟩
  rintro ⟨order, -, hall, horder⟩
  have hmem : "t2" ∈ ChangeCall.applyAll nodeA (order.map changeCalls)
      (assigned.tasks nodeA (.worker "w")) := by
    refine ChangeCall.mem_applyAll_of_append (s := services nodeA)
      (List.mem_map.2 ⟨0, hall 0, rfl⟩) (by decide) fun s' hs' => ?_
    obtain ⟨j, -, hj⟩ := List.mem_map.1 hs'
    match j with
    | 0 => cases hj
    | 1 => simp [changeCalls] at hj
  rw [← horder, hlist] at hmem
  exact List.not_mem_nil hmem

end Storage
end ChordInfra
