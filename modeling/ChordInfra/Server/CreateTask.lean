/-
# The creation of a task is all or nothing, when

`/createTask` writes the HT1 record, then appends to the HT2 list of the worker,
and deletes the HT1 record when the append fails.  With the answer 201 both are
there.  With the answer 503 neither is, exactly when no append reached the
list's owner although none was acknowledged, and every copy of the record that
arrived somewhere was deleted there: nothing is rolled back when the HT1 write
itself fails, the append is never rolled back, and no failed deletion is
reported (`createTask_atomic_iff`).

Others may do anything between two operations but touch the task's record or
its place in the lists.
-/

import ChordInfra.Server.Handlers
import ChordInfra.Storage.Interference
import ChordInfra.Storage.FixedRing

namespace ChordInfra
namespace Server

open Interact Prog
open ChordInfra.Ring (NodeRef)
open Storage
open Replication

/-! ### Appends in a history -/

section Events

variable {env : Env} (ring : Owned env) (s : Service)

/-- An append was acknowledged: its request was answered, or the node made it in its
own list, under the lock. -/
def AppendAcked : Entry → Prop
  | (.deliver _ (.append ..), d) => d = .delivered
  | (.lock _ k, _) => (ring.owner k).id = s.node.id
  | _ => False

/-- An append reached the owner of the list. -/
def AppendReached : Entry → Prop
  | (.deliver _ (.append ..), d) => d ≠ .lost
  | (.lock _ k, _) => (ring.owner k).id = s.node.id
  | _ => False

variable {ring s}

theorem AppendAcked.reached {e : Entry} (h : AppendAcked ring s e) : AppendReached ring s e := by
  obtain ⟨o, d⟩ := e
  cases o with
  | deliver a c =>
    cases c with
    | append workerId taskId => exact fun hd => by cases h.symm.trans hd
    | _ => exact h.elim
  | lock a k => exact h
  | _ => exact h.elim

/-- An operation that is no append. -/
def NoAppend : Op → Prop
  | .deliver .. | .lock .. => False
  | _ => True

theorem NoAppend.not_reached {o : Op} (h : NoAppend o) (d : Delivery) :
    ¬AppendReached ring s (o, d) := by
  cases o with
  | deliver a c => exact h.elim
  | lock a k => exact h.elim
  | _ => exact fun h => h

end Events

/-! ### The append -/

section Append

variable {env : Env} {others : Others} {ring : Owned env} {s : Service} {id v : String}
  {w w₁ w' : World} {ok : Bool}

/-- What an append to the list of `v` leaves: it ended well exactly when it was
acknowledged, the id is in the owner's list when it reached the owner, and in no
other list than before when it did not. -/
structure Appends (ring : Owned env) (s : Service) (id v : String) (ok : Bool) (w w' : World) :
    Prop where
  suffix : w.trace <:+ w'.trace
  acked : ok = true ↔ ∃ e ∈ since w w', AppendAcked ring s e
  listed : (∃ e ∈ since w w', AppendReached ring s e) →
    w'.Lists id (ring.owner (.worker v)).address v
  unlisted : (¬∃ e ∈ since w w', AppendReached ring s e) →
    ∀ a u, w'.Lists id a u → w.Lists id a u

namespace Appends

/-- Nothing was appended. -/
theorem of_none (hsuffix : w.trace <:+ w'.trace)
    (hnone : ∀ e ∈ since w w', ¬AppendReached ring s e)
    (hlists : ∀ a u, w'.Lists id a u → w.Lists id a u) : Appends ring s id v false w w' := by
  refine ⟨hsuffix, ⟨fun h => absurd h Bool.false_ne_true, ?_⟩, ?_, fun _ => hlists⟩
  · rintro ⟨e, he, hacked⟩
    exact (hnone e he hacked.reached).elim
  · rintro ⟨e, he, hreached⟩
    exact (hnone e he hreached).elim

/-- A failed try and what comes after it. -/
theorem trans (h : Appends ring s id v false w w₁) (h' : Appends ring s id v ok w₁ w')
    (hlists : ∀ a u, w₁.Lists id a u → w'.Lists id a u) : Appends ring s id v ok w w' := by
  have hnot : ¬∃ e ∈ since w w₁, AppendAcked ring s e := fun hex => by cases h.acked.2 hex
  have hsince := since_trans h.suffix h'.suffix
  refine ⟨h.suffix.trans h'.suffix, ?_, fun hex => ?_, fun hno a u hu => ?_⟩
  · rw [h'.acked, hsince]
    simp only [List.mem_append, or_and_right, exists_or, hnot, or_false]
  · obtain ⟨e, he, hreached⟩ := hex
    rw [hsince] at he
    rcases List.mem_append.1 he with he | he
    · exact h'.listed ⟨e, he, hreached⟩
    · exact hlists _ _ (h.listed ⟨e, he, hreached⟩)
  · have hno' : ∀ l, l ⊆ since w w' → ¬∃ e ∈ l, AppendReached ring s e :=
      fun l hl ⟨e, he, hreached⟩ => hno ⟨e, hl he, hreached⟩
    rw [hsince] at hno'
    exact h.unlisted (hno' _ (List.subset_append_right _ _)) a u
      (h'.unlisted (hno' _ (List.subset_append_left _ _)) a u hu)

end Appends

/-- An operation of an append that is not its request: others than the request are
acknowledged by no one but the lock of the list. -/
def Inner (v : String) : Op → Prop
  | .deliver .. => False
  | .lock _ k => k = .worker v
  | _ => True

theorem Inner.not_reached (hown : (ring.owner (.worker v)).id ≠ s.node.id) {o : Op}
    (h : Inner v o) (d : Delivery) : ¬AppendReached ring s (o, d) := by
  cases o with
  | deliver a c => exact h.elim
  | lock a k =>
    obtain rfl : k = .worker v := h
    exact hown
  | _ => exact fun h => h

variable (hothers : others.KeepListing id)

/-- It writes only lists that have the id, and deletes nothing. -/
def OnList (id : String) (o : Op) : Prop :=
  (∀ a k x, o.writes = some (a, k, x) →
    ∃ v, k = .worker v ∧ id ∈ WorkerAssignment.tasksOf (some x)) ∧ o.deletes = none

namespace OnList

variable {o : Op}

theorem of_reads (h : o.Reads) : OnList id o := by
  refine ⟨fun a k x hx => ?_, h.deletes⟩
  rw [h.writes] at hx
  cases hx

theorem keepsListed (h : OnList id o) : o.KeepsListed id := by
  refine ⟨fun a v x hx => ?_, fun a v hd => ?_⟩
  · obtain ⟨_, -, hid⟩ := h.1 a _ x hx
    exact hid
  · rw [h.2] at hd
    cases hd

/-- It leaves the records of the tasks alone. -/
theorem no_result (h : OnList id o) (a : Address) (x : String) :
    (∀ y, o.writes ≠ some (a, .result x, y)) ∧ o.deletes ≠ some (a, .result x) := by
  refine ⟨fun y hy => ?_, fun hd => ?_⟩
  · obtain ⟨_, hv, -⟩ := h.1 a _ y hy
    cases hv
  · rw [h.2] at hd
    cases hd

end OnList

/-- What an append does once it has the lock. -/
def ListOp (id v : String) (o : Op) : Prop := OnList id o ∧ Inner v o

theorem ListOp.of_reads {o : Op} (h : o.Reads) (hinner : Inner v o) : ListOp id v o :=
  ⟨.of_reads h, hinner⟩

/-- A write of a list that has the id. -/
theorem ListOp.of_writes {o : Op} {a : Address} {u : String} {record : WorkerRecord}
    (h : o.writes = some (a, .worker u, .worker record)) (hid : id ∈ record.tasks) :
    ListOp id v o := by
  refine ⟨⟨fun b k x hx => ?_, Op.deletes_of_writes h⟩, ?_⟩
  · rw [h, Option.some.injEq, Prod.mk.injEq, Prod.mk.injEq] at hx
    obtain ⟨-, rfl, rfl⟩ := hx
    exact ⟨u, rfl, hid⟩
  · cases o with
    | put b k x => trivial
    | rpc b r => trivial
    | _ => cases h

theorem only_replicate (k : ℕ) {workerId : String} {record : WorkerRecord} (primary : NodeRef)
    (hid : id ∈ record.tasks) :
    Only (ListOp id v) (WorkerAssignment.replicate k workerId record primary) :=
  .replicateWith (fun a => .of_reads (o := .rpc a .getState) trivial trivial)
    (fun _ => .requestWithRetry (.of_writes rfl hid) _) k primary

include hothers in
/-- An id that is in a list stays there. -/
theorem lists_of_onList {α : Type} {p : M α} (hp : Only (OnList id) p) {a : Address} {u : String}
    (h : w.Lists id a u) : (runAmong env others p w).2.Lists id a u :=
  (hp.mono fun _ ho => ho.keepsListed).lists hothers h

include hothers in
/-- **Under the lock.**  After the append the id is in the owner's list. -/
theorem lists_appendLocked (a : Address) (k : ℕ) (workerId : String) (primary : NodeRef)
    (w : World) :
    (runAmong env others (WorkerAssignment.changeLocal a k (.worker v) workerId
      (WorkerAssignment.appended id) primary) w).2.Lists id a v := by
  unfold WorkerAssignment.changeLocal
  rw [runAmong_act_bind, runAmong_act_bind]
  generalize hw₂ : (among env others (.get a (.worker v))
    (among env others (.lock a (.worker v)) w).2) = x
  obtain ⟨current, w₂⟩ := x
  have hcurrent : current = (w₂.stores a).get (.worker v) := by
    obtain ⟨rfl, rfl⟩ := Prod.mk.inj hw₂.symm
    rfl
  have hunlock : Only (OnList id) (act (.unlock a (.worker v))) :=
    .act (.of_reads trivial)
  have hid : ∀ now, id ∈ WorkerAssignment.tasksOf (some (.worker (WorkerAssignment.renew workerId
      current (WorkerAssignment.appended id (WorkerAssignment.tasksOf current)) now))) := fun now => by
    rw [WorkerAssignment.tasksOf_renew]
    exact WorkerAssignment.mem_appended _ _
  change (runAmong env others (if _ then _ else _) w₂).2.Lists id a v
  split_ifs with hsame
  · have hlists : w₂.Lists id a v := by
      unfold World.Lists
      rw [← hcurrent, ← hsame]
      exact WorkerAssignment.mem_appended _ _
    exact lists_of_onList hothers (.bind hunlock fun _ => .pure _) hlists
  · rw [runAmong_act_bind, runAmong_act_bind]
    refine lists_of_onList hothers (.bind ?_ fun _ => .bind hunlock fun _ => .pure _) ?_
    · exact (only_replicate (v := v) k primary (hid _)).mono fun _ ho => ho.1
    · unfold World.Lists
      rw [show ∀ o w, (among env others (.put a (.worker v) o) w).2.stores =
        (others.act w.trace.length w).stores.put a (.worker v) o from fun _ _ => rfl,
        Stores.get_put_self]
      exact hid _

theorem only_changeLocal (a : Address) (k : ℕ) (workerId : String) (primary : NodeRef) :
    Only (ListOp id v) (WorkerAssignment.changeLocal a k (.worker v) workerId
      (WorkerAssignment.appended id) primary) := by
  have hunlock : Only (ListOp id v) (act (.unlock a (.worker v))) := .act (.of_reads trivial trivial)
  refine .bind (.act (.of_reads trivial rfl)) fun _ => ?_
  refine .bind (.act (.of_reads trivial trivial)) fun current => ?_
  refine .ite (.bind hunlock fun _ => .pure _) ?_
  refine .bind (.act (.of_reads trivial trivial)) fun now => ?_
  have hid : id ∈ (WorkerAssignment.renew workerId current (WorkerAssignment.appended id
      (WorkerAssignment.tasksOf current)) now).tasks := by
    rw [WorkerAssignment.renew_tasks]
    exact WorkerAssignment.mem_appended _ _
  exact .bind (.act (.of_writes rfl hid)) fun _ => .bind (only_replicate k primary hid) fun _ =>
    .bind hunlock fun _ => .pure _

section Worker

variable {workerId : String} (hw : workerId ≠ "")

include hw in
theorem appendLocal_eq (a : Address) (k : ℕ) (owner : Option NodeRef) :
    WorkerAssignment.appendLocal a k workerId id owner =
      WorkerAssignment.ownerOr a (.worker (strip workerId)) owner >>= fun primary =>
        WorkerAssignment.changeLocal a k (.worker (strip workerId)) workerId
          (WorkerAssignment.appended id) primary := by
  unfold WorkerAssignment.appendLocal
  rw [show buildWorkerKey workerId = .ok (.worker (strip workerId)) from if_neg hw]
  rfl

include hw in
theorem only_appendLocal (a : Address) (k : ℕ) (owner : Option NodeRef) :
    Only (ListOp id (strip workerId)) (WorkerAssignment.appendLocal a k workerId id owner) := by
  rw [appendLocal_eq hw]
  refine .bind ?_ fun primary => only_changeLocal a k workerId primary
  cases owner with
  | some primary => exact .pure _
  | none => exact .act (.of_reads trivial trivial)

variable (env) in
include hothers hw in
/-- An append in the process that keeps the list. -/
theorem run_appendLocal (a : Address) (k : ℕ) (owner : Option NodeRef) (w : World) :
    ∃ x w', runAmong env others (WorkerAssignment.appendLocal a k workerId id owner) w =
        (.ok x, w') ∧ w'.Lists id a (strip workerId) ∧
      ∃ d, (Op.lock a (.worker (strip workerId)), d) ∈ since w w' := by
  rw [appendLocal_eq hw]
  have hchange : ∀ primary w, ∃ x w', runAmong env others (WorkerAssignment.changeLocal a k
      (.worker (strip workerId)) workerId (WorkerAssignment.appended id) primary) w = (.ok x, w') ∧
      w'.Lists id a (strip workerId) ∧
      ∃ d, (Op.lock a (.worker (strip workerId)), d) ∈ since w w' := by
    intro primary w
    obtain ⟨x, hx, -⟩ := (Yields.changeLocal a k (.worker (strip workerId)) workerId
      (WorkerAssignment.appended id) primary).exec (among env others) w
    obtain ⟨d, -, hsince⟩ := since_act_bind env others (.lock a (.worker (strip workerId))) _ w
    refine ⟨x, _, Prod.ext hx rfl, lists_appendLocked hothers a k workerId primary w, d, ?_⟩
    unfold WorkerAssignment.changeLocal
    rw [hsince]
    exact List.mem_append_right _ (List.mem_singleton_self _)
  cases owner with
  | some primary => exact hchange primary w
  | none =>
    obtain ⟨x, w', hrun, hlists, d, hd⟩ := hchange
      (among env others (.findSuccessor a (.worker (strip workerId))) w).1
      (among env others (.findSuccessor a (.worker (strip workerId))) w).2
    obtain ⟨d', -, hsince⟩ := since_act_bind env others
      (.findSuccessor a (.worker (strip workerId))) (fun primary : NodeRef =>
        WorkerAssignment.changeLocal a k (.worker (strip workerId)) workerId
          (WorkerAssignment.appended id) primary) w
    have hw' : (runAmong env others (act (.findSuccessor a (.worker (strip workerId))) >>=
        fun primary : NodeRef => WorkerAssignment.changeLocal a k (.worker (strip workerId)) workerId
          (WorkerAssignment.appended id) primary) w).2 = w' := congrArg Prod.snd hrun
    rw [hw'] at hsince
    exact ⟨x, w', hrun, hlists, d, hsince ▸ List.mem_append_left _ hd⟩

/-- What a program of an append leaves. -/
abbrev AppendsBy (env : Env) (others : Others) (ring : Owned env) (s : Service) (id v : String)
    {α : Type} (p : M α) (w : World) : Prop :=
  Appends ring s id v (runAmong env others p w).1.toBool w (runAmong env others p w).2

include hothers in
/-- An operation that is no append, and what comes after it. -/
theorem AppendsBy.act {α : Type} {o : Op} {f : o.Res → M α} (ho : o.Reads) (hno : NoAppend o)
    (hf : Only (OnList id) (f (among env others o w).1))
    (h : AppendsBy env others ring s id v (f (among env others o w).1) (among env others o w).2) :
    AppendsBy env others ring s id v (act o >>= f) w := by
  obtain ⟨d, hd, -⟩ := since_act_bind env others o f w
  have hsince : since w (among env others o w).2 = [(o, d)] := since_eq hd
  refine Appends.trans (.of_none ?_ ?_ fun a u => ?_) h fun a u hu => lists_of_onList hothers hf hu
  · rw [hd]
    exact List.suffix_cons _ _
  · rw [hsince]
    intro e he
    rw [List.mem_singleton.1 he]
    exact hno.not_reached d
  · exact (among_lists_iff hothers ho.noList).1

theorem among_deliver (env : Env) (others : Others) (a : Address) (c : Call) (w : World) :
    (among env others (.deliver a c) w).2.trace =
      (.deliver a c, (among env others (.deliver a c) w).1) :: w.trace :=
  congrArg (List.cons _) (others.trace_act _ _)

include hw in
theorem only_handleAppend (a : Address) (k : ℕ) :
    Only (ListOp id (strip workerId)) (WorkerAssignment.handleAppend a k workerId id) :=
  .ite (.raise _) (only_appendLocal hw a k none)

include hw in
theorem only_call (a : Address) (k n : ℕ) :
    Only (OnList id) (Transport.callTries a (.append workerId id)
      (WorkerAssignment.handleAppend a k workerId id) n) :=
  .callTries (.of_reads trivial) ((only_handleAppend hw a k).mono fun _ ho => ho.1) n

include hothers hw in
/-- **The requests of an append to another node.**  Every one that arrives makes the
append, and the first that is answered ends them. -/
theorem appends_callTries (hid : id ≠ "") (hown : (ring.owner (.worker (strip workerId))).id ≠
      s.node.id) (k n : ℕ) (w : World) :
    AppendsBy env others ring s id (strip workerId)
      (Transport.callTries (ring.owner (.worker (strip workerId))).address (.append workerId id)
        (WorkerAssignment.handleAppend (ring.owner (.worker (strip workerId))).address k workerId id)
        n) w := by
  generalize ha : (ring.owner (.worker (strip workerId))).address = a
  have hhandle : ∀ w, ∃ x w', runAmong env others (WorkerAssignment.handleAppend a k workerId id) w =
      (.ok x, w') ∧ w'.Lists id a (strip workerId) ∧ ∀ e ∈ since w w', ¬AppendReached ring s e := by
    intro w
    obtain ⟨x, w', hrun, hlists, -⟩ := run_appendLocal env hothers hw a k none w
    have honly : ∀ e ∈ since w (runAmong env others (WorkerAssignment.appendLocal a k workerId id
        none) w).2, ListOp id (strip workerId) e.1 :=
      (only_appendLocal hw a k none).since_among env others w
    have heq : WorkerAssignment.handleAppend a k workerId id =
      WorkerAssignment.appendLocal a k workerId id none := if_neg hid
    rw [heq]
    rw [hrun] at honly
    exact ⟨x, w', hrun, hlists, fun e he => (honly e he).2.not_reached hown e.2⟩
  induction n generalizing w with
  | zero =>
    have hnone : ∀ e ∈ since w w, ¬AppendReached ring s e := by simp
    exact .of_none List.suffix_rfl hnone fun _ _ h => h
  | succ n ih =>
    have hd := among_deliver env others a (.append workerId id) w
    have hlists₁ : ∀ a' u, (among env others (.deliver a (.append workerId id)) w).2.Lists id a' u ↔
        w.Lists id a' u := fun a' u =>
      among_lists_iff hothers (Op.Reads.noList (o := .deliver a _) trivial)
    unfold AppendsBy Transport.callTries
    rw [runAmong_act_bind]
    generalize hw₁ : among env others (.deliver a (.append workerId id)) w = r at hd hlists₁
    obtain ⟨d, w₁⟩ := r
    have hsuffix : w.trace <:+ w₁.trace := hd ▸ List.suffix_cons _ _
    have hsince : since w w₁ = [(.deliver a (.append workerId id), d)] := since_eq hd
    obtain ⟨x, w', hrun, hlists, hno⟩ := hhandle w₁
    have hsuffix' : w₁.trace <:+ w'.trace := by
      have h := runAmong_suffix env others (WorkerAssignment.handleAppend a k workerId id) w₁
      rwa [hrun] at h
    have hsince' : since w w' = since w₁ w' ++ [(.deliver a (.append workerId id), d)] :=
      hsince ▸ since_trans hsuffix hsuffix'
    have hmem : (.deliver a (.append workerId id), d) ∈ since w w' := by simp [hsince']
    cases d with
    | delivered =>
      change (fun r : Except Exc Assignment × World => Appends ring s id (strip workerId)
        r.1.toBool w r.2) (runAmong env others (attempt _ >>= _) w₁)
      rw [runAmong_attempt_bind, hrun]
      refine ⟨hsuffix.trans hsuffix', ⟨fun _ => ⟨_, hmem, rfl⟩, fun _ => rfl⟩, fun _ => ha ▸ hlists,
        fun hnone => (hnone ⟨_, hmem, ?_⟩).elim⟩
      exact fun h => by cases h
    | lost =>
      refine Appends.trans (.of_none hsuffix ?_ fun a' u => (hlists₁ a' u).1) (ih w₁)
        fun a' u hu => lists_of_onList hothers (only_call hw a k n) hu
      rw [hsince]
      simp [AppendReached]
    | replyLost =>
      have hfalse : Appends ring s id (strip workerId) false w w' := by
        refine ⟨hsuffix.trans hsuffix', ⟨fun h => absurd h Bool.false_ne_true, ?_⟩,
          fun _ => ha ▸ hlists, fun hnone => (hnone ⟨_, hmem, fun h => by cases h⟩).elim⟩
        rintro ⟨e, he, hacked⟩
        rw [hsince'] at he
        rcases List.mem_append.1 he with he | he
        · exact (hno e he hacked.reached).elim
        · rw [List.mem_singleton.1 he] at hacked
          cases hacked
      change (fun r : Except Exc Assignment × World => Appends ring s id (strip workerId)
        r.1.toBool w r.2) (runAmong env others (attempt _ >>= _) w₁)
      rw [runAmong_attempt_bind, hrun]
      exact hfalse.trans (ih w') fun a' u hu => lists_of_onList hothers (only_call hw a k n) hu

include hothers in
/-- A try, and what is done when it fails. -/
theorem AppendsBy.orElse {α β : Type} {p : M α} {f : Except Exc α → M β} {q : M β} {w : World}
    (hok : ∀ a, ∃ b, f (.ok a) = pure b) (herror : ∀ e, f (.error e) = q)
    (hp : AppendsBy env others ring s id v p w) (honly : Only (OnList id) q)
    (hq : ∀ w, AppendsBy env others ring s id v q w) :
    AppendsBy env others ring s id v (attempt p >>= f) w := by
  unfold AppendsBy at hp ⊢
  rw [runAmong_attempt_bind]
  generalize runAmong env others p w = r at hp
  obtain ⟨x, w₁⟩ := r
  cases x with
  | ok a =>
    obtain ⟨b, hb⟩ := hok a
    rw [hb]
    exact hp
  | error e =>
    rw [herror]
    exact hp.trans (hq w₁) fun a u hu => lists_of_onList hothers honly hu

theorem only_owner (key : Key) : Only (OnList id) (s.owner key) :=
  .act (.of_reads trivial)

include hw in
theorem only_appendTries (n : ℕ) (primary : NodeRef) :
    Only (OnList id) (WorkerAssignment.appendTries s (.worker (strip workerId)) workerId id
      (WorkerAssignment.asked s workerId id) n primary) := by
  induction n generalizing primary with
  | zero => exact only_call hw _ _ _
  | succ n ih =>
    refine .bind (.attempt (only_call hw _ _ _)) fun x => ?_
    cases x with
    | ok x => exact .pure _
    | error e => exact .bind (only_owner _) fun primary => ih primary

include hothers hw in
/-- An append asked of the owner of the list, which is resolved again before each
request. -/
theorem appends_appendTries (hs : s.node ∈ ring.members) (hid : id ≠ "")
    (hown : (ring.owner (.worker (strip workerId))).id ≠ s.node.id) (n : ℕ) (w : World) :
    AppendsBy env others ring s id (strip workerId)
      (WorkerAssignment.appendTries s (.worker (strip workerId)) workerId id
        (WorkerAssignment.asked s workerId id) n (ring.owner (.worker (strip workerId)))) w := by
  induction n generalizing w with
  | zero => exact appends_callTries hothers hw hid hown _ _ w
  | succ n ih =>
    refine AppendsBy.orElse hothers (fun x => ⟨x, rfl⟩) (fun _ => rfl)
      (appends_callTries hothers hw hid hown _ _ w) ?_ fun w => ?_
    · exact .bind (only_owner _) fun primary => only_appendTries hw n primary
    · have howner : (among env others (.findSuccessor s.node.address (.worker (strip workerId)))
          w).1 = ring.owner (.worker (strip workerId)) := ring.findSuccessor_eq _ _ hs _
      refine AppendsBy.act hothers trivial trivial ?_ ?_
      · exact only_appendTries hw n _
      · rw [howner]
        exact ih _

include hw in
theorem append_eq : WorkerAssignment.append s workerId id =
    act (.findSuccessor s.node.address (.worker (strip workerId))) >>= fun primary : NodeRef =>
      if primary.id = s.node.id then
        WorkerAssignment.appendLocal s.node.address s.replicationK workerId id (some primary)
      else WorkerAssignment.appendTries s (.worker (strip workerId)) workerId id
        (WorkerAssignment.asked s workerId id) Service.primaryWriteRetries primary := by
  unfold WorkerAssignment.append WorkerAssignment.appendBy
  rw [show buildWorkerKey workerId = .ok (.worker (strip workerId)) from if_neg hw]
  rfl

include hw in
theorem only_append : Only (OnList id) (WorkerAssignment.append s workerId id) := by
  rw [append_eq hw]
  refine .bind (only_owner _) fun primary => .ite ?_ (only_appendTries hw _ _)
  exact (only_appendLocal hw _ _ _).mono fun _ ho => ho.1

include hothers hw in
/-- **An append, at any node.** -/
theorem appends_append (hs : s.node ∈ ring.members) (hid : id ≠ "") (w : World) :
    AppendsBy env others ring s id (strip workerId) (WorkerAssignment.append s workerId id) w := by
  rw [append_eq hw]
  have howner : (among env others (.findSuccessor s.node.address (.worker (strip workerId))) w).1 =
    ring.owner (.worker (strip workerId)) := ring.findSuccessor_eq _ _ hs _
  refine AppendsBy.act hothers trivial trivial ?_ ?_
  · refine .ite ?_ (only_appendTries hw _ _)
    exact (only_appendLocal hw _ _ _).mono fun _ ho => ho.1
  · rw [howner]
    by_cases hown : (ring.owner (.worker (strip workerId))).id = s.node.id
    · have hnode : s.node = ring.owner (.worker (strip workerId)) := ring.eq_owner hs hown
      rw [if_pos hown]
      unfold AppendsBy
      generalize (among env others (.findSuccessor s.node.address (.worker (strip workerId))) w).2 = w₁
      obtain ⟨x, w', hrun, hlists, d, hd⟩ := run_appendLocal env hothers hw s.node.address
        s.replicationK (some (ring.owner (.worker (strip workerId)))) w₁
      have hsuffix := runAmong_suffix env others (WorkerAssignment.appendLocal s.node.address
        s.replicationK workerId id (some (ring.owner (.worker (strip workerId))))) w₁
      rw [hrun] at hsuffix ⊢
      rw [hnode] at hlists
      exact ⟨hsuffix, ⟨fun _ => ⟨_, hd, hown⟩, fun _ => rfl⟩, fun _ => hlists,
        fun hnone => (hnone ⟨_, hd, hown⟩).elim⟩
    · rw [if_neg hown]
      exact appends_appendTries hothers hw hs hid hown _ _

end Worker

/-- The value that an append returns does not matter. -/
theorem AppendsBy.map {α β : Type} {p : M α} {w : World} (f : α → β)
    (h : AppendsBy env others ring s id v p w) :
    AppendsBy env others ring s id v (p >>= fun a => pure (f a)) w := by
  unfold AppendsBy at h ⊢
  generalize hr : runAmong env others p w = r at h
  obtain ⟨x, w₁⟩ := r
  cases x with
  | ok a =>
    rw [runAmong_bind_ok hr]
    exact h
  | error e =>
    rw [runAmong_bind_error hr]
    exact h

theorem only_retryLoop {S : Op → Prop} {α : Type} {opName : String} {op : M α} (h : Only S op)
    (n : ℕ) : Only S (retryLoop opName op n) := by
  induction n with
  | zero => exact .raise _
  | succ n ih =>
    refine .bind (.attempt h) fun x => ?_
    cases x with
    | ok x => exact .pure _
    | error e => exact ih

include hothers in
theorem appends_retryLoop {α : Type} {opName : String} {op : M α}
    (hop : ∀ w, AppendsBy env others ring s id v op w) (honly : Only (OnList id) op) (n : ℕ)
    (w : World) : AppendsBy env others ring s id v (retryLoop opName op n) w := by
  induction n generalizing w with
  | zero =>
    have hnone : ∀ e ∈ since w w, ¬AppendReached ring s e := by simp
    exact .of_none List.suffix_rfl hnone fun _ _ h => h
  | succ n ih =>
    exact AppendsBy.orElse hothers (fun x => ⟨x, rfl⟩) (fun _ => rfl) (hop w)
      (only_retryLoop honly n) ih

theorem only_ht2 {cfg : Config} {record : ResultRecord} (hid : record.taskId = id)
    (hw : record.workerId ≠ "") : Only (OnList id) (ht2Op cfg s record) := by
  subst hid
  exact .ite (.raise _) (.bind (only_append hw) fun _ => .pure _)

variable (ring) in
include hothers in
/-- Step 4. -/
theorem appends_ht2 (cfg : Config) (hs : s.node ∈ ring.members) {record : ResultRecord}
    (hid : record.taskId = id) (hne : id ≠ "") (hw : record.workerId ≠ "") (w : World) :
    AppendsBy env others ring s id (strip record.workerId)
      (withTimeoutAndRetry (ht2OpName record) (ht2Op cfg s record)) w := by
  refine appends_retryLoop hothers (fun w => ?_) (only_ht2 hid hw) _ w
  subst hid
  unfold ht2Op
  split_ifs
  · have hnone : ∀ e ∈ since w w, ¬AppendReached ring s e := by simp
    exact .of_none List.suffix_rfl hnone fun _ _ h => h
  · exact (appends_append hothers hw hs hne w).map fun _ => ()

end Append

/-! ### The write of the record -/

section Put

variable {env : Env} {others : Others} {ring : Owned env} {s : Service} {k : Key} {x : Value}
  {w w' : World}

/-- A request to write that is answered was served. -/
theorem stored_requestTries {a : Address} {n : ℕ} {reply : Unit}
    (h : runAmong env others (Transport.requestTries a (.put k x) n) w = (.ok reply, w')) :
    (w'.stores a).get k = some x := by
  induction n generalizing w with
  | zero => cases h
  | succ n ih =>
    unfold Transport.requestTries at h
    rw [runAmong_act_bind] at h
    by_cases hd : env.deliver (others.act w.trace.length w).trace.length a (.put k x) = .delivered
    · have hanswer : (among env others (.rpc a (.put k x)) w).1 = some () := if_pos hd
      have hstores : (among env others (.rpc a (.put k x)) w).2.stores =
          (others.act w.trace.length w).stores.put a k x := if_neg (by rw [hd]; decide)
      rw [hanswer] at h
      obtain rfl : (among env others (.rpc a (.put k x)) w).2 = w' := congrArg Prod.snd h
      rw [hstores, Stores.get_put_self]
    · have hanswer : (among env others (.rpc a (.put k x)) w).1 = none := if_neg hd
      rw [hanswer] at h
      exact ih h

/-- A write at the owner that succeeds leaves the value there. -/
theorem stored_putTries (hs : s.node ∈ ring.members) {n : ℕ} {u : Unit}
    (h : runAmong env others (s.putTries k x n (ring.owner k)) w = (.ok u, w')) :
    (w'.stores (ring.owner k).address).get k = some x := by
  induction n generalizing w with
  | zero => exact stored_requestTries h
  | succ n ih =>
    unfold Service.putTries at h
    rw [runAmong_attempt_bind] at h
    generalize hr : runAmong env others (Transport.request (ring.owner k).address (.put k x)) w = r at h
    obtain ⟨y, w₁⟩ := r
    cases y with
    | ok y =>
      obtain rfl : w₁ = w' := congrArg Prod.snd h
      exact stored_requestTries hr
    | error e =>
      have howner : (among env others (.findSuccessor s.node.address k) w₁).1 = ring.owner k :=
        ring.findSuccessor_eq _ _ hs _
      change runAmong env others (act (.findSuccessor s.node.address k) >>= _) w₁ = _ at h
      rw [runAmong_act_bind, howner] at h
      exact ih h

theorem stored_putOnNode (hs : s.node ∈ ring.members) {u : Unit}
    (h : runAmong env others (s.putOnNode (ring.owner k) k x) w = (.ok u, w')) :
    (w'.stores (ring.owner k).address).get k = some x := by
  unfold Service.putOnNode at h
  split_ifs at h with hown
  · have hnode : s.node = ring.owner k := ring.eq_owner hs hown
    obtain rfl : (among env others (.put s.node.address k x) w).2 = w' := congrArg Prod.snd h
    rw [← hnode]
    exact Stores.get_put_self _ _ _ _
  · exact stored_putTries hs h

/-- The copies are put on other nodes than the owner. -/
theorem only_replicas (taskId : String) (record : ResultRecord) (primary : NodeRef) :
    Only (fun o => (∀ y, o.writes ≠ some (primary.address, k, y)) ∧
        o.deletes ≠ some (primary.address, k))
      (ResultService.replicate s taskId record primary) := by
  refine .replicas (fun a => ?_) (fun n hn => .requestWithRetry ?_ _) _
  · exact ⟨fun y h => (by cases h), fun h => (by cases h)⟩
  · exact ⟨fun y h => hn (congrArg Prod.fst (Option.some.inj h)), fun h => (by cases h)⟩

/-- **A record that is put is at its owner.** -/
theorem stored_put {id : String} {record : ResultRecord} {report : WriteReport}
    (hothers : others.Keep (.result (strip id))) (hs : s.node ∈ ring.members)
    (h : runAmong env others (ResultService.put s id record) w = (.ok report, w')) :
    strip id ≠ "" ∧ (w'.stores (ring.owner (.result (strip id))).address).get (.result (strip id)) =
      some (.result record) := by
  unfold ResultService.put at h
  obtain ⟨-, w₁, -, h₁⟩ := ok_of_runAmong_bind h
  obtain ⟨key, w₂, hkey, h₂⟩ := ok_of_runAmong_bind h₁
  obtain ⟨primary, w₃, howner, h₃⟩ := ok_of_runAmong_bind h₂
  obtain ⟨u, w₄, hput, h₄⟩ := ok_of_runAmong_bind h₃
  obtain ⟨hstrip, rfl⟩ : strip id ≠ "" ∧ key = .result (strip id) := by
    unfold buildResultKey at hkey
    split_ifs at hkey with hstrip
    · cases hkey
    · exact ⟨hstrip, (Except.ok.inj (congrArg Prod.fst hkey)).symm⟩
  obtain rfl : primary = ring.owner (.result (strip id)) :=
    (Except.ok.inj (congrArg Prod.fst howner)).symm.trans (ring.findSuccessor_eq _ _ hs _)
  have hkeep := (only_replicas (k := .result (strip id)) (s := s) id record
    (ring.owner (.result (strip id)))).get_eq env hothers w₄
  rw [h₄] at hkeep
  exact ⟨hstrip, hkeep.trans (stored_putOnNode hs hput)⟩

/-- **A deletion never raises**: no rollback is ever reported as failed. -/
theorem yields_delete {x : String} (hx : strip x ≠ "") :
    Yields (fun _ => True) (ResultService.delete s x) := by
  unfold ResultService.delete buildResultKey
  rw [if_neg hx, lift_ok_bind]
  refine .bind (.act (.findSuccessor ..)) fun primary _ => .bind (.attempt _) fun ok _ => ?_
  refine (Yields.getReplicas _ _).bind fun replicas _ => ?_
  refine (Yields.visitAll (fun n => .requestWithRetry _ _ _) replicas).bind fun _ _ => ?_
  cases ok with
  | ok removed => exact .pure True.intro
  | error e => exact .pure True.intro

/-- **A record whose write succeeds is at its owner.**  Step 3. -/
theorem stored_ht1 {cfg : Config} {record : ResultRecord} {opName : String} {n : ℕ} {u : Unit}
    (hothers : others.Keep (.result (strip record.taskId))) (hs : s.node ∈ ring.members)
    (h : runAmong env others (retryLoop opName (ht1Op cfg s record) n) w = (.ok u, w')) :
    strip record.taskId ≠ "" ∧
      (w'.stores (ring.owner (.result (strip record.taskId))).address).get
        (.result (strip record.taskId)) = some (.result record) := by
  induction n generalizing w with
  | zero => cases h
  | succ n ih =>
    unfold retryLoop at h
    rw [runAmong_attempt_bind] at h
    generalize hr : runAmong env others (ht1Op cfg s record) w = r at h
    obtain ⟨y, w₁⟩ := r
    cases y with
    | ok y =>
      obtain rfl : w₁ = w' := congrArg Prod.snd h
      unfold ht1Op at hr
      split_ifs at hr with hinject
      · cases hr
      · obtain ⟨report, w₂, hput, hpure⟩ := ok_of_runAmong_bind hr
        obtain rfl : w₂ = w₁ := congrArg Prod.snd hpure
        exact stored_put hothers hs hput
    | error e => exact ih h

end Put

/-! ### The phases of a creation -/

section Phases

variable {id : String} {s : Service} {cfg : Config}

/-- It changes nothing. -/
def Plain (o : Op) : Prop := o.Reads ∧ NoAppend o

/-- An operation of the write of the record. -/
def RecordWrite (o : Op) : Prop := o.NoList ∧ o.deletes = none ∧ NoAppend o

/-- An operation of the deletion of the record. -/
def RecordDelete (o : Op) : Prop := o.NoList ∧ o.writes = none ∧ NoAppend o

theorem Plain.recordWrite {o : Op} (h : Plain o) : RecordWrite o := ⟨h.1.noList, h.1.deletes, h.2⟩

theorem Plain.recordDelete {o : Op} (h : Plain o) : RecordDelete o := ⟨h.1.noList, h.1.writes, h.2⟩

theorem RecordWrite.of_writes {o : Op} {a : Address} {x : String} {v : Value}
    (h : o.writes = some (a, .result x, v)) (hno : NoAppend o) : RecordWrite o := by
  refine ⟨⟨fun b u y hy => ?_, fun b u hd => ?_⟩, Op.deletes_of_writes h, hno⟩
  · rw [h] at hy
    cases hy
  · rw [Op.deletes_of_writes h] at hd
    cases hd

theorem RecordDelete.of_deletes {o : Op} {a : Address} {x : String}
    (h : o.deletes = some (a, .result x)) (hw : o.writes = none) (hno : NoAppend o) :
    RecordDelete o := by
  refine ⟨⟨fun b u y hy => ?_, fun b u hd => ?_⟩, hw, hno⟩
  · rw [hw] at hy
    cases hy
  · rw [h] at hd
    cases hd

/-- The key of a record is one. -/
theorem only_resultKey {α : Type} {P : Op → Prop} {x : String} {f : Key → M α}
    (hf : ∀ y, Only P (f (.result y))) : Only P (lift (buildResultKey x) >>= f) := by
  unfold buildResultKey
  split_ifs
  · exact .raise _
  · exact hf _

theorem only_put (x : String) (record : ResultRecord) :
    Only RecordWrite (ResultService.put s x record) := by
  refine .bind (.lift _) fun _ => only_resultKey fun y => ?_
  have howner : RecordWrite (.findSuccessor s.node.address (.result y)) :=
    Plain.recordWrite ⟨trivial, trivial⟩
  refine .bind (.act howner) fun primary => .bind ?_ fun _ => ?_
  · exact .putOnNode howner (.of_writes rfl trivial) (fun a => .of_writes rfl trivial) _
  · exact .replicateWith (fun a => Plain.recordWrite ⟨trivial, trivial⟩)
      (fun n => .requestWithRetry (.of_writes rfl trivial) _) _ _

theorem only_ht1 (record : ResultRecord) : Only RecordWrite (ht1Op cfg s record) :=
  .ite (.raise _) (.bind (only_put _ _) fun _ => .pure _)

theorem only_delete (x : String) : Only RecordDelete (ResultService.delete s x) := by
  refine only_resultKey fun y => ?_
  have hplain : ∀ o : Op, o.Reads → NoAppend o → RecordDelete o := fun o h h' =>
    Plain.recordDelete ⟨h, h'⟩
  refine .bind (.act (hplain _ trivial trivial)) fun primary => .bind (.attempt ?_) fun ok => ?_
  · exact .ite (.act (.of_deletes rfl rfl trivial)) (.request (.of_deletes rfl rfl trivial))
  · refine .bind (.getReplicas (fun _ => hplain _ trivial trivial) _ _) fun replicas => ?_
    refine .bind (.visitAll (fun n => .requestWithRetry (.of_deletes rfl rfl trivial) _) _) fun _ => ?_
    cases ok with
    | ok removed => exact .pure _
    | error e => exact .pure _

theorem only_existingRecord (taskId : Json) : Only Plain (existingRecord s taskId) := by
  cases taskId with
  | str x =>
    refine .bind (.attempt ?_) fun r => ?_
    · refine only_resultKey fun y => ?_
      refine .bind (.act ⟨trivial, trivial⟩) fun primary => .bind ?_ fun value => ?_
      · refine .bind (.attempt (.ite (.act ⟨trivial, trivial⟩) (.request ⟨trivial, trivial⟩))) fun r => ?_
        cases r with
        | ok value => exact .pure _
        | error e => exact .pure _
      · refine .bind (.orReplicas ?_ _ _) fun _ => .pure _
        refine .bind (.getReplicas (fun _ => ⟨trivial, trivial⟩) _ _) fun replicas => ?_
        induction replicas with
        | nil => exact .pure _
        | cons n replicas ih =>
          refine .bind (.attempt (.request ⟨trivial, trivial⟩)) fun reply => ?_
          split
          · exact .pure _
          · exact ih
    · cases r with
      | ok existing => exact .pure _
      | error e => exact .pure _
  | _ => exact .pure _

theorem only_placed : Only Plain (placed s) := by
  refine .bind (.act ⟨trivial, trivial⟩) fun scored => ?_
  cases scored with
  | nil => exact .bind (.act ⟨trivial, trivial⟩) fun _ => .pure _
  | cons e scored => exact .pure _

theorem only_waitLive (workerId : String) (n : ℕ) : Only Plain (waitLive s workerId n) := by
  induction n with
  | zero => exact .pure _
  | succ n ih => exact .bind (.act ⟨trivial, trivial⟩) fun live => .ite (.pure _) ih

theorem only_spawnAndPlace : Only Plain (spawnAndPlace cfg s) := by
  unfold spawnAndPlace
  split
  · exact .pure _
  · exact .bind (.act ⟨trivial, trivial⟩) fun _ => .bind (only_waitLive _ _) fun _ => only_placed

theorem only_noteAssignment (workerId : Option String) : Only Plain (noteAssignment s workerId) := by
  cases workerId with
  | none => exact .pure _
  | some workerId => exact .ite (.pure _) (.act ⟨trivial, trivial⟩)

theorem only_determineWorker (provided : Json) : Only Plain (determineWorker cfg s provided) := by
  refine .ite (.pure _) (.bind only_placed fun first => ?_)
  have hrest : ∀ workerId : Option String, Only Plain (if workerId.isNone && cfg.autospawn then
      pure none else do
        noteAssignment s workerId
        pure (some ((workerId.map Json.str).getD .null, AssignedBy.frontend))) :=
    fun workerId => .ite (.pure _) (.bind (only_noteAssignment _) fun _ => .pure _)
  exact .ite (.bind only_spawnAndPlace hrest) (.bind (.pure _) hrest)

end Phases

/-! ### What is left -/

section Outcome

variable {env : Env} {others : Others} {ring : Owned env} {s : Service} {id : String} {cfg : Config}
  {w w' : World}

/-- Nothing of the task is anywhere. -/
structure Fresh (id : String) (w : World) : Prop where
  record : ∀ a x, x = id ∨ x = strip id → (w.stores a).get (.result x) = none
  listed : ∀ a v, ¬w.Lists id a v

/-- The others leave the task alone: its record, and its place in the lists. -/
structure KeepTask (others : Others) (id : String) : Prop where
  record : ∀ x, x = id ∨ x = strip id → others.Keep (.result x)
  listed : others.KeepListing id

/-- **All or nothing.**  With the answer 201 the record is at its owner and the id in
the list of the worker.  With the answer 503 the id is in no list, and the record
is nowhere unless the rollback was reported as failed. -/
def Atomic (ring : Owned env) (id : String) (w' : World) : CreateReply → Prop
  | .accepted _ workerId _ =>
    (∃ record, (w'.stores (ring.owner (.result (strip id))).address).get (.result (strip id)) =
        some (.result record) ∧ record.taskId = id ∧ record.workerId = workerId) ∧
      w'.Lists id (ring.owner (.worker (strip workerId))).address (strip workerId)
  | .exists .. => True
  | .rejected code _ rollbackFailed => code = 503 →
    (rollbackFailed = false → ∀ a x, x = id ∨ x = strip id →
      (w'.stores a).get (.result x) = none) ∧ ∀ a v, ¬w'.Lists id a v

theorem atomic_rejected {reason : String} :
    Atomic ring id w' (.rejected 503 reason) ↔ Fresh id w' :=
  ⟨fun h => ⟨(h rfl).1 rfl, (h rfl).2⟩, fun h _ => ⟨fun _ => h.record, h.listed⟩⟩

/-- No append reached the list's owner, and every node where a copy of the record
arrived was reached by a deletion. -/
structure RolledBack (ring : Owned env) (s : Service) (id : String) (history : List Entry) : Prop where
  append : ∀ e ∈ history, ¬AppendReached ring s e
  record : ∀ a x, x = id ∨ x = strip id → (∃ e ∈ history, Entry.Wrote a (.result x) e) →
    ∃ e ∈ history, Entry.Erased a (.result x) e

/-- The condition under which a creation is all or nothing: an append was
acknowledged, or everything that arrived was rolled back. -/
def Settled (ring : Owned env) (s : Service) (id : String) (history : List Entry) : Prop :=
  (∃ e ∈ history, AppendAcked ring s e) ∨ RolledBack ring s id history

/-- Started where nothing of the task is, the program answers all or nothing exactly
when its history is settled. -/
def Creates (env : Env) (others : Others) (ring : Owned env) (s : Service) (id : String)
    (p : M CreateReply) : Prop :=
  ∀ w, Fresh id w → ∀ reply w', runAmong env others p w = (.ok reply, w') →
    (Atomic ring id w' reply ↔ Settled ring s id (since w w'))

theorem Plain.not_wrote {e : Entry} (h : Plain e.1) (a : Address) (k : Key) :
    ¬Entry.Wrote a k e := by
  rintro ⟨⟨v, hv⟩, -⟩
  rw [h.1.writes] at hv
  cases hv

theorem Plain.not_erased {e : Entry} (h : Plain e.1) (a : Address) (k : Key) :
    ¬Entry.Erased a k e := by
  rintro ⟨hd, -⟩
  rw [h.1.deletes] at hd
  cases hd

/-- Entries of which none is in `q` do not matter to it. -/
theorem exists_append_of_not {q : Entry → Prop} {l l' : List Entry} (h : ∀ e ∈ l', ¬q e) :
    (∃ e ∈ l ++ l', q e) ↔ ∃ e ∈ l, q e := by
  refine ⟨?_, fun ⟨e, he, hqe⟩ => ⟨e, List.mem_append_left _ he, hqe⟩⟩
  rintro ⟨e, he, hqe⟩
  rcases List.mem_append.1 he with he | he
  · exact ⟨e, he, hqe⟩
  · exact (h e he hqe).elim

theorem exists_append_of_not_left {q : Entry → Prop} {l l' : List Entry} (h : ∀ e ∈ l, ¬q e) :
    (∃ e ∈ l ++ l', q e) ↔ ∃ e ∈ l', q e := by
  refine ⟨?_, fun ⟨e, he, hqe⟩ => ⟨e, List.mem_append_right _ he, hqe⟩⟩
  rintro ⟨e, he, hqe⟩
  rcases List.mem_append.1 he with he | he
  · exact (h e he hqe).elim
  · exact ⟨e, he, hqe⟩

theorem rolledBack_iff {l : List Entry} :
    RolledBack ring s id l ↔ (¬∃ e ∈ l, AppendReached ring s e) ∧
      ∀ a x, x = id ∨ x = strip id → (∃ e ∈ l, Entry.Wrote a (.result x) e) →
        ∃ e ∈ l, Entry.Erased a (.result x) e :=
  ⟨fun h => ⟨fun ⟨e, he, hre⟩ => h.append e he hre, h.record⟩,
    fun h => ⟨fun e he hre => h.1 ⟨e, he, hre⟩, h.2⟩⟩

/-- What comes before and changes nothing does not matter. -/
theorem settled_append_plain {l l' : List Entry} (h : ∀ e ∈ l', Plain e.1) :
    Settled ring s id (l ++ l') ↔ Settled ring s id l := by
  have hreached : ∀ e ∈ l', ¬AppendReached ring s e := fun e he => (h e he).2.not_reached e.2
  have hwrote : ∀ a k, (∃ e ∈ l ++ l', Entry.Wrote a k e) ↔ ∃ e ∈ l, Entry.Wrote a k e :=
    fun a k => exists_append_of_not fun e he => (h e he).not_wrote a k
  have herased : ∀ a k, (∃ e ∈ l ++ l', Entry.Erased a k e) ↔ ∃ e ∈ l, Entry.Erased a k e :=
    fun a k => exists_append_of_not fun e he => (h e he).not_erased a k
  unfold Settled
  rw [rolledBack_iff, rolledBack_iff, exists_append_of_not hreached,
    exists_append_of_not fun e he hacked => hreached e he hacked.reached]
  simp only [hwrote, herased]

variable (hothers : KeepTask others id)

include hothers in
/-- What changes nothing leaves nothing of the task anywhere. -/
theorem Fresh.plain {α : Type} {p : M α} (hp : Only Plain p) (h : Fresh id w) :
    Fresh id (runAmong env others p w).2 := by
  refine ⟨fun a x hx => ?_, fun a v => ?_⟩
  · rw [(hp.mono fun o ho => ⟨fun v hv => (by rw [ho.1.writes] at hv; cases hv), fun hd =>
      (by rw [ho.1.deletes] at hd; cases hd)⟩).get_eq env (hothers.record x hx) w]
    exact h.record a x hx
  · rw [(hp.mono fun o ho => ho.1.noList).lists_iff hothers.listed]
    exact h.listed a v

section Persist

variable {record : ResultRecord}

theorem RecordWrite.not_erased {e : Entry} (h : RecordWrite e.1) (a : Address) (k : Key) :
    ¬Entry.Erased a k e := by
  rintro ⟨hd, -⟩
  rw [h.2.1] at hd
  cases hd

theorem RecordDelete.not_wrote {e : Entry} (h : RecordDelete e.1) (a : Address) (k : Key) :
    ¬Entry.Wrote a k e := by
  rintro ⟨⟨v, hv⟩, -⟩
  rw [h.2.1] at hv
  cases hv

variable (env) in
include hothers in
/-- What the writes of the record leave, of a task that was nowhere. -/
theorem Fresh.recordWrite {α : Type} {p : M α} (hp : Only RecordWrite p) (h : Fresh id w) :
    (∀ a x, x = id ∨ x = strip id →
      (((runAmong env others p w).2.stores a).get (.result x) ≠ none ↔
        ∃ e ∈ since w (runAmong env others p w).2, Entry.Wrote a (.result x) e)) ∧
      ∀ a v, ¬(runAmong env others p w).2.Lists id a v := by
  refine ⟨fun a x hx => ?_, fun a v => ?_⟩
  · have honly : Only (fun o => o.deletes ≠ some (a, .result x)) p := hp.mono fun o ho hd => by
      rw [ho.2.1] at hd
      cases hd
    rw [honly.present_iff (hothers.record x hx) w]
    exact or_iff_right fun hne => hne (h.record a x hx)
  · rw [(hp.mono fun o ho => ho.1).lists_iff hothers.listed]
    exact h.listed a v

variable (env) (ring) (s) in
include hothers in
/-- The write of the record fails. -/
theorem settled_ht1_failed {α : Type} {p : M α} (hp : Only RecordWrite p) (h : Fresh id w) :
    Fresh id (runAmong env others p w).2 ↔
      Settled ring s id (since w (runAmong env others p w).2) := by
  obtain ⟨hrecord, hlisted⟩ := h.recordWrite env hothers hp
  have honly := hp.since_among env others w
  have hreached : ∀ e ∈ since w (runAmong env others p w).2, ¬AppendReached ring s e :=
    fun e he => (honly e he).2.2.not_reached e.2
  have herased : ∀ a x, ¬∃ e ∈ since w (runAmong env others p w).2, Entry.Erased a (.result x) e :=
    fun a x ⟨e, he, h'⟩ => (honly e he).not_erased a _ h'
  refine ⟨fun hfresh => .inr ⟨hreached, fun a x hx hw => ?_⟩, fun hsettled => ⟨fun a x hx => ?_, hlisted⟩⟩
  · exact ((hrecord a x hx).2 hw (hfresh.record a x hx)).elim
  · rcases hsettled with ⟨e, he, hacked⟩ | hback
    · exact (hreached e he hacked.reached).elim
    · by_contra hne
      exact herased a x (hback.record a x hx ((hrecord a x hx).1 hne))

variable (ring) in
include hothers in
/-- The append fails, and the record is deleted. -/
theorem settled_rollback {α β γ : Type} {p : M α} {q : M β} {r : M γ} {v : String} {w₁ w₂ w₃ : World}
    (hp : Only RecordWrite p) (hq : Only (OnList id) q) (hr : Only RecordDelete r)
    (hw₁ : (runAmong env others p w).2 = w₁) (hw₂ : (runAmong env others q w₁).2 = w₂)
    (hw₃ : (runAmong env others r w₂).2 = w₃) (h : Fresh id w)
    (happend : Appends ring s id v false w₁ w₂) :
    Fresh id w₃ ↔ Settled ring s id (since w w₃) := by
  obtain ⟨hrecord₁, hlisted₁⟩ := h.recordWrite env hothers hp
  have hwrites := hp.since_among env others w
  have hlists := hq.since_among env others w₁
  have hdeletes := hr.since_among env others w₂
  have hsuffix₁ := runAmong_suffix env others p w
  have hsuffix₃ := runAmong_suffix env others r w₂
  have hlisted₃ : ∀ a u, w₃.Lists id a u ↔ w₂.Lists id a u := fun a u => by
    rw [← hw₃, (hr.mono fun o ho => ho.1).lists_iff hothers.listed]
  have hrecord₂ : ∀ a x, x = id ∨ x = strip id →
      (w₂.stores a).get (.result x) = (w₁.stores a).get (.result x) := fun a x hx => by
    rw [← hw₂, (hq.mono fun o ho => ho.no_result a x).get_eq env (hothers.record x hx) w₁]
  have hrecord₃ : ∀ a x, x = id ∨ x = strip id → ((w₃.stores a).get (.result x) ≠ none ↔
      (w₂.stores a).get (.result x) ≠ none ∧ ¬∃ e ∈ since w₂ w₃, Entry.Erased a (.result x) e) := by
    intro a x hx
    have honly : Only (fun o => ∀ y, o.writes ≠ some (a, .result x, y)) r := hr.mono fun o ho y hy =>
      (by rw [ho.2.1] at hy; cases hy)
    rw [← hw₃, honly.kept_iff (hothers.record x hx) w₂]
  rw [hw₁] at hrecord₁ hlisted₁ hwrites hsuffix₁
  rw [hw₂] at hlists
  rw [hw₃] at hdeletes hsuffix₃
  have hsince : since w w₃ = since w₂ w₃ ++ (since w₁ w₂ ++ since w w₁) := by
    rw [since_trans (hsuffix₁.trans happend.suffix) hsuffix₃, since_trans hsuffix₁ happend.suffix]
  -- each kind of entry is from one phase only
  have hreached : (∃ e ∈ since w w₃, AppendReached ring s e) ↔
      ∃ e ∈ since w₁ w₂, AppendReached ring s e := by
    rw [hsince, exists_append_of_not_left fun e he => (hdeletes e he).2.2.not_reached e.2,
      exists_append_of_not fun e he => (hwrites e he).2.2.not_reached e.2]
  have hacked : ¬∃ e ∈ since w w₃, AppendAcked ring s e := by
    rw [hsince, exists_append_of_not_left fun e he h' =>
        (hdeletes e he).2.2.not_reached e.2 h'.reached,
      exists_append_of_not fun e he h' => (hwrites e he).2.2.not_reached e.2 h'.reached,
      ← happend.acked]
    exact Bool.false_ne_true
  have hwrote : ∀ a x, (∃ e ∈ since w w₃, Entry.Wrote a (.result x) e) ↔
      ∃ e ∈ since w w₁, Entry.Wrote a (.result x) e := by
    intro a x
    rw [hsince, exists_append_of_not_left fun e he => (hdeletes e he).not_wrote a _,
      exists_append_of_not_left]
    rintro e he ⟨⟨y, hy⟩, -⟩
    exact ((hlists e he).no_result a x).1 y hy
  have herased : ∀ a x, (∃ e ∈ since w w₃, Entry.Erased a (.result x) e) ↔
      ∃ e ∈ since w₂ w₃, Entry.Erased a (.result x) e := by
    intro a x
    rw [hsince, ← List.append_assoc, exists_append_of_not fun e he => (hwrites e he).not_erased a _,
      exists_append_of_not fun e he h' => ((hlists e he).no_result a x).2 h'.1]
  unfold Settled
  rw [or_iff_right hacked, rolledBack_iff, hreached]
  constructor
  · intro hfresh
    refine ⟨fun hex => ?_, fun a x hx hw => (herased a x).2 ?_⟩
    · exact hfresh.listed _ _ ((hlisted₃ _ _).2 (happend.listed hex))
    · by_contra hno
      refine (hrecord₃ a x hx).2 ⟨?_, hno⟩ (hfresh.record a x hx)
      rw [hrecord₂ a x hx]
      exact (hrecord₁ a x hx).2 ((hwrote a x).1 hw)
  · rintro ⟨hnone, hback⟩
    refine ⟨fun a x hx => ?_, fun a u hu => ?_⟩
    · by_contra hne
      obtain ⟨hpresent, hno⟩ := (hrecord₃ a x hx).1 hne
      rw [hrecord₂ a x hx] at hpresent
      exact hno ((herased a x).1 (hback a x hx ((hwrote a x).2 ((hrecord₁ a x hx).1 hpresent))))
    · exact hlisted₁ a u (happend.unlisted hnone a u ((hlisted₃ a u).1 hu))

end Persist

namespace Creates

include hothers in
/-- What changes nothing, before the rest. -/
theorem bind {α : Type} {p : M α} {f : α → M CreateReply} (hp : Only Plain p)
    (hf : ∀ x, Creates env others ring s id (f x)) : Creates env others ring s id (p >>= f) := by
  intro w hw reply w' hrun
  obtain ⟨x, w₁, hp₁, hf₁⟩ := ok_of_runAmong_bind hrun
  have hfresh : Fresh id (runAmong env others p w).2 := hw.plain hothers hp
  have hplain := hp.since_among env others w
  have hsuffix := runAmong_suffix env others p w
  have hsuffix' := runAmong_suffix env others (f x) w₁
  rw [hp₁] at hfresh hplain hsuffix
  rw [hf₁] at hsuffix'
  rw [hf x w₁ hfresh reply w' hf₁, since_trans hsuffix hsuffix', settled_append_plain hplain]

theorem eq_of_pure {reply reply' : CreateReply}
    (h : runAmong env others (Pure.pure reply) w = (.ok reply', w')) : reply = reply' ∧ w = w' :=
  ⟨Except.ok.inj (congrArg Prod.fst h), congrArg Prod.snd h⟩

/-- An answer without a step. -/
theorem pure {reply : CreateReply} (h : reply.code ≠ 201) :
    Creates env others ring s id (pure reply) := by
  intro w hw reply' w' hrun
  obtain ⟨rfl, rfl⟩ := eq_of_pure hrun
  have hatomic : Atomic ring id w reply := by
    cases reply with
    | accepted taskId workerId assignedBy => exact (h rfl).elim
    | «exists» taskId status workerId assignedBy => trivial
    | rejected code reason rollbackFailed => exact fun _ => ⟨fun _ => hw.record, hw.listed⟩
  refine iff_of_true hatomic (.inr ⟨by simp, by simp⟩)

theorem raise (e : Exc) : Creates env others ring s id (Prog.raise e) := by
  intro w _ reply w' hrun
  cases hrun

include hothers in
/-- **Steps 3 to 5.** -/
theorem persist {record : ResultRecord} (hs : s.node ∈ ring.members) (hid : record.taskId = id)
    (hne : id ≠ "") (hw : record.workerId ≠ "") :
    Creates env others ring s id (persist cfg s record) := by
  intro w hfresh reply w' hrun
  unfold Server.persist at hrun
  rw [runAmong_attempt_bind] at hrun
  have honly₁ : Only RecordWrite (withTimeoutAndRetry (ht1OpName record) (ht1Op cfg s record)) :=
    only_retryLoop (only_ht1 record) _
  generalize hr₁ : runAmong env others
    (withTimeoutAndRetry (ht1OpName record) (ht1Op cfg s record)) w = r₁ at hrun
  obtain ⟨x₁, w₁⟩ := r₁
  cases x₁ with
  | error e =>
    obtain ⟨rfl, rfl⟩ := eq_of_pure hrun
    have h := settled_ht1_failed env ring s hothers honly₁ hfresh
    rw [hr₁] at h
    exact atomic_rejected.trans h
  | ok u₁ =>
    change runAmong env others (assign cfg s record) w₁ = _ at hrun
    unfold assign at hrun
    rw [runAmong_attempt_bind] at hrun
    obtain ⟨hstrip, hrecord⟩ := stored_ht1 (hid ▸ hothers.record _ (.inr rfl)) hs hr₁
    have honly₂ : Only (OnList id) (withTimeoutAndRetry (ht2OpName record) (ht2Op cfg s record)) :=
      only_retryLoop (only_ht2 hid hw) _
    have happend := appends_ht2 ring hothers.listed cfg hs hid hne hw w₁
    unfold AppendsBy at happend
    have hkeep := (honly₂.mono fun o ho => ho.no_result
      (ring.owner (.result (strip id))).address (strip id)).get_eq env
        (hothers.record _ (.inr rfl)) w₁
    generalize hr₂ : runAmong env others
      (withTimeoutAndRetry (ht2OpName record) (ht2Op cfg s record)) w₁ = r₂ at hrun happend hkeep
    obtain ⟨x₂, w₂⟩ := r₂
    cases x₂ with
    | ok u₂ =>
      obtain ⟨rfl, rfl⟩ := eq_of_pure hrun
      obtain ⟨e, he, hacked⟩ := happend.acked.1 rfl
      refine iff_of_true ⟨⟨record, ?_, hid, rfl⟩, happend.listed ⟨e, he, hacked.reached⟩⟩
        (.inl ⟨e, ?_, hacked⟩)
      · rw [hkeep, ← hid]
        exact hrecord
      · have hsuffix := runAmong_suffix env others
          (withTimeoutAndRetry (ht1OpName record) (ht1Op cfg s record)) w
        rw [hr₁] at hsuffix
        rw [since_trans hsuffix happend.suffix]
        exact List.mem_append_left _ he
    | error e =>
      change runAmong env others (attempt (ResultService.delete s record.taskId) >>= _) w₂ = _ at hrun
      rw [runAmong_attempt_bind] at hrun
      obtain ⟨removed, hremoved, -⟩ := (yields_delete hstrip (s := s)).exec (among env others) w₂
      rw [hremoved] at hrun
      obtain ⟨rfl, hw₃⟩ := eq_of_pure hrun
      have h := settled_rollback ring hothers honly₁ honly₂ (only_delete record.taskId)
        (congrArg Prod.snd hr₁) (congrArg Prod.snd hr₂) hw₃ hfresh happend
      exact atomic_rejected.trans h

/-- What a built record says. -/
theorem build_eq_ok {taskType : TaskType} {path script workerId : Json} {assignedBy : AssignedBy}
    {now : ℕ} {record : ResultRecord}
    (h : buildResultRecord (.str id) taskType path script workerId assignedBy now = .ok record) :
    record.taskId = id ∧ id ≠ "" ∧ record.workerId ≠ "" := by
  cases workerId with
  | str v =>
    simp only [buildResultRecord] at h
    split_ifs at h with hid hv
    obtain rfl := Except.ok.inj h
    exact ⟨rfl, hid, hv⟩
  | _ => cases h

include hothers in
/-- Steps 2 to 5. -/
theorem accept {taskType : TaskType} {details : List (String × Json)}
    (hs : s.node ∈ ring.members) (worker : Option (Json × AssignedBy)) :
    Creates env others ring s id (accept cfg s (.str id) taskType details worker) := by
  rcases worker with - | ⟨workerId, assignedBy⟩
  · exact .pure (by simp [CreateReply.code])
  · refine .bind hothers (.act ⟨trivial, trivial⟩) fun now => ?_
    generalize hbuild : buildResultRecord (.str id) taskType (fieldOr details "path" (.str ""))
      (fieldOr details "script" (.str "")) workerId assignedBy now = r
    cases r with
    | ok record =>
      obtain ⟨hid, hne, hw⟩ := build_eq_ok hbuild
      exact persist hothers hs hid hne hw
    | error e =>
      cases e with
      | resultValidation reason => exact .pure (by simp [CreateReply.code])
      | _ => exact .raise _

end Creates

include hothers in
/-- **A creation is all or nothing exactly when its history is settled.**  The
handler runs among others that leave the task alone, each of its requests is
served and answered, lost, or served while its answer is lost, and nothing of the
task is anywhere at first. -/
theorem createTask_atomic_iff {body : Fields} (hs : s.node ∈ ring.members)
    (hbody : body.getD "task_id" .null = .str id) (hfresh : Fresh id w) {reply : CreateReply}
    (hrun : runAmong env others (createTask cfg s body) w = (.ok reply, w')) :
    Atomic ring id w' reply ↔ Settled ring s id (since w w') := by
  suffices h : Creates env others ring s id (createTask cfg s body) from h w hfresh reply w' hrun
  unfold createTask
  rw [hbody]
  split_ifs
  · exact .pure (by simp [CreateReply.code])
  · split
    · exact .pure (by simp [CreateReply.code])
    · refine .bind hothers (.lift _) fun taskType => ?_
      cases taskType with
      | none => exact .pure (by simp [CreateReply.code])
      | some taskType =>
        unfold submit
        rw [hbody]
        refine .bind hothers (only_existingRecord _) fun existing => ?_
        cases existing with
        | some existing => exact .pure (by simp [CreateReply.code])
        | none => exact .bind hothers (only_determineWorker _) fun worker => .accept hothers hs worker

end Outcome

/-! ### Creations in a ring of three nodes -/

namespace ThreeNodes

open Storage.ThreeNodes

/-- The task `t` for the worker `w`. -/
def body : Fields :=
  ⟨[("task_id", .str "t"), ("worker_id", .str "w"),
    ("task_details", .obj [("task_type", .str "SCRIPT")])], by decide⟩

/-- No worker is spawned and no failure injected. -/
def config : Config := ⟨false, none, .nothing⟩

/-- The answers to the writes of the record are lost. -/
def writesUnanswered (_ : ℕ) (_ : Address) : Request → Delivery
  | .put .. => .replyLost
  | _ => .delivered

/-- The owners do not depend on what becomes of the requests. -/
def owned (deliver : ℕ → Address → Request → Delivery) : Owned (env deliver) :=
  Storage.ThreeNodes.ring.toOwned.congr rfl

theorem fresh : Fresh "t" World.empty := ⟨fun _ _ _ => rfl, fun _ _ => List.not_mem_nil⟩

theorem nobody : KeepTask Others.nobody "t" := ⟨fun _ _ _ _ _ => rfl, fun _ _ _ _ => Iff.rfl⟩

/-- The answer is 201. -/
def accepts : Except Exc CreateReply × World → Bool
  | (.ok (.accepted ..), _) => true
  | _ => false

/-- The answer is 503, no rollback was reported as failed, and the node at `a` holds a
record of `t`. -/
def leavesRecord (a : Address) : Except Exc CreateReply × World → Bool
  | (.ok (.rejected 503 _ false), w') => ((w'.stores a).get (.result "t")).isSome
  | _ => false

theorem ok_of_accepts {r : Except Exc CreateReply × World} (h : accepts r = true) :
    ∃ reply w', r = (.ok reply, w') := by
  obtain ⟨reply | reply, w'⟩ := r
  · cases h
  · exact ⟨reply, w', rfl⟩

theorem not_atomic_of_leavesRecord {env : Env} {ring : Owned env} {a : Address}
    {r : Except Exc CreateReply × World} (h : leavesRecord a r = true) :
    ∃ reply w', r = (.ok reply, w') ∧ ¬Atomic ring "t" w' reply := by
  unfold leavesRecord at h
  split at h
  · refine ⟨_, _, rfl, fun hatomic => ?_⟩
    have hnone := (hatomic rfl).1 rfl a "t" (.inl rfl)
    rw [hnone] at h
    cases h
  · cases h

end ThreeNodes

open Storage.ThreeNodes ThreeNodes in
/-- The hypotheses of `createTask_atomic_iff` are satisfiable: `nodeB` creates a task
and every request is answered. -/
theorem createTask_atomic_threeNodes :
    ∃ reply w', runAmong (env fun _ _ _ => .delivered) Others.nobody
        (createTask config (services nodeB) body) World.empty = (.ok reply, w') ∧
      (Atomic (owned fun _ _ _ => .delivered) "t" w' reply ↔
        Settled (owned fun _ _ _ => .delivered) (services nodeB) "t" (since World.empty w')) := by
  have haccepts : accepts (runAmong (env fun _ _ _ => .delivered) Others.nobody
      (createTask config (services nodeB) body) World.empty) = true := by decide +kernel
  obtain ⟨reply, w', hrun⟩ := ok_of_accepts haccepts
  have hmem : (services nodeB).node ∈ (owned fun _ _ _ => .delivered).members := .inr (.inl rfl)
  exact ⟨reply, w', hrun, createTask_atomic_iff nobody hmem rfl fresh hrun⟩

open Storage.ThreeNodes ThreeNodes in
/-- **A rejected task whose record stays.**  Every write of the record is served and its
answer lost: the answer is 503, no rollback is reported as failed, and the record
is at its owner. -/
theorem createTask_ghost :
    Fresh "t" World.empty ∧ ∃ reply w', runAmong (env writesUnanswered) Others.nobody
        (createTask config (services nodeB) body) World.empty = (.ok reply, w') ∧
      ¬Atomic (owned writesUnanswered) "t" w' reply := by
  have hleaves : leavesRecord "a" (runAmong (env writesUnanswered) Others.nobody
      (createTask config (services nodeB) body) World.empty) = true := by decide +kernel
  exact ⟨fresh, not_atomic_of_leavesRecord hleaves⟩

end Server
end ChordInfra
