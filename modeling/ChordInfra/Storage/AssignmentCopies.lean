/-
# The copies of a worker's list

In a ring of fixed membership in which no request fails, calls of `append`, `remove` and `delete`
run one after the other.  An append and a removal in the owner's process write the record at the
owner and at its replicas, and a deletion deletes it there, so the copies agree (`copies_agree`).

Some changes reach the owner only (`ListCall.Careful`).  A removal that is called on another node
writes the owner's record without its replicas, so the replicas keep the task (`copies_differ`).
An id with white space around it is stripped in the owner's key but not in that of the replicas.
And an id that means something in a URL (`Plain`) is cut or decoded on its way to another node.
-/

import ChordInfra.Storage.AssignmentReads
import ChordInfra.Storage.OverHttp
import ChordInfra.Interact.Hoare

namespace ChordInfra
namespace Storage

open Interact Prog
open ChordInfra.Ring (NodeRef)
open Replication
open WorkerAssignment (tasksOf)
open Url (Decodes)

namespace FixedRing

variable {env : Env} {ring : FixedRing env} {k : ℕ} {s s' : Stores} {workerId : String}

/-- The owner of each worker's key and the replicas of the owner have the same under this key. -/
def Agree (ring : FixedRing env) (k : ℕ) (s : Stores) : Prop :=
  ∀ v, ∀ n ∈ ring.replicas k (ring.workerOwner v),
    (s n.address).get (.worker (strip v)) = ring.atOwner v s

/-- What one key is set to at its owner and at the replicas. -/
def SetTo (ring : FixedRing env) (k : ℕ) (workerId : String) (x : Option Value) (s s' : Stores) :
    Prop :=
  ∀ a v, (s' a).get (.worker (strip v)) =
    if strip v = strip workerId ∧ (a = (ring.workerOwner workerId).address ∨
        a ∈ (ring.replicas k (ring.workerOwner workerId)).map NodeRef.address) then x
    else (s a).get (.worker (strip v))

/-- **A change of one key at all of them** keeps them in agreement. -/
theorem Agree.setTo (h : ring.Agree k s) {x : Option Value} (hset : ring.SetTo k workerId x s s') :
    ring.Agree k s' := by
  intro v n hn
  unfold atOwner
  rw [hset, hset]
  by_cases hv : strip v = strip workerId
  · have howner : ring.workerOwner v = ring.workerOwner workerId := by
      unfold workerOwner
      rw [hv]
    rw [howner] at hn ⊢
    rw [if_pos ⟨hv, .inr (List.mem_map_of_mem hn)⟩, if_pos ⟨hv, .inl rfl⟩]
  · rw [if_neg fun hc => hv hc.1, if_neg fun hc => hv hc.1]
    exact h v n hn

/-- A write to the owner's key at the owner and to the id's key at the replicas is one to the key of
the worker, where the two keys are the same. -/
theorem SetTo.of_get {x : Option Value} (hstrip : strip workerId = workerId)
    (hget : ∀ a v, (s' a).get (.worker (strip v)) =
      if a ∈ (ring.replicas k (ring.workerOwner workerId)).map NodeRef.address ∧
        Key.worker (strip v) = .worker workerId then x
      else if a = (ring.workerOwner workerId).address ∧
        Key.worker (strip v) = .worker (strip workerId) then x
      else (s a).get (.worker (strip v))) : ring.SetTo k workerId x s s' := by
  intro a v
  simp only [hget, Key.worker.injEq]
  rw [hstrip]
  by_cases hmem : a ∈ (ring.replicas k (ring.workerOwner workerId)).map NodeRef.address
  · by_cases hv : strip v = workerId
    · rw [if_pos ⟨hmem, hv⟩, if_pos ⟨hv, .inr hmem⟩]
    · rw [if_neg fun h => hv h.2, if_neg fun h => hv h.2, if_neg fun h => hv h.1]
  · rw [if_neg fun h => hmem h.1]
    refine if_congr ?_ rfl rfl
    rw [or_iff_left hmem, and_comm]

/-- A record written at the owner, and at the replicas. -/
theorem setTo_mirrored (record : WorkerRecord) (s : Stores) (hstrip : strip workerId = workerId) :
    ring.SetTo k workerId (some (.worker record)) s (ring.mirrored k workerId record s) := by
  refine .of_get hstrip fun a v => ?_
  unfold mirrored recorded
  rw [get_serveAll_putReplica, Stores.get_put]

/-- A record written at an owner that has no replicas. -/
theorem setTo_recorded (record : WorkerRecord) (s : Stores) (hstrip : strip workerId = workerId)
    (hnone : ring.replicas k (ring.workerOwner workerId) = []) :
    ring.SetTo k workerId (some (.worker record)) s (ring.recorded workerId record s) := by
  have hset : ring.SetTo k workerId (some (.worker record)) s
      (ring.mirrored k workerId record s) := setTo_mirrored record s hstrip
  unfold mirrored at hset
  rwa [hnone] at hset

/-- The stores after a deletion. -/
def deleted (ring : FixedRing env) (k : ℕ) (workerId : String) (s : Stores) : Stores :=
  serveAll (.deleteReplica (.worker workerId)) (ring.replicas k (ring.workerOwner workerId))
    (s.delete (ring.workerOwner workerId).address (.worker (strip workerId)))

/-- The key deleted at the owner and at the replicas. -/
theorem setTo_deleted (s : Stores) (hstrip : strip workerId = workerId) :
    ring.SetTo k workerId none s (ring.deleted k workerId s) := by
  refine .of_get hstrip fun a v => ?_
  unfold deleted
  rw [get_serveAll_deleteReplica, Stores.get_delete]

/-- **What `delete` does.** -/
theorem run_delete (ring : FixedRing env) {s : Service} (hs : s.node ∈ ring.members)
    (hw : workerId ≠ "") (w : World) :
    (run env (WorkerAssignment.delete s workerId) w).2.stores =
      ring.deleted s.replicationK workerId w.stores := by
  obtain ⟨howner, hstores⟩ := ring.resolves hs (.worker (strip workerId)) w
  generalize hw₁ : (run env (s.owner (.worker (strip workerId))) w).2 = w₁ at hstores
  obtain ⟨-, hdelete⟩ := ring.run_deleteOnNode hs (.worker (strip workerId))
    (handle env (.lock s.node.address (.worker (strip workerId))) w₁).2
  generalize hw₂ : run env (s.deleteOnNode (ring.owner (.worker (strip workerId)))
    (.worker (strip workerId))) (handle env (.lock s.node.address (.worker (strip workerId))) w₁).2 =
      ok at hdelete
  obtain ⟨hreplicas, hsame⟩ :=
    ring.run_getReplicas s.replicationK (ring.owner (.worker (strip workerId))) ok.2
  obtain ⟨hvisit, hvisited⟩ := ring.run_visitAll (.deleteReplica (.worker workerId)) 0
    (ring.replicas s.replicationK (ring.owner (.worker (strip workerId))))
    (run env (getReplicas s.replicationK (ring.owner (.worker (strip workerId)))) ok.2).2
  change (run env (visitAll (fun replica => ResultService.succeeds replica.address
    (.deleteReplica (.worker workerId))) _) _).1 = _ at hvisit
  unfold WorkerAssignment.delete
  rw [show buildWorkerKey workerId = .ok (.worker (strip workerId)) from if_neg hw, run_lift_ok_bind,
    run_bind howner, hw₁, run_act_bind, run_attempt_bind, hw₂, run_bind hreplicas, run_bind hvisit,
    run_act_bind]
  rw [hsame, hdelete] at hvisited
  have hstores' := hvisited.trans
    (congrArg (fun s' : Stores => serveAll _ _ (s'.delete _ _)) hstores)
  obtain ⟨answer, w₂⟩ := ok
  -- what the owner answered is reported only
  cases answer <;> exact hstores'

/-! ### Calls that have nothing to change -/

/-- A program that leaves the stores as they are, by what is in them. -/
abbrev Idles (decode : List UInt8 → List Char) (env : Env) (s : Stores) {α : Type} (p : M α)
    (Q : α → Prop) : Prop :=
  Does (AnsweredIn (overHttp decode env) fun w => w.stores = s)
    (KeptBy (overHttp decode env) fun w => w.stores = s) p Q

section Idles

variable {decode : List UInt8 → List Char}

/-- Under the lock, a list that the change leaves as it is. -/
theorem idles_changeLocal {a : Address} {key : Key} {change : List String → List String}
    (hsame : change (tasksOf ((s a).get key)) = tasksOf ((s a).get key)) (k : ℕ) (v : String)
    (primary : NodeRef) :
    Idles decode env s (WorkerAssignment.changeLocal a k key v change primary) fun _ => True := by
  unfold WorkerAssignment.changeLocal
  refine .bind (.step fun _ hw => hw) fun _ _ =>
    .bind (.perform (fun _ hw => hw) fun _ hx => hx) ?_
  rintro _ ⟨w, rfl, rfl⟩
  refine .ite (fun _ => .bind (.step fun _ hw => hw) fun _ _ => .pure trivial) fun hchanged => ?_
  exact (hchanged hsame).elim

/-- An append in a process whose list has the task. -/
theorem idles_appendLocal {a : Address} {v t : String} (hmem : t ∈ tasksOf
      ((s a).get (.worker (strip v)))) (k : ℕ) (primary : Option NodeRef) :
    Idles decode env s (WorkerAssignment.appendLocal a k v t primary) fun _ => True := by
  unfold WorkerAssignment.appendLocal buildWorkerKey
  split_ifs with hv
  · exact .raise _
  · rw [lift_ok_bind]
    have howner : Idles decode env s
        (WorkerAssignment.ownerOr a (.worker (strip v)) primary) fun _ => True := by
      cases primary with
      | some primary => exact .pure trivial
      | none => exact .step fun _ hw => hw
    refine .bind howner fun primary _ => idles_changeLocal ?_ _ _ _
    exact WorkerAssignment.appended_eq_self.2 hmem

variable (ring)

include ring

theorem overHttp_rpc (a : Address) (r : Request) (w : World) :
    (overHttp decode env (.rpc a r) w).1 = World.answerOverHttp decode env w a r :=
  if_pos (ring.delivered _ _ _)

theorem overHttp_rpc_stores (a : Address) (r : Request) (w : World) :
    (overHttp decode env (.rpc a r) w).2.stores = World.serveOverHttp decode w.stores a r :=
  if_neg (by rw [ring.delivered]; decide)

/-- A request that does nothing to the stores is allowed. -/
theorem kept_rpc {a : Address} {r : Request} (hserve : World.serveOverHttp decode s a r = s) :
    KeptBy (overHttp decode env) (fun w => w.stores = s) (.rpc a r) := fun w hw =>
  (ring.overHttp_rpc_stores a r w).trans (by rw [hw, hserve])

/-- It is answered by what is in them. -/
theorem idles_request {a : Address} {r : Request}
    (hserve : World.serveOverHttp decode s a r = s) :
    Idles decode env s (Transport.request a r) fun x =>
      ∃ w, w.stores = s ∧ World.answerOverHttp decode env w a r = some x := by
  refine Serving.request (ring.kept_rpc hserve) ?_
  rintro x ⟨w, hw, hx⟩
  exact ⟨w, hw, (ring.overHttp_rpc a r w).symm.trans hx⟩

/-- The owner of a key, found by a member. -/
theorem idles_owner {sv : Service} (hs : sv.node ∈ ring.members) (key : Key) :
    Idles decode env s (sv.owner key) fun n => n = ring.owner key := by
  refine .perform (fun _ hw => hw) ?_
  rintro _ ⟨w, -, rfl⟩
  exact ring.findSuccessor_eq _ _ hs key

theorem idles_chainFrom (visited : List Address) (current : NodeRef) (n : ℕ) :
    Idles decode env s (chainFrom visited current n)
      fun l => l = ring.chain visited current n := by
  have hstate : ∀ a, Gives (AnsweredIn (overHttp decode env) fun w => w.stores = s)
      (KeptBy (overHttp decode env) fun w => w.stores = s) (Transport.request a .getState)
      fun x => x = ring.successor a := by
    refine fun a => .bind (.perform (ring.kept_rpc rfl) fun x hx => hx) ?_
    rintro _ ⟨w, -, rfl⟩
    rw [ring.overHttp_rpc]
    exact .pure (ring.successor_eq _ _)
  induction n generalizing visited current with
  | zero => exact .pure rfl
  | succ n ih =>
    unfold chainFrom chain
    by_cases hv : current.address ∈ visited
    · rw [if_pos hv, if_pos hv]
      exact .pure rfl
    · rw [if_neg hv, if_neg hv]
      refine .bind (hstate current.address).attempt ?_
      rintro _ ⟨_, rfl, rfl⟩
      cases ring.successor current.address with
      | none => exact .pure rfl
      | some successor =>
        dsimp only
        refine .ite (fun hs => ?_) fun hs => ?_
        · rw [if_pos hs]
          exact .pure rfl
        · rw [if_neg hs]
          exact .bind (ih _ _) fun l hl => .pure (hl ▸ rfl)

theorem idles_getReplicas (k : ℕ) (primary : NodeRef) :
    Idles decode env s (getReplicas k primary) fun l => l = ring.replicas k primary :=
  .bind (ring.idles_chainFrom _ _ _) fun _ hl => .pure (hl ▸ rfl)

/-- The requests of an append, the owner being resolved again before each. -/
theorem idles_appendTries {sv : Service} (hs : sv.node ∈ ring.members) {v : String}
    {handler : Address → M Assignment} (hhandler : Idles decode env s
      (handler (ring.workerOwner v).address) fun _ => True) (t : String) (n : ℕ) :
    Idles decode env s (WorkerAssignment.appendTries sv (.worker (strip v)) v t handler n
      (ring.workerOwner v)) fun _ => True := by
  have hcall : Idles decode env s (Transport.call (ring.workerOwner v).address (.append v t)
      (handler (ring.workerOwner v).address)) fun _ => True :=
    Serving.callTries (fun _ hw => hw) hhandler _
  induction n with
  | zero => exact hcall
  | succ n ih =>
    refine .bind hcall.attempt fun x _ => ?_
    cases x with
    | ok x => exact .pure trivial
    | error e =>
      refine .bind (ring.idles_owner hs _) ?_
      rintro _ rfl
      exact ih

end Idles

end FixedRing

/-! ### Calls -/

/-- A call that changes a worker's list. -/
inductive ListCall
  | append (s : Service) (workerId taskId : String)
  | remove (s : Service) (workerId taskId : String)
  | delete (s : Service) (workerId : String)

namespace ListCall

variable {env : Env} (decode : List UInt8 → List Char) (ring : FixedRing env)

/-- The service that is called. -/
def service : ListCall → Service
  | append s _ _ | remove s _ _ | delete s _ => s

/-- The worker whose list it is. -/
def workerId : ListCall → String
  | append _ v _ | remove _ v _ | delete _ v => v

/-- The call, which may raise. -/
def program : ListCall → M Unit
  | append s v t => do
    let _ ← attempt (WorkerAssignment.appendOverHttp decode s v t)
    pure ()
  | remove s v t => do
    let _ ← attempt (WorkerAssignment.remove s v t)
    pure ()
  | delete s v => do
    let _ ← attempt (WorkerAssignment.delete s v)
    pure ()

/-- The value that a call works on: the owner's record, or what the URL of the key reaches in the
owner's process. -/
def atUrl (s : Stores) (sv : Service) (v : String) : Option Value :=
  if sv.node = ring.workerOwner v then ring.atOwner v s
  else (reached decode (Key.worker (strip v)).dataUrl).bind (s (ring.workerOwner v).address).get

/-- There is something to change, where the requests of the call arrive. -/
def Changes (k : ℕ) (s : Stores) : ListCall → Prop
  | append sv v t =>
    if sv.node = ring.workerOwner v then v ≠ "" ∧ t ∉ tasksOf (ring.atOwner v s)
    else t ≠ "" ∧ ∃ id ∈ appendId decode v,
      t ∉ tasksOf ((s (ring.workerOwner v).address).get (.worker (strip id)))
  | remove sv v t => t ∈ tasksOf (atUrl decode ring s sv v)
  | delete sv v => v ≠ "" ∧ (atUrl decode ring s sv v ≠ none ∨
      ∃ n ∈ ring.replicas k (ring.workerOwner v),
        ∃ key ∈ reached decode (Key.worker v).replicaUrl, (s n.address).get key ≠ none)

/-- A removal is called on the owner itself. -/
def AtOwner : ListCall → Prop
  | remove s v _ => s.node = ring.workerOwner v
  | _ => True

/-- What a change takes to reach the replicas, where there are any: the id is plain, and a removal is
called on the owner. -/
def Careful (k : ℕ) (s : Stores) (c : ListCall) : Prop :=
  c.Changes decode ring k s → (∀ v, ring.replicas k (ring.workerOwner v) = []) ∨
    Plain .workers c.workerId ∧
      (ring.replicas k (ring.workerOwner c.workerId) = [] ∨ c.AtOwner ring)

/-- A call on a member, with the replication factor of all. -/
structure Called (k : ℕ) (careful : Prop) (w : World) (p : M Unit) : Prop where
  call : ∃ c : ListCall, p = c.program decode ∧ c.service.node ∈ ring.members ∧
    c.service.replicationK = k ∧ (careful → c.Careful decode ring k w.stores)

variable {decode ring} {k : ℕ} {s : Stores} {w : World}

theorem atUrl_owner {sv : Service} {v : String} (h : sv.node = ring.workerOwner v) :
    atUrl decode ring s sv v = ring.atOwner v s := if_pos h

section Idles

variable {sv : Service} (hs : sv.node ∈ ring.members) {v t : String}

include hs

theorem idles_append (hnot : ¬(append sv v t).Changes decode ring k s) :
    FixedRing.Idles decode env s (WorkerAssignment.appendOverHttp decode sv v t) fun _ => True := by
  unfold WorkerAssignment.appendOverHttp WorkerAssignment.appendBy buildWorkerKey
  split_ifs with hv
  · exact .raise _
  rw [lift_ok_bind]
  refine .bind (ring.idles_owner hs _) ?_
  rintro _ rfl
  refine .ite (fun hid => ?_) fun hid => ring.idles_appendTries hs ?_ t _
  · have hnode : sv.node = ring.workerOwner v := ring.eq_owner hs hid
    have hmem : t ∈ tasksOf (ring.atOwner v s) := by
      by_contra hmem
      exact hnot ((if_pos hnode).mpr ⟨hv, hmem⟩)
    rw [hnode]
    exact FixedRing.idles_appendLocal hmem _ _
  · have hnode : sv.node ≠ ring.workerOwner v := fun h => hid (congrArg NodeRef.id h).symm
    unfold WorkerAssignment.handleAppendUrl
    cases hurl : appendId decode v with
    | none => exact .raise _
    | some id =>
      refine .ite (fun _ => .raise _) fun ht => FixedRing.idles_appendLocal ?_ _ _
      by_contra hmem
      exact hnot ((if_neg hnode).mpr ⟨ht, id, hurl, hmem⟩)

theorem idles_remove (hmem : t ∉ tasksOf (atUrl decode ring s sv v)) :
    FixedRing.Idles decode env s (WorkerAssignment.remove sv v t) fun _ => True := by
  unfold WorkerAssignment.remove WorkerAssignment.removeLocal buildWorkerKey
  split_ifs with hv
  · exact .raise _
  rw [lift_ok_bind]
  refine .bind (ring.idles_owner hs _) ?_
  rintro _ rfl
  refine .ite (fun hid => ?_) fun hid => ?_
  · have hnode : sv.node = ring.workerOwner v := ring.eq_owner hs hid
    rw [atUrl_owner hnode] at hmem
    rw [hnode]
    exact FixedRing.idles_changeLocal (WorkerAssignment.removed_eq_self.2 hmem) _ _ _
  · have hnode : sv.node ≠ ring.workerOwner v := fun h => hid (congrArg NodeRef.id h).symm
    unfold atUrl at hmem
    rw [if_neg hnode] at hmem
    refine .bind (ring.idles_request (World.serveOverHttp_get ..)).attempt fun answer hanswer => ?_
    refine .ite (fun _ => .pure trivial) fun hnone => (hnone ?_).elim
    cases answer with
    | error e => exact List.not_mem_nil
    | ok value =>
      obtain ⟨w, rfl, hvalue⟩ := hanswer value rfl
      obtain rfl := Option.some.inj hvalue
      exact hmem

/-- A deletion where the owner has nothing. -/
theorem idles_deleteOnNode (hnone : atUrl decode ring s sv v = none) :
    FixedRing.Idles decode env s
      (sv.deleteOnNode (ring.workerOwner v) (.worker (strip v))) fun _ => True := by
  refine .ite (fun hid => ?_) fun hid => ?_
  · have hnode : sv.node = ring.workerOwner v := ring.eq_owner hs hid
    rw [atUrl_owner hnode] at hnone
    refine .step fun w hw => ?_
    rw [hnode]
    exact (congrArg (Stores.delete · _ _) hw).trans (Stores.delete_eq_self hnone)
  · have hnode : sv.node ≠ ring.workerOwner v := fun h => hid (congrArg NodeRef.id h).symm
    unfold atUrl at hnone
    rw [if_neg hnode] at hnone
    refine (ring.idles_request (World.serveOverHttp_delete fun key hkey => ?_)).mono
      fun _ _ => trivial
    rw [hkey] at hnone
    exact hnone

theorem idles_delete (hnot : ¬(delete sv v).Changes decode ring sv.replicationK s) :
    FixedRing.Idles decode env s (WorkerAssignment.delete sv v) fun _ => True := by
  unfold WorkerAssignment.delete buildWorkerKey
  split_ifs with hv
  · exact .raise _
  obtain ⟨hnone, hcopies⟩ := not_or.1 (not_and.1 hnot hv)
  rw [lift_ok_bind]
  refine .bind (ring.idles_owner hs _) ?_
  rintro _ rfl
  refine .bind (.step fun _ hw => hw) fun _ _ => ?_
  refine .bind (idles_deleteOnNode hs (not_not.1 hnone)).attempt fun ok _ =>
    .bind (ring.idles_getReplicas _ _) ?_
  rintro _ rfl
  refine .bind (Serving.visitAll_mem fun n hn => Serving.requestWithRetry
    (ring.kept_rpc (World.serveOverHttp_deleteReplica fun key hkey => ?_)) _) fun _ _ => ?_
  · by_contra hsome
    exact hcopies ⟨n, hn, key, hkey, hsome⟩
  · refine .bind (.step fun _ hw => hw) fun _ _ => ?_
    cases ok with
    | ok wasThere => exact .pure trivial
    | error e => exact .pure trivial

end Idles

/-- **A call that has nothing to change** leaves the stores as they are. -/
theorem idles {c : ListCall} (hc : c.service.node ∈ ring.members) (hk : c.service.replicationK = k)
    (hnot : ¬c.Changes decode ring k s) :
    FixedRing.Idles decode env s (c.program decode) fun _ => True := by
  subst hk
  cases c with
  | append sv v t => exact .bind (idles_append hc hnot).attempt fun _ _ => .pure trivial
  | remove sv v t => exact .bind (idles_remove hc hnot).attempt fun _ _ => .pure trivial
  | delete sv v => exact .bind (idles_delete hc hnot).attempt fun _ _ => .pure trivial

/-- **A call for a plain id** whose change reaches the replicas keeps the copies in agreement. -/
theorem agree (hdecode : Decodes decode) (hcalls : ∀ t a c, env.deliverCall t a c = .delivered)
    {c : ListCall} (hc : c.service.node ∈ ring.members) (hk : c.service.replicationK = k)
    (hplain : Plain .workers c.workerId)
    (hreach : ring.replicas k (ring.workerOwner c.workerId) = [] ∨ c.AtOwner ring)
    (h : ring.Agree k w.stores) :
    ring.Agree k (exec (overHttp decode env) (c.program decode) w).2.stores := by
  have hstrip : strip c.workerId = c.workerId := hplain.2.2.resolve_left (by simp)
  by_cases hv : c.workerId = ""
  · -- the key is refused
    cases c <;> obtain rfl : _ = "" := hv <;> exact h
  have haccepted : ∃ key, Table.workers.build c.workerId = .ok key := ⟨_, if_neg hv⟩
  cases c with
  | append s v t =>
    have hs : s.node ∈ ring.members := hc
    obtain rfl : s.replicationK = k := hk
    simp only [workerId] at hv hplain hstrip haccepted
    unfold program
    rw [exec_attempt_bind, exec_pure, appendOverHttp_eq hdecode hplain hv,
      exec_overHttp hdecode env hplain haccepted (about_append s v t)]
    dsimp only
    rcases ring.run_append t hs hv hcalls w with ⟨-, hsame⟩ | ⟨-, record, -, hstores⟩
    · rw [hsame]
      exact h
    · rw [hstores]
      exact h.setTo (FixedRing.setTo_mirrored record _ hstrip)
  | remove s v t =>
    have hs : s.node ∈ ring.members := hc
    obtain rfl : s.replicationK = k := hk
    simp only [workerId] at hv hplain hstrip haccepted
    unfold program
    rw [exec_attempt_bind, exec_pure,
      exec_overHttp hdecode env hplain haccepted (about_remove s v t)]
    dsimp only
    rcases ring.run_remove t hs hv w with ⟨-, hsame⟩ | ⟨-, record, -, hstores⟩
    · rw [hsame]
      exact h
    · rw [hstores]
      unfold FixedRing.rewritten
      split_ifs with hid
      · exact h.setTo (FixedRing.setTo_mirrored record _ hstrip)
      · rcases hreach with hnone | howner
        · exact h.setTo (FixedRing.setTo_recorded record _ hstrip hnone)
        · exact absurd (congrArg NodeRef.id howner).symm hid
  | delete s v =>
    have hs : s.node ∈ ring.members := hc
    obtain rfl : s.replicationK = k := hk
    simp only [workerId] at hv hplain hstrip haccepted
    unfold program
    rw [exec_attempt_bind, exec_pure,
      exec_overHttp hdecode env hplain haccepted (about_assignmentDelete s v)]
    dsimp only
    rw [ring.run_delete hs hv]
    exact h.setTo (FixedRing.setTo_deleted _ hstrip)

/-- **One careful call** keeps the copies in agreement. -/
theorem agree_of_careful (hdecode : Decodes decode)
    (hcalls : ∀ t a c, env.deliverCall t a c = .delivered)
    {c : ListCall} (hc : c.service.node ∈ ring.members) (hk : c.service.replicationK = k)
    (hcareful : c.Careful decode ring k w.stores) (h : ring.Agree k w.stores) :
    ring.Agree k (exec (overHttp decode env) (c.program decode) w).2.stores := by
  by_cases hchanges : c.Changes decode ring k w.stores
  · rcases hcareful hchanges with hnone | ⟨hplain, hreach⟩
    · intro v n hn
      rw [hnone v] at hn
      cases hn
    · exact agree hdecode hcalls hc hk hplain hreach h
  · have hsame : (exec (overHttp decode env) (c.program decode) w).2.stores = w.stores :=
      (idles hc hk hchanges).stays rfl
    rw [hsame]
    exact h

end ListCall

/-- **The copies of every list agree**: after any calls on the members, one after the other from
empty stores, each of them careful, the owner of a worker's key and its replicas have the same
record of the worker, or none. -/
theorem copies_agree {decode : List UInt8 → List Char} (hdecode : Decodes decode) {env : Env}
    {ring : FixedRing env} {k : ℕ} {w : World}
    (hcalls : ∀ t a c, env.deliverCall t a c = .delivered)
    (hrun : Serially (overHttp decode env) (ListCall.Called decode ring k True) World.empty w)
    (workerId : String) {n : NodeRef} (hn : n ∈ ring.replicas k (ring.workerOwner workerId)) :
    (w.stores n.address).get (.worker (strip workerId)) = ring.atOwner workerId w.stores := by
  have hagree : ring.Agree k w.stores := by
    refine hrun.keeps (J := fun w => ring.Agree k w.stores) (fun w p h hp => ?_) fun v n _ => rfl
    obtain ⟨c, rfl, hc, hk, hcareful⟩ := hp.call
    exact ListCall.agree_of_careful hdecode hcalls hc hk (hcareful trivial) h
  exact hagree workerId n hn

namespace ThreeNodes

/-- The ring when all requests are delivered. -/
abbrev calm : Env := env fun _ _ _ => .delivered

/-- The world after a call. -/
def called (c : ListCall) (w : World) : World :=
  (exec (overHttp latin1 calm) (c.program latin1) w).2

/-- The hypotheses of `copies_agree` are satisfiable: a task is put on the list of `w` by a call on
`nodeB`. -/
theorem copies_agree_threeNodes :
    let w := called (.append (services nodeB) "w" "t") World.empty
    (w.stores "b").get (.worker "w") = (w.stores "a").get (.worker "w") := by
  intro w
  have hrun : Serially (overHttp latin1 calm) (ListCall.Called latin1 ring 3 True) World.empty w :=
    .single ⟨_, ⟨.append (services nodeB) "w" "t", rfl, .inr (.inl rfl), rfl,
      fun _ _ => .inr ⟨plain_letter, .inr trivial⟩⟩, rfl⟩
  exact copies_agree decodes_latin1 (fun _ _ _ => rfl) hrun "w"
    (show nodeB ∈ ring.replicas 3 nodeA by decide)

theorem called_threeNodes {n : NodeRef} (hn : n ∈ ring.members) {c : ListCall}
    (hc : c.service = services n) (w : World) :
    ListCall.Called latin1 ring 3 False w (c.program latin1) :=
  ⟨c, rfl, by rwa [hc], by rw [hc]; rfl, fun h => h.elim⟩

/-- **The copies of a list differ**: the task is put on the list, and taken off it by a call on
`nodeB`, which is not the owner.  The replica keeps the task. -/
theorem copies_differ :
    ∃ w, Serially (overHttp latin1 calm) (ListCall.Called latin1 ring 3 False) World.empty w ∧
      nodeB ∈ ring.replicas 3 (ring.workerOwner "w") ∧
      tasksOf ((w.stores nodeB.address).get (.worker "w")) = ["t"] ∧
      tasksOf (ring.atOwner "w" w.stores) = [] := by
  refine ⟨called (.remove (services nodeB) "w" "t") (called (.append (services nodeA) "w" "t")
    World.empty), ?_, by decide, by decide +kernel, by decide +kernel⟩
  exact .tail (.single ⟨_, called_threeNodes (n := nodeA) (.inl rfl) rfl _, rfl⟩)
    ⟨_, called_threeNodes (n := nodeB) (.inr (.inl rfl)) rfl _, rfl⟩

end ThreeNodes

end Storage
end ChordInfra
