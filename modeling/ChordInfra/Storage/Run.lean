/-
# Services running alone

What holds of every program of the services that runs alone on a world: its
history only grows, and what it leaves alone is decided by the operations it
performs (`Only`).
-/

import ChordInfra.Storage.WorkerAssignment
import ChordInfra.Storage.TaskService

namespace ChordInfra
namespace Storage

open Interact Prog
open ChordInfra.Ring (NodeRef)

section Run

variable {α β : Type} {env : Env} {w : World}

/-- A program run alone on a world. -/
abbrev run (env : Env) (p : M α) (w : World) : Except Exc α × World := exec (handle env) p w

/-- A handler of operations that adds one entry to the history for each. -/
def Records (H : (o : Op) → World → o.Res × World) : Prop :=
  ∀ o w, ∃ d, (H o w).2.trace = (o, d) :: w.trace

variable {H : (o : Op) → World → o.Res × World}

theorem handle_trace (env : Env) : Records (handle env) := by
  intro o w
  cases o <;> exact ⟨_, rfl⟩

/-- The history only grows. -/
theorem exec_trace_suffix (hH : Records H) (p : M α) (w : World) :
    w.trace <:+ (exec H p w).2.trace := by
  induction p generalizing w with
  | ret a => exact List.suffix_rfl
  | raise e => exact List.suffix_rfl
  | op o k ih =>
    obtain ⟨d, hd⟩ := hH o w
    have hstep : w.trace <:+ (H o w).2.trace := hd ▸ List.suffix_cons _ _
    exact hstep.trans (ih _ _)

theorem run_trace_suffix (env : Env) (p : M α) (w : World) : w.trace <:+ (run env p w).2.trace :=
  exec_trace_suffix (handle_trace env) p w

theorem run_trace_length_le (env : Env) (p : M α) (w : World) :
    w.trace.length ≤ (run env p w).2.trace.length :=
  (run_trace_suffix env p w).length_le

/-- The run of a sequence whose first part ends with a value. -/
theorem run_bind {p : M α} {f : α → M β} {x : α} (h : (run env p w).1 = .ok x) :
    run env (p >>= f) w = run env (f x) (run env p w).2 :=
  exec_bind_ok (Prod.ext h rfl)

/-- The run of a sequence whose first part raises. -/
theorem run_bind_error {p : M α} {f : α → M β} {e : Exc} (h : (run env p w).1 = .error e) :
    run env (p >>= f) w = (.error e, (run env p w).2) :=
  exec_bind_error (Prod.ext h rfl)

theorem run_bind_eq_ok {p : M α} {f : α → M β} {x : α} {w' : World}
    (h : run env p w = (.ok x, w')) : run env (p >>= f) w = run env (f x) w' :=
  exec_bind_ok h

theorem run_bind_eq_error {p : M α} {f : α → M β} {e : Exc} {w' : World}
    (h : run env p w = (.error e, w')) : run env (p >>= f) w = (.error e, w') :=
  exec_bind_error h

theorem run_attempt_bind (p : M α) (f : Except Exc α → M β) :
    run env (attempt p >>= f) w = run env (f (run env p w).1) (run env p w).2 :=
  exec_attempt_bind p f w

@[simp] theorem run_pure (x : α) : run env (pure x : M α) w = (.ok x, w) := rfl

@[simp] theorem run_act_bind (o : Op) (f : o.Res → M β) :
    run env (act o >>= f) w = run env (f (handle env o w).1) (handle env o w).2 := rfl

@[simp] theorem run_lift_ok_bind (x : α) (f : α → M β) :
    run env (lift (.ok x) >>= f) w = run env (f x) w := rfl

/-- The operations performed between two worlds of a run, latest first. -/
def since (w w' : World) : List (Op × Delivery) :=
  w'.trace.take (w'.trace.length - w.trace.length)

theorem since_eq {w w' : World} {l : List (Op × Delivery)} (h : w'.trace = l ++ w.trace) :
    since w w' = l := by
  simp [since, h]

theorem since_append {w w' : World} (h : w.trace <:+ w'.trace) :
    since w w' ++ w.trace = w'.trace := by
  obtain ⟨l, hl⟩ := h
  rw [since_eq hl.symm, hl]

theorem since_trans {w₁ w₂ w₃ : World} (h : w₁.trace <:+ w₂.trace) (h' : w₂.trace <:+ w₃.trace) :
    since w₁ w₃ = since w₂ w₃ ++ since w₁ w₂ := by
  apply since_eq
  rw [List.append_assoc, since_append h, since_append h']

@[simp] theorem since_self (w : World) : since w w = [] := by simp [since]

/-! ### Programs that perform only some operations -/

/-- The program performs only operations in `P`. -/
structure Only (P : Op → Prop) (p : M α) : Prop where
  holds : wp (fun (_ : Unit) _ _ => ()) (fun _ _ => True) (fun _ o => P o) p (fun _ _ => True) ()

namespace Only

variable {P P' : Op → Prop}

theorem pure (x : α) : Only P (pure x : M α) := ⟨trivial⟩

theorem raise (e : Exc) : Only P (Prog.raise e : M α) := ⟨trivial⟩

theorem lift (x : Except Exc α) : Only P (lift x) := by cases x <;> exact ⟨trivial⟩

theorem act {o : Op} (h : P o) : Only P (act o) := ⟨h, fun _ _ => trivial⟩

theorem mono {p : M α} (hp : Only P p) (h : ∀ o, P o → P' o) : Only P' p := by
  obtain ⟨hp⟩ := hp
  refine ⟨?_⟩
  induction p with
  | ret x => trivial
  | raise e => trivial
  | op o k ih => exact ⟨h o hp.1, fun r hr => ih r (hp.2 r hr)⟩

theorem bind {p : M α} {f : α → M β} (hp : Only P p) (hf : ∀ x, Only P (f x)) :
    Only P (p >>= f) := by
  refine ⟨wp_bind.2 (wp_mono (fun x g _ => ?_) hp.holds)⟩
  cases x with
  | ok x => exact (hf x).holds
  | error e => trivial

theorem attempt {p : M α} (hp : Only P p) : Only P (attempt p) := ⟨wp_attempt.2 hp.holds⟩

theorem ite {c : Prop} [Decidable c] {p q : M α} (hp : Only P p) (hq : Only P q) :
    Only P (if c then p else q) := by
  split_ifs <;> assumption

/-- A relation between worlds that every operation in `P` keeps is kept by the
run. -/
theorem exec {R : World → World → Prop} (hrefl : ∀ w, R w w)
    (htrans : ∀ {w₁ w₂ w₃}, R w₁ w₂ → R w₂ w₃ → R w₁ w₃)
    (hstep : ∀ w o, P o → R w (H o w).2) {p : M α} (hp : Only P p) (w : World) :
    R w (Prog.exec H p w).2 := by
  have hkeep : ∀ (_ : Unit) w' o, R w w' → P o → True ∧ R w (H o w').2 :=
    fun _ w' o hw' hP => ⟨trivial, htrans hw' (hstep w' o hP)⟩
  obtain ⟨_, _, hR⟩ := exec_wp (J := fun _ w' => R w w') hkeep hp.holds (hrefl w)
  exact hR

/-- Handlers that agree on the operations in `P` run the program alike. -/
theorem exec_congr {H' : (o : Op) → World → o.Res × World} (h : ∀ o, P o → H o = H' o) {p : M α}
    (hp : Only P p) (w : World) : Prog.exec H p w = Prog.exec H' p w := by
  obtain ⟨hp⟩ := hp
  induction p generalizing w with
  | ret x => rfl
  | raise e => rfl
  | op o k ih =>
    rw [exec_op, exec_op, h o hp.1]
    exact ih _ _ (hp.2 _ trivial)

/-- Every entry that a run adds to the history is an operation in `P`. -/
theorem since_exec (hH : Records H) {p : M α} (hp : Only P p) (w : World) :
    ∀ e ∈ Storage.since w (Prog.exec H p w).2, P e.1 := by
  suffices h : ∃ l, (Prog.exec H p w).2.trace = l ++ w.trace ∧ ∀ e ∈ l, P e.1 by
    obtain ⟨l, hl, hP⟩ := h
    rwa [since_eq hl]
  refine hp.exec (R := fun w w' => ∃ l, w'.trace = l ++ w.trace ∧ ∀ e ∈ l, P e.1)
    (fun w => ⟨[], rfl, by simp⟩) ?_ (fun w o ho => ?_) w
  · rintro w₁ w₂ w₃ ⟨l, hl, hP⟩ ⟨l', hl', hP'⟩
    refine ⟨l' ++ l, by rw [hl', hl, List.append_assoc], fun e he => ?_⟩
    exact (List.mem_append.1 he).elim (hP' e) (hP e)
  · obtain ⟨d, hd⟩ := hH o w
    refine ⟨[(o, d)], hd, fun e he => ?_⟩
    rwa [List.mem_singleton.1 he]

theorem since {p : M α} (hp : Only P p) (env : Env) (w : World) :
    ∀ e ∈ Storage.since w (Storage.run env p w).2, P e.1 :=
  hp.since_exec (handle_trace env) w

end Only

/-! ### Reading and writing -/

/-- An operation performed, with what became of its request. -/
abbrev Entry := Op × Delivery

/-- What an operation writes: the node, the key and the value. -/
def Op.writes : Op → Option (Address × Key × Value)
  | .put a k v | .rpc a (.put k v) | .rpc a (.putReplica k v) => some (a, k, v)
  | _ => none

/-- What an operation deletes: the node and the key. -/
def Op.deletes : Op → Option (Address × Key)
  | .delete a k | .rpc a (.delete k) | .rpc a (.deleteReplica k) => some (a, k)
  | _ => none

/-- The operation changes no store. -/
def Op.Reads : Op → Prop
  | .put .. | .delete .. => False
  | .rpc _ (.put ..) | .rpc _ (.delete _) => False
  | .rpc _ (.putReplica ..) | .rpc _ (.deleteReplica _) => False
  | _ => True

theorem Op.Reads.writes {o : Op} (h : o.Reads) : o.writes = none := by
  cases o with
  | put a k v => exact h.elim
  | rpc a r => cases r <;> first | rfl | exact h.elim
  | _ => rfl

theorem Op.Reads.deletes {o : Op} (h : o.Reads) : o.deletes = none := by
  cases o with
  | delete a k => exact h.elim
  | rpc a r => cases r <;> first | rfl | exact h.elim
  | _ => rfl

theorem Op.deletes_of_writes {o : Op} {x : Address × Key × Value} (h : o.writes = some x) :
    o.deletes = none := by
  cases o with
  | put a k v => rfl
  | rpc a r => cases r <;> first | rfl | cases h
  | _ => cases h

/-- An operation that writes nothing and deletes nothing reads. -/
theorem Op.reads_of_none {o : Op} (hw : o.writes = none) (hd : o.deletes = none) : o.Reads := by
  cases o with
  | put a k v => cases hw
  | delete a k => cases hd
  | rpc a r =>
    cases r with
    | put k v => cases hw
    | putReplica k v => cases hw
    | delete k => cases hd
    | deleteReplica k => cases hd
    | _ => trivial
  | _ => trivial

theorem handle_writes {k : Key} {v : Value} {a : Address} {o : Op}
    (h : o.writes = some (a, k, v)) (env : Env) (w : World) :
    ∃ d, (handle env o w).2.trace = (o, d) :: w.trace ∧
      (handle env o w).2.stores = if d = .lost then w.stores else w.stores.put a k v := by
  cases o with
  | put b k' u =>
    obtain ⟨rfl, rfl, rfl⟩ : b = a ∧ k' = k ∧ u = v := by simpa [Op.writes] using h
    exact ⟨.delivered, rfl, rfl⟩
  | rpc b r =>
    cases r with
    | put k' u =>
      obtain ⟨rfl, rfl, rfl⟩ : b = a ∧ k' = k ∧ u = v := by simpa [Op.writes] using h
      exact ⟨_, rfl, rfl⟩
    | putReplica k' u =>
      obtain ⟨rfl, rfl, rfl⟩ : b = a ∧ k' = k ∧ u = v := by simpa [Op.writes] using h
      exact ⟨_, rfl, rfl⟩
    | _ => simp [Op.writes] at h
  | _ => simp [Op.writes] at h

theorem handle_deletes {k : Key} {a : Address} {o : Op} (h : o.deletes = some (a, k)) (env : Env)
    (w : World) :
    ∃ d, (handle env o w).2.trace = (o, d) :: w.trace ∧
      (handle env o w).2.stores = if d = .lost then w.stores else w.stores.delete a k := by
  cases o with
  | delete b k' =>
    obtain ⟨rfl, rfl⟩ : b = a ∧ k' = k := by simpa [Op.deletes] using h
    exact ⟨.delivered, rfl, rfl⟩
  | rpc b r =>
    cases r with
    | delete k' =>
      obtain ⟨rfl, rfl⟩ : b = a ∧ k' = k := by simpa [Op.deletes] using h
      exact ⟨_, rfl, rfl⟩
    | deleteReplica k' =>
      obtain ⟨rfl, rfl⟩ : b = a ∧ k' = k := by simpa [Op.deletes] using h
      exact ⟨_, rfl, rfl⟩
    | _ => simp [Op.deletes] at h
  | _ => simp [Op.deletes] at h

theorem handle_reads {o : Op} (h : o.Reads) (env : Env) (w : World) :
    (handle env o w).2.stores = w.stores := by
  cases o with
  | put a k v => exact h.elim
  | delete a k => exact h.elim
  | rpc a r =>
    cases r with
    | getState => exact ite_self _
    | get k => exact ite_self _
    | getReplica k => exact ite_self _
    | _ => exact h.elim
  | _ => rfl

/-- A program that only reads leaves every store as it is. -/
theorem Only.stores {p : M α} (hp : Only Op.Reads p) (env : Env) (w : World) :
    (Storage.run env p w).2.stores = w.stores :=
  hp.exec (R := fun w w' => w'.stores = w.stores) (fun _ => rfl) (fun h h' => h'.trans h)
    (fun w _ h => handle_reads h env w) w

namespace Only

variable {P : Op → Prop} {a : Address} {r : Request} {visit : NodeRef → M Bool}

theorem requestTries (h : P (.rpc a r)) (n : ℕ) : Only P (Transport.requestTries a r n) := by
  induction n with
  | zero => exact raise _
  | succ n ih =>
    refine bind (act h) fun reply => ?_
    cases reply with
    | some x => exact pure _
    | none => exact ih

theorem request (h : P (.rpc a r)) : Only P (Transport.request a r) := requestTries h _

theorem chainFrom (h : ∀ a, P (.rpc a .getState)) (visited : List Address) (current : NodeRef)
    (n : ℕ) : Only P (Replication.chainFrom visited current n) := by
  induction n generalizing visited current with
  | zero => exact pure _
  | succ n ih =>
    unfold Replication.chainFrom
    refine ite (pure _) (bind (attempt (request (h _))) fun state => ?_)
    split
    · exact ite (pure _) (bind (ih _ _) fun _ => pure _)
    · exact pure _

theorem getReplicas (h : ∀ a, P (.rpc a .getState)) (k : ℕ) (primary : NodeRef) :
    Only P (Replication.getReplicas k primary) :=
  bind (chainFrom h _ _ _) fun _ => pure _

theorem requestWithRetry (h : P (.rpc a r)) (n : ℕ) :
    Only P (Replication.requestWithRetry a r n) := by
  induction n with
  | zero => exact pure _
  | succ n ih =>
    refine bind (attempt (request h)) fun reply => ?_
    cases reply with
    | ok x => exact pure _
    | error e => exact ih

theorem visitAll (h : ∀ n, Only P (visit n)) (replicas : List NodeRef) :
    Only P (Replication.visitAll visit replicas) := by
  induction replicas with
  | nil => exact pure _
  | cons n replicas ih => exact bind (h n) fun _ => bind ih fun _ => pure _

theorem replicateWith (hstate : ∀ a, P (.rpc a .getState)) (h : ∀ n, Only P (visit n)) (k : ℕ)
    (primary : NodeRef) : Only P (Replication.replicateWith k visit primary) :=
  bind (getReplicas hstate _ _) fun _ => bind (visitAll h _) fun _ => pure _

theorem readFromReplicas {key : Key} (hstate : ∀ a, P (.rpc a .getState))
    (hread : ∀ a, P (.rpc a (.getReplica key))) (k : ℕ) (primary : NodeRef) :
    Only P (Replication.readFromReplicas k key primary) := by
  refine bind (getReplicas hstate _ _) fun replicas => ?_
  induction replicas with
  | nil => exact pure _
  | cons n replicas ih =>
    refine bind (attempt (request (hread _))) fun reply => ?_
    split
    · exact pure _
    · exact ih

theorem orReplicas {P : Op → Prop} {replicas : M (Option Value)} (h : Only P replicas)
    (value : Option Value) (enough : Bool) :
    Only P (Replication.orReplicas value enough replicas) :=
  ite (pure _) h

theorem tryGetOnNode {s : Service} {key : Key} (hlocal : P (.get s.node.address key))
    (hread : ∀ a, P (.rpc a (.get key))) (nodeRef : NodeRef) :
    Only P (s.tryGetOnNode nodeRef key) := by
  refine bind (attempt (ite (act hlocal) (request (hread _)))) fun reply => ?_
  cases reply <;> exact pure _

theorem putTries {s : Service} {key : Key} {v : Value} (howner : P (.findSuccessor s.node.address key))
    (hput : ∀ a, P (.rpc a (.put key v))) (n : ℕ) (nodeRef : NodeRef) :
    Only P (s.putTries key v n nodeRef) := by
  induction n generalizing nodeRef with
  | zero => exact request (hput _)
  | succ n ih =>
    refine bind (attempt (request (hput _))) fun reply => ?_
    cases reply with
    | ok x => exact pure _
    | error e => exact bind (act howner) fun _ => ih _

theorem putOnNode {s : Service} {key : Key} {v : Value}
    (howner : P (.findSuccessor s.node.address key)) (hlocal : P (.put s.node.address key v))
    (hput : ∀ a, P (.rpc a (.put key v))) (nodeRef : NodeRef) :
    Only P (s.putOnNode nodeRef key v) :=
  ite (act hlocal) (putTries howner hput _ _)

theorem getTask (s : Service) (taskId : Json) (allowReplicaRead : Bool) :
    Only Op.Reads (TaskService.getTask s taskId allowReplicaRead) :=
  bind (lift _) fun _ => bind (act trivial) fun _ =>
    bind (tryGetOnNode trivial (fun _ => trivial) _) fun _ =>
      bind (orReplicas (readFromReplicas (fun _ => trivial) (fun _ => trivial) _ _) _ _)
        fun _ => pure _

theorem existingTask (s : Service) (taskId : String) :
    Only Op.Reads (TaskService.existingTask s taskId) := by
  unfold TaskService.existingTask
  refine bind (getTask _ _ _) fun existing => ?_
  cases existing with
  | some record => exact pure _
  | none => exact raise _

end Only

end Run

/-! ### A ring of three nodes -/

/-- The world before anything happened. -/
def World.empty : World :=
  ⟨fun _ => .empty, fun _ _ => false, fun _ => .init 10000, fun _ => .init, fun _ => .init, []⟩

namespace ThreeNodes

def nodeA : NodeRef := ⟨10, "a"⟩
def nodeB : NodeRef := ⟨20, "b"⟩
def nodeC : NodeRef := ⟨30, "c"⟩

def services (n : NodeRef) : Service := .standard n

/-- A ring of `nodeA`, `nodeB` and `nodeC` in this order, of which the first owns
every key; `deliver` says what becomes of each request. -/
def env (deliver : ℕ → Address → Request → Delivery) : Env where
  deliver
  deliverCall _ _ _ := .delivered
  findSuccessor _ _ _ := nodeA
  successor _ a := if a = "a" then some nodeB else if a = "b" then some nodeC else some nodeA
  now _ := 0
  newId _ := "fresh"
  execute _ _ := .ok ⟨0, "", "", 0, false⟩

/-- A task input with the id `t`. -/
def taskInput : Fields :=
  ⟨[("task_id", .str "t"), ("job_id", .str "job"), ("type", .str "type"), ("payload", .null)],
    by decide⟩

end ThreeNodes

end Storage
end ChordInfra
