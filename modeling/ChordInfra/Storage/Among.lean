/-
# Services among others

A program that runs among others may be answered anything, so what is known of
it is what it does and what it ends with whatever it is answered.  `Yields` says
the second of programs that never raise; with `Only` it gives the rule for the
parts of a program that its ghost state takes no notice of (`Only.wp_bind`), such
as the copies of a record: they are put on other nodes than the owner
(`Only.replicas`), and no failure of theirs is an error (`Yields.replicateWith`).
-/

import ChordInfra.Storage.Run

namespace ChordInfra
namespace Storage

open Interact Prog
open ChordInfra.Ring (NodeRef)

variable {α β : Type} {φ : α → Prop} {ψ : β → Prop}

/-- Whatever it is answered, the program ends with a value in `φ`. -/
structure Yields (φ : α → Prop) (p : M α) : Prop where
  holds : wp (fun (_ : Unit) _ _ => ()) (fun _ _ => True) (fun _ _ => True) p
    (fun x _ => ∃ a, x = .ok a ∧ φ a) ()

namespace Yields

theorem pure {a : α} (h : φ a) : Yields φ (pure a : M α) := ⟨a, rfl, h⟩

theorem act (o : Op) : Yields (fun _ => True) (act o) := ⟨True.intro, fun r _ => ⟨r, rfl, True.intro⟩⟩

theorem bind {p : M α} {f : α → M β} (hp : Yields φ p) (hf : ∀ a, φ a → Yields ψ (f a)) :
    Yields ψ (p >>= f) := by
  refine ⟨wp_bind.2 (wp_mono (fun x g hx => ?_) hp.holds)⟩
  obtain ⟨a, rfl, ha⟩ := hx
  exact (hf a ha).holds

/-- A `try` ends with a value, whatever is tried. -/
theorem attempt (p : M α) : Yields (fun _ => True) (attempt p) := by
  refine ⟨?_⟩
  induction p with
  | ret a => exact ⟨_, rfl, True.intro⟩
  | raise e => exact ⟨_, rfl, True.intro⟩
  | op o k ih => exact ⟨True.intro, fun r _ => ih r⟩

theorem ite {c : Prop} [Decidable c] {p q : M α} (hp : Yields φ p) (hq : Yields φ q) :
    Yields φ (if c then p else q) := by
  split_ifs <;> assumption

/-- Run on any world, the program ends with such a value. -/
theorem exec {p : M α} (hp : Yields φ p) (H : (o : Op) → World → o.Res × World) (w : World) :
    ∃ a, (Prog.exec H p w).1 = .ok a ∧ φ a := by
  obtain ⟨hp⟩ := hp
  induction p generalizing w with
  | ret a => exact hp
  | raise e => exact hp
  | op o k ih => exact ih _ _ (hp.2 _ True.intro)

end Yields

theorem lift_ok_bind (a : α) (f : α → M β) : (lift (.ok a) >>= f) = f a := rfl

section Wp

variable {G : Type} {note : G → (o : Op) → o.Res → G} {A : (o : Op) → o.Res → Prop}
  {P : G → Op → Prop} {S : Op → Prop} {p : M α} {g : G}

/-- What the ghost state takes no notice of: operations that are always allowed
and never noted leave the ghost state as it is. -/
theorem Only.wp (hp : Only S p) (hS : ∀ o, S o → ∀ g, P g o ∧ ∀ r, note g o r = g) :
    wp note A P p (fun _ g' => g' = g) g := by
  obtain ⟨hp⟩ := hp
  induction p with
  | ret a => rfl
  | raise e => rfl
  | op o k ih =>
    refine ⟨(hS o hp.1 g).1, fun r _ => ?_⟩
    rw [(hS o hp.1 g).2 r]
    exact ih r (hp.2 r True.intro)

/-- What a program ends with whatever it is answered, it ends with under `wp`. -/
theorem Yields.wp_and {Q : Except Exc α → G → Prop} (hy : Yields φ p)
    (hp : Prog.wp note A P p Q g) :
    Prog.wp note A P p (fun x g' => Q x g' ∧ ∃ a, x = .ok a ∧ φ a) g := by
  obtain ⟨hy⟩ := hy
  induction p generalizing g with
  | ret a => exact ⟨hp, hy⟩
  | raise e => exact ⟨hp, hy⟩
  | op o k ih => exact ⟨hp.1, fun r hr => ih r (hp.2 r hr) (hy.2 r True.intro)⟩

/-- Such operations before the rest of a program. -/
theorem Only.wp_bind {f : α → M β} {Q : Except Exc β → G → Prop} (hp : Only S p)
    (hy : Yields φ p) (hS : ∀ o, S o → ∀ g, P g o ∧ ∀ r, note g o r = g)
    (hf : ∀ a, φ a → Prog.wp note A P (f a) Q g) : Prog.wp note A P (p >>= f) Q g := by
  refine Prog.wp_bind.2 (wp_mono (fun x g' hx => ?_) (hy.wp_and (hp.wp hS)))
  obtain ⟨rfl, a, rfl, ha⟩ := hx
  exact hf a ha

/-- The rule of sequencing for `Only`, with what the first part ends with. -/
theorem Only.bind_of_yields {f : α → M β} (hp : Only S p) (hy : Yields φ p)
    (hf : ∀ a, φ a → Only S (f a)) : Only S (p >>= f) :=
  ⟨hp.wp_bind hy (fun _ ho _ => ⟨ho, fun _ => rfl⟩) fun a ha => (hf a ha).holds⟩

/-- A request that is answered. -/
theorem wp_request {a : Address} {r : Request} {Q : Except Exc r.Reply → G → Prop}
    (hA : ∀ x : Option r.Reply, A (.rpc a r) x → x.isSome = true) (hP : P g (.rpc a r))
    (hQ : ∀ x : r.Reply, A (.rpc a r) (some x) → Q (.ok x) (note g (.rpc a r) (some x))) :
    Prog.wp note A P (Transport.request a r) Q g := by
  refine ⟨hP, fun x hx => ?_⟩
  cases x with
  | none => cases hA none hx
  | some x => exact hQ x hx

/-- A call that is answered, of a handler that does not raise. -/
theorem wp_call {a : Address} {c : Call} {handler : M α} {Q : Except Exc α → G → Prop}
    (hA : ∀ d : Delivery, A (.deliver a c) d → d = .delivered)
    (hS : P g (.deliver a c) ∧ ∀ d : Delivery, note g (.deliver a c) d = g)
    (h : Prog.wp note A P handler (fun x g' => Q x g' ∧ ∃ y, x = .ok y) g) :
    Prog.wp note A P (Transport.call a c handler) Q g := by
  refine wp_perform_bind.2 ⟨hS.1, fun d hd => ?_⟩
  rw [hS.2 d, hA d hd]
  refine Prog.wp_bind.2 (wp_attempt.2 (wp_mono (fun x g' hx => ?_) h))
  obtain ⟨hQ, y, rfl⟩ := hx
  exact hQ

end Wp

/-! ### The replicas -/

open Replication

theorem Yields.chainFrom (visited : List Address) (current : NodeRef) (n : ℕ) :
    Yields (fun l => ∀ m ∈ l, m.address ∉ visited) (chainFrom visited current n) := by
  induction n generalizing visited current with
  | zero => exact .pure (by simp)
  | succ n ih =>
    unfold Replication.chainFrom
    split_ifs with hv
    · exact .pure (by simp)
    · refine .bind (.attempt _) fun state _ => ?_
      split
      · refine .ite (.pure (by simpa using hv)) (.bind (ih _ _) fun rest hrest => .pure ?_)
        refine List.forall_mem_cons.2 ⟨hv, fun m hm => ?_⟩
        exact fun hmem => hrest m hm (List.mem_cons_of_mem _ hmem)
      · exact .pure (by simpa using hv)

/-- The replicas of a node are other nodes. -/
theorem Yields.getReplicas (k : ℕ) (primary : NodeRef) :
    Yields (fun l => ∀ m ∈ l, m.address ≠ primary.address) (getReplicas k primary) := by
  suffices h : Yields (fun l => ∀ m ∈ l.tail, m.address ≠ primary.address)
      (getSuccessorChain k primary) from h.bind fun _ hl => .pure hl
  obtain ⟨n, hn⟩ : ∃ n, max 1 k = n + 1 := ⟨max 1 k - 1, by omega⟩
  unfold getSuccessorChain
  rw [hn]
  unfold Replication.chainFrom
  refine .ite (.pure (by simp)) (.bind (.attempt _) fun state _ => ?_)
  split
  · refine .ite (.pure (by simp)) (.bind (.chainFrom _ _ _) fun rest hrest => .pure ?_)
    exact fun m hm he => hrest m hm (he ▸ List.mem_cons_self)
  · exact .pure (by simp)

theorem Yields.requestWithRetry (a : Address) (r : Request) (n : ℕ) :
    Yields (fun _ => True) (requestWithRetry a r n) := by
  induction n with
  | zero => exact .pure True.intro
  | succ n ih =>
    refine .bind (.attempt _) fun reply _ => ?_
    cases reply with
    | ok x => exact .pure True.intro
    | error e => exact ih

theorem Yields.visitAll {visit : NodeRef → M Bool} (h : ∀ n, Yields (fun _ => True) (visit n))
    (replicas : List NodeRef) : Yields (fun _ => True) (visitAll visit replicas) := by
  induction replicas with
  | nil => exact .pure True.intro
  | cons n replicas ih => exact (h n).bind fun _ _ => ih.bind fun _ _ => .pure True.intro

/-- No failure of a replica is an error of the write. -/
theorem Yields.replicateWith {visit : NodeRef → M Bool}
    (h : ∀ n, Yields (fun _ => True) (visit n)) (k : ℕ) (primary : NodeRef) :
    Yields (fun _ => True) (replicateWith k visit primary) :=
  (Yields.getReplicas k primary).bind fun _ _ => (Yields.visitAll h _).bind fun _ _ =>
    .pure True.intro

/-- The change of a list never raises. -/
theorem Yields.changeLocal (a : Address) (k : ℕ) (key : Key) (workerId : String)
    (change : List String → List String) (primary : NodeRef) :
    Yields (fun _ => True)
      (WorkerAssignment.changeLocal a k key workerId change primary) := by
  refine .bind (.act (.lock a key)) fun _ _ => ?_
  refine .bind (.act (.get a key)) fun current _ => ?_
  refine .ite (.bind (.act (.unlock a key)) fun _ _ => .pure True.intro) ?_
  refine .bind (.act .now) fun now _ => ?_
  refine .bind (.act (.put a key _)) fun _ _ => ?_
  refine .bind (.replicateWith (fun _ => .requestWithRetry _ _ _) _ _) fun _ _ => ?_
  exact .bind (.act (.unlock a key)) fun _ _ => .pure True.intro

namespace Only

variable {S : Op → Prop} {visit : NodeRef → M Bool}

theorem visitAll_mem {replicas : List NodeRef} (h : ∀ n ∈ replicas, Only S (visit n)) :
    Only S (Replication.visitAll visit replicas) := by
  induction replicas with
  | nil => exact pure _
  | cons n replicas ih =>
    exact bind (h n List.mem_cons_self) fun _ =>
      bind (ih fun m hm => h m (List.mem_cons_of_mem _ hm)) fun _ => pure _

theorem callTries {a : Address} {c : Call} {handler : M α} (h : S (.deliver a c))
    (hh : Only S handler) (n : ℕ) : Only S (Transport.callTries a c handler n) := by
  induction n with
  | zero => exact raise _
  | succ n ih =>
    refine bind (act h) fun d => ?_
    cases d with
    | delivered =>
      refine bind (attempt hh) fun x => ?_
      cases x with
      | ok x => exact pure _
      | error e => exact raise _
    | lost => exact ih
    | replyLost => exact bind (attempt hh) fun _ => ih

/-- The visits of the replicas are visits of other nodes than the primary. -/
theorem replicas (hstate : ∀ a, S (.rpc a .getState)) {primary : NodeRef}
    (h : ∀ n : NodeRef, n.address ≠ primary.address → Only S (visit n)) (k : ℕ) :
    Only S (Replication.replicateWith k visit primary) :=
  bind_of_yields (getReplicas hstate k primary) (.getReplicas k primary) fun _ hl =>
    bind (visitAll_mem fun n hn => h n (hl n hn)) fun _ => pure _

/-- The key of a worker's list. -/
theorem workerKey {β : Type} {workerId : String} {f : Key → M β}
    (hf : Only S (f (.worker (strip workerId)))) :
    Only S (Storage.lift (buildWorkerKey workerId) >>= f) := by
  unfold buildWorkerKey
  split_ifs
  · exact raise _
  · exact hf

end Only

/-! ### Lists -/

/-- What is performed on the lists of the workers is in `P`. -/
structure Assigns (P : Op → Prop) : Prop where
  get : ∀ a v, P (.get a (.worker v))
  rpcGet : ∀ a v, P (.rpc a (.get (.worker v)))
  getReplica : ∀ a v, P (.rpc a (.getReplica (.worker v)))
  getState : ∀ a, P (.rpc a .getState)
  findSuccessor : ∀ a k, P (.findSuccessor a k)
  now : P .now
  lock : ∀ a k, P (.lock a k)
  unlock : ∀ a k, P (.unlock a k)
  deliver : ∀ a c, P (.deliver a c)
  writes : ∀ o a k r, o.writes = some (a, .worker k, .worker r) → P o

namespace Assigns

variable {P : Op → Prop} (h : Assigns P) {s : Service}

include h

theorem changeLocal (a : Address) (k : ℕ) (id workerId : String)
    (change : List String → List String) (primary : NodeRef) :
    Only P (WorkerAssignment.changeLocal a k (.worker id) workerId change primary) := by
  have hunlock : Only P (act (.unlock a (.worker id))) := .act (h.unlock _ _)
  refine .bind (.act (h.lock _ _)) fun _ => .bind (.act (h.get _ _)) fun current => ?_
  refine .ite (.bind hunlock fun _ => .pure _) (.bind (.act h.now) fun now => ?_)
  refine .bind (.act (h.writes _ _ _ _ rfl)) fun _ => .bind ?_ fun _ => .bind hunlock fun _ => .pure _
  exact .replicateWith h.getState (fun n => .requestWithRetry (h.writes _ _ _ _ rfl) _) _ _

theorem ownerOr (a : Address) (key : Key) (primary : Option NodeRef) :
    Only P (WorkerAssignment.ownerOr a key primary) := by
  cases primary with
  | some primary => exact .pure _
  | none => exact .act (h.findSuccessor _ _)

theorem appendLocal (a : Address) (k : ℕ) (workerId taskId : String) (primary : Option NodeRef) :
    Only P (WorkerAssignment.appendLocal a k workerId taskId primary) := by
  refine .workerKey ?_
  exact .bind (h.ownerOr _ _ _) fun _ => h.changeLocal _ _ _ _ _ _

theorem removeLocal (a : Address) (k : ℕ) (workerId taskId : String) (primary : Option NodeRef) :
    Only P (WorkerAssignment.removeLocal a k workerId taskId primary) := by
  refine .workerKey ?_
  exact .bind (h.ownerOr _ _ _) fun _ => h.changeLocal _ _ _ _ _ _

theorem appendTries (key : Key) (workerId taskId : String) (n : ℕ) (primary : NodeRef) :
    Only P (WorkerAssignment.appendTries s key workerId taskId
      (WorkerAssignment.asked s workerId taskId) n primary) := by
  have hhandle : ∀ a k, Only P (WorkerAssignment.handleAppend a k workerId taskId) := fun a k =>
    .ite (.raise _) (h.appendLocal _ _ _ _ _)
  induction n generalizing primary with
  | zero => exact .callTries (h.deliver _ _) (hhandle _ _) _
  | succ n ih =>
    refine .bind (.attempt (.callTries (h.deliver _ _) (hhandle _ _) _)) fun x => ?_
    cases x with
    | ok x => exact .pure _
    | error e => exact .bind (.act (h.findSuccessor _ _)) fun _ => ih _

theorem append (workerId taskId : String) : Only P (WorkerAssignment.append s workerId taskId) := by
  refine .workerKey ?_
  exact .bind (.act (h.findSuccessor _ _)) fun _ =>
    .ite (h.appendLocal _ _ _ _ _) (h.appendTries _ _ _ _ _)

theorem remove (workerId taskId : String) : Only P (WorkerAssignment.remove s workerId taskId) := by
  refine .workerKey ?_
  refine .bind (.act (h.findSuccessor _ _)) fun primary => .ite (h.removeLocal _ _ _ _ _) ?_
  refine .bind (.attempt (.request (h.rpcGet _ _))) fun answer => .ite (.pure _) ?_
  refine .bind (.act h.now) fun now => .bind (.attempt (.request ?_)) fun _ => .pure _
  exact h.writes _ _ _ _ rfl

theorem get_list (workerId : String) : Only P (WorkerAssignment.get s workerId) := by
  refine .workerKey ?_
  refine .bind (.act (h.findSuccessor _ _)) fun primary => ?_
  refine .bind (.tryGetOnNode (h.get _ _) (fun _ => h.rpcGet _ _) _) fun value => ?_
  refine .bind (.orReplicas ?_ _ _) fun _ => .pure _
  exact .readFromReplicas h.getState (fun _ => h.getReplica _ _) _ _

end Assigns

end Storage
end ChordInfra
