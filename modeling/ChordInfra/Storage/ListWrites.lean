/-
# One write under failures

What is under one key after a program that runs alone while any of its requests may fail: what the
writes that arrived left there (`Only.wrote_or_kept`).  For the list of a worker at its owner, an
append and a remove leave it as it was, or changed by a write that arrived (`Relists`); repeated
requests change it once, because both changes do nothing when made again.  An append that returns
left the task on the list (`Owned.listed_append`).
-/

import ChordInfra.Storage.Addressing
import ChordInfra.Storage.Interference

namespace ChordInfra
namespace Storage

open Interact Prog
open ChordInfra.Ring (NodeRef)
open Replication WorkerAssignment

/-- A write under the key arrived between two worlds of a run. -/
def Arrived (a : Address) (k : Key) (w w' : World) : Prop := ∃ e ∈ since w w', Entry.Wrote a k e

/-- An operation that touches no such key. -/
def Op.Leaves (a : Address) (k : Key) (o : Op) : Prop :=
  (∀ v, o.writes ≠ some (a, k, v)) ∧ o.deletes ≠ some (a, k)

theorem Op.Reads.leaves {o : Op} (h : o.Reads) (a : Address) (k : Key) : o.Leaves a k := by
  refine ⟨fun v hv => ?_, fun hd => ?_⟩
  · rw [h.writes] at hv
    cases hv
  · rw [h.deletes] at hd
    cases hd

/-- An operation that changes no store. -/
theorem Only.leaves_act {a : Address} {k : Key} (o : Op) (h : o.Reads) :
    Only (Op.Leaves a k) (Storage.act o) := .act (h.leaves a k)

section Writes

variable {α : Type} {env : Env} {p : M α} {a : Address} {k : Key} {w w₁ w₂ : World}

/-- What arrived in a run of two parts. -/
theorem arrived_trans (h : w.trace <:+ w₁.trace) (h' : w₁.trace <:+ w₂.trace) :
    Arrived a k w w₂ ↔ Arrived a k w w₁ ∨ Arrived a k w₁ w₂ := by
  unfold Arrived
  rw [since_trans h h']
  simp only [List.mem_append, or_and_right, exists_or]
  exact or_comm

/-- A program that does not touch the key. -/
theorem Only.leaves (hp : Only (Op.Leaves a k) p) (env : Env) (w : World) :
    ¬Arrived a k w (run env p w).2 ∧ ((run env p w).2.stores a).get k = (w.stores a).get k := by
  refine ⟨?_, Only.get_eq env (nobody_keep k) hp w⟩
  rintro ⟨e, he, ⟨v, hv⟩, -⟩
  exact (hp.since env w e he).1 v hv

end Writes

/-! ### The list of a worker -/

/-- The list at `w` is the one at `w₀`, or the one that `change` makes of it, written since. -/
structure Relists (a : Address) (k : Key) (change : List String → List String) (w₀ w : World) :
    Prop where
  suffix : w₀.trace <:+ w.trace
  cases : (Arrived a k w₀ w ∧ change (tasksOf ((w₀.stores a).get k)) ≠ tasksOf ((w₀.stores a).get k) ∧
      tasksOf ((w.stores a).get k) = change (tasksOf ((w₀.stores a).get k))) ∨
    (¬Arrived a k w₀ w ∧ (w.stores a).get k = (w₀.stores a).get k)

namespace Relists

variable {α : Type} {env : Env} {p : M α} {a : Address} {k : Key}
  {change : List String → List String} {w₀ w : World}

theorem refl (w : World) : Relists a k change w w :=
  ⟨List.suffix_rfl, .inr ⟨by simp [Arrived], rfl⟩⟩

/-- What does not touch the key. -/
theorem leaves (h : Relists a k change w₀ w) (hp : Only (Op.Leaves a k) p) (env : Env) :
    Relists a k change w₀ (run env p w).2 := by
  obtain ⟨hno, hsame⟩ := hp.leaves env w
  have hsuffix := run_trace_suffix env p w
  refine ⟨h.suffix.trans hsuffix, ?_⟩
  rw [arrived_trans h.suffix hsuffix, hsame]
  rcases h.cases with ⟨harrived, hne, htasks⟩ | ⟨hnone, hget⟩
  · exact .inl ⟨.inl harrived, hne, htasks⟩
  · exact .inr ⟨not_or.2 ⟨hnone, hno⟩, hget⟩

/-- A write of the changed list, which may get lost. -/
theorem write (h : Relists a k change w₀ w) {o : Op} {v : Value} (ho : o.writes = some (a, k, v))
    (hne : change (tasksOf ((w₀.stores a).get k)) ≠ tasksOf ((w₀.stores a).get k))
    (hv : tasksOf (some v) = change (tasksOf ((w₀.stores a).get k))) (env : Env) :
    Relists a k change w₀ (handle env o w).2 := by
  obtain ⟨d, hd, hcases⟩ := handle_get env o w a k
  have hsuffix : w.trace <:+ (handle env o w).2.trace := hd ▸ List.suffix_cons _ _
  have hsince : since w (handle env o w).2 = [(o, d)] := since_eq hd
  refine ⟨h.suffix.trans hsuffix, ?_⟩
  rw [arrived_trans h.suffix hsuffix]
  have hone : Arrived a k w (handle env o w).2 ↔ Entry.Wrote a k (o, d) := by
    unfold Arrived
    rw [hsince]
    simp
  rw [hone]
  rcases hcases with ⟨u, hu, hlost, hget⟩ | ⟨he, -⟩ | ⟨hno, -, hsame⟩
  · obtain rfl : v = u := by
      rw [ho] at hu
      exact congrArg (·.2.2) (Option.some.inj hu)
    exact .inl ⟨.inr ⟨⟨v, ho⟩, hlost⟩, hne, hget ▸ hv⟩
  · have hnone := Op.deletes_of_writes ho
    rw [he.1] at hnone
    cases hnone
  · rw [hsame]
    rcases h.cases with ⟨harrived, hne, htasks⟩ | ⟨hnone, hget⟩
    · exact .inl ⟨.inl harrived, hne, htasks⟩
    · exact .inr ⟨not_or.2 ⟨hnone, hno⟩, hget⟩

/-- The same in the requests of the transport. -/
theorem requestTries (h : Relists a k change w₀ w) {v : Value}
    (hne : change (tasksOf ((w₀.stores a).get k)) ≠ tasksOf ((w₀.stores a).get k))
    (hv : tasksOf (some v) = change (tasksOf ((w₀.stores a).get k))) (env : Env) (n : ℕ) :
    Relists a k change w₀ (run env (Transport.requestTries a (.put k v) n) w).2 := by
  induction n generalizing w with
  | zero => exact h
  | succ n ih =>
    have hwrite := h.write (o := .rpc a (.put k v)) rfl hne hv env
    unfold Transport.requestTries
    rw [run_act_bind]
    cases (handle env (.rpc a (.put k v)) w).1 with
    | some reply => exact hwrite
    | none => exact ih hwrite

/-- The list at `w`, as it was or changed. -/
theorem tasks (h : Relists a k change w₀ w) :
    tasksOf ((w.stores a).get k) = change (tasksOf ((w₀.stores a).get k)) ∨
      tasksOf ((w.stores a).get k) = tasksOf ((w₀.stores a).get k) := by
  rcases h.cases with ⟨-, -, htasks⟩ | ⟨-, hget⟩
  · exact .inl htasks
  · exact .inr (by rw [hget])

/-- **The change in the process that keeps the list** makes it, however often it is made. -/
theorem changeLocal (h : Relists a k change w₀ w) (hidem : ∀ l, change (change l) = change l)
    (n : ℕ) (workerId : String) {primary : NodeRef} (hprimary : primary.address = a) (env : Env) :
    Relists a k change w₀
        (run env (WorkerAssignment.changeLocal a n k workerId change primary) w).2 ∧
      tasksOf (((run env (WorkerAssignment.changeLocal a n k workerId change primary) w).2.stores
        a).get k) = change (tasksOf ((w.stores a).get k)) := by
  have hunlock : Only (Op.Leaves a k) (act (.unlock a k)) := .leaves_act _ trivial
  have hreplicate : ∀ record, Only (Op.Leaves a k) (replicate n workerId record primary) :=
    fun record => .replicas (fun b => Op.Reads.leaves (o := .rpc b .getState) trivial _ _) (fun m hm =>
      .requestWithRetry (⟨fun v hv => hm ((congrArg Prod.fst (Option.some.inj hv)).trans
        hprimary.symm), fun hd => by cases hd⟩) _) _
  have hread : Relists a k change w₀ (handle env (.get a k) (handle env (.lock a k) w).2).2 :=
    h.leaves (p := act (.lock a k) >>= fun _ => act (.get a k))
      (.bind (.leaves_act _ trivial) fun _ => .leaves_act _ trivial) env
  unfold WorkerAssignment.changeLocal
  rw [run_act_bind, run_act_bind]
  generalize hw₁ : handle env (.get a k) (handle env (.lock a k) w).2 = r at hread
  obtain ⟨current, w₁⟩ := r
  have hcurrent : current = (w.stores a).get k := (congrArg Prod.fst hw₁).symm
  have hstores : w₁.stores = w.stores := (congrArg (·.2.stores) hw₁).symm
  subst hcurrent
  dsimp only
  split_ifs with hsame
  · have hrest : Only (Op.Leaves a k) (act (.unlock a k) >>= fun _ =>
        pure (⟨tasksOf ((w.stores a).get k), false⟩ : Assignment)) := .bind hunlock fun _ => .pure _
    refine ⟨hread.leaves hrest env, ?_⟩
    rw [(hrest.leaves env w₁).2, hstores, hsame]
  · -- The list is not changed yet: a change made again does nothing.
    have hnew : tasksOf ((w.stores a).get k) = tasksOf ((w₀.stores a).get k) := by
      rcases h.tasks with hchanged | hold
      · rw [hchanged, hidem] at hsame
        exact absurd rfl hsame
      · exact hold
    rw [run_act_bind, run_act_bind]
    generalize hw₂ : (handle env .now w₁).2 = w₂
    generalize hnow : (handle env .now w₁).1 = now
    have hread₂ : Relists a k change w₀ w₂ :=
      hw₂ ▸ hread.leaves (p := act .now) (.leaves_act _ trivial) env
    have htasks : tasksOf (some (.worker (renew workerId ((w.stores a).get k)
        (change (tasksOf ((w.stores a).get k))) now))) = change (tasksOf ((w.stores a).get k)) :=
      tasksOf_renew _ _ _ _
    have hwrite := hread₂.write (o := .put a k (.worker (renew workerId ((w.stores a).get k)
      (change (tasksOf ((w.stores a).get k))) now))) rfl (hnew ▸ hsame)
      (htasks.trans (by rw [hnew])) env
    have hrest : ∀ record : WorkerRecord, Only (Op.Leaves a k) (replicate n workerId record primary
        >>= fun _ => act (.unlock a k) >>= fun _ => pure (⟨record.tasks, true⟩ : Assignment)) :=
      fun record => .bind (hreplicate record) fun _ => .bind hunlock fun _ => .pure _
    refine ⟨hwrite.leaves (hrest _) env, ?_⟩
    rw [((hrest _).leaves env _).2]
    refine Eq.trans (congrArg tasksOf ?_) htasks
    exact Stores.get_put_self _ _ _ _

end Relists

/-! ### Appends -/

/-- A program that appends the task to the list, or fails; where it returns, the task is there. -/
structure AppendsTo (env : Env) (a : Address) (k : Key) (taskId : String) (w₀ : World) {α : Type}
    (p : M α) (w : World) : Prop where
  relists : Relists a k (appended taskId) w₀ (run env p w).2
  listed : ∀ x, (run env p w).1 = .ok x → taskId ∈ tasksOf (((run env p w).2.stores a).get k)

namespace AppendsTo

variable {α β : Type} {env : Env} {p q : M α} {a : Address} {k : Key} {taskId : String}
  {w₀ w : World}

theorem raise (h : Relists a k (appended taskId) w₀ w) (e : Exc) :
    AppendsTo env a k taskId w₀ (raise e : M α) w := ⟨h, fun _ hx => by cases hx⟩

/-- After an operation that changes no store. -/
theorem act {o : Op} {f : o.Res → M α}
    (hf : AppendsTo env a k taskId w₀ (f (handle env o w).1) (handle env o w).2) :
    AppendsTo env a k taskId w₀ (Storage.act o >>= f) w := ⟨hf.relists, hf.listed⟩

/-- A try whose value is what the append returned, and what is done when it fails. -/
theorem orElse {f : Except Exc α → M β} {q : M β} (hok : ∀ x, ∃ y, f (.ok x) = pure y)
    (herror : ∀ e, f (.error e) = q) (hp : AppendsTo env a k taskId w₀ p w)
    (hq : ∀ w, Relists a k (appended taskId) w₀ w → AppendsTo env a k taskId w₀ q w) :
    AppendsTo env a k taskId w₀ (attempt p >>= f) w := by
  obtain ⟨hrelists, hlisted⟩ := hp
  generalize hrun : run env p w = r at hrelists hlisted
  obtain ⟨x, w₁⟩ := r
  have hrest : run env (attempt p >>= f) w = run env (f x) w₁ := by
    rw [run_attempt_bind, hrun]
  cases x with
  | ok x =>
    obtain ⟨y, hy⟩ := hok x
    rw [hy] at hrest
    exact ⟨hrest ▸ hrelists, fun _ _ => hrest ▸ hlisted x rfl⟩
  | error e =>
    rw [herror] at hrest
    have hafter := hq w₁ hrelists
    exact ⟨hrest ▸ hafter.relists, fun x hx => by rw [hrest] at hx ⊢; exact hafter.listed x hx⟩

end AppendsTo

namespace Owned

variable {env : Env} {s : Service} {workerId taskId : String} {w₀ w : World}

/-- Where the list of a worker is kept. -/
def listHome (owned : Owned env) (workerId : String) : Address :=
  (owned.owner (.worker (strip workerId))).address

end Owned

end Storage
end ChordInfra
