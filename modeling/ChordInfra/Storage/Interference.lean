/-
# A program and the others

Between two operations of a program other programs may change the world, except
what an assumption keeps from them (`Others`, `among`).  What a program leaves
under a key that the others do not touch follows from the entries that it adds
to the history: which of its writes and deletions arrived
(`Only.present_iff`, `Only.kept_iff`).
-/

import ChordInfra.Storage.Among

namespace ChordInfra
namespace Storage

open Interact Prog
open ChordInfra.Ring (NodeRef)

/-- What other programs do to the world before each operation of a program; the
history is the program's own. -/
structure Others where
  act : ℕ → World → World
  trace_act : ∀ t w, (act t w).trace = w.trace

/-- Nobody else. -/
def Others.nobody : Others := ⟨fun _ w => w, fun _ _ => rfl⟩

/-- An operation performed after what the others did. -/
def among (env : Env) (others : Others) (o : Op) (w : World) : o.Res × World :=
  handle env o (others.act w.trace.length w)

/-- A program run among others. -/
abbrev runAmong {α : Type} (env : Env) (others : Others) (p : M α) (w : World) :
    Except Exc α × World :=
  exec (among env others) p w

@[simp] theorem runAmong_act_bind {α : Type} (env : Env) (others : Others) (o : Op)
    (f : o.Res → M α) (w : World) :
    runAmong env others (act o >>= f) w =
      runAmong env others (f (among env others o w).1) (among env others o w).2 := rfl

section Bind

variable {α β : Type} {env : Env} {others : Others} {w w' : World} {p : M α} {f : α → M β}

theorem runAmong_bind_ok {x : α} (h : runAmong env others p w = (.ok x, w')) :
    runAmong env others (p >>= f) w = runAmong env others (f x) w' :=
  exec_bind_ok h

theorem runAmong_bind_error {e : Exc} (h : runAmong env others p w = (.error e, w')) :
    runAmong env others (p >>= f) w = (.error e, w') :=
  exec_bind_error h

/-- A sequence that ends with a value went through one of its first part. -/
theorem ok_of_runAmong_bind {y : β} (h : runAmong env others (p >>= f) w = (.ok y, w')) :
    ∃ x w₁, runAmong env others p w = (.ok x, w₁) ∧ runAmong env others (f x) w₁ = (.ok y, w') := by
  generalize hr : runAmong env others p w = r
  obtain ⟨x, w₁⟩ := r
  cases x with
  | ok x => exact ⟨x, w₁, rfl, (runAmong_bind_ok hr).symm.trans h⟩
  | error e =>
    rw [runAmong_bind_error hr] at h
    cases h

theorem runAmong_attempt_bind (f : Except Exc α → M β) :
    runAmong env others (attempt p >>= f) w =
      runAmong env others (f (runAmong env others p w).1) (runAmong env others p w).2 :=
  exec_attempt_bind p f w

end Bind

/-- A sequence that ends with a value went through one of its first part. -/
theorem ok_of_run_bind {α β : Type} {env : Env} {p : M α} {f : α → M β} {w w' : World} {y : β}
    (h : run env (p >>= f) w = (.ok y, w')) :
    ∃ x w₁, run env p w = (.ok x, w₁) ∧ run env (f x) w₁ = (.ok y, w') :=
  have hamong : runAmong env .nobody (p >>= f) w = (.ok y, w') := h
  ok_of_runAmong_bind hamong

theorem among_records (env : Env) (others : Others) : Records (among env others) := by
  intro o w
  obtain ⟨d, hd⟩ := handle_trace env o (others.act w.trace.length w)
  exact ⟨d, hd.trans (by rw [others.trace_act])⟩

theorem runAmong_suffix {α : Type} (env : Env) (others : Others) (p : M α) (w : World) :
    w.trace <:+ (runAmong env others p w).2.trace :=
  exec_trace_suffix (among_records env others) p w

/-- Every entry that a program adds to the history is an operation in `P`. -/
theorem Only.since_among {α : Type} {P : Op → Prop} {p : M α} (hp : Only P p) (env : Env)
    (others : Others) (w : World) :
    ∀ e ∈ Storage.since w (runAmong env others p w).2, P e.1 :=
  hp.since_exec (among_records env others) w

/-- What an operation and the rest of a program add to the history. -/
theorem since_act_bind {α : Type} (env : Env) (others : Others) (o : Op) (f : o.Res → M α)
    (w : World) :
    ∃ d, (among env others o w).2.trace = (o, d) :: w.trace ∧
      since w (runAmong env others (act o >>= f) w).2 =
        since (among env others o w).2 (runAmong env others (act o >>= f) w).2 ++ [(o, d)] := by
  obtain ⟨d, hd⟩ := among_records env others o w
  have hfirst : since w (among env others o w).2 = [(o, d)] := since_eq hd
  have hsuffix : w.trace <:+ (among env others o w).2.trace := by
    rw [hd]
    exact List.suffix_cons _ _
  have hrest := runAmong_suffix env others (f (among env others o w).1) (among env others o w).2
  exact ⟨d, hd, hfirst ▸ since_trans hsuffix hrest⟩

/-- The others leave what is kept under a key as it is. -/
def Others.Keep (others : Others) (k : Key) : Prop :=
  ∀ t w a, ((others.act t w).stores a).get k = (w.stores a).get k

theorem nobody_keep (key : Key) : Others.nobody.Keep key := fun _ _ _ => rfl

/-- The id is in a list of a worker that a node holds. -/
def World.Lists (w : World) (id : String) (a : Address) (v : String) : Prop :=
  id ∈ WorkerAssignment.tasksOf ((w.stores a).get (.worker v))

/-- The others leave it as it is whether the id is in a list. -/
def Others.KeepListing (others : Others) (id : String) : Prop :=
  ∀ t w a v, (others.act t w).Lists id a v ↔ w.Lists id a v

/-! ### One operation -/

/-- A write under the key that arrived. -/
def Entry.Wrote (a : Address) (k : Key) (e : Entry) : Prop :=
  (∃ v, e.1.writes = some (a, k, v)) ∧ e.2 ≠ .lost

/-- A deletion of the key that arrived. -/
def Entry.Erased (a : Address) (k : Key) (e : Entry) : Prop :=
  e.1.deletes = some (a, k) ∧ e.2 ≠ .lost

/-- What an operation does under one key. -/
theorem handle_get (env : Env) (o : Op) (w : World) (a : Address) (k : Key) :
    ∃ d, (handle env o w).2.trace = (o, d) :: w.trace ∧
      ((∃ v, o.writes = some (a, k, v) ∧ d ≠ .lost ∧
          ((handle env o w).2.stores a).get k = some v) ∨
        (Entry.Erased a k (o, d) ∧ ((handle env o w).2.stores a).get k = none) ∨
        (¬Entry.Wrote a k (o, d) ∧ ¬Entry.Erased a k (o, d) ∧
          ((handle env o w).2.stores a).get k = (w.stores a).get k)) := by
  cases hw : o.writes with
  | some x =>
    obtain ⟨b, k', v⟩ := x
    obtain ⟨d, hd, hstores⟩ := handle_writes hw env w
    have hno := Op.deletes_of_writes hw
    refine ⟨d, hd, ?_⟩
    rw [hstores]
    by_cases hd' : d = .lost
    · refine .inr (.inr ⟨fun h => h.2 hd', fun h => h.2 hd', ?_⟩)
      rw [if_pos hd']
    · rw [if_neg hd', Stores.get_put]
      by_cases hab : a = b ∧ k = k'
      · obtain ⟨rfl, rfl⟩ := hab
        exact .inl ⟨v, rfl, hd', if_pos ⟨rfl, rfl⟩⟩
      · refine .inr (.inr ⟨?_, ?_, if_neg hab⟩)
        · rintro ⟨⟨v', hv'⟩, -⟩
          rw [hw, Option.some.injEq, Prod.mk.injEq, Prod.mk.injEq] at hv'
          exact hab ⟨hv'.1.symm, hv'.2.1.symm⟩
        · rintro ⟨he, -⟩
          rw [hno] at he
          cases he
  | none =>
    cases hdel : o.deletes with
    | some x =>
      obtain ⟨b, k'⟩ := x
      obtain ⟨d, hd, hstores⟩ := handle_deletes hdel env w
      refine ⟨d, hd, .inr ?_⟩
      rw [hstores]
      by_cases hd' : d = .lost
      · refine .inr ⟨fun h => h.2 hd', fun h => h.2 hd', ?_⟩
        rw [if_pos hd']
      · rw [if_neg hd', Stores.get_delete]
        by_cases hab : a = b ∧ k = k'
        · obtain ⟨rfl, rfl⟩ := hab
          exact .inl ⟨⟨hdel, hd'⟩, if_pos ⟨rfl, rfl⟩⟩
        · refine .inr ⟨?_, ?_, if_neg hab⟩
          · rintro ⟨⟨v', hv'⟩, -⟩
            rw [hw] at hv'
            cases hv'
          · rintro ⟨he, -⟩
            rw [hdel, Option.some.injEq, Prod.mk.injEq] at he
            exact hab ⟨he.1.symm, he.2.symm⟩
    | none =>
      obtain ⟨d, hd⟩ := handle_trace env o w
      have hreads := handle_reads (Op.reads_of_none hw hdel) env w
      refine ⟨d, hd, .inr (.inr ⟨?_, ?_, by rw [hreads]⟩)⟩
      · rintro ⟨⟨v', hv'⟩, -⟩
        rw [hw] at hv'
        cases hv'
      · rintro ⟨he, -⟩
        rw [hdel] at he
        cases he

/-- The same among others that do not touch the key. -/
theorem among_get {others : Others} {k : Key} (hk : others.Keep k) (env : Env) (o : Op)
    (w : World) (a : Address) :
    ∃ d, (among env others o w).2.trace = (o, d) :: w.trace ∧
      ((∃ v, o.writes = some (a, k, v) ∧ d ≠ .lost ∧
          ((among env others o w).2.stores a).get k = some v) ∨
        (Entry.Erased a k (o, d) ∧ ((among env others o w).2.stores a).get k = none) ∨
        (¬Entry.Wrote a k (o, d) ∧ ¬Entry.Erased a k (o, d) ∧
          ((among env others o w).2.stores a).get k = (w.stores a).get k)) := by
  have h := handle_get env o (others.act w.trace.length w) a k
  rwa [others.trace_act, hk] at h

/-! ### A program -/

section Programs

variable {env : Env} {others : Others} {α : Type} {p : M α} {k : Key} {a : Address}

variable (env) in
/-- What is under a key that a program neither writes nor deletes stays as it is. -/
theorem Only.get_eq (hk : others.Keep k)
    (hp : Only (fun o => (∀ v, o.writes ≠ some (a, k, v)) ∧ o.deletes ≠ some (a, k)) p) (w : World) :
    ((runAmong env others p w).2.stores a).get k = (w.stores a).get k := by
  refine hp.exec (R := fun w w' => (w'.stores a).get k = (w.stores a).get k) (fun _ => rfl)
    (fun h h' => h'.trans h) (fun w o ho => ?_) w
  obtain ⟨d, -, ⟨v, hv, -⟩ | ⟨he, -⟩ | ⟨-, -, hsame⟩⟩ := among_get hk env o w a
  · exact (ho.1 v hv).elim
  · exact (ho.2 he.1).elim
  · exact hsame

/-- **Under a key that a program does not delete** there is something at the end
when there was before, or a write of it arrived. -/
theorem Only.present_iff (hk : others.Keep k) (hp : Only (fun o => o.deletes ≠ some (a, k)) p)
    (w : World) :
    ((runAmong env others p w).2.stores a).get k ≠ none ↔
      (w.stores a).get k ≠ none ∨
        ∃ e ∈ Storage.since w (runAmong env others p w).2, Entry.Wrote a k e := by
  suffices h : ∃ l, (runAmong env others p w).2.trace = l ++ w.trace ∧
      (((runAmong env others p w).2.stores a).get k ≠ none ↔
        (w.stores a).get k ≠ none ∨ ∃ e ∈ l, Entry.Wrote a k e) by
    obtain ⟨l, hl, hiff⟩ := h
    rwa [since_eq hl]
  refine hp.exec (R := fun w w' => ∃ l, w'.trace = l ++ w.trace ∧
      ((w'.stores a).get k ≠ none ↔ (w.stores a).get k ≠ none ∨ ∃ e ∈ l, Entry.Wrote a k e))
    (fun w => ⟨[], rfl, by simp⟩) ?_ (fun w o ho => ?_) w
  · rintro w₁ w₂ w₃ ⟨l, hl, hiff⟩ ⟨l', hl', hiff'⟩
    refine ⟨l' ++ l, by rw [hl', hl, List.append_assoc], ?_⟩
    rw [hiff', hiff]
    simp only [List.mem_append, or_and_right, exists_or]
    exact or_assoc.trans (or_congr_right or_comm)
  · obtain ⟨d, hd, ⟨v, hv, hlost, hget⟩ | ⟨he, -⟩ | ⟨hno, -, hsame⟩⟩ := among_get hk env o w a
    · have hwrote : Entry.Wrote a k (o, d) := ⟨⟨v, hv⟩, hlost⟩
      exact ⟨[(o, d)], hd, by simp [hget, hwrote]⟩
    · exact (ho he.1).elim
    · exact ⟨[(o, d)], hd, by simp [hsame, hno]⟩

/-- **Under a key that a program does not write** there is something at the end
when there was before and no deletion of it arrived. -/
theorem Only.kept_iff (hk : others.Keep k)
    (hp : Only (fun o => ∀ v, o.writes ≠ some (a, k, v)) p) (w : World) :
    ((runAmong env others p w).2.stores a).get k ≠ none ↔
      (w.stores a).get k ≠ none ∧
        ¬∃ e ∈ Storage.since w (runAmong env others p w).2, Entry.Erased a k e := by
  suffices h : ∃ l, (runAmong env others p w).2.trace = l ++ w.trace ∧
      (((runAmong env others p w).2.stores a).get k ≠ none ↔
        (w.stores a).get k ≠ none ∧ ¬∃ e ∈ l, Entry.Erased a k e) by
    obtain ⟨l, hl, hiff⟩ := h
    rwa [since_eq hl]
  refine hp.exec (R := fun w w' => ∃ l, w'.trace = l ++ w.trace ∧
      ((w'.stores a).get k ≠ none ↔ (w.stores a).get k ≠ none ∧ ¬∃ e ∈ l, Entry.Erased a k e))
    (fun w => ⟨[], rfl, by simp⟩) ?_ (fun w o ho => ?_) w
  · rintro w₁ w₂ w₃ ⟨l, hl, hiff⟩ ⟨l', hl', hiff'⟩
    refine ⟨l' ++ l, by rw [hl', hl, List.append_assoc], ?_⟩
    rw [hiff', hiff]
    simp only [List.mem_append, or_and_right, exists_or]
    exact and_assoc.trans (and_congr_right' (and_comm.trans not_or.symm))
  · obtain ⟨d, hd, ⟨v, hv, -⟩ | ⟨he, hget⟩ | ⟨-, hno, hsame⟩⟩ := among_get hk env o w a
    · exact (ho v hv).elim
    · exact ⟨[(o, d)], hd, by simp [hget, he]⟩
    · exact ⟨[(o, d)], hd, by simp [hsame, hno]⟩

/-! ### Lists -/

variable {id : String}

/-- What an operation leaves in the lists of the workers: it writes only lists that
have the id, and deletes none. -/
def Op.KeepsListed (id : String) (o : Op) : Prop :=
  (∀ a v x, o.writes = some (a, .worker v, x) → id ∈ WorkerAssignment.tasksOf (some x)) ∧
    ∀ a v, o.deletes ≠ some (a, .worker v)

theorem among_lists {o : Op} (hothers : others.KeepListing id) (ho : o.KeepsListed id)
    {w : World} {a : Address} {v : String} (h : w.Lists id a v) :
    (among env others o w).2.Lists id a v := by
  have hact := (hothers w.trace.length w a v).2 h
  unfold World.Lists at hact ⊢
  obtain ⟨d, -, ⟨x, hx, -, hget⟩ | ⟨he, -⟩ | ⟨-, -, hsame⟩⟩ :=
    handle_get env o (others.act w.trace.length w) a (.worker v)
  · exact hget ▸ ho.1 a v x hx
  · exact (ho.2 a v he.1).elim
  · exact hsame ▸ hact

/-- An id that is in a list stays there. -/
theorem Only.lists (hothers : others.KeepListing id) (hp : Only (Op.KeepsListed id) p) {w : World}
    {a : Address} {v : String} (h : w.Lists id a v) :
    (runAmong env others p w).2.Lists id a v :=
  hp.exec (R := fun w w' => w.Lists id a v → w'.Lists id a v) (fun _ h => h)
    (fun h h' hw => h' (h hw)) (fun _ _ ho hw => among_lists hothers ho hw) w h

/-- An operation that touches no list of a worker. -/
def Op.NoList (o : Op) : Prop :=
  (∀ a v x, o.writes ≠ some (a, .worker v, x)) ∧ ∀ a v, o.deletes ≠ some (a, .worker v)

theorem Op.Reads.noList {o : Op} (h : o.Reads) : o.NoList := by
  refine ⟨fun a v x hx => ?_, fun a v hd => ?_⟩
  · rw [h.writes] at hx
    cases hx
  · rw [h.deletes] at hd
    cases hd

/-- A program that touches no list leaves it as it is whether the id is in one. -/
theorem Only.lists_iff (hothers : others.KeepListing id) (hp : Only Op.NoList p) {w : World}
    {a : Address} {v : String} :
    (runAmong env others p w).2.Lists id a v ↔ w.Lists id a v := by
  refine hp.exec (R := fun w w' => w'.Lists id a v ↔ w.Lists id a v) (fun _ => Iff.rfl)
    (fun h h' => h'.trans h) (fun w o ho => ?_) w
  rw [← hothers w.trace.length w a v]
  unfold World.Lists
  obtain ⟨d, -, ⟨x, hx, -⟩ | ⟨he, -⟩ | ⟨-, -, hsame⟩⟩ :=
    handle_get env o (others.act w.trace.length w) a (.worker v)
  · exact (ho.1 a v x hx).elim
  · exact (ho.2 a v he.1).elim
  · rw [← hsame]
    rfl

theorem among_lists_iff {o : Op} (hothers : others.KeepListing id) (ho : o.NoList) {w : World}
    {a : Address} {v : String} : (among env others o w).2.Lists id a v ↔ w.Lists id a v :=
  Only.lists_iff (p := act o) hothers (.act ho)

end Programs

end Storage
end ChordInfra
