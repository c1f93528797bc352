/-
# What a rebalance achieves

`_do_rebalance` goes once through the pending tasks, with a running count of the tasks of each
live worker.  A task of a worker that is not live goes to the least loaded one, and so does a task
of one that has more than its share.

The counts are right all the time (`Rebalancing.loads`), so the least loaded worker never has more
than its share, and no worker is given a task that has more (`Rebalancing.bounded`).  The bound says
nothing of the tasks still to come; when there are none left, it is a bound of the load
(`rebalance_spec`).
-/

import ChordInfra.Server.Lists

namespace ChordInfra
namespace Server

open Interact Prog
open Storage

/-! ### Counting -/

section Counting

variable {X V : Type} [DecidableEq V]

/-- Counted by their images, elements are counted once. -/
theorem sum_countP (f : X → V) {vs : List V} (hvs : vs.Nodup) (l : List X) :
    (vs.map fun v => l.countP fun x => f x = v).sum = l.countP fun x => f x ∈ vs := by
  induction vs with
  | nil => simp
  | cons v vs ih =>
    obtain ⟨hv, hvs⟩ := List.nodup_cons.1 hvs
    rw [List.map_cons, List.sum_cons, ih hvs]
    clear ih
    induction l with
    | nil => simp
    | cons x l ih =>
      rw [List.countP_cons, List.countP_cons, List.countP_cons, ← ih]
      by_cases hx : f x = v
      · simp only [hx, decide_true, decide_false, List.mem_cons_self, if_true, hv,
          Bool.false_eq_true, if_false]
        omega
      · simp only [hx, List.mem_cons, false_or, decide_false, Bool.false_eq_true, if_false]
        omega

omit [DecidableEq V] in
/-- Where the sum is small, so is one of the summands. -/
theorem exists_le_of_sum_lt (f : V → ℕ) {vs : List V} {t : ℕ}
    (h : (vs.map f).sum < vs.length * (t + 1)) : ∃ v ∈ vs, f v ≤ t := by
  induction vs with
  | nil => exact absurd h (by simp)
  | cons v vs ih =>
    rw [List.map_cons, List.sum_cons, List.length_cons, Nat.succ_mul] at h
    by_cases hv : f v ≤ t
    · exact ⟨v, List.mem_cons_self, hv⟩
    · obtain ⟨u, hu, hle⟩ := ih (by omega)
      exact ⟨u, List.mem_cons_of_mem _ hu, hle⟩

end Counting

/-! ### The least loaded worker -/

/-- The least loaded worker is one of those whose loads are known, and none has less. -/
theorem leastLoaded_spec {load : Dict String ℕ} {v : String} {n : ℕ} (h : load.get v = some n) :
    ∃ e, leastLoaded load = some e ∧ load.get e.1 = some e.2 ∧
      ∀ u k, load.get u = some k → e.2 ≤ k := by
  have hmem : (v, n) ∈ load.entries := load.mem_entries_iff.2 h
  have hne : load.entries.argmin Prod.snd ≠ none := fun hnone => by
    rw [List.argmin_eq_none.1 hnone] at hmem
    cases hmem
  obtain ⟨e, he⟩ := Option.ne_none_iff_exists'.1 hne
  refine ⟨e, he, load.mem_entries_iff.1 (List.argmin_mem he), fun u k hk => ?_⟩
  exact List.le_of_mem_argmin (f := Prod.snd) (load.mem_entries_iff.2 hk) he

/-- **Where a record goes**, if some worker has no more than its share: it stays where its worker
has no more, and goes to another one that has no more. -/
theorem destination_spec {target : ℕ} {load : Dict String ℕ} (current : String)
    (hsmall : ∃ v n, load.get v = some n ∧ n ≤ target) :
    (destination target load current = none ∧ ∃ n, load.get current = some n ∧ n ≤ target) ∨
      ∃ dst n, destination target load current = some dst ∧ load.get dst = some n ∧ n ≤ target ∧
        dst ≠ current := by
  obtain ⟨v, n, hv, hn⟩ := hsmall
  obtain ⟨e, he, hget, hleast⟩ := leastLoaded_spec hv
  have hle : e.2 ≤ target := (hleast v n hv).trans hn
  unfold destination
  cases hcurrent : load.get current with
  | none =>
    dsimp only
    refine .inr ⟨e.1, e.2, by rw [he]; rfl, hget, hle, ?_⟩
    rintro rfl
    rw [hcurrent] at hget
    cases hget
  | some m =>
    dsimp only
    split_ifs with hm
    · exact .inl ⟨rfl, m, rfl, hm⟩
    · refine .inr ⟨e.1, e.2, ?_, hget, hle, ?_⟩
      · rw [he, Option.filter_some, if_pos (decide_eq_true (by omega))]
        rfl
      · rintro rfl
        rw [hcurrent] at hget
        cases hget
        exact hm hle

/-- The loads after a move to another worker. -/
theorem get_shifted {load : Dict String ℕ} {src dst : String} {n : ℕ} (hdst : load.get dst = some n)
    (hne : dst ≠ src) (v : String) : (shifted load src dst).get v =
      if v = dst then some (n + 1) else if v = src then (load.get src).map (· - 1) else load.get v := by
  unfold shifted
  dsimp only
  rw [Dict.get_set, if_neg (Ne.symm hne), hdst]
  split
  · next m hm =>
    rw [Dict.get_set, Dict.get_set, hm]
    by_cases hv : v = src
    · subst hv
      rw [if_pos rfl, if_neg (Ne.symm hne), if_pos rfl]
      rfl
    · rw [if_neg hv, if_neg hv]
      rfl
  · next hm =>
    rw [Dict.get_set]
    by_cases hv : v = src
    · subst hv
      rw [if_neg (Ne.symm hne), if_neg (Ne.symm hne), if_pos rfl, hm]
      rfl
    · rw [if_neg hv]
      rfl

/-- A move keeps the workers whose loads are known. -/
theorem keys_shifted {load : Dict String ℕ} {src dst : String} (hdst : (load.get dst).isSome) :
    (shifted load src dst).entries.map Prod.fst = load.entries.map Prod.fst := by
  unfold shifted
  dsimp only
  split
  · next m hm =>
    rw [Dict.keys_set (by rw [hm]; rfl), Dict.keys_set hdst]
  · exact Dict.keys_set hdst _

/-! ### One task after the other -/

/-- How many of some tasks a worker has. -/
def loadOf (l : List (String × ResultRecord)) (v : String) : ℕ :=
  l.countP fun e => e.2.workerId = v

theorem loadOf_append (l l' : List (String × ResultRecord)) (v : String) :
    loadOf (l ++ l') v = loadOf l v + loadOf l' v := List.countP_append

theorem loadOf_cons (e : String × ResultRecord) (l : List (String × ResultRecord)) (v : String) :
    loadOf (e :: l) v = loadOf l v + if e.2.workerId = v then 1 else 0 := by
  unfold loadOf
  rw [List.countP_cons]
  simp only [decide_eq_true_eq]

/-- The operations on the list of a worker succeed for a task. -/
def Answered (env : Env) (s : Service) (v t : String) : Prop :=
  ∀ w, (∃ x, (run env (WorkerAssignment.append s v t) w).1 = .ok x) ∧
    ∃ x, (run env (WorkerAssignment.remove s v t) w).1 = .ok x

/-- They do so where calls arrive, whichever node owns the list, for names that are not refused. -/
theorem answered_of_delivered {env : Env} (hcalls : ∀ t a c, env.deliverCall t a c = .delivered)
    (s : Service) {v t : String} (hv : v ≠ "") (ht : t ≠ "") : Answered env s v t := fun w => by
  obtain ⟨x, hx, -⟩ := (yields_remove hv s t).exec (handle env) w
  exact ⟨run_append_ok hcalls s hv ht w, x, hx⟩

/-- What a rebalance makes of a record: nothing, or it gives it to another worker. -/
def Rebalanced (e e' : String × ResultRecord) : Prop :=
  e'.1 = e.1 ∧ (e'.2 = e.2 ∨ e'.2 = reassigned e.2 e'.2.workerId)

/-- **A move** changes one record, where the operations on the lists succeed. -/
theorem run_move_answered {env : Env} {s : Service} (t : String) {record : ResultRecord}
    {srcLive : Bool} {dst : String} (hdst : Answered env s dst t)
    (hsrc : srcLive = true → Answered env s record.workerId t) (w : World) :
    ∃ w', run env (move s t record srcLive dst) w = (.ok (), w') ∧ ∀ y,
      recordAt w' s.node.address y =
        if y = t then some (reassigned record dst) else recordAt w s.node.address y := by
  have hput : ∀ y, recordAt (handle env (.put s.node.address (.result t)
      (.result (reassigned record dst))) w).2 s.node.address y =
        if y = t then some (reassigned record dst) else recordAt w s.node.address y := by
    intro y
    refine (congrArg (Option.bind · Value.asResult) (Stores.get_put w.stores s.node.address _
      (.result t) (.result y) (.result (reassigned record dst)))).trans ?_
    by_cases hy : y = t
    · rw [if_pos ⟨rfl, congrArg Key.result hy⟩, if_pos hy]
      rfl
    · rw [if_neg fun h => hy (Key.result.inj h.2), if_neg hy]
      rfl
  unfold move
  rw [run_act_bind]
  generalize (handle env (.put s.node.address (.result t) (.result (reassigned record dst))) w).2 =
    w₁ at hput
  -- what follows the removal leaves the records alone
  have happend : ∀ w₂, SameResults w₁ w₂ → ∃ w',
      run env (WorkerAssignment.append s dst t >>= fun _ => pure ()) w₂ = (.ok (), w') ∧ ∀ y,
        recordAt w' s.node.address y =
          if y = t then some (reassigned record dst) else recordAt w s.node.address y := by
    intro w₂ hsame
    obtain ⟨x, hx⟩ := (hdst w₂).1
    have honly : Only Op.Listing (WorkerAssignment.append s dst t) :=
      .of_does (serving_listing.append _ _)
    refine ⟨(run env (WorkerAssignment.append s dst t) w₂).2, by rw [run_bind hx]; rfl, fun y => ?_⟩
    rw [← hput y]
    exact congrArg (Option.bind · Value.asResult)
      (((honly.listing env w₂).2 s.node.address y).trans (hsame s.node.address y))
  cases srcLive with
  | false => exact happend w₁ (.of_stores rfl)
  | true =>
    obtain ⟨x, hx⟩ := (hsrc rfl w₁).2
    have honly : Only Op.Listing (WorkerAssignment.remove s record.workerId t) :=
      .of_does (serving_listing.remove _ _)
    simp only [if_true]
    rw [run_bind hx]
    exact happend _ (honly.listing env w₁).2

/-- A rebalance under way: the tasks `before` have been dealt with, those of `todo` have not. -/
structure Rebalancing (a : Address) (live : List String) (target : ℕ) (w₀ w : World)
    (before todo : List (String × ResultRecord)) (load : Dict String ℕ) : Prop where
  records : ∀ e ∈ before ++ todo, recordAt w a e.1 = some e.2
  pending : ∀ e ∈ before ++ todo, e.2.status = .pending
  distinct : ((before ++ todo).map Prod.fst).Nodup
  others : ∀ t, t ∉ (before ++ todo).map Prod.fst → recordAt w a t = recordAt w₀ a t
  workers : load.entries.map Prod.fst = live
  loads : ∀ v ∈ live, load.get v = some (loadOf (before ++ todo) v)
  placed : ∀ e ∈ before, e.2.workerId ∈ live
  bounded : ∀ v, loadOf before v ≤ target + 1

namespace Rebalancing

variable {a : Address} {live : List String} {target n : ℕ} {w₀ w w' : World}
  {before todo : List (String × ResultRecord)} {load : Dict String ℕ} {e : String × ResultRecord}
  {v dst t : String} {record : ResultRecord}

/-- The workers whose loads are known are the live ones. -/
theorem mem_live (h : Rebalancing a live target w₀ w before todo load) (hv : load.get v = some n) :
    v ∈ live := by
  rw [← h.workers]
  exact List.mem_map_of_mem (load.mem_entries_iff.2 hv)

/-- Some worker has no more than its share. -/
theorem small (h : Rebalancing a live target w₀ w before todo load) (hlive : live.Nodup)
    (hshare : (before ++ todo).length < live.length * (target + 1)) :
    ∃ v n, load.get v = some n ∧ n ≤ target := by
  have hsum := sum_countP (fun e : String × ResultRecord => e.2.workerId) hlive (before ++ todo)
  have hle := List.countP_le_length (p := fun e : String × ResultRecord => decide (e.2.workerId ∈ live))
    (l := before ++ todo)
  obtain ⟨v, hv, hsmall⟩ := exists_le_of_sum_lt (loadOf (before ++ todo)) (hsum ▸ hle.trans_lt hshare)
  exact ⟨v, _, h.loads v hv, hsmall⟩

/-- **A task that stays**: its worker has no more than its share. -/
theorem stay (h : Rebalancing a live target w₀ w before (e :: todo) load)
    (hget : load.get e.2.workerId = some n) (hn : n ≤ target) :
    Rebalancing a live target w₀ w (before ++ [e]) todo load := by
  have hsplit : before ++ [e] ++ todo = before ++ e :: todo := by simp
  have hmem := h.mem_live hget
  refine ⟨hsplit ▸ h.records, hsplit ▸ h.pending, hsplit ▸ h.distinct, hsplit ▸ h.others, h.workers,
    hsplit ▸ h.loads, fun e' he' => ?_, fun v => ?_⟩
  · rcases List.mem_append.1 he' with he' | he'
    · exact h.placed e' he'
    · rw [List.mem_singleton.1 he']
      exact hmem
  · have hbounded := h.bounded v
    have hload := h.loads _ hmem
    rw [hget, loadOf_append, loadOf_cons, if_pos rfl] at hload
    have hcount := Option.some.inj hload
    rw [loadOf_append, loadOf_cons]
    split_ifs with hv
    · subst hv
      change _ + (0 + 1) ≤ _
      omega
    · exact hbounded

/-- **A task that goes** to a worker that has no more than its share. -/
theorem move (h : Rebalancing a live target w₀ w before ((t, record) :: todo) load)
    (hdst : load.get dst = some n) (hn : n ≤ target) (hne : dst ≠ record.workerId)
    (hrecords : ∀ y, recordAt w' a y =
      if y = t then some (reassigned record dst) else recordAt w a y) :
    Rebalancing a live target w₀ w' (before ++ [(t, reassigned record dst)]) todo
      (shifted load record.workerId dst) := by
  have hsplit : before ++ [(t, reassigned record dst)] ++ todo =
      before ++ (t, reassigned record dst) :: todo := by simp
  have hkeys : (before ++ (t, reassigned record dst) :: todo).map Prod.fst =
      (before ++ (t, record) :: todo).map Prod.fst := by simp
  have hdistinct := h.distinct
  rw [List.map_append, List.map_cons] at hdistinct
  obtain ⟨-, hrest, hapart⟩ := List.nodup_append.1 hdistinct
  have hother : ∀ e ∈ before ++ todo, e.1 ≠ t := by
    intro e he
    rcases List.mem_append.1 he with he | he
    · exact hapart _ (List.mem_map_of_mem he) _ List.mem_cons_self
    · have hin : e.1 ∈ todo.map Prod.fst := List.mem_map_of_mem he
      exact fun het => (List.nodup_cons.1 hrest).1 (het ▸ hin)
  have hcases : ∀ e ∈ before ++ (t, reassigned record dst) :: todo,
      e = (t, reassigned record dst) ∨ e.1 ≠ t ∧ e ∈ before ++ (t, record) :: todo := by
    intro e he
    rcases List.mem_append.1 he with he | he
    · exact .inr ⟨hother e (List.mem_append_left _ he), List.mem_append_left _ he⟩
    · rcases List.mem_cons.1 he with rfl | he
      · exact .inl rfl
      · exact .inr ⟨hother e (List.mem_append_right _ he),
          List.mem_append_right _ (List.mem_cons_of_mem _ he)⟩
  have hmem := h.mem_live hdst
  have hcount := Option.some.inj (hdst.symm.trans (h.loads dst hmem))
  rw [loadOf_append, loadOf_cons, if_neg (Ne.symm hne)] at hcount
  refine ⟨?_, ?_, ?_, ?_, ?_, ?_, fun e he => ?_, fun v => ?_⟩
  · rw [hsplit]
    intro e he
    rw [hrecords]
    rcases hcases e he with rfl | ⟨hne', he'⟩
    · exact if_pos rfl
    · rw [if_neg hne']
      exact h.records e he'
  · rw [hsplit]
    intro e he
    rcases hcases e he with rfl | ⟨-, he'⟩
    · exact h.pending (t, record) (by simp)
    · exact h.pending e he'
  · rw [hsplit, hkeys]
    exact h.distinct
  · rw [hsplit, hkeys]
    intro y hy
    have hyt : y ≠ t := by
      rintro rfl
      exact hy (by simp)
    rw [hrecords, if_neg hyt]
    exact h.others y hy
  · rw [keys_shifted (by rw [hdst]; rfl)]
    exact h.workers
  · intro v hv
    have hload := h.loads v hv
    rw [loadOf_append, loadOf_cons] at hload
    rw [get_shifted hdst hne, hsplit, loadOf_append, loadOf_cons,
      show (reassigned record dst).workerId = dst from rfl]
    by_cases hvd : v = dst
    · subst hvd
      rw [if_pos rfl, if_pos rfl]
      exact congrArg some (by omega)
    · rw [if_neg hvd, if_neg (Ne.symm hvd)]
      by_cases hvs : v = record.workerId
      · subst hvs
        rw [if_pos rfl, hload, if_pos rfl, Option.map_some]
        exact congrArg some (show _ - 1 = _ by omega)
      · rw [if_neg hvs, hload, if_neg (Ne.symm hvs)]
  · rcases List.mem_append.1 he with he | he
    · exact h.placed e he
    · rw [List.mem_singleton.1 he]
      exact hmem
  · have hbounded := h.bounded v
    rw [loadOf_append, loadOf_cons, show (reassigned record dst).workerId = dst from rfl]
    split_ifs with hv
    · subst hv
      change _ + (0 + 1) ≤ _
      omega
    · exact hbounded

/-- **All moves**: each task stays or goes to another worker, and the loads are right. -/
theorem run_moveAll {env : Env} {s : Service} (h : Rebalancing s.node.address live target w₀ w before
    todo load) (hlive : live.Nodup) (hlists : ∀ v ∈ live, ∀ e ∈ todo, Answered env s v e.1)
    (hshare : (before ++ todo).length < live.length * (target + 1)) :
    ∃ moves after w', run env (moveAll s target todo load) w = (.ok moves, w') ∧
      todo.Forall₂ Rebalanced after ∧
        Rebalancing s.node.address live target w₀ w' (before ++ after) [] moves.load := by
  induction todo generalizing w before load with
  | nil => exact ⟨⟨0, load⟩, [], w, rfl, .nil, by rwa [List.append_nil]⟩
  | cons e todo ih =>
    obtain ⟨t, record⟩ := e
    have hfirst : ∀ v ∈ live, Answered env s v t := fun v hv =>
      hlists v hv (t, record) List.mem_cons_self
    have hrest : ∀ v ∈ live, ∀ e ∈ todo, Answered env s v e.1 := fun v hv e he =>
      hlists v hv e (List.mem_cons_of_mem _ he)
    unfold moveAll
    rcases destination_spec record.workerId (h.small hlive hshare) with
      ⟨hnone, n, hget, hn⟩ | ⟨dst, n, hsome, hdst, hn, hne⟩
    · have hstay := h.stay (e := (t, record)) hget hn
      obtain ⟨moves, after, w', hrun, hafter, hdone⟩ := ih hstay hrest (by simpa using hshare)
      rw [hnone]
      refine ⟨moves, (t, record) :: after, w', hrun, .cons ⟨rfl, .inl rfl⟩ hafter, ?_⟩
      rwa [List.append_assoc] at hdone
    · have hsource : (load.get record.workerId).isSome = true →
          Answered env s record.workerId t := fun hsrc => by
        obtain ⟨k, hk⟩ := Option.isSome_iff_exists.1 hsrc
        exact hfirst _ (h.mem_live hk)
      obtain ⟨w₁, hmove, hrecords⟩ :=
        run_move_answered t (hfirst dst (h.mem_live hdst)) hsource w
      have hgone := h.move hdst hn hne hrecords
      obtain ⟨moves, after, w', hrun, hafter, hdone⟩ := ih hgone hrest (by simpa using hshare)
      rw [hsome]
      dsimp only
      rw [run_attempt_bind, hmove]
      dsimp only
      rw [run_bind_eq_ok hrun]
      refine ⟨{ moves with moved := moves.moved + 1 }, (t, reassigned record dst) :: after, w', rfl,
        .cons ⟨rfl, .inr rfl⟩ hafter, ?_⟩
      rwa [List.append_assoc] at hdone

/-- At the end the tasks dealt with are the pending ones. -/
theorem perm_pendingAt (h : Rebalancing a live target w₀ w before [] load)
    (hkeys : before.map Prod.fst = (pendingAt (w₀.stores a)).map Prod.fst) :
    (pendingAt (w.stores a)).Perm before := by
  have hrecords := h.records
  have hpending := h.pending
  have hothers := h.others
  have hdistinct := h.distinct
  rw [List.append_nil] at hrecords hpending hothers hdistinct
  refine (List.perm_ext_iff_of_nodup (pendingAt_distinct _).of_map hdistinct.of_map).2 fun e => ?_
  rw [mem_pendingAt, ← recordAt_eq_some]
  constructor
  · rintro ⟨hrecord, hstatus⟩
    by_cases hknown : e.1 ∈ before.map Prod.fst
    · obtain ⟨e', he', hid⟩ := List.mem_map.1 hknown
      have hsame := hrecords e' he'
      rw [hid, hrecord] at hsame
      have he : e' = e := Prod.ext hid (Option.some.inj hsame).symm
      exact he ▸ he'
    · rw [hothers e.1 hknown, recordAt_eq_some] at hrecord
      exact absurd (hkeys ▸ List.mem_map_of_mem (mem_pendingAt.2 ⟨hrecord, hstatus⟩)) hknown
  · exact fun he => ⟨hrecords e he, hpending e he⟩

end Rebalancing

/-- What a rebalance made of one of the tasks. -/
theorem exists_rebalanced {pending after : List (String × ResultRecord)}
    (h : pending.Forall₂ Rebalanced after) {e : String × ResultRecord} (he : e ∈ pending) :
    ∃ e' ∈ after, Rebalanced e e' := by
  induction h with
  | nil => cases he
  | cons hfirst _ ih =>
    rcases List.mem_cons.1 he with rfl | he
    · exact ⟨_, List.mem_cons_self, hfirst⟩
    · obtain ⟨e', he', hrest⟩ := ih he
      exact ⟨e', List.mem_cons_of_mem _ he', hrest⟩

theorem keys_of_rebalanced {pending after : List (String × ResultRecord)}
    (h : pending.Forall₂ Rebalanced after) : after.map Prod.fst = pending.map Prod.fst := by
  induction h with
  | nil => rfl
  | cons hfirst _ ih => rw [List.map_cons, List.map_cons, hfirst.1, ih]

/-- The loads at the start. -/
theorem loads_spec {live : List String} (hlive : live.Nodup)
    (pending : List (String × ResultRecord)) :
    (loads live pending).entries.map Prod.fst = live ∧
      ∀ v ∈ live, (loads live pending).get v = some (loadOf pending v) := by
  have hfold : ∀ (l : List String) (load : Dict String ℕ), l.Nodup → (∀ v ∈ l, load.get v = none) →
      let load' := l.foldl (fun load w => load.set w (loadOf pending w)) load
      load'.entries.map Prod.fst = load.entries.map Prod.fst ++ l ∧
        (∀ v ∈ l, load'.get v = some (loadOf pending v)) ∧ ∀ v ∉ l, load'.get v = load.get v := by
    intro l
    induction l with
    | nil =>
      intro load _ _ load'
      refine ⟨(List.append_nil _).symm, fun v hv => ?_, fun _ _ => rfl⟩
      cases hv
    | cons u l ih =>
      intro load hnodup hnew
      obtain ⟨hu, hl⟩ := List.nodup_cons.1 hnodup
      obtain ⟨hkeys, hget, hrest⟩ := ih (load.set u (loadOf pending u)) hl fun v hv => by
        have hvu : v ≠ u := by
          rintro rfl
          exact hu hv
        rw [Dict.get_set_ne _ hvu]
        exact hnew v (List.mem_cons_of_mem _ hv)
      refine ⟨?_, fun v hv => ?_, fun v hv => ?_⟩
      · rw [List.foldl_cons, hkeys, Dict.keys_set_new (hnew u List.mem_cons_self), List.append_assoc]
        rfl
      · rcases List.mem_cons.1 hv with rfl | hv
        · exact (hrest v hu).trans (Dict.get_set_self ..)
        · exact hget v hv
      · have hvu : v ≠ u := by
          rintro rfl
          exact hv List.mem_cons_self
        exact (hrest v fun h => hv (List.mem_cons_of_mem _ h)).trans (Dict.get_set_ne _ hvu _)
  obtain ⟨hkeys, hget, -⟩ := hfold live .empty hlive fun _ _ => rfl
  exact ⟨hkeys, hget⟩

/-- **A rebalance of two live workers or more**, where the operations on their lists succeed for the
pending tasks.  Every pending task is with a live worker then: it stayed, or it was given to this
one.  The loads returned are the real ones, they sum up to the pending tasks, and none is above the
share by more than one. -/
theorem rebalance_spec {env : Env} {s : Service} {w : World} {live : List String}
    (hlive : (w.registries s.node.address).liveWorkers (env.now w.trace.length) = live)
    (htwo : 2 ≤ live.length)
    (hlists : ∀ v ∈ live, ∀ e ∈ pendingAt (w.stores s.node.address), Answered env s v e.1) {count : ℕ}
    (hcount : (pendingAt (w.stores s.node.address)).length = count) (hpos : 0 < count) :
    ∃ moves w', run env (doRebalance s) w = (.ok (.done live moves), w') ∧
      (∀ t record, recordAt w s.node.address t = some record → record.status = .pending →
        ∃ record', recordAt w' s.node.address t = some record' ∧ record'.workerId ∈ live ∧
          (record' = record ∨ record' = reassigned record record'.workerId)) ∧
      moves.load.entries.map Prod.fst = live ∧
      (∀ v ∈ live, moves.load.get v = some (loadOf (pendingAt (w'.stores s.node.address)) v)) ∧
      (moves.load.entries.map Prod.snd).sum = count ∧
      ∀ v n, moves.load.get v = some n → n ≤ max 1 (count / live.length) + 1 := by
  have hnodup : live.Nodup := hlive ▸ Workers.Registry.nodup_liveWorkers ..
  have hitems : (handle env (.items s.node.address)
      (handle env (.registry s.node.address .liveWorkers) w).2).1 =
        (w.stores s.node.address).entries := rfl
  have hfirst : (handle env (.registry s.node.address .liveWorkers) w).1 = live := hlive
  generalize hpending : pendingAt (w.stores s.node.address) = pending at hcount hlists
  obtain ⟨w₁, hrun₁, hstores₁⟩ :=
    run_pendingRecords env s ((w.stores s.node.address).entries.map Prod.fst)
      (handle env (.items s.node.address) (handle env (.registry s.node.address .liveWorkers) w).2).2
  replace hstores₁ : w₁.stores = w.stores := hstores₁
  replace hrun₁ : run env (pendingRecords s ((w.stores s.node.address).entries.map Prod.fst))
      (handle env (.items s.node.address) (handle env (.registry s.node.address .liveWorkers) w).2).2 =
        (.ok pending, w₁) := hrun₁.trans (by rw [← hpending]; rfl)
  have hsame : ∀ t, recordAt w₁ s.node.address t = recordAt w s.node.address t := fun t => by
    unfold recordAt
    rw [hstores₁]
  -- the start of the moves
  obtain ⟨hworkers, hloads⟩ := loads_spec hnodup pending
  have hstart : Rebalancing s.node.address live (max 1 (pending.length / live.length)) w w₁ [] pending
      (loads live pending) := by
    refine ⟨fun e he => ?_, fun e he => ?_, ?_, fun t _ => hsame t, hworkers, hloads, ?_, fun v => ?_⟩
    · rw [hsame, recordAt_eq_some]
      exact (mem_pendingAt.1 (hpending ▸ he)).1
    · exact (mem_pendingAt.1 (hpending ▸ he)).2
    · rw [← hpending]
      exact pendingAt_distinct _
    · exact fun e he => absurd he List.not_mem_nil
    · exact Nat.zero_le _
  have hshare : ([] ++ pending).length < live.length * (max 1 (pending.length / live.length) + 1) := by
    rw [List.nil_append]
    have hlt := Nat.lt_mul_div_succ pending.length (show 0 < live.length by omega)
    have hle := Nat.mul_le_mul_left live.length
      (Nat.succ_le_succ (le_max_right 1 (pending.length / live.length)))
    exact hlt.trans_le hle
  obtain ⟨moves, after, w', hrun, hafter, hdone⟩ := hstart.run_moveAll hnodup hlists hshare
  rw [List.nil_append] at hdone
  -- the pending tasks at the end
  have hperm : (pendingAt (w'.stores s.node.address)).Perm after := by
    refine hdone.perm_pendingAt ?_
    rw [hpending]
    exact keys_of_rebalanced hafter
  have hassigned : ∀ v, loadOf (pendingAt (w'.stores s.node.address)) v = loadOf after v :=
    fun v => hperm.countP_eq _
  have hreturned : ∀ v ∈ live, moves.load.get v = some (loadOf after v) := by
    simpa using hdone.loads
  have hreply : run env (doRebalance s) w = (.ok (.done live moves), w') := by
    unfold doRebalance
    rw [run_act_bind, hfirst, if_neg (by omega), run_act_bind, hitems, run_bind_eq_ok hrun₁, if_neg]
    · rw [run_bind_eq_ok hrun]
      rfl
    · rintro rfl
      exact absurd hpos (by rw [← hcount]; exact Nat.lt_irrefl 0)
  refine ⟨moves, w', hreply, fun t record hrecord hstatus => ?_, hdone.workers, fun v hv => ?_, ?_,
    fun v n hn => ?_⟩
  · have hmem : (t, record) ∈ pending := by
      rw [← hpending]
      exact mem_pendingAt.2 ⟨recordAt_eq_some.1 hrecord, hstatus⟩
    obtain ⟨⟨t', record'⟩, he', hid, hkind⟩ := exists_rebalanced hafter hmem
    obtain rfl : t' = t := hid
    refine ⟨record', hdone.records (t', record') ?_, hdone.placed _ he', hkind⟩
    rwa [List.append_nil]
  · rw [hassigned]
    exact hreturned v hv
  · have hvalues : moves.load.entries.map Prod.snd = live.map (loadOf after) := by
      rw [moves.load.values_eq 0, hdone.workers]
      refine List.map_congr_left fun v hv => ?_
      rw [hreturned v hv]
      rfl
    have hall : after.countP (fun e => e.2.workerId ∈ live) = after.length :=
      List.countP_eq_length.2 fun e he => decide_eq_true (hdone.placed e he)
    rw [hvalues, ← hcount, hafter.length_eq, ← hall]
    exact sum_countP (fun e : String × ResultRecord => e.2.workerId) hnodup after
  · have hv := hdone.mem_live hn
    rw [hreturned v hv] at hn
    cases hn
    rw [← hcount]
    exact hdone.bounded v

namespace ThreeNodes

open Storage.ThreeNodes

/-- The world after an operation at `nodeB`. -/
def later (a : Activity) (w : World) : World := (run (env fun _ _ _ => .delivered) a.program w).2

/-- A task is requested for the worker `x`. -/
def askFor (taskId : String) : Activity :=
  .create OneNode.config (services nodeB) (OneNode.body taskId (some "x"))

/-- A worker is heard of. -/
def hears (workerId : String) : Activity := .heartbeat (services nodeB) workerId 0 none none

/-- Three tasks of the worker `x`, of which `nodeB` has copies, and an idle worker; the lists of both
are at `nodeA`. -/
def crowded : World :=
  later (askFor "t3") (later (askFor "t2") (later (askFor "t1") (later (hears "y")
    (later (hears "x") World.empty))))

/-- The hypotheses of `rebalance_spec` are satisfiable in a ring of three nodes. -/
theorem rebalance_spec_crowded : ∃ moves w',
    run (env fun _ _ _ => .delivered) (doRebalance (services nodeB)) crowded =
        (.ok (.done ["x", "y"] moves), w') ∧
      (∀ t record, recordAt crowded "b" t = some record → record.status = .pending →
        ∃ record', recordAt w' "b" t = some record' ∧ record'.workerId ∈ ["x", "y"] ∧
          (record' = record ∨ record' = reassigned record record'.workerId)) ∧
      moves.load.entries.map Prod.fst = ["x", "y"] ∧
      (∀ v ∈ ["x", "y"], moves.load.get v = some (loadOf (pendingAt (w'.stores "b")) v)) ∧
      (moves.load.entries.map Prod.snd).sum = 3 ∧
      ∀ v n, moves.load.get v = some n → n ≤ max 1 (3 / 2) + 1 := by
  have hids : (pendingAt (crowded.stores "b")).map Prod.fst = ["t1", "t2", "t3"] := by decide +kernel
  have hlists : ∀ v ∈ ["x", "y"], ∀ e ∈ pendingAt (crowded.stores "b"),
      Answered (env fun _ _ _ => .delivered) (services nodeB) v e.1 := by
    intro v hv e he
    have hid : e.1 ∈ ["t1", "t2", "t3"] := hids ▸ List.mem_map_of_mem he
    refine answered_of_delivered (fun _ _ _ => rfl) _ ?_ ?_
    · rintro rfl
      exact absurd hv (by decide)
    · intro hempty
      exact absurd hid (by rw [hempty]; decide)
  have hcount : (pendingAt (crowded.stores "b")).length = 3 := by
    simpa using congrArg List.length hids
  exact rebalance_spec (s := services nodeB) (by decide +kernel) (by decide) hlists hcount (by decide)

end ThreeNodes

end Server
end ChordInfra
