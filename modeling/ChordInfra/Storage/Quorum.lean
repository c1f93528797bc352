/-
# What a quorum report is worth

The writes of `register_task`, `update_task`, a soft `deregister_task` and
`ResultService.put` end alike: `_put_on_node` at the owner, then one request to
each replica of the owner's chain, and a report that counts the primary as one
success beside the replicas written.

`_put_on_node` may resolve the owner again and write at another node, while the
chain and the count stay with the node resolved first.  Where the node that took
the write is itself one of the replicas that are then written, it is counted
twice.  The count is right exactly when some node besides the replicas written
holds the record (`durable_iff`).
-/

import ChordInfra.Storage.Run
import Mathlib.Data.Finset.Card
import Mathlib.Tactic.Push
import Mathlib.Tactic.Set

namespace ChordInfra
namespace Storage

open Interact Prog
open ChordInfra.Ring (NodeRef)
open Replication

/-- The process at `a` took a write of `v`. -/
def Entry.Took (v : Value) (a : Address) (e : Entry) : Prop :=
  ∃ k, e.1.writes = some (a, k, v) ∧ e.2 ≠ .lost

/-- The operation is a write of a copy. -/
def Op.PutsReplica : Op → Prop
  | .rpc _ (.putReplica ..) => True
  | _ => False

/-- The process at `a` acknowledged a write of the copy `v`. -/
def Entry.Acked (v : Value) (a : Address) (e : Entry) : Prop :=
  ∃ k, e = (.rpc a (.putReplica k v), .delivered)

/-- The process at `a` holds `v` under some key. -/
def World.Holds (w : World) (v : Value) (a : Address) : Prop := ∃ k, (w.stores a).get k = some v

/-- **What a report of a write says.**  At least `achieved` nodes hold the record,
and at least `required` when it says `COMPLETE`. -/
def Durable (w : World) (v : Value) (r : WriteReport) : Prop :=
  (r.complete = true → ∃ F : Finset Address, r.required ≤ F.card ∧ ∀ a ∈ F, w.Holds v a) ∧
    ∃ F : Finset Address, r.achieved ≤ F.card ∧ ∀ a ∈ F, w.Holds v a

section Taking

variable {env : Env} {w w' : World} {v : Value} {a : Address} {o : Op}

/-- Operations that read, or write `v` somewhere. -/
def Puts (v : Value) (o : Op) : Prop := o.Reads ∨ ∃ a k, o.writes = some (a, k, v)

theorem not_putsReplica (o : Op) (h : o.Reads) : ¬o.PutsReplica := by
  cases o with
  | rpc a r => cases r <;> first | exact fun h => h | exact h.elim
  | _ => exact fun h => h

theorem holds_put {s : Stores} {b : Address} {k : Key} :
    (∃ k', (s.put a k v b).get k' = some v) ↔ (∃ k', (s b).get k' = some v) ∨ a = b := by
  constructor
  · rintro ⟨k', h⟩
    rw [Stores.get_put] at h
    split_ifs at h with hc
    · exact .inr hc.1.symm
    · exact .inl ⟨k', h⟩
  · rintro (⟨k', h⟩ | rfl)
    · refine ⟨k', ?_⟩
      rw [Stores.get_put]
      split_ifs
      · rfl
      · exact h
    · exact ⟨k, Stores.get_put_self _ _ _ _⟩

/-- Every node that holds `v` held it before, or took a write of it since. -/
def Spread (v : Value) (w w' : World) : Prop :=
  w.trace <:+ w'.trace ∧ ∀ a, w'.Holds v a ↔ w.Holds v a ∨ ∃ e ∈ since w w', Entry.Took v a e

theorem Spread.refl (v : Value) (w : World) : Spread v w w :=
  ⟨List.suffix_rfl, fun a => by simp⟩

theorem Spread.trans {w₁ w₂ w₃ : World} (h : Spread v w₁ w₂) (h' : Spread v w₂ w₃) :
    Spread v w₁ w₃ := by
  refine ⟨h.1.trans h'.1, fun a => ?_⟩
  rw [h'.2, h.2, since_trans h.1 h'.1]
  simp only [List.mem_append, or_and_right, exists_or]
  exact or_assoc.trans (or_congr_right or_comm)

theorem Spread.step (h : Puts v o) (env : Env) (w : World) : Spread v w (handle env o w).2 := by
  rcases h with h | ⟨b, k, h⟩
  · obtain ⟨d, hd⟩ := handle_trace env o w
    refine ⟨hd ▸ List.suffix_cons _ _, fun a => ?_⟩
    have hs : since w (handle env o w).2 = [(o, d)] := since_eq hd
    simp [hs, World.Holds, handle_reads h, Entry.Took, h.writes]
  · obtain ⟨d, hd, hstores⟩ := handle_writes h env w
    refine ⟨hd ▸ List.suffix_cons _ _, fun a => ?_⟩
    have hs : since w (handle env o w).2 = [(o, d)] := since_eq hd
    simp only [World.Holds, hstores, hs, List.mem_singleton, exists_eq_left, Entry.Took, h]
    by_cases hlost : d = .lost
    · simp [hlost]
    · rw [if_neg hlost, holds_put]
      simp [hlost, eq_comm]

/-- **What is held is what was held and what was taken.** -/
theorem Spread.run {α : Type} {p : M α} (hp : Only (Puts v) p) (env : Env) (w : World) :
    Spread v w (Storage.run env p w).2 :=
  hp.exec (R := Spread v) (Spread.refl v) Spread.trans (fun w _ h => Spread.step h env w) w

end Taking

/-! ### The replicas written -/

section Visiting

variable {env : Env} {w w' : World} {r : Request}

/-- The tries of a request: only the request is performed, and it ends with a
reply exactly when one of them was delivered. -/
theorem run_requestTries (env : Env) (a : Address) (r : Request) (n : ℕ) (w : World) :
    ((∃ x, (run env (Transport.requestTries a r n) w).1 = .ok x) ↔
      (Op.rpc a r, Delivery.delivered) ∈ since w (run env (Transport.requestTries a r n) w).2) := by
  induction n generalizing w with
  | zero =>
    have hzero : run env (Transport.requestTries a r 0) w = (.error .request, w) := rfl
    simp [hzero]
  | succ n ih =>
    have hstep : w.trace <:+ (handle env (.rpc a r) w).2.trace := List.suffix_cons _ _
    have hone : since w (handle env (.rpc a r) w).2 =
        [(.rpc a r, env.deliver w.trace.length a r)] := since_eq rfl
    by_cases hd : env.deliver w.trace.length a r = .delivered
    · have hsome : (handle env (.rpc a r) w).1 = some (World.answer env w a r) := if_pos hd
      unfold Transport.requestTries
      rw [run_act_bind, hsome]
      simp only [run_pure, hone, hd]
      simp
    · have hnone : (handle env (.rpc a r) w).1 = none := if_neg hd
      unfold Transport.requestTries
      rw [run_act_bind, hnone]
      simp only
      rw [ih, since_trans hstep (run_trace_suffix _ _ _), hone]
      simp [Ne.symm hd]

/-- A visit of a replica that performs one request, `r`, any number of times, and
succeeds exactly when it was delivered. -/
def Visits (r : Request) (visit : NodeRef → M Bool) : Prop :=
  ∀ env (n : NodeRef) w, ∃ ok, (run env (visit n) w).1 = .ok ok ∧
    (ok = true ↔ (Op.rpc n.address r, Delivery.delivered) ∈ since w (run env (visit n) w).2) ∧
    ∀ e ∈ since w (run env (visit n) w).2, e.1 = .rpc n.address r

theorem visits_requestWithRetry (r : Request) (tries : ℕ) :
    Visits r fun n => requestWithRetry n.address r tries := by
  intro env n w
  have honly : Only (fun o => o = .rpc n.address r) (requestWithRetry n.address r tries) := by
    apply Only.requestWithRetry
    rfl
  suffices h : ∃ ok, (run env (requestWithRetry n.address r tries) w).1 = .ok ok ∧
      (ok = true ↔ (Op.rpc n.address r, Delivery.delivered) ∈
        since w (run env (requestWithRetry n.address r tries) w).2) by
    obtain ⟨ok, hok, hiff⟩ := h
    exact ⟨ok, hok, hiff, honly.since env w⟩
  clear honly
  induction tries generalizing w with
  | zero =>
    have hzero : run env (requestWithRetry n.address r 0) w = (.ok false, w) := rfl
    exact ⟨false, rfl, by simp [hzero]⟩
  | succ tries ih =>
    have hone := run_requestTries env n.address r (Transport.rpcRetries + 1) w
    have hmono := run_trace_suffix env (Transport.request n.address r) w
    unfold requestWithRetry
    rw [run_attempt_bind]
    cases hres : (run env (Transport.request n.address r) w).1 with
    | ok x => exact ⟨true, rfl, iff_of_true rfl (hone.1 ⟨x, hres⟩)⟩
    | error e =>
      obtain ⟨ok, hok, hiff⟩ := ih (run env (Transport.request n.address r) w).2
      refine ⟨ok, hok, hiff.trans ?_⟩
      rw [since_trans hmono (run_trace_suffix _ _ _), List.mem_append, or_iff_left]
      intro hmem
      obtain ⟨x, hx⟩ := hone.2 hmem
      cases hres.symm.trans hx

/-- **The replicas reported are the replicas that acknowledged.** -/
theorem run_visitAll {visit : NodeRef → M Bool} (hvisit : Visits r visit) (env : Env)
    {replicas : List NodeRef} (hnodup : (replicas.map NodeRef.address).Nodup) (w : World) :
    ∃ written, (run env (visitAll visit replicas) w).1 = .ok written ∧
      written.Sublist replicas ∧
      (∀ a, a ∈ written.map NodeRef.address ↔
        (Op.rpc a r, Delivery.delivered) ∈ since w (run env (visitAll visit replicas) w).2) ∧
      ∀ e ∈ since w (run env (visitAll visit replicas) w).2,
        ∃ n ∈ replicas, e.1 = .rpc n.address r := by
  induction replicas generalizing w with
  | nil =>
    have hnil : run env (visitAll visit []) w = (.ok [], w) := rfl
    exact ⟨[], rfl, List.Sublist.refl _, by simp [hnil], by simp [hnil]⟩
  | cons n replicas ih =>
    obtain ⟨hn, hrest⟩ := List.nodup_cons.1 hnodup
    obtain ⟨ok, hok, hokiff, hokonly⟩ := hvisit env n w
    have hmono := run_trace_suffix env (visit n) w
    obtain ⟨written, hwritten, hsub, hiff, honly⟩ := ih hrest (run env (visit n) w).2
    have hmono' := run_trace_suffix env (visitAll visit replicas) (run env (visit n) w).2
    have hrun : run env (visitAll visit (n :: replicas)) w =
        (.ok (if ok then n :: written else written),
          (run env (visitAll visit replicas) (run env (visit n) w).2).2) := by
      rw [visitAll_cons, run_bind hok, run_bind hwritten]
      rfl
    rw [hrun]
    refine ⟨_, rfl, ?_, fun a => ?_, fun e he => ?_⟩
    · split_ifs
      · exact hsub.cons_cons n
      · exact hsub.cons n
    · simp only
      rw [since_trans hmono hmono', List.mem_append, ← hiff a]
      have hhead : (Op.rpc a r, Delivery.delivered) ∈ since w (run env (visit n) w).2 ↔
          ok = true ∧ a = n.address := by
        constructor
        · intro hmem
          have ha : a = n.address := by
            have := hokonly _ hmem
            simp only [Op.rpc.injEq] at this
            exact this.1
          exact ⟨hokiff.2 (ha ▸ hmem), ha⟩
        · rintro ⟨h, rfl⟩
          exact hokiff.1 h
      rw [hhead]
      cases ok <;> simp [or_comm]
    · simp only at he
      rw [since_trans hmono hmono', List.mem_append] at he
      rcases he with he | he
      · obtain ⟨m, hm, heq⟩ := honly e he
        exact ⟨m, List.mem_cons_of_mem _ hm, heq⟩
      · exact ⟨n, List.mem_cons_self, hokonly e he⟩

/-- The nodes of a chain have distinct addresses, none of them visited before. -/
theorem run_chainFrom (env : Env) (visited : List Address) (current : NodeRef) (n : ℕ) (w : World) :
    ∃ chain, (run env (chainFrom visited current n) w).1 = .ok chain ∧
      (chain.map NodeRef.address).Nodup ∧
      ∀ m ∈ chain, m.address ∉ visited := by
  induction n generalizing visited current w with
  | zero => exact ⟨[], rfl, List.nodup_nil, by simp⟩
  | succ n ih =>
    unfold chainFrom
    split_ifs with hv
    · exact ⟨[], rfl, List.nodup_nil, by simp⟩
    · have hself : ∃ chain, (run env (pure [current] : M (List NodeRef))
          (run env (Transport.request current.address .getState) w).2).1 = .ok chain ∧
          (chain.map NodeRef.address).Nodup ∧ ∀ m ∈ chain, m.address ∉ visited :=
        ⟨[current], rfl, List.nodup_singleton _, by simpa using hv⟩
      rw [run_attempt_bind]
      split
      · split_ifs
        · exact hself
        · rename_i successor _ _
          obtain ⟨rest, hrest, hnodup, hnot⟩ := ih (current.address :: visited) successor
            (run env (Transport.request current.address .getState) w).2
          refine ⟨current :: rest, by rw [run_bind hrest]; rfl, ?_, ?_⟩
          · refine List.nodup_cons.2 ⟨fun hmem => ?_, hnodup⟩
            obtain ⟨m, hm, ha⟩ := List.mem_map.1 hmem
            exact hnot m hm (ha ▸ List.mem_cons_self)
          · intro m hm
            rcases List.mem_cons.1 hm with rfl | hm
            · exact hv
            · exact fun h => hnot m hm (List.mem_cons_of_mem _ h)
      · exact hself

theorem run_getReplicas (env : Env) (k : ℕ) (primary : NodeRef) (w : World) :
    ∃ replicas, (run env (getReplicas k primary) w).1 = .ok replicas ∧
      (replicas.map NodeRef.address).Nodup := by
  obtain ⟨chain, hchain, hnodup, -⟩ := run_chainFrom env [] primary (max 1 k) w
  refine ⟨chain.tail, ?_, ?_⟩
  · unfold getReplicas getSuccessorChain
    rw [run_bind hchain]
    rfl
  · exact hnodup.sublist (chain.tail_sublist.map _)

end Visiting

/-! ### A write call -/

/-- How a write call of `v` ended: the nodes that hold `v`, and the report. -/
structure Wrote (k : ℕ) (v : Value) (w w' : World) (r : WriteReport) : Prop where
  spread : Spread v w w'
  report_eq : r = report k r.replicasWritten
  nodup : (r.replicasWritten.map NodeRef.address).Nodup
  acked : ∀ a, a ∈ r.replicasWritten.map NodeRef.address ↔ ∃ e ∈ since w w', Entry.Acked v a e

/-- The node took a write of `v` since, or held it before. -/
def HoldsSince (v : Value) (w w' : World) (a : Address) : Prop :=
  w.Holds v a ∨ ∃ e ∈ since w w', Entry.Took v a e

/-- The report is right exactly when some node besides the replicas that
acknowledged holds the record. -/
theorem Wrote.written_iff {k : ℕ} {v : Value} {w w' : World} {r : WriteReport}
    (h : Wrote k v w w' r) :
    Durable w' v r ↔ ∃ a, HoldsSince v w w' a ∧ ¬∃ e ∈ since w w', Entry.Acked v a e := by
  have hachieved : r.achieved = 1 + r.replicasWritten.length := by
    rw [h.report_eq]
    rfl
  have hlen : (r.replicasWritten.map NodeRef.address).toFinset.card = r.replicasWritten.length := by
    rw [List.toFinset_card_of_nodup h.nodup, List.length_map]
  constructor
  · rintro ⟨-, F, hcard, hF⟩
    obtain ⟨a, ha, hnot⟩ : ∃ a ∈ F, a ∉ (r.replicasWritten.map NodeRef.address).toFinset := by
      by_contra hsub
      push Not at hsub
      have := Finset.card_le_card hsub
      omega
    rw [List.mem_toFinset, h.acked] at hnot
    exact ⟨a, (h.spread.2 a).1 (hF a ha), hnot⟩
  · rintro ⟨a, hheld, hnot⟩
    have hmem : a ∉ (r.replicasWritten.map NodeRef.address).toFinset := by
      rwa [List.mem_toFinset, h.acked]
    have hall : ∃ F : Finset Address, r.achieved ≤ F.card ∧ ∀ b ∈ F, w'.Holds v b := by
      refine ⟨insert a (r.replicasWritten.map NodeRef.address).toFinset, ?_, fun b hb => ?_⟩
      · rw [Finset.card_insert_of_notMem hmem]
        omega
      · rw [h.spread.2]
        rcases Finset.mem_insert.1 hb with rfl | hb
        · exact hheld
        · rw [List.mem_toFinset, h.acked] at hb
          obtain ⟨e, he, key, rfl⟩ := hb
          exact .inr ⟨_, he, key, rfl, by simp⟩
    refine ⟨fun hcomplete => ?_, hall⟩
    obtain ⟨F, hcard, hF⟩ := hall
    refine ⟨F, le_trans ?_ hcard, hF⟩
    rw [h.report_eq] at hcomplete ⊢
    exact of_decide_eq_true hcomplete

/-- Every run of the program that ends is a write call, of the value and with the
report that `view` finds in what it returns. -/
def Writes {α : Type} (k : ℕ) (view : α → Value × WriteReport) (p : M α) : Prop :=
  ∀ env w x w', run env p w = (.ok x, w') → Wrote k (view x).1 w w' (view x).2

namespace Writes

variable {α β : Type} {k : ℕ} {view : α → Value × WriteReport}

theorem raise (e : Exc) : Writes k view (Prog.raise e) := by
  intro env w x w' h
  cases h

/-- Reads may come first. -/
theorem bind {p : M β} {f : β → M α} (hp : Only Op.Reads p) (hf : ∀ y, Writes k view (f y)) :
    Writes k view (p >>= f) := by
  intro env w x w' h
  cases hres : (run env p w).1 with
  | error e =>
    rw [run_bind_error hres] at h
    cases h
  | ok y =>
    rw [run_bind hres] at h
    have hw := hf y env _ x w' h
    have hmono := run_trace_suffix env p w
    have hreads := hp.since env w
    have hsince := since_trans hmono hw.spread.1
    have hacked (v : Value) (a : Address) (e : Entry) (he : e ∈ since w (run env p w).2) :
        ¬Entry.Acked v a e := by
      rintro ⟨key, rfl⟩
      exact hreads _ he
    have htook (v : Value) (a : Address) (e : Entry) (he : e ∈ since w (run env p w).2) :
        ¬Entry.Took v a e := by
      rintro ⟨key, hwrites, -⟩
      rw [(hreads e he).writes] at hwrites
      cases hwrites
    refine ⟨⟨hmono.trans hw.spread.1, fun a => ?_⟩, hw.report_eq, hw.nodup, fun a => ?_⟩
    · rw [hw.spread.2, hsince, World.Holds, hp.stores]
      refine or_congr_right ⟨?_, ?_⟩
      · rintro ⟨e, he, h⟩
        exact ⟨e, List.mem_append_left _ he, h⟩
      · rintro ⟨e, he, h⟩
        exact ⟨e, (List.mem_append.1 he).resolve_right fun he' => htook _ _ e he' h, h⟩
    · rw [hw.acked, hsince]
      constructor
      · rintro ⟨e, he, h⟩
        exact ⟨e, List.mem_append_left _ he, h⟩
      · rintro ⟨e, he, h⟩
        exact ⟨e, (List.mem_append.1 he).resolve_right fun he' => hacked _ _ e he' h, h⟩

/-- What is returned may be wrapped. -/
theorem map {p : M α} {g : α → β} {view' : β → Value × WriteReport} (hp : Writes k view p)
    (hview : ∀ x, view' (g x) = view x) : Writes k view' (p >>= fun x => Pure.pure (g x)) := by
  intro env w y w' h
  cases hres : (run env p w).1 with
  | error e =>
    rw [run_bind_error hres] at h
    cases h
  | ok x =>
    rw [run_bind hres] at h
    cases h
    rw [hview]
    exact hp env w x _ (Prod.ext hres rfl)

/-- **The common end of the write calls:** the owner, or whom it is resolved to
again, and the replicas of the chain. -/
theorem putOnNode_replicateWith {s : Service} {primary : NodeRef} {key key' : Key} {v : Value}
    {visit : NodeRef → M Bool} (hvisit : Visits (.putReplica key' v) visit)
    (honly : ∀ n, Only (Puts v) (visit n)) :
    Writes k (fun r => (v, r))
      (s.putOnNode primary key v >>= fun _ => replicateWith k visit primary) := by
  intro env w r w' h
  have hput (P : Op → Prop) (hreads : ∀ o, o.Reads → P o) (hlocal : ∀ a, P (.put a key v))
      (hremote : ∀ a, P (.rpc a (.put key v))) : Only P (s.putOnNode primary key v) :=
    Only.putOnNode (hreads _ trivial) (hlocal _) hremote _
  have hputs : Only (Puts v)
      (s.putOnNode primary key v >>= fun _ => replicateWith k visit primary) :=
    .bind (hput _ (fun _ h => .inl h) (fun a => .inr ⟨a, key, rfl⟩) fun a => .inr ⟨a, key, rfl⟩)
      fun _ => .replicateWith (fun _ => .inl trivial) honly _ _
  have hspread := Spread.run hputs env w
  cases hres : (run env (s.putOnNode primary key v) w).1 with
  | error e =>
    rw [run_bind_error hres] at h
    cases h
  | ok u =>
    rw [h] at hspread
    rw [run_bind hres] at h
    have hmono₁ := run_trace_suffix env (s.putOnNode primary key v) w
    have hno₁ : ∀ e ∈ since w (run env (s.putOnNode primary key v) w).2, ¬e.1.PutsReplica :=
      (hput (fun o => ¬o.PutsReplica) not_putsReplica (fun _ h => h) fun _ h => h).since env w
    generalize (run env (s.putOnNode primary key v) w).2 = w₁ at h hmono₁ hno₁
    obtain ⟨replicas, hreplicas, hnodup⟩ := run_getReplicas env k primary w₁
    have hstates : Only (fun o => ¬o.PutsReplica) (getReplicas k primary) :=
      .getReplicas (fun _ h => h) k primary
    have hno₂ := hstates.since env w₁
    have hmono₂ := run_trace_suffix env (getReplicas k primary) w₁
    unfold replicateWith at h
    rw [run_bind hreplicas] at h
    generalize (run env (getReplicas k primary) w₁).2 = w₂ at h hmono₂ hno₂
    obtain ⟨written, hwritten, hsub, hacked, hvisited⟩ := run_visitAll hvisit env hnodup w₂
    have hmono₃ := run_trace_suffix env (visitAll visit replicas) w₂
    rw [run_bind hwritten] at h
    obtain ⟨rfl, rfl⟩ : report k written = r ∧ (run env (visitAll visit replicas) w₂).2 = w' := by
      simpa using h
    refine ⟨hspread, rfl, hnodup.sublist (hsub.map _), fun a => (hacked a).trans ?_⟩
    rw [since_trans (hmono₁.trans hmono₂) hmono₃, since_trans hmono₁ hmono₂]
    constructor
    · exact fun hmem => ⟨_, List.mem_append_left _ hmem, key', rfl⟩
    · rintro ⟨e, he, key'', rfl⟩
      rcases List.mem_append.1 he with he | he
      · obtain ⟨n, -, heq⟩ := hvisited _ he
        simp only [Op.rpc.injEq, Request.putReplica.injEq] at heq
        obtain ⟨rfl, rfl, -⟩ := heq
        exact he
      · rcases List.mem_append.1 he with he | he
        · exact absurd trivial (hno₂ _ he)
        · exact absurd trivial (hno₁ _ he)

/-- What a write of a task says it wrote. -/
def taskView (x : TaskWritten) : Value × WriteReport := (.task x.task, x.storage)

theorem store (s : Service) (key : Key) (primary : NodeRef) (record : TaskRecord) :
    Writes s.replicationK taskView (TaskService.store s key primary record) := by
  have h : Writes s.replicationK (fun r => (.task record, r))
      (s.putOnNode primary key (.task record) >>= fun _ =>
        replicateWrite s.replicationK key (.task record) primary) :=
    putOnNode_replicateWith (visits_requestWithRetry (.putReplica key (.task record)) _)
      fun n => .requestWithRetry (.inr ⟨_, _, rfl⟩) _
  have h' : Writes s.replicationK taskView
      (_ >>= fun r => Pure.pure (⟨record, r⟩ : TaskWritten)) := h.map fun _ => rfl
  rwa [bind_assoc'] at h'

theorem registerTask (s : Service) (taskInput : Fields) :
    Writes s.replicationK taskView (TaskService.registerTask s taskInput) := by
  refine bind ?_ fun _ => bind ?_ fun _ => bind (.lift _) fun _ => bind (.act trivial) fun _ =>
    bind (.act trivial) fun _ => bind (.lift _) fun _ =>
    bind (.getReplicas (fun _ => trivial) _ _) fun _ => bind (.act trivial) fun _ => store _ _ _ _
  · unfold TaskService.checkConflict
    refine .ite (.bind (.getTask _ _ _) fun existing => ?_) (.pure _)
    cases existing with
    | some record => exact .ite (.pure _) (.raise _)
    | none => exact .pure _
  · exact .ite (.pure _) (.bind (.act trivial) fun _ => .pure _)

theorem updateTask (s : Service) (taskId : String) (patch : Fields) :
    Writes s.replicationK taskView (TaskService.updateTask s taskId patch) := by
  refine bind (.lift _) fun _ => bind (.act trivial) fun _ =>
    bind (.existingTask _ _) fun existing => ?_
  split_ifs
  · exact raise _
  · exact bind (.act trivial) fun _ => bind (.lift _) fun _ => store _ _ _ _

/-- What a removal says it wrote; a hard one writes nothing. -/
def deregisterView (k : ℕ) : Deregistered → Value × WriteReport
  | .soft x => taskView x
  | .hard _ => (.other .null, report k [])

theorem deregisterTask (s : Service) (taskId : String) :
    Writes s.replicationK (deregisterView s.replicationK)
      (TaskService.deregisterTask s taskId false) := by
  refine bind (.lift _) fun _ => bind (.act trivial) fun _ =>
    bind (.existingTask _ _) fun existing => ?_
  rw [if_neg Bool.false_ne_true]
  exact bind (.act trivial) fun _ => (store _ _ _ _).map fun _ => rfl

theorem putResult (s : Service) (taskId : String) (record : ResultRecord) :
    Writes s.replicationK (fun r => (.result record, r)) (ResultService.put s taskId record) := by
  refine bind (.lift _) fun _ => bind (.lift _) fun _ => bind (.act trivial) fun _ => ?_
  exact putOnNode_replicateWith (visits_requestWithRetry _ _)
    fun n => .requestWithRetry (.inr ⟨_, _, rfl⟩) _

end Writes

/-- A write call that returned, with the value it wrote, its report and the world
it ended in. -/
inductive Returned (env : Env) (s : Service) (w : World) : Value → WriteReport → World → Prop
  | registerTask {taskInput : Fields} {x : TaskWritten} {w' : World} :
      run env (TaskService.registerTask s taskInput) w = (.ok x, w') →
      Returned env s w (.task x.task) x.storage w'
  | updateTask {taskId : String} {patch : Fields} {x : TaskWritten} {w' : World} :
      run env (TaskService.updateTask s taskId patch) w = (.ok x, w') →
      Returned env s w (.task x.task) x.storage w'
  | deregisterTask {taskId : String} {x : TaskWritten} {w' : World} :
      run env (TaskService.deregisterTask s taskId false) w = (.ok (.soft x), w') →
      Returned env s w (.task x.task) x.storage w'
  | putResult {taskId : String} {record : ResultRecord} {r : WriteReport} {w' : World} :
      run env (ResultService.put s taskId record) w = (.ok r, w') →
      Returned env s w (.result record) r w'

section Returned

variable {env : Env} {s : Service} {w w' : World} {v : Value} {r : WriteReport}

theorem Returned.wrote (h : Returned env s w v r w') : Wrote s.replicationK v w w' r := by
  cases h with
  | registerTask h => exact Writes.registerTask _ _ _ _ _ _ h
  | updateTask h => exact Writes.updateTask _ _ _ _ _ _ _ h
  | deregisterTask h => exact Writes.deregisterTask _ _ _ _ _ _ h
  | putResult h => exact Writes.putResult _ _ _ _ _ _ _ h

/-- **When a report of a write is right.**  Whatever requests fail and whatever
each resolution of the owner answers, the record is held by as many nodes as the
report says exactly when some node holds it that is not one of the replicas that
acknowledged a copy: a node that took the primary write, or a copy whose answer
was lost, or held that very record before. -/
theorem Returned.durable_iff (h : Returned env s w v r w') :
    Durable w' v r ↔ ∃ a, HoldsSince v w w' a ∧ ¬∃ e ∈ since w w', Entry.Acked v a e :=
  h.wrote.written_iff

end Returned

section Example

open ThreeNodes

/-- Writes to `nodeA` are lost, and so are the requests for the state of `nodeB`;
lookups answer `nodeA` until its write has failed, and `nodeB` from then on. -/
def movedPrimary : Env :=
  { ThreeNodes.env fun _ a r => match r with
      | .put .. => if a = "a" then .lost else .delivered
      | .getState => if a = "b" then .lost else .delivered
      | _ => .delivered with
    findSuccessor := fun t _ _ => if t < 20 then nodeA else nodeB }

/-- The hypothesis of `Returned.durable_iff` is satisfiable. -/
theorem durable_iff_movedPrimary :
    ∃ x w', run movedPrimary (TaskService.registerTask (services nodeC) taskInput) World.empty =
        (.ok x, w') ∧
      (Durable w' (.task x.task) x.storage ↔
        ∃ a, HoldsSince (.task x.task) World.empty w' a ∧
          ¬∃ e ∈ since World.empty w', Entry.Acked (.task x.task) a e) := by
  obtain ⟨x, w', hrun⟩ : ∃ x w', run movedPrimary
      (TaskService.registerTask (services nodeC) taskInput) World.empty = (.ok x, w') :=
    ⟨_, _, rfl⟩
  exact ⟨x, w', hrun, Returned.durable_iff (.registerTask hrun)⟩

/-- **A write reported `COMPLETE` that one node holds.**  The write at the owner
`nodeA` fails and moves to `nodeB`, which is then written again as the replica of
`nodeA`: with a factor of three and a quorum of two, `achieved` is two. -/
theorem registerTask_movedPrimary :
    ∃ x w', run movedPrimary (TaskService.registerTask (services nodeC) taskInput) World.empty =
        (.ok x, w') ∧
      x.storage.complete = true ∧ x.storage.required = 2 ∧ x.storage.achieved = 2 ∧
      (∀ a, w'.Holds (.task x.task) a → a = "b") ∧ ¬Durable w' (.task x.task) x.storage := by
  have hone : ∃ x w', run movedPrimary (TaskService.registerTask (services nodeC) taskInput)
        World.empty = (.ok x, w') ∧
      x.storage.complete = true ∧ x.storage.required = 2 ∧ x.storage.achieved = 2 ∧
      w'.stores = (World.empty.stores.put "b" (.task "t") (.task x.task)).put "b" (.task "t")
        (.task x.task) := ⟨_, _, rfl, rfl, rfl, rfl, rfl⟩
  obtain ⟨x, w', hrun, hcomplete, hrequired, hachieved, hstores⟩ := hone
  have hholds (a : Address) (h : w'.Holds (.task x.task) a) : a = "b" := by
    obtain ⟨k, hk⟩ := h
    rw [hstores, Stores.get_put, Stores.get_put] at hk
    split_ifs at hk with h₁
    · exact h₁.1
    · cases hk
  refine ⟨x, w', hrun, hcomplete, hrequired, hachieved, hholds, ?_⟩
  rintro ⟨-, F, hcard, hF⟩
  have hsub : F ⊆ {"b"} := fun a ha => Finset.mem_singleton.2 (hholds a (hF a ha))
  have hle : F.card ≤ 1 := Finset.card_le_card hsub
  omega

end Example

end Storage
end ChordInfra
