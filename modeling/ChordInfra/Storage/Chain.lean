/-
# The successor chain

`get_successor_chain` asks one node after the other for its successor.  Whatever it is
answered, it ends with different nodes, each of which the one before has named
(`chain_reported`).

In a ring with correct successors it follows the ring: its nodes are the members clockwise
from the primary, up to the first that does not answer (`chain_clockwise`).  So all processes
that get the same answers keep the copies of a record on the same nodes.
-/

import ChordInfra.Storage.Run
import ChordInfra.Ring.Departure
import Mathlib.Data.List.Chain
import Mathlib.Data.List.Sort

namespace ChordInfra

/-! ### The members clockwise from one of them -/

namespace Ring
namespace Members

open Cyclic

variable {M : ℕ} {r : Members M} {p m m' : ChordNode M} {before after : List (ChordNode M)}

/-- All members, in the order in which they come clockwise from `p` on. -/
def clockwise (r : Members M) (p : ChordNode M) : List (ChordNode M) :=
  r.nodes.insertionSort fun a b => dist (2 ^ M) p.nodeId a.nodeId ≤ dist (2 ^ M) p.nodeId b.nodeId

theorem clockwise_perm (r : Members M) (p : ChordNode M) : (r.clockwise p).Perm r.nodes :=
  List.perm_insertionSort _ _

theorem mem_clockwise : m ∈ r.clockwise p ↔ m ∈ r.nodes := (r.clockwise_perm p).mem_iff

theorem clockwise_addresses (r : Members M) (p : ChordNode M) :
    ((r.clockwise p).map ChordNode.address).Nodup :=
  ((r.clockwise_perm p).map _).nodup_iff.2 r.addresses_distinct

theorem clockwise_sorted (hp : p ∈ r.nodes) : (r.clockwise p).Pairwise fun a b =>
    dist (2 ^ M) p.nodeId a.nodeId < dist (2 ^ M) p.nodeId b.nodeId := by
  have hle := List.pairwise_insertionSort
    (fun a b : ChordNode M => dist (2 ^ M) p.nodeId a.nodeId ≤ dist (2 ^ M) p.nodeId b.nodeId) r.nodes
  have hids : ((r.clockwise p).map ChordNode.nodeId).Nodup :=
    ((r.clockwise_perm p).map _).nodup_iff.2 r.ids_distinct
  refine (hle.and (List.pairwise_map.1 hids)).imp_of_mem fun {a b} ha hb hab => ?_
  refine lt_of_le_of_ne hab.1 fun he => hab.2 ?_
  exact eq_of_dist_eq (r.ids_lt p hp) (r.ids_lt a (mem_clockwise.1 ha))
    (r.ids_lt b (mem_clockwise.1 hb)) he

/-- The first one is the member itself. -/
theorem clockwise_eq_cons (hp : p ∈ r.nodes) : ∃ rest, r.clockwise p = p :: rest := by
  have hsorted := clockwise_sorted hp
  have hmem : p ∈ r.clockwise p := mem_clockwise.2 hp
  cases hc : r.clockwise p with
  | nil =>
    rw [hc] at hmem
    cases hmem
  | cons c rest =>
    rw [hc] at hmem hsorted
    rcases List.mem_cons.1 hmem with rfl | hrest
    · exact ⟨rest, rfl⟩
    · have hlt := (List.pairwise_cons.1 hsorted).1 p hrest
      rw [dist_self] at hlt
      exact absurd hlt (Nat.not_lt_zero _)

/-- Each member is followed by the next one clockwise. -/
theorem nextAfter_of_clockwise (hp : p ∈ r.nodes)
    (hsplit : r.clockwise p = before ++ m :: m' :: after) : r.NextAfter m m' := by
  have hsorted := clockwise_sorted hp
  have hmem : ∀ x, x ∈ before ++ m :: m' :: after ↔ x ∈ r.nodes := fun x =>
    hsplit ▸ mem_clockwise
  rw [hsplit] at hsorted
  obtain ⟨-, hrest, hbefore⟩ := List.pairwise_append.1 hsorted
  obtain ⟨hm, hafter⟩ := List.pairwise_cons.1 hrest
  have hidp := r.ids_lt p hp
  have hm' : m' ∈ r.nodes := (hmem m').1 (by simp)
  have hidm := r.ids_lt m ((hmem m).1 (by simp))
  have hidm' := r.ids_lt m' hm'
  have hlt := hm m' (by simp)
  refine ⟨hm', fun x hx => ?_⟩
  have hidx := r.ids_lt x hx
  have hx : dist (2 ^ M) p.nodeId x.nodeId ≤ dist (2 ^ M) p.nodeId m.nodeId ∨
      dist (2 ^ M) p.nodeId m'.nodeId ≤ dist (2 ^ M) p.nodeId x.nodeId := by
    rcases List.mem_append.1 ((hmem x).2 hx) with hx | hx
    · exact .inl (hbefore x hx m (by simp)).le
    · rcases List.mem_cons.1 hx with rfl | hx
      · exact .inl le_rfl
      · rcases List.mem_cons.1 hx with rfl | hx
        · exact .inr le_rfl
        · exact .inr ((List.pairwise_cons.1 hafter).1 x hx).le
  unfold Cyclic.dist at *
  unfold arc
  split_ifs at * <;> omega

/-- And the last one by the first. -/
theorem nextAfter_of_clockwise_last (hp : p ∈ r.nodes) (hsplit : r.clockwise p = before ++ [m]) :
    r.NextAfter m p := by
  have hsorted := clockwise_sorted hp
  have hmem : ∀ x, x ∈ before ++ [m] ↔ x ∈ r.nodes := fun x => hsplit ▸ mem_clockwise
  rw [hsplit] at hsorted
  refine ⟨hp, fun x hx => ?_⟩
  have hidp := r.ids_lt p hp
  have hidm := r.ids_lt m ((hmem m).1 (by simp))
  have hidx := r.ids_lt x hx
  have hle : dist (2 ^ M) p.nodeId x.nodeId ≤ dist (2 ^ M) p.nodeId m.nodeId := by
    rcases List.mem_append.1 ((hmem x).2 hx) with hx | hx
    · exact ((List.pairwise_append.1 hsorted).2.2 x hx m (by simp)).le
    · rw [List.mem_singleton.1 hx]
  unfold Cyclic.dist at *
  unfold arc
  split_ifs at * <;> omega

end Members
end Ring

/-! ### What is answered -/

namespace Storage

open Interact Prog Replication
open ChordInfra.Ring (NodeRef ChordNode Members)

section Reported

variable {α W : Type} {H : (o : Op) → W → o.Res × W} {a : Address} {b : NodeRef}

/-- In the run the node at `a` was asked for its state and named `b`. -/
def Reported (H : (o : Op) → W → o.Res × W) (p : M α) (w : W) (a : Address) (b : NodeRef) : Prop :=
  (⟨.rpc a .getState, some (some b)⟩ : Σ o, Op.Res o) ∈ log H p w

/-- What a request returns was answered to one of its tries. -/
theorem reported_requestTries {tries : ℕ} {w : W}
    (h : (exec H (Transport.requestTries a .getState tries) w).1 = .ok (some b)) :
    Reported H (Transport.requestTries a .getState tries) w a b := by
  induction tries generalizing w with
  | zero => cases h
  | succ tries ih =>
    unfold Reported at ih ⊢
    unfold Transport.requestTries at h ⊢
    rw [perform_bind, exec_op] at h
    rw [perform_bind, log_op]
    cases hr : (H (.rpc a .getState) w).1 with
    | none =>
      rw [hr] at h
      exact List.mem_cons_of_mem _ (ih h)
    | some reply =>
      rw [hr] at h
      have hreply : reply = some b := Except.ok.inj h
      rw [hreply]
      exact List.mem_cons_self

/-- A list of different nodes from `current` on, none of them visited before, each the one that
the one before it has named. -/
structure Follows (reported : Address → NodeRef → Prop) (visited : List Address)
    (current : NodeRef) (l : List NodeRef) : Prop where
  head : ∀ c ∈ l.head?, c = current
  fresh : ∀ c ∈ l, c.address ∉ visited
  distinct : (l.map NodeRef.address).Nodup
  reported : l.IsChain fun a b => reported a.address b

theorem Follows.nil {reported : Address → NodeRef → Prop} {visited : List Address}
    {current : NodeRef} : Follows reported visited current [] :=
  ⟨by simp, by simp, .nil, .nil⟩

theorem Follows.singleton {reported : Address → NodeRef → Prop} {visited : List Address}
    {current : NodeRef} (h : current.address ∉ visited) :
    Follows reported visited current [current] :=
  ⟨by simp, by simpa using h, by simp, .singleton _⟩

/-- One more node at the front. -/
theorem Follows.cons {reported reported' : Address → NodeRef → Prop} {visited : List Address}
    {current successor : NodeRef} {l : List NodeRef} (hnew : current.address ∉ visited)
    (hnamed : reported' current.address successor) (hmono : ∀ a b, reported a b → reported' a b)
    (h : Follows reported (current.address :: visited) successor l) :
    Follows reported' visited current (current :: l) where
  head c hc := by simpa using hc.symm
  fresh c hc := by
    rcases List.mem_cons.1 hc with rfl | hc
    · exact hnew
    · exact fun hv => h.fresh c hc (List.mem_cons_of_mem _ hv)
  distinct := by
    refine List.nodup_cons.2 ⟨fun hmem => ?_, h.distinct⟩
    obtain ⟨c, hc, he⟩ := List.mem_map.1 hmem
    exact h.fresh c hc (he ▸ List.mem_cons_self)
  reported := by
    refine List.isChain_cons.2 ⟨fun c hc => ?_, h.reported.imp fun a b => hmono a.address b⟩
    rw [h.head c hc]
    exact hnamed

/-- **One node after the other**, whatever the requests are answered. -/
theorem exec_chainFrom (visited : List Address) (current : NodeRef) (n : ℕ) (w : W) :
    ∃ l, (exec H (chainFrom visited current n) w).1 = .ok l ∧ l.length ≤ n ∧
      (0 < n → current.address ∉ visited → l ≠ []) ∧
      Follows (Reported H (chainFrom visited current n) w) visited current l := by
  induction n generalizing visited current w with
  | zero => exact ⟨[], rfl, le_rfl, fun h => absurd h (lt_irrefl 0), .nil⟩
  | succ n ih =>
    unfold chainFrom
    split_ifs with hv
    · exact ⟨[], rfl, Nat.zero_le _, fun _ h => absurd hv h, .nil⟩
    rw [exec_attempt_bind]
    -- the four ends of the loop, and the way on
    cases hr : (exec H (Transport.request current.address .getState) w).1 with
    | error e =>
      exact ⟨[current], rfl, Nat.succ_le_succ (Nat.zero_le n), fun _ _ => by simp, .singleton hv⟩
    | ok state =>
      cases state with
      | none =>
        exact ⟨[current], rfl, Nat.succ_le_succ (Nat.zero_le n), fun _ _ => by simp, .singleton hv⟩
      | some successor =>
        dsimp only
        split_ifs with hs
        · exact ⟨[current], rfl, Nat.succ_le_succ (Nat.zero_le n), fun _ _ => by simp,
            .singleton hv⟩
        · obtain ⟨l, hl, hlength, -, hfollows⟩ := ih (current.address :: visited) successor
            (exec H (Transport.request current.address .getState) w).2
          have hrun := exec_bind_ok (f := fun rest => (pure (current :: rest) : M _)) (Prod.ext hl rfl)
          refine ⟨current :: l, by rw [hrun]; rfl, Nat.succ_le_succ hlength, fun _ _ => by simp, ?_⟩
          refine .cons hv ?_ (fun a b hab => ?_) hfollows
          · unfold Reported
            rw [log_attempt_bind]
            exact List.mem_append_left _ (reported_requestTries hr)
          · unfold Reported at hab ⊢
            rw [log_attempt_bind, hr]
            refine List.mem_append_right _ ?_
            dsimp only
            rw [if_neg hs, log_bind]
            exact List.mem_append_left _ hab

end Reported

/-! ### The chain of a ring -/

section Clockwise

variable {W : Type} {H : (o : Op) → W → o.Res × W} {M : ℕ} [NeZero M] {r : Members M}
  {answers : Address → Bool}

/-- A list up to the first of its elements for which `answers` fails, which is the last. -/
def cutAfter {X : Type} (answers : X → Bool) : List X → List X
  | [] => []
  | x :: l => if answers x then x :: cutAfter answers l else [x]

theorem cutAfter_cons {X : Type} (answers : X → Bool) (x : X) (l : List X) :
    cutAfter answers (x :: l) = if answers x then x :: cutAfter answers l else [x] := rfl

/-- What a request for the state of a member comes to: its successor in the ring, or an exception
where the member does not answer. -/
def Answers (H : (o : Op) → W → o.Res × W) (r : Members M) (answers : Address → Bool) : Prop :=
  ∀ n ∈ r.nodes, ∀ w, (exec H (Transport.request n.address .getState) w).1 =
    if answers n.address then .ok (some n.successor) else .error .request

omit [NeZero M] in
/-- A member that the way reaches was not visited before. -/
theorem clockwise_member {p m : ChordNode M} {before after : List (ChordNode M)}
    {visited : List Address} (hsplit : r.clockwise p = before ++ m :: after)
    (hvisited : ∀ a, a ∈ visited ↔ a ∈ before.map ChordNode.address) :
    m ∈ r.nodes ∧ m.address ∉ visited ∧
      ∀ a, a ∈ m.address :: visited ↔ a ∈ (before ++ [m]).map ChordNode.address := by
  refine ⟨Members.mem_clockwise.1 (by rw [hsplit]; simp), fun hmem => ?_, fun a => ?_⟩
  · have hnodup := r.clockwise_addresses p
    rw [hsplit, List.map_append, List.map_cons] at hnodup
    exact (List.nodup_append.1 hnodup).2.2 _ ((hvisited _).1 hmem) _ List.mem_cons_self rfl
  · rw [List.mem_cons, hvisited, List.map_append, List.mem_append, List.map_singleton,
      List.mem_singleton, or_comm]

/-- One member of the chain: the way ends at a member that does not answer or names itself. -/
theorem exec_chainFrom_succ (hanswers : Answers H r answers) {m t : ChordNode M} (hm : m ∈ r.nodes)
    (ht : m.successor = t.ref) {visited : List Address} (hnew : m.address ∉ visited) (n : ℕ) (w : W) :
    ∃ w', (exec H (chainFrom visited m.ref (n + 1)) w).1 =
      if answers m.address = true ∧ t.address ≠ m.address then
        (exec H (chainFrom (m.address :: visited) t.ref n) w').1.map (m.ref :: ·)
      else .ok [m.ref] := by
  refine ⟨(exec H (Transport.request m.address .getState) w).2, ?_⟩
  conv_lhs => unfold chainFrom
  rw [show m.ref.address = m.address from rfl, if_neg hnew, exec_attempt_bind, hanswers m hm w]
  by_cases hok : answers m.address = true
  · rw [if_pos hok, ht]
    dsimp only
    by_cases hself : t.address = m.address
    · rw [if_pos (show t.ref.address = m.address from hself), if_neg fun h => h.2 hself]
      rfl
    · rw [if_neg (show ¬t.ref.address = m.address from hself), if_pos ⟨hok, hself⟩, exec_bind]
      cases exec H (chainFrom (m.address :: visited) t.ref n)
        (exec H (Transport.request m.address .getState) w).2 with
      | mk x w' => cases x <;> rfl
  · rw [if_neg hok, if_neg fun h => hok h.1]
    rfl

/-- A node that was visited ends the way. -/
theorem exec_chainFrom_visited {visited : List Address} {current : NodeRef}
    (h : current.address ∈ visited) (n : ℕ) (w : W) :
    (exec H (chainFrom visited current n) w).1 = .ok [] := by
  cases n with
  | zero => rfl
  | succ n =>
    unfold chainFrom
    rw [if_pos h]
    rfl

/-- **The way round the ring**: `before` are the members visited so far, `m` is the next one and
`after` are those still to come. -/
theorem exec_chainFrom_clockwise (hs : r.SuccessorsCorrect) (hanswers : Answers H r answers)
    {p : ChordNode M} (hp : p ∈ r.nodes) {after : List (ChordNode M)} :
    ∀ {before : List (ChordNode M)} {m : ChordNode M} {visited : List Address} (n : ℕ) (w : W),
      r.clockwise p = before ++ m :: after →
        (∀ a, a ∈ visited ↔ a ∈ before.map ChordNode.address) →
          (exec H (chainFrom visited m.ref n) w).1 =
            .ok ((cutAfter (fun m => answers m.address) ((m :: after).take n)).map ChordNode.ref) := by
  induction after with
  | nil =>
    intro before m visited n w hsplit hvisited
    obtain ⟨hm, hnew, hmore⟩ := clockwise_member hsplit hvisited
    cases n with
    | zero => rfl
    | succ n =>
      -- the last member names the primary again
      obtain ⟨t, ht, hsucc⟩ := hs m hm
      obtain rfl := ht.unique (Members.nextAfter_of_clockwise_last hp hsplit) hm
      obtain ⟨w', hstep⟩ := exec_chainFrom_succ hanswers hm hsucc hnew n w
      rw [hstep, List.take_succ_cons, List.take_nil, cutAfter_cons]
      split_ifs with hcond hok
      · have hvisit : t.ref.address ∈ m.address :: visited := by
          obtain ⟨rest, hrest⟩ := Members.clockwise_eq_cons hp
          rw [hrest] at hsplit
          cases before with
          | nil =>
            obtain ⟨rfl, -⟩ := List.cons.inj hsplit
            exact List.mem_cons_self
          | cons b before =>
            obtain ⟨rfl, -⟩ := List.cons.inj hsplit
            exact List.mem_cons_of_mem _ ((hvisited _).2 (by simp [ChordNode.ref]))
        rw [exec_chainFrom_visited hvisit]
        rfl
      · exact absurd hcond.1 hok
      · rfl
      · rfl
  | cons q after ih =>
    intro before m visited n w hsplit hvisited
    obtain ⟨hm, hnew, hmore⟩ := clockwise_member hsplit hvisited
    cases n with
    | zero => rfl
    | succ n =>
      obtain ⟨t, ht, hsucc⟩ := hs m hm
      obtain rfl := ht.unique (Members.nextAfter_of_clockwise hp hsplit) hm
      obtain ⟨w', hstep⟩ := exec_chainFrom_succ hanswers hm hsucc hnew n w
      have hrest := @ih (before ++ [m]) t (m.address :: visited) n w'
        (by rw [hsplit, List.append_assoc]; rfl) hmore
      have hother : t.address ≠ m.address := by
        obtain ⟨-, hfresh, -⟩ := clockwise_member
          (show r.clockwise p = (before ++ [m]) ++ t :: after by
            rw [hsplit, List.append_assoc]; rfl) hmore
        exact fun he => hfresh (he ▸ List.mem_cons_self)
      rw [hstep, List.take_succ_cons, hrest, cutAfter_cons]
      split_ifs with hcond hok hok
      · rfl
      · exact absurd hcond.1 hok
      · exact absurd ⟨hok, hother⟩ hcond
      · rfl

/-- **The successor chain.**  Whatever the requests are answered, the loop ends with at most `k`
different nodes, the primary first, and each has been named by the one before it.  In a ring with
correct successors they are the first `k` members clockwise from the primary, or all when there
are fewer, up to the first that does not answer. -/
theorem successorChain_spec {k : ℕ} (hk : 0 < k) (primary : NodeRef) (w : W) :
    (∃ l, (exec H (getSuccessorChain k primary) w).1 = .ok l ∧ l.head? = some primary ∧
        (l.map NodeRef.address).Nodup ∧ l.length ≤ k ∧
          l.IsChain fun a b => Reported H (getSuccessorChain k primary) w a.address b) ∧
      ∀ {M : ℕ} [NeZero M] {r : Members M} {answers : Address → Bool} {p : ChordNode M},
        r.SuccessorsCorrect → Answers H r answers → p ∈ r.nodes → primary = p.ref →
          (exec H (getSuccessorChain k primary) w).1 =
            .ok ((cutAfter (fun m => answers m.address) ((r.clockwise p).take k)).map ChordNode.ref) := by
  have hmax : max 1 k = k := Nat.max_eq_right hk
  unfold getSuccessorChain
  rw [hmax]
  constructor
  · obtain ⟨l, hl, hlength, hne, hfollows⟩ := exec_chainFrom (H := H) [] primary k w
    refine ⟨l, hl, ?_, hfollows.distinct, hlength, hfollows.reported⟩
    obtain ⟨c, rest, rfl⟩ := List.exists_cons_of_ne_nil (hne hk List.not_mem_nil)
    rw [List.head?_cons, hfollows.head c rfl]
  · intro M _ r answers p hs hanswers hp he
    subst he
    obtain ⟨rest, hrest⟩ := Members.clockwise_eq_cons hp
    rw [hrest]
    exact exec_chainFrom_clockwise hs hanswers hp k w
      (show r.clockwise p = [] ++ p :: rest from hrest) (by simp)

end Clockwise

/-! ### Two neighbours -/

namespace TwoNodes

open Ring.Members (tenEleven tenEleven_stable ten)

/-- The ring of the nodes `10` and `11`, of which the first does not answer. -/
def env : Env :=
  { ThreeNodes.env fun _ a _ => if a = "b" then .delivered else .lost with
    successor := fun _ a => (tenEleven.net a).map ChordNode.successor }

theorem answers : Answers (handle env) tenEleven fun a => a = "b" := by
  intro n hn w
  rcases List.mem_pair.1 hn with rfl | rfl <;> rfl

/-- The hypotheses of `successorChain_spec` are satisfiable: the chain of three from node `11` ends
at node `10`, which does not answer. -/
theorem successorChain_spec_eleven :
    (exec (handle env) (getSuccessorChain 3 ⟨11, "b"⟩) .empty).1 =
      .ok [⟨11, "b"⟩, ⟨10, "a"⟩] :=
  (successorChain_spec (by decide) ⟨11, "b"⟩ .empty).2 tenEleven_stable.successors answers
    (List.mem_cons_of_mem _ List.mem_cons_self) rfl

end TwoNodes

end Storage
end ChordInfra
