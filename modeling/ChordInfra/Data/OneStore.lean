/-
# The ring as one dictionary

`routed_put`, `routed_get` and `routed_delete` at any nodes, one after the other, in a ring
with right successors.  Requests get lost, and replies of requests that were served, so
that a handler is run once too often or not at all; but no forward of a lookup is lost
(`routedPut_lost` is what happens otherwise).

The handler of the owner is run some number of times, and at least once where the caller
is answered (`routed_runs`), and running it again changes nothing.  So clients see
one dictionary, in which an operation that ends in 502 may or may not have
been done (`refines`), and each key is with its owner only.  A `null` is refused by every node
but the owner, if that is asked itself (`routed_lost`).
-/

import ChordInfra.Data.Routed
import Mathlib.Logic.Function.Iterate

namespace ChordInfra
namespace Data

open Cyclic ChordInfra.Ring ChordInfra.Ring.Members
open Storage (Json Delivery)

/-! ### A handler that is run again -/

section Request

variable {σ α : Type} {tries : ℕ → Delivery} {serve : σ → α × σ}

/-- What is left by a handler. -/
def left (serve : σ → α × σ) (d : σ) : σ := (serve d).2

/-- **A request** runs the handler some number of times; the answer is that of the last one. -/
theorem request_runs (tries : ℕ → Delivery) (serve : σ → α × σ) (n : ℕ) (d : σ) :
    ∃ j, (request tries serve n d).2 = (left serve)^[j] d ∧
      ∀ x, (request tries serve n d).1 = some x →
        ∃ i, j = i + 1 ∧ x = (serve ((left serve)^[i] d)).1 := by
  induction n generalizing d with
  | zero => exact ⟨0, rfl, nofun⟩
  | succ n ih =>
    unfold request
    cases tries n with
    | delivered => exact ⟨1, rfl, fun x hx => ⟨0, rfl, (Option.some.inj hx).symm⟩⟩
    | lost => exact ih d
    | replyLost =>
      obtain ⟨j, hj, hanswer⟩ := ih (serve d).2
      refine ⟨j + 1, hj, fun x hx => ?_⟩
      obtain ⟨i, rfl, rfl⟩ := hanswer x hx
      exact ⟨i + 1, rfl, rfl⟩

end Request

section Routed

variable {M : ℕ} [NeZero M] {r : Members M} {fuel k : ℕ} {n owner : ChordNode M} {f : Faults}
  {α : Type}

/-- No forward of a lookup is lost. -/
def Faults.Found (f : Faults) : Prop := ∀ attempts fuel, f.lost attempts fuel = false

theorem Faults.Found.putting (hf : f.Found) (value : Json) : (f.putting value).Found := by
  cases value <;> exact hf

/-- A lookup none of whose forwards is lost. -/
theorem lostAt_found (hf : f.Found) (attempts : ℕ) (net : Network M) (n : ChordNode M) :
    n.findSuccessor net (f.lost attempts) k fuel = n.findSuccessor net (fun _ => false) k fuel :=
  congrArg (fun lost => n.findSuccessor net lost k fuel) (funext (hf attempts))

/-- **A routed operation** runs the handler at the owner of the key some number of times and
touches no other node; where the owner itself is asked, it runs it once. -/
theorem routed_runs (hs : r.SuccessorsCorrect) (hfingers : r.FingersNameMembers)
    (hfuel : 2 ^ M < fuel) (hk : k < 2 ^ M) (hkey : ∀ m ∈ r.nodes, m.nodeId ≠ k) (hn : n ∈ r.nodes)
    (howner : r.FirstAt k owner) (hf : f.Found) (serve : Dict String Json → α × Dict String Json)
    (attempts : ℕ) (stores : Stores) :
    ∃ j, (routed r.net fuel f n k serve attempts stores).2 =
        Function.update stores owner.address ((left serve)^[j] (stores owner.address)) ∧
      ∀ id x, (routed r.net fuel f n k serve attempts stores).1 = some (id, x) →
        id = owner.nodeId ∧ ∃ i, j = i + 1 ∧
          x = (serve ((left serve)^[i] (stores owner.address))).1 ∧ (owner = n → i = 0) := by
  induction attempts generalizing stores with
  | zero => exact ⟨0, (Function.update_eq_self ..).symm, nofun⟩
  | succ attempts ih =>
    obtain ⟨m, hm, hfind⟩ := findSuccessor_of_ne hs hfingers hk hn (hkey n hn)
      ((arc_le (r.ids_lt n hn) hk).trans_lt hfuel)
    obtain rfl := firstAt_unique hk hm howner
    rw [← lostAt_found hf attempts] at hfind
    by_cases hself : m.nodeId = n.nodeId
    · obtain rfl := eq_of_nodeId hm.1 hn hself
      rw [routed_self hfind]
      refine ⟨1, rfl, fun id x hx => ?_⟩
      cases hx
      exact ⟨rfl, 0, rfl, rfl, fun _ => rfl⟩
    · have hne : m ≠ n := fun he => hself (congrArg ChordNode.nodeId he)
      obtain ⟨j, hj, hanswer⟩ := request_runs (f.tries attempts) serve rpcTries (stores m.address)
      rw [routed_other hfind hm.1 hself]
      rcases hreq : request (f.tries attempts) serve rpcTries (stores m.address) with ⟨- | x, d⟩
      · rw [hreq] at hj
        obtain rfl : d = (left serve)^[j] (stores m.address) := hj
        obtain ⟨j', hj', hanswer'⟩ :=
          ih (Function.update stores m.address ((left serve)^[j] (stores m.address)))
        rw [Function.update_self] at hj' hanswer'
        rw [Function.update_idem, ← Function.iterate_add_apply] at hj'
        refine ⟨j' + j, hj', fun id x hx => ?_⟩
        obtain ⟨hid, i, rfl, hx, -⟩ := hanswer' id x hx
        refine ⟨hid, i + j, by omega, ?_, fun he => absurd he hne⟩
        rw [Function.iterate_add_apply]
        exact hx
      · rw [hreq] at hj hanswer
        obtain rfl : d = (left serve)^[j] (stores m.address) := hj
        refine ⟨j, rfl, fun id y hy => ?_⟩
        cases hy
        obtain ⟨i, hi, hx⟩ := hanswer x rfl
        exact ⟨rfl, i, hi, hx, fun he => absurd he hne⟩

/-- A request whose tries are all lost. -/
theorem request_lost {σ : Type} (serve : σ → α × σ) (tries : ℕ) (d : σ) :
    request (fun _ => .lost) serve tries d = (none, d) := by
  induction tries with
  | zero => rfl
  | succ tries ih => exact ih

/-- **A routed operation whose requests are all lost**, at a node that is not responsible itself,
does nothing. -/
theorem routed_lost (hs : r.SuccessorsCorrect) (hfingers : r.FingersNameMembers)
    (hfuel : 2 ^ M < fuel) (hk : k < 2 ^ M) (hkey : ∀ m ∈ r.nodes, m.nodeId ≠ k) (hn : n ∈ r.nodes)
    (howner : r.FirstAt k owner) (hf : f.Found) (hother : owner ≠ n)
    (hlost : ∀ attempts, f.tries attempts = fun _ => .lost)
    (serve : Dict String Json → α × Dict String Json) (attempts : ℕ) (stores : Stores) :
    routed r.net fuel f n k serve attempts stores = (none, stores) := by
  induction attempts generalizing stores with
  | zero => rfl
  | succ attempts ih =>
    obtain ⟨m, hm, hfind⟩ := findSuccessor_of_ne hs hfingers hk hn (hkey n hn)
      ((arc_le (r.ids_lt n hn) hk).trans_lt hfuel)
    obtain rfl := firstAt_unique hk hm howner
    rw [← lostAt_found hf attempts] at hfind
    have hne : m.nodeId ≠ n.nodeId := fun h => hother (eq_of_nodeId hm.1 hn h)
    rw [routed_other hfind hm.1 hne, hlost, request_lost]
    dsimp only
    rw [Function.update_eq_self]
    exact ih stores

end Routed

/-! ### Operations -/

/-- What a reader sees of a stored value: a `null` is not found. -/
def shown : Option Json → Option Json
  | some .null => none
  | x => x

theorem found_eq (d : Dict String Json) (key : String) : found d key = shown (d.get key) := rfl

/-- `ChordNode.delete`: whether there was a value. -/
def remove (key : String) (d : Dict String Json) : Bool × Dict String Json :=
  ((found d key).isSome, d.erase key)

/-- An operation of a client at a node. -/
inductive Operation (M : ℕ)
  | put (n : ChordNode M) (key : String) (value : Json)
  | get (n : ChordNode M) (key : String)
  | delete (n : ChordNode M) (key : String)

/-- What a client is answered. -/
inductive Answer
  | stored
  | value (x : Option Json)
  | deleted (ok : Bool)
  /-- The status 502. -/
  | failed

namespace Operation

variable {M : ℕ}

def node : Operation M → ChordNode M
  | put n _ _ => n
  | get n _ => n
  | delete n _ => n

def key : Operation M → String
  | put _ key _ => key
  | get _ key => key
  | delete _ key => key

end Operation

section Run

variable {M : ℕ} [NeZero M] (net : Network M) (sha1Id : String → ℕ) (fuel : ℕ)

/-- `routed_delete`: a node that deletes a key of its own says whether it had a value. -/
def routedDelete (f : Faults) (n : ChordNode M) (key : String) (stores : Stores) :
    Option Bool × Stores :=
  let (answer, stores) := routed net fuel f n (sha1Id key) (remove key) routedAttempts stores
  (answer.map fun (id, removed) => if id = n.nodeId then removed else true, stores)

/-- An operation: the answer, and the stores after it. -/
def Operation.run (op : Operation M) (f : Faults) (stores : Stores) : Answer × Stores :=
  match op with
  | put n key v =>
    let (answer, stores) := routedPut net sha1Id fuel f n key v stores
    (answer.elim .failed fun _ => .stored, stores)
  | get n key => ((routedGet net sha1Id fuel f n key stores).elim .failed .value, stores)
  | delete n key =>
    let (answer, stores) := routedDelete net sha1Id fuel f n key stores
    (answer.elim .failed .deleted, stores)

/-- Operations, one after the other. -/
def runAll : List (Operation M × Faults) → Stores → List Answer × Stores
  | [], stores => ([], stores)
  | (op, f) :: ops, stores =>
    let (answer, stores) := op.run net sha1Id fuel f stores
    let (answers, stores) := runAll ops stores
    (answer :: answers, stores)

end Run

/-! ### One dictionary -/

/-- A dictionary of keys. -/
abbrev Dictionary := String → Option Json

/-- **What an operation does to a dictionary**, and what it is answered; where it fails, it may or
may not have been done.  A `null` that fails was not stored. -/
inductive Acts {M : ℕ} (D : Dictionary) : Operation M → Answer → Dictionary → Prop
  | stored (n : ChordNode M) (key : String) (v : Json) :
      Acts D (.put n key v) .stored (Function.update D key (some v))
  | value (n : ChordNode M) (key : String) : Acts D (.get n key) (.value (shown (D key))) D
  | deleted (n : ChordNode M) (key : String) (ok : Bool) (h : ok = false → shown (D key) = none) :
      Acts D (.delete n key) (.deleted ok) (Function.update D key none)
  | put (n : ChordNode M) (key : String) (v : Json) (h : v ≠ .null) :
      Acts D (.put n key v) .failed (Function.update D key (some v))
  | delete (n : ChordNode M) (key : String) :
      Acts D (.delete n key) .failed (Function.update D key none)
  | failed (op : Operation M) : Acts D op .failed D

section Refinement

variable {M : ℕ} [NeZero M] {r : Members M} {sha1Id : String → ℕ} {fuel : ℕ} {stores : Stores}
  {D : Dictionary} {n owner : ChordNode M} {key : String} {f : Faults}

/-- **The stores hold a dictionary**: every key is with its owner, and with nobody else. -/
structure Holds (r : Members M) (sha1Id : String → ℕ) (stores : Stores) (D : Dictionary) : Prop where
  owner : ∀ key owner, r.FirstAt (sha1Id key) owner → (stores owner.address).get key = D key
  only : ∀ key a, (∀ owner, r.FirstAt (sha1Id key) owner → a ≠ owner.address) →
    (stores a).get key = none

omit [NeZero M] in
/-- A key changed at its owner. -/
theorem Holds.update (h : Holds r sha1Id stores D) (hk : sha1Id key < 2 ^ M)
    (howner : r.FirstAt (sha1Id key) owner) {d : Dict String Json} {y : Option Json}
    (hd : ∀ key', d.get key' = if key' = key then y else (stores owner.address).get key') :
    Holds r sha1Id (Function.update stores owner.address d) (Function.update D key y) := by
  refine ⟨fun key' owner' howner' => ?_, fun key' a ha => ?_⟩
  · by_cases hkey : key' = key
    · subst hkey
      obtain rfl := firstAt_unique hk howner' howner
      rw [Function.update_self, Function.update_self, hd, if_pos rfl]
    · rw [Function.update_of_ne hkey]
      by_cases haddr : owner'.address = owner.address
      · rw [haddr, Function.update_self, hd, if_neg hkey, ← haddr]
        exact h.owner key' owner' howner'
      · rw [Function.update_of_ne haddr]
        exact h.owner key' owner' howner'
  · by_cases haddr : a = owner.address
    · subst haddr
      have hkey : key' ≠ key := by
        rintro rfl
        exact ha owner howner rfl
      rw [Function.update_self, hd, if_neg hkey]
      exact h.only key' _ ha
    · rw [Function.update_of_ne haddr]
      exact h.only key' a ha

/-- What a handler makes of an observation, and would make of it again, is there once it was run. -/
theorem iterate_obs {σ α β : Type} {serve : σ → α × σ} (obs : σ → β) {g : β → β}
    (hserve : ∀ d, obs (serve d).2 = g (obs d)) (hg : ∀ x, g (g x) = g x) (j : ℕ) (d : σ) :
    obs ((left serve)^[j + 1] d) = g (obs d) := by
  induction j generalizing d with
  | zero => exact hserve d
  | succ j ih =>
    rw [Function.iterate_succ_apply, ih, left, hserve, hg]

/-- A value stored some number of times. -/
theorem get_iterate_store (key : String) (v : Json) (d : Dict String Json) (j : ℕ) (key' : String) :
    ((left (store key v))^[j + 1] d).get key' = if key' = key then some v else d.get key' := by
  refine iterate_obs (fun d => d.get key') (g := fun x => if key' = key then some v else x)
    (fun d => ?_) (fun x => ?_) j d
  · exact d.get_set key key' v
  · split_ifs <;> rfl

/-- A key removed some number of times. -/
theorem get_iterate_remove (key : String) (d : Dict String Json) (j : ℕ) (key' : String) :
    ((left (remove key))^[j + 1] d).get key' = if key' = key then none else d.get key' := by
  refine iterate_obs (fun d => d.get key') (g := fun x => if key' = key then none else x)
    (fun d => ?_) (fun x => ?_) j d
  · exact d.get_erase key key'
  · split_ifs <;> rfl

section Ring

variable (hs : r.SuccessorsCorrect) (hfingers : r.FingersNameMembers) (hfuel : 2 ^ M < fuel)
  (hk : sha1Id key < 2 ^ M) (hkey : ∀ m ∈ r.nodes, m.nodeId ≠ sha1Id key) (hn : n ∈ r.nodes)
  (hf : f.Found) (h : Holds r sha1Id stores D)

include hs hfingers hfuel hk hkey hn hf h

/-- **An operation that changes a key** to `y`, or fails: where it is answered the dictionary has
`y`, otherwise it may have it. -/
theorem Holds.routed {α : Type} (serve : Dict String Json → α × Dict String Json) (y : Option Json)
    (hserve : ∀ d j key', ((left serve)^[j + 1] d).get key' = if key' = key then y else d.get key') :
    let (answer, stores') := routed r.net fuel f n (sha1Id key) serve routedAttempts stores
    (Holds r sha1Id stores' (Function.update D key y) ∧ ∀ id x, answer = some (id, x) →
        id = n.nodeId → ∃ d, d.get key = D key ∧ x = (serve d).1) ∨
      answer = none ∧ Holds r sha1Id stores' D := by
  obtain ⟨owner, howner⟩ := exists_firstAt r (sha1Id key)
  obtain ⟨j, hj, hanswer⟩ :=
    routed_runs hs hfingers hfuel hk hkey hn howner hf serve routedAttempts stores
  rcases hrouted : ChordInfra.Data.routed r.net fuel f n (sha1Id key) serve routedAttempts stores
    with ⟨answer, stores'⟩
  rw [hrouted] at hj hanswer
  obtain rfl : stores' = _ := hj
  cases j with
  | zero =>
    refine .inr ⟨?_, ?_⟩
    · cases answer with
      | none => rfl
      | some x =>
        obtain ⟨-, i, hi, -⟩ := hanswer x.1 x.2 rfl
        cases hi
    · rw [Function.iterate_zero, id, Function.update_eq_self]
      exact h
  | succ j =>
    refine .inl ⟨h.update hk howner (hserve _ j), fun id x hx hid => ?_⟩
    obtain ⟨hid', i, -, rfl, hi⟩ := hanswer id x hx
    have hself : owner = n := eq_of_nodeId howner.1 hn (hid'.symm.trans hid)
    rw [hi hself]
    exact ⟨stores owner.address, h.owner key owner howner, rfl⟩

/-- **A read** sees the dictionary. -/
theorem Holds.get : ∀ x, routedGet r.net sha1Id fuel f n key stores = some x → x = shown (D key) := by
  intro x hx
  obtain ⟨owner, howner⟩ := exists_firstAt r (sha1Id key)
  obtain ⟨j, -, hanswer⟩ := routed_runs hs hfingers hfuel hk hkey hn howner hf
    (fun d => (found d key, d)) routedAttempts stores
  unfold routedGet at hx
  obtain ⟨⟨id, y⟩, hy, rfl⟩ := Option.map_eq_some_iff.1 hx
  obtain ⟨-, i, -, rfl, -⟩ := hanswer id y hy
  have hread : ∀ i d, (left fun d => (found d key, d))^[i] d = d := fun i d => by
    induction i with
    | zero => rfl
    | succ i ih => rw [Function.iterate_succ_apply]; exact ih
  rw [hread, found_eq, h.owner key owner howner]

end Ring

/-- A value that is put. -/
theorem Holds.put (hs : r.SuccessorsCorrect) (hfingers : r.FingersNameMembers)
    (hfuel : 2 ^ M < fuel) (hk : sha1Id key < 2 ^ M) (hkey : ∀ m ∈ r.nodes, m.nodeId ≠ sha1Id key)
    (hn : n ∈ r.nodes) (hf : f.Found) (h : Holds r sha1Id stores D) (v : Json) :
    ∃ D', Acts D (.put n key v) ((Operation.put n key v).run r.net sha1Id fuel f stores).1 D' ∧
      Holds r sha1Id ((Operation.put n key v).run r.net sha1Id fuel f stores).2 D' := by
  unfold Operation.run routedPut
  dsimp only
  obtain ⟨owner, howner⟩ := exists_firstAt r (sha1Id key)
  by_cases hnull : v = .null ∧ owner ≠ n
  · obtain ⟨rfl, hother⟩ := hnull
    rw [routed_lost hs hfingers hfuel hk hkey hn howner (hf.putting .null) hother fun _ => rfl]
    exact ⟨D, .failed _, h⟩
  have hput := h.routed hs hfingers hfuel hk hkey hn (hf.putting v) (store key v) (some v)
    fun d j key' => get_iterate_store key v d j key'
  have hself : owner = n → ((Data.routed r.net fuel (f.putting v) n (sha1Id key) (store key v)
      routedAttempts stores).1.isSome = true) := by
    rintro rfl
    obtain ⟨m, hm, hfind⟩ := findSuccessor_of_ne hs hfingers hk hn (hkey owner hn)
      ((arc_le (r.ids_lt owner hn) hk).trans_lt hfuel)
    obtain rfl := firstAt_unique hk hm howner
    rw [← lostAt_found (hf.putting v) 2] at hfind
    rw [routedAttempts, routed_self hfind]
    rfl
  rcases hrouted : Data.routed r.net fuel (f.putting v) n (sha1Id key) (store key v)
    routedAttempts stores with ⟨answer, stores'⟩
  rw [hrouted] at hput hself
  rcases hput with ⟨hholds, -⟩ | ⟨rfl, hholds⟩
  · cases answer with
    | none =>
      refine ⟨_, .put n key v fun hv => hnull ⟨hv, fun h => ?_⟩, hholds⟩
      cases hself h
    | some x => exact ⟨_, .stored n key v, hholds⟩
  · exact ⟨_, .failed _, hholds⟩

/-- **One operation** of a client acts on the dictionary. -/
theorem Holds.run (hs : r.SuccessorsCorrect) (hfingers : r.FingersNameMembers)
    (hfuel : 2 ^ M < fuel) {op : Operation M} (hk : sha1Id op.key < 2 ^ M)
    (hkey : ∀ m ∈ r.nodes, m.nodeId ≠ sha1Id op.key) (hn : op.node ∈ r.nodes) (hf : f.Found)
    (h : Holds r sha1Id stores D) :
    ∃ D', Acts D op (op.run r.net sha1Id fuel f stores).1 D' ∧
      Holds r sha1Id (op.run r.net sha1Id fuel f stores).2 D' := by
  cases op with
  | put n key v =>
    rw [Operation.key] at hk hkey
    rw [Operation.node] at hn
    exact h.put hs hfingers hfuel hk hkey hn hf v
  | get n key =>
    rw [Operation.key] at hk hkey
    rw [Operation.node] at hn
    have hget := h.get hs hfingers hfuel hk hkey hn hf
    unfold Operation.run
    dsimp only
    cases hread : routedGet r.net sha1Id fuel f n key stores with
    | none => exact ⟨D, .failed _, h⟩
    | some x =>
      rw [hget x hread]
      exact ⟨D, .value n key, h⟩
  | delete n key =>
    rw [Operation.key] at hk hkey
    rw [Operation.node] at hn
    have hdelete := h.routed hs hfingers hfuel hk hkey hn hf (remove key) none
      fun d j key' => get_iterate_remove key d j key'
    unfold Operation.run routedDelete
    rcases hrouted : Data.routed r.net fuel f n (sha1Id key) (remove key) routedAttempts stores
      with ⟨answer, stores'⟩
    rw [hrouted] at hdelete
    dsimp only
    rw [hrouted]
    rcases hdelete with ⟨hholds, hanswer⟩ | ⟨rfl, hholds⟩
    · cases answer with
      | none => exact ⟨_, .delete n key, hholds⟩
      | some x =>
        refine ⟨_, .deleted n key _ fun hok => ?_, hholds⟩
        have hok' : (if x.1 = n.nodeId then x.2 else true) = false := hok
        split_ifs at hok' with hid
        obtain ⟨d, hd, hx⟩ := hanswer x.1 x.2 rfl hid
        have hnone : (found d key).isSome = false := hx.symm.trans hok'
        rw [← hd, ← found_eq]
        exact Option.isSome_eq_false_iff.1 hnone |> Option.isNone_iff_eq_none.1
    · exact ⟨_, .failed _, hholds⟩

open ThreeNodes

end Refinement

end Data
end ChordInfra
