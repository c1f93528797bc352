/-
# The routed data API

`routed_put` and `routed_get` of `chord/server.py`, over the stores of the nodes of a ring:
the node asked looks up the node responsible for the key, and asks it, in up to three
attempts.  `_request` of `chord/transport.py` tries every request four times.

What goes wrong is said beforehand (`Faults`): which forwards of a lookup raise, and what
becomes of each try of a request.  A forward that raises is answered with the successor of the
node that forwarded (`ChordNode.lostAt`), which is never the owner of the key
(`Members.findSuccessor_lossy`).  So a value is found again exactly when some attempt came
through (`routedPut_found_iff`).

Keys reach the handlers verbatim.  A `null` is stored by the node asked only, under a key of
its own.
-/

import ChordInfra.Dict.Basic
import ChordInfra.Ring.Lookup
import ChordInfra.Storage.World

namespace ChordInfra

open Cyclic
open Storage (Json Delivery)

/-! ### Lookups that lose a forward -/

namespace Ring

variable {M : ℕ} [NeZero M]

/-- The node of a lookup whose forward raises, if there is one. -/
def ChordNode.lostAt (net : Network M) (lost : ℕ → Bool) (keyId : ℕ) :
    ℕ → ChordNode M → Option (ChordNode M)
  | 0, _ => none
  | fuel + 1, n =>
    if inRange keyId n.nodeId n.successor.id true then none
    else if (n.closestPrecedingNode keyId).id = n.nodeId then none
    else
      match net (n.closestPrecedingNode keyId).address with
      | some m => if lost fuel then some n else lostAt net lost keyId fuel m
      | none => some n

namespace Members

variable {r : Members M} {n m s : ChordNode M} {k : ℕ}

omit [NeZero M] in
/-- The next member after a node does not own a key that lies past it. -/
theorem NextAfter.not_firstAt (h : r.NextAfter n m) (hn : n ∈ r.nodes) (hk : k < 2 ^ M)
    (hpast : arc (2 ^ M) n.nodeId m.nodeId < arc (2 ^ M) n.nodeId k) :
    ¬ r.FirstAt k m := by
  intro hfirst
  have hle := hfirst.2 n hn
  have hidn := r.ids_lt n hn
  have hidm := r.ids_lt m h.1
  unfold arc at hpast
  unfold Cyclic.dist at hle
  split_ifs at * <;> omega

/-- **A lookup that loses no forward finds the owner, and one that loses one does not**: the
node where it happens answers with its successor.  The induction is that of
`findSuccessor_of_ne`. -/
theorem findSuccessor_lossy (hs : r.SuccessorsCorrect) (hf : r.FingersNameMembers) (hk : k < 2 ^ M)
    (lost : ℕ → Bool) : ∀ {fuel : ℕ} {n : ChordNode M}, n ∈ r.nodes → n.nodeId ≠ k →
      arc (2 ^ M) n.nodeId k < fuel →
        (n.lostAt r.net lost k fuel = none →
          ∃ m, r.FirstAt k m ∧ n.findSuccessor r.net lost k fuel = some m.ref) ∧
        ∀ m, n.lostAt r.net lost k fuel = some m →
          ∃ s ∈ r.nodes, ¬ r.FirstAt k s ∧ m.successor = s.ref ∧
            n.findSuccessor r.net lost k fuel = some s.ref := by
  intro fuel
  induction fuel with
  | zero => intro n _ _ h; exact absurd h (Nat.not_lt_zero _)
  | succ fuel ih =>
    intro n hn hne hfuel
    obtain ⟨s, hnext, hsucc⟩ := hs n hn
    have hidn := r.ids_lt n hn
    have hids : n.successor.id < 2 ^ M := by rw [hsucc]; exact r.ids_lt s hnext.1
    unfold ChordNode.findSuccessor ChordNode.lostAt
    by_cases hin : inRange k n.nodeId n.successor.id true = true
    · rw [if_pos hin, if_pos hin]
      rw [inRange_inclusive hk hidn hids, hsucc] at hin
      exact ⟨fun _ => ⟨s, hnext.firstAt hn hk hin, congrArg some hsucc⟩, fun m hm => by cases hm⟩
    · rw [if_neg hin, if_neg hin]
      rw [inRange_inclusive hk hidn hids, Nat.not_le] at hin
      obtain ⟨m, hm, he, hmn, hmk, hnearer⟩ := exists_nearer hf hn hk hne hin
      rw [he, if_neg (show ¬ m.ref.id = n.nodeId from hmn), show m.ref.address = m.address from rfl,
        net_address hm]
      dsimp only
      rw [if_neg (show ¬ m.ref.id = n.nodeId from hmn)]
      by_cases hlost : lost fuel = true
      · -- the forward raises: the answer is the successor, which lies before the key
        rw [if_pos hlost, if_pos hlost]
        refine ⟨fun h => (by cases h), fun m' hm' => ?_⟩
        obtain rfl := Option.some.inj hm'
        rw [hsucc] at hin
        exact ⟨s, hnext.1, hnext.not_firstAt hn hk hin, hsucc, congrArg some hsucc⟩
      · rw [if_neg hlost, if_neg hlost]
        exact ih hm hmk (by omega)

end Members
end Ring

namespace Data

open ChordInfra.Ring
open ChordInfra.Ring.Members

/-! ### Requests -/

/-- The stores of the nodes, by address. -/
abbrev Stores := String → Dict String Json

/-- What goes wrong during an operation: which forwards of the lookup of an attempt raise, and
what becomes of the tries of its request, by the attempts that are left after it. -/
structure Faults where
  lost : ℕ → ℕ → Bool
  tries : ℕ → ℕ → Delivery

/-- Nothing goes wrong. -/
def Faults.none : Faults := ⟨fun _ _ => false, fun _ _ => .delivered⟩

section Request

variable {σ α : Type} (tries : ℕ → Delivery) (serve : σ → α × σ)

/-- `_request` with a number of tries left: what is answered, unless it raises, and the state
of the node asked. -/
def request : ℕ → σ → Option α × σ
  | 0, d => (none, d)
  | n + 1, d =>
    match tries n with
    | .delivered => (some (serve d).1, (serve d).2)
    | .replyLost => request n (serve d).2
    | .lost => request n d

/-- Some try gets to the node. -/
def arrives (n : ℕ) : Bool := (List.range n).any fun i => tries i ≠ .lost

/-- Some try is answered. -/
def answered (n : ℕ) : Bool := (List.range n).any fun i => tries i = .delivered

/-- `RPC_RETRIES + 1`. -/
def rpcTries : ℕ := 4

end Request

/-! ### The endpoints -/

section Routed

variable {M : ℕ} [NeZero M] (net : Network M) (sha1Id : String → ℕ) (fuel : ℕ) (f : Faults)

/-- The loop of the routed endpoints with a number of attempts left: `serve` is what is asked
of the node responsible, which may be the node itself.  The answer is the id of that node
with what it answered; `none` is the answer 502. -/
def routed {α : Type} (n : ChordNode M) (keyId : ℕ)
    (serve : Dict String Json → α × Dict String Json) : ℕ → Stores → Option (ℕ × α) × Stores
  | 0, stores => (none, stores)
  | attempts + 1, stores =>
    match n.findSuccessor net (f.lost attempts) keyId fuel with
    | none => (none, stores)
    | some responsible =>
      if responsible.id = n.nodeId then
        (some (n.nodeId, (serve (stores n.address)).1),
          Function.update stores n.address (serve (stores n.address)).2)
      else
        match net responsible.address with
        | none => routed n keyId serve attempts stores
        | some _ =>
          match request (f.tries attempts) serve rpcTries (stores responsible.address) with
          | (some x, d) =>
            (some (responsible.id, x), Function.update stores responsible.address d)
          | (none, d) =>
            routed n keyId serve attempts (Function.update stores responsible.address d)

/-- `ROUTED_RETRIES + 1`. -/
def routedAttempts : ℕ := 3

/-- `data_store[key] = value`. -/
def store (key : String) (value : Json) (d : Dict String Json) : Unit × Dict String Json :=
  ((), d.set key value)

/-- What a node answers that is asked for a key: a `null` is not found. -/
def found (d : Dict String Json) (key : String) : Option Json :=
  match d.get key with
  | some .null => none
  | x => x

/-- `transport.put`: for `None` no body is sent, which every node that is asked refuses with
415, so the attempt ends like one whose tries are all lost. -/
def Faults.putting (f : Faults) : Json → Faults
  | .null => { f with tries := fun _ _ => .lost }
  | _ => f

/-- `routed_put`: the id of the node where the value was stored, and the stores. -/
def routedPut (n : ChordNode M) (key : String) (value : Json) (stores : Stores) :
    Option ℕ × Stores :=
  let (answer, stores) :=
    routed net fuel (f.putting value) n (sha1Id key) (store key value) routedAttempts stores
  (answer.map Prod.fst, stores)

/-- `routed_get`: what was found, `some none` being the answer 404. -/
def routedGet (n : ChordNode M) (key : String) (stores : Stores) : Option (Option Json) :=
  (routed net fuel f n (sha1Id key) (fun d => (found d key, d)) routedAttempts stores).1.map Prod.snd

/-- Some attempt that is made gets through to the owner of the key: none of the forwards of its
lookup is lost, and its request arrives.  An attempt is made only where those before it
were not answered. -/
def reaches (n owner : ChordNode M) (keyId : ℕ) : ℕ → Bool
  | 0 => false
  | attempts + 1 =>
    match n.lostAt net (f.lost attempts) keyId fuel with
    | none =>
      owner.nodeId = n.nodeId || arrives (f.tries attempts) rpcTries || reaches n owner keyId attempts
    | some m =>
      !(m.successor.id = n.nodeId || answered (f.tries attempts) rpcTries) &&
        reaches n owner keyId attempts

end Routed

theorem Faults.putting_of_ne {f : Faults} {value : Json} (h : value ≠ .null) :
    f.putting value = f := by
  cases value with
  | null => exact absurd rfl h
  | _ => rfl

/-! ### What becomes of a request -/

section Request

variable {σ α : Type} {tries : ℕ → Delivery} {serve : σ → α × σ}

theorem arrives_succ (n : ℕ) :
    arrives tries (n + 1) = (arrives tries n || decide (tries n ≠ .lost)) := by
  simp [arrives, List.range_succ]

theorem answered_succ (n : ℕ) :
    answered tries (n + 1) = (answered tries n || decide (tries n = .delivered)) := by
  simp [answered, List.range_succ]

/-- What is answered has arrived. -/
theorem arrives_of_answered {n : ℕ} (h : answered tries n = true) : arrives tries n = true := by
  obtain ⟨i, hi, hd⟩ := List.any_eq_true.1 h
  refine List.any_eq_true.2 ⟨i, hi, ?_⟩
  rw [of_decide_eq_true hd]
  rfl

variable (tries serve) in
theorem request_isSome (n : ℕ) (d : σ) :
    (request tries serve n d).1.isSome = answered tries n := by
  induction n generalizing d with
  | zero => rfl
  | succ n ih =>
    unfold request
    rw [answered_succ]
    cases hd : tries n <;> simp [ih]

variable (tries serve) in
/-- What a handler makes of an observation `obs` of the node, and makes of it again when it is run
again, is there when the request arrives. -/
theorem request_obs {β : Type} (obs : σ → β) (f : β → β) (hserve : ∀ d, obs (serve d).2 = f (obs d))
    (hf : ∀ x, f (f x) = f x) (n : ℕ) (d : σ) :
    obs (request tries serve n d).2 = if arrives tries n = true then f (obs d) else obs d := by
  induction n generalizing d with
  | zero => rfl
  | succ n ih =>
    unfold request
    rw [arrives_succ]
    cases hd : tries n with
    | delivered => simp [hserve]
    | lost => simp [ih]
    | replyLost => simp [ih, hserve, hf]

variable (tries) in
/-- The value is there when the request arrives. -/
theorem get_request_store (key : String) (v : Json) (n : ℕ) (d : Dict String Json) :
    (request tries (store key v) n d).2.get key =
      if arrives tries n = true then some v else d.get key :=
  request_obs tries (store key v) (fun d => d.get key) (fun _ => some v)
    (fun d => d.get_set_self key v) (fun _ => rfl) n d

end Request

/-! ### One attempt -/

section Attempt

variable {M : ℕ} [NeZero M] {r : Members M} {fuel keyId attempts : ℕ} {f : Faults}
  {n m : ChordNode M} {α : Type} {serve : Dict String Json → α × Dict String Json}

/-- The node asked is responsible. -/
theorem routed_self (hfind : n.findSuccessor r.net (f.lost attempts) keyId fuel = some n.ref)
    (stores : Stores) : routed r.net fuel f n keyId serve (attempts + 1) stores =
      (some (n.nodeId, (serve (stores n.address)).1),
        Function.update stores n.address (serve (stores n.address)).2) := by
  unfold routed
  rw [hfind]
  exact if_pos rfl

/-- Another node is. -/
theorem routed_other (hfind : n.findSuccessor r.net (f.lost attempts) keyId fuel = some m.ref)
    (hm : m ∈ r.nodes) (hne : m.nodeId ≠ n.nodeId) (stores : Stores) :
    routed r.net fuel f n keyId serve (attempts + 1) stores =
      match request (f.tries attempts) serve rpcTries (stores m.address) with
      | (some x, d) => (some (m.nodeId, x), Function.update stores m.address d)
      | (none, d) =>
        routed r.net fuel f n keyId serve attempts (Function.update stores m.address d) := by
  rw [routed, hfind]
  dsimp only
  rw [if_neg (show ¬ m.ref.id = n.nodeId from hne), show m.ref.address = m.address from rfl,
    net_address hm]
  rfl

end Attempt

/-! ### A value stored and found again -/

section Members

variable {M : ℕ} [NeZero M] {r : Members M} (hs : r.SuccessorsCorrect) (hf : r.FingersNameMembers)
  {fuel : ℕ} (hfuel : 2 ^ M < fuel) {k : ℕ} (hk : k < 2 ^ M) (hkey : ∀ m ∈ r.nodes, m.nodeId ≠ k)
  {n owner : ChordNode M} (hn : n ∈ r.nodes) (howner : r.FirstAt k owner)

include hs hf hfuel hk hkey hn howner

/-- The owner has the value under the key when some attempt got through to it, and otherwise
what it had before. -/
theorem get_routed_store (f : Faults) (key : String) (v : Json) (attempts : ℕ) (stores : Stores) :
    ((routed r.net fuel f n k (store key v) attempts stores).2 owner.address).get key =
      if reaches r.net fuel f n owner k attempts = true then some v
      else (stores owner.address).get key := by
  induction attempts generalizing stores with
  | zero => rfl
  | succ attempts ih =>
    obtain ⟨hfound, hfallback⟩ := findSuccessor_lossy hs hf hk (f.lost attempts) hn (hkey n hn)
      ((arc_le (r.ids_lt n hn) hk).trans_lt hfuel)
    unfold reaches
    cases hlost : n.lostAt r.net (f.lost attempts) k fuel with
    | none =>
      obtain ⟨m, hm, hfind⟩ := hfound hlost
      obtain rfl := firstAt_unique hk hm howner
      by_cases hself : m.nodeId = n.nodeId
      · obtain rfl := eq_of_nodeId hm.1 hn hself
        rw [routed_self hfind]
        simp [store]
      · rw [routed_other hfind hm.1 hself]
        have hget := get_request_store (f.tries attempts) key v rpcTries (stores m.address)
        have hsome := request_isSome (f.tries attempts) (store key v) rpcTries
          (stores m.address)
        rcases hreq : request (f.tries attempts) (store key v) rpcTries (stores m.address)
          with ⟨- | x, d⟩
        · rw [hreq] at hget
          dsimp only at hget ⊢
          rw [ih, Function.update_self, hget]
          cases arrives (f.tries attempts) rpcTries <;>
            cases reaches r.net fuel f n m k attempts <;> simp [hself]
        · rw [hreq] at hget hsome
          have harrives : arrives (f.tries attempts) rpcTries = true :=
            arrives_of_answered hsome.symm
          simp only [Function.update_self, hget, harrives, Bool.or_true, Bool.true_or, if_true]
    | some m =>
      -- the value goes to a node that does not own the key
      obtain ⟨s, hsmem, hnot, hsucc, hfind⟩ := hfallback m hlost
      have hother : owner.address ≠ s.address := by
        intro h
        have heq : owner = s := List.inj_on_of_nodup_map r.addresses_distinct howner.1 hsmem h
        exact hnot (heq ▸ howner)
      simp only [hsucc]
      by_cases hself : s.nodeId = n.nodeId
      · obtain rfl := eq_of_nodeId hsmem hn hself
        rw [routed_self hfind]
        simp [ChordNode.ref, Function.update_of_ne hother]
      · rw [routed_other hfind hsmem hself]
        have hsome := request_isSome (f.tries attempts) (store key v) rpcTries
          (stores s.address)
        rcases hreq : request (f.tries attempts) (store key v) rpcTries (stores s.address)
          with ⟨- | x, d⟩
        · rw [hreq] at hsome
          dsimp only
          rw [ih, Function.update_of_ne hother, ← hsome]
          simp [ChordNode.ref, hself]
        · rw [hreq] at hsome
          simp [Function.update_of_ne hother, ← hsome]

end Members

/-- Where nothing goes wrong the owner of the key is asked, unless the key is the id of the
node itself. -/
theorem routedGet_eq {M : ℕ} [NeZero M] {r : Members M} (hs : r.SuccessorsCorrect)
    (hf : r.FingersNameMembers) {fuel : ℕ} (hfuel : 2 ^ M < fuel) {sha1Id : String → ℕ}
    {key : String} (hk : sha1Id key < 2 ^ M) {n owner : ChordNode M} (hne : n.nodeId ≠ sha1Id key)
    (hn : n ∈ r.nodes) (howner : r.FirstAt (sha1Id key) owner) (stores : Stores) :
    routedGet r.net sha1Id fuel Faults.none n key stores =
      some (found (stores owner.address) key) := by
  obtain ⟨m, hm, hfind⟩ := findSuccessor_of_ne hs hf hk hn hne
    ((arc_le (r.ids_lt n hn) hk).trans_lt hfuel)
  obtain rfl := firstAt_unique hk hm howner
  unfold routedGet routedAttempts
  by_cases hself : m.nodeId = n.nodeId
  · obtain rfl := eq_of_nodeId hm.1 hn hself
    rw [routed_self hfind]
    rfl
  · rw [routed_other hfind hm.1 hself]
    rfl

/-- **A value that was stored is found again by every node exactly when the owner has it**:
because some attempt got through to the owner, or because it had the value already. -/
theorem routedPut_found_iff {M : ℕ} [NeZero M] {r : Members M} (hs : r.SuccessorsCorrect)
    (hf : r.FingersNameMembers) {fuel : ℕ} (hfuel : 2 ^ M < fuel) {sha1Id : String → ℕ}
    {key : String} (hk : sha1Id key < 2 ^ M) (hkey : ∀ m ∈ r.nodes, m.nodeId ≠ sha1Id key)
    {n owner : ChordNode M} (hn : n ∈ r.nodes) (howner : r.FirstAt (sha1Id key) owner) {v : Json}
    (hv : v ≠ .null) (f : Faults) (stores : Stores) :
    ((routedPut r.net sha1Id fuel f n key v stores).1.isSome = true → ∀ m ∈ r.nodes,
      routedGet r.net sha1Id fuel Faults.none m key
        (routedPut r.net sha1Id fuel f n key v stores).2 = some (some v)) ↔
    ((routedPut r.net sha1Id fuel f n key v stores).1.isSome = true →
      reaches r.net fuel f n owner (sha1Id key) routedAttempts = true ∨
        (stores owner.address).get key = some v) := by
  refine imp_congr_right fun _ => ?_
  have hget := get_routed_store hs hf hfuel hk hkey hn howner f key v routedAttempts stores
  have hputting : f.putting v = f := Faults.putting_of_ne hv
  have hfound : ∀ m ∈ r.nodes, routedGet r.net sha1Id fuel Faults.none m key
      (routedPut r.net sha1Id fuel f n key v stores).2 =
        some (found ((routedPut r.net sha1Id fuel f n key v stores).2 owner.address) key) :=
    fun m hm => routedGet_eq hs hf hfuel hk (hkey m hm) hm howner _
  have hiff : ∀ d : Dict String Json, found d key = some v ↔ d.get key = some v := by
    intro d
    unfold found
    cases hd : d.get key with
    | none => simp
    | some x =>
      cases x with
      | null => simpa using fun h => hv h.symm
      | _ => simp
  have hone : (∀ m ∈ r.nodes, routedGet r.net sha1Id fuel Faults.none m key
      (routedPut r.net sha1Id fuel f n key v stores).2 = some (some v)) ↔
      ((routedPut r.net sha1Id fuel f n key v stores).2 owner.address).get key = some v := by
    rw [← hiff]
    constructor
    · intro h
      exact Option.some.inj ((hfound owner howner.1).symm.trans (h owner howner.1))
    · intro h m hm
      rw [hfound m hm, h]
  rw [hone]
  change ((routed r.net fuel (f.putting v) n (sha1Id key) (store key v) routedAttempts stores).2
    owner.address).get key = some v ↔ _
  rw [hputting, hget]
  split_ifs with hreach
  · simp [hreach]
  · simp [hreach]

/-! ### Three nodes -/

namespace ThreeNodes

/-- A node of the ring `{10, 80, 150}`, with the first `near` fingers on its successor
and the others on `far`. -/
def member (id : ℕ) (address : String) (pred succ far : NodeRef) (near : ℕ) : ChordNode 8 :=
  ⟨address, id, some pred, fun i =>
    ⟨(id + 2 ^ i.val) % 2 ^ 8, if i.val < near then succ.id else far.id,
      if i.val < near then succ.address else far.address⟩⟩

def a : ChordNode 8 := member 10 "a" ⟨150, "c"⟩ ⟨80, "b"⟩ ⟨150, "c"⟩ 7
def b : ChordNode 8 := member 80 "b" ⟨10, "a"⟩ ⟨150, "c"⟩ ⟨10, "a"⟩ 7
def c : ChordNode 8 := member 150 "c" ⟨80, "b"⟩ ⟨10, "a"⟩ ⟨80, "b"⟩ 7

/-- The ring `{10, 80, 150}` with 8-bit ids. -/
def ring : Members 8 where
  nodes := [a, b, c]
  nonempty := by simp
  ids_lt := by decide
  ids_distinct := by decide
  addresses_distinct := by decide

theorem forall_mem {P : ChordNode 8 → Prop} (ha : P a) (hb : P b) (hc : P c) :
    ∀ n ∈ ring.nodes, P n := by
  intro n hn
  rcases List.mem_cons.1 hn with rfl | hn
  · exact ha
  · rcases List.mem_pair.1 hn with rfl | rfl
    · exact hb
    · exact hc

theorem successors : ring.SuccessorsCorrect :=
  forall_mem ⟨b, ⟨by simp [ring], forall_mem (by decide) (by decide) (by decide)⟩, rfl⟩
    ⟨c, ⟨by simp [ring], forall_mem (by decide) (by decide) (by decide)⟩, rfl⟩
    ⟨a, ⟨by simp [ring], forall_mem (by decide) (by decide) (by decide)⟩, rfl⟩

theorem fingers : ring.FingersNameMembers := by
  have hfinger : ∀ i : Fin 8, (a.fingers i).ref ∈ [b.ref, c.ref] ∧
      (b.fingers i).ref ∈ [c.ref, a.ref] ∧ (c.fingers i).ref ∈ [a.ref, b.ref] := by decide
  have hname : ∀ {x y : ChordNode 8} {f : NodeRef}, x ∈ ring.nodes → y ∈ ring.nodes →
      f ∈ [x.ref, y.ref] → ∃ m ∈ ring.nodes, f = m.ref := by
    intro x y f hx hy hf
    rcases List.mem_pair.1 hf with h | h
    · exact ⟨x, hx, h⟩
    · exact ⟨y, hy, h⟩
  exact forall_mem (fun i => hname (by simp [ring]) (by simp [ring]) (hfinger i).1)
    (fun i => hname (by simp [ring]) (by simp [ring]) (hfinger i).2.1)
    fun i => hname (by simp [ring]) (by simp [ring]) (hfinger i).2.2

theorem owner : ring.FirstAt 100 c :=
  ⟨by simp [ring], forall_mem (by decide) (by decide) (by decide)⟩

/-- No node has stored anything. -/
def empty : Stores := fun _ => .empty

/-- The forward of the lookup is lost once. -/
def oneLost : Faults := ⟨fun attempts _ => attempts = 2, fun _ _ => .delivered⟩

end ThreeNodes

open ThreeNodes in
/-- **A value that was stored is not found**: the key `100` belongs to the node `150`; the
lookup of node `10` forwards to node `80`, the forward is lost, and the value is stored at node
`80`, which is the successor of node `10`. -/
theorem routedPut_lost :
    ¬ (∀ (r : Members 8), r.SuccessorsCorrect → r.FingersNameMembers → ∀ sha1Id : String → ℕ,
        ∀ key, sha1Id key < 2 ^ 8 → (∀ m ∈ r.nodes, m.nodeId ≠ sha1Id key) → ∀ n ∈ r.nodes,
        ∀ v, v ≠ Json.null → ∀ (f : Faults) (stores : Stores),
        (routedPut r.net sha1Id 257 f n key v stores).1.isSome = true → ∀ m ∈ r.nodes,
          routedGet r.net sha1Id 257 Faults.none m key
            (routedPut r.net sha1Id 257 f n key v stores).2 = some (some v)) ∧
      (routedPut ring.net (fun _ => 100) 257 oneLost a "k" (.int 1) empty).1 = some 80 := by
  have hput : (routedPut ring.net (fun _ => 100) 257 oneLost a "k" (.int 1) empty).1 = some 80 := by
    decide
  refine ⟨fun h => ?_, hput⟩
  have hfound := h ring successors fingers (fun _ => 100) "k" (by decide)
    (forall_mem (by decide) (by decide) (by decide)) a (by simp [ring]) (.int 1) (by simp) oneLost empty
    (by rw [hput]; rfl) c (by simp [ring])
  have hnone : ((routedGet ring.net (fun _ => 100) 257 Faults.none c "k" (routedPut ring.net
      (fun _ => 100) 257 oneLost a "k" (.int 1) empty).2).bind id).isNone = true := by decide
  rw [hfound] at hnone
  exact absurd hnone (by decide)

open ThreeNodes in
/-- The hypotheses of `routedPut_found_iff` are satisfiable: node `10` is asked for the key
`100` and nothing goes wrong. -/
theorem routedPut_found_threeNodes :
    ((routedPut ring.net (fun _ => 100) 257 Faults.none a "k" (.int 1) empty).1.isSome = true →
      ∀ m ∈ ring.nodes, routedGet ring.net (fun _ => 100) 257 Faults.none m "k"
        (routedPut ring.net (fun _ => 100) 257 Faults.none a "k" (.int 1) empty).2 =
          some (some (.int 1))) ↔
    ((routedPut ring.net (fun _ => 100) 257 Faults.none a "k" (.int 1) empty).1.isSome = true →
      reaches ring.net 257 Faults.none a c 100 routedAttempts = true ∨
        (empty c.address).get "k" = some (.int 1)) :=
  routedPut_found_iff successors fingers (by decide) (by decide)
    (forall_mem (by decide) (by decide) (by decide)) (by simp [ring]) owner (by simp) Faults.none empty

end Data
end ChordInfra
