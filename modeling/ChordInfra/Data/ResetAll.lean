/-
# Resetting the whole ring

`chord/server.py`: `_clear_all_local` and `POST /api/tasks/reset-all`.  The node
that is asked clears its own store, and then the stores of the nodes it can
find: it keeps a queue of addresses, asks each one that it has not seen to clear
its store (`local=1`) and appends the successor and the fingers that the node
there reports (`GET /chord/state`).

An address without a node does not answer: the request raises, and the loop goes
on.  The pointers are any, and stay as they are during the loop; an empty
address is skipped, as the source skips an address that is `None`.
-/

import ChordInfra.Traverse.Worklist
import ChordInfra.Data.Routed

namespace ChordInfra
namespace Data
namespace ResetAll

open ChordInfra.Ring
open Storage (Json)
open Traverse

/-! ### One store -/

/-- `key.startswith(prefix)`. -/
def startsWith (start key : String) : Bool := start.toList.isPrefixOf key.toList

/-- What `_clear_all_local` has done so far. -/
structure Cleared where
  store : Dict String Json
  deletedHt1 : ℕ
  deletedHt2 : ℕ

/-- The loop of `_clear_all_local` over the keys. -/
def clearKeys : List String → Cleared → Cleared
  | [], c => c
  | k :: keys, c =>
    if startsWith "result:" k then
      clearKeys keys ⟨c.store.erase k, c.deletedHt1 + 1, c.deletedHt2⟩
    else if startsWith "worker:" k then
      clearKeys keys ⟨c.store.erase k, c.deletedHt1, c.deletedHt2 + 1⟩
    else clearKeys keys c

/-- `_clear_all_local`. -/
def clearAllLocal (store : Dict String Json) : Cleared :=
  clearKeys (store.entries.map Prod.fst) ⟨store, 0, 0⟩

/-- A key that a reset deletes. -/
def isReset (key : String) : Bool := startsWith "result:" key || startsWith "worker:" key

/-- The number of keys of a store that start so. -/
def numKeys (start : String) (store : Dict String Json) : ℕ :=
  (store.entries.map Prod.fst).countP (startsWith start)

/-- No key starts both ways. -/
theorem not_both (key : String) :
    ¬(startsWith "result:" key = true ∧ startsWith "worker:" key = true) := by
  unfold startsWith
  rintro ⟨hresult, hworker⟩
  obtain ⟨t, ht⟩ := List.isPrefixOf_iff_prefix.1 hresult
  obtain ⟨t', ht'⟩ := List.isPrefixOf_iff_prefix.1 hworker
  have hfirst := congrArg List.head? (ht.trans ht'.symm)
  simp at hfirst

theorem clearKeys_entries (keys : List String) (c : Cleared) :
    (clearKeys keys c).store.entries =
      c.store.entries.filter fun e => !(decide (e.1 ∈ keys) && isReset e.1) := by
  induction keys generalizing c with
  | nil => simp [clearKeys]
  | cons k keys ih =>
    have herase : ∀ d1 d2, isReset k = true →
        (clearKeys keys ⟨c.store.erase k, d1, d2⟩).store.entries =
          c.store.entries.filter fun e => !(decide (e.1 ∈ k :: keys) && isReset e.1) := by
      intro d1 d2 hk
      rw [ih]
      unfold Dict.erase
      rw [List.filter_filter]
      refine List.filter_congr fun e _ => ?_
      by_cases he : e.1 = k
      · simp [he, hk]
      · simp [he]
    unfold clearKeys
    split_ifs with hresult hworker
    · exact herase _ _ (by simp [isReset, hresult])
    · exact herase _ _ (by simp [isReset, hworker])
    · rw [ih]
      refine List.filter_congr fun e _ => ?_
      by_cases he : e.1 = k
      · simp [he, isReset, hresult, hworker]
      · simp [he]

theorem clearKeys_counts (keys : List String) (c : Cleared) :
    (clearKeys keys c).deletedHt1 = c.deletedHt1 + keys.countP (startsWith "result:") ∧
      (clearKeys keys c).deletedHt2 = c.deletedHt2 + keys.countP (startsWith "worker:") := by
  induction keys generalizing c with
  | nil => exact ⟨rfl, rfl⟩
  | cons k keys ih =>
    unfold clearKeys
    split_ifs with hresult hworker
    · have hworker : ¬startsWith "worker:" k = true := fun h => not_both k ⟨hresult, h⟩
      rw [List.countP_cons_of_pos hresult, List.countP_cons_of_neg hworker]
      exact ⟨(ih _).1.trans (Nat.succ_add_eq_add_succ _ _), (ih _).2⟩
    · rw [List.countP_cons_of_neg hresult, List.countP_cons_of_pos hworker]
      exact ⟨(ih _).1, (ih _).2.trans (Nat.succ_add_eq_add_succ _ _)⟩
    · rw [List.countP_cons_of_neg hresult, List.countP_cons_of_neg hworker]
      exact ih c

/-- **What a node loses**: its keys of both kinds, and nothing else. -/
theorem clearAllLocal_entries (store : Dict String Json) :
    (clearAllLocal store).store.entries = store.entries.filter fun e => !isReset e.1 := by
  unfold clearAllLocal
  rw [clearKeys_entries]
  refine List.filter_congr fun e he => ?_
  rw [decide_eq_true (List.mem_map_of_mem he), Bool.true_and]

theorem clearAllLocal_counts (store : Dict String Json) :
    (clearAllLocal store).deletedHt1 = numKeys "result:" store ∧
      (clearAllLocal store).deletedHt2 = numKeys "worker:" store := by
  obtain ⟨h1, h2⟩ := clearKeys_counts (store.entries.map Prod.fst) ⟨store, 0, 0⟩
  exact ⟨h1.trans (Nat.zero_add _), h2.trans (Nat.zero_add _)⟩

/-! ### The ring -/

variable {M : ℕ} [NeZero M]

/-- The addresses a node names in its state: its successor's and those of its
fingers, but no empty one. -/
def pointers (n : ChordNode M) : List String :=
  (n.successor.address :: (List.finRange M).map fun i => (n.fingers i).nodeAddress).filter
    fun a => a ≠ ""

/-- What the loop says of an address it has asked: the counts of the answer, or
that the request raised. -/
inductive PeerResult
  | answered (address : String) (deletedHt1 deletedHt2 : ℕ)
  | failed (address : String)
deriving DecidableEq

/-- The local variables of `api_reset_all`, and the stores. -/
structure Sweep where
  deletedHt1 : ℕ
  deletedHt2 : ℕ
  peerResults : List PeerResult
  stores : Stores

/-- The answer to `POST /api/tasks/reset-all`. -/
structure ResetReply where
  deletedHt1 : ℕ
  deletedHt2 : ℕ
  peers : Option (List PeerResult)

/-- `api_reset_all` with `local=1`. -/
def resetLocal (store : Dict String Json) : ResetReply × Dict String Json :=
  let c := clearAllLocal store
  (⟨c.deletedHt1, c.deletedHt2, none⟩, c.store)

section Loop

variable (net : Network M)

/-- One address is asked to clear its store. -/
def contact (s : Sweep) (addr : String) : Sweep :=
  match net addr with
  | none => { s with peerResults := s.peerResults ++ [.failed addr] }
  | some _ =>
    let (pd, store) := resetLocal (s.stores addr)
    { deletedHt1 := s.deletedHt1 + pd.deletedHt1
      deletedHt2 := s.deletedHt2 + pd.deletedHt2
      peerResults := s.peerResults ++ [.answered addr pd.deletedHt1 pd.deletedHt2]
      stores := Function.update s.stores addr store }

/-- The addresses that the node at `addr` names. -/
def named (addr : String) : List String :=
  match net addr with
  | none => []
  | some m => pointers m

/-- `while to_visit`, with as much fuel as there are rounds. -/
def sweep : ℕ → List String → List String → Sweep → Option Sweep
  | _, _, [], s => some s
  | 0, _, _ :: _, _ => none
  | fuel + 1, seen, addr :: toVisit, s =>
    if addr ∈ seen then sweep fuel seen toVisit s
    else sweep fuel (addr :: seen)
      (toVisit ++ (named net addr).filter fun a => a ∉ addr :: seen) (contact net s addr)

/-- The queue before the loop: the successor, and the fingers that name others. -/
def toVisit (n : ChordNode M) : List String :=
  [n.successor.address].filter (fun a => a ≠ "") ++
    ((List.finRange M).map fun i => (n.fingers i).nodeAddress).filter
      fun a => a ≠ "" ∧ a ∉ [n.address]

/-- `api_reset_all` at the node `n`. -/
def resetAll (n : ChordNode M) (stores : Stores) (fuel : ℕ) : Option (ResetReply × Stores) :=
  let (d, store) := resetLocal (stores n.address)
  (sweep net fuel [n.address] (toVisit n)
      ⟨d.deletedHt1, d.deletedHt2, [], Function.update stores n.address store⟩).map fun s =>
    (⟨s.deletedHt1, s.deletedHt2, some s.peerResults⟩, s.stores)

end Loop

/-! ### The loop is a traversal -/

variable {net : Network M} {s : Sweep} {n : ChordNode M} {stores : Stores}

/-- The loop visits addresses as a traversal does, and contacts each as it comes to it. -/
theorem sweep_eq (fuel : ℕ) (seen queue : List String) (s : Sweep) : sweep net fuel seen queue s =
    (visit (named net) fuel seen queue).map fun visited => visited.foldl (contact net) s := by
  induction fuel generalizing seen queue s with
  | zero => cases queue <;> rfl
  | succ fuel ih =>
    cases queue with
    | nil => rfl
    | cons addr queue =>
      rw [sweep, visit]
      by_cases haddr : addr ∈ seen
      · rw [if_pos haddr, if_pos haddr, ih]
      · rw [if_neg haddr, if_neg haddr, ih, Option.map_map]
        rfl

/-- The store of an address after it was asked, given the store before. -/
def cleared (store : Dict String Json) : Dict String Json := (clearAllLocal store).store

/-- What the answer of an address says, given the store before. -/
def answer (stores : Stores) (addr : String) : PeerResult :=
  .answered addr (numKeys "result:" (stores addr)) (numKeys "worker:" (stores addr))

omit [NeZero M] in
theorem contact_eq {addr : String} (haddr : (net addr).isSome) : contact net s addr =
    ⟨s.deletedHt1 + numKeys "result:" (s.stores addr),
      s.deletedHt2 + numKeys "worker:" (s.stores addr), s.peerResults ++ [answer s.stores addr],
      Function.update s.stores addr (cleared (s.stores addr))⟩ := by
  obtain ⟨m, hm⟩ := Option.isSome_iff_exists.1 haddr
  obtain ⟨h1, h2⟩ := clearAllLocal_counts (s.stores addr)
  unfold contact resetLocal answer cleared
  rw [hm]
  dsimp only
  rw [h1, h2]

theorem map_numKeys_congr {stores' : Stores} {visited : List String}
    (h : ∀ a ∈ visited, stores' a = stores a) (start : String) :
    (visited.map fun a => numKeys start (stores' a)) =
      visited.map fun a => numKeys start (stores a) :=
  List.map_congr_left fun a ha => by rw [h a ha]

theorem map_answer_congr {stores' : Stores} {visited : List String}
    (h : ∀ a ∈ visited, stores' a = stores a) :
    visited.map (answer stores') = visited.map (answer stores) :=
  List.map_congr_left fun a ha => by unfold answer; rw [h a ha]

omit [NeZero M] in
/-- What contacting several addresses has done, none of them twice. -/
theorem foldl_contact {visited : List String} (hnodup : visited.Nodup)
    (hanswers : ∀ a ∈ visited, (net a).isSome) (s : Sweep) :
    visited.foldl (contact net) s =
      ⟨s.deletedHt1 + (visited.map fun a => numKeys "result:" (s.stores a)).sum,
        s.deletedHt2 + (visited.map fun a => numKeys "worker:" (s.stores a)).sum,
        s.peerResults ++ visited.map (answer s.stores),
        fun a => if a ∈ visited then cleared (s.stores a) else s.stores a⟩ := by
  induction visited generalizing s with
  | nil => simp
  | cons addr visited ih =>
    obtain ⟨hnot, hrest⟩ := List.nodup_cons.1 hnodup
    rw [List.foldl_cons, contact_eq (hanswers addr List.mem_cons_self),
      ih hrest fun a ha => hanswers a (List.mem_cons_of_mem _ ha)]
    -- the stores of the others are as before
    have hother : ∀ a ∈ visited, Function.update s.stores addr (cleared (s.stores addr)) a =
        s.stores a := by
      intro a ha
      have hne : a ≠ addr := fun he => hnot (he ▸ ha)
      rw [Function.update_of_ne hne]
    dsimp only
    rw [map_numKeys_congr hother, map_numKeys_congr hother, map_answer_congr hother,
      List.map_cons, List.sum_cons, List.map_cons, List.sum_cons, List.map_cons,
      List.append_assoc, Nat.add_assoc, Nat.add_assoc]
    congr 1
    funext a
    by_cases ha : a = addr
    · subst ha
      rw [if_neg hnot, Function.update_self, if_pos List.mem_cons_self]
    · rw [Function.update_of_ne ha]
      simp [ha]

/-! ### A reset -/

/-- The node that answers at an address. -/
def network (nodes : List (ChordNode M)) : Network M :=
  fun a => nodes.find? fun n => n.address = a

/-- An address can be reached from another along successor and finger pointers. -/
def Reachable (nodes : List (ChordNode M)) : String → String → Prop :=
  Reach (named (network nodes))

/-- What a reset leaves and answers: `visited` are the other addresses it came
to, in their order. -/
structure ResetDone (n : ChordNode M) (stores : Stores) (visited : List String)
    (reply : ResetReply) (stores' : Stores) : Prop where
  peers : reply.peers = some (visited.map (answer stores))
  cleared : ∀ a ∈ n.address :: visited,
    (stores' a).entries = (stores a).entries.filter fun e => !isReset e.1
  untouched : ∀ a, a ∉ n.address :: visited → stores' a = stores a
  deletedHt1 : reply.deletedHt1 =
    ((n.address :: visited).map fun a => numKeys "result:" (stores a)).sum
  deletedHt2 : reply.deletedHt2 =
    ((n.address :: visited).map fun a => numKeys "worker:" (stores a)).sum

variable {nodes : List (ChordNode M)}

theorem toVisit_subset {b : String} (hb : b ∈ toVisit n) : b ∈ pointers n := by
  unfold toVisit at hb
  unfold pointers
  rcases List.mem_append.1 hb with hb | hb
  · obtain ⟨hb, hne⟩ := List.mem_filter.1 hb
    rw [List.mem_singleton.1 hb] at hne ⊢
    exact List.mem_filter.2 ⟨List.mem_cons_self, hne⟩
  · obtain ⟨hb, hne⟩ := List.mem_filter.1 hb
    have hne : b ≠ "" := (of_decide_eq_true hne).1
    exact List.mem_filter.2 ⟨List.mem_cons_of_mem _ hb, decide_eq_true hne⟩

theorem mem_toVisit {b : String} (hb : b ∈ pointers n) : b ∈ toVisit n ∨ b = n.address := by
  unfold pointers at hb
  unfold toVisit
  obtain ⟨hb, hne⟩ := List.mem_filter.1 hb
  by_cases hself : b = n.address
  · exact .inr hself
  refine .inl ?_
  rcases List.mem_cons.1 hb with rfl | hb
  · exact List.mem_append_left _ (List.mem_filter.2 ⟨List.mem_singleton_self _, hne⟩)
  · have hother : b ≠ "" ∧ b ∉ [n.address] :=
      ⟨of_decide_eq_true hne, fun h => hself (List.mem_singleton.1 h)⟩
    exact List.mem_append_right _ (List.mem_filter.2 ⟨hb, decide_eq_true hother⟩)

theorem length_pointers_le (n : ChordNode M) : (pointers n).length ≤ M + 1 := by
  unfold pointers
  refine (List.length_filter_le _ _).trans ?_
  rw [List.length_cons, List.length_map, List.length_finRange]

/-- The loop ends: the nodes name finitely many addresses. -/
theorem exists_visit (nodes : List (ChordNode M)) (hn : n ∈ nodes) :
    ∃ fuel, (visit (named (network nodes)) fuel [n.address] (toVisit n)).isSome := by
  have hnamed : ∀ a, ∀ b ∈ named (network nodes) a, b ∈ (nodes.flatMap pointers).toFinset := by
    intro a b hb
    unfold named at hb
    cases hm : network nodes a with
    | none =>
      rw [hm] at hb
      cases hb
    | some m =>
      rw [hm] at hb
      exact List.mem_toFinset.2 (List.mem_flatMap.2 ⟨m, List.mem_of_find?_eq_some hm, hb⟩)
  have hwidth : ∀ a, (named (network nodes) a).length ≤ M + 1 := by
    intro a
    unfold named
    cases network nodes a with
    | none => exact Nat.zero_le _
    | some m => exact length_pointers_le m
  have hqueue : ∀ b ∈ toVisit n, b ∈ (nodes.flatMap pointers).toFinset := fun b hb =>
    List.mem_toFinset.2 (List.mem_flatMap.2 ⟨n, hn, toVisit_subset hb⟩)
  exact ⟨_, visit_isSome hnamed hwidth hqueue le_rfl⟩

/-- What a reset does that visits the addresses `visited`, where each answers:
the node itself loses its keys before the loop. -/
theorem resetAll_eq (stores : Stores) {fuel : ℕ} {visited : List String}
    (hvisit : visit (named net) fuel [n.address] (toVisit n) = some visited)
    (hnodup : (n.address :: visited).Nodup) (hanswers : ∀ a ∈ visited, (net a).isSome) :
    resetAll net n stores fuel = some
      (⟨((n.address :: visited).map fun a => numKeys "result:" (stores a)).sum,
        ((n.address :: visited).map fun a => numKeys "worker:" (stores a)).sum,
        some (visited.map (answer stores))⟩,
      fun a => if a ∈ n.address :: visited then cleared (stores a) else stores a) := by
  obtain ⟨hnot, hrest⟩ := List.nodup_cons.1 hnodup
  obtain ⟨h1, h2⟩ := clearAllLocal_counts (stores n.address)
  have hother : ∀ a ∈ visited,
      Function.update stores n.address (clearAllLocal (stores n.address)).store a = stores a := by
    intro a ha
    have hne : a ≠ n.address := fun he => hnot (he ▸ ha)
    rw [Function.update_of_ne hne]
  unfold resetAll resetLocal
  dsimp only
  rw [sweep_eq, hvisit, Option.map_some, Option.map_some, foldl_contact hrest hanswers, h1, h2]
  dsimp only
  rw [map_numKeys_congr hother, map_numKeys_congr hother, map_answer_congr hother, List.nil_append,
    List.map_cons, List.sum_cons, List.map_cons, List.sum_cons]
  congr 2
  funext a
  by_cases ha : a = n.address
  · subst ha
    rw [if_neg hnot, if_pos List.mem_cons_self]
    exact Function.update_self ..
  · simp [ha, cleared]

/-- **A reset clears the reachable nodes, each once.**  In any network of nodes
with distinct addresses, whatever they point at, the reset at a node ends; it
comes to exactly the addresses that can be reached, to each once; if a node
answers at each of them, their stores lose the keys that start with `result:`
or `worker:` and no others, no other store changes, and the counts are the
numbers of these keys. -/
theorem resetAll_spec (nodes : List (ChordNode M)) (haddr : (nodes.map ChordNode.address).Nodup)
    (n : ChordNode M) (hn : n ∈ nodes) (stores : Stores)
    (hanswers : ∀ a, Reachable nodes n.address a → (network nodes a).isSome) :
    ∃ visited reply stores',
      (∃ bound, ∀ fuel, bound ≤ fuel →
        resetAll (network nodes) n stores fuel = some (reply, stores')) ∧
      (n.address :: visited).Nodup ∧
      (∀ a, a ∈ n.address :: visited ↔ Reachable nodes n.address a) ∧
      ResetDone n stores visited reply stores' := by
  have hself : named (network nodes) n.address = pointers n := by
    unfold named network
    rw [find?_eq_some_of_nodup_map haddr hn]
  obtain ⟨bound, hbound⟩ := exists_visit nodes hn
  obtain ⟨visited, hvisit⟩ := Option.isSome_iff_exists.1 hbound
  obtain ⟨hnodup, hreach⟩ := visit_spec (fun b hb => hself ▸ toVisit_subset hb)
    (fun b hb => mem_toVisit (hself ▸ hb)) hvisit
  have hsome : ∀ a ∈ visited, (network nodes a).isSome :=
    fun a ha => hanswers a ((hreach a).1 (List.mem_cons_of_mem _ ha))
  have hrun := fun fuel (hfuel : bound ≤ fuel) =>
    resetAll_eq stores (visit_mono hfuel hvisit) hnodup hsome
  refine ⟨visited, _, _, ⟨bound, hrun⟩, hnodup, hreach, rfl, fun a ha => ?_, fun a ha => ?_, rfl, rfl⟩
  · rw [if_pos ha]
    exact clearAllLocal_entries (stores a)
  · rw [if_neg ha]

/-- A node whose one finger names the node at `target`. -/
def pointingTo (address target : String) : ChordNode 1 :=
  ⟨address, 0, none, fun _ => ⟨0, 0, target⟩⟩

/-- Two nodes that point at each other, and a third that points at them and is
not found. -/
def pair : List (ChordNode 1) := [pointingTo "a" "b", pointingTo "b" "a", pointingTo "c" "a"]

theorem reachable_pair {a : String} (h : Reachable pair "a" a) : a = "a" ∨ a = "b" := by
  have hnamed : named (network pair) "a" = ["b", "b"] ∧
      named (network pair) "b" = ["a", "a"] := by decide
  induction h with
  | refl => exact .inl rfl
  | tail _ hstep ih =>
    rcases ih with rfl | rfl
    · rw [hnamed.1] at hstep
      exact .inr (by simpa using hstep)
    · rw [hnamed.2] at hstep
      exact .inl (by simpa using hstep)

/-- The reset at the first of them, when every store has one task. -/
theorem resetAll_spec_pair : ∃ visited reply stores',
    (∃ bound, ∀ fuel, bound ≤ fuel →
      resetAll (network pair) (pointingTo "a" "b") (fun _ => Dict.empty.set "result:t" .null) fuel =
        some (reply, stores')) ∧
    ("a" :: visited).Nodup ∧ (∀ a, a ∈ "a" :: visited ↔ Reachable pair "a" a) ∧
    ResetDone (pointingTo "a" "b") (fun _ => Dict.empty.set "result:t" .null) visited reply
      stores' := by
  refine resetAll_spec pair (by decide) (pointingTo "a" "b") List.mem_cons_self _ fun a ha => ?_
  rcases reachable_pair ha with rfl | rfl <;> decide

end ResetAll
end Data
end ChordInfra
