/-
# The hops of a lookup

A lookup that a node does not answer itself is forwarded to the closest preceding node of its
finger table (`ChordNode.forward`), and goes on there.

Whatever the pointers are, a forward goes to a member strictly inside the arc from the node to
the key (`Members.forward_spec`), so the arc to the key shrinks, no node is visited twice and
every lookup ends (`Members.lookup_ends`).

With correct successors the fingers decide how a lookup goes on but not what it finds
(`Members.fingers_are_hints`), and with the fingers of a stable ring every forward halves what
is left of the way (`Members.lookup_halves`).
-/

import ChordInfra.Ring.Lookup
import Mathlib.Data.List.Chain
import Mathlib.Data.List.Perm.Subperm

namespace ChordInfra
namespace Ring

open Cyclic

variable {M : ℕ} [NeZero M]

/-! ### Forwards -/

/-- The node that `find_successor` forwards to, where it forwards. -/
def ChordNode.forward (net : Network M) (keyId : ℕ) (n : ChordNode M) : Option (ChordNode M) :=
  if inRange keyId n.nodeId n.successor.id true then none
  else if (n.closestPrecedingNode keyId).id = n.nodeId then none
  else net (n.closestPrecedingNode keyId).address

omit [NeZero M] in
/-- The closest preceding node is the last finger strictly between the node and the key, or the
node itself. -/
theorem ChordNode.closestPrecedingNode_cases (n : ChordNode M) (k : ℕ) :
    n.closestPrecedingNode k = n.ref ∨ ∃ i, n.closestPrecedingNode k = (n.fingers i).ref ∧
      inRange (n.fingers i).nodeId n.nodeId k false = true ∧
        ∀ j, i < j → ¬inRange (n.fingers j).nodeId n.nodeId k false = true := by
  unfold closestPrecedingNode
  split
  · next i hi =>
    obtain ⟨-, hrange, hlater⟩ := (find?_decreasing_eq_some_iff
      (List.pairwise_reverse.2 (List.pairwise_lt_finRange M))).1 hi
    exact .inr ⟨i, rfl, hrange, fun j hij => hlater j (by simp) hij⟩
  · exact .inl rfl

/-- A lookup goes on at the node that it is forwarded to, and is answered where there is none. -/
theorem ChordNode.findSuccessor_succ (net : Network M) (lost : ℕ → Bool) (keyId fuel : ℕ)
    (n : ChordNode M) : n.findSuccessor net lost keyId (fuel + 1) =
      match n.forward net keyId with
      | some m => if lost fuel then some n.successor else m.findSuccessor net lost keyId fuel
      | none => some n.successor := by
  unfold forward
  conv_lhs => unfold findSuccessor
  split_ifs <;> rfl

/-- One hop of a lookup. -/
def Hops (net : Network M) (keyId : ℕ) (n m : ChordNode M) : Prop := n.forward net keyId = some m


/-- A lookup that does not end makes as many hops as it may. -/
theorem exists_hops_of_none {net : Network M} {lost : ℕ → Bool} {k fuel : ℕ} {n : ChordNode M}
    (h : n.findSuccessor net lost k fuel = none) :
    ∃ path, path.length = fuel ∧ (n :: path).IsChain (Hops net k) := by
  induction fuel generalizing n with
  | zero => exact ⟨[], rfl, .singleton n⟩
  | succ fuel ih =>
    rw [ChordNode.findSuccessor_succ] at h
    split at h
    · next m hm =>
      split_ifs at h
      obtain ⟨path, hlength, hpath⟩ := ih h
      exact ⟨m :: path, congrArg (· + 1) hlength, .cons_cons hm hpath⟩
    · cases h

/-! ### What a hop does -/

namespace Members

variable {r : Members M} {n m p : ChordNode M} {k : ℕ}

/-- **A forward goes to a member strictly inside the arc to the key**, which is the whole turn
when the key is the id of the node itself. -/
theorem forward_spec (hf : r.FingersNameMembers) (hn : n ∈ r.nodes) (hk : k < 2 ^ M)
    (h : Hops r.net k n m) : m ∈ r.nodes ∧ n.closestPrecedingNode k = m.ref ∧
      arc (2 ^ M) n.nodeId m.nodeId < arc (2 ^ M) n.nodeId k := by
  have hidn := r.ids_lt n hn
  unfold Hops ChordNode.forward at h
  split_ifs at h with hin hself
  rcases n.closestPrecedingNode_cases k with hnone | ⟨i, hi, hrange, -⟩
  · exact absurd (congrArg NodeRef.id hnone) hself
  · obtain ⟨m', hm', href⟩ := hf n hn i
    rw [hi, href] at h hself
    rw [show m'.ref.address = m'.address from rfl, net_address hm'] at h
    cases h
    have hid : (n.fingers i).nodeId = m.nodeId := congrArg NodeRef.id href
    have hidm := r.ids_lt m hm'
    refine ⟨hm', hi.trans href, ?_⟩
    rw [hid] at hrange
    by_cases hnk : n.nodeId = k
    · rw [← hnk, arc_self]
      exact arc_lt_of_ne hidn hidm (Ne.symm hself)
    · rwa [inRange_exclusive hidm hidn hk hnk] at hrange

/-- Each hop shortens the arc to the key. -/
theorem arc_lt_of_hops (hf : r.FingersNameMembers) (hn : n ∈ r.nodes) (hk : k < 2 ^ M)
    (h : Hops r.net k n m) : arc (2 ^ M) m.nodeId k < arc (2 ^ M) n.nodeId k := by
  obtain ⟨hm, -, hlt⟩ := forward_spec hf hn hk h
  have hsplit := arc_add_arc_of_lt (r.ids_lt n hn) (r.ids_lt m hm) hk hlt
  have hpos := arc_pos (b := m.nodeId) (r.ids_lt n hn)
  omega

/-- The nodes that a lookup visits are members, each nearer to the key than those before. -/
theorem path_spec (hf : r.FingersNameMembers) (hk : k < 2 ^ M) {path : List (ChordNode M)}
    (hn : n ∈ r.nodes) (h : (n :: path).IsChain (Hops r.net k)) :
    (∀ m ∈ n :: path, m ∈ r.nodes) ∧
      (n :: path).Pairwise fun a b => arc (2 ^ M) b.nodeId k < arc (2 ^ M) a.nodeId k := by
  induction path generalizing n with
  | nil => exact ⟨by simpa using hn, List.pairwise_singleton _ _⟩
  | cons m path ih =>
    obtain ⟨hhop, hpath⟩ := List.isChain_cons_cons.1 h
    obtain ⟨hmembers, hsorted⟩ := ih (forward_spec hf hn hk hhop).1 hpath
    refine ⟨by simpa [hn] using hmembers, List.pairwise_cons.2 ⟨fun b hb => ?_, hsorted⟩⟩
    have hlt := arc_lt_of_hops hf hn hk hhop
    rcases List.mem_cons.1 hb with rfl | hb
    · exact hlt
    · exact ((List.pairwise_cons.1 hsorted).1 b hb).trans hlt

/-- **Every lookup ends**, whatever the pointers of the members are: it visits no node twice, so
it is forwarded fewer times than there are nodes. -/
theorem lookup_ends (hf : r.FingersNameMembers) (hn : n ∈ r.nodes) (hk : k < 2 ^ M) :
    (∀ path, (n :: path).IsChain (Hops r.net k) →
        ((n :: path).map ChordNode.nodeId).Nodup ∧ path.length < r.nodes.length) ∧
      ∀ lost fuel, r.nodes.length ≤ fuel →
        (n.findSuccessor r.net lost k fuel).isSome = true := by
  have hpath : ∀ path, (n :: path).IsChain (Hops r.net k) →
      ((n :: path).map ChordNode.nodeId).Nodup ∧ path.length < r.nodes.length := by
    intro path h
    obtain ⟨hmembers, hsorted⟩ := path_spec hf hk hn h
    have hnodup : ((n :: path).map ChordNode.nodeId).Nodup := by
      refine List.pairwise_map.2 (hsorted.imp fun hlt he => ?_)
      rw [he] at hlt
      exact Nat.lt_irrefl _ hlt
    refine ⟨hnodup, ?_⟩
    have hle := ((List.Nodup.of_map _ hnodup).subperm hmembers).length_le
    rwa [List.length_cons] at hle
  refine ⟨hpath, fun lost fuel hfuel => ?_⟩
  by_contra hnone
  obtain ⟨path, hlength, hchain⟩ := exists_hops_of_none (Option.not_isSome_iff_eq_none.1 hnone)
  have hlt := (hpath path hchain).2
  omega

/-! ### Fingers as hints -/

/-- The first finger is the successor, so it names a member where the successors are right. -/
theorem fingersNameMembers_of_ne (hs : r.SuccessorsCorrect)
    (hf : ∀ n ∈ r.nodes, ∀ i, i ≠ 0 → ∃ m ∈ r.nodes, (n.fingers i).ref = m.ref) :
    r.FingersNameMembers := by
  intro n hn i
  by_cases hi : i = 0
  · subst hi
    obtain ⟨m, hm, he⟩ := hs n hn
    exact ⟨m, hm.1, he⟩
  · exact hf n hn i hi

/-- **Fingers are only hints**: whatever members the fingers of a ring with correct successors
name, a node finds the owner of every key but its own id, the same as with other fingers. -/
theorem fingers_are_hints {r' : Members M} {n' : ChordNode M} (hs : r.SuccessorsCorrect)
    (hs' : r'.SuccessorsCorrect)
    (hf : ∀ n ∈ r.nodes, ∀ i, i ≠ 0 → ∃ m ∈ r.nodes, (n.fingers i).ref = m.ref)
    (hf' : ∀ n ∈ r'.nodes, ∀ i, i ≠ 0 → ∃ m ∈ r'.nodes, (n.fingers i).ref = m.ref)
    (hsame : r'.nodes.map ChordNode.ref = r.nodes.map ChordNode.ref) (hn : n ∈ r.nodes)
    (hn' : n' ∈ r'.nodes) (href : n'.ref = n.ref) (hk : k < 2 ^ M) (hne : k ≠ n.nodeId) {fuel : ℕ}
    (hfuel : 2 ^ M ≤ fuel) : ∃ owner, r.FirstAt k owner ∧
      n.findSuccessor r.net (fun _ => false) k fuel = some owner.ref ∧
      n'.findSuccessor r'.net (fun _ => false) k fuel = some owner.ref := by
  have hid : n'.nodeId = n.nodeId := congrArg NodeRef.id href
  have hshort := (arc_lt_of_ne (r.ids_lt n hn) hk (Ne.symm hne)).trans_le hfuel
  obtain ⟨owner, howner, hfound⟩ := findSuccessor_of_ne hs (fingersNameMembers_of_ne hs hf) hk hn
    (Ne.symm hne) hshort
  obtain ⟨owner', howner', hfound'⟩ := findSuccessor_of_ne hs' (fingersNameMembers_of_ne hs' hf') hk
    hn' (by rw [hid]; exact Ne.symm hne) (by rw [hid]; exact hshort)
  -- the members are the same, but for their fingers
  have hin : ∀ {a : Members M} {b : Members M}, a.nodes.map ChordNode.ref = b.nodes.map ChordNode.ref →
      ∀ x ∈ a.nodes, ∃ y ∈ b.nodes, y.ref = x.ref := by
    intro a b he x hx
    have hmem : x.ref ∈ b.nodes.map ChordNode.ref := he ▸ List.mem_map_of_mem hx
    obtain ⟨y, hy, hyx⟩ := List.mem_map.1 hmem
    exact ⟨y, hy, hyx⟩
  obtain ⟨q, hq, hqo⟩ := hin hsame owner' howner'.1
  have hfirst : r.FirstAt k q := by
    refine ⟨hq, fun m hm => ?_⟩
    obtain ⟨m', hm', hmm⟩ := hin hsame.symm m hm
    have hle := howner'.2 m' hm'
    rwa [show m'.nodeId = m.nodeId from congrArg NodeRef.id hmm,
      show owner'.nodeId = q.nodeId from (congrArg NodeRef.id hqo).symm] at hle
  obtain rfl := firstAt_unique hk howner hfirst
  exact ⟨owner, howner, hfound, by rw [hfound', hqo]⟩

/-! ### Halving the way -/

/-- `p` is the last member before the key. -/
def LastBefore (r : Members M) (k : ℕ) (p : ChordNode M) : Prop :=
  p ∈ r.nodes ∧ ∀ m ∈ r.nodes, arc (2 ^ M) p.nodeId k ≤ arc (2 ^ M) m.nodeId k

/-- Finger `i` of a stable ring names the first member at least `2 ^ i` ahead. -/
theorem Stable.finger (hs : r.Stable) (hn : n ∈ r.nodes) (i : Fin M) :
    ∃ m, r.FirstAt ((n.nodeId + 2 ^ i.val) % 2 ^ M) m ∧ (n.fingers i).ref = m.ref := by
  by_cases hi : i = 0
  · subst hi
    obtain ⟨m, hm, he⟩ := hs.successors n hn
    have hM : 1 < 2 ^ M := Nat.one_lt_two_pow (NeZero.ne M)
    refine ⟨m, ⟨hm.1, fun m' hm' => ?_⟩, he⟩
    have hle := hm.2 m' hm'
    have hidn := r.ids_lt n hn
    have hidm := r.ids_lt m hm.1
    have hidm' := r.ids_lt m' hm'
    rw [show (2 : ℕ) ^ (0 : Fin M).val = 1 by simp]
    generalize 2 ^ M = N at *
    rcases Nat.lt_or_ge (n.nodeId + 1) N with hlt | hge
    · rw [Nat.mod_eq_of_lt hlt]
      unfold arc at hle
      unfold Cyclic.dist
      split_ifs at * <;> omega
    · rw [show n.nodeId + 1 = N by omega, Nat.mod_self]
      unfold arc at hle
      unfold Cyclic.dist
      split_ifs at * <;> omega
  · obtain ⟨m, hm, he⟩ := hs.fingers n hn i hi
    rw [hs.starts n hn i hi] at hm
    exact ⟨m, hm, he⟩

/-- **Every forward halves what is left of the way** to the last member before the key. -/
theorem hops_halve (hs : r.Stable) (hn : n ∈ r.nodes) (hk : k < 2 ^ M) (hp : r.LastBefore k p)
    (h : Hops r.net k n m) :
    2 * dist (2 ^ M) m.nodeId p.nodeId ≤ dist (2 ^ M) n.nodeId p.nodeId ∧
      0 < dist (2 ^ M) n.nodeId p.nodeId := by
  have hf := hs.fingersNameMembers
  obtain ⟨hm, hclosest, hlt⟩ := forward_spec hf hn hk h
  have hidn := r.ids_lt n hn
  have hidm := r.ids_lt m hm
  have hidp := r.ids_lt p hp.1
  have hmn : m.nodeId ≠ n.nodeId := by
    intro he
    rw [he, arc_self] at hlt
    exact absurd hlt (Nat.not_lt.2 (arc_le hidn hk))
  -- the hop does not go past the last member before the key
  have hmp : dist (2 ^ M) n.nodeId m.nodeId + dist (2 ^ M) m.nodeId p.nodeId =
      dist (2 ^ M) n.nodeId p.nodeId :=
    dist_add_dist_of_arc hidn hidm hk hidp hlt (hp.2 m hm)
  have hpos : 0 < dist (2 ^ M) n.nodeId m.nodeId := by
    by_contra hzero
    exact hmn (eq_of_dist_eq_zero hidn (by omega)).symm
  -- the finger that was taken, and the one after it
  rcases n.closestPrecedingNode_cases k with hself | ⟨i, hi, -, hlater⟩
  · rw [hclosest] at hself
    exact absurd (congrArg NodeRef.id hself) hmn
  obtain ⟨m', hfirst, href⟩ := hs.finger hn i
  have hmm : m' = m := eq_of_nodeId hfirst.1 hm
    (congrArg NodeRef.id (href.symm.trans (hi.symm.trans hclosest)))
  subst hmm
  have hstep : 2 ^ i.val ≤ dist (2 ^ M) n.nodeId m'.nodeId :=
    le_dist_of_first hidn (r.ids_lt m' hm) (Nat.two_pow_pos _)
      (Nat.pow_lt_pow_right (by decide) i.isLt) hmn (hfirst.2 n hn)
  have hnext : dist (2 ^ M) n.nodeId p.nodeId < 2 ^ (i.val + 1) := by
    by_contra hfar
    have hfar' : 2 ^ (i.val + 1) ≤ dist (2 ^ M) n.nodeId p.nodeId := by omega
    have hiM : i.val + 1 < M :=
      (Nat.pow_lt_pow_iff_right (by decide : 1 < 2)).1 (hfar'.trans_lt (dist_lt hidp))
    obtain ⟨f, hfFirst, hfRef⟩ := hs.finger hn ⟨i.val + 1, hiM⟩
    obtain ⟨hfn, hfp⟩ := dist_le_of_first hidn (r.ids_lt f hfFirst.1) hidp (Nat.two_pow_pos _) hfar'
      (hfFirst.2 p hp.1)
    refine hlater ⟨i.val + 1, hiM⟩ (Nat.lt_succ_self i.val) ?_
    rw [show (n.fingers ⟨i.val + 1, hiM⟩).nodeId = f.nodeId from congrArg NodeRef.id hfRef]
    by_cases hnk : n.nodeId = k
    · rw [hnk]
      exact inRange_self ..
    · rw [inRange_exclusive (r.ids_lt f hfFirst.1) hidn hk hnk]
      exact arc_lt_of_dist_le hidn (r.ids_lt f hfFirst.1) hk hidp hfn (hp.2 n hn) hfp
  rw [pow_succ] at hnext
  omega

/-- A lookup that makes hops has at least `2 ^ hops` half steps to go. -/
theorem two_pow_le_of_path (hs : r.Stable) (hk : k < 2 ^ M) (hp : r.LastBefore k p)
    {path : List (ChordNode M)} (hn : n ∈ r.nodes) (h : (n :: path).IsChain (Hops r.net k))
    (hne : path ≠ []) : 2 ^ path.length ≤ 2 * dist (2 ^ M) n.nodeId p.nodeId := by
  induction path generalizing n with
  | nil => exact absurd rfl hne
  | cons m path ih =>
    obtain ⟨hhop, hpath⟩ := List.isChain_cons_cons.1 h
    obtain ⟨hhalf, hpos⟩ := hops_halve hs hn hk hp hhop
    rw [List.length_cons, pow_succ]
    cases path with
    | nil =>
      rw [List.length_nil]
      omega
    | cons m' path =>
      have hle := ih (forward_spec hs.fingersNameMembers hn hk hhop).1 hpath (by simp)
      omega

omit [NeZero M] in
theorem exists_lastBefore (r : Members M) (k : ℕ) : ∃ p, r.LastBefore k p := by
  have hne : r.nodes.argmin (fun m => arc (2 ^ M) m.nodeId k) ≠ none :=
    fun h => r.nonempty (List.argmin_eq_none.1 h)
  obtain ⟨p, hp⟩ := Option.ne_none_iff_exists'.1 hne
  exact ⟨p, List.argmin_mem hp, fun m hm =>
    List.le_of_mem_argmin (f := fun m => arc (2 ^ M) m.nodeId k) hm hp⟩

/-- **In a stable ring a lookup is forwarded at most `M` times**: every forward halves the
distance to the last member before the key. -/
theorem lookup_halves (hs : r.Stable) (hn : n ∈ r.nodes) (hk : k < 2 ^ M) :
    (∀ path, (n :: path).IsChain (Hops r.net k) → path.length ≤ M ∧
        ∀ p, r.LastBefore k p → (n :: path).IsChain fun a b =>
          2 * dist (2 ^ M) b.nodeId p.nodeId ≤ dist (2 ^ M) a.nodeId p.nodeId) ∧
      ∀ fuel, M < fuel → (n.findSuccessor r.net (fun _ => false) k fuel).isSome = true := by
  have hf := hs.fingersNameMembers
  have hshort : ∀ path, (n :: path).IsChain (Hops r.net k) → path.length ≤ M := by
    intro path h
    by_cases hne : path = []
    · simp [hne]
    · obtain ⟨p, hp⟩ := r.exists_lastBefore k
      have hle := two_pow_le_of_path hs hk hp hn h hne
      have hlt := dist_lt (a := n.nodeId) (r.ids_lt p hp.1)
      have hpow : 2 ^ path.length < 2 ^ (M + 1) := by
        rw [pow_succ]
        omega
      exact Nat.lt_succ_iff.1 ((Nat.pow_lt_pow_iff_right (by decide : 1 < 2)).1 hpow)
  refine ⟨fun path h => ⟨hshort path h, fun p hp => ?_⟩, fun fuel hfuel => ?_⟩
  · obtain ⟨hmembers, -⟩ := path_spec hf hk hn h
    exact h.imp_of_mem_imp fun a b ha _ hab =>
      (hops_halve hs (hmembers a ha) hk hp hab).1
  · by_contra hnone
    obtain ⟨path, hlength, hchain⟩ := exists_hops_of_none (Option.not_isSome_iff_eq_none.1 hnone)
    have hle := hshort path hchain
    omega

/-! ### Two neighbours -/

/-- The ring `{10, 11}` before any finger but the first was set. -/
def unset : Members 8 where
  nodes := [(ChordNode.init 8 "a" 10).setSuccessor ⟨11, "b"⟩,
    (ChordNode.init 8 "b" 11).setSuccessor ⟨10, "a"⟩]
  nonempty := by simp
  ids_lt := by decide
  ids_distinct := by decide
  addresses_distinct := by decide

theorem unset_successors : unset.SuccessorsCorrect := by
  intro n hn
  rcases List.mem_pair.1 hn with rfl | rfl
  · exact ⟨(ChordNode.init 8 "b" 11).setSuccessor ⟨10, "a"⟩, ⟨by simp [unset], by decide⟩, rfl⟩
  · exact ⟨(ChordNode.init 8 "a" 10).setSuccessor ⟨11, "b"⟩, ⟨by simp [unset], by decide⟩, rfl⟩

theorem unset_fingers : ∀ n ∈ unset.nodes, ∀ i, i ≠ 0 → ∃ m ∈ unset.nodes,
    (n.fingers i).ref = m.ref := by
  intro n hn i hi
  refine ⟨n, hn, ?_⟩
  rcases List.mem_pair.1 hn with rfl | rfl <;>
    simp [ChordNode.setSuccessor, ChordNode.setFinger, Function.update_of_ne hi, ChordNode.init,
      ChordNode.initFingers, FingerEntry.ref, ChordNode.ref]

theorem ten_mem : ten ∈ tenEleven.nodes := by simp [tenEleven]

/-- The hypotheses of `fingers_are_hints` are satisfiable: node `10` asked for the key `200`,
with the fingers of a stable ring and with unset ones. -/
theorem fingers_are_hints_unset : ∃ owner, tenEleven.FirstAt 200 owner ∧
    ten.findSuccessor tenEleven.net (fun _ => false) 200 256 = some owner.ref ∧
    ((ChordNode.init 8 "a" 10).setSuccessor ⟨11, "b"⟩).findSuccessor unset.net (fun _ => false)
      200 256 = some owner.ref :=
  fingers_are_hints tenEleven_stable.successors unset_successors
    (fun n hn i _ => tenEleven_stable.fingersNameMembers n hn i) unset_fingers rfl ten_mem
    (List.mem_cons_self : (ChordNode.init 8 "a" 10).setSuccessor ⟨11, "b"⟩ ∈ unset.nodes) rfl
    (by decide) (by decide) (by decide)

/-- The hypotheses of `lookup_ends` are satisfiable: node `10` asked for the key `200`. -/
theorem lookup_ends_tenEleven :
    (∀ path, (ten :: path).IsChain (Hops tenEleven.net 200) →
        ((ten :: path).map ChordNode.nodeId).Nodup ∧ path.length < 2) ∧
      ∀ lost fuel, 2 ≤ fuel → (ten.findSuccessor tenEleven.net lost 200 fuel).isSome = true :=
  lookup_ends tenEleven_stable.fingersNameMembers ten_mem (by decide)

/-- The hypotheses of `lookup_halves` are satisfiable: node `10` asked for the key `200`. -/
theorem lookup_halves_tenEleven :
    (∀ path, (ten :: path).IsChain (Hops tenEleven.net 200) → path.length ≤ 8 ∧
        ∀ p, tenEleven.LastBefore 200 p → (ten :: path).IsChain fun a b =>
          2 * dist (2 ^ 8) b.nodeId p.nodeId ≤ dist (2 ^ 8) a.nodeId p.nodeId) ∧
      ∀ fuel, 8 < fuel →
        (ten.findSuccessor tenEleven.net (fun _ => false) 200 fuel).isSome = true :=
  lookup_halves tenEleven_stable ten_mem (by decide)

end Members

end Ring
end ChordInfra
