/-
# Fingers settle once the successors are right

The successors carry the ring and the fingers are hints, but it is the fingers
that make lookups short (`Members.lookup_halves`), and nothing but `fix_fingers`
ever sets them, one drawn at random a round.  In a ring whose successor and
predecessor pointers are right a lookup finds the owner of the start of a finger
whatever the fingers on its way name, so a finger that was drawn is right, and
it stays right.  After any schedule of rounds of maintenance in which every node
has drawn every finger the ring is stable (`Members.fingers_settle`).
-/

import ChordInfra.Ring.Joining

namespace ChordInfra
namespace Ring

open Cyclic

variable {M : ℕ} [NeZero M]

/-- Where a round is run. -/
def Round.address : Round M → String
  | .stabilize a => a
  | .fixFingers a _ => a
  | .checkPredecessor a => a

namespace Rounds

variable {st : Rounds M} {n : ChordNode M} {a : String} {i : {i : Fin M // i ≠ 0}}

theorem after_stabilize (h : st.nodes a = some n) : st.after (.stabilize a) = st.stabilize a n := by
  simp only [after, h]

theorem after_fixFingers (h : st.nodes a = some n) :
    st.after (.fixFingers a i) = st.fixFingers a n i := by
  simp only [after, h]

theorem after_checkPredecessor (h : st.nodes a = some n) :
    st.after (.checkPredecessor a) = st.checkPredecessor a n := by
  simp only [after, h]

/-- Nothing happens where nobody is. -/
theorem after_silent {e : Round M} (h : st.nodes e.address = none) : st.after e = st := by
  cases e with
  | stabilize a =>
    rw [Round.address] at h
    simp only [after, h]
  | fixFingers a i =>
    rw [Round.address] at h
    simp only [after, h]
  | checkPredecessor a =>
    rw [Round.address] at h
    simp only [after, h]

omit [NeZero M] in
/-- Where the predecessor answers, `check_predecessor` changes no pointer. -/
theorem checkPredecessor_answered (hn : st.nodes a = some n)
    (hpred : ∀ q ∈ n.predecessor, st.answers q.address = true) :
    (st.checkPredecessor a n).nodes = st.nodes := by
  unfold Rounds.checkPredecessor
  cases hq : n.predecessor with
  | none => rfl
  | some q =>
    dsimp only
    rw [hpred q hq]
    exact (congrArg (Function.update st.nodes a) hn.symm).trans (Function.update_eq_self a st.nodes)

end Rounds

namespace Members

variable {r r' : Members M} {n n' m m' t : ChordNode M} {a : String} {k : ℕ}

/-! ### A member with other fingers -/

/-- The rings have the same members with the same pointers, but for further fingers. -/
def SamePointers (r r' : Members M) : Prop :=
  r'.nodes.map ChordNode.pointers = r.nodes.map ChordNode.pointers

theorem SamePointers.refl (r : Members M) : r.SamePointers r := rfl

theorem SamePointers.symm (h : r.SamePointers r') : r'.SamePointers r := Eq.symm h

theorem SamePointers.trans {r'' : Members M} (h : r.SamePointers r') (h' : r'.SamePointers r'') :
    r.SamePointers r'' :=
  Eq.trans h' h

/-- A member of one ring is one of the other. -/
theorem SamePointers.exists_mem (h : r.SamePointers r') (hm : m ∈ r.nodes) :
    ∃ m' ∈ r'.nodes, m'.pointers = m.pointers := by
  have hmem : m.pointers ∈ r'.nodes.map ChordNode.pointers := h ▸ List.mem_map_of_mem hm
  exact List.mem_map.1 hmem

theorem ref_eq_of_pointers (h : m'.pointers = m.pointers) : m'.ref = m.ref := by
  unfold ChordNode.ref
  rw [show m'.nodeId = m.nodeId from congrArg Pointers.id h,
    show m'.address = m.address from congrArg Pointers.address h]

theorem nodeId_eq_of_pointers (h : m'.pointers = m.pointers) : m'.nodeId = m.nodeId :=
  congrArg Pointers.id h

/-- The owner of an id is the same member. -/
theorem SamePointers.firstAt (h : r.SamePointers r') (hm : r.FirstAt k m) :
    ∃ m', r'.FirstAt k m' ∧ m'.ref = m.ref := by
  obtain ⟨m', hm', he⟩ := h.exists_mem hm.1
  refine ⟨m', ⟨hm', fun t ht => ?_⟩, ref_eq_of_pointers he⟩
  obtain ⟨t', ht', het⟩ := h.symm.exists_mem ht
  rw [nodeId_eq_of_pointers he, ← nodeId_eq_of_pointers het]
  exact hm.2 t' ht'

/-- The neighbours are the same. -/
theorem SamePointers.nextAfter (h : r.SamePointers r') (ht : r.NextAfter n t)
    (hn : n'.nodeId = n.nodeId) (hm' : m' ∈ r'.nodes) (hm : m'.nodeId = t.nodeId) :
    r'.NextAfter n' m' := by
  refine ⟨hm', fun x hx => ?_⟩
  obtain ⟨x', hx', hex⟩ := h.symm.exists_mem hx
  rw [hn, hm, ← nodeId_eq_of_pointers hex]
  exact ht.2 x' hx'

/-- The pointers are right in both. -/
theorem SamePointers.successors (h : r.SamePointers r') (hs : r.SuccessorsCorrect) :
    r'.SuccessorsCorrect := by
  intro n' hn'
  obtain ⟨n, hn, hen⟩ := h.symm.exists_mem hn'
  obtain ⟨t, ht, hsucc⟩ := hs n hn
  obtain ⟨t', ht', het⟩ := h.exists_mem ht.1
  refine ⟨t', h.nextAfter ht (nodeId_eq_of_pointers hen).symm ht' (nodeId_eq_of_pointers het), ?_⟩
  rw [ref_eq_of_pointers het, ← hsucc]
  exact (congrArg Pointers.successor hen).symm

theorem SamePointers.predecessors (h : r.SamePointers r') (hp : r.PredecessorsSettled) :
    r'.PredecessorsSettled := by
  intro n' hn'
  obtain ⟨n, hn, hen⟩ := h.symm.exists_mem hn'
  obtain ⟨q, hq, hqn, hpred⟩ := hp n hn
  obtain ⟨q', hq', heq⟩ := h.exists_mem hq
  have hpred' : n'.predecessor = n.predecessor := (congrArg Pointers.predecessor hen).symm
  refine ⟨q', hq', h.nextAfter hqn (nodeId_eq_of_pointers heq) hn' (nodeId_eq_of_pointers hen).symm, ?_⟩
  rw [hpred', ref_eq_of_pointers heq]
  refine hpred.imp id fun hnone => ⟨?_, hnone.2⟩
  exact r'.eq_of_nodeId hq' hn' (by
    rw [nodeId_eq_of_pointers heq, hnone.1, nodeId_eq_of_pointers hen])

/-- The ring with what has become of one of its members. -/
def replace (r : Members M) (n' : ChordNode M) : Members M where
  nodes := r.nodes.map fun m => if m.ref = n'.ref then n' else m
  nonempty := fun h => r.nonempty (List.map_eq_nil_iff.1 h)
  ids_lt := by
    intro m' hm'
    obtain ⟨m, hm, rfl⟩ := List.mem_map.1 hm'
    split_ifs with href
    · exact (congrArg NodeRef.id href).symm.trans_lt (r.ids_lt m hm)
    · exact r.ids_lt m hm
  ids_distinct := by
    have hids : (r.nodes.map fun m => if m.ref = n'.ref then n' else m).map ChordNode.nodeId =
        r.nodes.map ChordNode.nodeId := by
      rw [List.map_map]
      refine List.map_congr_left fun m _ => ?_
      rw [Function.comp_apply]
      split_ifs with href
      · exact (congrArg NodeRef.id href).symm
      · rfl
    rw [hids]
    exact r.ids_distinct
  addresses_distinct := by
    have haddrs : (r.nodes.map fun m => if m.ref = n'.ref then n' else m).map ChordNode.address =
        r.nodes.map ChordNode.address := by
      rw [List.map_map]
      refine List.map_congr_left fun m _ => ?_
      rw [Function.comp_apply]
      split_ifs with href
      · exact (congrArg NodeRef.address href).symm
      · rfl
    rw [haddrs]
    exact r.addresses_distinct

theorem samePointers_replace (hn : n ∈ r.nodes) (h : n'.pointers = n.pointers) :
    r.SamePointers (r.replace n') := by
  unfold SamePointers replace
  rw [List.map_map]
  refine List.map_congr_left fun m hm => ?_
  rw [Function.comp_apply]
  split_ifs with href
  · have hid : m.nodeId = n.nodeId := (congrArg NodeRef.id href).trans (nodeId_eq_of_pointers h)
    rw [eq_of_nodeId hm hn hid, h]
  · rfl

omit [NeZero M] in
/-- A member of the new ring is the new node or another old one. -/
theorem mem_replace (h : m ∈ (r.replace n').nodes) : m = n' ∨ m ∈ r.nodes ∧ m.ref ≠ n'.ref := by
  obtain ⟨m', hm', rfl⟩ := List.mem_map.1 h
  split_ifs with href
  · exact .inl rfl
  · exact .inr ⟨hm', href⟩

omit [NeZero M] in
theorem replace_net (n' : ChordNode M) (hn : n ∈ r.nodes) (href : n'.ref = n.ref) :
    (r.replace n').net = Function.update r.net n.address (some n') := by
  have haddr : n'.address = n.address := congrArg NodeRef.address href
  have hmem : n' ∈ (r.replace n').nodes :=
    List.mem_map.2 ⟨n, hn, if_pos href.symm⟩
  funext a
  by_cases ha : a = n.address
  · subst ha
    rw [Function.update_self, ← haddr]
    exact net_address hmem
  · rw [Function.update_of_ne ha]
    cases hm : r.net a with
    | none =>
      refine List.find?_eq_none.2 fun m hm' => ?_
      rcases mem_replace hm' with rfl | ⟨hold, -⟩
      · simpa [haddr] using Ne.symm ha
      · exact List.find?_eq_none.1 hm m hold
    | some m =>
      have haddr' : m.address = a := by simpa using List.find?_some hm
      have hold : m ∈ r.nodes := List.mem_of_find?_eq_some hm
      have hother : m.ref ≠ n'.ref := fun he =>
        ha (haddr'.symm.trans ((congrArg NodeRef.address he).trans haddr))
      have hmem' : m ∈ (r.replace n').nodes := List.mem_map.2 ⟨m, hold, if_neg hother⟩
      rw [← haddr']
      exact net_address hmem'

/-! ### Rounds -/

/-- Successors and predecessors are right and the fingers name members. -/
structure Tended (r : Members M) : Prop where
  successors : r.SuccessorsCorrect
  predecessors : r.PredecessorsSettled
  fingers : r.FingersNameMembers
  starts : ∀ n ∈ r.nodes, ∀ i, i ≠ 0 → (n.fingers i).start = (n.nodeId + 2 ^ i.val) % 2 ^ M

/-- The finger `i` of the node at `a` names the owner of its start. -/
def RightAt (r : Members M) (a : String) (i : Fin M) : Prop :=
  ∀ n ∈ r.nodes, n.address = a → ∃ m, r.FirstAt (n.fingers i).start m ∧ (n.fingers i).ref = m.ref

section Rounds

variable {st : Rounds M} {i : Fin M}

/-- `stabilize` changes nothing. -/
theorem Tended.stabilize (h : r.Tended) (hnet : st.nodes = r.net) (hn : st.nodes a = some n) :
    st.stabilize a n = st := by
  rw [hnet] at hn
  obtain ⟨hmem, haddr⟩ := mem_of_net hn
  obtain ⟨t, ht, hsucc⟩ := h.successors n hmem
  by_cases hself : n.successor.id = n.nodeId
  · -- the only member has no other for its predecessor
    have hnn : t = n := r.eq_of_nodeId ht.1 hmem (by rw [← hself, hsucc]; rfl)
    have halone : n.stabilizeAlone n.predecessor = n := by
      rcases n.stabilizeAlone_cases n.predecessor with he | ⟨p, hp, hne, -⟩
      · exact he
      · obtain ⟨q, hq, -, hpred | ⟨-, hpred⟩⟩ := h.predecessors n hmem
        · rw [hpred] at hp
          cases hp
          have hle := ht.2 q hq
          rw [hnn, arc_self] at hle
          have hlt := arc_lt_of_ne (r.ids_lt n hmem) (r.ids_lt q hq) (Ne.symm hne)
          omega
        · rw [hpred] at hp
          cases hp
    rw [Rounds.stabilize_alone hself, halone, Rounds.set_self (by rw [hnet, hn])]
  · obtain ⟨q, hq, hqt, hpred⟩ := h.predecessors t ht.1
    obtain rfl := hqt.prev_unique ht hq hmem
    have htq : t.nodeId ≠ q.nodeId := by
      rw [show t.nodeId = q.successor.id by rw [hsucc]; rfl]
      exact hself
    refine Rounds.stabilize_idle (t := t) (by rw [hnet, hn]) hself ?_ ?_ ?_
    · rw [hnet, hsucc]
      exact net_address ht.1
    · rw [hsucc]
      rfl
    · rcases hpred with hpred | ⟨rfl, -⟩
      · exact hpred
      · exact absurd rfl htq

/-- `check_predecessor` clears nobody. -/
theorem Tended.checkPredecessor (h : r.Tended) (hnet : st.nodes = r.net) (hn : st.nodes a = some n) :
    (st.checkPredecessor a n).nodes = st.nodes := by
  obtain ⟨hmem, -⟩ := mem_of_net (hnet ▸ hn)
  refine Rounds.checkPredecessor_answered hn fun p hpred => ?_
  obtain ⟨q, hq, -, hp | ⟨-, hp⟩⟩ := h.predecessors n hmem
  · rw [hp] at hpred
    cases hpred
    unfold Rounds.answers
    rw [hnet, show q.ref.address = q.address from rfl, net_address hq]
    rfl
  · rw [hp] at hpred
    cases hpred

omit [NeZero M] in
/-- The start of a finger is not the id of the node. -/
theorem start_ne {x : ℕ} (hx : x < 2 ^ M) (i : Fin M) : x ≠ (x + 2 ^ i.val) % 2 ^ M := by
  have hpos : 0 < 2 ^ i.val := Nat.two_pow_pos _
  have hlt : 2 ^ i.val < 2 ^ M := Nat.pow_lt_pow_right (by decide) i.isLt
  rcases Nat.lt_or_ge (x + 2 ^ i.val) (2 ^ M) with h | h
  · rw [Nat.mod_eq_of_lt h]
    omega
  · rw [Nat.mod_eq_sub_mod h, Nat.mod_eq_of_lt (by omega)]
    omega

/-- **A finger that was drawn is right.** -/
theorem Tended.fixFingers (h : r.Tended) (hnet : st.nodes = r.net) (hn : st.nodes a = some n)
    (hi : i ≠ 0) : ∃ m, r.FirstAt (n.fingers i).start m ∧
      st.fixFingers a n i = st.set a (n.setFinger i m.ref) := by
  rw [hnet] at hn
  obtain ⟨hmem, -⟩ := mem_of_net hn
  have hstart := h.starts n hmem i hi
  have hk : (n.fingers i).start < 2 ^ M := by
    rw [hstart]
    exact Nat.mod_lt _ (Nat.two_pow_pos M)
  have hfuel : arc (2 ^ M) n.nodeId (n.fingers i).start < 2 ^ M + 1 :=
    Nat.lt_succ_of_le (arc_le (r.ids_lt n hmem) hk)
  obtain ⟨m, hm, hfound⟩ := findSuccessor_of_ne h.successors h.fingers hk hmem
    (by rw [hstart]; exact start_ne (r.ids_lt n hmem) i) hfuel
  refine ⟨m, hm, ?_⟩
  unfold Rounds.fixFingers
  rw [hnet, hfound]

/-- A right finger stays right with the pointers. -/
theorem RightAt.keep (h : r.RightAt a i) (hsame : r.SamePointers r')
    (hfinger : ∀ n' ∈ r'.nodes, n'.address = a → ∃ n ∈ r.nodes, n.address = a ∧
      n'.fingers i = n.fingers i) : r'.RightAt a i := by
  intro n' hn' haddr'
  obtain ⟨n, hn, haddr, he⟩ := hfinger n' hn' haddr'
  obtain ⟨m, hm, href⟩ := h n hn haddr
  obtain ⟨m', hm', href'⟩ := hsame.firstAt hm
  exact ⟨m', by rwa [he], by rw [he, href, href']⟩

/-- What a round of maintenance leads to. -/
structure After (r r' : Members M) (e : Round M) : Prop where
  tended : r'.Tended
  same : r.SamePointers r'
  keeps : ∀ a i, i ≠ 0 → r.RightAt a i → r'.RightAt a i
  draws : ∀ a i, e = .fixFingers a i → r'.RightAt a i.1

/-- **A finger is set right**, and no other one is touched. -/
theorem Tended.setFinger (h : r.Tended) (hn : n ∈ r.nodes) (hi : i ≠ 0)
    (hm : r.FirstAt (n.fingers i).start m) :
    After r (r.replace (n.setFinger i m.ref)) (.fixFingers n.address ⟨i, hi⟩) := by
  have hpointers : (n.setFinger i m.ref).pointers = n.pointers := by
    unfold ChordNode.pointers
    rw [n.setFinger_successor hi]
    rfl
  have hsame := r.samePointers_replace hn hpointers
  have hself : ((n.setFinger i m.ref).fingers i) = ⟨(n.fingers i).start, m.ref.id, m.ref.address⟩ := by
    simp [ChordNode.setFinger]
  have hother : ∀ {j}, j ≠ i → (n.setFinger i m.ref).fingers j = n.fingers j := fun {j} hj => by
    simp [ChordNode.setFinger, hj]
  have hright : (r.replace (n.setFinger i m.ref)).RightAt n.address i := by
    intro n' hn' haddr
    rcases mem_replace hn' with rfl | ⟨hold, hne⟩
    · obtain ⟨m', hm', href⟩ := hsame.firstAt hm
      exact ⟨m', by rwa [hself], by rw [hself, href]; rfl⟩
    · exact absurd (congrArg ChordNode.ref (eq_of_address hold hn haddr)) hne
  refine ⟨⟨hsame.successors h.successors, hsame.predecessors h.predecessors, ?_, ?_⟩, hsame, ?_, ?_⟩
  · intro n' hn' j
    have hin : ∀ t ∈ r.nodes, ∃ t' ∈ (r.replace (n.setFinger i m.ref)).nodes, t'.ref = t.ref :=
      fun t ht => by
        obtain ⟨t', ht', he⟩ := hsame.exists_mem ht
        exact ⟨t', ht', ref_eq_of_pointers he⟩
    rcases mem_replace hn' with rfl | ⟨hold, -⟩
    · by_cases hj : j = i
      · subst hj
        obtain ⟨m', hm', href⟩ := hin m hm.1
        exact ⟨m', hm', by rw [hself, href]; rfl⟩
      · obtain ⟨t, ht, href⟩ := h.fingers n hn j
        obtain ⟨t', ht', href'⟩ := hin t ht
        exact ⟨t', ht', by rw [hother hj, href, href']⟩
    · obtain ⟨t, ht, href⟩ := h.fingers n' hold j
      obtain ⟨t', ht', href'⟩ := hin t ht
      exact ⟨t', ht', by rw [href, href']⟩
  · intro n' hn' j hj
    rcases mem_replace hn' with rfl | ⟨hold, -⟩
    · by_cases hji : j = i
      · subst hji
        rw [hself, ChordNode.setFinger_nodeId]
        exact h.starts n hn j hj
      · rw [hother hji, ChordNode.setFinger_nodeId]
        exact h.starts n hn j hj
    · exact h.starts n' hold j hj
  · intro a j hj hr
    by_cases hdrawn : a = n.address ∧ j = i
    · obtain ⟨rfl, rfl⟩ := hdrawn
      exact hright
    · refine hr.keep hsame fun n' hn' haddr => ?_
      rcases mem_replace hn' with rfl | ⟨hold, -⟩
      · exact ⟨n, hn, haddr, hother fun hji => hdrawn ⟨haddr.symm, hji⟩⟩
      · exact ⟨n', hold, haddr, rfl⟩
  · rintro a j he
    cases he
    exact hright

/-- **One round** leaves a tended ring, with the pointers it had and no right
finger lost; a finger that was drawn is right. -/
theorem Tended.after (h : r.Tended) (hnet : st.nodes = r.net) (e : Round M) :
    ∃ r', (st.after e).nodes = r'.net ∧ After r r' e := by
  have hkeep : ∀ {e : Round M}, (∀ b j, e ≠ .fixFingers b j) → After r r e := fun {e} he =>
    ⟨h, .refl r, fun _ _ _ hr => hr, fun b j hb => absurd hb (he b j)⟩
  cases hn : st.nodes e.address with
  | none =>
    rw [Rounds.after_silent hn]
    refine ⟨r, hnet, h, .refl r, fun _ _ _ hr => hr, fun b j hb n hmem haddr => ?_⟩
    subst hb
    rw [hnet, Round.address, ← haddr, net_address hmem] at hn
    cases hn
  | some n =>
    cases e with
    | stabilize a =>
      rw [Round.address] at hn
      refine ⟨r, ?_, hkeep nofun⟩
      rw [Rounds.after_stabilize hn, h.stabilize hnet hn]
      exact hnet
    | checkPredecessor a =>
      rw [Round.address] at hn
      refine ⟨r, ?_, hkeep nofun⟩
      rw [Rounds.after_checkPredecessor hn, h.checkPredecessor hnet hn]
      exact hnet
    | fixFingers a i =>
      rw [Round.address] at hn
      obtain ⟨m, hm, hset⟩ := h.fixFingers hnet hn i.2
      obtain ⟨hmem, rfl⟩ := mem_of_net (hnet ▸ hn)
      refine ⟨r.replace (n.setFinger i m.ref), ?_, h.setFinger hmem i.2 hm⟩
      have hreplace := replace_net (n.setFinger i m.ref) hmem rfl
      rw [Rounds.after_fixFingers hn, hset, Rounds.set, hnet, hreplace]

/-- **A run** leaves a tended ring too, and what was drawn in it is right. -/
theorem Tended.run (h : r.Tended) (hnet : st.nodes = r.net) (schedule : List (Round M)) :
    ∃ r', (schedule.foldl Rounds.after st).nodes = r'.net ∧ r'.Tended ∧ r.SamePointers r' ∧
      (∀ a i, i ≠ 0 → r.RightAt a i → r'.RightAt a i) ∧
      ∀ a i, Round.fixFingers a i ∈ schedule → r'.RightAt a i.1 := by
  induction schedule generalizing r st with
  | nil => exact ⟨r, hnet, h, .refl r, fun _ _ _ hr => hr, fun _ _ he => absurd he List.not_mem_nil⟩
  | cons e schedule ih =>
    obtain ⟨r₁, hnet₁, h₁⟩ := h.after hnet e
    obtain ⟨r₂, hnet₂, htended, hsame, hkeeps, hdraws⟩ := ih h₁.tended hnet₁
    refine ⟨r₂, hnet₂, htended, h₁.same.trans hsame,
      fun a i hi hr => hkeeps a i hi (h₁.keeps a i hi hr), fun a i he => ?_⟩
    rcases List.mem_cons.1 he with he | he
    · exact hkeeps a i i.2 (h₁.draws a i he.symm)
    · exact hdraws a i he

/-- **The fingers settle.**  In a ring whose successors and predecessors are right, whatever members
the fingers name, after any schedule of rounds in which every node has drawn every finger the
ring is stable, with the pointers it had. -/
theorem fingers_settle (h : r.Tended) (hnet : st.nodes = r.net) {schedule : List (Round M)}
    (hdrawn : ∀ n ∈ r.nodes, ∀ i, Round.fixFingers n.address i ∈ schedule) :
    ∃ r', (schedule.foldl Rounds.after st).nodes = r'.net ∧ r.SamePointers r' ∧ r'.Stable := by
  obtain ⟨r', hnet', htended, hsame, -, hdraws⟩ := h.run hnet schedule
  refine ⟨r', hnet', hsame, htended.successors, htended.starts, fun n' hn' i hi => ?_⟩
  obtain ⟨n, hn, he⟩ := hsame.symm.exists_mem hn'
  have haddr : n'.address = n.address := (congrArg Pointers.address he).symm
  exact hdraws n.address ⟨i, hi⟩ (hdrawn n hn ⟨i, hi⟩) n' hn' haddr

end Rounds

/-! ### Two neighbours -/

/-- A node of a ring of two that has set no further finger. -/
def mate (address : String) (id : ℕ) (other : NodeRef) : ChordNode 8 :=
  { ChordNode.init 8 address id with predecessor := some other }.setSuccessor other

/-- The ring `{10, 11}` once its pointers are right. -/
def mates : Members 8 where
  nodes := [mate "a" 10 ⟨11, "b"⟩, mate "b" 11 ⟨10, "a"⟩]
  nonempty := by simp
  ids_lt := by decide
  ids_distinct := by decide
  addresses_distinct := by decide

theorem mates_next : mates.NextAfter (mate "a" 10 ⟨11, "b"⟩) (mate "b" 11 ⟨10, "a"⟩) ∧
    mates.NextAfter (mate "b" 11 ⟨10, "a"⟩) (mate "a" 10 ⟨11, "b"⟩) :=
  ⟨⟨by simp [mates], by decide⟩, by simp [mates], by decide⟩

theorem mates_tended : mates.Tended := by
  refine ⟨fun n hn => ?_, fun n hn => ?_, fun n hn i => ?_, fun n hn i hi => ?_⟩
  · rcases List.mem_pair.1 hn with rfl | rfl
    · exact ⟨_, mates_next.1, rfl⟩
    · exact ⟨_, mates_next.2, rfl⟩
  · rcases List.mem_pair.1 hn with rfl | rfl
    · exact ⟨_, by simp [mates], mates_next.2, .inl rfl⟩
    · exact ⟨_, by simp [mates], mates_next.1, .inl rfl⟩
  · by_cases hi : i = 0
    · subst hi
      rcases List.mem_pair.1 hn with rfl | rfl
      · exact ⟨_, mates_next.1.1, rfl⟩
      · exact ⟨_, mates_next.2.1, rfl⟩
    · refine ⟨n, hn, ?_⟩
      rcases List.mem_pair.1 hn with rfl | rfl <;>
        simp [mate, ChordNode.setSuccessor, ChordNode.setFinger, Function.update_of_ne hi,
          ChordNode.init, ChordNode.initFingers, FingerEntry.ref, ChordNode.ref]
  · rcases List.mem_pair.1 hn with rfl | rfl <;>
      simp [mate, ChordNode.setSuccessor, ChordNode.setFinger, Function.update_of_ne hi,
        ChordNode.init, ChordNode.initFingers]

/-- One round of `fix_fingers` for each finger of a node. -/
def drawAll (a : String) : List (Round 8) :=
  (List.finRange 8).filterMap fun i => if h : i ≠ 0 then some (.fixFingers a ⟨i, h⟩) else none

theorem mem_drawAll (a : String) (i : {i : Fin 8 // i ≠ 0}) : Round.fixFingers a i ∈ drawAll a :=
  List.mem_filterMap.2 ⟨i.1, List.mem_finRange i.1, dif_pos i.2⟩

/-- The hypotheses of `fingers_settle` are satisfiable: both nodes of the ring `{10, 11}` draw
their fingers, and `stabilize` and `check_predecessor` run in between. -/
theorem fingers_settle_mates :
    ∃ r', ((drawAll "a" ++ [Round.stabilize "b", .checkPredecessor "a"] ++ drawAll "b").foldl
        Rounds.after ⟨mates.net, fun _ => 0⟩).nodes = r'.net ∧ mates.SamePointers r' ∧ r'.Stable := by
  refine fingers_settle mates_tended rfl fun n hn i => ?_
  rcases List.mem_pair.1 hn with rfl | rfl
  · exact List.mem_append_left _ (List.mem_append_left _ (mem_drawAll "a" i))
  · exact List.mem_append_right _ (mem_drawAll "b" i)

end Members
end Ring
end ChordInfra
