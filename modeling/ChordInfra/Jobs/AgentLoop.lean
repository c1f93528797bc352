/-
# The ring walk of the agent loop

`AgentLoop._collect_ring_metrics` (`chord/agent_loop.py`) follows the successor
pointers round the ring and asks every node it comes to for its metrics.  At a
node that does not answer it skips to the first finger of its own node that it
has not seen, "so we can still reach nodes that sit further along the ring".

In a stable ring the skip lands on the first finger past the silent node, so the
walk asks every node that a finger names, and another node exactly when no
silent node lies between it and the last finger before it
(`collectRingMetrics_spec`).  The nodes behind a silent one, up to the next
finger, are left out although they can be reached.
-/

import ChordInfra.Ring.Canonical

namespace ChordInfra
namespace Jobs
namespace AgentLoop

open Cyclic ChordInfra.Ring

variable {M : ℕ} [NeZero M] {α μ : Type}

/-- What comes of one HTTP request: an exception, a status other than 200, or a body. -/
inductive Reply (α : Type)
  | raised
  | refused
  | ok (body : α)

/-- `_fetch_with_retry`: `replies` says what comes of each attempt, `retries`
are left after this one. -/
def fetchWithRetry (replies : ℕ → Reply α) (attempt : ℕ) : ℕ → Option α
  | 0 => match replies attempt with
    | .ok body => some body
    | .refused => none
    | .raised => none
  | retries + 1 => match replies attempt with
    | .ok body => some body
    | .refused => none
    | .raised => fetchWithRetry replies (attempt + 1) retries

/-- What the nodes answer, by address: `/metrics`, and the successor in `/chord/state`. -/
structure Peers (μ : Type) where
  metrics : String → ℕ → Reply μ
  state : String → ℕ → Reply NodeRef

/-- `_fetch_with_retry(f"http://{address}/metrics")`. -/
def Peers.fetchMetrics (p : Peers μ) (address : String) : Option μ :=
  fetchWithRetry (p.metrics address) 0 1

/-- `_fetch_with_retry(f"http://{address}/chord/state")`. -/
def Peers.fetchState (p : Peers μ) (address : String) : Option NodeRef :=
  fetchWithRetry (p.state address) 0 1

/-- The local variables `result`, `seen` and `unreachable`. -/
structure Walked (μ : Type) where
  result : List μ
  seen : List ℕ
  unreachable : List String

/-- The loop, with as much fuel as `visited_count` is below its limit. -/
def walk (n : ChordNode M) (p : Peers μ) : ℕ → NodeRef → Walked μ → Walked μ
  | 0, _, w => w
  | fuel + 1, current, w =>
    if current.id ∈ w.seen then w
    else
      let seen := current.id :: w.seen
      let result := w.result ++ (p.fetchMetrics current.address).toList
      match p.fetchState current.address with
      | some succ => walk n p fuel succ ⟨result, seen, w.unreachable⟩
      | none =>
        let unreachable := w.unreachable ++ [current.address]
        match (List.finRange M).find? fun i => (n.fingers i).nodeId ∉ seen with
        | some i => walk n p fuel (n.fingers i).ref ⟨result, seen, unreachable⟩
        | none => ⟨result, seen, unreachable⟩

/-- The limit of `visited_count`. -/
def maxVisits : ℕ := 1000

/-- `_collect_ring_metrics`; `own` are the metrics of the node itself. -/
def collectRingMetrics (n : ChordNode M) (p : Peers μ) (own : μ) : Walked μ :=
  walk n p maxVisits n.successor ⟨[own], [n.nodeId], []⟩

/-! ### What the walk finds in a stable ring -/

variable {r : Members M} {n m c d t : ChordNode M} {p : Peers μ} {w : Walked μ} {i j : Fin M}

/-- A node that answers for its state gives its successor. -/
def Truthful (r : Members M) (p : Peers μ) : Prop :=
  ∀ m ∈ r.nodes, ∀ s, p.fetchState m.address = some s → s = m.successor

/-- How far ahead of `n` a member is, a turn for `n` itself. -/
def ahead (n m : ChordNode M) : ℕ := arc (2 ^ M) n.nodeId m.nodeId

/-- The members that the walk comes to: those that no silent member hides, which
lies before them with no finger of `n` in between or on them. -/
def Asked (r : Members M) (p : Peers μ) (n m : ChordNode M) : Prop :=
  m ≠ n ∧ ∀ d ∈ r.nodes, p.fetchState d.address = none → ahead n d < ahead n m →
    ∃ i f, f ∈ r.nodes ∧ (n.fingers i).ref = f.ref ∧ ahead n d < ahead n f ∧ ahead n f ≤ ahead n m

omit [NeZero M] in
@[simp] theorem ahead_self (n : ChordNode M) : ahead n n = 2 ^ M := arc_self _

omit [NeZero M] in
theorem ahead_lt (hn : n ∈ r.nodes) (hm : m ∈ r.nodes) (hne : m ≠ n) : ahead n m < 2 ^ M :=
  arc_lt_of_ne (r.ids_lt n hn) (r.ids_lt m hm) fun h => hne (r.eq_of_nodeId hm hn h.symm)

omit [NeZero M] in
theorem eq_of_ahead_eq (hn : n ∈ r.nodes) (hm : m ∈ r.nodes) (hc : c ∈ r.nodes)
    (h : ahead n m = ahead n c) : m = c :=
  r.eq_of_nodeId hm hc (eq_of_arc_eq (r.ids_lt n hn) (r.ids_lt m hm) (r.ids_lt c hc) h)

omit [NeZero M] in
/-- Nobody is between a member and the next one, seen from any member. -/
theorem ahead_next (hn : n ∈ r.nodes) (hc : c ∈ r.nodes) (hcn : c ≠ n) (ht : r.NextAfter c t)
    (hm : m ∈ r.nodes) : ahead n m < ahead n t ↔ ahead n m ≤ ahead n c := by
  have hcn' : c.nodeId ≠ n.nodeId := fun h => hcn (r.eq_of_nodeId hc hn h)
  have hidn := r.ids_lt n hn
  have hidc := r.ids_lt c hc
  have hidt := r.ids_lt t ht.1
  have hidm := r.ids_lt m hm
  have hn' := ht.2 n hn
  have hm' := ht.2 m hm
  unfold ahead arc at *
  split_ifs at * <;> omega

/-- **The fingers of a stable ring go forward.** -/
theorem finger_le (hs : r.Stable) (hn : n ∈ r.nodes) (hij : i ≤ j) {f g : ChordNode M}
    (hf : (n.fingers i).ref = f.ref) (hfr : f ∈ r.nodes) (hg : (n.fingers j).ref = g.ref)
    (hgr : g ∈ r.nodes) (hgn : g ≠ n) : ahead n f ≤ ahead n g := by
  obtain ⟨f', hf', hfe⟩ := hs.finger hn i
  obtain ⟨g', hg', hge⟩ := hs.finger hn j
  obtain rfl : f' = f := r.eq_of_nodeId hf'.1 hfr (congrArg NodeRef.id (hfe.symm.trans hf))
  obtain rfl : g' = g := r.eq_of_nodeId hg'.1 hgr (congrArg NodeRef.id (hge.symm.trans hg))
  have hgid : g'.nodeId ≠ n.nodeId := fun h => hgn (r.eq_of_nodeId hgr hn h)
  have hpow : 2 ^ i.val ≤ 2 ^ j.val := Nat.pow_le_pow_right (by decide) hij
  have hfar : 2 ^ j.val ≤ Cyclic.dist (2 ^ M) n.nodeId g'.nodeId :=
    le_dist_of_first (r.ids_lt n hn) (r.ids_lt g' hgr) (Nat.two_pow_pos _)
      (Nat.pow_lt_pow_right (by decide) j.isLt) hgid (hg'.2 n hn)
  obtain ⟨hfid, hle⟩ := dist_le_of_first (r.ids_lt n hn) (r.ids_lt f' hfr) (r.ids_lt g' hgr)
    (Nat.two_pow_pos _) (hpow.trans hfar) (hf'.2 g' hgr)
  have hidn := r.ids_lt n hn
  have hidf := r.ids_lt f' hfr
  have hidg := r.ids_lt g' hgr
  unfold ahead
  unfold Cyclic.dist at hle
  unfold arc
  split_ifs at * <;> omega

/-- What has been seen when the walk comes to `c`: the members it asks before `c`. -/
structure Seen (r : Members M) (p : Peers μ) (n c : ChordNode M) (seen : List ℕ) : Prop where
  iff : ∀ m ∈ r.nodes, m.nodeId ∈ seen ↔ m = n ∨ Asked r p n m ∧ ahead n m < ahead n c
  nodup : seen.Nodup
  member : ∀ id ∈ seen, ∃ m ∈ r.nodes, m.nodeId = id

omit [NeZero M] in
/-- At `n` itself the walk ends, elsewhere it goes on. -/
theorem Seen.mem_iff {seen : List ℕ} (h : Seen r p n c seen) (hc : c ∈ r.nodes) :
    c.nodeId ∈ seen ↔ c = n := by
  rw [h.iff c hc]
  exact ⟨fun hor => hor.resolve_right fun hlt => Nat.lt_irrefl _ hlt.2, .inl⟩

omit [NeZero M] in
/-- There is fuel left as long as somebody has not been seen. -/
theorem Seen.length_lt {seen : List ℕ} (h : Seen r p n c seen) (hc : c ∈ r.nodes) (hcn : c ≠ n) :
    seen.length < r.nodes.length := by
  have hnew : (c.nodeId :: seen).Nodup :=
    List.nodup_cons.2 ⟨fun hmem => hcn ((h.mem_iff hc).1 hmem), h.nodup⟩
  have hsub : c.nodeId :: seen ⊆ r.nodes.map ChordNode.nodeId := by
    intro id hid
    rcases List.mem_cons.1 hid with rfl | hid
    · exact List.mem_map_of_mem hc
    · obtain ⟨m, hm, rfl⟩ := h.member id hid
      exact List.mem_map_of_mem hm
  have hle := (List.subperm_of_subset hnew hsub).length_le
  rw [List.length_cons, List.length_map] at hle
  exact hle

omit [NeZero M] in
/-- The walk goes on from `c` to `t`, where it asks nobody in between. -/
theorem Seen.next {seen : List ℕ} (h : Seen r p n c seen) (hn : n ∈ r.nodes) (hc : c ∈ r.nodes)
    (hcn : c ≠ n) (hasked : Asked r p n c) (hlt : ahead n c < ahead n t)
    (hgap : ∀ m ∈ r.nodes, Asked r p n m → ahead n c < ahead n m → ahead n t ≤ ahead n m) :
    Seen r p n t (c.nodeId :: seen) := by
  refine ⟨fun m hm => ?_, List.nodup_cons.2 ⟨fun hmem => hcn ((h.mem_iff hc).1 hmem), h.nodup⟩,
    fun id hid => ?_⟩
  · rw [List.mem_cons, h.iff m hm]
    constructor
    · rintro (hid | rfl | ⟨hm', hmc⟩)
      · obtain rfl := r.eq_of_nodeId hm hc hid
        exact .inr ⟨hasked, hlt⟩
      · exact .inl rfl
      · exact .inr ⟨hm', hmc.trans hlt⟩
    · rintro (rfl | ⟨hm', hmt⟩)
      · exact .inr (.inl rfl)
      · rcases Nat.lt_trichotomy (ahead n m) (ahead n c) with hmc | hmc | hmc
        · exact .inr (.inr ⟨hm', hmc⟩)
        · exact .inl (congrArg ChordNode.nodeId (eq_of_ahead_eq hn hm hc hmc))
        · have hle := hgap m hm hm' hmc
          omega
  · rcases List.mem_cons.1 hid with rfl | hid
    · exact ⟨c, hc, rfl⟩
    · exact h.member id hid

omit [NeZero M] in
/-- The members that the walk asks from `c` on are `c` and those it asks from `t` on. -/
theorem mem_visited_cons (hn : n ∈ r.nodes) (hc : c ∈ r.nodes) (hasked : Asked r p n c)
    (hlt : ahead n c < ahead n t)
    (hgap : ∀ m ∈ r.nodes, Asked r p n m → ahead n c < ahead n m → ahead n t ≤ ahead n m) :
    m = c ∨ (m ∈ r.nodes ∧ Asked r p n m ∧ ahead n t ≤ ahead n m) ↔
      m ∈ r.nodes ∧ Asked r p n m ∧ ahead n c ≤ ahead n m := by
  constructor
  · rintro (rfl | ⟨hm, hm', hle⟩)
    · exact ⟨hc, hasked, le_rfl⟩
    · exact ⟨hm, hm', hlt.le.trans hle⟩
  · rintro ⟨hm, hm', hle⟩
    rcases Nat.eq_or_lt_of_le hle with he | hmc
    · exact .inl (eq_of_ahead_eq hn hm hc he.symm)
    · exact .inr ⟨hm, hm', hgap m hm hm' hmc⟩

omit [NeZero M] in
/-- Past a member that answers the walk comes to the next one. -/
theorem next_of_answered (hn : n ∈ r.nodes) (hc : c ∈ r.nodes) (hcn : c ≠ n)
    (ht : r.NextAfter c t) (hasked : Asked r p n c) (hanswer : (p.fetchState c.address).isSome) :
    (t = n ∨ Asked r p n t) ∧ ahead n c < ahead n t ∧
      ∀ m ∈ r.nodes, Asked r p n m → ahead n c < ahead n m → ahead n t ≤ ahead n m := by
  have hnext : ∀ {m}, m ∈ r.nodes → (ahead n m < ahead n t ↔ ahead n m ≤ ahead n c) :=
    fun hm => ahead_next hn hc hcn ht hm
  have hlt : ahead n c < ahead n t := (hnext hc).2 le_rfl
  refine ⟨or_iff_not_imp_left.2 fun htn => ⟨htn, fun d hd hsilent hdt => ?_⟩, hlt, ?_⟩
  · have hdc : ahead n d ≤ ahead n c := (hnext hd).1 hdt
    have hne : ahead n d ≠ ahead n c := by
      intro he
      rw [eq_of_ahead_eq hn hd hc he] at hsilent
      rw [hsilent] at hanswer
      cases hanswer
    obtain ⟨i, f, hf, hfi, hdf, hfc⟩ := hasked.2 d hd hsilent (by omega)
    exact ⟨i, f, hf, hfi, hdf, hfc.trans hlt.le⟩
  · intro m hm _ hmc
    by_contra hlt'
    have hle := (hnext hm).1 (by omega)
    omega

/-- Past a silent member the walk comes to the first finger that it has not
seen, and asks nobody on the way there. -/
theorem next_of_silent {seen : List ℕ} (hs : r.Stable) (hn : n ∈ r.nodes) (hc : c ∈ r.nodes)
    (h : Seen r p n c seen) (hcn : c ≠ n) (hsilent : p.fetchState c.address = none)
    (hi : (List.finRange M).find? (fun i => (n.fingers i).nodeId ∉ c.nodeId :: seen) = some i)
    (hf : t ∈ r.nodes) (hfi : (n.fingers i).ref = t.ref) :
    Asked r p n t ∧ ahead n c < ahead n t ∧
      ∀ m ∈ r.nodes, Asked r p n m → ahead n c < ahead n m → ahead n t ≤ ahead n m := by
  have hfid : (n.fingers i).nodeId = t.nodeId := congrArg NodeRef.id hfi
  have hnew : t.nodeId ∉ c.nodeId :: seen := by
    rw [← hfid]
    simpa using List.find?_some hi
  have htn : t ≠ n := by
    rintro rfl
    exact hnew (List.mem_cons_of_mem _ ((h.iff t hf).2 (.inl rfl)))
  have hasked : Asked r p n t := ⟨htn, fun d _ _ hlt => ⟨i, t, hf, hfi, hlt, le_rfl⟩⟩
  have hlt : ahead n c < ahead n t := by
    rcases Nat.lt_trichotomy (ahead n t) (ahead n c) with hlt | he | hlt
    · exact absurd (List.mem_cons_of_mem _ ((h.iff t hf).2 (.inr ⟨hasked, hlt⟩))) hnew
    · rw [eq_of_ahead_eq hn hf hc he] at hnew
      exact absurd List.mem_cons_self hnew
    · exact hlt
  refine ⟨hasked, hlt, fun m hm hm' hmc => ?_⟩
  obtain ⟨j, f, hfr, hfj, hcf, hfm⟩ := hm'.2 c hc hsilent hmc
  have hfn : f ≠ n := by
    rintro rfl
    have hmn := ahead_lt hn hm hm'.1
    rw [ahead_self] at hfm
    omega
  -- that finger has not been seen either, so it is not before the first one
  have hfnew : f.nodeId ∉ c.nodeId :: seen := by
    intro hmem
    rcases List.mem_cons.1 hmem with hid | hmem
    · rw [r.eq_of_nodeId hfr hc hid] at hcf
      exact Nat.lt_irrefl _ hcf
    · rcases (h.iff f hfr).1 hmem with hfn' | ⟨-, hlt'⟩
      · exact hfn hfn'
      · omega
  have hij : i ≤ j := by
    obtain ⟨-, as, bs, heq, hbefore⟩ := List.find?_eq_some_iff_append.1 hi
    by_contra hji
    have hmem : j ∈ as := by
      have hall : j ∈ as ++ i :: bs := heq ▸ List.mem_finRange j
      rcases List.mem_append.1 hall with hj | hj
      · exact hj
      · have hsorted : (as ++ i :: bs).Pairwise (· < ·) := heq ▸ List.pairwise_lt_finRange M
        rcases List.mem_cons.1 hj with rfl | hj
        · exact absurd le_rfl hji
        · have hlt' := (List.pairwise_cons.1 (List.pairwise_append.1 hsorted).2.1).1 j hj
          exact absurd hlt'.le hji
    have hseen := hbefore j hmem
    rw [show (n.fingers j).nodeId = f.nodeId from congrArg NodeRef.id hfj] at hseen
    exact hfnew (by simpa using hseen)
  exact (finger_le hs hn hij hfi hf hfj hfr hfn).trans hfm

omit [NeZero M] in
/-- Past a silent member the walk ends when it has seen every finger, and then
it would ask nobody else. -/
theorem none_of_silent {seen : List ℕ} (hn : n ∈ r.nodes) (hc : c ∈ r.nodes)
    (h : Seen r p n c seen) (hsilent : p.fetchState c.address = none)
    (hi : (List.finRange M).find? (fun i => (n.fingers i).nodeId ∉ c.nodeId :: seen) = none) :
    ∀ m ∈ r.nodes, Asked r p n m → ahead n m ≤ ahead n c := by
  intro m hm hm'
  by_contra hlt
  obtain ⟨j, f, hfr, hfj, hcf, hfm⟩ := hm'.2 c hc hsilent (by omega)
  have hseen : f.nodeId ∈ c.nodeId :: seen := by
    have hall := List.find?_eq_none.1 hi j (List.mem_finRange j)
    rw [show (n.fingers j).nodeId = f.nodeId from congrArg NodeRef.id hfj] at hall
    simpa only [decide_not, Bool.not_eq_true, Bool.not_eq_false', decide_eq_true_eq] using hall
  rcases List.mem_cons.1 hseen with hid | hseen
  · rw [r.eq_of_nodeId hfr hc hid] at hcf
    exact Nat.lt_irrefl _ hcf
  · rcases (h.iff f hfr).1 hseen with rfl | ⟨-, hlt'⟩
    · have hmn := ahead_lt hn hm hm'.1
      rw [ahead_self] at hfm
      omega
    · omega

/-- What the members `visited` add to what the walk has found. -/
structure Adds (p : Peers μ) (visited : List (ChordNode M)) (w w' : Walked μ) : Prop where
  result : w'.result = w.result ++ visited.filterMap fun m => p.fetchMetrics m.address
  unreachable : w'.unreachable = w.unreachable ++
    (visited.filter fun m => (p.fetchState m.address).isNone).map ChordNode.address

/-- From `c` on a walk asks the members that nobody hides, in clockwise order. -/
def Surveys (r : Members M) (p : Peers μ) (n c : ChordNode M) (w w' : Walked μ) : Prop :=
  ∃ visited : List (ChordNode M),
    (∀ m, m ∈ visited ↔ m ∈ r.nodes ∧ Asked r p n m ∧ ahead n c ≤ ahead n m) ∧
    visited.Pairwise (fun a b => ahead n a < ahead n b) ∧ Adds p visited w w'

omit [NeZero M] in
/-- Back at `n` the walk is round. -/
theorem Surveys.round (hn : n ∈ r.nodes) : Surveys r p n n w w := by
  refine ⟨[], fun m => ⟨nofun, ?_⟩, .nil, by simp, by simp⟩
  rintro ⟨hm, hm', hle⟩
  rw [ahead_self] at hle
  have hlt := ahead_lt hn hm hm'.1
  omega

omit [NeZero M] in
/-- `c` is asked before those that are asked from `t` on. -/
theorem Surveys.cons {w' : Walked μ} {seen : List ℕ} {u : List String} (hn : n ∈ r.nodes)
    (hc : c ∈ r.nodes) (hasked : Asked r p n c) (hlt : ahead n c < ahead n t)
    (hgap : ∀ m ∈ r.nodes, Asked r p n m → ahead n c < ahead n m → ahead n t ≤ ahead n m)
    (hu : u = if (p.fetchState c.address).isNone then w.unreachable ++ [c.address] else w.unreachable)
    (h : Surveys r p n t ⟨w.result ++ (p.fetchMetrics c.address).toList, seen, u⟩ w') :
    Surveys r p n c w w' := by
  obtain ⟨visited, hmem, hsorted, hadds⟩ := h
  refine ⟨c :: visited, fun m => ?_, List.pairwise_cons.2 ⟨fun m hm => ?_, hsorted⟩, ?_, ?_⟩
  · rw [List.mem_cons, hmem]
    exact mem_visited_cons hn hc hasked hlt hgap
  · exact hlt.trans_le ((hmem m).1 hm).2.2
  · rw [hadds.result, List.append_assoc]
    cases hm : p.fetchMetrics c.address <;> simp [hm]
  · rw [hadds.unreachable, hu]
    cases hm : p.fetchState c.address <;> simp [hm]

/-- **The walk from `c` on.**  Past a member that answers it goes to the next one, past another
one to the first finger that it has not seen. -/
theorem walk_spec (hs : r.Stable) (hn : n ∈ r.nodes) (htruth : Truthful r p) {fuel : ℕ}
    (hc : c ∈ r.nodes) (hseen : Seen r p n c w.seen) (hcn : c = n ∨ Asked r p n c)
    (hfuel : r.nodes.length ≤ w.seen.length + fuel) :
    Surveys r p n c w (walk n p fuel c.ref w) := by
  induction fuel generalizing c w with
  | zero =>
    by_cases h : c = n
    · rw [h]
      exact .round hn
    · have hlt := hseen.length_lt hc h
      omega
  | succ fuel ih =>
    unfold walk
    by_cases h : c = n
    · rw [if_pos (show c.ref.id ∈ w.seen from (hseen.mem_iff hc).2 h), h]
      exact .round hn
    · have hasked := hcn.resolve_left h
      rw [if_neg (show c.ref.id ∉ w.seen from fun hmem => h ((hseen.mem_iff hc).1 hmem))]
      dsimp only [ChordNode.ref]
      split
      · next succ hstate =>
        obtain ⟨t, ht, hto⟩ := hs.successors c hc
        obtain ⟨htn, hlt, hgap⟩ := next_of_answered hn hc h ht hasked (by rw [hstate]; rfl)
        rw [htruth c hc succ hstate, hto]
        refine .cons hn hc hasked hlt hgap (by simp [hstate]) (ih ht.1 ?_ htn ?_)
        · exact hseen.next hn hc h hasked hlt hgap
        · rw [List.length_cons]
          omega
      · next hsilent =>
        split
        · next i hi =>
          obtain ⟨f, hf, hfi⟩ := hs.fingersNameMembers n hn i
          obtain ⟨hfasked, hlt, hgap⟩ := next_of_silent hs hn hc hseen h hsilent hi hf hfi
          rw [hfi]
          refine .cons hn hc hasked hlt hgap (by simp [hsilent]) (ih hf ?_ (.inr hfasked) ?_)
          · exact hseen.next hn hc h hasked hlt hgap
          · rw [List.length_cons]
            omega
        · next hi =>
          have hlast := none_of_silent hn hc hseen hsilent hi
          refine ⟨[c], fun m => ?_, List.pairwise_singleton _ _, ?_, by simp [hsilent]⟩
          · rw [List.mem_singleton]
            constructor
            · rintro rfl
              exact ⟨hc, hasked, le_rfl⟩
            · rintro ⟨hm, hm', hle⟩
              exact eq_of_ahead_eq hn hm hc (le_antisymm (hlast m hm hm') hle)
          · cases hm : p.fetchMetrics c.address <;> simp [hm]

/-- **Whom the agent loop asks.**  In a stable ring of at most 1001 nodes, of which any may be
silent, the walk asks in clockwise order exactly the other nodes that no silent one hides: a
silent node hides those after it up to the next finger of the walking node.  It collects the
metrics that those give, after its own, and logs the silent ones among them. -/
theorem collectRingMetrics_spec (hs : r.Stable) (hn : n ∈ r.nodes) (htruth : Truthful r p)
    (hlen : r.nodes.length ≤ maxVisits + 1) (own : μ) :
    ∃ visited : List (ChordNode M), (∀ m, m ∈ visited ↔ m ∈ r.nodes ∧ Asked r p n m) ∧
      visited.Pairwise (fun a b => ahead n a < ahead n b) ∧
      (collectRingMetrics n p own).result =
        own :: visited.filterMap (fun m => p.fetchMetrics m.address) ∧
      (collectRingMetrics n p own).unreachable =
        (visited.filter fun m => (p.fetchState m.address).isNone).map ChordNode.address := by
  obtain ⟨c, hc, hsucc⟩ := hs.successors n hn
  have hnear : ∀ {m}, m ∈ r.nodes → ahead n c ≤ ahead n m := fun hm => hc.2 _ hm
  have hseen : Seen r p n c [n.nodeId] := by
    refine ⟨fun m hm => ?_, List.nodup_singleton _, fun id hid => ⟨n, hn, (List.mem_singleton.1 hid).symm⟩⟩
    rw [List.mem_singleton]
    constructor
    · exact fun hid => .inl (r.eq_of_nodeId hm hn hid)
    · rintro (rfl | ⟨-, hlt⟩)
      · rfl
      · have hle := hnear hm
        omega
  have hcn : c = n ∨ Asked r p n c := or_iff_not_imp_left.2 fun hne => ⟨hne, fun d hd _ hlt => by
    have hle := hnear hd
    omega⟩
  have hfuel : r.nodes.length ≤ [n.nodeId].length + maxVisits := by
    rw [List.length_singleton]
    omega
  obtain ⟨visited, hmem, hsorted, hadds⟩ :=
    walk_spec (w := ⟨[own], [n.nodeId], []⟩) hs hn htruth hc.1 hseen hcn hfuel
  unfold collectRingMetrics
  rw [hsucc]
  refine ⟨visited, fun m => ?_, hsorted, hadds.result, by rw [hadds.unreachable]; rfl⟩
  rw [hmem]
  exact ⟨fun h => ⟨h.1, h.2.1⟩, fun h => ⟨h.1, h.2, hnear h.1⟩⟩

/-! ### A silent node -/

/-- Four nodes; the fingers of node `0` name the nodes `20` and `40`. -/
def four : List NodeRef := [⟨0, "a"⟩, ⟨20, "b"⟩, ⟨25, "c"⟩, ⟨40, "d"⟩]

theorem four_valid : Members.Valid 8 four := by decide

/-- Node `20` is silent; the others give their ids as metrics. -/
def silentTwenty : Peers ℕ where
  metrics a _ := match four.find? fun q => q.address = a with
    | some q => if a = "b" then .raised else .ok q.id
    | none => .raised
  state a _ := match four.find? fun q => q.address = a with
    | some q => if a = "b" then .raised else .ok (Members.canonicalNode 8 four q).successor
    | none => .raised

/-- The hypotheses of `collectRingMetrics_spec` are satisfiable: node `0` walks a stable ring of
four nodes of which `20` is silent. -/
theorem collectRingMetrics_spec_four :
    ∃ visited : List (ChordNode 8),
      (∀ m, m ∈ visited ↔ m ∈ (Members.canonical four four_valid).nodes ∧
        Asked (Members.canonical four four_valid) silentTwenty
          (Members.canonicalNode 8 four ⟨0, "a"⟩) m) ∧
      visited.Pairwise (fun a b => ahead (Members.canonicalNode 8 four ⟨0, "a"⟩) a <
        ahead (Members.canonicalNode 8 four ⟨0, "a"⟩) b) ∧
      (collectRingMetrics (Members.canonicalNode 8 four ⟨0, "a"⟩) silentTwenty 0).result =
        0 :: visited.filterMap (fun m => silentTwenty.fetchMetrics m.address) ∧
      (collectRingMetrics (Members.canonicalNode 8 four ⟨0, "a"⟩) silentTwenty 0).unreachable =
        (visited.filter fun m => (silentTwenty.fetchState m.address).isNone).map ChordNode.address := by
  refine collectRingMetrics_spec (Members.canonical_stable four_valid)
    (Members.canonicalNode_mem four_valid (by decide)) (fun m hm s hs => ?_) (by decide) 0
  obtain ⟨q, hq, rfl⟩ := List.mem_map.1 hm
  have hall : ∀ q ∈ four, ∀ s ∈ silentTwenty.fetchState q.address,
      s = (Members.canonicalNode 8 four q).successor := by decide +kernel
  exact hall q hq s hs

/-- Node `25` answers, but lies behind the silent node `20` and before the next finger. -/
example : (collectRingMetrics (Members.canonicalNode 8 four ⟨0, "a"⟩) silentTwenty 0).result =
    [0, 40] := by decide +kernel

end AgentLoop
end Jobs
end ChordInfra
