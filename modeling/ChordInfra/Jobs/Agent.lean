/-
# The heuristics of the agents

`chord/agent.py`: which node runs a job, which nodes hold its copies, and which nodes take
over the jobs of a node that failed, decided from what the nodes report of themselves.  The
agents may ask a language model as well, so what they answer is arbitrary unless it is said
to be the heuristic.
-/

import ChordInfra.Greedy.RoundRobin
import ChordInfra.Jobs.Worker
import Mathlib.Data.List.Sort

namespace ChordInfra
namespace Jobs

/-- What a node reports of itself: `ChordNode.metrics`. -/
structure Metrics where
  nodeId : ℕ
  address : String
  queueDepth : ℕ
  jobsCompleted : ℕ
  jobsFailed : ℕ
deriving DecidableEq, Repr

/-- The order by `(queue_depth, jobs_failed)`. -/
def Metrics.LoadLE (m m' : Metrics) : Prop :=
  m.queueDepth < m'.queueDepth ∨ m.queueDepth = m'.queueDepth ∧ m.jobsFailed ≤ m'.jobsFailed

instance : DecidableRel Metrics.LoadLE := fun m m' =>
  inferInstanceAs (Decidable (m.queueDepth < m'.queueDepth ∨ _))

/-- `sorted(metrics, key=…)`, which keeps the order of equal elements. -/
def sortedNodes (metrics : List Metrics) : List Metrics := metrics.insertionSort Metrics.LoadLE

theorem sortedNodes_ne_nil {survivors : List Metrics} (h : survivors ≠ []) :
    sortedNodes survivors ≠ [] := fun hnil =>
  h (List.length_eq_zero_iff.1
    ((List.length_insertionSort Metrics.LoadLE survivors).symm.trans (congrArg List.length hnil)))

/-- What a `ReplicationAgent` answers. -/
structure Plan where
  primaryNodeId : ℕ
  replicaNodeIds : List ℕ
  replicationFactor : ℕ
deriving DecidableEq, Repr

/-- Strictly smaller `(queue_depth, jobs_failed)`. -/
def Metrics.LoadLT (m m' : Metrics) : Prop :=
  m.queueDepth < m'.queueDepth ∨ m.queueDepth = m'.queueDepth ∧ m.jobsFailed < m'.jobsFailed

theorem Metrics.LoadLT.not_loadLE {m m' : Metrics} (h : m.LoadLT m') : ¬m'.LoadLE m := by
  unfold LoadLE
  rcases h with h | ⟨h, h'⟩ <;> omega

instance : IsTrans Metrics Metrics.LoadLE where
  trans _ _ _ h h' := by unfold Metrics.LoadLE at *; omega

instance : Std.Total Metrics.LoadLE where
  total m m' := by unfold Metrics.LoadLE; omega

/-- `PlacementAgent._heuristic`: `min` is the first of the smallest. -/
def PlacementAgent.heuristic (metrics : List Metrics) : Option ℕ :=
  (sortedNodes metrics).head?.map Metrics.nodeId

/-- `ReplicationAgent._heuristic`. -/
def ReplicationAgent.heuristic (job : Job) (metrics : List Metrics) (requested : ℕ) : Option Plan :=
  let boosted := if job.type = "compute" ∧ 2 ≤ metrics.length then max requested 2 else requested
  let effective := min boosted metrics.length
  match sortedNodes metrics with
  | [] => none
  | primary :: others =>
    some ⟨primary.nodeId, (others.take (effective - 1)).map Metrics.nodeId, effective⟩

namespace RecoveryAgent

/-- The assignments of the jobs from the `i`-th on, to the nodes in turn. -/
def assign (nodes : List Metrics) : ℕ → List Job → Dict String ℕ → Dict String ℕ
  | _, [], assignments => assignments
  | i, job :: jobs, assignments =>
    match nodes[i % nodes.length]? with
    | some m => assign nodes (i + 1) jobs (assignments.set job.jobId m.nodeId)
    | none => assignments

/-- `RecoveryAgent._heuristic`: round-robin across the survivors. -/
def heuristic (jobs : List Job) (survivors : List Metrics) : Dict String ℕ :=
  assign (sortedNodes survivors) 0 jobs .empty

section Assignments

variable {nodes : List Metrics} {jobs : List Job} {assignments : Dict String ℕ} {i : ℕ}
  {id : String}

/-- Jobs are assigned to the nodes that were given. -/
theorem assign_targets (h : ∀ t ∈ assignments.get id, ∃ m ∈ nodes, m.nodeId = t) :
    ∀ t ∈ (assign nodes i jobs assignments).get id, ∃ m ∈ nodes, m.nodeId = t := by
  induction jobs generalizing i assignments with
  | nil => exact h
  | cons job jobs ih =>
    unfold assign
    cases hm : nodes[i % nodes.length]? with
    | none => exact h
    | some m =>
      refine ih fun t ht => ?_
      rw [Dict.get_set] at ht
      split_ifs at ht with hid
      · obtain rfl := Option.some.inj ht
        exact ⟨m, List.mem_of_getElem? hm, rfl⟩
      · exact h t ht

/-- Where there is a node, every job is assigned. -/
theorem assign_isSome (hnodes : nodes ≠ [])
    (h : (assignments.get id).isSome ∨ ∃ job ∈ jobs, job.jobId = id) :
    ((assign nodes i jobs assignments).get id).isSome := by
  induction jobs generalizing i assignments with
  | nil =>
    rcases h with h | ⟨job, hjob, -⟩
    · exact h
    · cases hjob
  | cons job jobs ih =>
    have hlt : i % nodes.length < nodes.length := Nat.mod_lt _ (List.length_pos_of_ne_nil hnodes)
    unfold assign
    rw [List.getElem?_eq_getElem hlt]
    refine ih ?_
    rw [Dict.get_set]
    by_cases hid : id = job.jobId
    · exact .inl (by rw [if_pos hid]; rfl)
    · rw [if_neg hid]
      refine h.imp_right ?_
      rintro ⟨job', hjob', rfl⟩
      rcases List.mem_cons.1 hjob' with rfl | hrest
      · exact (hid rfl).elim
      · exact ⟨job', hrest, rfl⟩

end Assignments

/-- **Every job is assigned to one of the survivors**, where there is one. -/
theorem heuristic_spec (jobs : List Job) {survivors : List Metrics} (h : survivors ≠ []) :
    (∀ id, ∀ t ∈ (heuristic jobs survivors).get id, ∃ m ∈ survivors, m.nodeId = t) ∧
      ∀ job ∈ jobs, ((heuristic jobs survivors).get job.jobId).isSome := by
  refine ⟨fun id t ht => ?_, fun job hjob => assign_isSome ?_ (.inr ⟨job, hjob, rfl⟩)⟩
  · have hnone : ∀ t ∈ (Dict.empty : Dict String ℕ).get id, ∃ m ∈ sortedNodes survivors,
        m.nodeId = t := fun t ht => by cases ht
    obtain ⟨m, hm, hid⟩ := assign_targets hnone t ht
    exact ⟨m, (List.mem_insertionSort _).1 hm, hid⟩
  · exact sortedNodes_ne_nil h

/-! ### Fair shares -/

section Shares

variable {nodes : List Metrics} {jobs : List Job} {assignments : Dict String ℕ} {i : ℕ}

/-- With distinct job ids the assignments are the nodes taken in turn. -/
theorem entries_assign (hnodes : nodes ≠ []) (hjobs : (jobs.map Job.jobId).Nodup)
    (hnew : ∀ job ∈ jobs, assignments.get job.jobId = none) :
    (assign nodes i jobs assignments).entries = assignments.entries ++
      (jobs.map Job.jobId).zip ((Greedy.turns nodes i jobs.length).map Metrics.nodeId) := by
  induction jobs generalizing i assignments with
  | nil => exact (List.append_nil _).symm
  | cons job jobs ih =>
    have hlt : i % nodes.length < nodes.length := Nat.mod_lt _ (List.length_pos_of_ne_nil hnodes)
    have hnode := List.getElem?_eq_getElem hlt
    obtain ⟨hnot, hrest⟩ := List.nodup_cons.1 hjobs
    have hnew' : ∀ job' ∈ jobs,
        (assignments.set job.jobId nodes[i % nodes.length].nodeId).get job'.jobId = none := by
      intro job' hjob'
      have hne : job'.jobId ≠ job.jobId := fun he => hnot (he ▸ List.mem_map_of_mem hjob')
      rw [Dict.get_set_ne _ hne]
      exact hnew job' (List.mem_cons_of_mem _ hjob')
    unfold assign
    rw [hnode]
    dsimp only
    rw [ih hrest hnew', Dict.entries_set_new (hnew job List.mem_cons_self), List.length_cons,
      Greedy.turns_succ hnode, List.append_assoc]
    rfl

variable {survivors : List Metrics}

/-- How many of the jobs the plan gives to a node. -/
def share (assignments : Dict String ℕ) (jobs : List Job) (nodeId : ℕ) : ℕ :=
  jobs.countP fun job => assignments.get job.jobId = some nodeId

theorem keys_heuristic (hne : survivors ≠ []) (hjobs : (jobs.map Job.jobId).Nodup) :
    (heuristic jobs survivors).entries.map Prod.fst = jobs.map Job.jobId := by
  unfold heuristic
  rw [entries_assign (sortedNodes_ne_nil hne) hjobs fun _ _ => rfl]
  refine List.map_fst_zip ?_
  rw [List.length_map, List.length_map, Greedy.length_turns (sortedNodes_ne_nil hne)]

theorem values_heuristic (hne : survivors ≠ []) (hjobs : (jobs.map Job.jobId).Nodup) :
    (heuristic jobs survivors).entries.map Prod.snd =
      Greedy.turns ((sortedNodes survivors).map Metrics.nodeId) 0 jobs.length := by
  unfold heuristic
  rw [entries_assign (sortedNodes_ne_nil hne) hjobs fun _ _ => rfl, ← Greedy.map_turns]
  refine List.map_snd_zip ?_
  rw [List.length_map, List.length_map, Greedy.length_turns (sortedNodes_ne_nil hne)]

/-- A node's share is the number of its turns. -/
theorem share_heuristic (hne : survivors ≠ []) (hjobs : (jobs.map Job.jobId).Nodup) (nodeId : ℕ) :
    share (heuristic jobs survivors) jobs nodeId =
      (Greedy.turns ((sortedNodes survivors).map Metrics.nodeId) 0 jobs.length).count nodeId := by
  rw [← values_heuristic hne hjobs, Dict.values_eq _ 0, keys_heuristic hne hjobs, List.map_map,
    List.count_eq_countP, List.countP_map]
  refine List.countP_congr fun job hjob => ?_
  obtain ⟨t, ht⟩ := Option.isSome_iff_exists.1 ((heuristic_spec jobs hne).2 job hjob)
  simp [ht]

theorem nodup_nodeIds (hids : (survivors.map Metrics.nodeId).Nodup) :
    ((sortedNodes survivors).map Metrics.nodeId).Nodup :=
  ((List.perm_insertionSort Metrics.LoadLE survivors).map _).nodup_iff.2 hids

variable {m m' : Metrics}

/-- A less loaded survivor comes earlier. -/
theorem le_of_loadLT {p q : ℕ} (hp : (sortedNodes survivors)[p]? = some m)
    (hq : (sortedNodes survivors)[q]? = some m') (hlt : m.LoadLT m') : p ≤ q := by
  obtain ⟨hp', rfl⟩ := List.getElem?_eq_some_iff.1 hp
  obtain ⟨hq', rfl⟩ := List.getElem?_eq_some_iff.1 hq
  by_contra hqp
  have hsorted := List.pairwise_insertionSort Metrics.LoadLE survivors
  exact hlt.not_loadLE (List.pairwise_iff_getElem.1 hsorted q p hq' hp' (Nat.lt_of_not_le hqp))

/-- No survivor gets more than one job more than another. -/
theorem share_le_add_one (hids : (survivors.map Metrics.nodeId).Nodup)
    (hjobs : (jobs.map Job.jobId).Nodup) (hm : m ∈ survivors) (hm' : m' ∈ survivors) :
    share (heuristic jobs survivors) jobs m.nodeId ≤
      share (heuristic jobs survivors) jobs m'.nodeId + 1 := by
  have hne : survivors ≠ [] := List.ne_nil_of_mem hm
  have hmem : ∀ s ∈ survivors, s.nodeId ∈ (sortedNodes survivors).map Metrics.nodeId :=
    fun s hs => List.mem_map_of_mem ((List.mem_insertionSort _).2 hs)
  rw [share_heuristic hne hjobs, share_heuristic hne hjobs]
  exact Greedy.count_turns_le_add_one (nodup_nodeIds hids) (hmem m hm) (hmem m' hm') _

/-- A less loaded survivor gets no fewer jobs. -/
theorem share_le_of_loadLT (hids : (survivors.map Metrics.nodeId).Nodup)
    (hjobs : (jobs.map Job.jobId).Nodup) (hm : m ∈ survivors) (hm' : m' ∈ survivors)
    (hlt : m'.LoadLT m) :
    share (heuristic jobs survivors) jobs m.nodeId ≤
      share (heuristic jobs survivors) jobs m'.nodeId := by
  have hne : survivors ≠ [] := List.ne_nil_of_mem hm
  have hplace : ∀ s ∈ survivors, ∃ p, (sortedNodes survivors)[p]? = some s :=
    fun s hs => List.getElem?_of_mem ((List.mem_insertionSort _).2 hs)
  have hid : ∀ {p : ℕ} {s : Metrics}, (sortedNodes survivors)[p]? = some s →
      ((sortedNodes survivors).map Metrics.nodeId)[p]? = some s.nodeId := fun h => by
    rw [List.getElem?_map, h]
    rfl
  obtain ⟨p, hp⟩ := hplace m hm
  obtain ⟨q, hq⟩ := hplace m' hm'
  rw [share_heuristic hne hjobs, share_heuristic hne hjobs]
  exact Greedy.count_turns_le_of_le (nodup_nodeIds hids) (hid hq) (hid hp)
    (le_of_loadLT hq hp hlt) _

end Shares

/-- What a recovery plan answers. -/
structure Answer where
  assignments : Dict String ℕ
  reasoning : String

/-- What `_heuristic` answers. -/
def heuristicAnswer (jobs : List Job) (survivors : List Metrics) : Answer :=
  ⟨heuristic jobs survivors, "Round-robin across survivors ordered by queue_depth"⟩

/-- `recover`: `llm` is what the language model answers, `none` where there is
none to ask or the strategy is another, `some none` where asking raises. -/
def recover (llm : Option (Option Answer)) (jobs : List Job) (survivors : List Metrics) : Answer :=
  if jobs = [] then ⟨.empty, "No orphaned jobs"⟩
  else if survivors = [] then ⟨.empty, "No surviving nodes — cannot recover"⟩
  else (llm.bind id).getD (heuristicAnswer jobs survivors)

/-- Without an answer of the language model the plan for some survivors is the
heuristic one. -/
theorem recover_assignments {llm : Option (Option Answer)} (hllm : llm.bind id = none)
    (jobs : List Job) {survivors : List Metrics} (hne : survivors ≠ []) :
    (recover llm jobs survivors).assignments = heuristic jobs survivors := by
  unfold recover
  by_cases hjobs : jobs = []
  · rw [if_pos hjobs, hjobs]
    rfl
  · rw [if_neg hjobs, if_neg hne, hllm]
    rfl

/-- **The heuristic plan shares the jobs out evenly.**  It has exactly the
orphaned jobs, each with one survivor; the shares of two survivors differ by at
most one job, and a survivor never gets more jobs than a less loaded one. -/
theorem heuristic_shares (llm : Option (Option Answer)) (jobs : List Job)
    (survivors : List Metrics) (hllm : llm.bind id = none) (hne : survivors ≠ [])
    (hids : (survivors.map Metrics.nodeId).Nodup) (hjobs : (jobs.map Job.jobId).Nodup) :
    (recover llm jobs survivors).assignments = heuristic jobs survivors ∧
      (heuristic jobs survivors).entries.map Prod.fst = jobs.map Job.jobId ∧
      (∀ job ∈ jobs, ∃ m ∈ survivors,
        (heuristic jobs survivors).get job.jobId = some m.nodeId) ∧
      (∀ m ∈ survivors, ∀ m' ∈ survivors, share (heuristic jobs survivors) jobs m.nodeId ≤
        share (heuristic jobs survivors) jobs m'.nodeId + 1) ∧
      ∀ m ∈ survivors, ∀ m' ∈ survivors, m'.LoadLT m →
        share (heuristic jobs survivors) jobs m.nodeId ≤
          share (heuristic jobs survivors) jobs m'.nodeId := by
  refine ⟨recover_assignments hllm jobs hne, keys_heuristic hne hjobs, fun job hjob => ?_,
    fun m hm m' hm' => share_le_add_one hids hjobs hm hm',
    fun m hm m' hm' hlt => share_le_of_loadLT hids hjobs hm hm' hlt⟩
  obtain ⟨htargets, hassigned⟩ := heuristic_spec jobs hne
  obtain ⟨t, ht⟩ := Option.isSome_iff_exists.1 (hassigned job hjob)
  obtain ⟨m, hm, rfl⟩ := htargets job.jobId t ht
  exact ⟨m, hm, ht⟩

/-- Three jobs for a busy node and an idle one: the idle one gets two. -/
theorem heuristic_shares_three :
    let jobs := [makeJob "echo" .null "a" 0, makeJob "echo" .null "b" 0, makeJob "echo" .null "c" 0]
    let survivors : List Metrics := [⟨9, "x", 4, 0, 0⟩, ⟨2, "y", 0, 0, 1⟩]
    share (heuristic jobs survivors) jobs 9 = 1 ∧ share (heuristic jobs survivors) jobs 2 = 2 ∧
      share (heuristic jobs survivors) jobs 9 ≤ share (heuristic jobs survivors) jobs 2 := by
  refine ⟨by decide, by decide, ?_⟩
  exact (heuristic_shares none _ [⟨9, "x", 4, 0, 0⟩, ⟨2, "y", 0, 0, 1⟩] rfl (by decide)
    (by decide) (by decide)).2.2.2.2 ⟨9, "x", 4, 0, 0⟩ (by decide) ⟨2, "y", 0, 0, 1⟩ (by decide)
    (.inl (by decide))

end RecoveryAgent

end Jobs
end ChordInfra
