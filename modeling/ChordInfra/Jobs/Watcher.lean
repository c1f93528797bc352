/-
# What the failure watcher recovers

`_recover` of the `FailureWatcherThread`, run alone at a node when its predecessor failed,
with the heuristic agent and all requests to survivors answered.

It makes primaries of all replicas that the node has, whichever node their primaries are on,
and of an active job that the failed node claimed it stores a copy at a survivor, under a new
key, beside the entry that is there.  So a job of the failed node has one active copy
afterwards exactly when the node has no such entry and the job had one active copy before
(`recover_iff`).
-/

import ChordInfra.Interact.Hoare
import ChordInfra.Jobs.Submissions

namespace ChordInfra
namespace Jobs

open Interact Prog
open Storage (Json Address Delivery Exc)
open ChordInfra.Ring (NodeRef ChordNode)

/-! ### What recovery is for -/

/-- An active copy of a job, under a key of a node. -/
def Cluster.ActiveCopy (w : Cluster) (id : String) (e : Address × String) : Prop :=
  ∃ job ∈ (w.nodes e.1).jobs.get e.2, job.Active ∧ job.jobId = id

/-- The id of a job with an active copy that the failed node claimed, or of a job whose
primary was on the failed node and that had a replica. -/
def Affected (w : Cluster) (failed : Address) (alive : Set Address) (id : String) : Prop :=
  (∃ a key job, (a ∈ alive ∨ a = failed) ∧ (w.nodes a).jobs.get key = some job ∧
    job.Active ∧ job.claimedBy = some failed ∧ job.jobId = id) ∨
  (∃ a key job, (a ∈ alive ∨ a = failed) ∧ (w.nodes a).jobs.get key = some job ∧
    job.IsReplica ∧ job.replicaOf = some id) ∧
  ∃ key job, (w.nodes failed).jobs.get key = some job ∧ ¬job.IsReplica ∧ job.jobId = id

/-- What recovery promises: every job of the failed node has exactly one active copy over the
survivors, and the other jobs are what they were. -/
structure Recovered (failed : Address) (alive : Set Address) (w w' : Cluster) : Prop where
  one : ∀ id, Affected w failed alive id → ∃! e : Address × String, e.1 ∈ alive ∧ w'.ActiveCopy id e
  others : ∀ a ∈ alive, ∀ key job, ¬Affected w failed alive job.jobId →
    ((w'.nodes a).jobs.get key = some job ↔ (w.nodes a).jobs.get key = some job)

section Watcher

variable {M : ℕ} {sha1Id : String → ℕ} {uuid4 : ℕ → ℕ → String} {env : ClusterEnv}
  {n : ChordNode M} {failed : NodeRef} {alive : Set Address} {w w' w'' : Cluster}
  {id key : String} {job : Job} {target : ℕ} {a : Address}

/-- A failed node and the survivors, as the node `n` among them sees them: its fingers name
them rightly, and the survivors answer. -/
structure Survivors (env : ClusterEnv) (n : ChordNode M) (failed : NodeRef) (alive : Set Address) :
    Prop where
  self : n.address ∈ alive
  nodeId : env.nodeId n.address = n.nodeId
  failedId : env.nodeId failed.address = failed.id
  ne : n.nodeId ≠ failed.id
  fingers : ∀ finger ∈ fingerRefs n, finger = failed ∨
    finger.address ∈ alive ∧ env.nodeId finger.address = finger.id ∧ finger.id ≠ failed.id
  answer : ∀ t, ∀ a ∈ alive, env.deliver t a = .delivered

/-- The address of the failed node in the finger table. -/
def knownAddress (n : ChordNode M) (failedNodeId : ℕ) : Option Address :=
  ((fingerRefs n).find? fun finger => finger.id = failedNodeId).map NodeRef.address

/-- The entries with which recovery goes right: no job of the node is orphaned, every job of
the failed node has one active copy, and every replica at the node is of such a job. -/
structure Recoverable (n : ChordNode M) (failed : NodeRef) (alive : Set Address) (w : Cluster) :
    Prop where
  kept : ∀ key job, (w.nodes n.address).jobs.get key = some job →
    ¬job.Orphaned (knownAddress n failed.id)
  one : ∀ id, Affected w failed.address alive id →
    ∃! e : Address × String, e.1 ∈ alive ∧ w.ActiveCopy id e
  replicas : ∀ key job, (w.nodes n.address).jobs.get key = some job → job.IsReplica →
    job.Active → Affected w failed.address alive job.jobId

/-- What the finger table says of the failed node's address is right. -/
theorem Survivors.knownAddress_eq (h : Survivors env n failed alive)
    (ha : a ∈ knownAddress n failed.id) : a = failed.address := by
  obtain ⟨finger, hfind, rfl⟩ := Option.map_eq_some_iff.1 ha
  have hid : finger.id = failed.id := by simpa using List.find?_some hfind
  rcases h.fingers finger (List.mem_of_find?_eq_some hfind) with rfl | ⟨-, -, hne⟩
  · rfl
  · exact absurd hid hne

/-! ### The nodes that are asked -/

/-- The worlds that differ in the time only. -/
def Cluster.Like (w w' : Cluster) : Prop := w'.nodes = w.nodes ∧ w'.drawn = w.drawn

/-- The ids of the nodes that the node has an address for. -/
def Known (n : ChordNode M) (target : ℕ) : Prop :=
  target = n.nodeId ∨ ∃ finger ∈ fingerRefs n, finger.id = target

theorem ends_metricsFrom (hsurvivors : Survivors env n failed alive) (seen : List ℕ)
    (fingers : List NodeRef) (hfingers : ∀ finger ∈ fingers, finger ∈ fingerRefs n) :
    Ends (ε := Exc) (clusterHandle env) w.Like (metricsFrom seen fingers) fun metrics w' =>
      (∀ m ∈ metrics, Known n m.nodeId) ∧ w.Like w' := by
  induction fingers generalizing seen with
  | nil => exact .pure fun w' hw => ⟨fun m hm => absurd hm List.not_mem_nil, hw⟩
  | cons finger fingers ih =>
    have hrest : ∀ seen, Ends (ε := Exc) (clusterHandle env) w.Like (metricsFrom seen fingers)
        fun metrics w' => (∀ m ∈ metrics, Known n m.nodeId) ∧ w.Like w' := fun seen =>
      ih seen fun finger hfinger => hfingers finger (List.mem_cons_of_mem _ hfinger)
    have hid : env.nodeId finger.address = finger.id := by
      rcases hsurvivors.fingers finger (hfingers finger List.mem_cons_self) with rfl | ⟨-, h, -⟩
      · exact hsurvivors.failedId
      · exact h
    have hanswer : Ends (ε := Exc) (clusterHandle env) w.Like (perform (.getMetrics finger.address))
        fun (answer : Option Metrics) w' => (∀ m ∈ answer, Known n m.nodeId) ∧ w.Like w' := by
      refine .perform fun w' hw => ⟨fun m hm => ?_, hw⟩
      obtain ⟨-, rfl⟩ : env.deliver w'.steps finger.address = .delivered ∧
          (w'.nodes finger.address).metrics (env.nodeId finger.address) finger.address = m := by
        simpa [clusterHandle] using hm
      exact .inr ⟨finger, hfingers finger List.mem_cons_self, hid.symm⟩
    unfold metricsFrom
    refine .ite (fun _ => hrest seen) fun _ => ?_
    refine hanswer.bind fun answer => .assuming fun hknown => ?_
    refine (hrest _).bind fun rest => .assuming fun hothers => .pure fun w' hw => ⟨fun m hm => ?_, hw⟩
    rcases List.mem_append.1 hm with hm | hm
    · exact hknown m (Option.mem_toList.1 hm)
    · exact hothers m hm

/-- The metrics of the ring have those of the node itself, and of nodes of its finger table. -/
theorem ends_collectRingMetrics (hsurvivors : Survivors env n failed alive) :
    Ends (ε := Exc) (clusterHandle env) w.Like (collectRingMetrics n) fun metrics w' =>
      ((∀ m ∈ metrics, Known n m.nodeId) ∧ ∃ m ∈ metrics, m.nodeId = n.nodeId) ∧ w.Like w' := by
  have hown : Ends (ε := Exc) (clusterHandle env) w.Like (perform (.metrics n.address))
      fun (own : Metrics) w' => own.nodeId = n.nodeId ∧ w.Like w' :=
    .perform fun w' hw => ⟨hsurvivors.nodeId, hw⟩
  refine hown.bind fun own => .assuming fun hid => ?_
  refine (ends_metricsFrom hsurvivors _ _ fun _ h => h).bind fun rest => .assuming fun hrest => ?_
  refine .pure fun w' hw => ⟨⟨fun m hm => ?_, own, List.mem_cons_self, hid⟩, hw⟩
  rcases List.mem_cons.1 hm with rfl | hm
  · exact .inl hid
  · exact hrest m hm

/-- The address of a survivor is found without a lookup. -/
theorem addressFor_survivor (hsurvivors : Survivors env n failed alive) (hknown : Known n target)
    (hne : target ≠ failed.id) :
    ∃ a ∈ alive, addressFor n target = pure a ∧ (target = n.nodeId → a = n.address) := by
  unfold addressFor
  by_cases hself : target = n.nodeId
  · exact ⟨n.address, hsurvivors.self, if_pos hself, fun _ => rfl⟩
  rw [if_neg hself]
  have hfound : ((fingerRefs n).find? fun finger => finger.id = target).isSome := by
    obtain ⟨finger, hfinger, hid⟩ := hknown.resolve_left hself
    exact List.find?_isSome.2 ⟨finger, hfinger, by simpa using hid⟩
  obtain ⟨finger, hfind⟩ := Option.isSome_iff_exists.1 hfound
  have hid : finger.id = target := by simpa using List.find?_some hfind
  rw [hfind]
  refine ⟨finger.address, ?_, rfl, fun h => absurd h hself⟩
  rcases hsurvivors.fingers finger (List.mem_of_find?_eq_some hfind) with rfl | ⟨halive, -, -⟩
  · exact absurd hid.symm hne
  · exact halive

/-! ### Copies under new keys -/

/-- A world in which a job was stored under a key of a new block. -/
def Cluster.Stored (uuid4 : ℕ → ℕ → String) (w : Cluster) (a : Address) (job : Job)
    (w' : Cluster) : Prop :=
  ∃ i, w'.nodes = (w.store a (jobKey (uuid4 w.drawn i)) job).nodes ∧ w'.drawn = w.drawn + 1

/-- `_store_job` at a survivor. -/
theorem ends_storeJob {J : Cluster → Prop} (hself : target = n.nodeId → a = n.address)
    (hanswer : ∀ t, env.deliver t a = .delivered) :
    Ends (ε := Exc) (clusterHandle env) J (storeJob sha1Id uuid4 n job a target)
      fun _ w' => ∃ w, J w ∧ w.Stored uuid4 a job w' := by
  have hdraw : Ends (ε := Exc) (clusterHandle env) J (perform .draw) fun (block : ℕ) w' =>
      ∃ w, J w ∧ block = w.drawn ∧ w'.nodes = w.nodes ∧ w'.drawn = w.drawn + 1 :=
    .perform fun w hw => ⟨w, hw, rfl, rfl, rfl⟩
  -- the world after the copy is stored
  have hstore : ∀ {block : ℕ} {w₁ : Cluster}, (∃ w, J w ∧ block = w.drawn ∧ w₁.nodes = w.nodes ∧
      w₁.drawn = w.drawn + 1) → ∃ w, J w ∧
        w.Stored uuid4 a job (w₁.store a (makeJobKeyFor sha1Id (uuid4 block) target) job).tick := by
    rintro block w₁ ⟨w, hw, rfl, hnodes, hdrawn⟩
    obtain ⟨i, hkey⟩ := keyFrom_eq sha1Id 256 (uuid4 w.drawn) target 0 512
    refine ⟨w, hw, i, ?_, hdrawn⟩
    show ((w₁.store a (keyFrom sha1Id 256 (uuid4 w.drawn) target 0 512) job).tick).nodes = _
    rw [hkey]
    unfold Cluster.tick Cluster.store Cluster.setJobs
    rw [hnodes]
  unfold storeJob
  refine hdraw.bind fun block => .ite (fun htarget => ?_) fun _ => ?_
  · rw [← hself htarget]
    have hput : Ends (ε := Exc) (clusterHandle env) (fun w₁ => ∃ w, J w ∧ block = w.drawn ∧
        w₁.nodes = w.nodes ∧ w₁.drawn = w.drawn + 1)
        (perform (.put a (makeJobKeyFor sha1Id (uuid4 block) target) job))
        fun _ w' => ∃ w, J w ∧ w.Stored uuid4 a job w' := .perform fun w₁ h => hstore h
    exact hput.bind fun _ => .pure fun w' hw => hw
  · have hpost : Ends (ε := Exc) (clusterHandle env) (fun w₁ => ∃ w, J w ∧ block = w.drawn ∧
        w₁.nodes = w.nodes ∧ w₁.drawn = w.drawn + 1)
        (perform (.postData a (makeJobKeyFor sha1Id (uuid4 block) target) job))
        fun (ok : Bool) w' => ok = true ∧ ∃ w, J w ∧ w.Stored uuid4 a job w' := by
      refine .perform fun w₁ h => ?_
      have hdelivered : env.deliver w₁.steps a = .delivered := hanswer _
      refine ⟨decide_eq_true hdelivered, ?_⟩
      have hstored : (clusterHandle env (.postData a (makeJobKeyFor sha1Id (uuid4 block) target)
          job) w₁).2 = (w₁.store a (makeJobKeyFor sha1Id (uuid4 block) target) job).tick := by
        show (if env.deliver w₁.steps a = .lost then w₁ else _).tick = _
        rw [hdelivered]
        rfl
      rw [hstored]
      exact hstore h
    refine hpost.bind fun ok => .assuming fun hok => ?_
    rw [hok]
    exact .pure fun w' hw => hw

/-- One turn of the loop over the orphaned jobs: the job is not assigned, or a new copy of it
is stored at a survivor. -/
theorem ends_reassign_cons {J K L : Cluster → Prop} {assignments : Dict String ℕ}
    {jobs : List Job} (hsurvivors : Survivors env n failed alive)
    (htargets : ∀ id, ∀ t ∈ assignments.get id, Known n t ∧ t ≠ failed.id)
    (htick : ∀ w, J w → J w.tick)
    (hskip : assignments.get job.jobId = none → ∀ w, J w → K w)
    (hstored : ∀ w w' a (copy : Job), a ∈ alive → copy.Active → copy.jobId = job.jobId → J w →
      w.Stored uuid4 a copy w' → K w')
    (hrest : Ends (clusterHandle env) K (reassign sha1Id uuid4 n assignments jobs) fun _ => L) :
    Ends (clusterHandle env) J (reassign sha1Id uuid4 n assignments (job :: jobs)) fun _ => L := by
  unfold reassign
  cases htarget : assignments.get job.jobId with
  | none => exact hrest.pre (hskip htarget)
  | some target =>
    obtain ⟨hknown, hne⟩ := htargets _ _ htarget
    obtain ⟨a, ha, haddress, hself⟩ := addressFor_survivor hsurvivors hknown hne
    have hnow : Ends (ε := Exc) (clusterHandle env) J (perform .now) fun (_ : ℕ) => J :=
      .perform fun w hw => htick w hw
    simp only [haddress]
    refine hnow.bind fun now => ?_
    refine ((ends_storeJob hself fun t => hsurvivors.answer t a ha).attempt).bind fun x => ?_
    exact hrest.pre fun w' ⟨_, _, w, hw, hw'⟩ =>
      hstored w w' a (makeJob job.type job.payload job.jobId now) ha (.inl rfl) rfl hw hw'

/-- The loop keeps what every single copy keeps. -/
theorem ends_reassign {J : Cluster → Prop} {assignments : Dict String ℕ} {jobs : List Job}
    (hsurvivors : Survivors env n failed alive)
    (htargets : ∀ id, ∀ t ∈ assignments.get id, Known n t ∧ t ≠ failed.id)
    (htick : ∀ w, J w → J w.tick)
    (hstored : ∀ w w' a copy, J w → w.Stored uuid4 a copy w' → J w') :
    Ends (clusterHandle env) J (reassign sha1Id uuid4 n assignments jobs) fun _ => J := by
  induction jobs with
  | nil => exact .pure fun w hw => hw
  | cons job jobs ih =>
    exact ends_reassign_cons hsurvivors htargets htick (fun _ w hw => hw)
      (fun w w' a copy _ _ _ hw hw' => hstored w w' a copy hw hw') ih

/-- A copy stored under a new key leaves the entries under other keys as they are. -/
theorem Cluster.Stored.get_of_ne (h : w.Stored uuid4 a job w') {b : Address}
    (hkey : ∀ i, key ≠ jobKey (uuid4 w.drawn i)) :
    (w'.nodes b).jobs.get key = (w.nodes b).jobs.get key := by
  obtain ⟨i, hnodes, -⟩ := h
  rw [hnodes, Cluster.get_store, if_neg fun hsame => hkey i hsame.2]

theorem Cluster.Stored.activeCopy (h : w.Stored uuid4 a job w') {e : Address × String}
    (hkey : ∀ i, e.2 ≠ jobKey (uuid4 w.drawn i)) (hcopy : w.ActiveCopy id e) :
    w'.ActiveCopy id e := by
  unfold Cluster.ActiveCopy
  rw [h.get_of_ne hkey]
  exact hcopy

/-- An active copy is there; `d` blocks were drawn when it was first seen. -/
structure Kept (id : String) (e : Address × String) (d : ℕ) (w : Cluster) : Prop where
  drawn : d ≤ w.drawn
  copy : w.ActiveCopy id e

/-- A second one is there as well, at a survivor and under a key of a block drawn since. -/
structure Copied (uuid4 : ℕ → ℕ → String) (alive : Set Address) (id : String)
    (e : Address × String) (d : ℕ) (w : Cluster) : Prop where
  kept : Kept id e d w
  second : ∃ a ∈ alive, ∃ b i, d ≤ b ∧ b < w.drawn ∧ w.ActiveCopy id (a, jobKey (uuid4 b i))

section Copied

variable {e : Address × String} {d : ℕ}

theorem Kept.stored (hnew : ∀ b, d ≤ b → ∀ i, e.2 ≠ jobKey (uuid4 b i)) (h : Kept id e d w)
    (hstored : w.Stored uuid4 a job w') : Kept id e d w' := by
  refine ⟨?_, hstored.activeCopy (hnew _ h.drawn) h.copy⟩
  obtain ⟨i, -, hdrawn⟩ := hstored
  have := h.drawn
  omega

/-- The copy of an orphaned job is a second one. -/
theorem Kept.copied (hnew : ∀ b, d ≤ b → ∀ i, e.2 ≠ jobKey (uuid4 b i)) (h : Kept id e d w)
    (ha : a ∈ alive) (hactive : job.Active) (hid : job.jobId = id)
    (hstored : w.Stored uuid4 a job w') : Copied uuid4 alive id e d w' := by
  refine ⟨h.stored hnew hstored, ?_⟩
  obtain ⟨i, hnodes, hdrawn⟩ := hstored
  refine ⟨a, ha, w.drawn, i, h.drawn, by omega, job, ?_, hactive, hid⟩
  rw [hnodes, Cluster.get_store, if_pos ⟨rfl, rfl⟩]
  rfl

theorem Copied.stored (hids : DistinctIds uuid4) (hnew : ∀ b, d ≤ b → ∀ i, e.2 ≠ jobKey (uuid4 b i))
    (h : Copied uuid4 alive id e d w) (hstored : w.Stored uuid4 a job w') :
    Copied uuid4 alive id e d w' := by
  refine ⟨h.kept.stored hnew hstored, ?_⟩
  obtain ⟨a', ha', b, i, hd, hb, hcopy⟩ := h.second
  have hother : ∀ i', jobKey (uuid4 b i) ≠ jobKey (uuid4 w.drawn i') := fun i' hsame =>
    absurd (hids _ _ _ _ (jobKey_inj.1 hsame)).1 (Nat.ne_of_lt hb)
  refine ⟨a', ha', b, i, hd, ?_, hstored.activeCopy hother hcopy⟩
  obtain ⟨i', -, hdrawn⟩ := hstored
  omega

/-- **The loop stores a second copy** of every job in it that is assigned to a node. -/
theorem ends_reassign_copied {assignments : Dict String ℕ} {jobs : List Job}
    (hids : DistinctIds uuid4) (hsurvivors : Survivors env n failed alive)
    (hnew : ∀ b, d ≤ b → ∀ i, e.2 ≠ jobKey (uuid4 b i))
    (htargets : ∀ id, ∀ t ∈ assignments.get id, Known n t ∧ t ≠ failed.id)
    (hmem : ∃ job ∈ jobs, job.jobId = id) (hassigned : (assignments.get id).isSome) :
    Ends (clusterHandle env) (Kept id e d) (reassign sha1Id uuid4 n assignments jobs)
      fun _ => Copied uuid4 alive id e d := by
  have htick : ∀ w, Kept id e d w → Kept id e d w.tick := fun w h => ⟨h.drawn, h.copy⟩
  induction jobs with
  | nil =>
    obtain ⟨job, hjob, -⟩ := hmem
    cases hjob
  | cons job jobs ih =>
    by_cases hid : job.jobId = id
    · -- the turn of the job
      refine ends_reassign_cons (K := Copied uuid4 alive id e d) hsurvivors htargets htick
        (fun hnone => ?_)
        (fun w w' a copy ha hactive hcopy h hw' => h.copied hnew ha hactive (hcopy.trans hid) hw')
        (ends_reassign hsurvivors htargets (fun w h => ⟨⟨h.kept.drawn, h.kept.copy⟩, h.second⟩)
          fun w w' a copy h hw' => h.stored hids hnew hw')
      rw [hid] at hnone
      rw [hnone] at hassigned
      cases hassigned
    · refine ends_reassign_cons hsurvivors htargets htick (fun _ w h => h)
        (fun w w' a copy _ _ _ h hw' => h.stored hnew hw') (ih ?_)
      obtain ⟨job', hjob', hid'⟩ := hmem
      rcases List.mem_cons.1 hjob' with rfl | hjob'
      · exact absurd hid' hid
      · exact ⟨job', hjob', hid'⟩

end Copied

/-! ### Promotion -/

namespace Job

variable {j : Job} {failedAddress : Option Address}

theorem promote_jobId (j : Job) : j.promote.jobId = j.jobId := by
  unfold promote
  split_ifs <;> rfl

theorem active_promote : j.promote.Active ↔ j.Active := by
  unfold promote
  split_ifs with h
  · exact ⟨fun _ => h.2, fun _ => .inl rfl⟩
  · exact Iff.rfl

/-- A replica that is promoted is nobody's. -/
theorem orphaned_promote : j.promote.Orphaned failedAddress ↔ j.Orphaned failedAddress := by
  unfold promote
  split_ifs with h
  · refine ⟨fun horphan => ?_, fun horphan => absurd h.1 horphan.2.1⟩
    obtain ⟨-, -, hsome, hnone⟩ := horphan
    rw [← show none = failedAddress from hnone] at hsome
    cases hsome
  · exact Iff.rfl

end Job

/-- The stores after the first block of `_recover`. -/
def promoted (n : ChordNode M) (w : Cluster) : Cluster :=
  w.setJobs n.address ((w.nodes n.address).jobs.mapValues Job.promote)

theorem get_promoted : ((promoted n w).nodes a).jobs.get key =
    if a = n.address then ((w.nodes a).jobs.get key).map Job.promote
    else (w.nodes a).jobs.get key := by
  unfold promoted Cluster.setJobs
  by_cases ha : a = n.address
  · subst ha
    simp [Dict.get_mapValues]
  · simp [ha]

/-- Promotion keeps the active copies. -/
theorem activeCopy_promoted {e : Address × String} :
    (promoted n w).ActiveCopy id e ↔ w.ActiveCopy id e := by
  unfold Cluster.ActiveCopy
  rw [get_promoted]
  by_cases ha : e.1 = n.address
  · rw [if_pos ha]
    constructor
    · rintro ⟨job', hjob', hactive, hid⟩
      obtain ⟨job, hjob, rfl⟩ := Option.map_eq_some_iff.1 hjob'
      exact ⟨job, hjob, Job.active_promote.1 hactive, job.promote_jobId.symm.trans hid⟩
    · rintro ⟨job, hjob, hactive, hid⟩
      exact ⟨job.promote, Option.map_eq_some_iff.2 ⟨job, hjob, rfl⟩, Job.active_promote.2 hactive,
        job.promote_jobId.trans hid⟩
  · rw [if_neg ha]

/-- The orphaned jobs that `_recover` finds are those before the promotion. -/
theorem mem_orphaned {failedAddress : Option Address} :
    job ∈ (((promoted n w).nodes n.address).jobs.entries.filter fun e =>
        e.2.Orphaned failedAddress).map Prod.snd ↔
      ∃ key j, (w.nodes n.address).jobs.get key = some j ∧ j.Orphaned failedAddress ∧
        j.promote = job := by
  constructor
  · intro hjob
    obtain ⟨⟨key, job'⟩, he, rfl⟩ := List.mem_map.1 hjob
    obtain ⟨hentry, horphan⟩ := List.mem_filter.1 he
    rw [Dict.mem_entries_iff, get_promoted, if_pos rfl] at hentry
    obtain ⟨j, hj, rfl⟩ := Option.map_eq_some_iff.1 hentry
    exact ⟨key, j, hj, Job.orphaned_promote.1 (of_decide_eq_true horphan), rfl⟩
  · rintro ⟨key, j, hj, horphan, rfl⟩
    refine List.mem_map.2 ⟨(key, j.promote), List.mem_filter.2 ⟨?_, ?_⟩, rfl⟩
    · rw [Dict.mem_entries_iff, get_promoted, if_pos rfl, hj]
      rfl
    · exact decide_eq_true (Job.orphaned_promote.2 horphan)

/-! ### Recovery -/

/-- The second block of `_recover`, after the first: the orphaned jobs. -/
theorem ends_recover {L : Cluster → Prop} (hsurvivors : Survivors env n failed alive)
    (htail : ∀ orphaned, orphaned = (((promoted n w).nodes n.address).jobs.entries.filter
        fun e => e.2.Orphaned (knownAddress n failed.id)).map Prod.snd →
      ∀ survivors : List Metrics, survivors ≠ [] →
        (∀ m ∈ survivors, Known n m.nodeId ∧ m.nodeId ≠ failed.id) →
        Ends (ε := Exc) (clusterHandle env) (promoted n w).Like (if orphaned = [] then pure ()
          else reassign sha1Id uuid4 n (RecoveryAgent.heuristic orphaned survivors) orphaned)
          fun _ => L) :
    Ends (clusterHandle env) w.Like
      (recover sha1Id uuid4 RecoveryAgent.heuristic n failed.id) fun _ => L := by
  unfold recover
  refine (ends_collectRingMetrics hsurvivors).bind fun metrics =>
    .assuming fun ⟨hknown, own, hown, hid⟩ => ?_
  have hsurvives : own ∈ metrics.filter fun m => m.nodeId ≠ failed.id :=
    List.mem_filter.2 ⟨hown, by simpa [hid] using hsurvivors.ne⟩
  have hpromote : Ends (ε := Exc) (clusterHandle env) w.Like (perform (.promote n.address))
      fun (_ : List Job) => (promoted n w).Like := by
    refine .perform fun w' hw => ⟨?_, hw.2⟩
    show ((w'.setJobs n.address _).tick).nodes = _
    unfold promoted Cluster.tick Cluster.setJobs
    rw [hw.1]
  have horphaned : Ends (ε := Exc) (clusterHandle env) (promoted n w).Like
      (perform (.orphaned n.address (knownAddress n failed.id)))
      fun (orphaned : List Job) w' =>
        orphaned = (((promoted n w).nodes n.address).jobs.entries.filter
          fun e => e.2.Orphaned (knownAddress n failed.id)).map Prod.snd ∧
        (promoted n w).Like w' := by
    refine .perform fun w' hw => ⟨?_, hw⟩
    rw [← hw.1]
    rfl
  refine .ite (fun hnil => ?_) fun hsome => ?_
  · rw [hnil] at hsurvives
    cases hsurvives
  refine hpromote.bind fun _ => horphaned.bind fun orphaned => .assuming fun heq => ?_
  refine htail orphaned heq _ hsome fun m hm => ?_
  obtain ⟨hm, hne⟩ := List.mem_filter.1 hm
  exact ⟨hknown m hm, by simpa using hne⟩

/-- Where no job is orphaned, recovery promotes the replicas and that is all. -/
theorem recover_promoted (hsurvivors : Survivors env n failed alive)
    (hkept : ∀ key job, (w.nodes n.address).jobs.get key = some job →
      ¬job.Orphaned (knownAddress n failed.id)) :
    Ends (clusterHandle env) w.Like (recover sha1Id uuid4 RecoveryAgent.heuristic n failed.id)
      fun _ => (promoted n w).Like := by
  refine ends_recover hsurvivors fun orphaned heq _ _ _ => ?_
  have hnil : orphaned = [] := by
    rw [heq]
    refine List.eq_nil_iff_forall_not_mem.2 fun job hjob => ?_
    obtain ⟨key, j, hj, horphan, -⟩ := mem_orphaned.1 hjob
    exact hkept key j hj horphan
  rw [if_pos hnil]
  exact .pure fun w' hw => hw

/-- Where a job is orphaned, it has two active copies afterwards. -/
theorem recover_copied (hids : DistinctIds uuid4) (hsurvivors : Survivors env n failed alive)
    (hnew : ∀ b, w.drawn ≤ b → ∀ i, (w.nodes n.address).jobs.get (jobKey (uuid4 b i)) = none)
    (hjob : (w.nodes n.address).jobs.get key = some job)
    (horphan : job.Orphaned (knownAddress n failed.id)) :
    Ends (clusterHandle env) w.Like (recover sha1Id uuid4 RecoveryAgent.heuristic n failed.id)
      fun _ => Copied uuid4 alive job.jobId (n.address, key) w.drawn := by
  refine ends_recover hsurvivors fun orphaned heq survivors hsome hsurviving => ?_
  have hmem : job.promote ∈ orphaned := by
    rw [heq]
    exact mem_orphaned.2 ⟨key, job, hjob, horphan, rfl⟩
  have hkey : ∀ b, w.drawn ≤ b → ∀ i, key ≠ jobKey (uuid4 b i) := by
    rintro b hb i rfl
    rw [hnew b hb i] at hjob
    cases hjob
  obtain ⟨htargets, hassigned⟩ := RecoveryAgent.heuristic_spec orphaned hsome
  have hid : ((RecoveryAgent.heuristic orphaned survivors).get job.jobId).isSome := by
    rw [← job.promote_jobId]
    exact hassigned _ hmem
  rw [if_neg (List.ne_nil_of_mem hmem)]
  refine (ends_reassign_copied hids hsurvivors hkey (fun id t ht => ?_)
    ⟨_, hmem, job.promote_jobId⟩ hid).pre fun w' hw => ⟨hw.2.ge, ?_⟩
  · obtain ⟨m, hm, rfl⟩ := htargets id t ht
    exact hsurviving m hm
  · unfold Cluster.ActiveCopy
    rw [hw.1]
    exact activeCopy_promoted.2 ⟨job, hjob, horphan.1, rfl⟩

/-- What promotion alone achieves. -/
theorem recovered_promoted_iff (hself : n.address ∈ alive) (hlike : (promoted n w).Like w')
    (hkept : ∀ key job, (w.nodes n.address).jobs.get key = some job →
      ¬job.Orphaned (knownAddress n failed.id)) :
    Recovered failed.address alive w w' ↔ Recoverable n failed alive w := by
  have hcopies : ∀ id e, w'.ActiveCopy id e ↔ w.ActiveCopy id e := by
    intro id e
    rw [← activeCopy_promoted (n := n) (w := w)]
    unfold Cluster.ActiveCopy
    rw [hlike.1]
  constructor
  · intro h
    refine ⟨hkept, fun id hid => ?_, fun key job hjob hreplica hactive => ?_⟩
    · simpa only [hcopies] using h.one id hid
    · by_contra hother
      -- an unaffected job is not promoted
      have hsame := (h.others _ hself key job hother).2 hjob
      rw [hlike.1, get_promoted, if_pos rfl, hjob] at hsame
      have hpromote : job.promote = job := Option.some.inj hsame
      have hnone : job.promote.replicaOf = none := by
        unfold Job.promote
        rw [if_pos ⟨hreplica, hactive⟩]
      obtain ⟨id, hid, -⟩ := hreplica
      rw [← hpromote, hnone] at hid
      cases hid
  · intro h
    refine ⟨fun id hid => ?_, fun a ha key job hother => ?_⟩
    · simpa only [hcopies] using h.one id hid
    rw [hlike.1, get_promoted]
    by_cases hn : a = n.address
    swap
    · rw [if_neg hn]
    subst hn
    rw [if_pos rfl]
    have hunchanged : ∀ j, (w.nodes n.address).jobs.get key = some j →
        j.promote.jobId = job.jobId → j.promote = j := by
      intro j hj hid
      refine if_neg fun hreplica => hother ?_
      rw [← hid, j.promote_jobId]
      exact h.replicas key j hj hreplica.1 hreplica.2
    constructor
    · intro hjob
      obtain ⟨j, hj, rfl⟩ := Option.map_eq_some_iff.1 hjob
      rw [hunchanged j hj rfl]
      exact hj
    · intro hjob
      rw [hjob, Option.map_some, hunchanged job hjob job.promote_jobId]

/-- A job of the failed node with two active copies is not recovered. -/
theorem Copied.not_recovered (hsurvivors : Survivors env n failed alive)
    (hnew : ∀ b, w.drawn ≤ b → ∀ i, (w.nodes n.address).jobs.get (jobKey (uuid4 b i)) = none)
    (hjob : (w.nodes n.address).jobs.get key = some job)
    (horphan : job.Orphaned (knownAddress n failed.id))
    (h : Copied uuid4 alive job.jobId (n.address, key) w.drawn w') :
    ¬Recovered failed.address alive w w' := by
  intro hrecovered
  have hclaimed : job.claimedBy = some failed.address := by
    obtain ⟨-, -, hsome, hclaimed⟩ := horphan
    obtain ⟨address, haddress⟩ := Option.isSome_iff_exists.1 hsome
    rw [hclaimed, haddress, hsurvivors.knownAddress_eq haddress]
  obtain ⟨a, ha, b, i, hb, -, hsecond⟩ := h.second
  have hsame := (hrecovered.one job.jobId (.inl ⟨n.address, key, job, .inl hsurvivors.self, hjob,
    horphan.1, hclaimed, rfl⟩)).unique ⟨hsurvivors.self, h.kept.copy⟩ ⟨ha, hsecond⟩
  rw [(Prod.mk.inj hsame).2, hnew b hb i] at hjob
  cases hjob

/-- **What recovery achieves.**  Every job of the failed node has one active copy over the
survivors and the other jobs are untouched exactly when no entry of the node is an orphaned
job, every job of the failed node had one active copy before, and every active replica at
the node is of such a job. -/
theorem recover_iff (hids : DistinctIds uuid4) (hsurvivors : Survivors env n failed alive)
    (hnew : ∀ b, w.drawn ≤ b → ∀ i, (w.nodes n.address).jobs.get (jobKey (uuid4 b i)) = none) :
    Recovered failed.address alive w (exec (clusterHandle env)
        (recover sha1Id uuid4 RecoveryAgent.heuristic n failed.id) w).2 ↔
      Recoverable n failed alive w := by
  by_cases hkept : ∀ key job, (w.nodes n.address).jobs.get key = some job →
      ¬job.Orphaned (knownAddress n failed.id)
  · obtain ⟨_, w', hrun, hlike⟩ :=
      (recover_promoted hsurvivors hkept).holds w ⟨rfl, rfl⟩
    rw [hrun]
    exact recovered_promoted_iff hsurvivors.self hlike hkept
  · obtain ⟨key, job, hjob, horphan⟩ : ∃ key job, (w.nodes n.address).jobs.get key = some job ∧
        job.Orphaned (knownAddress n failed.id) := by
      simpa only [not_forall, not_not, exists_prop] using hkept
    obtain ⟨_, w', hrun, hcopied⟩ :=
      (recover_copied hids hsurvivors hnew hjob horphan).holds w ⟨rfl, rfl⟩
    rw [hrun]
    exact iff_of_false (hcopied.not_recovered hsurvivors hnew hjob horphan)
      fun h => h.kept key job hjob horphan

end Watcher

namespace ThreeNodes

/-- The nodes `0`, `64` and `128`, as node `0` sees them. -/
def nodeA : ChordNode 8 :=
  ⟨"a", 0, none, fun i => if i.val ≤ 6 then ⟨2 ^ i.val, 64, "c"⟩ else ⟨128, 128, "b"⟩⟩

def env : ClusterEnv :=
  { TwoNodes.env with nodeId := fun a => if a = "a" then 0 else if a = "b" then 128 else 64 }

/-- Node `128` failed. -/
def failed : NodeRef := ⟨128, "b"⟩

def alive : Set Address := {"a", "c"}

theorem survivors : Survivors env nodeA failed alive where
  self := .inl rfl
  nodeId := rfl
  failedId := rfl
  ne := by decide
  fingers := by
    have hrefs : ∀ finger ∈ fingerRefs nodeA, finger = ⟨128, "b"⟩ ∨ finger = ⟨64, "c"⟩ := by decide
    intro finger hfinger
    rcases hrefs finger hfinger with rfl | rfl
    · exact .inl rfl
    · exact .inr ⟨.inr rfl, rfl, by decide⟩
  answer _ _ _ := rfl

/-- The job `j`, claimed by a node, and a replica of it. -/
def primary (a : Address) : Job :=
  { makeJob "echo" .null "j" 0 with status := .running, claimedBy := some a }
def replica : Job := { makeJob "echo" .null "j" 0 with replicaOf := some "j" }

/-- The job at one node, and its replica at node `0`. -/
def replicated (a : Address) : Cluster :=
  (TwoNodes.empty.store a "job:x" (primary a)).store "a" "job:y" replica

/-- The world when `_recover` ends. -/
def recoveredFrom (w : Cluster) : Cluster :=
  (exec (clusterHandle env) (recover TwoNodes.sha1Id TwoNodes.uuid4 RecoveryAgent.heuristic nodeA
    failed.id) w).2

theorem get_replicated {a b : Address} {key : String} {job : Job} :
    ((replicated a).nodes b).jobs.get key = some job ↔
      (b = "a" ∧ key = "job:y") ∧ replica = job ∨
        ¬(b = "a" ∧ key = "job:y") ∧ (b = a ∧ key = "job:x") ∧ primary a = job := by
  unfold replicated
  rw [Cluster.get_store, Cluster.get_store]
  by_cases hreplica : b = "a" ∧ key = "job:y"
  · simp [hreplica]
  · by_cases hprimary : b = a ∧ key = "job:x"
    · simp only [if_neg hreplica, if_pos hprimary, Option.some.injEq]
      tauto
    · simp only [if_neg hreplica, if_neg hprimary]
      exact ⟨fun h => (by cases h), fun h => by tauto⟩

/-- No id that is drawn is `y`. -/
theorem get_new (a : Address) (ha : a ≠ "a") (b i : ℕ) :
    ((replicated a).nodes "a").jobs.get (jobKey (TwoNodes.uuid4 b i)) = none := by
  refine Option.eq_none_iff_forall_ne_some.2 fun job hjob => ?_
  rcases get_replicated.1 hjob with ⟨⟨-, hkey⟩, -⟩ | ⟨-, ⟨h, -⟩, -⟩
  · have hlist : List.replicate b 'a' ++ 'b' :: List.replicate i 'a' = ['y'] :=
      String.ofList_injective (jobKey_inj.1 hkey)
    have hmem : 'b' ∈ ['y'] := hlist ▸ List.mem_append_right _ List.mem_cons_self
    exact absurd hmem (by decide)
  · exact ha h.symm

/-- The job of the failed node. -/
theorem affected_replicated {id : String} :
    Affected (replicated "b") failed.address alive id ↔ id = "j" := by
  constructor
  · rintro (⟨a, key, job, -, hjob, -, -, rfl⟩ | ⟨-, key, job, hjob, -, rfl⟩)
    · rcases get_replicated.1 hjob with ⟨-, rfl⟩ | ⟨-, -, rfl⟩ <;> rfl
    · rcases get_replicated.1 hjob with ⟨-, rfl⟩ | ⟨-, -, rfl⟩ <;> rfl
  · rintro rfl
    exact .inl ⟨"b", "job:x", primary "b", .inr rfl, rfl, .inr (.inr rfl), rfl, rfl⟩

theorem recoverable : Recoverable nodeA failed alive (replicated "b") where
  kept key job hjob horphan := by
    rcases get_replicated.1 hjob with ⟨-, rfl⟩ | ⟨-, ⟨h, -⟩, -⟩
    · exact horphan.2.1 ⟨"j", rfl, by decide⟩
    · exact absurd h (by decide)
  one id hid := by
    obtain rfl := affected_replicated.1 hid
    refine ⟨("a", "job:y"), ⟨.inl rfl, replica, rfl, .inl rfl, rfl⟩, ?_⟩
    rintro ⟨a, key⟩ ⟨ha, job, hjob, -, -⟩
    rcases get_replicated.1 hjob with ⟨⟨rfl, rfl⟩, -⟩ | ⟨-, ⟨rfl, -⟩, -⟩
    · rfl
    · exact absurd (show "b" = "a" ∨ "b" = "c" from ha) (by decide)
  replicas key job hjob _ _ := by
    refine affected_replicated.2 ?_
    rcases get_replicated.1 hjob with ⟨-, rfl⟩ | ⟨-, ⟨h, -⟩, -⟩
    · rfl
    · exact absurd h (by decide)

end ThreeNodes

open ThreeNodes in
/-- The hypotheses of `recover_iff` are satisfiable, with a replica of a job of the failed
node. -/
theorem recovered_replicated :
    Recovered failed.address alive (replicated "b") (recoveredFrom (replicated "b")) :=
  (recover_iff TwoNodes.distinctIds survivors fun b _ i => get_new "b" (by decide) b i).2 recoverable

open ThreeNodes in
/-- **A replica of a job of another node is promoted**: the job runs at node `64`, and node
`128`, which failed, had nothing to do with it. -/
theorem promoted_unrelated :
    DistinctIds TwoNodes.uuid4 ∧ Survivors env nodeA failed alive ∧
      (∀ b i, ((replicated "c").nodes "a").jobs.get (jobKey (TwoNodes.uuid4 b i)) = none) ∧
      ¬Recovered failed.address alive (replicated "c") (recoveredFrom (replicated "c")) := by
  refine ⟨TwoNodes.distinctIds, survivors, get_new "c" (by decide), fun h => ?_⟩
  have hother : ¬Affected (replicated "c") failed.address alive "j" := by
    rintro (⟨a, key, job, -, hjob, -, hclaimed, -⟩ | ⟨-, key, job, hjob, -, -⟩)
    · rcases get_replicated.1 hjob with ⟨-, rfl⟩ | ⟨-, -, rfl⟩
      · cases hclaimed
      · exact absurd (Option.some.inj hclaimed) (by decide)
    · rcases get_replicated.1 hjob with ⟨⟨h, -⟩, -⟩ | ⟨-, ⟨h, -⟩, -⟩ <;> exact absurd h (by decide)
  have hsame := (h.others "a" (.inl rfl) "job:y" replica hother).2 rfl
  have hpromoted : (((recoveredFrom (replicated "c")).nodes "a").jobs.get "job:y").map
      Job.replicaOf = some none := by decide +kernel
  rw [hsame] at hpromoted
  cases hpromoted

end Jobs
end ChordInfra
