/-
# A submitted job is asked for by its id

`get_job` looks up the node responsible for the key made of the job's id, and asks it for
that key.  A submission stores its job under a key made of another id, which it draws so
that the key hashes to the node chosen, so no store gets an entry under the key made of the
job's id (`Untouched`).  The job is found exactly when the node asked had a job of that id
under that key before (`getJob_found_iff`).
-/

import ChordInfra.Jobs.Submissions

namespace ChordInfra
namespace Jobs

open Interact Prog
open Storage (Json Address Delivery Exc)
open ChordInfra.Ring (NodeRef ChordNode)

section Runs

variable {M : ℕ} {sha1Id : String → ℕ} {uuid4 : ℕ → ℕ → String} {ι : Type} [DecidableEq ι]
  {env : ClusterEnv} {γ : ι → Option Duty} {w₀ w : Cluster} {i slot : ι} {d : Duty} {calm : Prop}

/-- The keys of a block that is drawn for a job, or not drawn yet, have the entries that they
had. -/
def Untouched (uuid4 : ℕ → ℕ → String) (w₀ : Cluster) (γ : ι → Option Duty) (w : Cluster) : Prop :=
  ∀ b, (w.drawn ≤ b ∨ ∃ i, ∃ d ∈ γ i, b ∈ d.jobBlock) → ∀ a i,
    w.jobIdAt a (jobKey (uuid4 b i)) = w₀.jobIdAt a (jobKey (uuid4 b i))

omit [DecidableEq ι] in
/-- An entry at a key of a block that is drawn for keys. -/
theorem Untouched.store (hids : DistinctIds uuid4) (hdrawn : Drawn γ w.drawn)
    (h : Untouched uuid4 w₀ γ w) (hi : γ i = some d) {m : ℕ} (hm : m ∈ d.keyBlock) (k : ℕ)
    (a : Address) (job : Job) :
    Untouched uuid4 w₀ γ (w.store a (jobKey (uuid4 m k)) job) := by
  intro b hb a' k'
  have hne : jobKey (uuid4 b k') ≠ jobKey (uuid4 m k) := by
    intro he
    obtain rfl : b = m := (hids _ _ _ _ (jobKey_inj.1 he)).1
    rcases hb with hb | ⟨j, d', hd', hb⟩
    · exact absurd (hdrawn.key_lt i d hi b hm) (Nat.not_lt.2 hb)
    · exact hdrawn.apart j d' hd' i d hi b hb hm
  rw [← h b hb a' k', Cluster.jobIdAt, Cluster.get_store, if_neg fun he => hne he.2]
  rfl

/-- **An operation keeps the entries at the keys of the jobs' ids.** -/
theorem Untouched.act (hids : DistinctIds uuid4) (hdrawn : Drawn γ w.drawn)
    (h : Untouched uuid4 w₀ γ w) (hi : γ i = some d) {o : ClusterOp}
    (hallowed : d.Allowed uuid4 calm o) :
    Untouched uuid4 w₀ (Pool.place (Function.update γ i
      (some (d.note o (clusterHandle env o w).1))) slot
        (((clusterSystem env).launch o).map Thread.ghost)) (clusterHandle env o w).2 := by
  suffices hafter : ∀ b, (w.drawn ≤ b ∨ ∃ i, ∃ d ∈ γ i, b ∈ d.jobBlock) → ∀ a k,
      (clusterHandle env o w).2.jobIdAt a (jobKey (uuid4 b k)) =
        w₀.jobIdAt a (jobKey (uuid4 b k)) from fun b hb => hafter b
        (held_or_new hi (fun _ _ => rfl) (d.note_jobBlock o w b) hb)
  intro b hb a k
  rcases jobIdAt_handle env w hallowed with
    hsame | ⟨s, a', key, job, rfl, ⟨n, m, k', -, hm, rfl, -⟩, -, hstore⟩
  · rw [hsame]
    exact h b hb a k
  · rw [hstore]
    exact h.store hids hdrawn hi hm k' a' job b hb a k

theorem keeps_untouched (hids : DistinctIds uuid4) :
    Keeps (ι := ι) (clusterSystem env) (ClusterEntry sha1Id uuid4 M) (fun _ _ _ _ => True)
      (ClusterGranted False) (Duty.Allowed uuid4 False) (Duty.Ends uuid4)
      (fun γ w => Drawn γ w.drawn ∧ Untouched uuid4 w₀ γ w) where
  act := fun γ w i slot d o h hi hallowed _ _ _ =>
    ⟨granted_of_not_calm id o _, h.1.act hi o, h.2.act hids h.1 hi hallowed⟩
  launched := fun o t ht => does_launched ht
  enter := by
    rintro γ w i t ⟨hdrawn, h⟩ hi ht
    have hblocks : t.ghost.jobBlock = none ∧ t.ghost.keyBlock = none := by
      rcases ht with ⟨a, rfl⟩ | ⟨n, agent, jobType, payload, requested, rfl⟩ <;> exact ⟨rfl, rfl⟩
    refine ⟨hdrawn.enter hblocks.1 hblocks.2, fun b hb => h b ?_⟩
    refine hb.imp_right ?_
    rintro ⟨j, d, hd, hb⟩
    refine forall_update (φ := fun _ d => b ∈ d.jobBlock → ∃ j, ∃ d ∈ γ j, b ∈ d.jobBlock)
      (fun hb => ?_) (fun j _ d hd hb => ⟨j, d, hd, hb⟩) j d hd hb
    rw [hblocks.1] at hb
    cases hb
  entered := fun t ht => does_clusterEntry ht

/-- The node that `get_job` at `n` asks for a key. -/
def askedFor (env : ClusterEnv) (sha1Id : String → ℕ) (n : ChordNode M) (key : String)
    (w : Cluster) : Address :=
  let responsible := env.findSuccessor w.steps n.address (sha1Id key)
  if responsible.id = n.nodeId then n.address else responsible.address

/-- Where no request fails, `get_job` answers what the node asked has under the key. -/
theorem exec_getJob (hdelivered : ∀ t a, env.deliver t a = .delivered) (n : ChordNode M)
    (jobId : String) (w : Cluster) :
    (exec (clusterHandle env) (getJob sha1Id n jobId) w).1 = .ok (GetReply.ofValue
      ((w.nodes (askedFor env sha1Id n (jobKey jobId) w)).jobs.get (jobKey jobId))) := by
  unfold getJob getJobTries askedFor
  show (exec (clusterHandle env) (if (env.findSuccessor w.steps n.address _).id = n.nodeId
    then _ else _) w.tick).1 = _
  dsimp only
  split_ifs with hid
  · rfl
  · have hanswer : ∀ (a : Address) (key : String), (clusterHandle env (.getData a key) w.tick).1 =
        some ((w.nodes a).jobs.get key) := fun a key => if_pos (hdelivered _ _)
    refine (congrArg Prod.fst (exec_op (clusterHandle env) _ _ _)).trans ?_
    rw [hanswer]
    rfl

/-- **A submitted job is found by its id only where it was there before.**  In a run of
submissions and workers, at any moment after a submission was answered with a job's id,
`get_job` at any node finds a job of that id exactly when the node that it asks had one under
the key made of the id before the run. -/
theorem getJob_found_iff (hids : DistinctIds uuid4)
    (hdelivered : ∀ t a, env.deliver t a = .delivered)
    {c : Pool ι ClusterOp ClusterOp.Res Exc (Option SubmitReply) Duty Cluster}
    (hrun : Steps (clusterSystem env) (ClusterEntry sha1Id uuid4 M) (fun _ _ _ _ => True)
      (ring w) c) {r : Created} (hreply : c.threads i = some ⟨d, .ret (some (.created r))⟩)
    (y : ChordNode M) :
    (∃ job, (exec (clusterHandle env) (getJob sha1Id y r.jobId) c.world).1 =
        .ok (.found job) ∧ job.jobId = r.jobId) ↔
      ∃ job, (w.nodes (askedFor env sha1Id y (jobKey r.jobId) c.world)).jobs.get
        (jobKey r.jobId) = some job ∧ job.jobId = r.jobId := by
  have hstart : Drawn (ring (ι := ι) w).ghosts w.drawn ∧ Untouched uuid4 w (ring (ι := ι) w).ghosts w :=
    ⟨⟨fun _ _ hd => (by cases hd), fun _ _ hd => (by cases hd), fun _ _ hd => (by cases hd),
      fun _ _ hd => (by cases hd), fun _ _ hd => (by cases hd)⟩, fun _ _ _ _ => rfl⟩
  have hsound := hrun.sound (keeps_untouched hids) ⟨fun _ _ ht => (by cases ht), hstart⟩
  obtain ⟨b, hb, hid⟩ : ∃ b ∈ d.jobBlock, r.jobId = uuid4 b 0 := hsound.threads i _ hreply r rfl
  have hd : d ∈ c.ghosts i := Option.map_eq_some_iff.2 ⟨_, hreply, rfl⟩
  -- the entry under the key has the id that it had before the run
  have hsame : c.world.jobIdAt (askedFor env sha1Id y (jobKey r.jobId) c.world) (jobKey r.jobId) =
      w.jobIdAt (askedFor env sha1Id y (jobKey r.jobId) c.world) (jobKey r.jobId) := by
    rw [hid]
    exact hsound.world.2 b (.inr ⟨i, d, hd, hb⟩) _ 0
  have hiff : ∀ (v : Cluster) (a : Address), (∃ job, (v.nodes a).jobs.get (jobKey r.jobId) = some job ∧
      job.jobId = r.jobId) ↔ v.jobIdAt a (jobKey r.jobId) = some r.jobId := fun v a =>
    Option.map_eq_some_iff.symm
  rw [hiff, ← hsame, ← hiff, exec_getJob hdelivered]
  refine exists_congr fun job => and_congr_left fun _ => ?_
  cases (c.world.nodes (askedFor env sha1Id y (jobKey r.jobId) c.world)).jobs.get
      (jobKey r.jobId) with
  | none =>
    constructor <;> intro h <;> cases h
  | some job' =>
    constructor <;> intro h <;> cases h <;> rfl

end Runs

namespace TwoNodes

/-- The submission comes in and runs to its end. -/
def submitted : List (Event Unit ClusterOp ClusterOp.Res Exc (Option SubmitReply) Duty) :=
  .enter () (submission 1) :: List.replicate 7 (.act () ())

/-- The id that the submission was answered with, and whether `get_job` at `nodeB` answers
that there is no such job. -/
def answered (c : Pool Unit ClusterOp ClusterOp.Res Exc (Option SubmitReply) Duty Cluster) :
    Option (String × Bool) :=
  match c.threads () with
  | some ⟨_, .ret (some (.created r))⟩ =>
    some (r.jobId, match (exec (clusterHandle env) (getJob sha1Id nodeB r.jobId) c.world).1 with
      | .ok .notFound => true
      | _ => false)
  | _ => none

theorem of_answered {c : Pool Unit ClusterOp ClusterOp.Res Exc (Option SubmitReply) Duty Cluster}
    {id : String} (h : answered c = some (id, true)) :
    ∃ d r, c.threads () = some ⟨d, .ret (some (.created r))⟩ ∧ r.jobId = id ∧
      (exec (clusterHandle env) (getJob sha1Id nodeB r.jobId) c.world).1 = .ok .notFound := by
  unfold answered at h
  split at h
  · rename_i d r ht
    obtain ⟨hid, hreply⟩ := Prod.mk.inj (Option.some.inj h)
    refine ⟨d, r, ht, hid, ?_⟩
    split at hreply
    · assumption
    · cases hreply
  · cases h

theorem submitted_answered :
    ∃ c, Steps (clusterSystem env) (ClusterEntry sha1Id uuid4 8) (fun _ _ _ _ => True)
      (ring (ι := Unit) empty) c ∧ answered c = some ("b", true) := by
  have hrun : ((ring empty).steps (clusterSystem env) (fun _ _ _ _ => True) submitted).bind
      answered = some ("b", true) := by decide +kernel
  obtain ⟨c, hc, hanswered⟩ := Option.bind_eq_some_iff.1 hrun
  refine ⟨c, .of_steps (fun i t ht => ?_) hc, hanswered⟩
  obtain rfl : t = submission 1 := by simpa [submitted] using ht
  exact entry_submission 1

end TwoNodes

open TwoNodes in
/-- The hypotheses of `getJob_found_iff` are satisfiable. -/
theorem getJob_found_twoNodes :
    ∃ (c : Pool Unit ClusterOp ClusterOp.Res Exc (Option SubmitReply) Duty Cluster) (r : Created),
      (∃ job, (exec (clusterHandle env) (getJob sha1Id nodeB r.jobId) c.world).1 =
        .ok (.found job) ∧ job.jobId = r.jobId) ↔
      ∃ job, (empty.nodes (askedFor env sha1Id nodeB (jobKey r.jobId) c.world)).jobs.get
        (jobKey r.jobId) = some job ∧ job.jobId = r.jobId := by
  obtain ⟨c, hrun, hanswered⟩ := submitted_answered
  obtain ⟨d, r, hreply, -, -⟩ := of_answered hanswered
  exact ⟨c, r, getJob_found_iff distinctIds (fun _ _ => rfl) hrun hreply nodeB⟩

open TwoNodes in
/-- **A job that was just submitted is not found.**  It is answered with the id `b` and stored
under another key. -/
theorem submitted_notFound :
    DistinctIds uuid4 ∧ (∀ t a, env.deliver t a = .delivered) ∧
    ∃ (c : Pool Unit ClusterOp ClusterOp.Res Exc (Option SubmitReply) Duty Cluster) (d : Duty)
      (r : Created), Steps (clusterSystem env) (ClusterEntry sha1Id uuid4 8) (fun _ _ _ _ => True)
        (ring empty) c ∧ c.threads () = some ⟨d, .ret (some (.created r))⟩ ∧
        (exec (clusterHandle env) (getJob sha1Id nodeB r.jobId) c.world).1 = .ok .notFound := by
  obtain ⟨c, hrun, hanswered⟩ := submitted_answered
  obtain ⟨d, r, hreply, -, hnone⟩ := of_answered hanswered
  exact ⟨distinctIds, fun _ _ => rfl, c, d, r, hrun, hreply, hnone⟩

end Jobs
end ChordInfra
