/-
# How often a submitted job is executed

Nothing in the worker looks at `replica_of`: a copy of a job that a submission stores for a
replica is as pending as the job itself, and the worker of its node claims and runs it
(`replica_executed`).  Where every submission stores a single copy, no execution raises,
no running job is timed out and no write is received without being answered, every
submitted job is executed at most once over all nodes (`executed_le_one`): its id is under
one key of one node (`CopyAt`), and there it is started at most once more than it is
retried.
-/

import ChordInfra.Jobs.Submissions

namespace ChordInfra
namespace Jobs

open Interact Prog
open Storage (Json Address Delivery Exc)
open ChordInfra.Ring (NodeRef ChordNode)

/-! ### Runs without failures -/

section Conditions

variable {ι : Type}

/-- No execution raises, no running job is timed out, and no write arrives whose answer is
lost. -/
def FailureFree (env : ClusterEnv) : Cond ι ClusterOp Duty Cluster := fun _ w _ o =>
  match o with
  | .worker a (.execute key) => (env.execute a (w.nodes a).steps key).isOk = true
  | .worker a .reap =>
    ∀ e ∈ (w.nodes a).jobs.entries, ¬e.2.TimedOut (env.now a (w.nodes a).steps)
  | .postData a _ _ => env.deliver w.steps a ≠ .replyLost
  | _ => True

/-- The plan that a submission is answered with names no node besides the primary. -/
def SingleCopy (env : ClusterEnv) : Cond ι ClusterOp Duty Cluster := fun _ w _ o =>
  match o with
  | .decideReplication job metrics requested =>
    ∀ rid ∈ (env.decideReplication w.steps job metrics requested).replicaNodeIds,
      rid = (env.decideReplication w.steps job metrics requested).primaryNodeId
  | _ => True

instance (env : ClusterEnv) (γ : ι → Option Duty) (w : Cluster) (i : ι) :
    (o : ClusterOp) → Decidable (FailureFree env γ w i o)
  | .worker a (.execute key) =>
    inferInstanceAs (Decidable ((env.execute a (w.nodes a).steps key).isOk = true))
  | .worker a .reap => inferInstanceAs (Decidable (∀ e ∈ (w.nodes a).jobs.entries,
      ¬e.2.TimedOut (env.now a (w.nodes a).steps)))
  | .postData a _ _ => inferInstanceAs (Decidable (env.deliver w.steps a ≠ .replyLost))
  | .worker _ (.scan) | .worker _ (.tryClaim _) | .worker _ (.submit _) | .worker _ (.start _)
  | .worker _ (.finish ..) | .worker _ (.countCompleted _) | .worker _ (.retryCount _)
  | .worker _ (.requeue ..) | .worker _ (.giveUp ..) | .worker _ (.countFailed _)
  | .draw | .now | .metrics _ | .getMetrics _ | .findSuccessor .. | .selectPlacement ..
  | .decideReplication .. | .put .. | .get .. | .getData .. | .promote _
  | .orphaned .. => isTrue trivial

instance (env : ClusterEnv) (γ : ι → Option Duty) (w : Cluster) (i : ι) :
    (o : ClusterOp) → Decidable (SingleCopy env γ w i o)
  | .decideReplication job metrics requested =>
    inferInstanceAs (Decidable (∀ rid ∈ (env.decideReplication w.steps job metrics
      requested).replicaNodeIds, rid = _))
  | .worker .. | .draw | .now | .metrics _ | .getMetrics _ | .findSuccessor ..
  | .selectPlacement .. | .put .. | .get .. | .postData .. | .getData .. | .promote _
  | .orphaned .. => isTrue trivial

end Conditions

section Runs

variable {M : ℕ} {sha1Id : String → ℕ} {uuid4 : ℕ → ℕ → String} {ι : Type} [DecidableEq ι]
  {env : ClusterEnv} {γ : ι → Option Duty} {w : Cluster} {i slot : ι} {d : Duty} {a : Address}
  {key : String} {n : ℕ}

omit [DecidableEq ι] in
theorem granted_calm {o : ClusterOp} (hfree : FailureFree env γ w i o)
    (hsingle : SingleCopy env γ w i o) : ClusterGranted True o (clusterHandle env o w).1 := by
  cases o with
  | worker a o =>
    cases o with
    | execute key =>
      intro _
      have hok : (env.execute a (w.nodes a).steps key).isOk = true := hfree
      show ∃ x, env.execute a (w.nodes a).steps key = .ok x
      cases hx : env.execute a (w.nodes a).steps key with
      | ok x => exact ⟨x, rfl⟩
      | error e =>
        rw [hx] at hok
        cases hok
    | _ => trivial
  | decideReplication job metrics requested => exact fun _ => hsingle
  | _ => trivial

omit [DecidableEq ι] in
/-- A copy that is stored is answered, so its key is used. -/
theorem note_stored {s : Submission} {o : ClusterOp} {b : Address} {job : Job}
    (hfree : FailureFree env γ w i o)
    (ho : o = .put b key job ∨ o = .postData b key job ∧ env.deliver w.steps b ≠ .lost) :
    (Duty.submission s).note o (clusterHandle env o w).1 = .submission s.store := by
  rcases ho with rfl | ⟨rfl, hlost⟩
  · rfl
  · have hdelivered : env.deliver w.steps b = .delivered := by
      have hanswered : env.deliver w.steps b ≠ .replyLost := hfree
      cases hd : env.deliver w.steps b with
      | delivered => rfl
      | lost => exact absurd hd hlost
      | replyLost => exact absurd hd hanswered
    show Duty.submission (s.posted (decide (env.deliver w.steps b = .delivered))) = _
    rw [hdelivered]
    rfl

/-! ### The threads of one node -/

/-- The roles of the threads in the worker of the node at `a`. -/
def rolesAt (a : Address) (γ : ι → Option Duty) (i : ι) : Option Role := (γ i).map (Duty.roleAt a)

omit [DecidableEq ι] in
/-- What threads and a world say of a job. -/
theorem At.congr {I : (ι → Option Phase) → View → Prop} {ρ ρ' : ι → Option Role} {v v' : World}
    (h : At I key ρ v) (hphases : phases key ρ' = phases key ρ) (hview : v'.view key = v.view key) :
    At I key ρ' v' := by
  obtain ⟨x, hx, hI⟩ := h
  exact ⟨x, hview.trans hx, hphases ▸ hI⟩

/-- An operation of a thread that is none of the node's worker says nothing of its jobs. -/
theorem phases_place (hi : γ i = some d) {d' : Duty} (hd' : d'.roleAt a = d.roleAt a)
    {t : Option Duty} (ht : ∀ d'' ∈ t, γ slot = none ∧ d''.roleAt a = none) :
    phases key (rolesAt a (Pool.place (Function.update γ i (some d')) slot t)) =
      phases key (rolesAt a γ) := by
  have hupdate : ∀ j, ((Function.update γ i (some d') j).map (Duty.roleAt a)) =
      (γ j).map (Duty.roleAt a) := by
    intro j
    by_cases hj : j = i
    · subst hj
      rw [Function.update_self, hi, Option.map_some, Option.map_some, hd']
    · rw [Function.update_of_ne hj]
  funext j
  cases t with
  | none => exact congrArg (fun x => x.bind (Role.phase key)) (hupdate j)
  | some d'' =>
    obtain ⟨hslot, hrole⟩ := ht d'' rfl
    by_cases hj : j = slot
    · subst hj
      show ((Function.update (Function.update γ i (some d')) j (some d'') j).map _).bind _ =
        ((γ j).map _).bind _
      rw [Function.update_self, hslot, Option.map_some, hrole]
      rfl
    · show ((Function.update (Function.update γ i (some d')) slot (some d'') j).map _).bind _ = _
      rw [Function.update_of_ne hj]
      exact congrArg (fun x => x.bind (Role.phase key)) (hupdate j)

/-- The roles of the node's threads after an operation of its worker. -/
theorem rolesAt_worker (a : Address) (role : Role) (o : Op) (slot : ι) :
    rolesAt a (Pool.place (Function.update γ i (some (.worker a role))) slot
        (((clusterSystem env).launch (.worker a o)).map Thread.ghost)) =
      Pool.place (Function.update (rolesAt a γ) i (some role)) slot
        (((system (env.worker a)).launch o).map Thread.ghost) := by
  have hlaunch : (((clusterSystem env).launch (.worker a o)).map Thread.ghost).map (Duty.roleAt a) =
      ((system (env.worker a)).launch o).map Thread.ghost := by
    cases o with
    | submit key => exact congrArg some (if_pos rfl)
    | _ => rfl
  have hrole : (Duty.worker a role).roleAt a = role := if_pos rfl
  refine (Pool.map_place (Duty.roleAt a) _ slot _).trans ?_
  rw [hlaunch]
  refine congrArg (fun f => Pool.place f slot _) ((Pool.map_update (Duty.roleAt a) γ i _).trans ?_)
  rw [hrole]
  rfl

/-! ### Fresh keys, and jobs in hand -/

/-- No node has an entry under a key of a block that is not drawn yet or is held for a key,
and none ran a job of such a key. -/
def FreshKeys (uuid4 : ℕ → ℕ → String) (γ : ι → Option Duty) (w : Cluster) : Prop :=
  ∀ b, (w.drawn ≤ b ∨ ∃ i, ∃ d ∈ γ i, b ∈ d.keyBlock) → ∀ a i,
    w.jobIdAt a (jobKey (uuid4 b i)) = none ∧ jobKey (uuid4 b i) ∉ (w.nodes a).started

/-- A job that a thread has in hand is there. -/
def InHand (γ : ι → Option Duty) (w : Cluster) : Prop :=
  ∀ i, ∀ d ∈ γ i, ∀ a key p, d.roleAt a = some (key, p) → w.jobIdAt a key ≠ none

/-- A thread has a job in hand after an operation that it had before, or has just claimed. -/
theorem note_inHand {g : Role} {o : Op} (env : Env) (w : World) (hallowed : g.Allowed o)
    (hin : ∀ q, g = some (key, q) → (w.jobs.get key).map Job.jobId ≠ none) {p : Phase}
    (hrole : g.note o (handle env o w).1 = some (key, p)) :
    (w.jobs.get key).map Job.jobId ≠ none := by
  cases o with
  | tryClaim key' =>
    obtain rfl : g = none := hallowed
    rw [handle_tryClaim] at hrole
    rcases w.tryClaim_eq key' env.address (env.now w.steps) with hr | ⟨j, hj, hpending, hr⟩
    · rw [hr] at hrole
      cases hrole
    · rw [hr] at hrole
      cases hrole
      rw [hj]
      exact Option.some_ne_none _
  | submit key' => cases hrole
  | start key' =>
    cases hrole
    exact hin _ hallowed
  | retryCount key' =>
    cases hrole
    exact hin _ hallowed
  | finish key' result =>
    cases hrole
    exact hin _ hallowed
  | giveUp key' e =>
    cases hrole
    obtain ⟨m, hg⟩ := hallowed
    exact hin _ hg
  | requeue key' m e => cases hrole
  | countCompleted key' => cases hrole
  | countFailed key' => cases hrole
  | scan => exact hin _ hrole
  | reap => exact hin _ hrole
  | execute key' => exact hin _ hrole

/-- No entry goes. -/
theorem jobIdAt_persists {o : ClusterOp} {calm : Prop} (hallowed : d.Allowed uuid4 calm o)
    (h : w.jobIdAt a key ≠ none) : (clusterHandle env o w).2.jobIdAt a key ≠ none := by
  rcases jobIdAt_handle env w hallowed with hsame | ⟨s, b, key', job, -, -, -, hstore⟩
  · rw [hsame]
    exact h
  · rw [hstore]
    show (w.store b key' job).jobIdAt a key ≠ none
    rw [Cluster.jobIdAt_store]
    split_ifs
    · exact Option.some_ne_none _
    · exact h

/-- **An operation keeps the jobs in hand.** -/
theorem InHand.act {calm : Prop} (h : InHand γ w) (hi : γ i = some d) {o : ClusterOp}
    (hallowed : d.Allowed uuid4 calm o) :
    InHand (Pool.place (Function.update γ i (some (d.note o (clusterHandle env o w).1))) slot
      (((clusterSystem env).launch o).map Thread.ghost)) (clusterHandle env o w).2 := by
  have hold : ∀ j, ∀ d ∈ γ j, ∀ a key p, d.roleAt a = some (key, p) →
      (clusterHandle env o w).2.jobIdAt a key ≠ none := fun j d hd a key p hrole =>
    jobIdAt_persists hallowed (h j d hd a key p hrole)
  have hupdate : ∀ j, ∀ d' ∈ Function.update γ i (some (d.note o (clusterHandle env o w).1)) j,
      ∀ a key p, d'.roleAt a = some (key, p) → (clusterHandle env o w).2.jobIdAt a key ≠ none := by
    refine forall_update (fun a key p hrole => ?_) fun j _ => hold j
    cases d with
    | submission s => cases o <;> cases hrole
    | worker b role =>
      cases o with
      | worker b' o =>
        obtain ⟨rfl, hrole', hcalm⟩ := hallowed
        by_cases hb : b' = a
        · subst hb
          have hallowed' : Duty.Allowed uuid4 calm (.worker b' role) (.worker b' o) :=
            ⟨rfl, hrole', hcalm⟩
          refine jobIdAt_persists hallowed' ?_
          refine note_inHand (env.worker b') (w.nodes b') hrole' (fun q hq => ?_)
            ((if_pos rfl).symm.trans hrole)
          exact h i _ hi b' key q ((if_pos rfl).trans hq)
        · have hnone : Duty.roleAt a (.worker b' (role.note o
              (handle (env.worker b') o (w.nodes b')).1)) = none := if_neg hb
          cases hnone.symm.trans hrole
      | _ => exact hallowed.elim
  cases hl : (clusterSystem env).launch o with
  | none => exact hupdate
  | some t =>
    obtain ⟨b, key', rfl, hghost⟩ := launch_worker hl
    refine forall_update (fun a key p hrole => ?_) fun j _ => hupdate j
    rw [hghost] at hrole
    have hba : b = a := by
      by_contra hb
      cases (if_neg hb).symm.trans hrole
    subst hba
    obtain ⟨rfl, -⟩ := Prod.mk.inj (Option.some.inj ((if_pos rfl).symm.trans hrole))
    cases d with
    | submission s => exact hallowed.elim
    | worker b' role =>
      obtain ⟨rfl, hrole', -⟩ := hallowed
      exact hold i _ hi b key' .claimed ((if_pos rfl).trans hrole')

@[simp] theorem Cluster.started_store {b : Address} {job : Job} :
    ((w.store a key job).nodes b).started = (w.nodes b).started := by
  unfold store setJobs
  by_cases hb : b = a
  · subst hb
    simp
  · simp [hb]

@[simp] theorem Cluster.counted_store {b : Address} {job : Job} :
    ((w.store a key job).nodes b).counted = (w.nodes b).counted := by
  unfold store setJobs
  by_cases hb : b = a
  · subst hb
    simp
  · simp [hb]

/-- A worker starts the job that it has in hand. -/
theorem started_handle (env : Env) (o : Op) (w : World) :
    (handle env o w).2.started = w.started ∨
      ∃ key, o = .start key ∧ (handle env o w).2.started = key :: w.started := by
  have hchange : ∀ (key : String) (f : Job → Job), (w.change key f).tick.started = w.started :=
    fun key f => World.started_change f
  cases o with
  | start key => exact .inr ⟨key, rfl, rfl⟩
  | finish key result => exact .inl (hchange key _)
  | requeue key m e => exact .inl (hchange key _)
  | giveUp key e => exact .inl (hchange key _)
  | tryClaim key =>
    left
    rw [handle_tryClaim]
    rcases w.tryClaim_eq key env.address (env.now w.steps) with hr | ⟨j, hj, hpending, hr⟩
    · rw [hr]
      rfl
    · rw [hr]
      exact hchange key _
  | _ => exact .inl rfl

omit [DecidableEq ι] in
/-- No thread starts a job under a key that has no entry. -/
theorem not_mem_started {o : ClusterOp} {calm : Prop} (hin : InHand γ w) (hi : γ i = some d)
    (hallowed : d.Allowed uuid4 calm o) (hnone : w.jobIdAt a key = none)
    (h : key ∉ (w.nodes a).started) : key ∉ ((clusterHandle env o w).2.nodes a).started := by
  cases o with
  | worker b o =>
    by_cases hb : a = b
    · subst hb
      rw [Cluster.nodes_worker_self]
      rcases started_handle (env.worker a) o (w.nodes a) with hsame | ⟨key', rfl, hstart⟩
      · rw [hsame]
        exact h
      · rw [hstart, List.mem_cons, not_or]
        refine ⟨fun he => ?_, h⟩
        subst he
        cases d with
        | submission s => exact hallowed.elim
        | worker b' role =>
          obtain ⟨rfl, hrole, -⟩ := hallowed
          exact hin i _ hi a key .queued ((if_pos rfl).trans hrole) hnone
    · rw [Cluster.nodes_worker_ne env o w hb]
      exact h
  | put b key' job =>
    show key ∉ ((w.store b key' job).nodes a).started
    rw [Cluster.started_store]
    exact h
  | postData b key' job =>
    show key ∉ ((Cluster.tick (if _ then w else _)).nodes a).started
    split_ifs
    · exact h
    · show key ∉ ((w.store b key' job).nodes a).started
      rw [Cluster.started_store]
      exact h
  | promote b =>
    cases d with
    | worker => exact hallowed.elim
    | submission s => exact hallowed.elim
  | _ => exact h

/-- **An operation keeps the fresh keys.** -/
theorem FreshKeys.act {calm : Prop} (hids : DistinctIds uuid4) (hdrawn : Drawn γ w.drawn)
    (hin : InHand γ w) (h : FreshKeys uuid4 γ w) (hi : γ i = some d) {o : ClusterOp}
    (hallowed : d.Allowed uuid4 calm o) (hfree : FailureFree env γ w i o) :
    FreshKeys uuid4 (Pool.place (Function.update γ i (some (d.note o (clusterHandle env o w).1)))
      slot (((clusterSystem env).launch o).map Thread.ghost)) (clusterHandle env o w).2 := by
  intro b hb a k
  obtain ⟨hnone, hstarted⟩ :=
    h b (held_or_new hi (fun _ _ => rfl) (d.note_keyBlock o w b) hb) a k
  refine ⟨?_, not_mem_started hin hi hallowed hnone hstarted⟩
  rcases jobIdAt_handle env w hallowed with
    hsame | ⟨s, a', key, job, rfl, ⟨n, m, k', -, hm, rfl, -⟩, ho, hstore⟩
  · rw [hsame]
    exact hnone
  -- the block that the submission has used is no longer held
  have hne : b ≠ m := by
    rintro rfl
    rcases hb with hb | ⟨j, d', hd', hb⟩
    · exact absurd (hdrawn.key_lt i _ hi b hm) (Nat.not_lt.2 ((drawn_le_handle o w).trans hb))
    · have hunused : ∀ j, ∀ d' ∈ Function.update γ i (some (Duty.submission s.store)) j,
          b ∉ d'.keyBlock :=
        forall_update (fun hb => by cases hb) fun j hj d' hd' hb =>
          hj (hdrawn.key_inj j d' hd' i _ hi b hb hm)
      have hlaunch : (clusterSystem env).launch o = none := by
        rcases ho with rfl | ⟨rfl, -⟩ <;> rfl
      rw [note_stored hfree ho, hlaunch] at hd'
      exact hunused j d' hd' hb
  rw [hstore]
  show (w.store a' _ job).jobIdAt a _ = none
  rw [Cluster.jobIdAt_store, if_neg fun he => hne (hids _ _ _ _ (jobKey_inj.1 he.2)).1]
  exact hnone

/-! ### The copy of a job -/

/-- The submission has stored its job. -/
def Duty.Stored : Duty → Prop
  | submission s => s.stored = true
  | worker .. => True

/-- The job with the first id of block `n` is under one key of one node, was not retried,
and was executed as often as it was started there. -/
structure CopyAt (uuid4 : ℕ → ℕ → String) (n : ℕ) (a : Address) (key : String)
    (γ : ι → Option Duty) (w : Cluster) : Prop where
  unique : ∀ b key', w.jobIdAt b key' = some (uuid4 n 0) ↔ b = a ∧ key' = key
  bounded : At (Bounded 0) key (rolesAt a γ) (w.nodes a)
  retries : ((w.nodes a).jobs.get key).map Job.retryCount = some 0
  executed : w.executed.count (uuid4 n 0) = (w.nodes a).started.count key
  stored : ∀ i, ∀ d ∈ γ i, n ∈ d.jobBlock → d.Stored
  drawn : n < w.drawn

namespace CopyAt

omit [DecidableEq ι] in
/-- The copy is under the id of its block. -/
theorem id_eq (h : CopyAt uuid4 n a key γ w) : w.jobIdAt a key = some (uuid4 n 0) :=
  (h.unique a key).2 ⟨rfl, rfl⟩

/-- A duty after an operation has stored the job still. -/
theorem stored_note (h : CopyAt uuid4 n a key γ w) (hi : γ i = some d) {o : ClusterOp}
    {t : Option Duty} (ht : ∀ d ∈ t, d.jobBlock = none) :
    ∀ j, ∀ d' ∈ Pool.place (Function.update γ i (some (d.note o (clusterHandle env o w).1))) slot t j,
      n ∈ d'.jobBlock → d'.Stored := by
  have hupdate : ∀ j, ∀ d' ∈ Function.update γ i (some (d.note o (clusterHandle env o w).1)) j,
      n ∈ d'.jobBlock → d'.Stored := by
    refine forall_update (fun hn => ?_) fun j _ => h.stored j
    rcases d.note_jobBlock o w n hn with hnew | hn
    · exact absurd h.drawn (Nat.not_lt.2 hnew)
    · have hstored : d.Stored := h.stored i d hi hn
      cases d with
      | worker b role => cases o <;> trivial
      | submission s =>
        cases o with
        | draw =>
          obtain ⟨job, stored, key⟩ := s
          cases job <;> exact hstored
        | put b key job => exact rfl
        | postData b key job => exact Submission.posted_stored hstored _
        | _ => exact hstored
  cases t with
  | none => exact hupdate
  | some d' =>
    refine forall_update (fun hn => ?_) fun j _ => hupdate j
    rw [ht d' rfl] at hn
    cases hn

omit [DecidableEq ι] in
/-- What the operations of a worker leave of the number of executions. -/
theorem executed_worker (h : CopyAt uuid4 n a key γ w) (hin : InHand γ w) {b : Address}
    {role : Role} (hi : γ i = some (.worker b role)) {o : Op} (hrole : role.Allowed o) :
    (clusterHandle env (.worker b o) w).2.executed.count (uuid4 n 0) =
      ((clusterHandle env (.worker b o) w).2.nodes a).started.count key := by
  rcases started_handle (env.worker b) o (w.nodes b) with hsame | ⟨key', rfl, hstart⟩
  · have hexecuted : (clusterHandle env (.worker b o) w).2.executed = w.executed := by
      cases o with
      | start key' =>
        have hlength := congrArg List.length hsame
        change (w.nodes b).started.length + 1 = (w.nodes b).started.length at hlength
        omega
      | _ => rfl
    rw [hexecuted, h.executed]
    by_cases hb : a = b
    · subst hb
      rw [Cluster.nodes_worker_self, hsame]
    · rw [Cluster.nodes_worker_ne env o w hb]
  · -- the job that is started is there
    have hsome : w.jobIdAt b key' ≠ none := hin i _ hi b key' .queued ((if_pos rfl).trans hrole)
    obtain ⟨job, hjob⟩ : ∃ job, (w.nodes b).jobs.get key' = some job := by
      cases hget : (w.nodes b).jobs.get key' with
      | none => exact absurd (congrArg (Option.map Job.jobId) hget) hsome
      | some job => exact ⟨job, rfl⟩
    have hexecuted : (clusterHandle env (.worker b (.start key')) w).2.executed =
        job.jobId :: w.executed := by
      show Cluster.began w b (.start key') = _
      simp only [Cluster.began, hjob]
    have hid : w.jobIdAt b key' = some job.jobId := congrArg (Option.map Job.jobId) hjob
    rw [hexecuted]
    by_cases hat : b = a ∧ key' = key
    · obtain ⟨rfl, rfl⟩ := hat
      have heq : job.jobId = uuid4 n 0 := Option.some.inj (hid.symm.trans h.id_eq)
      rw [Cluster.nodes_worker_self, hstart, heq, List.count_cons_self, List.count_cons_self,
        h.executed]
    · have hne : job.jobId ≠ uuid4 n 0 := fun he => hat ((h.unique b key').1 (he ▸ hid))
      rw [List.count_cons_of_ne hne, h.executed]
      by_cases hb : a = b
      · subst hb
        rw [Cluster.nodes_worker_self, hstart, List.count_cons_of_ne fun he => hat ⟨rfl, he⟩]
      · rw [Cluster.nodes_worker_ne env _ w hb]

/-- **An operation of a worker** keeps the copy: the moves of its job are those of one node. -/
theorem worker (h : CopyAt uuid4 n a key γ w) (hin : InHand γ w) {b : Address} {role : Role}
    (hi : γ i = some (.worker b role)) {o : Op} (hrole : role.Allowed o) (hcalm : o.Calm)
    (hfree : FailureFree env γ w i (.worker b o))
    (hslot : ∀ t, (clusterSystem env).launch (.worker b o) = some t → γ slot = none) :
    CopyAt uuid4 n a key (Pool.place (Function.update γ i (some (Duty.note (.worker b role)
      (.worker b o) (clusterHandle env (.worker b o) w).1))) slot
        (((clusterSystem env).launch (.worker b o)).map Thread.ghost))
      (clusterHandle env (.worker b o) w).2 := by
  have hnone : o = .reap → ∀ key, ∀ j ∈ (w.nodes b).jobs.get key,
      ¬j.TimedOut (env.now b (w.nodes b).steps) := by
    rintro rfl key j hj
    exact hfree (key, j) ((Dict.mem_entries_iff _).2 hj)
  refine ⟨fun c key' => ?_, ?_, ?_, h.executed_worker hin hi hrole, ?_, h.drawn⟩
  · rw [Cluster.jobIdAt_worker]
    exact h.unique c key'
  · by_cases hb : b = a
    · subst hb
      suffices hat : At (Bounded 0) key (Pool.place (Function.update (rolesAt b γ) i
          (some (role.note o (handle (env.worker b) o (w.nodes b)).1))) slot
            (((system (env.worker b)).launch o).map Thread.ghost))
          (handle (env.worker b) o (w.nodes b)).2 by
        rw [Cluster.nodes_worker_self]
        exact (rolesAt_worker b _ o slot).symm ▸ hat
      refine h.bounded.act (stable_bounded 0) ?_ hrole ?_ ?_
      · exact (congrArg (Option.map (Duty.roleAt b)) hi).trans (congrArg some (if_pos rfl))
      · cases o with
        | reap => exact fun j hj hout => absurd hout (hnone rfl key j hj)
        | _ => trivial
      · intro t ht
        cases o with
        | submit key' => exact congrArg (Option.map (Duty.roleAt b)) (hslot _ rfl)
        | _ => cases ht
    · refine h.bounded.congr (phases_place hi ?_ fun d' hd' => ?_) ?_
      · exact (if_neg hb).trans (if_neg hb).symm
      · obtain ⟨t, ht, rfl⟩ := Option.map_eq_some_iff.1 hd'
        obtain ⟨b', key', ho, hghost⟩ := launch_worker ht
        cases ho
        exact ⟨hslot t ht, hghost ▸ if_neg hb⟩
      · rw [Cluster.nodes_worker_ne env o w (Ne.symm hb)]
  · by_cases hb : b = a
    · subst hb
      rw [Cluster.nodes_worker_self, ← h.retries]
      refine map_get_handle (env.worker b) o (w.nodes b) (fun _ _ _ => rfl) (fun _ => rfl)
        (fun _ _ _ => rfl) (fun _ _ _ ho => ?_) (fun _ _ _ _ _ => rfl) (fun ho key' j hj => ?_) key
      · rw [ho] at hcalm
        exact hcalm.elim
      · have hreap : j.reap (env.now b (w.nodes b).steps) = j := if_neg (hnone ho key' j hj)
        exact congrArg Job.retryCount hreap
    · rw [Cluster.nodes_worker_ne env o w (Ne.symm hb)]
      exact h.retries
  · refine h.stored_note hi fun d' hd' => ?_
    obtain ⟨t, ht, rfl⟩ := Option.map_eq_some_iff.1 hd'
    obtain ⟨b', key', -, hghost⟩ := launch_worker ht
    rw [hghost]
    rfl

/-- A submission does something that is none of the jobs' business. -/
theorem aside (h : CopyAt uuid4 n a key γ w) {s : Submission} (hi : γ i = some (.submission s))
    {o : ClusterOp} (hlaunch : (clusterSystem env).launch o = none)
    (hnodes : (clusterHandle env o w).2.nodes = w.nodes)
    (hexecuted : (clusterHandle env o w).2.executed = w.executed) :
    CopyAt uuid4 n a key (Pool.place (Function.update γ i
      (some ((Duty.submission s).note o (clusterHandle env o w).1))) slot
        (((clusterSystem env).launch o).map Thread.ghost)) (clusterHandle env o w).2 := by
  rw [hlaunch]
  refine ⟨fun b key' => ?_, h.bounded.congr (phases_place hi ?_ fun d' hd' => ?_) ?_, ?_, ?_,
    h.stored_note hi fun d' hd' => ?_, h.drawn.trans_le (drawn_le_handle o w)⟩
  · rw [Cluster.jobIdAt, hnodes]
    exact h.unique b key'
  · cases o <;> rfl
  · cases hd'
  · rw [hnodes]
  · rw [hnodes]
    exact h.retries
  · rw [hexecuted, hnodes]
    exact h.executed
  · cases hd'

/-- **A submission stores another job**, at a key that no entry has. -/
theorem store (hids : DistinctIds uuid4) (hfresh : FreshKeys uuid4 γ w)
    (h : CopyAt uuid4 n a key γ w) {s : Submission} (hi : γ i = some (.submission s))
    {o : ClusterOp} (hlaunch : (clusterSystem env).launch o = none) {b : Address} {key' : String}
    {job : Job} (hstores : s.Stores uuid4 True key' job)
    (hstore : (clusterHandle env o w).2 = (w.store b key' job).tick) :
    CopyAt uuid4 n a key (Pool.place (Function.update γ i
      (some ((Duty.submission s).note o (clusterHandle env o w).1))) slot
        (((clusterSystem env).launch o).map Thread.ghost)) (clusterHandle env o w).2 := by
  obtain ⟨n', m, k, hn', hm, rfl, hid, -, -, hstored⟩ := hstores
  have hne : n' ≠ n := by
    rintro rfl
    exact Bool.noConfusion ((hstored trivial).symm.trans (h.stored i _ hi hn'))
  have hid' : job.jobId ≠ uuid4 n 0 := fun he => hne (hids _ _ _ _ (hid.symm.trans he)).1
  have hnone : w.jobIdAt b (jobKey (uuid4 m k)) = none :=
    (hfresh m (.inr ⟨i, _, hi, hm⟩) b k).1
  have haway : ¬(a = b ∧ key = jobKey (uuid4 m k)) := by
    rintro ⟨rfl, rfl⟩
    cases hnone.symm.trans h.id_eq
  have hget : ((w.store b (jobKey (uuid4 m k)) job).nodes a).jobs.get key =
      (w.nodes a).jobs.get key := by
    rw [Cluster.get_store, if_neg haway]
  rw [hlaunch, hstore]
  refine ⟨fun c key'' => ?_, h.bounded.congr (phases_place hi ?_ fun d' hd' => ?_) ?_, ?_, ?_,
    h.stored_note hi fun d' hd' => ?_, h.drawn⟩
  · show (w.store b _ job).jobIdAt c key'' = _ ↔ _
    rw [Cluster.jobIdAt_store]
    split_ifs with hat
    · obtain ⟨rfl, rfl⟩ := hat
      refine ⟨fun he => absurd (Option.some.inj he) hid', ?_⟩
      rintro ⟨rfl, rfl⟩
      exact absurd ⟨rfl, rfl⟩ haway
    · exact h.unique c key''
  · cases o <;> rfl
  · cases hd'
  · show World.view key ((w.store b _ job).nodes a) = _
    rw [World.view, hget, Cluster.started_store, Cluster.counted_store]
    rfl
  · exact (congrArg (Option.map Job.retryCount) hget).trans h.retries
  · show w.executed.count _ = ((w.store b _ job).nodes a).started.count key
    rw [Cluster.started_store]
    exact h.executed
  · cases hd'

end CopyAt

/-- The job is not stored yet. -/
structure Unstored (uuid4 : ℕ → ℕ → String) (n : ℕ) (w : Cluster) : Prop where
  absent : ∀ a key, w.jobIdAt a key ≠ some (uuid4 n 0)
  executed : w.executed.count (uuid4 n 0) = 0

namespace Unstored

omit [DecidableEq ι] in
/-- A worker runs other jobs. -/
theorem worker (h : Unstored uuid4 n w) (b : Address) (o : Op) :
    Unstored uuid4 n (clusterHandle env (.worker b o) w).2 := by
  refine ⟨fun a key => ?_, ?_⟩
  · rw [Cluster.jobIdAt_worker]
    exact h.absent a key
  · show (Cluster.began w b o).count (uuid4 n 0) = 0
    cases o with
    | start key =>
      cases hget : (w.nodes b).jobs.get key with
      | none =>
        simp only [Cluster.began, hget]
        exact h.executed
      | some job =>
        have hne : job.jobId ≠ uuid4 n 0 := fun he =>
          h.absent b key ((congrArg (Option.map Job.jobId) hget).trans (congrArg some he))
        simp only [Cluster.began, hget]
        exact (List.count_cons_of_ne hne).trans h.executed
    | _ => exact h.executed

omit [DecidableEq ι] in
/-- A submission does something that is none of the jobs' business. -/
theorem aside (h : Unstored uuid4 n w) {o : ClusterOp}
    (hnodes : (clusterHandle env o w).2.nodes = w.nodes)
    (hexecuted : (clusterHandle env o w).2.executed = w.executed) :
    Unstored uuid4 n (clusterHandle env o w).2 := by
  refine ⟨fun a key => ?_, hexecuted ▸ h.executed⟩
  rw [Cluster.jobIdAt, hnodes]
  exact h.absent a key

/-- **A submission stores a job**: this one, which has its copy then, or another. -/
theorem store (hids : DistinctIds uuid4) (hdrawn : Drawn γ w.drawn) (hfresh : FreshKeys uuid4 γ w)
    (hin : InHand γ w) (h : Unstored uuid4 n w) {s : Submission}
    (hi : γ i = some (.submission s)) {o : ClusterOp}
    (hlaunch : (clusterSystem env).launch o = none) {b : Address} {key' : String} {job : Job}
    (hstores : s.Stores uuid4 True key' job) (hfree : FailureFree env γ w i o)
    (ho : o = .put b key' job ∨ o = .postData b key' job ∧ env.deliver w.steps b ≠ .lost)
    (hstore : (clusterHandle env o w).2 = (w.store b key' job).tick) :
    Unstored uuid4 n (clusterHandle env o w).2 ∨
      CopyAt uuid4 n b key' (Pool.place (Function.update γ i
        (some ((Duty.submission s).note o (clusterHandle env o w).1))) slot
          (((clusterSystem env).launch o).map Thread.ghost)) (clusterHandle env o w).2 := by
  obtain ⟨n', m, k, hn', hm, rfl, hid, hstatus, hretries, -⟩ := hstores
  obtain ⟨hnone, hstarted⟩ := hfresh m (.inr ⟨i, _, hi, hm⟩) b k
  rw [note_stored hfree ho, hlaunch, hstore]
  by_cases hn : n' = n
  · subst hn
    right
    have hget : ((w.store b (jobKey (uuid4 m k)) job).nodes b).jobs.get (jobKey (uuid4 m k)) =
        some job := by
      rw [Cluster.get_store, if_pos ⟨rfl, rfl⟩]
    have hcount : (w.nodes b).started.count (jobKey (uuid4 m k)) = 0 := List.count_eq_zero.2 hstarted
    refine ⟨fun c key'' => ?_, ?_, ?_, ?_, ?_, hdrawn.job_lt i _ hi n' hn'⟩
    · show (w.store b _ job).jobIdAt c key'' = _ ↔ _
      rw [Cluster.jobIdAt_store]
      split_ifs with hat
      · exact ⟨fun _ => hat, fun _ => congrArg some hid⟩
      · exact ⟨fun he => absurd he (h.absent c key''), fun he => absurd he hat⟩
    · -- nobody has the job in hand
      have hview : ((w.store b (jobKey (uuid4 m k)) job).nodes b).view (jobKey (uuid4 m k)) =
          some ⟨.pending, 0, 0, (w.nodes b).counted.count (jobKey (uuid4 m k))⟩ := by
        rw [World.view, hget, Cluster.started_store, Cluster.counted_store, hcount, Option.map_some,
          hstatus, hretries]
      have hnobody : ∀ j, phases (jobKey (uuid4 m k)) (rolesAt b γ) j = none := by
        intro j
        rcases hd : γ j with - | d
        · rw [phases, rolesAt, hd]
          rfl
        · rw [phases, rolesAt, hd]
          show Role.phase _ (d.roleAt b) = none
          rcases hrole : d.roleAt b with - | ⟨key, p⟩
          · rfl
          · refine if_neg fun he => ?_
            obtain rfl : key = jobKey (uuid4 m k) := he
            exact hin j d hd b _ p hrole hnone
      have hplain : At (Bounded 0) (jobKey (uuid4 m k)) (rolesAt b γ)
          ((w.store b (jobKey (uuid4 m k)) job).nodes b) := by
        refine ⟨_, hview, ⟨fun j _ hj => absurd (hnobody j) hj, fun j q hq => ?_⟩,
          ⟨Nat.zero_le _, by simp⟩, le_rfl⟩
        rw [hnobody j] at hq
        cases hq
      refine hplain.congr (phases_place hi ?_ fun d' hd' => ?_) rfl
      · rfl
      · cases hd'
    · exact (congrArg (Option.map Job.retryCount) hget).trans (congrArg some hretries)
    · show w.executed.count _ = ((w.store b _ job).nodes b).started.count _
      rw [Cluster.started_store, hcount]
      exact h.executed
    · refine forall_update (fun _ => ?_) fun j hj d hd hn => ?_
      · rfl
      · exact absurd (hdrawn.job_inj j d hd i _ hi n' hn hn') hj
  · left
    have hid' : job.jobId ≠ uuid4 n 0 := fun he => hn (hids _ _ _ _ (hid.symm.trans he)).1
    refine ⟨fun a key => ?_, h.executed⟩
    show (w.store b _ job).jobIdAt a key ≠ _
    rw [Cluster.jobIdAt_store]
    split_ifs
    · exact fun he => hid' (Option.some.inj he)
    · exact h.absent a key

end Unstored

/-! ### Runs -/

/-- The job is not stored yet, or has one copy. -/
def Once (uuid4 : ℕ → ℕ → String) (n : ℕ) (γ : ι → Option Duty) (w : Cluster) : Prop :=
  Unstored uuid4 n w ∨ ∃ a key, CopyAt uuid4 n a key γ w

/-- **An operation keeps the job in one copy.** -/
theorem Once.act (hids : DistinctIds uuid4) (hdrawn : Drawn γ w.drawn)
    (hfresh : FreshKeys uuid4 γ w) (hin : InHand γ w) (h : Once uuid4 n γ w) (hi : γ i = some d)
    {o : ClusterOp} (hallowed : d.Allowed uuid4 True o) (hfree : FailureFree env γ w i o)
    (hslot : ∀ t, (clusterSystem env).launch o = some t → γ slot = none) :
    Once uuid4 n (Pool.place (Function.update γ i (some (d.note o (clusterHandle env o w).1))) slot
      (((clusterSystem env).launch o).map Thread.ghost)) (clusterHandle env o w).2 := by
  rcases handle_cases env w hallowed with ⟨b, role, o', rfl, rfl, hrole, hcalm⟩ |
    ⟨s, rfl, hlaunch, hnodes, hexecuted⟩ | ⟨s, b, key, job, rfl, hlaunch, hstores, ho, hstore⟩
  · rcases h with h | ⟨a, key, h⟩
    · exact .inl (h.worker b o')
    · exact .inr ⟨a, key, h.worker hin hi hrole (hcalm trivial) hfree hslot⟩
  · rcases h with h | ⟨a, key, h⟩
    · exact .inl (h.aside hnodes hexecuted)
    · exact .inr ⟨a, key, h.aside hi hlaunch hnodes hexecuted⟩
  · rcases h with h | ⟨a, key', h⟩
    · exact (h.store hids hdrawn hfresh hin hi hlaunch hstores hfree ho hstore).imp_right
        fun hcopy => ⟨b, key, hcopy⟩
    · exact .inr ⟨a, key', h.store hids hfresh hi hlaunch hstores hstore⟩

/-- A thread that comes in holds no block and no job. -/
theorem clusterEntry_ghost {t : ClusterThread} (ht : ClusterEntry sha1Id uuid4 M t) :
    t.ghost.jobBlock = none ∧ t.ghost.keyBlock = none ∧ ∀ a, t.ghost.roleAt a = none := by
  rcases ht with ⟨a, rfl⟩ | ⟨n, agent, jobType, payload, requested, rfl⟩
  · exact ⟨rfl, rfl, fun b => by simp [Duty.roleAt]⟩
  · exact ⟨rfl, rfl, fun _ => rfl⟩

/-- A thread comes in. -/
theorem Once.enter (h : Once uuid4 n γ w) (hi : γ i = none) {d : Duty} (hjob : d.jobBlock = none)
    (hrole : ∀ a, d.roleAt a = none) : Once uuid4 n (Function.update γ i (some d)) w := by
  rcases h with h | ⟨a, key, h⟩
  · exact .inl h
  refine .inr ⟨a, key, h.unique, h.bounded.congr ?_ rfl, h.retries, h.executed, ?_, h.drawn⟩
  · funext j
    by_cases hj : j = i
    · subst hj
      rw [phases, rolesAt, Function.update_self, phases, rolesAt, hi, Option.map_some, hrole]
      rfl
    · rw [phases, rolesAt, Function.update_of_ne hj]
      rfl
  · refine forall_update (fun hn => ?_) fun j _ => h.stored j
    rw [hjob] at hn
    cases hn

/-- Fresh ids: no node has an entry under a key that may be drawn or ran one, and no job has
an id that may be drawn. -/
structure Fresh (uuid4 : ℕ → ℕ → String) (w : Cluster) : Prop where
  keys : ∀ b a i, w.jobIdAt a (jobKey (uuid4 b i)) = none ∧
    jobKey (uuid4 b i) ∉ (w.nodes a).started
  ids : ∀ b a key, w.jobIdAt a key ≠ some (uuid4 b 0)
  executed : ∀ b, uuid4 b 0 ∉ w.executed

theorem keeps_once (hids : DistinctIds uuid4) :
    Keeps (ι := ι) (clusterSystem env) (ClusterEntry sha1Id uuid4 M)
      (fun γ w i o => FailureFree env γ w i o ∧ SingleCopy env γ w i o)
      (ClusterGranted True) (Duty.Allowed uuid4 True) (Duty.Ends uuid4)
      (fun γ w => Drawn γ w.drawn ∧ FreshKeys uuid4 γ w ∧ InHand γ w ∧ ∀ n, Once uuid4 n γ w) where
  act := by
    rintro γ w i slot d o ⟨hdrawn, hfresh, hin, honce⟩ hi hallowed - ⟨hfree, hsingle⟩ hslot
    have hslot' : ∀ t, (clusterSystem env).launch o = some t → γ slot = none := hslot
    exact ⟨granted_calm hfree hsingle, hdrawn.act hi o, hfresh.act hids hdrawn hin hi hallowed hfree,
      hin.act hi hallowed, fun n => (honce n).act hids hdrawn hfresh hin hi hallowed hfree hslot'⟩
  launched := fun o t ht => does_launched ht
  enter := by
    rintro γ w i t ⟨hdrawn, hfresh, hin, honce⟩ hi ht
    obtain ⟨hjob, hkey, hrole⟩ := clusterEntry_ghost ht
    refine ⟨hdrawn.enter hjob hkey, fun b hb => hfresh b (hb.imp_right ?_), ?_,
      fun n => (honce n).enter hi hjob hrole⟩
    · rintro ⟨j, d, hd, hb⟩
      refine forall_update (φ := fun _ d => b ∈ d.keyBlock → ∃ j, ∃ d ∈ γ j, b ∈ d.keyBlock)
        (fun hb => ?_) (fun j _ d hd hb => ⟨j, d, hd, hb⟩) j d hd hb
      rw [hkey] at hb
      cases hb
    · refine forall_update (fun a key p hp => ?_) fun j _ => hin j
      rw [hrole] at hp
      cases hp
  entered := fun t ht => does_clusterEntry ht

/-- **Every submitted job is executed at most once over all nodes**, in a run without failures
whose plans name no node besides the primary: any number of submissions at any nodes, and
of rounds and executions of the workers of all nodes, in any order. -/
theorem executed_le_one (hids : DistinctIds uuid4) (hfresh : Fresh uuid4 w)
    {c : Pool ι ClusterOp ClusterOp.Res Exc (Option SubmitReply) Duty Cluster}
    (hrun : Steps (clusterSystem env) (ClusterEntry sha1Id uuid4 M)
      (fun γ w i o => FailureFree env γ w i o ∧ SingleCopy env γ w i o) (ring w) c) :
    (∀ n, c.world.executed.count (uuid4 n 0) ≤ 1) ∧
      ∀ i d r, c.threads i = some ⟨d, .ret (some (.created r))⟩ →
        c.world.executed.count r.jobId ≤ 1 := by
  have hstart : Drawn (ring (ι := ι) w).ghosts w.drawn ∧ FreshKeys uuid4 (ring (ι := ι) w).ghosts w ∧
      InHand (ring (ι := ι) w).ghosts w ∧ ∀ n, Once uuid4 n (ring (ι := ι) w).ghosts w :=
    ⟨⟨fun _ _ hd => (by cases hd), fun _ _ hd => (by cases hd), fun _ _ hd => (by cases hd),
      fun _ _ hd => (by cases hd), fun _ _ hd => (by cases hd)⟩, fun b _ => hfresh.keys b,
      fun _ _ hd => (by cases hd),
      fun n => .inl ⟨hfresh.ids n, List.count_eq_zero.2 (hfresh.executed n)⟩⟩
  have hsound := hrun.sound (keeps_once hids) ⟨fun _ _ ht => (by cases ht), hstart⟩
  obtain ⟨-, -, -, honce⟩ := hsound.world
  have hcount : ∀ n, c.world.executed.count (uuid4 n 0) ≤ 1 := by
    intro n
    rcases honce n with h | ⟨a, key, h⟩
    · rw [h.executed]
      exact Nat.zero_le _
    · obtain ⟨v, hv, -, ⟨-, hstarts⟩, -⟩ := h.bounded
      obtain ⟨job, hjob, hretries⟩ := Option.map_eq_some_iff.1 h.retries
      have hview : some v = some ⟨job.status, job.retryCount,
          (c.world.nodes a).started.count key, (c.world.nodes a).counted.count key⟩ := by
        rw [← hv, World.view, hjob]
        rfl
      obtain rfl := Option.some.inj hview
      rw [h.executed]
      simp only [hretries] at hstarts
      omega
  refine ⟨hcount, fun i d r hreply => ?_⟩
  obtain ⟨b, -, hid⟩ : ∃ b ∈ d.jobBlock, r.jobId = uuid4 b 0 := hsound.threads i _ hreply r rfl
  rw [hid]
  exact hcount b

end Runs

namespace TwoNodes

/-- What happens on the two nodes, with threads in `n` slots. -/
abbrev Happening (n : ℕ) := Event (Fin n) ClusterOp ClusterOp.Res Exc (Option SubmitReply) Duty

/-- A round of the worker of a node. -/
def workerRound (a : Address) : ClusterThread :=
  ⟨.worker a none, onNode a round >>= fun _ => pure none⟩

/-- The id that the submission in slot `i` was answered with, and how often its job was
executed. -/
def executions {n : ℕ} (i : Fin n)
    (c : Pool (Fin n) ClusterOp ClusterOp.Res Exc (Option SubmitReply) Duty Cluster) :
    Option (String × ℕ) :=
  match c.threads i with
  | some ⟨_, .ret (some (.created r))⟩ => some (r.jobId, c.world.executed.count r.jobId)
  | _ => none

theorem of_executions {n k : ℕ} {i : Fin n}
    {c : Pool (Fin n) ClusterOp ClusterOp.Res Exc (Option SubmitReply) Duty Cluster} {id : String}
    (h : executions i c = some (id, k)) :
    ∃ d r, c.threads i = some ⟨d, .ret (some (.created r))⟩ ∧
      c.world.executed.count r.jobId = k := by
  unfold executions at h
  split at h
  · rename_i d r ht
    exact ⟨d, r, ht, (Prod.mk.inj (Option.some.inj h)).2⟩
  · cases h

/-- A job is submitted, and the worker of `nodeA` claims it and begins to run it. -/
def oneCopy : List (Happening 3) :=
  .enter 0 (submission 1) :: List.replicate 7 (.act 0 0) ++
    .enter 1 (workerRound "a") :: List.replicate 3 (.act 1 2) ++ [.act 2 2]

/-- A job is submitted with a replica, and the workers of both nodes do so. -/
def twoCopies : List (Happening 5) :=
  .enter 0 (submission 2) :: List.replicate 10 (.act 0 0) ++
    .enter 1 (workerRound "a") :: List.replicate 3 (.act 1 3) ++ .act 3 3 ::
    .enter 2 (workerRound "b") :: List.replicate 3 (.act 2 4) ++ [.act 4 4]

theorem fresh_empty : Fresh uuid4 empty :=
  ⟨fun _ _ _ => ⟨rfl, List.not_mem_nil⟩, fun _ _ _ h => (by cases h), fun _ => List.not_mem_nil⟩

end TwoNodes

open TwoNodes in
/-- The hypotheses of `executed_le_one` are satisfiable, in a run that executes the job. -/
theorem executed_le_one_twoNodes :
    ∃ (c : Pool (Fin 3) ClusterOp ClusterOp.Res Exc (Option SubmitReply) Duty Cluster) (d : Duty)
      (r : Created), c.threads 0 = some ⟨d, .ret (some (.created r))⟩ ∧
        c.world.executed.count r.jobId = 1 ∧ ∀ n, c.world.executed.count (uuid4 n 0) ≤ 1 := by
  have hrun : ((ring empty).steps (clusterSystem env)
      (fun γ w i o => FailureFree env γ w i o ∧ SingleCopy env γ w i o) oneCopy).bind
      (executions 0) = some ("b", 1) := by decide +kernel
  obtain ⟨c, hc, hexecutions⟩ := Option.bind_eq_some_iff.1 hrun
  obtain ⟨d, r, hreply, hcount⟩ := of_executions hexecutions
  have hentry : ∀ i t, .enter i t ∈ oneCopy → ClusterEntry sha1Id uuid4 8 t := by
    intro i t ht
    have ht' : i = 0 ∧ t = submission 1 ∨ i = 1 ∧ t = workerRound "a" := by
      simpa [oneCopy] using ht
    rcases ht' with ⟨-, rfl⟩ | ⟨-, rfl⟩
    · exact entry_submission 1
    · exact .inl ⟨"a", rfl⟩
  exact ⟨c, d, r, hreply, hcount,
    (executed_le_one distinctIds fresh_empty (.of_steps hentry hc)).1⟩

open TwoNodes in
/-- **A replica is executed as well.**  The job that is submitted with one replica is executed
by the workers of both nodes, without any failure. -/
theorem replica_executed :
    DistinctIds uuid4 ∧ Fresh uuid4 empty ∧
    ∃ (c : Pool (Fin 5) ClusterOp ClusterOp.Res Exc (Option SubmitReply) Duty Cluster) (d : Duty)
      (r : Created), Steps (clusterSystem env) (ClusterEntry sha1Id uuid4 8) (FailureFree env)
        (ring empty) c ∧ c.threads 0 = some ⟨d, .ret (some (.created r))⟩ ∧
        c.world.executed.count r.jobId = 2 := by
  have hrun : ((ring empty).steps (clusterSystem env) (FailureFree env) twoCopies).bind
      (executions 0) = some ("b", 2) := by decide +kernel
  obtain ⟨c, hc, hexecutions⟩ := Option.bind_eq_some_iff.1 hrun
  obtain ⟨d, r, hreply, hcount⟩ := of_executions hexecutions
  refine ⟨distinctIds, fresh_empty, c, d, r, .of_steps (fun i t ht => ?_) hc, hreply, hcount⟩
  have ht' : i = 0 ∧ t = submission 2 ∨ i = 1 ∧ t = workerRound "a" ∨
      i = 2 ∧ t = workerRound "b" := by
    simpa [twoCopies] using ht
  rcases ht' with ⟨-, rfl⟩ | ⟨-, rfl⟩ | ⟨-, rfl⟩
  · exact entry_submission 2
  · exact .inl ⟨"a", rfl⟩
  · exact .inl ⟨"b", rfl⟩

end Jobs
end ChordInfra
