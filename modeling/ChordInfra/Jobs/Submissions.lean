/-
# Submissions among the workers of a ring

Submissions at the nodes of a ring, and the rounds and executions of the workers of all of
them, take their turns at single operations (`clusterSystem`).  What a submission does to
the stores is said by the blocks of ids that it has drawn (`Submission`): it stores its job,
under the first id of one block, at keys of other blocks.  No two threads have a block in
common (`Drawn`).
-/

import ChordInfra.Jobs.Cluster
import ChordInfra.Jobs.Runs

namespace ChordInfra
namespace Jobs

open Interact Prog
open Storage (Json Address Delivery Exc)
open ChordInfra.Ring (NodeRef ChordNode)

/-- How far a submission has come: the block of its job's id, whether it has stored a copy,
and a block that is drawn for a key and not used yet. -/
structure Submission where
  job : Option ℕ
  stored : Bool
  key : Option ℕ

namespace Submission

/-- A submission that has not begun. -/
def init : Submission := ⟨none, false, none⟩

/-- The first block is for the id of the job, and every other one for a key. -/
def draw (n : ℕ) (s : Submission) : Submission :=
  match s.job with
  | none => { s with job := some n }
  | some _ => { s with key := some n }

/-- A copy is stored. -/
def store (s : Submission) : Submission := { s with stored := true, key := none }

/-- A try to store a copy is answered, or the next one is for the same key. -/
def posted (s : Submission) : Bool → Submission
  | true => s.store
  | false => s

theorem mem_job_of_posted {s : Submission} {ok : Bool} {b : ℕ} (h : b ∈ (s.posted ok).job) :
    b ∈ s.job := by
  cases ok <;> exact h

theorem posted_stored {s : Submission} (h : s.stored = true) (ok : Bool) :
    (s.posted ok).stored = true := by
  cases ok
  · exact h
  · rfl

theorem mem_key_of_posted {s : Submission} {ok : Bool} {b : ℕ} (h : b ∈ (s.posted ok).key) :
    b ∈ s.key := by
  cases ok
  · exact h
  · cases h

end Submission

/-- What a thread of the ring does: the work of a node's worker, or a submission. -/
inductive Duty
  | worker (a : Address) (role : Role)
  | submission (s : Submission)

namespace Duty

/-- The duty after an operation. -/
def note : Duty → (o : ClusterOp) → o.Res → Duty
  | worker a role, .worker _ o, r => worker a (role.note o r)
  | submission s, .draw, n => submission (s.draw n)
  | submission s, .put .., _ => submission s.store
  | submission s, .postData .., ok => submission (s.posted ok)
  | d, _, _ => d

/-- The block of the job's id. -/
def jobBlock : Duty → Option ℕ
  | submission s => s.job
  | worker .. => none

/-- The block for the next key. -/
def keyBlock : Duty → Option ℕ
  | submission s => s.key
  | worker .. => none

/-- The role in the worker of the node at `a`. -/
def roleAt (a : Address) : Duty → Role
  | worker b role => if b = a then role else none
  | submission _ => none

end Duty

/-- An operation of a worker that no failed execution leads to. -/
def Op.Calm : Op → Prop
  | .retryCount _ | .requeue .. | .giveUp .. | .countFailed _ => False
  | _ => True

/-- The threads of a ring: rounds, executions and submissions. -/
def clusterSystem (env : ClusterEnv) :
    System ClusterOp ClusterOp.Res Exc (Option SubmitReply) Duty Cluster where
  handle := clusterHandle env
  enabled _ _ := true
  note := Duty.note
  launch
    | .worker a (.submit key) =>
      some ⟨.worker a (some (key, .queued)), onNode a (runJob key) >>= fun _ => pure none⟩
    | _ => none

/-- A thread of the ring. -/
abbrev ClusterThread := Thread ClusterOp ClusterOp.Res Exc (Option SubmitReply) Duty

section Programs

variable {M : ℕ} (sha1Id : String → ℕ) (uuid4 : ℕ → ℕ → String)

/-- What may come in: a round of a node's worker, or a submission at a node. -/
def ClusterEntry (M : ℕ) (t : ClusterThread) : Prop :=
  (∃ a, t = ⟨.worker a none, onNode a round >>= fun _ => pure none⟩) ∨
    ∃ (n : ChordNode M) (agent : Bool) (jobType : String) (payload : Json) (requested : ℤ),
      t = ⟨.submission .init, submitJob sha1Id uuid4 n agent jobType payload requested >>=
        fun reply => pure (some reply)⟩

/-! ### What the threads do -/

/-- The answers; `calm` says that no execution raises and that every plan has one copy. -/
def ClusterGranted (calm : Prop) : (o : ClusterOp) → o.Res → Prop
  | .worker _ (.execute _), outcome => calm → ∃ x, outcome = .ok x
  | .decideReplication .., plan => calm → ∀ rid ∈ plan.replicaNodeIds, rid = plan.primaryNodeId
  | _, _ => True

theorem granted_of_not_calm {calm : Prop} (h : ¬calm) (o : ClusterOp) (r : o.Res) :
    ClusterGranted calm o r := by
  cases o with
  | worker a o =>
    cases o with
    | execute key => exact fun hcalm => (h hcalm).elim
    | _ => trivial
  | decideReplication job metrics requested => exact fun hcalm => (h hcalm).elim
  | _ => trivial

/-- What a submission stores: its job, at a key of the block drawn for it; with `calm`, once. -/
def Submission.Stores (calm : Prop) (s : Submission) (key : String) (job : Job) : Prop :=
  ∃ n m i, s.job = some n ∧ s.key = some m ∧ key = jobKey (uuid4 m i) ∧ job.jobId = uuid4 n 0 ∧
    job.status = .pending ∧ job.retryCount = 0 ∧ (calm → s.stored = false)

/-- What a thread does. -/
def Duty.Allowed (calm : Prop) : Duty → ClusterOp → Prop
  | worker a role, .worker b o => b = a ∧ role.Allowed o ∧ (calm → o.Calm)
  | worker .., _ => False
  | submission s, .put _ key job | submission s, .postData _ key job => s.Stores uuid4 calm key job
  | submission _, .worker .. | submission _, .promote _ => False
  | submission _, _ => True

/-- The end of a submission that is answered with a job's id. -/
def Duty.Ends (x : Except Exc (Option SubmitReply)) (d : Duty) : Prop :=
  ∀ c, x = .ok (some (.created c)) → ∃ n ∈ d.jobBlock, c.jobId = uuid4 n 0

end Programs

section Does

variable {M : ℕ} {sha1Id : String → ℕ} {uuid4 : ℕ → ℕ → String} {calm : Prop} {α : Type}

/-- The logic of a thread of the ring. -/
abbrev ClusterDoes (uuid4 : ℕ → ℕ → String) (calm : Prop) (p : ClusterM α)
    (Q : Except Exc α → Duty → Prop) (d : Duty) : Prop :=
  wp Duty.note (ClusterGranted calm) (Duty.Allowed uuid4 calm) p Q d

/-- The logic of a thread of a worker. -/
abbrev DoesCalm (calm : Prop) (p : Jobs.M Unit) (g : Role) : Prop :=
  wp Role.note (fun o r => ClusterGranted calm (.worker "" o) r)
    (fun g o => g.Allowed o ∧ (calm → o.Calm)) p (fun _ _ => True) g

theorem doesCalm_claimAll {p : Jobs.M Unit} (hp : DoesCalm calm p none) (keys : List String) :
    DoesCalm calm (claimAll keys >>= fun _ => p) none := by
  induction keys with
  | nil => exact hp
  | cons key keys ih =>
    refine ⟨⟨rfl, fun _ => trivial⟩, fun claimed _ => ?_⟩
    cases claimed with
    | true => exact ⟨⟨rfl, fun _ => trivial⟩, fun _ _ => ih⟩
    | false => exact ih

theorem doesCalm_round : DoesCalm calm round none :=
  have hreap : DoesCalm calm (act .reap) none := ⟨⟨rfl, fun _ => trivial⟩, fun _ _ => trivial⟩
  ⟨⟨rfl, fun _ => trivial⟩, fun keys _ => doesCalm_claimAll hreap keys⟩

theorem doesCalm_runJob (key : String) : DoesCalm calm (runJob key) (some (key, .queued)) := by
  refine ⟨⟨rfl, fun _ => trivial⟩, fun _ _ => ⟨⟨rfl, fun _ => trivial⟩, fun outcome houtcome => ?_⟩⟩
  cases outcome with
  | ok result =>
    exact ⟨⟨rfl, fun _ => trivial⟩, fun _ _ => ⟨⟨rfl, fun _ => trivial⟩, fun _ _ => trivial⟩⟩
  | error e =>
    have hno : ¬calm := fun hcalm => by
      obtain ⟨x, hx⟩ := houtcome hcalm
      cases hx
    refine ⟨⟨rfl, fun hcalm => (hno hcalm).elim⟩, fun n _ => ?_⟩
    change DoesCalm calm (if n < maxJobRetries then _ else _) (some (key, .read n))
    split_ifs with hn
    · exact ⟨⟨⟨n, rfl, hn, rfl⟩, fun hcalm => (hno hcalm).elim⟩, fun _ _ => trivial⟩
    · exact ⟨⟨⟨n, rfl⟩, fun hcalm => (hno hcalm).elim⟩, fun _ _ =>
        ⟨⟨rfl, fun hcalm => (hno hcalm).elim⟩, fun _ _ => trivial⟩⟩

/-- A worker's thread in the ring. -/
theorem does_onNode (a : Address) {p : Jobs.M Unit} {g : Role} (hp : DoesCalm calm p g) :
    ClusterDoes uuid4 calm (onNode a p >>= fun _ => pure none) (Duty.Ends uuid4) (.worker a g) := by
  induction p generalizing g with
  | ret x => exact fun c hc => by cases hc
  | raise e => exact e.elim
  | op o k ih =>
    refine ⟨⟨rfl, hp.1⟩, fun r hr => ih r (hp.2 r ?_)⟩
    cases o <;> exact hr

/-- What a submission does that stores nothing and draws nothing: it ends with a value in
`φ`. -/
abbrev Quietly (uuid4 : ℕ → ℕ → String) (calm : Prop) (s : Submission) (p : ClusterM α)
    (φ : α → Prop) : Prop :=
  ClusterDoes uuid4 calm p (fun x d => d = .submission s ∧ ∃ a, x = .ok a ∧ φ a) (.submission s)

variable {n : ChordNode M} {s : Submission} {job : Job} {block : ℕ}

/-- The rest of a program after a part that stores nothing. -/
theorem Quietly.bind {β : Type} {p : ClusterM α} {φ : α → Prop} {f : α → ClusterM β}
    {Q : Except Exc β → Duty → Prop} (hp : Quietly uuid4 calm s p φ)
    (hf : ∀ a, φ a → ClusterDoes uuid4 calm (f a) Q (.submission s)) :
    ClusterDoes uuid4 calm (p >>= f) Q (.submission s) := by
  refine wp_bind.2 (wp_mono (fun x d hx => ?_) hp)
  obtain ⟨rfl, a, rfl, ha⟩ := hx
  exact hf a ha

theorem quietly_metricsFrom (seen : List ℕ) (fingers : List NodeRef) :
    Quietly uuid4 calm s (metricsFrom seen fingers) fun _ => True := by
  induction fingers generalizing seen with
  | nil => exact ⟨rfl, _, rfl, trivial⟩
  | cons finger fingers ih =>
    unfold metricsFrom
    split_ifs
    · exact ih seen
    · refine wp_perform_bind.2 ⟨trivial, fun answer _ => ?_⟩
      exact (ih _).bind fun rest _ => ⟨rfl, _, rfl, trivial⟩

theorem quietly_collectRingMetrics (n : ChordNode M) :
    Quietly uuid4 calm s (collectRingMetrics n) fun _ => True :=
  wp_perform_bind.2 ⟨trivial, fun _ _ => (quietly_metricsFrom _ _).bind fun _ _ =>
    ⟨rfl, _, rfl, trivial⟩⟩

theorem quietly_addressFor (n : ChordNode M) (target : ℕ) :
    Quietly uuid4 calm s (addressFor n target) fun _ => True := by
  unfold addressFor
  split_ifs
  · exact ⟨rfl, _, rfl, trivial⟩
  · split
    · exact ⟨rfl, _, rfl, trivial⟩
    · exact wp_perform_bind.2 ⟨trivial, fun _ _ => ⟨rfl, _, rfl, trivial⟩⟩

theorem quietly_selectTarget (n : ChordNode M) (agent : Bool) (job : Job)
    (ringMetrics : List Metrics) :
    Quietly uuid4 calm s (selectTarget sha1Id n agent job ringMetrics) fun _ => True := by
  unfold selectTarget
  split_ifs
  · exact ⟨trivial, fun _ _ => ⟨rfl, _, rfl, trivial⟩⟩
  · exact wp_perform_bind.2 ⟨trivial, fun _ _ => ⟨rfl, _, rfl, trivial⟩⟩

/-- With `calm` there is no replica on another node than the target. -/
theorem quietly_selectReplicas (agent : Bool) (job : Job) (ringMetrics : List Metrics)
    (requested : ℤ) (target : ℕ) :
    Quietly uuid4 calm s (selectReplicas agent job ringMetrics requested target) fun x =>
      calm → ∀ rid ∈ x.2, rid = x.1 := by
  unfold selectReplicas
  split_ifs
  · exact wp_perform_bind.2 ⟨trivial, fun _ hplan => ⟨rfl, _, rfl, hplan⟩⟩
  · exact ⟨rfl, _, rfl, fun _ rid hrid => absurd hrid List.not_mem_nil⟩

/-- **Every key that is searched for is made of an id that was drawn for it**, whether it
hashes to the node or not. -/
theorem keyFrom_eq (sha1Id : String → ℕ) (ringSize : ℕ) (ids : ℕ → String) (target i attempts : ℕ) :
    ∃ j, keyFrom sha1Id ringSize ids target i attempts = jobKey (ids j) := by
  induction attempts generalizing i with
  | zero => exact ⟨i, rfl⟩
  | succ attempts ih =>
    unfold keyFrom
    split_ifs
    · exact ⟨i, rfl⟩
    · exact ih (i + 1)

/-- The tries of a write are all for one key. -/
theorem does_putTries {address : Address} {key : String} (hjob : s.job = some block)
    (hstores : s.Stores uuid4 calm key job) (tries : ℕ) :
    ClusterDoes uuid4 calm (putTries address key job tries)
      (fun x d => (∃ ok, x = .ok ok) ∧ ∃ s', d = .submission s' ∧ s'.job = some block)
      (.submission s) := by
  induction tries with
  | zero => exact ⟨⟨_, rfl⟩, s, rfl, hjob⟩
  | succ tries ih =>
    unfold putTries
    refine wp_perform_bind.2 ⟨hstores, fun ok _ => ?_⟩
    cases ok with
    | true => exact ⟨⟨_, rfl⟩, s.store, rfl, hjob⟩
    | false => exact ih

/-- A copy of the job is stored, at a key of a block of its own. -/
theorem does_storeJob (job : Job) (hjob : s.job = some block) (hstored : calm → s.stored = false)
    (hid : job.jobId = uuid4 block 0) (hstatus : job.status = .pending)
    (hretries : job.retryCount = 0) (address : Address) (target : ℕ) :
    ClusterDoes uuid4 calm (storeJob sha1Id uuid4 n job address target)
      (fun _ d => ∃ s', d = .submission s' ∧ s'.job = some block) (.submission s) := by
  unfold storeJob
  refine wp_perform_bind.2 ⟨trivial, fun m _ => ?_⟩
  have hdraw : s.draw m = { s with key := some m } := by
    rw [Submission.draw, hjob]
  show wp _ _ _ _ _ (Duty.submission (s.draw m))
  rw [hdraw]
  obtain ⟨i, hkey⟩ := keyFrom_eq sha1Id 256 (uuid4 m) target 0 512
  have hstores : ∀ key, key = makeJobKeyFor sha1Id (uuid4 m) target →
      Submission.Stores uuid4 calm { s with key := some m } key job := fun key hk =>
    ⟨block, m, i, hjob, rfl, hk.trans hkey, hid, hstatus, hretries, hstored⟩
  split_ifs with htarget
  · exact wp_perform_bind.2 ⟨hstores _ rfl, fun _ _ => ⟨_, rfl, hjob⟩⟩
  · refine wp_bind.2 (wp_mono (fun x d hx => ?_) (does_putTries
      (s := { s with key := some m }) hjob (hstores _ rfl) _))
    obtain ⟨⟨ok, rfl⟩, hd⟩ := hx
    cases ok with
    | true => exact hd
    | false => exact hd

/-- The copies of the job on other nodes than the target. -/
theorem does_storeReplicas (hjob : s.job = some block) (hid : job.jobId = uuid4 block 0)
    (hstatus : job.status = .pending) (hretries : job.retryCount = 0) (target : ℕ)
    (rids : List ℕ) (hrids : calm → ∀ rid ∈ rids, rid = target) :
    ClusterDoes uuid4 calm (storeReplicas sha1Id uuid4 n job target rids)
      (fun _ d => ∃ s', d = .submission s' ∧ s'.job = some block) (.submission s) := by
  induction rids generalizing s with
  | nil => exact ⟨_, rfl, hjob⟩
  | cons rid rids ih =>
    have hrest : calm → ∀ rid ∈ rids, rid = target := fun hcalm r hr =>
      hrids hcalm r (List.mem_cons_of_mem _ hr)
    unfold storeReplicas
    split_ifs with hrid
    · exact ih hjob hrest
    · have hno : ¬calm := fun hcalm => hrid (hrids hcalm rid List.mem_cons_self)
      refine (quietly_addressFor n rid).bind fun address _ => ?_
      have hstore : ClusterDoes uuid4 calm (storeJob sha1Id uuid4 n
          { job with replicaOf := some job.jobId } address rid)
          (fun _ d => ∃ s', d = .submission s' ∧ s'.job = some block) (.submission s) :=
        does_storeJob { job with replicaOf := some job.jobId } hjob (fun hcalm => (hno hcalm).elim)
          hid hstatus hretries address rid
      refine wp_bind.2 (wp_attempt.2 (wp_mono (fun stored d hd => ?_) hstore))
      obtain ⟨s', rfl, hjob'⟩ := hd
      refine wp_bind.2 (wp_mono (fun rest d hd => ?_) (ih hjob' hrest))
      cases rest with
      | error e => exact hd
      | ok rest =>
        cases stored with
        | ok key => exact hd
        | error e => exact hd

/-- **A submission** stores copies of one job, with an id that it drew. -/
theorem does_submitJob (n : ChordNode M) (agent : Bool) (jobType : String) (payload : Json)
    (requested : ℤ) :
    ClusterDoes uuid4 calm (submitJob sha1Id uuid4 n agent jobType payload requested >>=
      fun reply => pure (some reply)) (Duty.Ends uuid4) (.submission .init) := by
  unfold submitJob
  by_cases htype : jobType ∉ ["echo", "sleep", "compute"]
  · rw [if_pos htype]
    exact fun c hc => by cases hc
  rw [if_neg htype]
  by_cases hrequested : requested < 1 ∨ 10 < requested
  · rw [if_pos hrequested]
    exact fun c hc => by cases hc
  rw [if_neg hrequested]
  refine wp_bind.2 (wp_bind.2 ?_)
  unfold createJob
  refine (quietly_collectRingMetrics n).bind fun ringMetrics _ => ?_
  refine wp_perform_bind.2 ⟨trivial, fun block _ => ?_⟩
  show wp _ _ _ _ _ (Duty.submission ⟨some block, false, none⟩)
  refine wp_perform_bind.2 ⟨trivial, fun now _ => ?_⟩
  refine (quietly_selectTarget n agent _ ringMetrics).bind fun target _ => ?_
  refine (quietly_selectReplicas agent _ ringMetrics requested target).bind fun x hx => ?_
  obtain ⟨target, rids⟩ := x
  refine (quietly_addressFor n target).bind fun address _ => ?_
  have hstore : ClusterDoes uuid4 calm (storeJob sha1Id uuid4 n
      (makeJob jobType payload (uuid4 block 0) now) address target)
      (fun _ d => ∃ s', d = .submission s' ∧ s'.job = some block)
      (.submission ⟨some block, false, none⟩) :=
    does_storeJob _ rfl (fun _ => rfl) rfl rfl rfl address target
  refine wp_bind.2 (wp_mono (fun primaryKey d hd => ?_) hstore)
  obtain ⟨s', rfl, hjob'⟩ := hd
  cases primaryKey with
  | error e => exact fun c hc => by cases hc
  | ok primaryKey =>
    refine wp_bind.2 (wp_mono (fun replicas d hd => ?_)
      (does_storeReplicas hjob' rfl rfl rfl target rids hx))
    obtain ⟨s'', rfl, hjob''⟩ := hd
    cases replicas with
    | error e => exact fun c hc => by cases hc
    | ok replicas =>
      intro c hc
      cases hc
      exact ⟨block, hjob'', rfl⟩

/-- What comes in does what it may do. -/
theorem does_clusterEntry {t : ClusterThread} (ht : ClusterEntry sha1Id uuid4 M t) :
    ClusterDoes uuid4 calm t.rest (Duty.Ends uuid4) t.ghost := by
  rcases ht with ⟨a, rfl⟩ | ⟨n, agent, jobType, payload, requested, rfl⟩
  · exact does_onNode a doesCalm_round
  · exact does_submitJob n agent jobType payload requested

/-- What is launched does what it may do. -/
theorem does_launched {env : ClusterEnv} {o : ClusterOp} {t : ClusterThread}
    (ht : (clusterSystem env).launch o = some t) :
    ClusterDoes uuid4 calm t.rest (Duty.Ends uuid4) t.ghost := by
  cases o with
  | worker a o =>
    cases o with
    | submit key =>
      obtain rfl := Option.some.inj ht
      exact does_onNode a (doesCalm_runJob key)
    | _ => cases ht
  | _ => cases ht

end Does

/-! ### The blocks -/

section Blocks

variable {ι : Type} {env : ClusterEnv} {γ : ι → Option Duty} {w : Cluster} {drawn drawn' : ℕ}
  {i slot : ι} {d d' : Duty}

/-- The blocks that a thread holds for its job after an operation, it held before or has just
drawn. -/
theorem Duty.note_jobBlock (d : Duty) (o : ClusterOp) (w : Cluster) (b : ℕ)
    (hb : b ∈ (d.note o (clusterHandle env o w).1).jobBlock) : w.drawn ≤ b ∨ b ∈ d.jobBlock := by
  cases d with
  | worker a role => cases o <;> cases hb
  | submission s =>
    cases o with
    | draw =>
      obtain ⟨job, stored, key⟩ := s
      cases job with
      | none => exact .inl (Option.some.inj hb).le
      | some n => exact .inr hb
    | postData a key job => exact .inr (Submission.mem_job_of_posted hb)
    | _ => exact .inr hb

/-- So are those that it holds for a key. -/
theorem Duty.note_keyBlock (d : Duty) (o : ClusterOp) (w : Cluster) (b : ℕ)
    (hb : b ∈ (d.note o (clusterHandle env o w).1).keyBlock) : w.drawn ≤ b ∨ b ∈ d.keyBlock := by
  cases d with
  | worker a role => cases o <;> cases hb
  | submission s =>
    cases o with
    | draw =>
      obtain ⟨job, stored, key⟩ := s
      cases job with
      | none => exact .inr hb
      | some n => exact .inl (Option.some.inj hb).le
    | put a key job => cases hb
    | postData a key job => exact .inr (Submission.mem_key_of_posted hb)
    | _ => exact .inr hb

theorem drawn_le_handle (o : ClusterOp) (w : Cluster) :
    w.drawn ≤ (clusterHandle env o w).2.drawn := by
  cases o with
  | draw => exact Nat.le_succ _
  | postData a key job =>
    show w.drawn ≤ (Cluster.tick (if _ then w else _)).drawn
    split_ifs <;> exact le_rfl
  | _ => exact le_rfl

/-- A thread that is launched is a worker's. -/
theorem launch_worker {o : ClusterOp} {t : ClusterThread}
    (h : (clusterSystem env).launch o = some t) :
    ∃ a key, o = .worker a (.submit key) ∧ t.ghost = .worker a (some (key, .queued)) := by
  cases o with
  | worker a o =>
    cases o with
    | submit key =>
      obtain rfl := Option.some.inj h
      exact ⟨a, key, rfl, rfl⟩
    | _ => cases h
  | _ => cases h

/-- A block that is not drawn or is held after an operation was so before. -/
theorem held_or_new [DecidableEq ι] {field : Duty → Option ℕ} (hi : γ i = some d) {o : ClusterOp}
    {b : ℕ} (hworker : ∀ a role, field (.worker a role) = none)
    (hnote : b ∈ field (d.note o (clusterHandle env o w).1) → w.drawn ≤ b ∨ b ∈ field d)
    (hb : (clusterHandle env o w).2.drawn ≤ b ∨ ∃ j, ∃ d' ∈ Pool.place (Function.update γ i
      (some (d.note o (clusterHandle env o w).1))) slot
        (((clusterSystem env).launch o).map Thread.ghost) j, b ∈ field d') :
    w.drawn ≤ b ∨ ∃ j, ∃ d' ∈ γ j, b ∈ field d' := by
  rcases hb with hb | ⟨j, d', hd', hb⟩
  · exact .inl ((drawn_le_handle o w).trans hb)
  have hupdate : ∀ j, ∀ d' ∈ Function.update γ i (some (d.note o (clusterHandle env o w).1)) j,
      b ∈ field d' → w.drawn ≤ b ∨ ∃ j, ∃ d' ∈ γ j, b ∈ field d' :=
    forall_update (fun hb => (hnote hb).imp_right fun hb => ⟨i, d, hi, hb⟩)
      fun j _ d' hd' hb => .inr ⟨j, d', hd', hb⟩
  cases hl : (clusterSystem env).launch o with
  | none =>
    rw [hl] at hd'
    exact hupdate j d' hd' hb
  | some t =>
    rw [hl] at hd'
    refine forall_update (φ := fun _ d' => b ∈ field d' → _) (fun hb => ?_)
      (fun j _ d' hd' hb => hupdate j d' hd' hb) j d' hd' hb
    obtain ⟨a, key, -, hghost⟩ := launch_worker hl
    rw [hghost, hworker] at hb
    cases hb

/-- The blocks that the threads hold are drawn, and no block is held twice. -/
structure Drawn (γ : ι → Option Duty) (drawn : ℕ) : Prop where
  job_lt : ∀ i, ∀ d ∈ γ i, ∀ b ∈ d.jobBlock, b < drawn
  key_lt : ∀ i, ∀ d ∈ γ i, ∀ b ∈ d.keyBlock, b < drawn
  job_inj : ∀ i, ∀ d ∈ γ i, ∀ j, ∀ d' ∈ γ j, ∀ b ∈ d.jobBlock, b ∈ d'.jobBlock → i = j
  key_inj : ∀ i, ∀ d ∈ γ i, ∀ j, ∀ d' ∈ γ j, ∀ b ∈ d.keyBlock, b ∈ d'.keyBlock → i = j
  apart : ∀ i, ∀ d ∈ γ i, ∀ j, ∀ d' ∈ γ j, ∀ b ∈ d.jobBlock, b ∉ d'.keyBlock

namespace Drawn

variable [DecidableEq ι]

/-- A thread changes, or comes in: it keeps blocks that it held, and holds blocks that were
drawn just now. -/
theorem update (h : Drawn γ drawn) (hle : drawn ≤ drawn')
    (hjob : ∀ b ∈ d'.jobBlock, (∃ d ∈ γ i, b ∈ d.jobBlock) ∨ drawn ≤ b ∧ b < drawn')
    (hkey : ∀ b ∈ d'.keyBlock, (∃ d ∈ γ i, b ∈ d.keyBlock) ∨ drawn ≤ b ∧ b < drawn')
    (hself : ∀ b ∈ d'.jobBlock, b ∉ d'.keyBlock) :
    Drawn (Function.update γ i (some d')) drawn' := by
  have hjobs : ∀ j, j ≠ i → ∀ d ∈ γ j, ∀ b ∈ d.jobBlock, b ∉ d'.jobBlock := by
    intro j hj d hd b hb hb'
    rcases hjob b hb' with ⟨d₁, hd₁, hb₁⟩ | hnew
    · exact hj (h.job_inj j d hd i d₁ hd₁ b hb hb₁)
    · have := h.job_lt j d hd b hb
      omega
  have hkeys : ∀ j, j ≠ i → ∀ d ∈ γ j, ∀ b ∈ d.keyBlock, b ∉ d'.keyBlock := by
    intro j hj d hd b hb hb'
    rcases hkey b hb' with ⟨d₁, hd₁, hb₁⟩ | hnew
    · exact hj (h.key_inj j d hd i d₁ hd₁ b hb hb₁)
    · have := h.key_lt j d hd b hb
      omega
  refine ⟨?_, ?_, ?_, ?_, ?_⟩
  · refine forall_update (fun b hb => ?_) fun j _ d hd b hb => (h.job_lt j d hd b hb).trans_le hle
    rcases hjob b hb with ⟨d, hd, hb'⟩ | hnew
    · exact (h.job_lt i d hd b hb').trans_le hle
    · exact hnew.2
  · refine forall_update (fun b hb => ?_) fun j _ d hd b hb => (h.key_lt j d hd b hb).trans_le hle
    rcases hkey b hb with ⟨d, hd, hb'⟩ | hnew
    · exact (h.key_lt i d hd b hb').trans_le hle
    · exact hnew.2
  · refine forall_update ?_ fun j hj d hd => ?_
    · exact forall_update (fun _ _ _ => rfl) fun j hj d hd b hb hb' =>
        (hjobs j hj d hd b hb' hb).elim
    · exact forall_update (fun b hb hb' => (hjobs j hj d hd b hb hb').elim) fun j' _ =>
        h.job_inj j d hd j'
  · refine forall_update ?_ fun j hj d hd => ?_
    · exact forall_update (fun _ _ _ => rfl) fun j hj d hd b hb hb' =>
        (hkeys j hj d hd b hb' hb).elim
    · exact forall_update (fun b hb hb' => (hkeys j hj d hd b hb hb').elim) fun j' _ =>
        h.key_inj j d hd j'
  · refine forall_update (forall_update hself fun j _ d hd b hb hb' => ?_) fun j _ d hd =>
      forall_update (fun b hb hb' => ?_) fun j' _ => h.apart j d hd j'
    · rcases hjob b hb with ⟨d₁, hd₁, hb₁⟩ | hnew
      · exact h.apart i d₁ hd₁ j d hd b hb₁ hb'
      · have := h.key_lt j d hd b hb'
        omega
    · rcases hkey b hb' with ⟨d₁, hd₁, hb₁⟩ | hnew
      · exact h.apart j d hd i d₁ hd₁ b hb hb₁
      · have := h.job_lt j d hd b hb
        omega

/-- A thread comes in that holds nothing. -/
theorem enter (h : Drawn γ drawn) (hjob : d'.jobBlock = none) (hkey : d'.keyBlock = none) :
    Drawn (Function.update γ i (some d')) drawn := by
  refine h.update le_rfl ?_ ?_ ?_
  · rw [hjob]
    exact fun b hb => by cases hb
  · rw [hkey]
    exact fun b hb => by cases hb
  · rw [hjob]
    exact fun b hb => by cases hb

/-- **An operation of a thread** draws a block that nobody holds, or keeps what it held. -/
theorem act (h : Drawn γ w.drawn) (hi : γ i = some d) (o : ClusterOp) :
    Drawn (Pool.place (Function.update γ i (some (d.note o (clusterHandle env o w).1))) slot
      (((clusterSystem env).launch o).map Thread.ghost)) (clusterHandle env o w).2.drawn := by
  have hsame : ∀ {d' : Duty}, (∀ b ∈ d'.jobBlock, b ∈ d.jobBlock) →
      (∀ b ∈ d'.keyBlock, b ∈ d.keyBlock) → Drawn (Function.update γ i (some d')) w.drawn :=
    fun hjob hkey => h.update le_rfl (fun b hb => .inl ⟨d, hi, hjob b hb⟩)
      (fun b hb => .inl ⟨d, hi, hkey b hb⟩)
      fun b hb hb' => h.apart i d hi i d hi b (hjob b hb) (hkey b hb')
  have hkeep : Drawn (Function.update γ i (some d)) w.drawn := hsame (fun _ hb => hb) fun _ hb => hb
  cases d with
  | worker a role =>
    cases o with
    | worker b o =>
      have hworker : ∀ r, Drawn (Function.update γ i (some (.worker a (role.note o r)))) w.drawn :=
        fun r => hsame (fun _ hb => hb) fun _ hb => hb
      cases o with
      | submit key => exact (hworker _).enter rfl rfl
      | _ => exact hworker _
    | draw =>
      exact h.update (Nat.le_succ _) (fun b hb => .inl ⟨_, hi, hb⟩) (fun b hb => .inl ⟨_, hi, hb⟩)
        fun b hb => by cases hb
    | postData a' key job =>
      show Drawn _ (Cluster.tick (if _ then w else _)).drawn
      split_ifs <;> exact hkeep
    | _ => exact hkeep
  | submission s =>
    cases o with
    | worker b o =>
      cases o with
      | submit key => exact hkeep.enter rfl rfl
      | _ => exact hkeep
    | draw =>
      show Drawn (Function.update γ i (some (.submission (s.draw w.drawn)))) (w.drawn + 1)
      have hheld : ∀ b ∈ s.job, b ∉ s.key := h.apart i _ hi i _ hi
      have hjob_lt : ∀ b ∈ s.job, b < w.drawn := h.job_lt i _ hi
      have hkey_lt : ∀ b ∈ s.key, b < w.drawn := h.key_lt i _ hi
      obtain ⟨job, stored, key⟩ := s
      cases job with
      | none =>
        refine h.update (Nat.le_succ _) (fun b hb => .inr ?_) (fun b hb => .inl ⟨_, hi, hb⟩)
          fun b hb hb' => ?_
        · obtain rfl := Option.some.inj hb
          exact ⟨le_rfl, Nat.lt_succ_self _⟩
        · obtain rfl := Option.some.inj hb
          exact absurd (hkey_lt _ hb') (Nat.lt_irrefl _)
      | some n =>
        refine h.update (Nat.le_succ _) (fun b hb => .inl ⟨_, hi, hb⟩) (fun b hb => .inr ?_)
          fun b hb hb' => ?_
        · obtain rfl := Option.some.inj hb
          exact ⟨le_rfl, Nat.lt_succ_self _⟩
        · obtain rfl := Option.some.inj hb'
          exact absurd (hjob_lt _ hb) (Nat.lt_irrefl _)
    | put a' key job => exact hsame (fun _ hb => hb) fun b hb => by cases hb
    | postData a' key job =>
      show Drawn _ (Cluster.tick (if _ then w else _)).drawn
      have hposted : Drawn (Function.update γ i (some (.submission (s.posted
          (clusterHandle env (.postData a' key job) w).1)))) w.drawn :=
        hsame (fun b hb => Submission.mem_job_of_posted hb) fun b hb => Submission.mem_key_of_posted hb
      split_ifs <;> exact hposted
    | _ => exact hkeep

end Drawn

end Blocks

/-! ### What a worker leaves -/

/-- A change of a job keeps a field of every job that it keeps of this one. -/
theorem World.map_get_change {β : Type} {f : Job → Job} {field : Job → β}
    (h : ∀ j, field (f j) = field j) (w : World) (key key' : String) :
    ((w.change key' f).jobs.get key).map field = (w.jobs.get key).map field := by
  rw [World.get_change]
  split_ifs
  · rw [Option.map_map]
    exact congrArg (fun g => (w.jobs.get key).map g) (funext h)
  · rfl

/-- **A field that no block changes**, or that no block changes that this operation runs, is
after the operation what it was. -/
theorem map_get_handle {β : Type} {field : Job → β} (env : Env) (o : Op) (w : World)
    (hclaim : ∀ a now j, field (Job.claim a now j) = field j) (hstart : ∀ j, field j.start = field j)
    (hfinish : ∀ result now j, field (Job.finish result now j) = field j)
    (hrequeue : ∀ key n e, o = .requeue key n e → ∀ j, field (Job.requeue n e j) = field j)
    (hgiveUp : ∀ key e, o = .giveUp key e → ∀ now j, field (Job.giveUp e now j) = field j)
    (hreap : o = .reap → ∀ key, ∀ j ∈ w.jobs.get key, field (j.reap (env.now w.steps)) = field j)
    (key : String) :
    ((handle env o w).2.jobs.get key).map field = (w.jobs.get key).map field := by
  cases o with
  | start key' => exact w.map_get_change hstart key key'
  | finish key' result => exact w.map_get_change (hfinish result _) key key'
  | requeue key' n e => exact w.map_get_change (hrequeue key' n e rfl) key key'
  | giveUp key' e => exact w.map_get_change (hgiveUp key' e rfl _) key key'
  | tryClaim key' =>
    rw [handle_tryClaim]
    rcases w.tryClaim_eq key' env.address (env.now w.steps) with hr | ⟨j, hj, hpending, hr⟩
    · rw [hr]
      rfl
    · rw [hr]
      exact w.map_get_change (hclaim _ _) key key'
  | reap =>
    show ((w.jobs.mapValues (Job.reap (env.now w.steps))).get key).map field = _
    rw [Dict.get_mapValues, Option.map_map]
    cases hj : w.jobs.get key with
    | none => rfl
    | some j => exact congrArg some (hreap rfl key j hj)
  | _ => rfl

/-- No operation of a worker adds an entry or changes the id of a job. -/
theorem handle_jobId (env : Env) (o : Op) (w : World) (key : String) :
    ((handle env o w).2.jobs.get key).map Job.jobId = (w.jobs.get key).map Job.jobId := by
  refine map_get_handle env o w (fun _ _ _ => rfl) (fun _ => rfl) (fun _ _ _ => rfl)
    (fun _ _ _ _ _ => rfl) (fun _ _ _ _ _ => rfl) (fun _ _ j _ => ?_) key
  unfold Job.reap
  split_ifs <;> rfl

theorem jobKey_inj {id id' : String} : jobKey id = jobKey id' ↔ id = id' :=
  String.append_right_inj _

namespace Cluster

variable {w : Cluster} {a b : Address} {key key' : String} {job : Job}

theorem get_store : ((w.store a key job).nodes b).jobs.get key' =
    if b = a ∧ key' = key then some job else (w.nodes b).jobs.get key' := by
  unfold store setJobs
  by_cases hb : b = a
  · subst hb
    simp [Dict.get_set]
  · simp [hb]

/-- An operation of the worker of a node changes that node. -/
theorem nodes_worker_self (env : ClusterEnv) (o : Op) (w : Cluster) (a : Address) :
    (clusterHandle env (.worker a o) w).2.nodes a = (handle (env.worker a) o (w.nodes a)).2 :=
  Function.update_self ..

theorem nodes_worker_ne (env : ClusterEnv) (o : Op) (w : Cluster) (h : b ≠ a) :
    (clusterHandle env (.worker a o) w).2.nodes b = w.nodes b :=
  Function.update_of_ne h ..

/-- The id of the job under a key, at a node. -/
def jobIdAt (w : Cluster) (a : Address) (key : String) : Option String :=
  ((w.nodes a).jobs.get key).map Job.jobId

/-- An operation of a worker keeps the ids. -/
theorem jobIdAt_worker (env : ClusterEnv) (o : Op) (w : Cluster) (a b : Address) (key : String) :
    (clusterHandle env (.worker a o) w).2.jobIdAt b key = w.jobIdAt b key := by
  unfold jobIdAt
  by_cases hb : b = a
  · subst hb
    rw [nodes_worker_self]
    exact handle_jobId _ o _ key
  · rw [nodes_worker_ne env o w hb]

end Cluster

section Cases

variable {env : ClusterEnv} {w : Cluster} {uuid4 : ℕ → ℕ → String} {calm : Prop} {d : Duty}
  {o : ClusterOp}

theorem Cluster.jobIdAt_store {a b : Address} {key key' : String} {job : Job} :
    (w.store a key job).jobIdAt b key' =
      if b = a ∧ key' = key then some job.jobId else w.jobIdAt b key' := by
  unfold jobIdAt
  rw [get_store]
  split_ifs <;> rfl

/-- **What a thread does to the nodes**: a worker performs an operation of its own, and a
submission stores a copy of its job or does nothing. -/
theorem handle_cases (env : ClusterEnv) (w : Cluster) (hallowed : d.Allowed uuid4 calm o) :
    (∃ a role o', d = .worker a role ∧ o = .worker a o' ∧ role.Allowed o' ∧ (calm → o'.Calm)) ∨
      (∃ s, d = .submission s ∧ (clusterSystem env).launch o = none ∧
        (clusterHandle env o w).2.nodes = w.nodes ∧
        (clusterHandle env o w).2.executed = w.executed) ∨
      ∃ s a key job, d = .submission s ∧ (clusterSystem env).launch o = none ∧
        s.Stores uuid4 calm key job ∧ (o = .put a key job ∨
          o = .postData a key job ∧ env.deliver w.steps a ≠ .lost) ∧
        (clusterHandle env o w).2 = (w.store a key job).tick := by
  cases d with
  | worker a role =>
    cases o with
    | worker b o' =>
      obtain ⟨rfl, hrole, hcalm⟩ := hallowed
      exact .inl ⟨b, role, o', rfl, rfl, hrole, hcalm⟩
    | _ => exact hallowed.elim
  | submission s =>
    cases o with
    | worker b o' => exact hallowed.elim
    | promote a => exact hallowed.elim
    | put a key job => exact .inr (.inr ⟨s, a, key, job, rfl, rfl, hallowed, .inl rfl, rfl⟩)
    | postData a key job =>
      by_cases hlost : env.deliver w.steps a = .lost
      · have hsame : (clusterHandle env (.postData a key job) w).2 = w.tick :=
          congrArg Cluster.tick (if_pos hlost)
        rw [hsame]
        exact .inr (.inl ⟨s, rfl, rfl, rfl, rfl⟩)
      · exact .inr (.inr ⟨s, a, key, job, rfl, rfl, hallowed, .inr ⟨rfl, hlost⟩,
          congrArg Cluster.tick (if_neg hlost)⟩)
    | _ => exact .inr (.inl ⟨s, rfl, rfl, rfl, rfl⟩)

/-- So the ids of the jobs change only where a submission stores its job. -/
theorem jobIdAt_handle (env : ClusterEnv) (w : Cluster) (hallowed : d.Allowed uuid4 calm o) :
    (∀ a key, (clusterHandle env o w).2.jobIdAt a key = w.jobIdAt a key) ∨
      ∃ s a key job, d = .submission s ∧ s.Stores uuid4 calm key job ∧
        (o = .put a key job ∨ o = .postData a key job ∧ env.deliver w.steps a ≠ .lost) ∧
        (clusterHandle env o w).2 = (w.store a key job).tick := by
  rcases handle_cases env w hallowed with ⟨a, role, o', rfl, rfl, -, -⟩ | ⟨s, rfl, -, hnodes, -⟩ |
    ⟨s, a, key, job, rfl, -, hstores, ho, hstore⟩
  · exact .inl fun b key => Cluster.jobIdAt_worker env o' w a b key
  · left
    intro a key
    rw [Cluster.jobIdAt, hnodes]
    rfl
  · exact .inr ⟨s, a, key, job, rfl, hstores, ho, hstore⟩

end Cases

/-! ### A ring of two nodes -/

/-- All ids that are drawn are distinct. -/
def DistinctIds (uuid4 : ℕ → ℕ → String) : Prop :=
  ∀ b i b' i', uuid4 b i = uuid4 b' i' → b = b' ∧ i = i'

/-- A ring before any thread came in. -/
def ring {ι : Type} (w : Cluster) :
    Pool ι ClusterOp ClusterOp.Res Exc (Option SubmitReply) Duty Cluster :=
  ⟨fun _ => none, w⟩

namespace TwoNodes

/-- The nodes `0` and `128` of a ring of `256` ids. -/
def nodeA : ChordNode 8 := ⟨"a", 0, none, fun i => ⟨2 ^ i.val % 256, 128, "b"⟩⟩
def nodeB : ChordNode 8 := ⟨"b", 128, none, fun i => ⟨(128 + 2 ^ i.val) % 256, 0, "a"⟩⟩

/-- Every key hashes to `0`. -/
def sha1Id : String → ℕ := fun _ => 0

/-- The `i`-th id of block `b`. -/
def uuid4 (b i : ℕ) : String := String.ofList (List.replicate b 'a' ++ 'b' :: List.replicate i 'a')

theorem distinctIds : DistinctIds uuid4 := by
  intro b i b' i' h
  have hlist := String.ofList_injective h
  have hblock : b = b' := by
    have htake : ∀ n (l : List Char), (List.replicate n 'a' ++ 'b' :: l).takeWhile (· = 'a') =
        List.replicate n 'a' := by
      intro n l
      induction n with
      | zero => rfl
      | succ n ih =>
        rw [List.replicate_succ, List.cons_append, List.takeWhile_cons]
        simp [ih]
    have hsame := congrArg (fun l : List Char => (l.takeWhile (· = 'a')).length) hlist
    simpa [htake] using hsame
  have hlength := congrArg List.length hlist
  simp only [List.length_append, List.length_replicate, List.length_cons] at hlength
  exact ⟨hblock, by omega⟩

/-- No request fails, no execution raises, and the agent decides by its heuristics. -/
def env : ClusterEnv where
  now _ n := n
  execute _ _ _ := .ok .null
  clock _ := 0
  nodeId a := if a = "a" then 0 else 128
  deliver _ _ := .delivered
  findSuccessor _ _ id := if id = 0 ∨ 128 < id then nodeA.ref else nodeB.ref
  selectPlacement _ _ metrics := (PlacementAgent.heuristic metrics).getD 0
  decideReplication _ job metrics requested :=
    (ReplicationAgent.heuristic job metrics requested).getD ⟨0, [], 1⟩

/-- No node has a job. -/
def empty : Cluster := ⟨fun _ => ⟨.empty, 0, 0, 0, [], []⟩, 0, [], 0⟩

/-- The submission of an `echo` job at `nodeA`. -/
def submission (requested : ℤ) : ClusterThread :=
  ⟨.submission .init, submitJob sha1Id uuid4 nodeA true "echo" .null requested >>=
    fun reply => pure (some reply)⟩

theorem entry_submission (requested : ℤ) :
    ClusterEntry sha1Id uuid4 8 (submission requested) :=
  .inr ⟨nodeA, true, "echo", .null, requested, rfl⟩

end TwoNodes

end Jobs
end ChordInfra
