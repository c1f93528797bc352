/-
# Requests for tasks and heartbeats

What a thread is about to do to the load of a worker (`Errand`): a request that picks a worker
writes the record of the task later, and a heartbeat arrives after the tasks were counted.  Only who
picked a worker queues a task, to that worker (`Bears`); the other programs queue none
(`bears_clean`), those of a worker process beat (`toils_calm`), and a request goes through all of it
(`bears_createTask`).
-/

import ChordInfra.Server.Success

namespace ChordInfra
namespace Server

open Interact Prog
open Storage
open Storage.Serving (Runs)
open ChordInfra.Ring (NodeRef)
open Workers (Process Registry)

/-! ### Errands -/

/-- What a thread is about to do to a load. -/
inductive Errand
  | idle
  /-- A request for the task that is kept under `x`, which has no worker yet. -/
  | asks (x : String)
  /-- It picked the worker `v`, and the record is not written yet. -/
  | picked (x v : String)
  /-- A heartbeat of the worker `v` that counts `n` tasks is under way. -/
  | beats (v : String) (n : ℕ)
deriving DecidableEq

namespace Errand

/-- A worker is picked. -/
def pick (v : String) : Errand → Errand
  | asks x => picked x v
  | g => g

/-- The heartbeat arrived, or got lost. -/
def arrive : Errand → Errand
  | beats .. => idle
  | g => g

/-- The tasks in flight are counted. -/
def take (v : String) (n : ℕ) : Errand → Errand
  | idle | beats .. => beats v n
  | g => g

section Note

variable {env : Env} (ring : Owned env)

/-- The owner's record is written. -/
def write (o : Op) : Errand → Errand
  | picked x v => if Rewrites ring x o then idle else picked x v
  | g => g

/-- What becomes of an errand with an operation. -/
def note (g : Errand) : (o : Op) → o.Res → Errand
  | .registry _ (.noteAssignment v), _ => g.pick v
  | .registry _ (.heartbeat ..), _ => g.arrive
  | .deliver _ (.heartbeat ..), d => if d = .lost then g.arrive else g
  | .memory p .pending, n => g.take p.workerId n
  | o, _ => g.write ring o

/-- What an operation does to an errand. -/
theorem note_cases (g : Errand) (o : Op) (r : o.Res) :
    (∃ a v, o = .registry a (.noteAssignment v) ∧ g.note ring o r = g.pick v) ∨
    (∃ p n, o = .memory p .pending ∧ g.note ring o r = g.take p.workerId n) ∨
    g.note ring o r = g.arrive ∨ g.note ring o r = g ∨ g.note ring o r = g.write ring o := by
  cases o with
  | registry a c =>
    cases c with
    | noteAssignment v => exact .inl ⟨a, v, rfl, rfl⟩
    | heartbeat => exact .inr (.inr (.inl rfl))
    | _ => exact .inr (.inr (.inr (.inr rfl)))
  | memory p c =>
    cases c with
    | pending => exact .inr (.inl ⟨p, r, rfl, rfl⟩)
    | _ => exact .inr (.inr (.inr (.inr rfl)))
  | deliver a c =>
    cases c with
    | heartbeat =>
      by_cases hlost : r = .lost
      · exact .inr (.inr (.inl (if_pos hlost)))
      · exact .inr (.inr (.inr (.inl (if_neg hlost))))
    | _ => exact .inr (.inr (.inr (.inr rfl)))
  | _ => exact .inr (.inr (.inr (.inr rfl)))

end Note

/-- No request for a task. -/
def Calm (g : Errand) : Prop := g = idle ∨ ∃ v n, g = beats v n

/-- The worker was picked for a task whose record is not written yet. -/
def Picked (v : String) (g : Errand) : Prop := ∃ x, g = picked x v

/-- The errand of a request that comes in: none, where no record of it can be written. -/
def first (cfg : Config) (body : Fields) : Errand :=
  match body.getD "task_id" .null with
  | .str id => if strip id = "" ∨ cfg.inject = .ht1 then idle else asks (strip id)
  | _ => idle

end Errand

section Programs

variable {env : Env} (ring : FixedRing env) (home : String → Address)

/-- The operation writes the record of a pending task over the one that its owner keeps. -/
def Queues (o : Op) (x : String) (r : ResultRecord) : Prop :=
  o.writes = some (keeper ring.toOwned x, .result x, .result r) ∧ strip x = x ∧ r.status = .pending

/-- What a thread may do: only who picked a worker queues a task, to that worker; a worker is placed
at its own node, and beats there with the count that was taken. -/
def Bears (g : Errand) : Op → Prop
  | .registry b (.noteAssignment v) => (∃ x, g = .asks x) → home v = b ∧ v ≠ ""
  | .registry b (.heartbeat v n _ _) => ∃ m : ℕ, g = .beats v m ∧ n = m ∧ home v = b
  | .registry _ (.remove _) => False
  | o => ∀ x r, Queues ring o x r → g = .picked x r.workerId

/-- Nothing gets lost, the members are told the owners, and every worker is live at its own node
only. -/
def Answers : (o : Op) → o.Res → Prop
  | .rpc .., x => x ≠ none
  | .findSuccessor a k, n => (∃ m ∈ ring.members, m.address = a) → n = ring.owner k
  | .registry b .scoreAllWorkers, l => ∀ e ∈ l, home e.1 = b
  | .registry b .roundRobinAssign, x => ∀ v ∈ x, home v = b
  | _, _ => True

/-- What a program bears. -/
abbrev BearsTo {α : Type} (p : M α) (T : Except Exc α → Errand → Prop) (g : Errand) : Prop :=
  Traced (Errand.note ring.toOwned) (Answers ring home) (Bears ring home) p T g

/-- What a program bears that is no request for a task. -/
abbrev BearsCalm {α : Type} (p : M α) : Prop :=
  Under (Errand.note ring.toOwned) (Answers ring home) (Bears ring home) Errand.Calm p fun _ => True

/-- An operation that queues no task, and is no heartbeat. -/
def Clean : Op → Prop
  | .registry _ c => c.Quiet
  | .memory _ c => c ≠ .pending
  | o => ∀ x r, ¬Queues ring o x r

/-- And places none. -/
def Steady (o : Op) : Prop := Clean ring o ∧ ∀ a v, o ≠ .registry a (.noteAssignment v)

variable {ring home} {o : Op} {g : Errand} {x v : String}

theorem calm_note (ho : Clean ring o) (hg : g.Calm) (r : o.Res) :
    (g.note ring.toOwned o r).Calm := by
  rcases g.note_cases ring.toOwned o r with
    ⟨a, u, rfl, hnote⟩ | ⟨p, k, rfl, -⟩ | hnote | hnote | hnote
  · rw [hnote]
    rcases hg with rfl | ⟨v, n, rfl⟩
    · exact .inl rfl
    · exact .inr ⟨v, n, rfl⟩
  · exact absurd rfl ho
  · rw [hnote]
    rcases hg with rfl | ⟨v, n, rfl⟩ <;> exact .inl rfl
  · rwa [hnote]
  · rw [hnote]
    rcases hg with rfl | ⟨v, n, rfl⟩
    · exact .inl rfl
    · exact .inr ⟨v, n, rfl⟩

theorem bears_of_clean (ho : Clean ring o) (hg : ∀ x, g ≠ .asks x) : Bears ring home g o := by
  cases o with
  | registry a c =>
    cases c with
    | noteAssignment u => exact fun hasks => absurd hasks.choose_spec (hg _)
    | heartbeat => exact ho.elim
    | remove => exact ho.elim
    | _ => exact fun x r hq => absurd hq.1 (by simp [Op.writes])
  | memory p c => exact fun x r hq => absurd hq.1 (by simp [Op.writes])
  | _ => exact fun x r hq => absurd hq (ho x r)

theorem Errand.Calm.not_asks (hg : g.Calm) (x : String) : g ≠ .asks x := by
  rcases hg with rfl | ⟨v, n, rfl⟩ <;> simp

/-! ### Reports and requests of workers -/

section Calm

variable {A : (o : Op) → o.Res → Prop} {s : Service}

/-- What writes no result queues no task. -/
theorem clean_of {o : Op} (hr : ∀ a c, o ≠ .registry a c) (hm : ∀ p c, o ≠ .memory p c)
    (ho : ∀ x r, ¬Queues ring o x r) : Clean ring o := by
  cases o with
  | registry a c => exact absurd rfl (hr a c)
  | memory p c => exact absurd rfl (hm p c)
  | _ => exact ho

theorem clean_of_writes {e : Address × Key × Value} (h : o.writes = some e)
    (ho : ∀ x r, ¬Queues ring o x r) : Clean ring o :=
  clean_of (fun _ _ hr => (by subst hr; cases h)) (fun _ _ hm => (by subst hm; cases h)) ho

theorem steady_of_writes {e : Address × Key × Value} (h : o.writes = some e)
    (ho : ∀ x r, ¬Queues ring o x r) : Steady ring o :=
  ⟨clean_of_writes h ho, fun _ _ hr => (by subst hr; cases h)⟩

/-- What reads is steady. -/
theorem steady_of_reads (h : o.writes = none) (hr : ∀ a c, o ≠ .registry a c)
    (hm : ∀ p c, o ≠ .memory p c) : Steady ring o :=
  ⟨clean_of hr hm fun _ _ hq => absurd (hq.1.symm.trans h) (by simp), fun a _ => hr a _⟩

theorem serving_steady : Serving A (Steady ring) fun _ _ => True where
  get _ _ := ⟨steady_of_reads rfl nofun nofun, fun _ _ => trivial⟩
  rpcGet _ _ := ⟨steady_of_reads rfl nofun nofun, fun _ _ => trivial⟩
  getReplica _ _ := ⟨steady_of_reads rfl nofun nofun, fun _ _ => trivial⟩
  getState _ := steady_of_reads rfl nofun nofun
  findSuccessor _ _ := steady_of_reads rfl nofun nofun
  now := steady_of_reads rfl nofun nofun
  lock _ _ := steady_of_reads rfl nofun nofun
  unlock _ _ := steady_of_reads rfl nofun nofun
  deliver _ _ := steady_of_reads rfl nofun nofun
  writes o a k r ho := steady_of_writes ho fun x r' h => (by rw [h.1] at ho; cases ho)

theorem placing_clean : Placing A (Clean ring) (fun _ _ => True) fun _ => False where
  toServing := serving_steady.allow fun _ ho => ho.1
  put _ h := h.elim
  registry _ _ hc _ := hc
  spawn _ := fun _ _ h => (by cases h.1)

/-- What is clean is no errand. -/
theorem bears_clean {α : Type} {p : M α} (hp : Runs (Answers ring home) (Clean ring) p) :
    BearsCalm ring home p :=
  hp.under fun _ _ hg ho => ⟨bears_of_clean ho hg.not_asks, fun r _ => calm_note ho hg r⟩

/-- A report is of a task that is not pending any more. -/
theorem clean_resultComplete (taskId : String) (status result : Json) :
    Runs A (Clean ring) (resultComplete s taskId status result) := by
  have hplacing : Placing A (Clean ring) (fun _ _ => True) _ := placing_clean
  refine hplacing.completes fun st r now hst _ => ?_
  refine hplacing.resultPut fun o a y _ ho => clean_of_writes ho fun x r' hq => ?_
  obtain ⟨hwrites, -, hpending⟩ := hq
  rw [ho] at hwrites
  cases hwrites
  rcases ends_of_reported hst with rfl | rfl <;> cases hpending

theorem clean_report (taskId status : String) (result : Json) :
    Runs A (Clean ring) (report s taskId status result) := by
  have hplacing : Placing A (Clean ring) (fun _ _ => True) _ := placing_clean
  suffices htries : ∀ n, Runs A (Clean ring) (reportTries s taskId status result n) from htries _
  intro n
  induction n with
  | zero => exact .pure trivial
  | succ n ih =>
    refine .bind (hplacing.callOnce (clean_resultComplete taskId _ result)) fun x _ => ?_
    split
    · exact .pure trivial
    · exact ih

theorem clean_executeAndReport (p : Process) (taskId : String) (record : ResultRecord) :
    Runs A (Clean ring) (executeAndReport s p taskId record) := by
  have hmemory : ∀ c, c ≠ .pending → Runs A (Clean ring) (act (.memory p c)) := fun c hc => .step hc
  have hexecute : Runs A (Clean ring) (act (.execute p taskId record)) :=
    .step fun _ _ h => (by cases h.1)
  refine .bind (hmemory _ (by simp)) fun _ _ => .bind hexecute fun result _ => ?_
  exact .bind (clean_report taskId _ _) fun _ _ => hmemory _ (by simp)

/-! ### Workers -/

variable {p : Process} (hhome : home p.workerId = s.node.address)

include hhome

/-- A heartbeat arrives at the node of its worker, with the count that was taken. -/
theorem bears_sendHeartbeat : BearsCalm ring home (sendHeartbeat s p) := by
  refine .of_traced fun g hg => .act (fun _ _ h => (by cases h.1)) fun n _ => ?_
  have htaken : g.note ring.toOwned (.memory p .pending) n = .beats p.workerId n := by
    rcases hg with rfl | ⟨v, m, rfl⟩ <;> rfl
  rw [htaken]
  refine .act (fun _ _ h => (by cases h.1)) fun now _ => ?_
  have hhandler : BearsTo ring home (heartbeat s p.workerId n (some now) (some p.token))
      (fun _ g' => g'.Calm) (.beats p.workerId n) := by
    unfold heartbeat
    split_ifs
    · exact ⟨.inr ⟨_, _, rfl⟩⟩
    · exact .act ⟨n, rfl, rfl, hhome⟩ fun _ _ => ⟨.inl rfl⟩
  have hcall : BearsTo ring home (callOnce s.node.address (.heartbeat p.workerId n now p.token)
      (heartbeat s p.workerId n (some now) (some p.token))) (fun _ g' => g'.Calm)
      (.beats p.workerId n) := by
    refine .act (fun _ _ h => (by cases h.1)) fun d _ => ?_
    cases d with
    | delivered =>
      refine .attempt hhandler fun x g' hg' => ?_
      cases x <;> exact ⟨hg'⟩
    | lost => exact ⟨.inl rfl⟩
    | replyLost => exact .attempt hhandler fun _ _ hg' => ⟨hg'⟩
  exact .bind hcall (fun _ _ hg' => ⟨hg'⟩) fun _ _ hg' => hg'

/-- Apart from its heartbeats a worker process has no errand. -/
theorem toils_calm : Toils (Errand.note ring.toOwned) (Answers ring home) (Bears ring home)
    Errand.Calm s p where
  assigned := bears_clean (placing_clean.fetchAssigned p)
  record t := bears_clean ((placing_clean.fetchRecord t).mono fun _ _ => trivial)
  memory c hc := bears_clean (.step hc)
  spawn _ _ := bears_clean (.step fun _ _ h => (by cases h.1))
  execute t r := bears_clean (clean_executeAndReport p t r)
  beat := bears_sendHeartbeat hhome

end Calm

/-! ### Requests for tasks -/

section Requests

variable {s : Service} {cfg : Config} (hs : s.node ∈ ring.members)

/-- What was tried either left the errand as it was or ended it. -/
def Tried {α : Type} (g : Errand) (y : Except Exc α) (g' : Errand) : Prop :=
  (∃ a, y = .ok a ∧ g'.Calm) ∨ ∃ e, y = .error e ∧ g' = g

/-- An operation that writes nothing leaves a request where it is. -/
theorem write_of_none (ho : o.writes = none) (g : Errand) : g.write ring.toOwned o = g := by
  cases g with
  | picked x v => exact if_neg (by simp [Rewrites, ho])
  | _ => rfl

/-- A request goes on with an operation that neither places a task nor writes a record. -/
theorem steady_note (ho : Steady ring o) (hg : ∀ v n, g ≠ .beats v n)
    (hw : o.writes = none ∨ ∀ x v, g ≠ .picked x v) (r : o.Res) : g.note ring.toOwned o r = g := by
  rcases g.note_cases ring.toOwned o r with ⟨a, u, rfl, -⟩ | ⟨p, k, rfl, -⟩ | hnote | hnote | hnote
  · exact absurd rfl (ho.2 a u)
  · exact absurd rfl ho.1
  · rw [hnote]
    cases g with
    | beats v n => exact absurd rfl (hg v n)
    | _ => rfl
  · exact hnote
  · rw [hnote]
    rcases hw with hw | hw
    · exact write_of_none hw g
    · cases g with
      | picked x v => exact absurd rfl (hw x v)
      | _ => rfl

theorem bears_of_steady (ho : Steady ring o) (g : Errand) : Bears ring home g o := by
  obtain ⟨hclean, hnot⟩ := ho
  cases o with
  | registry a c =>
    cases c with
    | noteAssignment u => exact absurd rfl (hnot a u)
    | heartbeat => exact hclean.elim
    | remove => exact hclean.elim
    | _ => exact fun x r hq => absurd hq.1 (by simp [Op.writes])
  | memory p c => exact fun x r hq => absurd hq.1 (by simp [Op.writes])
  | _ => exact fun x r hq => absurd hq (hclean x r)

/-- The write at the owner queues the task, to the worker that was picked. -/
theorem bears_queue {r : ResultRecord} {a : Address}
    (ho : o.writes = some (a, .result x, .result r)) (hreg : ∀ b c, o ≠ .registry b c) :
    Bears ring home (.picked x r.workerId) o := by
  have hqueues : ∀ y r', Queues ring o y r' →
      Errand.picked x r.workerId = .picked y r'.workerId := by
    rintro y r' ⟨hq, -, -⟩
    rw [ho] at hq
    cases hq
    rfl
  cases o with
  | registry b c => exact absurd rfl (hreg b c)
  | _ => exact hqueues

/-- And ends the errand. -/
theorem write_queue {u : Value} (v : String)
    (ho : o.writes = some (keeper ring.toOwned x, .result x, u)) :
    (Errand.picked x v).write ring.toOwned o = .idle := by
  refine if_pos ?_
  rw [Rewrites, ho]
  rfl

include hs in
/-- The record is written at its owner, once. -/
theorem bears_putOnNode {record : ResultRecord} :
    BearsTo ring home (s.putOnNode (ring.owner (.result x)) (.result x) (.result record))
      (fun y g' => (∃ u, y = .ok u) ∧ g' = .idle) (.picked x record.workerId) := by
  unfold Service.putOnNode
  split_ifs with hid
  · have hself : s.node.address = keeper ring.toOwned x :=
      congrArg NodeRef.address (ring.toOwned.eq_owner hs hid)
    exact ⟨bears_queue rfl fun _ _ h => (by cases h),
      fun r _ => ⟨⟨r, rfl⟩, write_queue _ (by rw [← hself]; rfl)⟩⟩
  · have hidle : (Errand.picked x record.workerId).write ring.toOwned
        (.rpc (ring.owner (.result x)).address (.put (.result x) (.result record))) = .idle :=
      write_queue _ rfl
    refine .attempt (T := fun y g' => (∃ u, y = .ok u) ∧ g' = .idle)
      ⟨bears_queue rfl fun _ _ h => (by cases h), fun r hr => ?_⟩
      fun y g' hy => ?_
    · cases r with
      | none => exact absurd rfl hr
      | some r => exact ⟨⟨r, rfl⟩, hidle⟩
    · obtain ⟨⟨u, rfl⟩, rfl⟩ := hy
      exact ⟨⟨_, rfl⟩, rfl⟩

/-- The copies of a record queue nothing. -/
theorem clean_replicate (taskId : String) (record : ResultRecord) :
    Only (Clean ring) (ResultService.replicate s taskId record
      (ring.owner (.result (strip taskId)))) := by
  refine .replicas (fun a => fun _ _ h => (by cases h.1))
    (fun n hn => .requestWithRetry (fun x r hq => ?_) _) _
  obtain ⟨hwrites, hx, -⟩ := hq
  obtain ⟨haddress, rfl, -⟩ : n.address = keeper ring.toOwned x ∧ taskId = x ∧ record = r := by
    simpa [Op.writes] using hwrites
  exact hn (by rw [haddress, hx]; rfl)

include hs in
/-- The write of a record by the service of results. -/
theorem bears_put {id : String} {record : ResultRecord}
    (hg : strip id ≠ "" → g = .picked (strip id) record.workerId) :
    BearsTo ring home (ResultService.put s id record) (Tried g) g := by
  unfold ResultService.put validateResultRecord buildResultKey
  by_cases hworker : record.workerId = ""
  · rw [if_pos hworker]
    exact ⟨.inr ⟨_, rfl, rfl⟩⟩
  by_cases hempty : strip id = ""
  · rw [if_neg hworker, if_pos hempty]
    exact ⟨.inr ⟨_, rfl, rfl⟩⟩
  rw [if_neg hworker, if_neg hempty]
  obtain rfl := hg hempty
  refine .act (fun _ _ h => (by cases h.1)) fun n hn => ?_
  rw [steady_note (serving_steady (A := fun _ _ => True).findSuccessor _ _) (by simp) (.inl rfl)]
  obtain rfl : n = ring.owner (.result (strip id)) := hn ⟨s.node, hs, rfl⟩
  refine .bind (bears_putOnNode hs) (fun _ g' hg' => ?_) fun e g' hg' => ?_
  · obtain rfl := hg'.2
    have hreplicate : BearsTo ring home (ResultService.replicate s id record
        (ring.owner (.result (strip id)))) (fun _ g' => g'.Calm) .idle :=
      ((bears_clean (clean_replicate id record).does).traced (.inl rfl)).mono fun _ _ h => h.1
    refine ⟨wp_mono (fun y g' hy => ?_) ((Yields.replicateWith
      (fun _ => .requestWithRetry _ _ _) _ _).wp_and hreplicate.holds)⟩
    obtain ⟨hcalm, a, rfl, -⟩ := hy
    exact .inl ⟨a, rfl, hcalm⟩
  · obtain ⟨⟨u, hu⟩, -⟩ := hg'
    cases hu

/-- What a request is about to write, if anything. -/
def Due (cfg : Config) (record : ResultRecord) (g : Errand) : Prop :=
  cfg.inject ≠ .ht1 → strip record.taskId ≠ "" →
    g = .picked (strip record.taskId) record.workerId

include hs in
theorem bears_ht1 {record : ResultRecord} (hg : Due cfg record g) (opName : String) (n : ℕ) :
    BearsTo ring home (retryLoop opName (ht1Op cfg s record) n) (Tried g) g := by
  have hop : BearsTo ring home (ht1Op cfg s record) (Tried g) g := by
    unfold ht1Op
    split_ifs with hinject
    · exact ⟨.inr ⟨_, rfl, rfl⟩⟩
    · refine .bind (bears_put hs (hg hinject)) (fun a g' hg' => ⟨?_⟩) fun e g' hg' => ?_
      · rcases hg' with ⟨_, -, hcalm⟩ | ⟨e, he, -⟩
        · exact .inl ⟨_, rfl, hcalm⟩
        · cases he
      · rcases hg' with ⟨a, ha, -⟩ | ⟨e', -, rfl⟩
        · cases ha
        · exact .inr ⟨e, rfl, rfl⟩
  induction n with
  | zero => exact ⟨.inr ⟨_, rfl, rfl⟩⟩
  | succ n ih =>
    refine .attempt hop fun y g' hg' => ?_
    rcases hg' with ⟨a, rfl, hcalm⟩ | ⟨e, rfl, rfl⟩
    · exact ⟨.inl ⟨a, rfl, hcalm⟩⟩
    · exact ih

include hs in
/-- Steps 3 to 5. -/
theorem bears_persist {record : ResultRecord} (hg : Due cfg record g) :
    BearsTo ring home (persist cfg s record) (fun _ _ => True) g := by
  refine .attempt (bears_ht1 hs hg _ _) fun y g' hg' => ?_
  rcases hg' with ⟨a, rfl, hcalm⟩ | ⟨e, rfl, -⟩
  · have hplacing : Placing (Answers ring home) (Clean ring) (fun _ _ => True) _ := placing_clean
    have hassign : BearsCalm ring home (assign cfg s record) :=
      bears_clean (hplacing.assign (fun o a x ho => ?_) record)
    · exact (hassign.traced hcalm).mono fun _ _ _ => trivial
    · refine clean_of (fun _ _ h => (by subst h; cases ho)) (fun _ _ h => (by subst h; cases ho))
        fun y r hq => ?_
      rw [Op.deletes_of_writes hq.1] at ho
      cases ho
  · exact ⟨trivial⟩

/-! ### Placements -/

/-- The errand of a request before a worker is picked. -/
def Errand.Unplaced (g : Errand) : Prop := g = .idle ∨ ∃ x, g = .asks x

theorem Errand.unplaced_first (cfg : Config) (body : Fields) : (first cfg body).Unplaced := by
  unfold first
  split
  · split_ifs
    · exact .inl rfl
    · exact .inr ⟨_, rfl⟩
  · exact .inl rfl

/-- Before a worker is picked a request stays where it is. -/
theorem bears_steady (hg : g.Unplaced) {α : Type} {p : M α} {Q : α → Prop}
    (hp : Does (Answers ring home) (Steady ring) p Q) :
    Under (Errand.note ring.toOwned) (Answers ring home) (Bears ring home) (· = g) p Q := by
  refine hp.under fun g' o hg' ho => ⟨bears_of_steady ho g', fun r _ => ?_⟩
  subst hg'
  refine steady_note ho (fun v n h => ?_) (.inr fun x v h => ?_) r <;>
    rcases hg with rfl | ⟨x, rfl⟩ <;> cases h

theorem steady_existingRecord (taskId : Json) :
    Runs (Answers ring home) (Steady ring) (existingRecord s taskId) := by
  have hserving : Serving (Answers ring home) (Steady ring) fun _ _ => True := serving_steady
  cases taskId with
  | str id =>
    refine .bind ((hserving.resultGet id).mono fun _ _ => trivial).attempt fun x _ => ?_
    cases x <;> exact .pure trivial
  | _ => exact .pure trivial

/-- A call of a registry that tests who is live. -/
theorem steady_registry {a : Address} {c : Registry.Call} (hq : c.Quiet)
    (hc : ∀ v, c ≠ .noteAssignment v) : Steady ring (.registry a c) :=
  ⟨hq, fun _ v h => hc v (by cases h; rfl)⟩

/-- The worker that is placed is one of the node. -/
theorem steady_placed : Does (Answers ring home) (Steady ring) (placed s) fun y =>
    ∀ v ∈ y, home v = s.node.address := by
  refine .bind (R := fun l : List (String × ℚ) => ∀ e ∈ l, home e.1 = s.node.address)
    (.perform (steady_registry trivial (by simp)) fun l hl => hl) fun scored hscored => ?_
  rcases scored with - | ⟨⟨v, q⟩, l⟩
  · have hturn : Does (Answers ring home) (Steady ring) (act (.registry s.node.address
        .roundRobinAssign)) fun y => ∀ v ∈ (y : Option String), home v = s.node.address :=
      .perform (steady_registry trivial (by simp)) fun y hy => hy
    exact .bind hturn fun y hy => .pure hy
  · refine .pure fun u hu => ?_
    cases hu
    exact hscored _ List.mem_cons_self

theorem steady_spawnAndPlace : Does (Answers ring home) (Steady ring) (spawnAndPlace cfg s)
    fun y => ∀ v ∈ y, home v = s.node.address := by
  unfold spawnAndPlace
  split
  · exact .pure (by simp)
  · have hspawn : Steady ring (.spawn (.rebalance s.node)) :=
      ⟨fun _ _ h => (by cases h.1), fun _ _ h => (by cases h)⟩
    have hwait : ∀ v n, Runs (Answers ring home) (Steady ring) (waitLive s v n) := by
      intro v n
      induction n with
      | zero => exact .pure trivial
      | succ n ih =>
        exact .bind (.step (steady_registry trivial (by simp))) fun live _ =>
          .ite (fun _ => .pure trivial) fun _ => ih
    exact .bind (.step hspawn) fun _ _ => .bind (hwait _ _) fun _ _ => steady_placed

/-- The worker that a request gets, and its errand then. -/
def Gets (g : Errand) (y : Except Exc (Option (Json × AssignedBy))) (g' : Errand) : Prop :=
  ∀ w, y = .ok (some w) → (∃ v, w.1 = .str v ∧ g' = g.pick v) ∨
    (∀ v, w.1 = .str v → v = "") ∧ g' = g

/-- A request that names no worker gets one of the node, if any. -/
theorem bears_determineWorker (hg : g.Unplaced) {provided : Json} (hno : provided.truthy = false) :
    BearsTo ring home (determineWorker cfg s provided) (Gets g) g := by
  have hrest : ∀ chosen : Option String, (∀ v ∈ chosen, home v = s.node.address) →
      BearsTo ring home (if chosen.isNone && cfg.autospawn then pure none else do
        noteAssignment s chosen
        pure (some ((chosen.map Json.str).getD .null, AssignedBy.frontend))) (Gets g) g := by
    intro chosen hhome
    split_ifs
    · exact ⟨fun _ h => (by cases h)⟩
    · rcases chosen with - | v
      · refine ⟨fun w hw => .inr ⟨fun v hv => ?_, rfl⟩⟩
        cases hw
        cases hv
      · by_cases hempty : v = ""
        · subst hempty
          refine ⟨fun w hw => .inr ⟨fun v hv => ?_, rfl⟩⟩
          cases hw
          exact (Json.str.inj hv).symm
        · have hnote : noteAssignment s (some v) =
              act (.registry s.node.address (.noteAssignment v)) := if_neg hempty
          rw [hnote]
          refine .act (fun _ => ⟨hhome v rfl, hempty⟩) fun r _ => ⟨fun w hw => .inl ?_⟩
          cases hw
          exact ⟨v, rfl, rfl⟩
  unfold determineWorker
  rw [if_neg (by simp [hno])]
  refine .bind ((bears_steady hg steady_placed).traced rfl) (fun first g₁ h₁ => ?_)
    fun e _ _ _ h => (by cases h)
  obtain ⟨rfl, hfirst⟩ := h₁
  by_cases hspawn : (first.isNone && cfg.autospawn) = true
  · rw [if_pos hspawn]
    refine .bind ((bears_steady hg steady_spawnAndPlace).traced rfl) (fun chosen g₂ h₂ => ?_)
      fun e _ _ _ h => (by cases h)
    obtain ⟨rfl, hhome⟩ := h₂
    exact hrest chosen (hhome _ rfl)
  · rw [if_neg hspawn]
    exact hrest first (hfirst _ rfl)

include hs in
/-- Steps 2 to 5: the record that is built is the one that is due. -/
theorem bears_accept {taskId : Json} {details : List (String × Json)} {taskType : TaskType}
    {w : Option (Json × AssignedBy)} (hdue : ∀ e ∈ w, ∀ {path script : Json} {now : ℕ}
      {record : ResultRecord},
      buildResultRecord taskId taskType path script e.1 e.2 now = .ok record → Due cfg record g)
    (hbeats : ∀ e ∈ w, ∀ v n, g ≠ .beats v n) :
    BearsTo ring home (accept cfg s taskId taskType details w) (fun _ _ => True) g := by
  rcases w with - | ⟨workerId, assignedBy⟩
  · exact ⟨trivial⟩
  · have hnow : Steady ring .now := ⟨fun _ _ h => (by cases h.1), fun _ _ h => (by cases h)⟩
    refine .act (bears_of_steady hnow g) fun now _ => ?_
    rw [steady_note hnow (hbeats _ rfl) (.inl rfl)]
    split
    · exact ⟨trivial⟩
    · exact ⟨trivial⟩
    case h_3 record hbuild => exact bears_persist hs (hdue _ rfl hbuild)

/-- The record that is built of a request is the one that is due. -/
theorem due_of_build {body : Fields} {taskType : TaskType} {path script : Json} {now : ℕ}
    {record : ResultRecord} {w : Json × AssignedBy}
    (hw : (∃ v, w.1 = .str v ∧ g = (Errand.first cfg body).pick v) ∨
      (∀ v, w.1 = .str v → v = "") ∧ g = Errand.first cfg body)
    (h : buildResultRecord (body.getD "task_id" .null) taskType path script w.1 w.2 now =
      .ok record) : Due cfg record g := by
  intro hinject hstrip
  unfold buildResultRecord at h
  split at h
  case h_1 id v hid hv =>
    split_ifs at h with hempty hworker
    cases h
    rcases hw with ⟨u, hu, rfl⟩ | ⟨hnone, -⟩
    · obtain rfl : u = v := Json.str.inj (hu.symm.trans hv)
      have hfirst : Errand.first cfg body = .asks (strip id) := by
        unfold Errand.first
        rw [hid]
        exact if_neg fun h => h.elim hstrip hinject
      rw [hfirst]
      rfl
    · exact absurd (hnone v hv) hworker
  · cases h
  · cases h

include hs in
/-- **A request for a task** that names no worker. -/
theorem bears_createTask {body : Fields} (hno : (body.getD "worker_id" .null).truthy = false) :
    BearsTo ring home (createTask cfg s body) (fun _ _ => True) (Errand.first cfg body) := by
  have hg := Errand.unplaced_first cfg body
  unfold createTask
  split_ifs
  · exact ⟨trivial⟩
  split
  · exact ⟨trivial⟩
  case h_2 details _ =>
    cases taskTypeOf (fieldOr details "task_type" .null) with
    | error e => exact ⟨trivial⟩
    | ok taskType =>
      cases taskType with
      | none => exact ⟨trivial⟩
      | some taskType =>
        rw [lift_ok_bind]
        refine .bind ((bears_steady hg (steady_existingRecord _)).traced rfl)
          (fun existing g₁ h₁ => ?_) fun _ _ _ => trivial
        obtain ⟨rfl, -⟩ := h₁
        cases existing with
        | some r => exact ⟨trivial⟩
        | none =>
          refine .bind (bears_determineWorker hg hno) (fun w g₂ h₂ => ?_) fun _ _ _ => trivial
          refine bears_accept hs (fun e he path script now record hbuild => ?_) fun e he v n h => ?_
          · exact due_of_build (h₂ e (by rw [he])) hbuild
          · have hpicked : g₂ ≠ .beats v n := by
              rcases h₂ e (by rw [he]) with ⟨u, -, rfl⟩ | ⟨-, rfl⟩ <;>
                rcases hg with hg | ⟨x, hg⟩ <;> rw [hg] <;> simp [Errand.pick]
            exact hpicked h

end Requests

end Programs

end Server
end ChordInfra
