/-
# Executions that are counted

A worker process executes a task and reports how it ended; the handler of the report counts the
execution for the worker that the record of the task names.  An `Account` is how far a thread has
got with an execution: a report that was counted and is served again counts the execution again, and
the record may name another worker by now.

`counted_once` is the theorem for runs in which neither happens and no report is given up, with any
number of nodes and workers, scans, rebalances and requests, any order of the single operations and
any requests lost: every execution is counted once, for the worker that executed.
-/

import ChordInfra.Interact.Count
import ChordInfra.Server.OneNode
import ChordInfra.Server.System

namespace ChordInfra
namespace Server

open Interact Prog
open Storage
open Storage.Serving (Runs)
open ChordInfra.Ring (NodeRef)
open Workers (Process Registry)

/-! ### Accounts -/

/-- How far a thread has got with an execution. -/
inductive Account
  /-- There is none that is not reported. -/
  | idle
  /-- The worker `v`, whose node is at `a`, executed; the records that were read since name
  `named`. -/
  | owes (a : Address) (v : String) (named : List String)
  /-- The execution was counted. -/
  | counted
  /-- It was counted, and its report is served again. -/
  | again
deriving DecidableEq

/-- The worker that a value names, if it is the record of a task. -/
def namedBy (v : Option Value) : List String :=
  ((v.bind Value.asResult).map ResultRecord.workerId).toList

/-- The worker that is named by what an operation reads. -/
def names : (o : Op) → o.Res → List String
  | .get _ _, v => namedBy v
  | .rpc _ (.get _), v => namedBy (Option.join v)
  | .rpc _ (.getReplica _), v => namedBy (Option.join v)
  | _, _ => []

namespace Account

/-- Records that name workers are read. -/
def reads (l : List String) : Account → Account
  | owes a v named => owes a v (l ++ named)
  | g => g

/-- The execution is counted. -/
def count : Account → Account
  | idle => idle
  | _ => counted

/-- The report is on its way. -/
def deliver (d : Delivery) : Account → Account
  | counted => if d = .lost then counted else again
  | g => g

/-- What becomes of an account with an operation. -/
def note (services : NodeRef → Service) (g : Account) : (o : Op) → o.Res → Account
  | .execute p _ _, _ => owes (services p.frontend).node.address p.workerId []
  | .registry _ (.recordCompletion ..), _ => g.count
  | .memory _ (.finish _), _ => idle
  | .deliver _ (.complete ..), d => g.deliver d
  | o, r => g.reads (names o r)

/-- The handler of a report is at work, or nothing was counted yet. -/
def Handling (a : Address) (v : String) (g : Account) : Prop := g = again ∨ ∃ l, g = owes a v l

/-- And a record was read that names the worker `u`. -/
def Read (a : Address) (v u : String) (g : Account) : Prop :=
  g = again ∨ ∃ l, g = owes a v l ∧ u ∈ l

/-- The worker reports. -/
def Reporting (a : Address) (v : String) (g : Account) : Prop := g = counted ∨ g.Handling a v

/-- An execution of the worker is not counted yet. -/
def Owes (a : Address) (v : String) (g : Account) : Prop := ∃ l, g = owes a v l

end Account

/-- An operation that neither executes nor counts, and no test or update of a worker's state. -/
def Uncounted : Op → Prop
  | .execute .. | .memory .. => False
  | .registry _ c => ¬c.Credits
  | _ => True

/-- Only who has executed nothing yet executes; an execution is counted at the worker's node, for a
worker that a record names that was read since. -/
def Settles (g : Account) : Op → Prop
  | .execute .. => g = .idle
  | .registry b (.recordCompletion u _) => ∃ v, g.Read b v u
  | _ => True

section Notes

variable {services : NodeRef → Service} {a : Address} {u v : String} {g : Account} {o : Op}

theorem settles_of_uncounted (ho : Uncounted o) : Settles g o := by
  cases o with
  | execute => exact ho.elim
  | registry b c =>
    cases c with
    | recordCompletion => exact absurd trivial ho
    | _ => trivial
  | _ => trivial

/-- What the other operations do to an account. -/
theorem note_uncounted (services : NodeRef → Service) (ho : Uncounted o) (g : Account) (r : o.Res) :
    g.note services o r = g.reads (names o r) ∨
      ∃ d, g.note services o r = g.deliver d ∧ names o r = [] := by
  cases o with
  | execute => exact ho.elim
  | memory => exact ho.elim
  | registry b c =>
    cases c with
    | recordCompletion => exact absurd trivial ho
    | _ => exact .inl rfl
  | deliver b c =>
    cases c with
    | complete t s j => exact .inr ⟨r, rfl, rfl⟩
    | _ => exact .inl rfl
  | _ => exact .inl rfl

theorem idle_note (ho : Uncounted o) (hg : g = .idle) (r : o.Res) : g.note services o r = .idle := by
  subst hg
  rcases note_uncounted services ho .idle r with h | ⟨d, h, -⟩
  · exact h
  · exact h

theorem handling_note (ho : Uncounted o) (hg : g.Handling a v) (r : o.Res) :
    (g.note services o r).Handling a v := by
  rcases note_uncounted services ho g r with h | ⟨d, h, -⟩ <;> rw [h] <;>
    rcases hg with rfl | ⟨l, rfl⟩
  · exact .inl rfl
  · exact .inr ⟨_, rfl⟩
  · exact .inl rfl
  · exact .inr ⟨_, rfl⟩

/-- A worker that a record names stays one, and so is one that is named by what is read. -/
theorem read_note (ho : Uncounted o) (hg : g.Handling a v) (r : o.Res)
    (hu : g.Read a v u ∨ u ∈ names o r) : (g.note services o r).Read a v u := by
  rcases note_uncounted services ho g r with h | ⟨d, h, hnone⟩ <;> rw [h] <;>
    rcases hg with rfl | ⟨l, rfl⟩
  · exact .inl rfl
  · refine .inr ⟨_, rfl, List.mem_append.2 ?_⟩
    rcases hu with (h | ⟨l', h, hmem⟩) | hmem
    · cases h
    · cases h
      exact .inr hmem
    · exact .inl hmem
  · exact .inl rfl
  · rw [hnone] at hu
    exact hu.resolve_right (by simp)

theorem Account.Read.handling (h : g.Read a v u) : g.Handling a v := by
  rcases h with rfl | ⟨l, rfl, -⟩
  · exact .inl rfl
  · exact .inr ⟨l, rfl⟩

end Notes

/-! ### Programs -/

section Programs

variable {services : NodeRef → Service} {a : Address} {v : String} {g : Account} {s : Service}
  {A : (o : Op) → o.Res → Prop} {φ : Key → Value → Prop}

theorem serving_uncounted (hget : ∀ a k x, A (.get a k) (some x) → φ k x)
    (hrpc : ∀ a k x, A (.rpc a (.get k)) (some (some x)) → φ k x)
    (hreplica : ∀ a k x, A (.rpc a (.getReplica k)) (some (some x)) → φ k x) :
    Serving A Uncounted φ where
  get a k := ⟨trivial, hget a k⟩
  rpcGet a k := ⟨trivial, hrpc a k⟩
  getReplica a k := ⟨trivial, hreplica a k⟩
  getState _ := trivial
  findSuccessor _ _ := trivial
  now := trivial
  lock _ _ := trivial
  unlock _ _ := trivial
  deliver _ _ := trivial
  writes o _ _ _ ho := by cases o <;> trivial

theorem uncounted_of_writes {o : Op} {e : Address × Key × Value} (h : o.writes = some e) :
    Uncounted o := by
  cases o <;> trivial

theorem uncounted_of_deletes {o : Op} {e : Address × Key} (h : o.deletes = some e) :
    Uncounted o := by
  cases o <;> trivial

/-- What the handlers, the scans and the rebalances do, who count nothing. -/
theorem acting_uncounted :
    Acting (fun _ _ => True) Uncounted (fun _ _ => True) (fun _ => True) False := by
  have hserving : Serving (fun _ _ => True) Uncounted fun _ _ => True :=
    serving_uncounted (fun _ _ _ _ => trivial) (fun _ _ _ _ => trivial) fun _ _ _ _ => trivial
  refine ⟨⟨⟨hserving, fun s _ id r _ _ => ?_, fun a c _ hc => hc, fun j => trivial⟩, fun a => ?_⟩,
    fun o a x ho => uncounted_of_deletes ho, fun a c _ hc => hc, fun a c => trivial⟩
  · exact hserving.resultPut fun o a x _ ho => uncounted_of_writes ho
  · exact ⟨trivial, fun _ _ _ _ => ⟨trivial, fun _ _ => trivial⟩⟩

/-- What a program settles. -/
abbrev Pays (services : NodeRef → Service) {α : Type} (p : M α) (T : Except Exc α → Account → Prop)
    (g : Account) : Prop :=
  Traced (Account.note services) (fun _ _ => True) Settles p T g

/-- What a program settles that leaves something of its account. -/
abbrev PaysUnder (services : NodeRef → Service) (I : Account → Prop) {α : Type} (p : M α) : Prop :=
  Under (Account.note services) (fun _ _ => True) Settles I p fun _ => True

/-- A program that counts nothing. -/
theorem pays_uncounted {I : Account → Prop} {α : Type} {p : M α}
    (hp : Runs (fun _ _ => True) Uncounted p)
    (hI : ∀ g o r, I g → Uncounted o → I (g.note services o r)) : PaysUnder services I p :=
  hp.under fun g o hg ho => ⟨settles_of_uncounted ho, fun r _ => hI g o r hg ho⟩

/-- And that has nothing to report. -/
theorem pays_idle {α : Type} {p : M α} (hp : Runs (fun _ _ => True) Uncounted p) :
    PaysUnder services (· = .idle) p :=
  pays_uncounted hp fun _ _ r hg ho => idle_note ho hg r

/-- A test or an update of the state of a worker that has nothing to report. -/
theorem pays_memory (p : Process) (c : Workers.Memory.Call) :
    PaysUnder services (· = .idle) (act (.memory p c)) := by
  refine ⟨fun g hg => ⟨trivial, fun r _ => ⟨?_, fun _ _ => trivial⟩⟩⟩
  subst hg
  cases c <;> rfl

/-! ### Reports -/

/-- What the service of results ends with was read. -/
theorem pays_resultGet (taskId : String) (hg : g.Handling a v) :
    Pays services (ResultService.get s taskId) (fun x g' => g'.Handling a v ∧
      ∀ y, x = .ok y → ∀ r, y = some r → g'.Read a v r.workerId) g := by
  refine Does.recall (fun o r u => u ∈ names o r) (fun g u => Account.Read a v u g)
    (fun φ y => ∀ r : ResultRecord, y = some r → φ r.workerId)
    (fun g o hg (ho : Uncounted o) => ⟨settles_of_uncounted ho, fun r _ =>
      ⟨handling_note ho hg r, fun u hu => read_note ho hg r hu⟩⟩) hg fun φ _ => ?_
  have hserving : Serving (fun o (r : o.Res) => ∀ u, u ∈ names o r → φ u) Uncounted
      fun _ x => ∀ u ∈ namedBy (some x), φ u :=
    serving_uncounted (fun _ _ _ h => h) (fun _ _ _ h => h) fun _ _ _ h => h
  refine (hserving.resultGet taskId).mono fun y hy r hr => ?_
  subst hr
  exact (hy r rfl).elim (fun h => h _ (by simp [namedBy, Value.asResult]))
    fun h => h _ (by simp [namedBy, Value.asResult])

/-- A record that was read is written and its worker credited. -/
theorem pays_writeReport {taskId : String} {status : Status} {result : Json}
    {existing : ResultRecord} (hg : g.Read s.node.address v existing.workerId) :
    Pays services (writeReport s taskId status result existing)
      (fun _ g' => g'.Reporting s.node.address v) g := by
  have hread : ∀ {α : Type} {p : M α}, Runs (fun _ _ => True) Uncounted p →
      PaysUnder services (Account.Read s.node.address v existing.workerId) p :=
    fun hp => pays_uncounted hp fun _ _ r hg ho => read_note ho hg.handling r (.inl hg)
  have hreport : ∀ {g : Account}, g.Read s.node.address v existing.workerId →
      g.Reporting s.node.address v := fun hg => .inr hg.handling
  have hnow : Runs (fun _ _ => True) Uncounted (act .now) := .step trivial
  refine .bind ((hread hnow).traced hg) (fun now g₁ h₁ => ?_) fun e g₁ h₁ => hreport h₁.1
  refine .attempt ((hread (acting_uncounted.putKept law_trivial.toUpdateLaw trivial trivial)).traced
    h₁.1) fun y g₂ h₂ => ?_
  cases y with
  | error e => exact ⟨hreport h₂.1⟩
  | ok y =>
    have hcleanup : Runs (fun _ _ => True) Uncounted
        (startCleanup s existing.workerId taskId status) :=
      .ite (fun _ => .step trivial) fun _ => .pure trivial
    refine .bind ((hread hcleanup).traced h₂.1) (fun _ g₃ h₃ => ?_) fun e g₃ h₃ => hreport h₃.1
    refine .act ⟨v, h₃.1⟩ fun r _ => ⟨.inl ?_⟩
    rcases h₃.1 with rfl | ⟨l, rfl, -⟩ <;> rfl

/-- The handler of a report. -/
theorem pays_resultComplete (taskId : String) (status result : Json)
    (hg : g.Handling s.node.address v) :
    Pays services (resultComplete s taskId status result)
      (fun _ g' => g'.Reporting s.node.address v) g := by
  refine .bind (T := fun _ g' => g'.Handling s.node.address v) ?_ (fun st g₁ h₁ => ?_)
    fun e g₁ h₁ => .inr h₁
  · have hlift : PaysUnder services (Account.Handling s.node.address v)
        (Storage.lift (reportedStatus status)) :=
      pays_uncounted (Serving.lift fun _ _ => trivial) fun _ _ r hg ho => handling_note ho hg r
    exact (hlift.traced hg).mono fun _ _ h => h.1
  · cases st with
    | none => exact ⟨.inr h₁⟩
    | some st =>
      refine .bind (pays_resultGet taskId h₁) (fun existing g₂ h₂ => ?_) fun e g₂ h₂ => .inr h₂.1
      cases existing with
      | none => exact ⟨.inr h₂.1⟩
      | some r => exact pays_writeReport (h₂.2 _ rfl r rfl)

/-- The worker reports on, and nothing was raised. -/
def Reports {α : Type} (a : Address) (v : String) (x : Except Exc α) (g : Account) : Prop :=
  (∃ y, x = .ok y) ∧ g.Reporting a v

/-- A try of a report. -/
theorem pays_callComplete (taskId : String) (status result : Json)
    (hg : g.Reporting s.node.address v) :
    Pays services (callOnce s.node.address (.complete taskId status result)
      (resultComplete s taskId status result)) (Reports s.node.address v) g := by
  have hserved : ∀ d : Delivery, d ≠ .lost → (g.deliver d).Handling s.node.address v := by
    intro d hd
    rcases hg with rfl | rfl | ⟨l, rfl⟩
    · exact .inl (if_neg hd)
    · exact .inl rfl
    · exact .inr ⟨l, rfl⟩
  have hlost : (g.deliver .lost).Reporting s.node.address v := by
    rcases hg with rfl | rfl | ⟨l, rfl⟩
    · exact .inl rfl
    · exact .inr (.inl rfl)
    · exact .inr (.inr ⟨l, rfl⟩)
  refine .act trivial fun d _ => ?_
  cases d with
  | delivered =>
    refine .attempt (pays_resultComplete taskId status result (hserved .delivered (by decide)))
      fun x g' hg' => ?_
    cases x <;> exact ⟨⟨_, rfl⟩, hg'⟩
  | lost => exact ⟨⟨_, rfl⟩, hlost⟩
  | replyLost =>
    exact .attempt (pays_resultComplete taskId status result (hserved .replyLost (by decide)))
      fun x g' hg' => ⟨⟨_, rfl⟩, hg'⟩

theorem pays_report (taskId status : String) (result : Json) (hg : g.Reporting s.node.address v) :
    Pays services (report s taskId status result) (Reports s.node.address v) g := by
  suffices htries : ∀ n g, Account.Reporting s.node.address v g →
      Pays services (reportTries s taskId status result n) (Reports s.node.address v) g from
    htries _ g hg
  intro n
  induction n with
  | zero => exact fun g hg => ⟨⟨_, rfl⟩, hg⟩
  | succ n ih =>
    intro g hg
    refine .bind (pays_callComplete taskId _ result hg) (fun x g' hg' => ?_) fun e g' hg' => ?_
    · split
      · exact ⟨⟨_, rfl⟩, hg'.2⟩
      · exact ih g' hg'.2
    · obtain ⟨⟨y, hy⟩, -⟩ := hg'
      cases hy

/-! ### Workers -/

variable {p : Process} (hs : s = services p.frontend)

include hs

/-- An execution is reported at the worker's own node. -/
theorem pays_executeAndReport (taskId : String) (record : ResultRecord) :
    PaysUnder services (· = .idle) (executeAndReport s p taskId record) := by
  refine .of_traced fun g hg => ?_
  subst hg hs
  refine .act trivial fun _ _ => .act rfl fun result _ => ?_
  have hreport : Pays services (report (services p.frontend) taskId (outcome result).1
      (outcome result).2) (Reports (services p.frontend).node.address p.workerId)
      (.owes (services p.frontend).node.address p.workerId []) :=
    pays_report _ _ _ (.inr (.inr ⟨[], rfl⟩))
  refine .bind hreport (fun _ g' _ => ⟨trivial, fun _ _ => rfl⟩) fun e g' hg' => ?_
  obtain ⟨⟨y, hy⟩, -⟩ := hg'
  cases hy

omit hs in
theorem pays_sendHeartbeat : PaysUnder services (· = .idle) (sendHeartbeat s p) := by
  refine .bind (pays_memory p .pending) fun pending _ => pays_idle ?_
  refine .bind (.step trivial) fun now _ => ?_
  exact .bind (acting_uncounted.callOnce (acting_uncounted.heartbeat _ _ _ _)) fun _ _ =>
    .pure trivial

/-- A worker process has nothing to report between its executions. -/
theorem toils_idle :
    Toils (Account.note services) (fun _ _ => True) Settles (· = .idle) s p where
  assigned := pays_idle (acting_uncounted.fetchAssigned p)
  record t := pays_idle ((acting_uncounted.fetchRecord t).mono fun _ _ => trivial)
  memory c _ := pays_memory p c
  spawn _ _ := pays_idle (.step trivial)
  execute t r := pays_executeAndReport hs t r
  beat := pays_sendHeartbeat

end Programs

/-! ### What comes in -/

section Enters

variable {services : NodeRef → Service}

/-- A worker process works at its own node, and nobody else reports. -/
def Activity.Own (services : NodeRef → Service) : Activity → Prop
  | .report .. => False
  | .work s p _ => s = services p.frontend
  | _ => True

/-- What comes in has nothing to report when it ends. -/
theorem pays_activity {a : Activity} (ha : a.Own services) :
    PaysUnder services (· = .idle) a.program := by
  have hquiet : ∀ {α : Type} {p : M α}, Runs (fun _ _ => True) Uncounted p →
      PaysUnder services (· = .idle) (quietly p) := fun hp => pays_idle (runs_quietly hp)
  cases a with
  | create cfg s body =>
    exact hquiet (acting_uncounted.createTask law_trivial.toHandlerLaw trivial
      (fun _ _ => acting_uncounted.assign acting_uncounted.deletes _) body)
  | report => exact ha.elim
  | scan cfg s o => exact pays_idle (acting_uncounted.trigger law_trivial trivial o)
  | rebalance s => exact hquiet (acting_uncounted.doRebalance law_trivial.toUpdateLaw)
  | heartbeat s v n t token => exact hquiet (acting_uncounted.heartbeat _ _ _ _)
  | kill s v => exact pays_idle (acting_uncounted.killWorker v)
  | work s p n => exact (toils_idle ha).runWorker n
  | beat s p n => exact Toils.heartbeatLoop pays_sendHeartbeat n

theorem pays_job (j : Job) : PaysUnder services (· = .idle) (jobProgram services j) := by
  cases j with
  | cleanup node v t => exact pays_idle (acting_uncounted.cleanup v t)
  | rebalance node =>
    exact pays_idle (.bind (acting_uncounted.doRebalance law_trivial.toUpdateLaw).attempt
      fun _ _ => .pure trivial)
  | execute p t r => exact pays_executeAndReport rfl t r

end Enters

/-! ### Counts -/

section Counts

variable (services : NodeRef → Service) {env : Env} {w : World} {o : Op} {a : Address} {v : String}

/-- The `total_executed` of a worker at a node. -/
def credited (w : World) (a : Address) (v : String) : ℕ := (w.registries a).totalExecuted v

/-- An execution by the worker `v`, whose node is at `a`. -/
def executesFor (a : Address) (v : String) : Op → Bool
  | .execute p _ _ => (services p.frontend).node.address = a ∧ p.workerId = v
  | _ => false

/-- How often the worker `v`, whose node is at `a`, executed a task. -/
def executions (w : World) (a : Address) (v : String) : ℕ :=
  w.trace.countP fun e => executesFor services a v e.1

theorem executions_handle (env : Env) (o : Op) (w : World) (a : Address) (v : String) :
    executions services (handle env o w).2 a v =
      executions services w a v + if executesFor services a v o then 1 else 0 := by
  obtain ⟨d, hd⟩ := handle_trace env o w
  rw [executions, hd, List.countP_cons]
  rfl

/-- An execution is counted for a worker. -/
theorem credited_recordCompletion (env : Env) (b : Address) (u : String) (ok : Bool) (w : World)
    (a : Address) (hv : v ≠ "") :
    credited (handle env (.registry b (.recordCompletion u ok)) w).2 a v =
      credited w a v + if b = a ∧ u = v then 1 else 0 := by
  rw [credited, registry_handle]
  by_cases hab : a = b
  · subst hab
    rw [if_pos rfl]
    refine ((w.registries a).totalExecuted_recordCompletion u ok hv).trans ?_
    simp only [true_and, credited]
  · rw [if_neg hab, if_neg fun h => hab h.1.symm]
    rfl

/-- Nothing else counts an execution. -/
theorem credited_handle (ho : ∀ b c, o = .registry b c → ¬c.Credits) (w : World) (a : Address)
    (v : String) : credited (handle env o w).2 a v = credited w a v := by
  cases o with
  | registry b c =>
    rw [credited, registry_handle]
    by_cases hab : a = b
    · subst hab
      rw [if_pos rfl]
      exact (w.registries a).totalExecuted_call _ (ho a c rfl) v
    · rw [if_neg hab]
      rfl
  | _ => rfl

end Counts

/-! ### Runs -/

section Runs

variable (env : Env) (services : NodeRef → Service)

/-- The nodes and the workers at work, with the accounts of their threads. -/
def tallying : System Op Op.Res Exc Unit Account World where
  handle := handle env
  enabled := enabled
  note := Account.note services
  launch
    | .spawn j => some ⟨.idle, jobProgram services j⟩
    | _ => none

/-- What comes in. -/
def Enrolls (t : Thread Op Op.Res Exc Unit Account) : Prop :=
  ∃ a : Activity, a.Own services ∧ t = ⟨.idle, a.program⟩

/-- A world without threads. -/
def unstarted (ι : Type) (w : World) : Pool ι Op Op.Res Exc Unit Account World :=
  ⟨fun _ => none, w⟩

/-- The operation is a call that is served. -/
def serves (w : World) : Op → Bool
  | .deliver a c => env.deliverCall w.trace.length a c ≠ .lost
  | _ => false

/-- What an operation finds in a store. -/
def found (w : World) : Op → Option Value
  | .get a k | .rpc a (.get k) | .rpc a (.getReplica k) => (w.stores a).get k
  | _ => none

/-- The operation ends what a worker does about an execution. -/
def finishes : Op → Bool
  | .memory _ (.finish _) => true
  | _ => false

/-- A step that is fair to a thread: a report that was counted is not served again, a record that is
read names the worker that executed, and a report is not given up before it was counted. -/
def Fair (w : World) (o : Op) : Account → Prop
  | .counted => serves env w o = false
  | .owes _ v _ => (∀ u ∈ namedBy (found w o), u = v) ∧ finishes o = false
  | _ => True

instance (w : World) (o : Op) (g : Account) : Decidable (Fair env w o g) :=
  match g with
  | .counted => inferInstanceAs (Decidable (_ = _))
  | .owes .. => inferInstanceAs (Decidable (_ ∧ _))
  | .idle | .again => isTrue trivial

/-- Every step is fair. -/
def Fairly (ι : Type) : Cond ι Op Account World := fun γ w i o => ∀ g ∈ γ i, Fair env w o g

instance (ι : Type) (γ : ι → Option Account) (w : World) (i : ι) (o : Op) :
    Decidable (Fairly env ι γ w i o) :=
  inferInstanceAs (Decidable (∀ g ∈ γ i, Fair env w o g))

/-- No report is served again, and what was read since an execution names its worker. -/
def Account.Honest : Account → Prop
  | .owes _ v named => ∀ u ∈ named, u = v
  | .again => False
  | _ => True

/-- What was counted since the start, and what is still to be counted, is what was executed. -/
structure Tally (start : World) {ι : Type} (γ : ι → Option Account) (w : World) : Prop where
  few : Few γ
  honest : ∀ i g, γ i = some g → g.Honest
  adds : ∀ a v, v ≠ "" → credited w a v + headcount (Account.Owes a v) γ + executions services start a v
    = credited start a v + executions services w a v

variable {env services} {start w : World} {ι : Type} [DecidableEq ι] {γ : ι → Option Account}
  {i slot : ι} {g g' : Account} {o : Op} {launched : Option Account}

/-- What an operation reads is what it finds. -/
theorem mem_names {u : String} (h : u ∈ names o (handle env o w).1) : u ∈ namedBy (found w o) := by
  cases o with
  | get a k => exact h
  | rpc a r =>
    cases r with
    | get k =>
      cases hx : (handle env (.rpc a (.get k)) w).1 with
      | none =>
        rw [hx] at h
        cases h
      | some x =>
        rw [hx, ← answered hx] at h
        exact h
    | getReplica k =>
      cases hx : (handle env (.rpc a (.getReplica k)) w).1 with
      | none =>
        rw [hx] at h
        cases h
      | some x =>
        rw [hx, ← answered hx] at h
        cases k with
        | task id =>
          -- what is kept under the key of a task is shown only when it is a task
          have hnone : ∀ x : Option Value, namedBy (x.bind fun v => v.asTask.map .task) = [] := by
            rintro (- | v)
            · rfl
            · cases v <;> rfl
          have hmem : u ∈ namedBy (((w.stores a).get (.task id)).bind fun v => v.asTask.map .task) :=
            h
          rw [hnone] at hmem
          cases hmem
        | _ => exact h
    | _ => cases h
  | _ => cases h

theorem owes_reads {a : Address} {v : String} (l : List String) :
    (g.reads l).Owes a v ↔ g.Owes a v := by
  cases g with
  | owes b u named =>
    constructor <;> rintro ⟨l', h⟩ <;> cases h <;> exact ⟨_, rfl⟩
  | _ => exact Iff.rfl

theorem Account.Honest.reads (h : g.Honest) (hfair : Fair env w o g) :
    (g.reads (names o (handle env o w).1)).Honest := by
  cases g with
  | owes a v named =>
    intro u hu
    rcases List.mem_append.1 hu with hread | hnamed
    · exact hfair.1 u (mem_names hread)
    · exact h u hnamed
  | _ => exact h

section Step

variable (h : Tally services start γ w) (hi : γ i = some g)
  (hslot : ∀ t, launched = some t → γ slot = none) (hlaunched : ∀ t, launched = some t → t = .idle)

include h hi hslot hlaunched

/-- A step that neither executes nor counts. -/
theorem Tally.quiet (howes : ∀ a v, g'.Owes a v ↔ g.Owes a v) (hhonest : g'.Honest)
    (hcounts : ∀ b c, o = .registry b c → ¬c.Credits)
    (hexecutes : ∀ a v, executesFor services a v o = false) :
    Tally services start (stepped γ i g' slot launched) (handle env o w).2 := by
  refine ⟨h.few.stepped i g' slot launched, fun j x hj => ?_, fun a v hv => ?_⟩
  · refine forall_stepped h.honest hi hslot hhonest (fun t ht => ?_) hj
    rw [hlaunched t ht]
    trivial
  · rw [credited_handle hcounts, executions_handle, hexecutes a v,
      headcount_same hi hslot (fun t ht => ?_) (howes a v)]
    · exact h.adds a v hv
    · rw [hlaunched t ht]
      rintro ⟨l, hl⟩
      cases hl

/-- An execution is still to be counted. -/
theorem Tally.executes {p : Process} {t : String} {r : ResultRecord}
    (ho : o = .execute p t r) (hg : g = .idle)
    (hg' : g' = .owes (services p.frontend).node.address p.workerId []) :
    Tally services start (stepped γ i g' slot launched) (handle env o w).2 := by
  subst ho hg hg'
  have hidle : ∀ a v t, launched = some t → ¬Account.Owes a v t := by
    rintro a v t ht ⟨l, hl⟩
    rw [hlaunched t ht] at hl
    cases hl
  refine ⟨h.few.stepped .., fun j x hj => ?_, fun a v hv => ?_⟩
  · refine forall_stepped h.honest hi hslot (by simp [Account.Honest]) (fun t ht => ?_) hj
    rw [hlaunched t ht]
    trivial
  · have hadds := h.adds a v hv
    rw [credited_handle fun _ _ he => (by cases he), executions_handle]
    by_cases hwho : (services p.frontend).node.address = a ∧ p.workerId = v
    · obtain ⟨rfl, rfl⟩ := hwho
      rw [headcount_gain h.few hi hslot (hidle _ _) (by rintro ⟨l, hl⟩; cases hl) ⟨[], rfl⟩,
        if_pos (by simp [executesFor])]
      omega
    · rw [headcount_same hi hslot (hidle a v) ?_, if_neg (by simpa [executesFor] using hwho)]
      · exact hadds
      · constructor
        · rintro ⟨l, hl⟩
          cases hl
          exact absurd ⟨rfl, rfl⟩ hwho
        · rintro ⟨l, hl⟩
          cases hl

/-- An execution is counted. -/
theorem Tally.counts {b : Address} {u : String} {ok : Bool}
    (ho : o = .registry b (.recordCompletion u ok)) (hread : ∃ v, g.Read b v u)
    (hg' : g' = g.count) :
    Tally services start (stepped γ i g' slot launched) (handle env o w).2 := by
  obtain ⟨v, rfl | ⟨named, rfl, hu⟩⟩ := hread
  · exact (h.honest i _ hi).elim
  obtain rfl : u = v := h.honest i _ hi u hu
  subst ho hg'
  have hidle : ∀ a v t, launched = some t → ¬Account.Owes a v t := by
    rintro a v t ht ⟨l, hl⟩
    rw [hlaunched t ht] at hl
    cases hl
  refine ⟨h.few.stepped .., fun j x hj => ?_, fun a v hv => ?_⟩
  · refine forall_stepped h.honest hi hslot (by trivial) (fun t ht => ?_) hj
    rw [hlaunched t ht]
    trivial
  · have hadds := h.adds a v hv
    have hnot : executesFor services a v (.registry b (.recordCompletion u ok)) = false := rfl
    rw [credited_recordCompletion env b u ok w a hv, executions_handle, hnot]
    by_cases hwho : b = a ∧ u = v
    · obtain ⟨rfl, rfl⟩ := hwho
      have hloss : headcount (Account.Owes b u) (stepped γ i (Account.owes b u named).count slot
          launched) + 1 = headcount (Account.Owes b u) γ :=
        headcount_loss h.few hi hslot (hidle b u) ⟨named, rfl⟩ (by rintro ⟨l, hl⟩; cases hl)
      rw [if_pos (And.intro rfl rfl), if_neg Bool.false_ne_true]
      omega
    · rw [if_neg hwho, if_neg Bool.false_ne_true, headcount_same hi hslot (hidle a v) ?_]
      · exact hadds
      · constructor
        · rintro ⟨l, hl⟩
          cases hl
        · rintro ⟨l, hl⟩
          cases hl
          exact absurd ⟨rfl, rfl⟩ hwho

/-- **A fair step keeps the tally.** -/
theorem Tally.act (ho : Settles g o) (hfair : Fair env w o g)
    (hg' : g' = g.note services o (handle env o w).1) :
    Tally services start (stepped γ i g' slot launched) (handle env o w).2 := by
  have hhonest := h.honest i g hi
  have hsame : (g.note services o (handle env o w).1 = g ∨ g.note services o (handle env o w).1 =
      g.reads (names o (handle env o w).1)) → (∀ b c, o = .registry b c → ¬c.Credits) →
      (∀ a v, executesFor services a v o = false) →
      Tally services start (stepped γ i g' slot launched) (handle env o w).2 := by
    intro hnote hcounts hexecutes
    subst hg'
    rcases hnote with hnote | hnote <;> rw [hnote]
    · exact h.quiet hi hslot hlaunched (fun _ _ => Iff.rfl) hhonest hcounts hexecutes
    · exact h.quiet hi hslot hlaunched (fun _ _ => owes_reads _) (hhonest.reads hfair) hcounts
        hexecutes
  cases o with
  | execute p t r => exact h.executes hi hslot hlaunched rfl ho hg'
  | registry b c =>
    cases c with
    | recordCompletion u ok => exact h.counts hi hslot hlaunched rfl ho hg'
    | _ => exact hsame (.inr rfl) (fun _ _ he => by cases he; exact id) fun _ _ => rfl
  | memory p c =>
    cases c with
    | finish t =>
      subst hg'
      cases g with
      | owes a v named => exact absurd hfair.2 (by simp [finishes])
      | again => exact hhonest.elim
      | idle => exact hsame (.inl rfl) (fun _ _ he => (by cases he)) fun _ _ => rfl
      | counted =>
        refine h.quiet hi hslot hlaunched (fun a v => ?_) trivial (fun _ _ he => (by cases he))
          fun _ _ => rfl
        constructor <;> rintro ⟨l, hl⟩ <;> cases hl
    | _ => exact hsame (.inr rfl) (fun _ _ he => (by cases he)) fun _ _ => rfl
  | deliver a c =>
    cases c with
    | complete t status result =>
      refine hsame (.inl ?_) (fun _ _ he => (by cases he)) fun _ _ => rfl
      cases g with
      | counted =>
        have hlost : env.deliverCall w.trace.length a (.complete t status result) = .lost := by
          simpa [Fair, serves] using hfair
        exact if_pos hlost
      | _ => rfl
    | _ => exact hsame (.inr rfl) (fun _ _ he => (by cases he)) fun _ _ => rfl
  | _ => exact hsame (.inr rfl) (fun _ _ he => (by cases he)) fun _ _ => rfl

end Step

omit [DecidableEq ι] in
/-- Nothing was executed yet. -/
theorem Tally.begin (w : World) : Tally services w (fun _ : ι => none) w := by
  refine ⟨few_none, fun i g hi => (by cases hi), fun a v _ => ?_⟩
  rw [headcount_none, Nat.add_zero]

/-- A thread that comes in. -/
theorem Tally.enter (h : Tally services start γ w) (hi : γ i = none) :
    Tally services start (Function.update γ i (some .idle)) w := by
  refine ⟨h.few.enter i _, forall_update (φ := fun _ g => g.Honest) trivial
    fun j _ x hx => h.honest j x hx, fun a v hv => ?_⟩
  rw [headcount_enter hi]
  · exact h.adds a v hv
  · rintro ⟨l, hl⟩
    cases hl

theorem keeps_tally (start : World) :
    Keeps (tallying env services) (Enrolls services) (Fairly env ι) (fun _ _ => True) Settles
      (fun _ _ => True) (Tally services start) := by
  have hjob : ∀ j : Job, wp (Account.note services) (fun _ _ => True) Settles
      (jobProgram services j) (fun _ _ => True) .idle :=
    fun j => wp_mono (fun _ _ _ => trivial) ((pays_job j).holds .idle rfl)
  refine ⟨fun γ w i slot g o h hi ho _ hfair hslot => ⟨trivial, ?_⟩, fun o t ht => ?_,
    fun γ w i t h hi ht => ?_, fun t ht => ?_⟩
  · refine h.act hi (fun t ht => ?_) (fun t ht => ?_) ho (hfair g hi) rfl
    · obtain ⟨t', ht', -⟩ := Option.map_eq_some_iff.1 ht
      exact hslot t' ht'
    · obtain ⟨t', ht', rfl⟩ := Option.map_eq_some_iff.1 ht
      cases o with
      | spawn j =>
        cases ht'
        rfl
      | _ => cases ht'
  · cases o with
    | spawn j =>
      cases ht
      exact hjob j
    | _ => cases ht
  · obtain ⟨a, -, rfl⟩ := ht
    exact h.enter hi
  · obtain ⟨a, ha, rfl⟩ := ht
    exact wp_mono (fun _ _ _ => trivial) ((pays_activity ha).holds .idle rfl)

/-- **Every execution is counted once, for the worker that executed**, in every run of fair steps:
what a node has counted for a worker since the start, with the executions that are still to be
counted, is how often the worker executed a task.  An execution that is reported to its end is not
still to be counted. -/
theorem counted_once {c : Pool ι Op Op.Res Exc Unit Account World}
    (hrun : Steps (tallying env services) (Enrolls services) (Fairly env ι) (unstarted ι start) c)
    (a : Address) {v : String} (hv : v ≠ "") :
    credited c.world a v + headcount (Account.Owes a v) c.ghosts + executions services start a v =
      credited start a v + executions services c.world a v :=
  ((Steps.sound (keeps_tally start) hrun
    ⟨fun i t hi => (by cases hi), .begin start⟩).world).adds a v hv

end Runs

namespace OneNode

/-- Every node is the one node. -/
def everywhere (_ : NodeRef) : Service := services

/-- A thread comes in and takes `n` steps, with free slots for the threads that it launches. -/
def proceeds (i : ℕ) (a : Activity) (n : ℕ) : List (Event ℕ Op Op.Res Exc Unit Account) :=
  .enter i ⟨.idle, a.program⟩ :: (List.range n).map fun k => .act i (100 * (i + 1) + k)

/-- The task `t` is created for the worker `w`, which starts and executes it; the process takes `n`
steps. -/
def executed (n : ℕ) : List (Event ℕ Op Op.Res Exc Unit Account) :=
  proceeds 0 (.create config services (body "t" (some "w"))) 14 ++
  proceeds 1 (.work services process 0) n

theorem enrolls_executed {n i : ℕ} {t : Thread Op Op.Res Exc Unit Account}
    (h : .enter i t ∈ executed n) : Enrolls everywhere t := by
  simp only [executed, proceeds, List.mem_append, List.mem_cons, Event.enter.injEq, List.mem_map,
    reduceCtorEq, and_false, exists_false, or_false] at h
  rcases h with ⟨-, rfl⟩ | ⟨-, rfl⟩
  · exact ⟨.create config services (body "t" (some "w")), trivial, rfl⟩
  · exact ⟨.work services process 0, rfl, rfl⟩

/-- The hypotheses of `counted_once` are satisfiable: the report of the execution arrives once. -/
theorem counted_once_reported : ∃ c : Pool ℕ Op Op.Res Exc Unit Account World,
    Steps (tallying (env 0) everywhere) (Enrolls everywhere) (Fairly (env 0) ℕ)
      (unstarted ℕ World.empty) c ∧
    executions everywhere c.world "a" "w" = 1 ∧ credited c.world "a" "w" = 1 ∧
      headcount (Account.Owes "a" "w") c.ghosts = 0 := by
  have hrun : ((unstarted ℕ World.empty).steps (tallying (env 0) everywhere) (Fairly (env 0) ℕ)
      (executed 23)).map (fun c => (executions everywhere c.world "a" "w",
        credited c.world "a" "w")) = some (1, 1) := by
    decide +kernel
  obtain ⟨c, hc, hfacts⟩ := Option.map_eq_some_iff.1 hrun
  obtain ⟨hexecuted, hcredited⟩ := Prod.mk.inj hfacts
  have hsteps : Steps (tallying (env 0) everywhere) (Enrolls everywhere) (Fairly (env 0) ℕ)
      (unstarted ℕ World.empty) c := .of_steps (fun i t ht => enrolls_executed ht) hc
  have hadds := counted_once hsteps "a" (v := "w") (by decide)
  have hstart : credited World.empty "a" "w" = 0 ∧
      executions everywhere World.empty "a" "w" = 0 := by decide
  refine ⟨c, hsteps, hexecuted, hcredited, ?_⟩
  rw [hexecuted, hcredited, hstart.1, hstart.2] at hadds
  omega

/-- The node when the answer to every report gets lost. -/
def forgetful : Env := env 0 fun
  | .complete .. => .replyLost
  | _ => .delivered

/-- **A report whose answers get lost is counted at every try**: one execution counts four times. -/
theorem counted_again : ∃ c : Pool ℕ Op Op.Res Exc Unit Account World,
    Steps (tallying forgetful everywhere) (Enrolls everywhere) (fun _ _ _ _ => True)
      (unstarted ℕ World.empty) c ∧
    (∃ t, c.threads 1 = some t ∧ t.rest.ended = true) ∧
    executions everywhere c.world "a" "w" = 1 ∧ credited World.empty "a" "w" = 0 ∧
      credited c.world "a" "w" = 4 := by
  have hrun : ((unstarted ℕ World.empty).steps (tallying forgetful everywhere)
      (fun _ _ _ _ => True) (executed 50)).map (fun c =>
        ((c.threads 1).map fun t => t.rest.ended, executions everywhere c.world "a" "w",
          credited c.world "a" "w")) = some (some true, 1, 4) := by
    decide +kernel
  obtain ⟨c, hc, hfacts⟩ := Option.map_eq_some_iff.1 hrun
  obtain ⟨hended, hrest⟩ := Prod.mk.inj hfacts
  obtain ⟨hexecuted, hcredited⟩ := Prod.mk.inj hrest
  obtain ⟨t, ht, hdone⟩ := Option.map_eq_some_iff.1 hended
  exact ⟨c, .of_steps (fun i t ht => enrolls_executed ht) hc, ⟨t, ht, hdone⟩, hexecuted, by decide,
    hcredited⟩

end OneNode

end Server
end ChordInfra
