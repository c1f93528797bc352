/-
# The jobs that a node finds

`_load_from_disk`, `_save_to_disk` and `leave` of `chord/node.py`.  The threads of a node
change the status of a job in memory only, and every write of the store saves all of
it, so the snapshot has the jobs as they were at some moment.  A node that starts again
from it, or is handed the store of a node that leaves, finds them so, with no thread that
has them in hand.

Its worker thread goes on with the jobs that are pending and with those that are running
and have a start.  A job that was claimed is left to an execution that is gone, and a
running job without a start never times out: they stay as they are (`touched_iff`).
-/

import ChordInfra.Durable.WriteThrough
import ChordInfra.Interact.Trace
import ChordInfra.Jobs.Cluster
import ChordInfra.Jobs.Runs

namespace ChordInfra
namespace Jobs

open Interact Prog Trace
open Durable (Cell Format)
open Storage (Address Json)

/-- The worker thread goes on with the job: it is pending, or running with a start. -/
def Job.Watched (j : Job) : Prop :=
  j.status = .pending ∨ j.status = .running ∧ ∃ t ∈ j.startedAt, t ≠ 0

/-- `JOB_TIMEOUT` has elapsed since the start of the job. -/
def Job.Overdue (j : Job) (now : ℕ) : Prop := ∀ t ∈ j.startedAt, jobTimeout < now - t

/-! ### Nodes with their snapshots -/

/-- `json.dump` and `json.load` on the jobs of a store, as far as the file depends on
them. -/
structure JobFile (File : Type) where
  dumps : Dict String Job → File
  loads : File → Dict String Job
  loads_dumps : ∀ d, loads (dumps d) = d

/-- A missing file is as one of an empty store. -/
def JobFile.format {File : Type} (json : JobFile File) : Format (Dict String Job) File :=
  ⟨json.dumps, json.loads, .empty, json.loads_dumps⟩

/-- A call that changes the store of a node, as far as its jobs go. -/
inductive Write
  | put (key : String) (job : Job)
  /-- `delete`; a value that is no job, put in the place of one, deletes it as well. -/
  | delete (key : String)
  | bulkPut (jobs : Dict String Job)
  /-- A call that changes no job. -/
  | other

/-- What a call changes, and when it saves. -/
def Write.op : Write → Durable.Op (Dict String Job)
  | .put key job => ⟨fun d => d.set key job, fun _ => true⟩
  | .delete key => ⟨fun d => d.erase key, fun d => (d.get key).isSome⟩
  | .bulkPut jobs => ⟨fun d => d.update jobs, fun _ => true⟩
  | .other => ⟨id, fun _ => true⟩

/-- The first block of `_recover`, which does not save. -/
def promoteAll : Durable.Op (Dict String Job) := ⟨fun d => d.mapValues Job.promote, fun _ => false⟩

/-- A node: its threads with its store, and the snapshot file. -/
structure Site (ι File : Type) where
  node : Node ι
  file : Option File

/-- The nodes, by address. -/
abbrev Sites (ι File : Type) := Address → Site ι File

/-- What happens at the nodes. -/
inductive SiteEvent (ι : Type)
  /-- A round of the worker thread begins. -/
  | round (a : Address) (i : ι)
  /-- A thread performs its next operation. -/
  | act (a : Address) (i slot : ι)
  /-- A call; `written` says whether the file could be written. -/
  | write (a : Address) (x : Write) (written : Bool)
  | promote (a : Address)
  /-- The node ends and starts again. -/
  | restart (a : Address)
  /-- A try of the `bulk_put` of `leave`, from the node at `a` to the one at `b`. -/
  | leave (a b : Address) (written : Bool)

/-- The worker thread of the node at `b`, or an execution of it. -/
def SiteEvent.Works {ι : Type} (b : Address) : SiteEvent ι → Prop
  | .round a _ | .act a _ _ => a = b
  | _ => False

section Sites

variable {ι File : Type} [DecidableEq ι] (env : Address → Env) (json : JobFile File)

namespace Site

/-- The jobs in memory and in the file. -/
def cell (x : Site ι File) : Cell (Dict String Job) File := ⟨x.node.world.jobs, x.file⟩

/-- A change of the store under the lock; when the file cannot be written it stays. -/
def apply (op : Durable.Op (Dict String Job)) (written : Bool) (x : Site ι File) : Site ι File :=
  let c := Durable.Op.apply json.format ⟨op.change, fun d => op.saves d && written⟩ x.cell
  ⟨⟨x.node.threads, { x.node.world with jobs := c.memory }⟩, c.file⟩

/-- `__init__`, with `_load_from_disk`. -/
def restart (x : Site ι File) : Site ι File :=
  let c := x.cell.restart json.format
  -- the counters are new, and the clock, which runs with the operations, goes on
  ⟨⟨fun _ => none, ⟨c.memory, 0, 0, x.node.world.steps, [], []⟩⟩, c.file⟩

end Site

namespace Sites

/-- Every node is new. -/
def start : Sites ι File := fun _ => ⟨boot .empty, none⟩

/-- An event, when it can happen. -/
def step (s : Sites ι File) : SiteEvent ι → Option (Sites ι File)
  | .round a i => ((s a).node.step (system (env a)) (.enter i ⟨none, Jobs.round⟩)).map fun c =>
    Function.update s a ⟨c, (s a).file⟩
  | .act a i slot => ((s a).node.step (system (env a)) (.act i slot)).map fun c =>
    Function.update s a ⟨c, (s a).file⟩
  | .write a x written => some (Function.update s a ((s a).apply json x.op written))
  | .promote a => some (Function.update s a ((s a).apply json promoteAll false))
  | .restart a => some (Function.update s a ((s a).restart json))
  | .leave a b written =>
    if a = b then none
    else some (Function.update s b
      ((s b).apply json (Write.bulkPut (s a).node.world.jobs).op written))

/-- The job at a key of a node. -/
def job (s : Sites ι File) (b : Address) (key : String) : Option Job :=
  (s b).node.world.jobs.get key

/-- No thread of the node has the job in hand. -/
def Free (s : Sites ι File) (b : Address) (key : String) : Prop :=
  ∀ i, phases key (s b).node.ghosts i = none

/-- The node at `b` was started again from its snapshot, or another node left and handed it
its store. -/
def Received (b : Address) (s s' : Sites ι File) : Prop :=
  step env json s (.restart b) = some s' ∨
    ∃ a written, step env json s (.leave a b written) = some s'

/-- From here on the node at `b` runs, and nobody but its threads changes the job. -/
def Undisturbed (b : Address) (key : String) (s : Sites ι File) (es : List (SiteEvent ι)) : Prop :=
  Along (step env json) (fun s₁ e s₂ => e ≠ .restart b ∧ (¬e.Works b → s₂.job b key = s₁.job b key))
    s es

/-- A whole round of the node at `b`, with its reaper at a time that is `late`. -/
def LateRound (b : Address) (late : ℕ → Prop) (s : Sites ι File) (es : List (SiteEvent ι)) : Prop :=
  ∃ before during after i slot s₁ g k,
    es = before ++ .round b i :: (during ++ .act b i slot :: after) ∧
      run (step env json) (before ++ .round b i :: during) s = some s₁ ∧
      (s₁ b).node.threads i = some ⟨g, .op .reap k⟩ ∧ late ((env b).now (s₁ b).node.world.steps)

/-- The job is not `j` any more at some time. -/
def Touched (b : Address) (key : String) (j : Job) (s : Sites ι File) (es : List (SiteEvent ι)) :
    Prop := Passes (step env json) (fun s' => s'.job b key ≠ some j) s es

end Sites

end Sites

/-- One step of a round or an execution. -/
abbrev NodeStep {ι : Type} [DecidableEq ι] (env : Env) : Node ι → Node ι → Prop :=
  Step (system env) Entry fun _ _ _ _ => True

/-! ### A job in nobody's hands -/

section Left

variable {ι : Type} [DecidableEq ι] {env : Env} {key key' : String} {j : Job} {now : ℕ}
  {γ : ι → Option Role} {w : World} {g : Role} {i : ι}

theorem Job.reap_eq_self (h : ¬j.Watched) : j.reap now = j := by
  refine if_neg ?_
  rintro ⟨hrunning, t, ht, hzero, -⟩
  exact h (.inr ⟨hrunning, t, ht, hzero⟩)

/-- The reaper re-queues or fails a running job that is overdue. -/
theorem Job.reap_ne_self (hrunning : j.status = .running) (hstart : ∃ t ∈ j.startedAt, t ≠ 0)
    (hlate : j.Overdue now) : j.reap now ≠ j := by
  obtain ⟨t, ht, hzero⟩ := hstart
  have hout : j.TimedOut now := ⟨hrunning, t, ht, hzero, hlate t ht⟩
  intro heq
  have hstatus : (j.reap now).status = .running := heq.symm ▸ hrunning
  unfold Job.reap at hstatus
  rw [if_pos hout] at hstatus
  split_ifs at hstatus

/-- The job at the key is `j`, and no thread has it in hand. -/
def Left (key : String) (j : Job) (γ : ι → Option Role) (w : World) : Prop :=
  w.jobs.get key = some j ∧ ∀ i, phases key γ i = none

theorem ne_of_phase {p : Phase} (h : Role.phase key (some (key', p)) = none) : key ≠ key' := by
  rintro rfl
  cases (if_pos rfl).symm.trans h

theorem phase_of_ne {p : Phase} (h : key ≠ key') : Role.phase key (some (key', p)) = none :=
  if_neg (Ne.symm h)

theorem World.get_change_ne {f : Job → Job} (h : key ≠ key') :
    (w.change key' f).jobs.get key = w.jobs.get key := by
  rw [World.get_change, if_neg h]

/-- **A thread that does not have the job in hand leaves it alone** when the worker thread
does not go on with it. -/
theorem get_handle (hj : ¬j.Watched) (hget : w.jobs.get key = some j) {o : Op}
    (hallowed : g.Allowed o) (hg : g.phase key = none) :
    (handle env o w).2.jobs.get key = some j := by
  cases o with
  | scan => exact hget
  | reap =>
    change (w.jobs.mapValues (Job.reap _)).get key = some j
    rw [Dict.get_mapValues, hget]
    exact congrArg some (Job.reap_eq_self hj)
  | tryClaim key' =>
    rw [handle_tryClaim]
    rcases w.tryClaim_eq key' env.address (env.now w.steps) with hr | ⟨j', hj', hpending, hr⟩
    · rw [hr]
      exact hget
    · rw [hr]
      refine (World.get_change_ne ?_).trans hget
      rintro rfl
      obtain rfl := Option.some.inj (hget.symm.trans hj')
      exact hj (.inl hpending)
  | submit key' => exact hget
  | start key' =>
    obtain rfl : g = some (key', .queued) := hallowed
    exact (World.get_change_ne (ne_of_phase hg)).trans hget
  | execute key' => exact hget
  | retryCount key' => exact hget
  | finish key' result =>
    obtain rfl : g = some (key', .running) := hallowed
    exact (World.get_change_ne (ne_of_phase hg)).trans hget
  | countCompleted key' => exact hget
  | requeue key' nextRetry e =>
    obtain ⟨n, rfl, -, -⟩ := hallowed
    exact (World.get_change_ne (ne_of_phase hg)).trans hget
  | giveUp key' e =>
    obtain ⟨n, rfl⟩ := hallowed
    exact (World.get_change_ne (ne_of_phase hg)).trans hget
  | countFailed key' => exact hget

/-- Nor does the thread take it in hand. -/
theorem phase_note (env : Env) (hj : ¬j.Watched) (hget : w.jobs.get key = some j) {o : Op}
    (hallowed : g.Allowed o) (hg : g.phase key = none) :
    (g.note o (handle env o w).1).phase key = none := by
  cases o with
  | scan => exact hg
  | reap => exact hg
  | execute key' => exact hg
  | submit key' => rfl
  | countCompleted key' => rfl
  | requeue key' nextRetry e => rfl
  | countFailed key' => rfl
  | tryClaim key' =>
    rw [handle_tryClaim]
    rcases w.tryClaim_eq key' env.address (env.now w.steps) with hr | ⟨j', hj', hpending, hr⟩
    · rw [hr]
      exact hg
    · rw [hr]
      refine phase_of_ne ?_
      rintro rfl
      obtain rfl := Option.some.inj (hget.symm.trans hj')
      exact hj (.inl hpending)
  | start key' =>
    obtain rfl : g = some (key', .queued) := hallowed
    exact phase_of_ne (ne_of_phase hg)
  | retryCount key' =>
    obtain rfl : g = some (key', .running) := hallowed
    exact phase_of_ne (ne_of_phase hg)
  | finish key' result =>
    obtain rfl : g = some (key', .running) := hallowed
    exact phase_of_ne (ne_of_phase hg)
  | giveUp key' e =>
    obtain ⟨n, rfl⟩ := hallowed
    exact phase_of_ne (ne_of_phase hg)

/-- An execution that is launched has the job in hand that was claimed. -/
theorem phase_launch {o : Op} (hallowed : g.Allowed o) (hg : g.phase key = none)
    {t : Thread Op Op.Res Empty Unit Role} (ht : (system env).launch o = some t) :
    t.ghost.phase key = none := by
  cases o with
  | submit key' =>
    obtain rfl : g = some (key', .claimed) := hallowed
    obtain rfl := Option.some.inj ht
    exact phase_of_ne (ne_of_phase hg)
  | _ => cases ht

theorem phases_update_none (h : ∀ i, phases key γ i = none) (hg : g.phase key = none) (i : ι) :
    ∀ i', phases key (Function.update γ i (some g)) i' = none := by
  intro i'
  rw [phases_update]
  by_cases hi : i' = i
  · rw [hi, Function.update_self, hg]
  · rw [Function.update_of_ne hi, h]

/-- The rounds and the executions of a node leave the job alone. -/
theorem keeps_left (hj : ¬j.Watched) :
    Keeps (system env) Entry (fun _ _ _ _ => True) (fun _ _ => True) Role.Allowed
      (fun _ _ => True) (Left (ι := ι) key j) where
  act := by
    rintro γ w i slot g o ⟨hget, hnone⟩ hi hallowed - - -
    have hg : g.phase key = none := by
      rw [← hnone i, phases, hi]
      rfl
    have hnote := phases_update_none hnone (phase_note env hj hget hallowed hg) i
    refine ⟨trivial, get_handle hj hget hallowed hg, ?_⟩
    rcases hl : (system env).launch o with - | t
    · exact hnote
    · exact phases_update_none hnote (phase_launch hallowed hg hl) slot
  launched _ _ ht := does_of_launch ht
  enter := by
    rintro γ w i t ⟨hget, hnone⟩ - rfl
    exact ⟨hget, phases_update_none hnone rfl i⟩
  entered _ ht := does_of_entry ht

end Left

/-! ### A pending job in the store -/

section Claims

variable {ι : Type} [DecidableEq ι] {env : Env} {key : String} {j : Job}

/-- What a thread is answered while the job is pending and stays so: a scan finds the key,
and no claim is made of it. -/
def Offers (key : String) : (o : Op) → o.Res → Prop
  | .scan, keys => key ∈ keys
  | .tryClaim key', _ => key' ≠ key
  | _, _ => True

/-- The operation is not the reaper's. -/
def NotReap : Op → Prop
  | .reap => False
  | _ => True

/-- The thread does not come to its reaper while the job is pending. -/
abbrev Claims (key : String) (p : M Unit) (g : Role) : Prop :=
  wp Role.note (Offers key) (fun _ => NotReap) p (fun _ _ => True) g

theorem claims_claimAll (p : M Unit) {keys : List String} (hkey : key ∈ keys) (g : Role) :
    Claims key (claimAll keys >>= fun _ => p) g := by
  induction keys generalizing g with
  | nil => cases hkey
  | cons key' keys ih =>
    refine ⟨trivial, fun claimed hne => ?_⟩
    have hrest : key ∈ keys := (List.mem_cons.1 hkey).resolve_left (Ne.symm hne)
    cases claimed with
    | true => exact ⟨trivial, fun _ _ => ih hrest _⟩
    | false => exact ih hrest _

/-- **A round claims what is pending** before it comes to the reaper. -/
theorem claims_round (g : Role) : Claims key round g :=
  ⟨trivial, fun _ hkey => claims_claimAll (act .reap) hkey _⟩

theorem claims_runJob (key' : String) (g : Role) : Claims key (runJob key') g := by
  refine ⟨trivial, fun _ _ => ⟨trivial, fun outcome _ => ?_⟩⟩
  cases outcome with
  | ok result => exact ⟨trivial, fun _ _ => ⟨trivial, fun _ _ => trivial⟩⟩
  | error e =>
    refine ⟨trivial, fun n _ => ?_⟩
    change Claims key (if n < maxJobRetries then _ else _) _
    split_ifs with hn
    · exact ⟨trivial, fun _ _ => trivial⟩
    · exact ⟨trivial, fun _ _ => ⟨trivial, fun _ _ => trivial⟩⟩

/-- Who finds the job pending and leaves it so is answered as `Offers` says. -/
theorem offers_handle {w : World} (hpending : j.status = .pending)
    (hget : w.jobs.get key = some j) {o : Op} (hget' : (handle env o w).2.jobs.get key = some j) :
    Offers key o (handle env o w).1 := by
  cases o with
  | scan =>
    refine List.mem_map.2 ⟨(key, j), List.mem_filter.2 ⟨?_, decide_eq_true hpending⟩, rfl⟩
    exact (Dict.mem_entries_iff w.jobs).2 hget
  | tryClaim key' =>
    rintro rfl
    rw [handle_tryClaim] at hget'
    have hclaim : w.tryClaim key' env.address (env.now w.steps) =
        (true, w.change key' (Job.claim env.address (env.now w.steps))) := by
      unfold World.tryClaim
      rw [hget]
      exact if_pos hpending
    rw [hclaim] at hget'
    change (w.change key' _).jobs.get key' = some j at hget'
    rw [World.get_change, if_pos rfl, hget] at hget'
    rw [← Option.some.inj hget'] at hpending
    cases hpending
  | _ => trivial

/-- **A thread keeps from its reaper while the job is pending.** -/
theorem Claims.step {c c' : Node ι} (hpending : j.status = .pending)
    (hstep : NodeStep env c c') (hget : c.world.jobs.get key = some j)
    (hget' : c'.world.jobs.get key = some j) {i : ι}
    (h : ∀ t ∈ c.threads i, Claims key t.rest t.ghost) :
    ∀ t ∈ c'.threads i, Claims key t.rest t.ghost := by
  intro t ht
  cases hstep with
  | @act i' slot g o k hi' hcond hstep =>
    obtain ⟨g', o', k', hi, -, -, rfl⟩ := Pool.step_act_eq hstep
    rcases Pool.acted_threads ht with hl | ⟨rfl, rfl⟩ | ⟨-, hold⟩
    · cases o' with
      | submit key' =>
        obtain rfl := Option.some.inj hl
        exact claims_runJob key' _
      | _ => cases hl
    · exact (h _ hi).2 _ (offers_handle hpending hget hget')
    · exact h t hold
  | @enter i' t' ht' hstep =>
    obtain ⟨-, rfl⟩ := Pool.step_enter_eq hstep
    change Function.update c.threads i' (some t') i = some t at ht
    by_cases hi : i = i'
    · rw [hi, Function.update_self] at ht
      obtain rfl := Option.some.inj ht
      rw [show t' = ⟨none, round⟩ from ht']
      exact claims_round none
    · rw [Function.update_of_ne hi] at ht
      exact h t ht

end Claims

/-! ### Nodes that stop and start again -/

section Runs

variable {ι File : Type} [DecidableEq ι] {env : Address → Env} {json : JobFile File}
  {s s₀ s' : Sites ι File} {e : SiteEvent ι} {past future : List (SiteEvent ι)} {b : Address}
  {key : String} {j : Job}

namespace Sites

/-- **What an event is at a node**: a step of its threads, its end and a new start, or nothing
that concerns its threads. -/
theorem step_site (h : step env json s e = some s') (b : Address) :
    (e.Works b ∧ NodeStep (env b) (s b).node (s' b).node) ∨
      (e = .restart b ∧ (s' b).node.threads = fun _ => none) ∨
      (¬e.Works b ∧ (s' b).node.threads = (s b).node.threads) := by
  have hother : ∀ {a : Address} (x : Site ι File), b ≠ a →
      (Function.update s a x b).node.threads = (s b).node.threads := fun x hne => by
    rw [Function.update_of_ne hne]
  -- the store changes and the threads do not
  have hstore : ∀ {a : Address} (op : Durable.Op (Dict String Job)) (written : Bool),
      (Function.update s a ((s a).apply json op written) b).node.threads = (s b).node.threads := by
    intro a op written
    by_cases hb : b = a
    · subst hb
      rw [Function.update_self]
      rfl
    · exact hother _ hb
  cases e with
  | round a i =>
    obtain ⟨c, hc, rfl⟩ := Option.map_eq_some_iff.1 h
    by_cases hb : b = a
    · subst hb
      refine .inl ⟨rfl, ?_⟩
      rw [Function.update_self]
      exact .enter rfl hc
    · exact .inr (.inr ⟨Ne.symm hb, hother _ hb⟩)
  | act a i slot =>
    obtain ⟨c, hc, rfl⟩ := Option.map_eq_some_iff.1 h
    by_cases hb : b = a
    · subst hb
      refine .inl ⟨rfl, ?_⟩
      rw [Function.update_self]
      obtain ⟨g, o, k, hi, -⟩ := Pool.step_act_eq hc
      exact .act hi trivial hc
    · exact .inr (.inr ⟨Ne.symm hb, hother _ hb⟩)
  | write a x written =>
    obtain rfl := Option.some.inj h
    exact .inr (.inr ⟨id, hstore _ _⟩)
  | promote a =>
    obtain rfl := Option.some.inj h
    exact .inr (.inr ⟨id, hstore _ _⟩)
  | restart a =>
    obtain rfl := Option.some.inj h
    by_cases hb : b = a
    · subst hb
      refine .inr (.inl ⟨rfl, ?_⟩)
      rw [Function.update_self]
      rfl
    · exact .inr (.inr ⟨id, hother _ hb⟩)
  | leave a a' written =>
    change (if a = a' then none else some _) = some s' at h
    split_ifs at h
    obtain rfl := Option.some.inj h
    exact .inr (.inr ⟨id, hstore _ _⟩)

/-- Every thread does what its role says. -/
def Disciplined (s : Sites ι File) : Prop :=
  ∀ b i t, (s b).node.threads i = some t → Does t.rest t.ghost

theorem keeps_true (env : Env) :
    Keeps (ι := ι) (system env) Entry (fun _ _ _ _ => True) (fun _ _ => True) Role.Allowed
      (fun _ _ => True) fun _ _ => True where
  act _ _ _ _ _ _ _ _ _ _ _ _ := ⟨trivial, trivial⟩
  launched _ _ ht := does_of_launch ht
  enter _ _ _ _ _ _ _ := trivial
  entered _ ht := does_of_entry ht

theorem Disciplined.step (h : s.Disciplined) (hstep : Sites.step env json s e = some s') :
    s'.Disciplined := by
  intro b
  rcases step_site hstep b with ⟨-, hnode⟩ | ⟨-, hnone⟩ | ⟨-, hsame⟩
  · exact (hnode.sound (keeps_true (env b)) ⟨h b, trivial⟩).threads
  · rw [hnone]
    intro i t ht
    cases ht
  · rw [hsame]
    exact h b

theorem disciplined_run (h : run (step env json) past start = some s) : s.Disciplined :=
  Along.invariant (C := fun _ _ _ => True) (fun _ _ _ _ _ _ _ _ => trivial)
    (fun _ _ _ hI hstep _ => hI.step hstep) (fun _ _ _ ht => by cases ht) h

/-- **A job that the worker thread does not go on with stays as it is** when no thread has it
in hand. -/
theorem not_touched (hs : s.Disciplined) (hget : s.job b key = some j) (hfree : s.Free b key)
    (hj : ¬j.Watched) (hundisturbed : s.Undisturbed env json b key future) :
    ¬s.Touched env json b key j future := by
  refine hundisturbed.not_passes
    (I := fun s => Sound (system (env b)) (fun _ _ => True) Role.Allowed (fun _ _ => True)
      (Left key j) (s b).node) ?_ ⟨hs b, hget, hfree⟩ fun s hI hne => hne hI.world.1
  rintro s₁ e s₂ hI hstep ⟨hrestart, hforeign⟩
  rcases step_site hstep b with ⟨-, hnode⟩ | ⟨he, -⟩ | ⟨hworks, hsame⟩
  · exact hnode.sound (keeps_left hj) hI
  · exact (hrestart he).elim
  · have hghosts : (s₂ b).node.ghosts = (s₁ b).node.ghosts := by
      funext i
      rw [Pool.ghosts, Pool.ghosts, hsame]
    refine ⟨fun i t ht => hI.threads i t (hsame ▸ ht), (hforeign hworks).trans hI.world.1, ?_⟩
    rw [hghosts]
    exact hI.world.2

theorem Received.disciplined (h : Received env json b s₀ s)
    (hpast : run (step env json) past start = some s₀) : s.Disciplined := by
  rcases h with hstep | ⟨a, written, hstep⟩
  · exact (disciplined_run hpast).step hstep
  · exact (disciplined_run hpast).step hstep

/-- A round that begins in a slot is there. -/
theorem round_begins {i : ι} (h : step env json s (.round b i) = some s') :
    (s' b).node.threads i = some ⟨none, Jobs.round⟩ := by
  obtain ⟨c, hc, rfl⟩ := Option.map_eq_some_iff.1 h
  obtain ⟨-, rfl⟩ := Pool.step_enter_eq hc
  rw [Function.update_self]
  exact Function.update_self ..

/-- The reaper runs over the job. -/
theorem job_reap {i slot : ι} {g : Role} {k : Unit → M Unit}
    (h : step env json s (.act b i slot) = some s')
    (hreap : (s b).node.threads i = some ⟨g, .op .reap k⟩) (hget : s.job b key = some j) :
    s'.job b key = some (j.reap ((env b).now (s b).node.world.steps)) := by
  obtain ⟨c, hc, rfl⟩ := Option.map_eq_some_iff.1 h
  obtain ⟨g', o, k', hi, -, -, rfl⟩ := Pool.step_act_eq hc
  rw [hreap] at hi
  cases hi
  rw [job, Function.update_self]
  change ((s b).node.world.jobs.mapValues (Job.reap _)).get key = _
  rw [Dict.get_mapValues]
  exact congrArg (Option.map _) hget

/-- **A whole round claims a pending job**, or another one does. -/
theorem touched_of_pending (hpending : j.status = .pending)
    (hundisturbed : s.Undisturbed env json b key future) {late : ℕ → Prop}
    (hround : s.LateRound env json b late future) : s.Touched env json b key j future := by
  by_contra hnot
  obtain ⟨before, during, after, i, slot, s₁, g, k, rfl, hrun, hreap, -⟩ := hround
  obtain ⟨s₂, hbefore, hrest⟩ := run_append_eq_some.1 hrun
  obtain ⟨s₃, hbegin, hduring⟩ := run_cons_eq_some.1 hrest
  have halong := (hundisturbed.and (.of_not_passes hnot)).right hbefore
  -- the round is on its way to the job until it comes to its reaper
  have hclaims := (halong.tail hbegin).left.invariant
    (I := fun s => ∀ t ∈ (s b).node.threads i, Claims key t.rest t.ghost) ?_ ?_ hduring
  · exact (hclaims _ hreap).1
  · rintro s₄ e s₅ hI hstep ⟨⟨hrestart, -⟩, hget, hget'⟩
    rcases step_site hstep b with ⟨-, hnode⟩ | ⟨he, -⟩ | ⟨-, hsame⟩
    · exact Claims.step hpending hnode (not_not.1 hget) (not_not.1 hget') hI
    · exact (hrestart he).elim
    · rw [hsame]
      exact hI
  · intro t ht
    rw [round_begins hbegin] at ht
    obtain rfl := Option.some.inj ht
    exact claims_round none

/-- **A whole round reaps a running job that is overdue**, or another one does. -/
theorem touched_of_running (hrunning : j.status = .running) (hstart : ∃ t ∈ j.startedAt, t ≠ 0)
    (hfuture : run (step env json) future s = some s')
    (hround : s.LateRound env json b j.Overdue future) : s.Touched env json b key j future := by
  by_contra hnot
  obtain ⟨before, during, after, i, slot, s₁, g, k, hsplit, hrun, hreap, hlate⟩ := hround
  have hsplit' : future = (before ++ .round b i :: during) ++ .act b i slot :: after := by
    rw [hsplit, List.append_assoc, List.cons_append]
  rw [hsplit', run_append_eq_some] at hfuture
  obtain ⟨s₁', hrun', hrest⟩ := hfuture
  obtain rfl := Option.some.inj (hrun.symm.trans hrun')
  obtain ⟨s₂, hact, -⟩ := run_cons_eq_some.1 hrest
  obtain ⟨hget, hget'⟩ := Along.of_not_passes hnot _ _ _ _ _ hsplit' hrun hact
  rw [job_reap hact hreap (not_not.1 hget)] at hget'
  exact Job.reap_ne_self hrunning hstart hlate (Option.some.inj (not_not.1 hget'))

/-- **The worker thread changes a job that a node finds exactly when it is pending, or running
with a start.**  A node starts again from its snapshot, or is handed the store of another
one, at any moment of any run, and no thread of it has the job in hand.  From then on the
node runs, and only its threads change the job.  A whole round whose reaper runs when
`JOB_TIMEOUT` has elapsed since the start of the job finds it changed, or changes it, in
those two cases; in all others nothing changes it, whatever the node does. -/
theorem touched_iff (hpast : run (step env json) past start = some s₀)
    (hreceived : Received env json b s₀ s) (hget : s.job b key = some j)
    (hfree : s.Free b key) :
    (∀ future s', run (step env json) future s = some s' → s.Undisturbed env json b key future →
      s.LateRound env json b j.Overdue future →
        (s.Touched env json b key j future ↔ j.Watched)) ∧
    (¬j.Watched → ∀ future, s.Undisturbed env json b key future →
      ¬s.Touched env json b key j future) := by
  have hleft : ¬j.Watched → ∀ future, s.Undisturbed env json b key future →
      ¬s.Touched env json b key j future := fun hj future =>
    not_touched (hreceived.disciplined hpast) hget hfree hj
  refine ⟨fun future s' hfuture hundisturbed hround => ⟨fun htouched => ?_, fun hj => ?_⟩, hleft⟩
  · by_contra hj
    exact hleft hj future hundisturbed htouched
  · rcases hj with hpending | ⟨hrunning, hstart⟩
    · exact touched_of_pending hpending hundisturbed hround
    · exact touched_of_running hrunning hstart hfuture hround

end Sites

end Runs

/-! ### A node that starts again -/

namespace Restarted

/-- Every operation takes a while, and every execution raises. -/
def env (a : Address) : Env := ⟨fun n => 100000 * n, fun _ _ => .error "e", a⟩

/-- A file that is the store itself. -/
def json : JobFile (Dict String Job) := ⟨id, id, fun _ => rfl⟩

/-- The job `job:1` is submitted to the node `a`. -/
def submitted : SiteEvent ℕ := .write "a" (.put "job:1" (makeJob "echo" .null "1" 0)) true

/-- A round in slot `i` claims the job. -/
def claims (i : ℕ) : List (SiteEvent ℕ) :=
  [.round "a" i, .act "a" i i, .act "a" i i]

/-- The job is claimed, and another key is put. -/
def claimedPast : List (SiteEvent ℕ) := submitted :: (claims 0 ++ [.write "a" .other true])

/-- The job is reaped while its execution `1` raises, and claimed again; execution `1` re-queues
it, execution `3` starts, and another key is put. -/
def runningPast : List (SiteEvent ℕ) :=
  submitted :: (claims 0 ++
    [.act "a" 0 1, .act "a" 1 1, .act "a" 1 1, .act "a" 1 1, .act "a" 0 0] ++ claims 2 ++
    [.act "a" 2 3, .act "a" 1 1, .act "a" 3 3, .write "a" .other true])

/-- What is seen of the node `a` after some events. -/
def seen {α : Type} (events : List (SiteEvent ℕ)) (f : Site ℕ (Dict String Job) → Option α) :
    Option α := (run (Sites.step env json) events Sites.start).bind fun s => f (s "a")

/-- A round that finds nothing pending scans and reaps. -/
def idle : List (SiteEvent ℕ) := [.round "a" 0, .act "a" 0 0, .act "a" 0 0]

/-- The job, as far as it matters. -/
def seenJob (x : Site ℕ (Dict String Job)) : Option (Status × Option ℕ) :=
  (x.node.world.jobs.get "job:1").map fun j => (j.status, j.startedAt)

/-- The time, when the thread in slot `0` comes to its reaper. -/
def reapTime (x : Site ℕ (Dict String Job)) : Option ℕ :=
  match x.node.threads 0 with
  | some ⟨_, .op .reap _⟩ => some ((env "a").now x.node.world.steps)
  | _ => none

/-- The job is found after a restart, and a whole round follows, with its reaper at a late
time. -/
structure Found (past future : List (SiteEvent ℕ)) (s₀ s s' : Sites ℕ (Dict String Job))
    (j : Job) : Prop where
  runs : run (Sites.step env json) past Sites.start = some s₀
  received : Sites.Received env json "a" s₀ s
  job : s.job "a" "job:1" = some j
  free : s.Free "a" "job:1"
  goesOn : run (Sites.step env json) future s = some s'
  undisturbed : s.Undisturbed env json "a" "job:1" future
  round : s.LateRound env json "a" j.Overdue future

theorem Found.not_touched {past future : List (SiteEvent ℕ)} {s₀ s s' : Sites ℕ (Dict String Job)}
    {j : Job} (h : Found past future s₀ s s' j) (hj : ¬j.Watched) :
    ¬s.Touched env json "a" "job:1" j future :=
  Sites.not_touched (h.received.disciplined h.runs) h.job h.free hj h.undisturbed

theorem exists_found (past during : List (SiteEvent ℕ)) (status : Status) (startedAt : Option ℕ)
    (now : ℕ) (hjob : seen (past ++ [.restart "a"]) seenJob = some (status, startedAt))
    (hreap : seen (past ++ [.restart "a"] ++ .round "a" 0 :: during) reapTime = some now)
    (hact : (seen (past ++ [.restart "a"] ++ .round "a" 0 :: during ++ [.act "a" 0 0]) some).isSome)
    (hlate : ∀ t ∈ startedAt, jobTimeout < now - t)
    (hduring : ∀ e ∈ during, ∃ i slot, e = .act "a" i slot) :
    ∃ s₀ s s' j, Found past (.round "a" 0 :: during ++ [.act "a" 0 0]) s₀ s s' j ∧
      j.status = status ∧ j.startedAt = startedAt := by
  obtain ⟨s, hs, hj⟩ := Option.bind_eq_some_iff.1 hjob
  obtain ⟨j, hget, hj⟩ := Option.map_eq_some_iff.1 hj
  obtain ⟨rfl, rfl⟩ := Prod.mk.inj hj
  obtain ⟨s₀, hpast, hrestart⟩ := run_concat_eq_some.1 hs
  obtain ⟨s₁, hs₁, hnow⟩ := Option.bind_eq_some_iff.1 hreap
  rw [run_append, hs] at hs₁
  obtain ⟨x, hx⟩ := Option.isSome_iff_exists.1 hact
  obtain ⟨s', hs', -⟩ := Option.bind_eq_some_iff.1 hx
  rw [List.append_assoc, run_append, hs] at hs'
  refine ⟨s₀, s, s', j, ⟨hpast, .inl hrestart, hget, fun i => ?_, hs', ?_, ?_⟩, rfl, rfl⟩
  · obtain rfl := Option.some.inj hrestart
    rw [Function.update_self]
    rfl
  · refine .of_forall (φ := fun e => e ≠ .restart "a" ∧ e.Works "a") (fun e he => ?_)
      fun s₁ e s₂ he => ⟨he.1, fun hno => (hno he.2).elim⟩
    rcases List.mem_append.1 he with he | he
    · rcases List.mem_cons.1 he with rfl | he
      · exact ⟨nofun, rfl⟩
      · obtain ⟨i, slot, rfl⟩ := hduring e he
        exact ⟨nofun, rfl⟩
    · obtain rfl := List.mem_singleton.1 he
      exact ⟨nofun, rfl⟩
  · unfold reapTime at hnow
    split at hnow
    · rename_i g k hthread
      obtain rfl := Option.some.inj hnow
      exact ⟨[], during, [], 0, 0, s₁, g, k, rfl, hs₁, hthread, hlate⟩
    · cases hnow

end Restarted

open Restarted in
/-- The hypotheses of `touched_iff` are satisfiable: a pending job is found after a restart,
and the next round changes it. -/
theorem touched_iff_pending :
    ∃ (past future : List (SiteEvent ℕ)) (s₀ s s' : Sites ℕ (Dict String Job)) (j : Job),
      Found past future s₀ s s' j ∧ j.Watched ∧ s.Touched env json "a" "job:1" j future := by
  obtain ⟨s₀, s, s', j, h, hstatus, -⟩ := exists_found [submitted]
    [.act "a" 0 1, .act "a" 0 1, .act "a" 0 1] .pending none 300000
    (by decide +kernel) (by decide +kernel) (by decide +kernel) nofun (by simp)
  have hj : j.Watched := .inl hstatus
  exact ⟨_, _, s₀, s, s', j, h, hj, ((Sites.touched_iff h.runs h.received h.job h.free).1 _ s'
    h.goesOn h.undisturbed h.round).2 hj⟩

open Restarted in
/-- **Jobs that nothing goes on with.**  The snapshot is written when the job is claimed, and
the node starts again: the next round leaves the job as it is.  So it does when the
snapshot is written when the job is running without a start, which it is after it was
reaped and claimed again and its first execution re-queued it. -/
theorem claimed_never_touched :
    (∃ (s₀ s s' : Sites ℕ (Dict String Job)) (j : Job), Found claimedPast idle s₀ s s' j ∧
      j.Active ∧ j.status = .claimed ∧ ¬s.Touched env json "a" "job:1" j idle) ∧
    (∃ (s₀ s s' : Sites ℕ (Dict String Job)) (j : Job), Found runningPast idle s₀ s s' j ∧
      j.Active ∧ j.status = .running ∧ j.startedAt = none ∧
        ¬s.Touched env json "a" "job:1" j idle) := by
  constructor
  · obtain ⟨s₀, s, s', j, h, hstatus, -⟩ := exists_found claimedPast [.act "a" 0 0] .claimed
      (some 100000) 300000 (by decide +kernel) (by decide +kernel) (by decide +kernel)
      (by decide) (by simp)
    refine ⟨s₀, s, s', j, h, .inr (.inl hstatus), hstatus, h.not_touched ?_⟩
    rintro (hpending | ⟨hrunning, -⟩)
    · cases hstatus.symm.trans hpending
    · cases hstatus.symm.trans hrunning
  · obtain ⟨s₀, s, s', j, h, hstatus, hstart⟩ := exists_found runningPast [.act "a" 0 0] .running
      none 1300000 (by decide +kernel) (by decide +kernel) (by decide +kernel) nofun (by simp)
    refine ⟨s₀, s, s', j, h, .inr (.inr hstatus), hstatus, hstart, h.not_touched ?_⟩
    rintro (hpending | ⟨-, t, ht, -⟩)
    · cases hstatus.symm.trans hpending
    · rw [hstart] at ht
      cases ht

end Jobs
end ChordInfra
