/-
# Appends that are delivered more than once

Appends to one worker's list, from any members of a ring of fixed membership that
agree on the owner of the worker's key.  A request may be lost, or be served while
its reply is lost, and then the transport and the service try again; a delivery
that its caller has given up, or that came twice, is a run of the handler of its
own.  So calls and handlers come in at any time and take their turns at single
operations (`Appends.system`).

The check whether the list has the id already stands under the lock that the
write stands under: what the holder of the lock has read is still there when it
writes (`Exact.fresh`).  So an id that comes twice is added once, and each write
adds one id at the end and one to the version (`Appends.exactly_once`).

The handler takes the worker's id from its URL, in which the id stands as it is.  An id
that means something there makes the handler work on another list, and the append succeeds
(`not_exactly_once_questionMark`).
-/

import ChordInfra.Storage.AssignmentRuns
import ChordInfra.Storage.OverHttp

namespace ChordInfra
namespace Storage

open Interact Prog
open ChordInfra.Ring (NodeRef)

/-- The version that the owner holds, zero where there is no record. -/
def WorkerAssignment.versionOf (current : Option Value) : ℕ :=
  match current.bind Value.asWorker with
  | some record => record.version
  | none => 0

theorem WorkerAssignment.versionOf_renew (workerId : String) (current : Option Value)
    (tasks : List String) (now : ℕ) :
    versionOf (some (.worker (renew workerId current tasks now))) = versionOf current + 1 := by
  unfold renew versionOf
  cases current.bind Value.asWorker with
  | none => rfl
  | some record => rfl

/-- The version of the owner's record. -/
def World.assignmentVersion (w : World) (primary : NodeRef) (key : Key) : ℕ :=
  WorkerAssignment.versionOf ((w.stores primary.address).get key)

/-! ### Appends -/

/-- How far an append has come: whether it holds the lock, the value it has read
under it, and whether it has seen its id in the list or has put it there. -/
structure Appending where
  task : String
  holds : Bool
  read : Option (Option Value)
  confirmed : Bool

namespace Appending

/-- An append that has not begun. -/
def init (task : String) : Appending := ⟨task, false, none, false⟩

/-- The lock is taken. -/
@[simps] def lock (g : Appending) : Appending := { g with holds := true }

/-- The lock is released. -/
@[simps] def unlock (g : Appending) : Appending := { g with holds := false, read := none }

/-- The value is read. -/
@[simps] def see (g : Appending) (current : Option Value) : Appending :=
  { g with
    read := some current
    confirmed := g.confirmed || decide (g.task ∈ WorkerAssignment.tasksOf current) }

/-- The list is written with the id at its end. -/
@[simps] def wrote (g : Appending) : Appending := { g with read := none, confirmed := true }

/-- What an append has done after one more operation. -/
def note (g : Appending) : (o : Op) → o.Res → Appending
  | .lock .., _ => g.lock
  | .unlock .., _ => g.unlock
  | .get .., current => g.see current
  | .put .., _ => g.wrote
  | _, _ => g

/-- The append of an id that is not at the list just now. -/
def Idle (task : String) (g : Appending) : Prop :=
  g.task = task ∧ g.holds = false ∧ g.read = none

/-- The end of an append: one that ends with a value knows its id in the list. -/
def Ends (task : String) (x : Except Exc Assignment) (g : Appending) : Prop :=
  g.Idle task ∧ ∀ a, x = .ok a → g.confirmed = true

end Appending

namespace Appends

/-- The key of a worker's list. -/
abbrev key (workerId : String) : Key := .worker (strip workerId)

/-- The owner of a worker's list. -/
abbrev primary {env : Env} (ring : Owned env) (workerId : String) : NodeRef :=
  ring.owner (key workerId)

/-- The appends on a world. -/
def system (decode : List UInt8 → List Char) (env : Env) :
    System Op Op.Res Exc Assignment Appending World where
  handle := overHttp decode env
  enabled := Op.enabled
  note := Appending.note
  launch _ := none

/-- The requests of an append run the handler for its own id, where they run it. -/
def Unchanged (decode : List UInt8 → List Char) (workerId : String) : Prop :=
  ∀ id ∈ appendId decode workerId, id = workerId

/-- What may come in: an append called at a member, or what its URL runs at the owner, for a
request that arrived late or once more.  A careful caller is the owner, or its requests arrive
under its own id. -/
def Comes {env : Env} (decode : List UInt8 → List Char) (ring : Owned env) (workerId : String)
    (careful : Prop) (t : Thread Op Op.Res Exc Assignment Appending) : Prop :=
  ∃ task, t.ghost = .init task ∧
    ((∃ s : Service, s.node ∈ ring.members ∧
        (careful → s.node = primary ring workerId ∨ Unchanged decode workerId) ∧
        t.rest = WorkerAssignment.appendOverHttp decode s workerId task) ∨
      ∃ k, (careful → Unchanged decode workerId) ∧
        t.rest = WorkerAssignment.handleAppendUrl decode (primary ring workerId).address k workerId
          task)

/-- A world before any append. -/
def start {ι : Type} (w : World) : Pool ι Op Op.Res Exc Assignment Appending World :=
  ⟨fun _ => none, w⟩

/-! ### What an append does -/

variable {decode : List UInt8 → List Char} {env : Env} {ring : Owned env} {workerId task : String}
  {g : Appending}

/-- The answers in the ring: only the owner of a key is certain. -/
def Granted (ring : Owned env) : (o : Op) → o.Res → Prop
  | .findSuccessor a k, n => (∃ m ∈ ring.members, m.address = a) → n = ring.owner k
  | _, _ => True

/-- What an append may do next: under the lock it reads the owner's value, and puts
its id at the end of the list that it read, where that has it not. -/
def Allowed (ring : Owned env) (workerId : String) (g : Appending) : Op → Prop
  | .lock a k => a = (primary ring workerId).address ∧ k = key workerId ∧ g.holds = false ∧
      g.read = none
  | .unlock a k => a = (primary ring workerId).address ∧ k = key workerId ∧ g.holds = true
  | .get a k => a = (primary ring workerId).address ∧ k = key workerId ∧ g.holds = true
  | .put a k v => a = (primary ring workerId).address ∧ k = key workerId ∧ g.holds = true ∧
      ∃ current now, g.read = some current ∧ g.task ∉ WorkerAssignment.tasksOf current ∧
        v = .worker (WorkerAssignment.renew workerId current
          (WorkerAssignment.tasksOf current ++ [g.task]) now)
  | .now => True
  | o => Calls.Aside (primary ring workerId) o

/-- The logic of an append. -/
abbrev Does (ring : Owned env) (workerId : String) (p : M Assignment)
    (Q : Except Exc Assignment → Appending → Prop) (g : Appending) : Prop :=
  wp Appending.note (Granted ring) (Allowed ring workerId) p Q g

theorem aside_allowed (o : Op) (h : Calls.Aside (primary ring workerId) o) (g : Appending) :
    Allowed ring workerId g o ∧ ∀ r, Appending.note g o r = g := by
  cases o with
  | rpc a r => exact ⟨h, fun _ => rfl⟩
  | deliver a c => exact ⟨h, fun _ => rfl⟩
  | findSuccessor a k => exact ⟨h, fun _ => rfl⟩
  | _ => exact h.elim

/-- **Under the lock.**  The id is seen in the list, or is put at its end. -/
theorem does_changeLocal (hg : g.Idle task) (k : ℕ) :
    Does ring workerId
      (WorkerAssignment.changeLocal (primary ring workerId).address k (key workerId) workerId
        (WorkerAssignment.appended task) (primary ring workerId)) (Appending.Ends task) g := by
  obtain ⟨rfl, hholds, hread⟩ := hg
  unfold WorkerAssignment.changeLocal
  refine wp_perform_bind.2 ⟨⟨rfl, rfl, hholds, hread⟩, fun _ _ => ?_⟩
  refine wp_perform_bind.2 ⟨⟨rfl, rfl, rfl⟩, fun current _ => ?_⟩
  show wp _ _ _ _ _ (g.lock.see current)
  by_cases hmem : g.task ∈ WorkerAssignment.tasksOf current
  · have happended : WorkerAssignment.appended g.task (WorkerAssignment.tasksOf current) =
        WorkerAssignment.tasksOf current := if_pos hmem
    rw [if_pos happended]
    refine wp_perform_bind.2 ⟨⟨rfl, rfl, rfl⟩, fun _ _ => ⟨⟨rfl, rfl, rfl⟩, fun _ _ => ?_⟩⟩
    show (g.confirmed || decide (g.task ∈ WorkerAssignment.tasksOf current)) = true
    rw [decide_eq_true hmem, Bool.or_true]
  · have happended : WorkerAssignment.appended g.task (WorkerAssignment.tasksOf current) =
        WorkerAssignment.tasksOf current ++ [g.task] := if_neg hmem
    have hchanged : WorkerAssignment.appended g.task (WorkerAssignment.tasksOf current) ≠
        WorkerAssignment.tasksOf current := fun he => by simp [happended] at he
    rw [if_neg hchanged]
    dsimp only
    rw [happended]
    refine wp_perform_bind.2 ⟨trivial, fun now _ => ?_⟩
    refine wp_perform_bind.2 ⟨⟨rfl, rfl, rfl, current, now, rfl, hmem, rfl⟩, fun _ _ => ?_⟩
    refine Only.wp_bind (S := Calls.Aside (primary ring workerId)) ?_
      (.replicateWith (fun _ => .requestWithRetry _ _ _) _ _) aside_allowed fun _ _ => ?_
    · exact .replicas (fun _ => trivial) (fun n hn => .requestWithRetry hn _) k
    · exact ⟨⟨rfl, rfl, rfl⟩, fun _ _ => ⟨⟨rfl, rfl, rfl⟩, fun _ _ => rfl⟩⟩

/-- An append in the owner's process, which knows that it is the owner or resolves it. -/
theorem does_appendLocal (hw : workerId ≠ "") (hg : g.Idle task) (k : ℕ) {owner : Option NodeRef}
    (howner : owner = some (primary ring workerId) ∨ owner = none) :
    Does ring workerId
      (WorkerAssignment.appendLocal (primary ring workerId).address k workerId task owner)
      (Appending.Ends task) g := by
  have hkey : buildWorkerKey workerId = .ok (key workerId) := if_neg hw
  unfold WorkerAssignment.appendLocal
  rw [hkey, lift_ok_bind]
  rcases howner with rfl | rfl
  · exact does_changeLocal hg k
  · refine wp_perform_bind.2 ⟨trivial, fun primary' hp => ?_⟩
    obtain rfl : primary' = primary ring workerId := hp ⟨_, ring.owner_mem _, rfl⟩
    exact does_changeLocal hg k

/-- The owner's handler refuses an empty id. -/
theorem does_handleAppend (hw : workerId ≠ "") (hg : g.Idle task) (k : ℕ) :
    Does ring workerId
      (WorkerAssignment.handleAppend (primary ring workerId).address k workerId task)
      (Appending.Ends task) g := by
  unfold WorkerAssignment.handleAppend
  split_ifs with ht
  · exact ⟨hg, fun a ha => by cases ha⟩
  · exact does_appendLocal hw hg k (.inr rfl)

/-- What the URL runs at the owner, where it runs the handler for its own id only. -/
theorem does_handleAppendUrl (hunchanged : Unchanged decode workerId) (hw : workerId ≠ "")
    (hg : g.Idle task) (k : ℕ) :
    Does ring workerId
      (WorkerAssignment.handleAppendUrl decode (primary ring workerId).address k workerId task)
      (Appending.Ends task) g := by
  unfold WorkerAssignment.handleAppendUrl
  cases hid : appendId decode workerId with
  | none => exact ⟨hg, fun a ha => by cases ha⟩
  | some id =>
    obtain rfl : id = workerId := hunchanged id hid
    exact does_handleAppend hw hg k

/-- The tries of a request: the handler runs as often as the request arrives. -/
theorem does_callTries {a : Address} {c : Call} {handler : M Assignment}
    (h : ∀ g : Appending, g.Idle task → Does ring workerId handler (Appending.Ends task) g)
    (n : ℕ) (hg : g.Idle task) :
    Does ring workerId (Transport.callTries a c handler n) (Appending.Ends task) g := by
  induction n generalizing g with
  | zero => exact ⟨hg, fun a ha => by cases ha⟩
  | succ n ih =>
    refine wp_perform_bind.2 ⟨trivial, fun delivery _ => ?_⟩
    cases delivery with
    | delivered =>
      refine wp_bind.2 (wp_attempt.2 (wp_mono (fun x g' hx => ?_) (h g hg)))
      cases x with
      | ok x => exact hx
      | error e => exact ⟨hx.1, fun a ha => by cases ha⟩
    | lost => exact ih hg
    | replyLost =>
      exact wp_bind.2 (wp_attempt.2 (wp_mono (fun x g' hx => ih hx.1) (h g hg)))

/-- The tries of the service, the owner being resolved again before each. -/
theorem does_appendTries (handler : Address → M Assignment) (hhandler : ∀ g : Appending,
      g.Idle task → Does ring workerId (handler (primary ring workerId).address)
        (Appending.Ends task) g)
    {s : Service} (hs : s.node ∈ ring.members) (n : ℕ) (hg : g.Idle task) :
    Does ring workerId (WorkerAssignment.appendTries s (key workerId) workerId task handler n
      (primary ring workerId)) (Appending.Ends task) g := by
  have hcall : ∀ {g : Appending}, g.Idle task → Does ring workerId
      (Transport.call (primary ring workerId).address (.append workerId task)
        (handler (primary ring workerId).address))
      (Appending.Ends task) g := fun hg => does_callTries hhandler _ hg
  induction n generalizing g with
  | zero => exact hcall hg
  | succ n ih =>
    refine wp_bind.2 (wp_attempt.2 (wp_mono (fun x g' hx => ?_) (hcall hg)))
    cases x with
    | ok x => exact hx
    | error e =>
      refine wp_perform_bind.2 ⟨trivial, fun primary' hp => ?_⟩
      obtain rfl : primary' = primary ring workerId := hp ⟨s.node, hs, rfl⟩
      exact ih hx.1

/-- **What comes in ends with its id confirmed**, or by raising. -/
theorem does_comes (hw : workerId ≠ "") {t : Thread Op Op.Res Exc Assignment Appending}
    (ht : Comes decode ring workerId True t) :
    Does ring workerId t.rest (fun x g => Appending.Ends g.task x g) t.ghost := by
  have hends : ∀ {p : M Assignment} {task : String} {g : Appending},
      Does ring workerId p (Appending.Ends task) g →
        Does ring workerId p (fun x g => Appending.Ends g.task x g) g := fun h =>
    wp_mono (fun x g hx => by
      obtain ⟨⟨rfl, hidle⟩, hok⟩ := hx
      exact ⟨⟨rfl, hidle⟩, hok⟩) h
  obtain ⟨g, p⟩ := t
  obtain ⟨task, rfl, hp⟩ := ht
  have hinit : (Appending.init task).Idle task := ⟨rfl, rfl, rfl⟩
  rcases hp with ⟨s, hs, hcareful, rfl⟩ | ⟨k, hcareful, rfl⟩
  · have hkey : buildWorkerKey workerId = .ok (key workerId) := if_neg hw
    show wp _ _ _ (WorkerAssignment.appendOverHttp decode s workerId task) _ _
    unfold WorkerAssignment.appendOverHttp WorkerAssignment.appendBy
    rw [hkey, lift_ok_bind]
    refine wp_perform_bind.2 ⟨trivial, fun primary' hp => ?_⟩
    obtain rfl : primary' = primary ring workerId := hp ⟨s.node, hs, rfl⟩
    split_ifs with hid
    · have hnode : s.node = primary ring workerId := ring.eq_owner hs hid
      rw [hnode]
      exact hends (does_appendLocal hw hinit _ (.inl rfl))
    · have hunchanged : Unchanged decode workerId :=
        (hcareful trivial).resolve_left fun he => hid (congrArg NodeRef.id he).symm
      exact hends (does_appendTries
        (fun a => WorkerAssignment.handleAppendUrl decode a s.replicationK workerId task)
        (fun g hg => does_handleAppendUrl hunchanged hw hg _) hs _ hinit)
  · exact hends (does_handleAppendUrl (hcareful trivial) hw hinit k)

/-! ### What the appends keep -/

variable {ι : Type} {tasks₀ : List String} {version₀ : ℕ} {γ γ' : ι → Option Appending}
  {w w' : World} {i : ι} {p : NodeRef} {k : Key}

/-- What holds throughout a run: at most one append holds the lock, what it has read
is still there, a confirmed id is in the list, and the list has grown at its end,
by ids of the appends, each once and each with one version. -/
structure Exact (p : NodeRef) (k : Key) (tasks₀ : List String) (version₀ : ℕ)
    (γ : ι → Option Appending) (w : World) : Prop where
  locked : w.locked p.address k = true ↔ ∃ i, ∃ g ∈ γ i, g.holds = true
  alone : ∀ i, ∀ g ∈ γ i, ∀ j, ∀ g' ∈ γ j, g.holds = true → g'.holds = true → i = j
  fresh : ∀ i, ∀ g ∈ γ i, ∀ current, g.holds = true → g.read = some current →
    (w.stores p.address).get k = current
  confirmed : ∀ i, ∀ g ∈ γ i, g.confirmed = true → g.task ∈ w.tasks p k
  nodup : (w.tasks p k).Nodup
  grown : tasks₀ <+: w.tasks p k
  version : w.assignmentVersion p k + tasks₀.length = version₀ + (w.tasks p k).length
  called : ∀ t ∈ w.tasks p k, t ∈ tasks₀ ∨ ∃ i, ∃ g ∈ γ i, g.task = t

namespace Exact

/-- From here on the list grows on what it is here. -/
theorem from_here (h : Exact p k tasks₀ version₀ γ w) :
    Exact p k (w.tasks p k) (w.assignmentVersion p k) γ w :=
  { h with
    grown := List.prefix_refl _
    version := rfl
    called := fun _ ht => .inl ht }

/-- An operation that leaves the record and the lock alone. -/
theorem aside (h : Exact p k tasks₀ version₀ γ w)
    (hget : (w'.stores p.address).get k = (w.stores p.address).get k)
    (hlocked : w'.locked p.address k = w.locked p.address k) :
    Exact p k tasks₀ version₀ γ w' := by
  have htasks : w'.tasks p k = w.tasks p k := congrArg WorkerAssignment.tasksOf hget
  have hversion : w'.assignmentVersion p k = w.assignmentVersion p k :=
    congrArg WorkerAssignment.versionOf hget
  refine ⟨?_, h.alone, fun j g hg current hj hr => hget.trans (h.fresh j g hg current hj hr),
    ?_, ?_, ?_, ?_, ?_⟩
  · rw [hlocked, h.locked]
  · rw [htasks]
    exact h.confirmed
  · rw [htasks]
    exact h.nodup
  · rw [htasks]
    exact h.grown
  · rw [hversion, htasks]
    exact h.version
  · rw [htasks]
    exact h.called

variable [DecidableEq ι]

/-- The lock is taken while it is free. -/
theorem lock {g : Appending} (h : Exact p k tasks₀ version₀ γ w) (hg : γ i = some g)
    (hfree : w.locked p.address k = false) (hread : g.read = none)
    (hstores : w'.stores = w.stores) (hlocked : w'.locked p.address k = true) :
    Exact p k tasks₀ version₀ (Function.update γ i (some g.lock)) w' := by
  have hnone : ∀ j, ∀ g ∈ γ j, g.holds ≠ true := fun j g hg hj =>
    Bool.false_ne_true (hfree.symm.trans (h.locked.2 ⟨j, g, hg, hj⟩))
  have hholder : ∀ j, ∀ g' ∈ Function.update γ i (some g.lock) j, g'.holds = true → j = i :=
    forall_update (fun _ => rfl) fun j _ g' hg' hj => absurd hj (hnone j g' hg')
  have htasks : w'.tasks p k = w.tasks p k := by rw [World.tasks, World.tasks, hstores]
  have hversion : w'.assignmentVersion p k = w.assignmentVersion p k := by
    rw [World.assignmentVersion, World.assignmentVersion, hstores]
  refine ⟨?_, fun j gj hgj j' gj' hgj' hj hj' => ?_, ?_, ?_, ?_, ?_, ?_, ?_⟩
  · refine ⟨fun _ => ⟨i, g.lock, Function.update_self .., rfl⟩, fun _ => hlocked⟩
  · rw [hholder j gj hgj hj, hholder j' gj' hgj' hj']
  · refine forall_update (fun current _ hr => ?_) fun j _ g' hg' current hj => ?_
    · rw [Appending.lock_read, hread] at hr
      cases hr
    · exact absurd hj (hnone j g' hg')
  · rw [htasks]
    exact forall_update (h.confirmed i g hg) fun j _ => h.confirmed j
  · exact htasks ▸ h.nodup
  · exact htasks ▸ h.grown
  · rw [hversion, htasks]
    exact h.version
  · rw [htasks]
    exact fun t ht => (h.called t ht).imp_right (exists_update hg fun he => he)

/-- The lock is released by the append that holds it. -/
theorem unlock {g : Appending} (h : Exact p k tasks₀ version₀ γ w) (hg : γ i = some g)
    (hholds : g.holds = true) (hstores : w'.stores = w.stores)
    (hlocked : w'.locked p.address k = false) :
    Exact p k tasks₀ version₀ (Function.update γ i (some g.unlock)) w' := by
  have hnone : ∀ j, ∀ g' ∈ Function.update γ i (some g.unlock) j, g'.holds ≠ true :=
    forall_update (by simp) fun j hj g' hg' hj' => hj (h.alone j g' hg' i g hg hj' hholds)
  have htasks : w'.tasks p k = w.tasks p k := by rw [World.tasks, World.tasks, hstores]
  have hversion : w'.assignmentVersion p k = w.assignmentVersion p k := by
    rw [World.assignmentVersion, World.assignmentVersion, hstores]
  refine ⟨?_, fun j gj hgj _ _ _ hj => absurd hj (hnone j gj hgj), fun j gj hgj _ hj =>
    absurd hj (hnone j gj hgj), ?_, ?_, ?_, ?_, ?_⟩
  · rw [hlocked]
    refine ⟨fun hf => absurd hf Bool.false_ne_true, ?_⟩
    rintro ⟨j, gj, hgj, hj⟩
    exact absurd hj (hnone j gj hgj)
  · rw [htasks]
    exact forall_update (h.confirmed i g hg) fun j _ => h.confirmed j
  · exact htasks ▸ h.nodup
  · exact htasks ▸ h.grown
  · rw [hversion, htasks]
    exact h.version
  · rw [htasks]
    exact fun t ht => (h.called t ht).imp_right (exists_update hg fun he => he)

/-- The holder of the lock reads the value. -/
theorem see {g : Appending} (h : Exact p k tasks₀ version₀ γ w) (hg : γ i = some g)
    (hstores : w'.stores = w.stores) (hlocked : w'.locked p.address k = w.locked p.address k) :
    Exact p k tasks₀ version₀
      (Function.update γ i (some (g.see ((w.stores p.address).get k)))) w' := by
  have hget : (w'.stores p.address).get k = (w.stores p.address).get k := by rw [hstores]
  refine aside ⟨?_, ?_, ?_, ?_, h.nodup, h.grown, h.version, ?_⟩ hget hlocked
  · rw [h.locked]
    refine ⟨exists_update hg fun he => he, ?_⟩
    rintro ⟨j, gj, hgj, hj⟩
    by_cases hji : j = i
    · subst hji
      rw [Function.update_self] at hgj
      exact ⟨j, g, hg, by simpa [← Option.some.inj hgj] using hj⟩
    · rw [Function.update_of_ne hji] at hgj
      exact ⟨j, gj, hgj, hj⟩
  · refine forall_update ?_ fun j _ gj hgj => ?_
    · exact forall_update (fun _ _ => rfl) fun j _ gj hgj => h.alone i g hg j gj hgj
    · exact forall_update (h.alone j gj hgj i g hg) fun j' _ => h.alone j gj hgj j'
  · refine forall_update (fun current _ hr => Option.some.inj hr) fun j _ => h.fresh j
  · refine forall_update (fun hc => ?_) fun j _ => h.confirmed j
    rcases Bool.or_eq_true_iff.1 hc with hc | hc
    · exact h.confirmed i g hg hc
    · exact of_decide_eq_true hc
  · exact fun t ht => (h.called t ht).imp_right (exists_update hg fun he => he)

/-- **The holder of the lock puts its id at the end.**  The list that it read is the
list that is there, which has not the id, so the list with the id at its end has
every id once, and the version is one more. -/
theorem wrote {g : Appending} {current : Option Value} {workerId : String} {now : ℕ}
    (h : Exact p k tasks₀ version₀ γ w) (hg : γ i = some g) (hholds : g.holds = true)
    (hread : g.read = some current) (hmem : g.task ∉ WorkerAssignment.tasksOf current)
    (hput : (w'.stores p.address).get k = some (.worker (WorkerAssignment.renew workerId current
      (WorkerAssignment.tasksOf current ++ [g.task]) now)))
    (hlocked : w'.locked p.address k = w.locked p.address k) :
    Exact p k tasks₀ version₀ (Function.update γ i (some g.wrote)) w' := by
  have hcurrent : (w.stores p.address).get k = current := h.fresh i g hg current hholds hread
  have hbefore : w.tasks p k = WorkerAssignment.tasksOf current :=
    congrArg WorkerAssignment.tasksOf hcurrent
  have htasks : w'.tasks p k = w.tasks p k ++ [g.task] := by
    rw [World.tasks, hput, WorkerAssignment.tasksOf_renew, hbefore]
  have hversion : w'.assignmentVersion p k = w.assignmentVersion p k + 1 := by
    rw [World.assignmentVersion, hput, WorkerAssignment.versionOf_renew, World.assignmentVersion,
      hcurrent]
  have hothers : ∀ j, j ≠ i → ∀ g' ∈ γ j, g'.holds ≠ true := fun j hj g' hg' hj' =>
    hj (h.alone j g' hg' i g hg hj' hholds)
  refine ⟨?_, ?_, ?_, ?_, ?_, ?_, ?_, ?_⟩
  · rw [hlocked]
    exact ⟨fun _ => ⟨i, g.wrote, Function.update_self .., hholds⟩,
      fun _ => h.locked.2 ⟨i, g, hg, hholds⟩⟩
  · refine forall_update ?_ fun j hj gj hgj _ _ _ hgj' => absurd hgj' (hothers j hj gj hgj)
    exact forall_update (fun _ _ => rfl) fun j hj gj hgj _ hj' => absurd hj' (hothers j hj gj hgj)
  · refine forall_update (fun current _ hr => by cases hr) fun j hj gj hgj _ hj' => ?_
    exact absurd hj' (hothers j hj gj hgj)
  · rw [htasks]
    refine forall_update (fun _ => List.mem_append_right _ (List.mem_singleton_self _)) ?_
    exact fun j _ gj hgj hc => List.mem_append_left _ (h.confirmed j gj hgj hc)
  · rw [htasks, List.nodup_append]
    refine ⟨h.nodup, List.nodup_singleton _, fun a ha b hb hab => ?_⟩
    rw [hab, List.mem_singleton.1 hb, hbefore] at ha
    exact hmem ha
  · rw [htasks]
    exact h.grown.trans (List.prefix_append _ _)
  · have hbefore := h.version
    rw [hversion, htasks, List.length_append, List.length_singleton]
    omega
  · intro t ht
    rw [htasks, List.mem_append, List.mem_singleton] at ht
    rcases ht with ht | rfl
    · exact (h.called t ht).imp_right (exists_update hg fun he => he)
    · exact .inr ⟨i, g.wrote, Function.update_self .., rfl⟩

/-- An append comes in. -/
theorem enter (h : Exact p k tasks₀ version₀ γ w) (hi : γ i = none) (task : String) :
    Exact p k tasks₀ version₀ (Function.update γ i (some (.init task))) w := by
  have hold : ∀ {φ : Appending → Prop}, (∃ j, ∃ g ∈ γ j, φ g) →
      ∃ j, ∃ g ∈ Function.update γ i (some (.init task)) j, φ g := by
    rintro φ ⟨j, g, hg, hj⟩
    have hji : j ≠ i := fun he => by
      rw [he, hi] at hg
      cases hg
    exact ⟨j, g, (Function.update_of_ne hji ..).trans hg, hj⟩
  refine ⟨?_, ?_, ?_, ?_, h.nodup, h.grown, h.version,
    fun t ht => (h.called t ht).imp_right hold⟩
  · rw [h.locked]
    refine ⟨hold, ?_⟩
    rintro ⟨j, g, hg, hj⟩
    by_cases hji : j = i
    · subst hji
      rw [Function.update_self] at hg
      rw [← Option.some.inj hg] at hj
      exact absurd hj Bool.false_ne_true
    · rw [Function.update_of_ne hji] at hg
      exact ⟨j, g, hg, hj⟩
  · refine forall_update (fun _ _ _ hf => absurd hf Bool.false_ne_true) fun j _ gj hgj => ?_
    exact forall_update (fun _ hf => absurd hf Bool.false_ne_true) fun j' _ => h.alone j gj hgj j'
  · exact forall_update (fun _ hf => absurd hf Bool.false_ne_true) fun j _ => h.fresh j
  · exact forall_update (fun hf => absurd hf Bool.false_ne_true) fun j _ => h.confirmed j

end Exact

/-! ### Runs -/

section Runs

variable [DecidableEq ι]

/-- **An operation of an append keeps all this.**  The cases are the operations that an
append may perform. -/
theorem Exact.act (h : Exact (primary ring workerId) (key workerId) tasks₀ version₀ γ w)
    (hg : γ i = some g) {o : Op} (hallowed : Allowed ring workerId g o)
    (henabled : Op.enabled w o = true) :
    Granted ring o (overHttp decode env o w).1 ∧
      Exact (primary ring workerId) (key workerId) tasks₀ version₀
        (Function.update γ i (some (g.note o (overHttp decode env o w).1)))
        (overHttp decode env o w).2 := by
  have hsame : Function.update γ i (some g) = γ := by rw [← hg, Function.update_eq_self]
  cases o with
  | lock a k =>
    obtain ⟨rfl, rfl, -, hread⟩ := hallowed
    have hfree : w.locked (primary ring workerId).address (key workerId) = false := by
      simpa [Op.enabled] using henabled
    exact ⟨trivial, h.lock hg hfree hread rfl (by simp [overHttp, handle, World.did])⟩
  | unlock a k =>
    obtain ⟨rfl, rfl, hholds⟩ := hallowed
    exact ⟨trivial, h.unlock hg hholds rfl (by simp [overHttp, handle, World.did])⟩
  | get a k =>
    obtain ⟨rfl, rfl, hholds⟩ := hallowed
    exact ⟨trivial, h.see hg rfl rfl⟩
  | put a k v =>
    obtain ⟨rfl, rfl, hholds, current, now, hread, hmem, rfl⟩ := hallowed
    exact ⟨trivial, h.wrote hg hholds hread hmem (Stores.get_put_self _ _ _ _) rfl⟩
  | now =>
    refine ⟨trivial, ?_⟩
    show Exact _ _ _ _ (Function.update γ i (some g)) _
    rw [hsame]
    exact h.aside rfl rfl
  | findSuccessor a k =>
    have hgranted : Granted ring (.findSuccessor a k)
        (overHttp decode env (.findSuccessor a k) w).1 := by
      rintro ⟨m, hm, rfl⟩
      exact ring.findSuccessor_eq _ m hm k
    refine ⟨hgranted, ?_⟩
    show Exact _ _ _ _ (Function.update γ i (some g)) _
    rw [hsame]
    exact h.aside rfl rfl
  | deliver a c =>
    refine ⟨trivial, ?_⟩
    show Exact _ _ _ _ (Function.update γ i (some g)) _
    rw [hsame]
    exact h.aside rfl rfl
  | rpc a r =>
    refine ⟨trivial, ?_⟩
    show Exact _ _ _ _ (Function.update γ i (some g)) _
    rw [hsame]
    refine h.aside ?_ rfl
    show ((if _ then w.stores else World.serveOverHttp decode w.stores a r) _).get _ = _
    split_ifs
    · rfl
    · cases r with
      | getState => rfl
      | putReplica k v =>
        -- whatever key its URL reaches, the copy is at another node
        have hne : (primary ring workerId).address ≠ a := Ne.symm hallowed
        rw [World.serveOverHttp_of_ne decode hne]
      | _ => exact hallowed.elim
  | _ => exact hallowed.elim

/-- The appends keep what holds throughout a run, in any order. -/
theorem keeps (hw : workerId ≠ "") :
    Keeps (ι := ι) (system decode env) (Comes decode ring workerId True) (fun _ _ _ _ => True)
      (Granted ring)
      (Allowed ring workerId) (fun x g => Appending.Ends g.task x g)
      (Exact (primary ring workerId) (key workerId) tasks₀ version₀) where
  act := fun γ w i slot g o h hg hallowed henabled _ _ => h.act hg hallowed henabled
  launched := fun o t ht => by cases ht
  enter := by
    rintro γ w i t h hi ⟨task, hghost, -⟩
    rw [hghost]
    exact h.enter hi task
  entered := fun t ht => does_comes hw ht

/-- **Appends are exactly once** where they reach the list that they are for: each is called at
the owner, or its id stands in a URL as it is.  Requests are lost or served again, and what comes
in takes its turns in any order.  At any moment of a run from an unlocked list without duplicates,
every append that has ended with a value has its id in the list, then and at any later moment; the
list grows at its end only, has every id once, has no ids but those that it had and those of the
appends, and the version has grown by the number of ids. -/
theorem exactly_once (hw : workerId ≠ "")
    (hfree : w.locked (primary ring workerId).address (key workerId) = false)
    (hnodup : (w.tasks (primary ring workerId) (key workerId)).Nodup)
    {c c' : Pool ι Op Op.Res Exc Assignment Appending World}
    (hrun : Steps (system decode env) (Comes decode ring workerId True) (fun _ _ _ _ => True)
      (start w) c)
    (hlater : Steps (system decode env) (Comes decode ring workerId True) (fun _ _ _ _ => True)
      c c') :
    (∀ i t a, c.threads i = some t → t.rest = .ret a →
      t.ghost.task ∈ c'.world.tasks (primary ring workerId) (key workerId)) ∧
    c.world.tasks (primary ring workerId) (key workerId) <+:
      c'.world.tasks (primary ring workerId) (key workerId) ∧
    (c'.world.tasks (primary ring workerId) (key workerId)).Nodup ∧
    (∀ t ∈ c'.world.tasks (primary ring workerId) (key workerId),
      t ∈ w.tasks (primary ring workerId) (key workerId) ∨
        ∃ i th, c'.threads i = some th ∧ th.ghost.task = t) ∧
    c'.world.assignmentVersion (primary ring workerId) (key workerId) +
        (w.tasks (primary ring workerId) (key workerId)).length =
      w.assignmentVersion (primary ring workerId) (key workerId) +
        (c'.world.tasks (primary ring workerId) (key workerId)).length := by
  have hstart : Exact (primary ring workerId) (key workerId)
      (w.tasks (primary ring workerId) (key workerId))
      (w.assignmentVersion (primary ring workerId) (key workerId)) (start (ι := ι) w).ghosts w := by
    refine ⟨?_, fun _ _ hg => ?_, fun _ _ hg => ?_, fun _ _ hg => ?_, hnodup, List.prefix_refl _,
      rfl, fun _ ht => .inl ht⟩
    · rw [hfree]
      refine ⟨fun hf => absurd hf Bool.false_ne_true, ?_⟩
      rintro ⟨_, _, hg, -⟩
      cases hg
    all_goals cases hg
  have hsound := hrun.sound (keeps (ι := ι) hw) ⟨fun _ _ ht => (by cases ht), hstart⟩
  have hnow := hlater.sound (keeps hw) ⟨hsound.threads, hsound.world.from_here⟩
  have hend := hlater.sound (keeps hw) hsound
  refine ⟨fun i t a ht hret => ?_, hnow.world.grown, hnow.world.nodup, fun t ht => ?_,
    hend.world.version⟩
  · have hthread := hsound.threads i t ht
    rw [hret] at hthread
    have hconfirmed : t.ghost.confirmed = true := hthread.2 a rfl
    have hghost : t.ghost ∈ c.ghosts i := Option.map_eq_some_iff.2 ⟨t, ht, rfl⟩
    exact hnow.world.grown.subset (hsound.world.confirmed i _ hghost hconfirmed)
  · refine (hend.world.called t ht).imp_right ?_
    rintro ⟨i, g, hg, rfl⟩
    obtain ⟨th, hth, rfl⟩ := Option.map_eq_some_iff.1 hg
    exact ⟨i, th, hth, rfl⟩

end Runs

end Appends

namespace ThreeNodes

/-- The ring in which the reply of the first request to the owner's handler is lost. -/
def replyLostEnv : Env :=
  { env fun _ _ _ => .delivered with
    deliverCall := fun t _ _ => if t = 1 then .replyLost else .delivered }

def replyLostRing : Owned replyLostEnv := ring.toOwned.congr rfl

/-- An append of `t1` called at `nodeB`, and what its URL runs at `nodeA` for a request that
comes once more. -/
def appendThreads (workerId : String) : Fin 2 → Thread Op Op.Res Exc Assignment Appending
  | 0 => ⟨.init "t1", WorkerAssignment.appendOverHttp latin1 (services nodeB) workerId "t1"⟩
  | 1 => ⟨.init "t1", WorkerAssignment.handleAppendUrl latin1 "a" 3 workerId "t1"⟩

/-- The two come in and take their turns. -/
def appendEvents (workerId : String) (turns : List (Fin 2)) :
    List (Event (Fin 2) Op Op.Res Exc Assignment Appending) :=
  [.enter 0 (appendThreads workerId 0), .enter 1 (appendThreads workerId 1)] ++
    turns.map fun i => .act i i

theorem comes_appendThreads {workerId : String} {careful : Prop}
    (hcareful : careful → Appends.Unchanged latin1 workerId) (i : Fin 2) :
    Appends.Comes latin1 replyLostRing workerId careful (appendThreads workerId i) :=
  match i with
  | 0 => ⟨"t1", rfl, .inl ⟨services nodeB, .inr (.inl rfl), fun h => .inr (hcareful h), rfl⟩⟩
  | 1 => ⟨"t1", rfl, .inr ⟨3, hcareful, rfl⟩⟩

theorem steps_appendThreads {workerId : String} {careful : Prop}
    (hcareful : careful → Appends.Unchanged latin1 workerId) {turns : List (Fin 2)}
    {c : Pool (Fin 2) Op Op.Res Exc Assignment Appending World}
    (hc : (Appends.start World.empty).steps (Appends.system latin1 replyLostEnv)
      (fun _ _ _ _ => True) (appendEvents workerId turns) = some c) :
    Steps (Appends.system latin1 replyLostEnv) (Appends.Comes latin1 replyLostRing workerId careful)
      (fun _ _ _ _ => True) (Appends.start World.empty) c := by
  refine .of_steps (fun i t ht => ?_) hc
  have ht' : i = 0 ∧ t = appendThreads workerId 0 ∨ i = 1 ∧ t = appendThreads workerId 1 := by
    simpa [appendEvents] using ht
  rcases ht' with ⟨-, rfl⟩ | ⟨-, rfl⟩ <;> exact comes_appendThreads hcareful _

/-- The id of the append at `nodeB`, when that has ended with a value. -/
def appended (c : Pool (Fin 2) Op Op.Res Exc Assignment Appending World) : Option String :=
  match c.threads 0 with
  | some ⟨g, .ret _⟩ => some g.task
  | _ => none

theorem appended_eq_some {c : Pool (Fin 2) Op Op.Res Exc Assignment Appending World} {id : String}
    (h : appended c = some id) :
    ∃ t a, c.threads 0 = some t ∧ t.rest = .ret a ∧ t.ghost.task = id := by
  unfold appended at h
  split at h
  · next g a ht => exact ⟨_, a, ht, rfl, Option.some.inj h⟩
  · cases h

end ThreeNodes

open ThreeNodes in
/-- The hypotheses of `Appends.exactly_once` are satisfiable: the handler of `nodeA` runs
three times for the one append of `nodeB`, which is tried again after its request was served. -/
theorem exactly_once_threeNodes :
    ∃ c : Pool (Fin 2) Op Op.Res Exc Assignment Appending World,
      "t1" ∈ c.world.tasks nodeA (.worker "w") ∧ (c.world.tasks nodeA (.worker "w")).Nodup ∧
        c.world.assignmentVersion nodeA (.worker "w") + 0 =
          0 + (c.world.tasks nodeA (.worker "w")).length := by
  have hrun : ((Appends.start World.empty).steps (Appends.system latin1 replyLostEnv)
      (fun _ _ _ _ => True) (appendEvents "w" (List.replicate 13 0 ++ List.replicate 4 1 ++
        List.replicate 5 0))).map appended = some (some "t1") := by
    decide
  obtain ⟨c, hc, happended⟩ := Option.map_eq_some_iff.1 hrun
  obtain ⟨t, a, ht, hret, htask⟩ := appended_eq_some happended
  have hstrip : strip "w" = "w" := by decide
  have hunchanged : Appends.Unchanged latin1 "w" :=
    (appendId_unchanged_iff decodes_latin1 "w").2 (.inl (hstrip ▸ plain_letter.1))
  obtain ⟨hlisted, -, hnodup, -, hversion⟩ := Appends.exactly_once (by decide) rfl
    (by rw [Appends.key, hstrip]; exact List.nodup_nil)
    (steps_appendThreads (fun _ => hunchanged) hc) .refl
  replace hlisted := hlisted 0 t a ht hret
  rw [htask, Appends.key, hstrip] at hlisted
  rw [Appends.key, hstrip] at hnodup hversion
  exact ⟨c, hlisted, hnodup, hversion⟩

open ThreeNodes in
/-- **An append that succeeds for another worker**: what stands after a `?` is no part of the path,
so the append that `nodeB` calls for `a?b` puts the task on the list of `a`. -/
theorem not_exactly_once_questionMark :
    ∃ c : Pool (Fin 2) Op Op.Res Exc Assignment Appending World,
      Steps (Appends.system latin1 replyLostEnv) (Appends.Comes latin1 replyLostRing "a?b" False)
        (fun _ _ _ _ => True) (Appends.start World.empty) c ∧
      (∃ t a, c.threads 0 = some t ∧ t.rest = .ret a ∧ t.ghost.task = "t1") ∧
      c.world.tasks nodeA (Appends.key "a?b") = [] ∧
      c.world.tasks nodeA (Appends.key "a") = ["t1"] := by
  have hrun : ((Appends.start World.empty).steps (Appends.system latin1 replyLostEnv)
      (fun _ _ _ _ => True) (appendEvents "a?b" (List.replicate 18 0))).map (fun c =>
        (appended c, c.world.tasks nodeA (Appends.key "a?b"),
          c.world.tasks nodeA (Appends.key "a"))) = some (some "t1", [], ["t1"]) := by
    decide
  obtain ⟨c, hc, hend⟩ := Option.map_eq_some_iff.1 hrun
  obtain ⟨happended, hother, hlisted⟩ : _ ∧ _ ∧ _ := by simpa only [Prod.mk.injEq] using hend
  exact ⟨c, steps_appendThreads (fun h => h.elim) hc, appended_eq_some happended, hother, hlisted⟩

end Storage
end ChordInfra
