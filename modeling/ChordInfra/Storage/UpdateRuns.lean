/-
# Updates of one task, in any order

Updates of a task, issued from any members of a ring of fixed membership in which
no request fails, take their turns at single reads and writes.  An update reads
the owner's record, patches it and writes it back, without a lock or a check of
the version.  In a run in which every such write finds at the owner the version
that the update read, the record is at the end what the acknowledged updates
make of it one after another: its version counts them, and each field that one
of them names holds the value of one of them (`Updates.version_counts`).
-/

import ChordInfra.Storage.AssignmentRuns
import Mathlib.Data.Finset.Card

namespace ChordInfra
namespace Storage

open Interact Prog
open ChordInfra.Ring (NodeRef)
open Replication

/-! ### Patches -/

namespace TaskRecord

variable {r r' : TaskRecord} {patch : Fields} {now : ℕ} {field : String} {v : Json}

/-- A field that may be patched holds a value. -/
def Holds (r : TaskRecord) (field : String) (v : Json) : Prop :=
  (field = "status" ∧ TaskStatus.ofJson v = .ok r.status) ∨ (field = "result" ∧ r.result = v) ∨
    (field = "error" ∧ r.error = v) ∨ (field = "payload" ∧ patchedPayload v = .ok r.payload) ∨
      (field = "priority" ∧ Priority.ofJson v = .ok r.priority)

theorem patched_some {α : Type} {check : Json → Except Exc α} {old new : α}
    (h : patched patch field check old = .ok new) (hv : Dict.get patch field = some v) :
    check v = .ok new := by
  unfold patched at h
  rwa [hv] at h

theorem patched_none {α : Type} {check : Json → Except Exc α} {old new : α}
    (h : patched patch field check old = .ok new) (hv : Dict.get patch field = none) : old = new := by
  unfold patched at h
  rw [hv] at h
  exact Except.ok.inj h

/-- What an accepted patch makes of a record. -/
theorem update_eq (h : r.update patch now = .ok r') :
    (∀ field v, Dict.get patch field = some v → field ∈ allowed) ∧
      patched patch "status" TaskStatus.ofJson r.status = .ok r'.status ∧
      patched patch "result" .ok r.result = .ok r'.result ∧
      patched patch "error" .ok r.error = .ok r'.error ∧
      patched patch "payload" patchedPayload r.payload = .ok r'.payload ∧
      patched patch "priority" Priority.ofJson r.priority = .ok r'.priority ∧
      r' = { r with
        status := r'.status, result := r'.result, error := r'.error, payload := r'.payload
        priority := r'.priority
        deleted := r.deleted || ((Dict.get patch "status").isSome && decide (r'.status = .deleted))
        updatedAt := now
        version := r.version + 1 } := by
  unfold update at h
  split at h
  · cases h
  · rename_i hnone
    have hallowed : ∀ field v, Dict.get patch field = some v → field ∈ allowed := fun field v hv => by
      have hmem := List.find?_eq_none.1 hnone _ ((Dict.mem_entries_iff patch).2 hv)
      simpa using hmem
    cases hs : patched patch "status" TaskStatus.ofJson r.status with
    | error e => rw [hs] at h; cases h
    | ok status =>
    cases hr : patched patch "result" .ok r.result with
    | error e => rw [hs, hr] at h; cases h
    | ok result =>
    cases he : patched patch "error" .ok r.error with
    | error e => rw [hs, hr, he] at h; cases h
    | ok error =>
    cases hp : patched patch "payload" patchedPayload r.payload with
    | error e => rw [hs, hr, he, hp] at h; cases h
    | ok payload =>
    cases hq : patched patch "priority" Priority.ofJson r.priority with
    | error e => rw [hs, hr, he, hp, hq] at h; cases h
    | ok priority =>
      rw [hs, hr, he, hp, hq] at h
      obtain rfl := Except.ok.inj h
      exact ⟨hallowed, rfl, rfl, rfl, rfl, rfl, rfl⟩

theorem version_update (h : r.update patch now = .ok r') : r'.version = r.version + 1 := by
  rw [(update_eq h).2.2.2.2.2.2]

/-- A field that an accepted patch names holds its value. -/
theorem holds_update (h : r.update patch now = .ok r') (hv : Dict.get patch field = some v) :
    r'.Holds field v := by
  obtain ⟨hallowed, hs, hr, he, hp, hq, -⟩ := update_eq h
  have hmem := hallowed field v hv
  simp only [allowed, List.mem_cons, List.not_mem_nil, or_false] at hmem
  rcases hmem with rfl | rfl | rfl | rfl | rfl
  · exact .inl ⟨rfl, patched_some hs hv⟩
  · exact .inr (.inl ⟨rfl, (Except.ok.inj (patched_some hr hv)).symm⟩)
  · exact .inr (.inr (.inl ⟨rfl, (Except.ok.inj (patched_some he hv)).symm⟩))
  · exact .inr (.inr (.inr (.inl ⟨rfl, patched_some hp hv⟩)))
  · exact .inr (.inr (.inr (.inr ⟨rfl, patched_some hq hv⟩)))

/-- A field that an accepted patch does not name holds what it held. -/
theorem Holds.update (hr : r.Holds field v) (h : r.update patch now = .ok r')
    (hv : Dict.get patch field = none) : r'.Holds field v := by
  obtain ⟨-, hs, hres, he, hp, hq, -⟩ := update_eq h
  rcases hr with ⟨rfl, hr⟩ | ⟨rfl, hr⟩ | ⟨rfl, hr⟩ | ⟨rfl, hr⟩ | ⟨rfl, hr⟩
  · exact .inl ⟨rfl, patched_none hs hv ▸ hr⟩
  · exact .inr (.inl ⟨rfl, patched_none hres hv ▸ hr⟩)
  · exact .inr (.inr (.inl ⟨rfl, patched_none he hv ▸ hr⟩))
  · exact .inr (.inr (.inr (.inl ⟨rfl, patched_none hp hv ▸ hr⟩)))
  · exact .inr (.inr (.inr (.inr ⟨rfl, patched_none hq hv ▸ hr⟩)))

/-- A record patched again and again. -/
inductive Patched (r : TaskRecord) : List Fields → TaskRecord → Prop
  | nil : Patched r [] r
  | snoc {patches : List Fields} {r₁ r₂ : TaskRecord} {patch : Fields} {now : ℕ}
      (h : Patched r patches r₁) (hupdate : r₁.update patch now = .ok r₂) :
      Patched r (patches ++ [patch]) r₂

/-- **The version counts the patches.** -/
theorem Patched.version {patches : List Fields} (h : Patched r patches r') :
    r'.version = r.version + patches.length := by
  induction h with
  | nil => rfl
  | snoc _ hupdate ih =>
    rw [version_update hupdate, ih, List.length_append, List.length_singleton, Nat.add_assoc]

/-- **A field that some patch names holds the value of one that does.** -/
theorem Patched.holds {patches : List Fields} (h : Patched r patches r')
    (hnamed : ∃ patch ∈ patches, (Dict.get patch field).isSome) :
    ∃ patch ∈ patches, ∃ v, Dict.get patch field = some v ∧ r'.Holds field v := by
  induction h with
  | nil => simp at hnamed
  | @snoc patches r₁ r₂ patch now _ hupdate ih =>
    rcases hv : Dict.get patch field with - | v
    · obtain ⟨p, hp, hsome⟩ := hnamed
      rcases List.mem_append.1 hp with hp | hp
      · obtain ⟨p', hp', v, hv', hholds⟩ := ih ⟨p, hp, hsome⟩
        exact ⟨p', List.mem_append_left _ hp', v, hv', hholds.update hupdate hv⟩
      · rw [List.mem_singleton.1 hp, hv] at hsome
        cases hsome
    · exact ⟨patch, List.mem_append_right _ (List.mem_singleton_self _), v, hv,
        holds_update hupdate hv⟩

end TaskRecord

/-! ### Updates -/

/-- How far an update has come: the record it has read, and whether it has written. -/
structure UpdateProgress where
  patch : Fields
  read : Option TaskRecord
  wrote : Bool

/-- An update before its first operation. -/
def UpdateProgress.init (patch : Fields) : UpdateProgress := ⟨patch, none, false⟩

/-- The owner's record is read. -/
@[simps] def UpdateProgress.see (g : UpdateProgress) (r : Option TaskRecord) : UpdateProgress :=
  { g with read := r }

/-- The owner's record is written. -/
@[simps] def UpdateProgress.written (g : UpdateProgress) : UpdateProgress := { g with wrote := true }

/-- What is under a key at its owner. -/
def World.at (w : World) (primary : NodeRef) (key : Key) : Option Value :=
  (w.stores primary.address).get key

namespace Updates

section Program

variable {env : Env} {ring : FixedRing env} {primary : NodeRef} {key : Key} {g : UpdateProgress}

/-- What an update has done after a request. -/
def noteReply (g : UpdateProgress) : (r : Request) → Option r.Reply → UpdateProgress
  | .get _, reply => g.see (reply.bind fun current => current.bind Value.asTask)
  | .put .., _ => g.written
  | _, _ => g

/-- What an update has done after one more operation on the owner's record. -/
def note (g : UpdateProgress) : (o : Op) → o.Res → UpdateProgress
  | .get .., current => g.see (current.bind Value.asTask)
  | .put .., _ => g.written
  | .rpc _ r, reply => noteReply g r reply
  | _, _ => g

/-- A request is answered, and one for the owner's record with a task. -/
def Answered (primary : NodeRef) (key : Key) (a : Address) : (r : Request) → Option r.Reply → Prop
  | .get k, reply => a = primary.address → k = key → ∃ r, reply = some (some (.task r))
  | _, reply => reply.isSome = true

/-- The answers in a ring of fixed membership in which no request fails and the owner
holds a task. -/
def Granted (ring : FixedRing env) (primary : NodeRef) (key : Key) : (o : Op) → o.Res → Prop
  | .get a k, current => a = primary.address → k = key → ∃ r, current = some (.task r)
  | .rpc a r, reply => Answered primary key a r reply
  | .findSuccessor a k, n => (∃ m ∈ ring.members, m.address = a) → n = ring.owner k
  | _, _ => True

/-- What an update may ask of a node: what the owner's record is, and to write what its
patch makes of it. -/
def Asks (primary : NodeRef) (key : Key) (g : UpdateProgress) (a : Address) : Request → Prop
  | .get k => a = primary.address ∧ k = key ∧ g.wrote = false
  | .put k v => a = primary.address ∧ k = key ∧ g.wrote = false ∧
      ∃ r r' now, g.read = some r ∧ r.update g.patch now = .ok r' ∧ v = .task r'
  | .putReplica .. => a ≠ primary.address
  | .getState => True
  | _ => False

/-- What an update may do next: read the owner's record, and write there what its
patch makes of what it read. -/
def Allowed (primary : NodeRef) (key : Key) (g : UpdateProgress) : Op → Prop
  | .get a k => Asks primary key g a (.get k)
  | .put a k v => Asks primary key g a (.put k v)
  | .rpc a r => Asks primary key g a r
  | .findSuccessor .. | .now => True
  | _ => False

/-- The operations that are no business of the owner's record. -/
def Aside (primary : NodeRef) : Op → Prop
  | .rpc a (.putReplica ..) => a ≠ primary.address
  | .rpc _ .getState => True
  | _ => False

theorem Aside.allowed (o : Op) (h : Aside primary o) (g : UpdateProgress) :
    Allowed primary key g o ∧ ∀ r, note g o r = g := by
  cases o with
  | rpc a r =>
    cases r with
    | getState => exact ⟨trivial, fun _ => rfl⟩
    | putReplica k v => exact ⟨h, fun _ => rfl⟩
    | _ => exact h.elim
  | _ => exact h.elim

/-- The logic of an update of the task under a key. -/
abbrev Does (ring : FixedRing env) (key : Key) {α : Type} (p : M α)
    (Q : Except Exc α → UpdateProgress → Prop) (g : UpdateProgress) : Prop :=
  wp note (Granted ring (ring.owner key) key) (Allowed (ring.owner key) key)
    p Q g

/-- An update is acknowledged exactly when it has written. -/
def Over {α : Type} (x : Except Exc α) (g : UpdateProgress) : Prop :=
  g.wrote = true ↔ ∃ a, x = .ok a

theorem over_error {α : Type} {e : Exc} (h : g.wrote = false) : Over (.error e : Except Exc α) g := by
  refine ⟨fun hw => ?_, ?_⟩
  · rw [h] at hw
    cases hw
  · rintro ⟨a, ha⟩
    cases ha

variable {s : Service}

-- the programs below are taken apart by the rules of `wp` alone
attribute [local irreducible] wp

/-- The record is read at the owner. -/
theorem does_tryGetOnNode (hs : s.node ∈ ring.members) (hwrote : g.wrote = false) :
    Does ring key (s.tryGetOnNode (ring.owner key) key)
      (fun x g' => ∃ r, x = .ok (some (.task r)) ∧ g' = g.see (some r)) g := by
  refine wp_bind.2 (wp_attempt.2 ?_)
  unfold Service.getOnNode
  split_ifs with hown
  · have hnode : s.node = ring.owner key := ring.eq_owner hs hown
    rw [hnode]
    refine wp_perform.2 ⟨⟨rfl, rfl, hwrote⟩, fun current hcurrent => ?_⟩
    obtain ⟨r, rfl⟩ := hcurrent rfl rfl
    exact wp_pure.2 ⟨r, rfl, rfl⟩
  · refine wp_request (fun _ h => ?_) ⟨rfl, rfl, hwrote⟩ fun reply hreply => ?_
    · obtain ⟨r, rfl⟩ := h rfl rfl
      rfl
    · obtain ⟨r, hr⟩ := hreply rfl rfl
      obtain rfl := Option.some.inj hr
      exact wp_pure.2 ⟨r, rfl, rfl⟩

theorem does_getTask {taskId : String} (hs : s.node ∈ ring.members) (hwrote : g.wrote = false)
    (hid : buildTaskKey (.str taskId) = .ok key) :
    Does ring key (TaskService.getTask s (.str taskId) true)
      (fun x g' => ∃ r, x = .ok (some r) ∧ g' = g.see (some r)) g := by
  unfold TaskService.getTask
  rw [hid, lift_ok_bind]
  refine wp_perform_bind.2 ⟨trivial, fun primary hp => ?_⟩
  obtain rfl : primary = ring.owner key := hp ⟨s.node, hs, rfl⟩
  refine wp_bind.2 (wp_mono (fun x g' hx => ?_) (does_tryGetOnNode hs hwrote))
  obtain ⟨r, rfl, rfl⟩ := hx
  exact wp_pure.2 ⟨r, rfl, rfl⟩

theorem does_existingTask {taskId : String} (hs : s.node ∈ ring.members) (hwrote : g.wrote = false)
    (hid : buildTaskKey (.str taskId) = .ok key) :
    Does ring key (TaskService.existingTask s taskId)
      (fun x g' => ∃ r, x = .ok r ∧ g' = g.see (some r)) g := by
  unfold TaskService.existingTask
  refine wp_bind.2 (wp_mono (fun x g' hx => ?_) (does_getTask hs hwrote hid))
  obtain ⟨r, rfl, rfl⟩ := hx
  exact wp_pure.2 ⟨r, rfl, rfl⟩

/-- The write at the owner. -/
theorem does_putOnNode (hs : s.node ∈ ring.members) (hwrote : g.wrote = false) {r r' : TaskRecord}
    {now : ℕ} (hread : g.read = some r) (hupdate : r.update g.patch now = .ok r') :
    Does ring key (s.putOnNode (ring.owner key) key (.task r'))
      (fun x g' => x = .ok () ∧ g'.wrote = true) g := by
  have hallowed : ∃ r₁ r₂ now', g.read = some r₁ ∧ r₁.update g.patch now' = .ok r₂ ∧
      Value.task r' = .task r₂ := ⟨r, r', now, hread, hupdate, rfl⟩
  unfold Service.putOnNode
  split_ifs with hown
  · have hnode : s.node = ring.owner key := ring.eq_owner hs hown
    rw [hnode]
    exact wp_perform.2 ⟨⟨rfl, rfl, hwrote, hallowed⟩, fun _ _ => ⟨rfl, rfl⟩⟩
  · exact wp_bind.2 (wp_attempt.2 (wp_request (fun _ h => h) ⟨rfl, rfl, hwrote, hallowed⟩
      fun _ _ => wp_pure.2 ⟨rfl, rfl⟩))

/-- **An update writes what its patch makes of what it read, once, or is refused.** -/
theorem does_updateTask (hs : s.node ∈ ring.members) (taskId : String) (patch : Fields) :
    Does ring (.task (strip taskId)) (TaskService.updateTask s taskId patch) Over (.init patch) := by
  unfold TaskService.updateTask
  by_cases hid : strip taskId = ""
  · rw [show buildTaskKey (.str taskId) = .error _ from if_pos hid]
    exact wp_raise.2 (over_error rfl)
  · have hkey : buildTaskKey (.str taskId) = .ok (.task (strip taskId)) := if_neg hid
    rw [hkey, lift_ok_bind]
    refine wp_perform_bind.2 ⟨trivial, fun primary hp => ?_⟩
    obtain rfl : primary = ring.owner (.task (strip taskId)) := hp ⟨s.node, hs, rfl⟩
    refine wp_bind.2 (wp_mono (fun x g' hx => ?_) (does_existingTask hs rfl hkey))
    obtain ⟨r, rfl, rfl⟩ := hx
    change Does ring _ (if r.status = .deleted then _ else _) _ _
    split_ifs with hdeleted
    · exact wp_raise.2 (over_error rfl)
    · refine wp_perform_bind.2 ⟨trivial, fun now _ => ?_⟩
      cases hupdate : r.update patch now with
      | error e => exact wp_raise.2 (over_error rfl)
      | ok r' =>
        rw [lift_ok_bind]
        refine wp_bind.2 (wp_mono (fun x g' hx => ?_) (does_putOnNode hs rfl rfl hupdate))
        obtain ⟨rfl, hwrote⟩ := hx
        refine Only.wp_bind (S := Aside (ring.owner (.task (strip taskId)))) ?_
          (.replicateWith (fun _ => .requestWithRetry _ _ _) _ _) (fun o ho g => ho.allowed o g)
          fun _ _ => ?_
        · exact .replicas (fun _ => trivial) (fun n hn => .requestWithRetry hn _) _
        · exact wp_pure.2 ⟨fun _ => ⟨_, rfl⟩, fun _ => hwrote⟩

end Program

/-! ### The order of the updates -/

section Runs

variable {ι : Type} {env : Env} {ring : FixedRing env} {primary : NodeRef} {key : Key}
  {patches : ι → Fields} {r₀ : TaskRecord} {f : ι → UpdateProgress} {w w' : World} {i : ι}

/-- What holds throughout a run: the record is what the updates that have written
made of it in some order, and one that was read is older or the same. -/
structure Serial (primary : NodeRef) (key : Key) (patches : ι → Fields) (r₀ : TaskRecord)
    (f : ι → UpdateProgress) (w : World) (r : TaskRecord) : Prop where
  patch_eq : ∀ i, (f i).patch = patches i
  record : w.at primary key = some (.task r)
  order : ∃ order : List ι, order.Nodup ∧ (∀ i, i ∈ order ↔ (f i).wrote = true) ∧
    TaskRecord.Patched r₀ (order.map patches) r
  older : ∀ i r', (f i).read = some r' → r'.version ≤ r.version ∧ (r'.version = r.version → r' = r)

/-- The version at the owner. -/
def version (primary : NodeRef) (key : Key) (w : World) : Option ℕ :=
  ((w.at primary key).bind Value.asTask).map TaskRecord.version

/-- A write of the owner's record finds there the version that the update read. -/
def WritesFresh (primary : NodeRef) (key : Key) : Cond ι Op UpdateProgress World := fun γ w i o =>
  o.writes.map (fun x => (x.1, x.2.1)) = some (primary.address, key) →
    ∀ g ∈ γ i, g.read.map TaskRecord.version = version primary key w

instance (γ : ι → Option UpdateProgress) (w : World) (i : ι) (o : Op) :
    Decidable (WritesFresh primary key γ w i o) := inferInstanceAs (Decidable (_ → _))

namespace Serial

variable {r : TaskRecord}

theorem aside (h : Serial primary key patches r₀ f w r) (hat : w'.at primary key = w.at primary key) :
    Serial primary key patches r₀ f w' r := ⟨h.patch_eq, hat.trans h.record, h.order, h.older⟩

variable [DecidableEq ι]

/-- The record is read. -/
theorem see (h : Serial primary key patches r₀ f w r) (hat : w'.at primary key = w.at primary key) :
    Serial primary key patches r₀ (Function.update f i ((f i).see (some r))) w' r := by
  have hfield : ∀ {X : Type} (field : UpdateProgress → X), field ((f i).see (some r)) = field (f i) →
      ∀ j, field (Function.update f i ((f i).see (some r)) j) = field (f j) := by
    intro X field hsame j
    by_cases hj : j = i
    · rw [hj, Function.update_self, hsame]
    · rw [Function.update_of_ne hj]
  obtain ⟨order, hnodup, hmem, hpatched⟩ := h.order
  refine ⟨fun j => (hfield _ rfl j).trans (h.patch_eq j), hat.trans h.record,
    ⟨order, hnodup, fun j => by rw [hmem, hfield UpdateProgress.wrote rfl], hpatched⟩, ?_⟩
  intro j r' hr'
  by_cases hj : j = i
  · rw [hj, Function.update_self] at hr'
    obtain rfl : r = r' := Option.some.inj hr'
    exact ⟨le_rfl, fun _ => rfl⟩
  · rw [Function.update_of_ne hj] at hr'
    exact h.older j r' hr'

/-- The record is written, where it was read as it is. -/
theorem write (h : Serial primary key patches r₀ f w r) {r' : TaskRecord} {now : ℕ}
    (hwrote : (f i).wrote = false) (hupdate : r.update (f i).patch now = .ok r')
    (hat : w'.at primary key = some (.task r')) :
    Serial primary key patches r₀ (Function.update f i (f i).written) w' r' := by
  have hversion : r'.version = r.version + 1 := TaskRecord.version_update hupdate
  obtain ⟨order, hnodup, hmem, hpatched⟩ := h.order
  have hi : i ∉ order := fun hi => Bool.false_ne_true (hwrote.symm.trans ((hmem i).1 hi))
  refine ⟨fun j => ?_, hat, ⟨order ++ [i], ?_, fun j => ?_, ?_⟩, fun j r₁ hr₁ => ?_⟩
  · by_cases hj : j = i
    · rw [hj, Function.update_self]
      exact h.patch_eq i
    · rw [Function.update_of_ne hj]
      exact h.patch_eq j
  · rw [← List.concat_eq_append]
    exact hnodup.concat hi
  · by_cases hj : j = i
    · subst hj
      simp
    · simp [hj, hmem j]
  · rw [List.map_append, List.map_singleton]
    exact hpatched.snoc (h.patch_eq i ▸ hupdate)
  · have hread : (f j).read = some r₁ := by
      by_cases hj : j = i
      · rw [hj, Function.update_self] at hr₁
        rw [hj]
        exact hr₁
      · rwa [Function.update_of_ne hj] at hr₁
    have hle := (h.older j r₁ hread).1
    exact ⟨by omega, fun he => by omega⟩

end Serial

/-- The updates on a world. -/
def system (env : Env) : System Op Op.Res Exc TaskWritten UpdateProgress World where
  handle := handle env
  enabled _ _ := true
  note := note
  launch _ := none

/-- The updates before their first operation. -/
def pool (services : ι → Service) (taskId : String) (patches : ι → Fields) (w : World) :
    Pool ι Op Op.Res Exc TaskWritten UpdateProgress World where
  threads i := some ⟨.init (patches i), TaskService.updateTask (services i) taskId (patches i)⟩
  world := w

/-- The update has ended with a value. -/
def acked (c : Pool ι Op Op.Res Exc TaskWritten UpdateProgress World) (i : ι) : Bool :=
  match c.threads i with
  | some ⟨_, .ret _⟩ => true
  | _ => false

variable [DecidableEq ι] {r : TaskRecord}

/-- **An operation of an update keeps the order.** -/
theorem Serial.act (h : Serial (ring.owner key) key patches r₀ f w r) {o : Op}
    (hallowed : Allowed (ring.owner key) key (f i) o)
    (hcond : WritesFresh (ring.owner key) key (fun i => some (f i)) w i o) :
    Granted ring (ring.owner key) key o (handle env o w).1 ∧ ∃ r',
      Serial (ring.owner key) key patches r₀ (Function.update f i (note (f i) o (handle env o w).1))
        (handle env o w).2 r' := by
  have hsame : ∀ w' : World, w'.at (ring.owner key) key = w.at (ring.owner key) key →
      ∃ r', Serial (ring.owner key) key patches r₀ (Function.update f i (f i)) w' r' := fun w' hat => by
    rw [Function.update_eq_self]
    exact ⟨r, h.aside hat⟩
  -- a write finds the version that was read, so it finds the record that was read
  have hwrite : ∀ (o' : Op) {v : Value} {w' : World},
      o'.writes = some ((ring.owner key).address, key, v) →
      WritesFresh (ring.owner key) key (fun i => some (f i)) w i o' → (f i).wrote = false →
      (∃ r₁ r₂ now, (f i).read = some r₁ ∧ r₁.update (f i).patch now = .ok r₂ ∧ v = .task r₂) →
      w'.at (ring.owner key) key = some v → ∃ r',
        Serial (ring.owner key) key patches r₀ (Function.update f i (f i).written) w' r' := by
    rintro o' v w' ho hfresh hwrote ⟨r₁, r₂, now, hread, hupdate, rfl⟩ hat
    have hversion := hfresh (by rw [ho]; rfl) _ rfl
    rw [hread, version, h.record] at hversion
    obtain rfl : r₁ = r := (h.older i r₁ hread).2 (Option.some.inj hversion)
    exact ⟨r₂, h.write hwrote hupdate hat⟩
  cases o with
  | get a k =>
    obtain ⟨rfl, rfl, -⟩ := hallowed
    refine ⟨fun _ _ => ⟨r, h.record⟩, r, ?_⟩
    have hread : (handle env (.get (ring.owner k).address k) w).1 = some (.task r) := h.record
    rw [hread]
    exact h.see rfl
  | put a k v =>
    obtain ⟨rfl, rfl, hwrote, hv⟩ := hallowed
    exact ⟨trivial, hwrite (.put _ _ v) rfl hcond hwrote hv (Stores.get_put_self _ _ _ _)⟩
  | rpc a q =>
    have hanswer := ring.handle_rpc a q w
    have hstores := ring.handle_rpc_stores a q w
    have hat : (handle env (.rpc a q) w).2.at (ring.owner key) key =
        (World.serve w.stores a q (ring.owner key).address).get key := by
      unfold World.at
      rw [hstores]
    rw [hanswer]
    cases q with
    | getState => exact ⟨rfl, hsame _ hat⟩
    | get k =>
      obtain ⟨rfl, rfl, -⟩ := hallowed
      have hread : World.answer env w (ring.owner k).address (.get k) = some (.task r) := h.record
      rw [hread]
      exact ⟨fun _ _ => ⟨r, rfl⟩, r, h.see hat⟩
    | put k v =>
      obtain ⟨rfl, rfl, hwrote, hv⟩ := hallowed
      exact ⟨rfl, hwrite (.rpc _ (.put _ v)) rfl hcond hwrote hv
        (hat.trans (Stores.get_put_self _ _ _ _))⟩
    | putReplica k v =>
      refine ⟨rfl, hsame _ (hat.trans ?_)⟩
      exact (Stores.get_put ..).trans (if_neg fun he => hallowed he.1.symm)
    | delete k => exact hallowed.elim
    | getReplica k => exact hallowed.elim
    | deleteReplica k => exact hallowed.elim
  | findSuccessor a k =>
    exact ⟨fun ⟨m, hm, ha⟩ => ha ▸ ring.findSuccessor_eq _ m hm k, hsame _ rfl⟩
  | now => exact ⟨trivial, hsame _ rfl⟩
  | _ => exact hallowed.elim

/-- The updates keep what holds throughout a run. -/
theorem keeps : Keeps (system env) (fun _ => False) (WritesFresh (ι := ι) (ring.owner key) key)
    (Granted ring (ring.owner key) key) (Allowed (ring.owner key) key) Over
    (fun γ w => ∃ f : ι → UpdateProgress, γ = (fun i => some (f i)) ∧
      ∃ r, Serial (ring.owner key) key patches r₀ f w r) where
  act := by
    rintro γ w i slot g o ⟨f, rfl, r, hserial⟩ hg hallowed - hcond -
    obtain rfl : f i = g := Option.some.inj hg
    obtain ⟨hgranted, hserial'⟩ := hserial.act hallowed hcond
    exact ⟨hgranted, _, (Function.comp_update some f i _).symm, hserial'⟩
  launched := fun o t ht => by cases ht
  enter := fun γ w i t _ _ ht => ht.elim
  entered := fun t ht => ht.elim

/-- **No acknowledged update is lost.**  In a run in which every write of the owner's
record finds the version that its update read, the version counts the acknowledged
updates, and each field that one of them names holds the value of one of them.  The task's
id reaches the handlers as it is. -/
theorem version_counts [Fintype ι] {services : ι → Service} {taskId : String}
    (hmem : ∀ i, (services i).node ∈ ring.members)
    (hr : w.at (ring.owner (.task (strip taskId))) (.task (strip taskId)) = some (.task r₀))
    {c : Pool ι Op Op.Res Exc TaskWritten UpdateProgress World}
    (hrun : Steps (system env) (fun _ => False)
      (WritesFresh (ring.owner (.task (strip taskId))) (.task (strip taskId)))
      (pool services taskId patches w) c) (hended : c.Ended) :
    ∃ r, c.world.at (ring.owner (.task (strip taskId))) (.task (strip taskId)) = some (.task r) ∧
      r.version = r₀.version + (Finset.univ.filter fun i => acked c i = true).card ∧
      ∀ field, (∃ i, acked c i = true ∧ ((patches i).get field).isSome) →
        ∃ i v, acked c i = true ∧ (patches i).get field = some v ∧ r.Holds field v := by
  have hinit : Sound (system env) (Granted ring (ring.owner (.task (strip taskId)))
      (.task (strip taskId))) (Allowed (ring.owner (.task (strip taskId))) (.task (strip taskId))) Over
      (fun γ w => ∃ f : ι → UpdateProgress, γ = (fun i => some (f i)) ∧ ∃ r,
        Serial (ring.owner (.task (strip taskId))) (.task (strip taskId)) patches r₀ f w r)
      (pool services taskId patches w) := by
    refine ⟨fun i t ht => ?_, _, rfl, r₀, fun _ => rfl, hr, ⟨[], List.nodup_nil, ?_, .nil⟩, ?_⟩
    · obtain rfl := Option.some.inj ht
      exact does_updateTask (hmem i) taskId (patches i)
    · simp [UpdateProgress.init]
    · intro i r' hr'
      cases hr'
  obtain ⟨hthreads, f, hf, r, hserial⟩ := hrun.sound keeps hinit
  have hacked : ∀ i, acked c i = true ↔ (f i).wrote = true := by
    intro i
    obtain ⟨⟨g, rest⟩, ht, hghost⟩ : ∃ t, c.threads i = some t ∧ t.ghost = f i :=
      Option.map_eq_some_iff.1 (congrFun hf i)
    obtain rfl : g = f i := hghost
    have hwp := hthreads i _ ht
    cases rest with
    | ret x =>
      have hover : Over (.ok x : Except Exc TaskWritten) (f i) := hwp
      simp [acked, ht, hover.2 ⟨x, rfl⟩]
    | raise e =>
      have hover : Over (.error e : Except Exc TaskWritten) (f i) := hwp
      have hnot : (f i).wrote ≠ true := fun hw => by
        obtain ⟨a, ha⟩ := hover.1 hw
        cases ha
      simp [acked, ht, hnot]
    | op o k => cases hended i _ ht
  obtain ⟨order, hnodup, horder, hpatched⟩ := hserial.order
  have hfilter : Finset.univ.filter (fun i => acked c i = true) = order.toFinset := by
    ext i
    simp [hacked, horder]
  refine ⟨r, hserial.record, ?_, ?_⟩
  · rw [hpatched.version, hfilter, List.toFinset_card_of_nodup hnodup, List.length_map]
  · rintro field ⟨i, hi, hsome⟩
    have hi' : i ∈ order := (horder i).2 ((hacked i).1 hi)
    obtain ⟨patch, hpatch, v, hv, hholds⟩ :=
      hpatched.holds ⟨patches i, List.mem_map_of_mem hi', hsome⟩
    obtain ⟨j, hj, rfl⟩ := List.mem_map.1 hpatch
    exact ⟨j, v, (hacked j).2 ((horder j).1 hj), hv, hholds⟩

end Runs

end Updates

namespace ThreeNodes

/-- A task with version one. -/
def storedTask : TaskRecord :=
  ⟨"t", "job", "type", .null, .int 0, .registered, .null, .null, 0, 0, 1, false, ⟨nodeA, 3, []⟩⟩

/-- A world in which the owner holds the task. -/
def withTask : World :=
  { World.empty with stores := Stores.put World.empty.stores "a" (.task "t") (.task storedTask) }

/-- Two patches, of different fields. -/
def taskPatches : Fin 2 → Fields
  | 0 => ⟨[("status", .str "QUEUED")], by decide⟩
  | 1 => ⟨[("priority", .int 1)], by decide⟩

/-- Both updates are made at the owner. -/
abbrev updates : Pool (Fin 2) Op Op.Res Exc TaskWritten UpdateProgress World :=
  Updates.pool (fun _ => services nodeA) "t" taskPatches withTask

/-- The updates in the ring in which every request is delivered. -/
abbrev updateSystem : System Op Op.Res Exc TaskWritten UpdateProgress World :=
  Updates.system (env fun _ _ _ => .delivered)

/-- The updates take their turns in this order. -/
def updateTurns (order : List (Fin 2)) : List (Event (Fin 2) Op Op.Res Exc TaskWritten UpdateProgress) :=
  order.map fun i => .act i i

/-- The version at the end, when both updates are acknowledged. -/
def updated (c : Pool (Fin 2) Op Op.Res Exc TaskWritten UpdateProgress World) : Option ℕ :=
  if (List.finRange 2).all fun i => Updates.acked c i then Updates.version nodeA (.task "t") c.world
  else none

theorem ended_of_updated {c : Pool (Fin 2) Op Op.Res Exc TaskWritten UpdateProgress World} {n : ℕ}
    (h : updated c = some n) :
    (∀ i, Updates.acked c i = true) ∧ c.Ended ∧ Updates.version nodeA (.task "t") c.world = some n := by
  unfold updated at h
  split_ifs at h with hall
  have hacked : ∀ i, Updates.acked c i = true := fun i =>
    List.all_eq_true.1 hall i (List.mem_finRange i)
  refine ⟨hacked, fun i t ht => ?_, h⟩
  have hi := hacked i
  unfold Updates.acked at hi
  rw [Option.mem_def.1 ht] at hi
  obtain ⟨g, rest⟩ := t
  cases rest with
  | ret x => rfl
  | raise e => rfl
  | op o k => cases hi

end ThreeNodes

open ThreeNodes in
/-- The hypotheses of `Updates.version_counts` are satisfiable: two updates, one after the
other. -/
theorem version_counts_threeNodes :
    ∃ (c : Pool (Fin 2) Op Op.Res Exc TaskWritten UpdateProgress World) (r : TaskRecord),
      c.world.at nodeA (.task "t") = some (.task r) ∧
      r.version = 1 + (Finset.univ.filter fun i => Updates.acked c i = true).card ∧
      ∀ field, (∃ i, Updates.acked c i = true ∧ ((taskPatches i).get field).isSome) →
        ∃ i v, Updates.acked c i = true ∧ (taskPatches i).get field = some v ∧ r.Holds field v := by
  have hrun : (updates.steps updateSystem (Updates.WritesFresh nodeA (.task "t"))
      (updateTurns (List.replicate 10 0 ++ List.replicate 10 1))).bind updated = some 3 := by
    decide +kernel
  obtain ⟨c, hc, hupdated⟩ := Option.bind_eq_some_iff.1 hrun
  have hstrip : strip "t" = "t" := by decide
  have hsteps : Steps updateSystem (fun _ => False)
      (Updates.WritesFresh (ring.owner (.task (strip "t"))) (.task (strip "t"))) updates c := by
    rw [hstrip]
    exact .of_steps (by simp [updateTurns]) hc
  have hr : withTask.at (ring.owner (.task (strip "t"))) (.task (strip "t")) =
      some (.task storedTask) := by
    rw [hstrip]
    rfl
  have hmem : ∀ _ : Fin 2, (services nodeA).node ∈ ring.members := fun _ => .inl rfl
  obtain ⟨r, hat, hversion, hfields⟩ :=
    Updates.version_counts hmem hr hsteps (ended_of_updated hupdated).2.1
  rw [hstrip] at hat
  exact ⟨c, r, hat, hversion, hfields⟩

open ThreeNodes in
/-- **An acknowledged update is lost.**  Both updates read version one and write version
two. -/
theorem update_loses_update :
    ∃ c, Steps updateSystem (fun _ => False) (fun _ _ _ _ => True) updates c ∧ c.Ended ∧
      (∀ i, Updates.acked c i = true) ∧ ¬∃ r, c.world.at nodeA (.task "t") = some (.task r) ∧
        r.version = storedTask.version + (Finset.univ.filter fun i => Updates.acked c i = true).card := by
  have hrun : (updates.steps updateSystem (fun _ _ _ _ => True)
      (updateTurns ([0, 0, 0, 1, 1, 1] ++ List.replicate 7 0 ++ List.replicate 7 1))).bind updated =
        some 2 := by
    decide +kernel
  obtain ⟨c, hc, hupdated⟩ := Option.bind_eq_some_iff.1 hrun
  obtain ⟨hacked, hended, hversion⟩ := ended_of_updated hupdated
  refine ⟨c, .of_steps (by simp [updateTurns]) hc, hended, hacked, ?_⟩
  rintro ⟨r, hat, hr⟩
  have hcard : (Finset.univ.filter fun i => Updates.acked c i = true).card = 2 := by
    rw [Finset.filter_true_of_mem fun i _ => hacked i]
    rfl
  rw [Updates.version, hat] at hversion
  have htwo : r.version = 2 := Option.some.inj hversion
  rw [hcard, htwo] at hr
  exact absurd hr (by decide)

end Storage
end ChordInfra
