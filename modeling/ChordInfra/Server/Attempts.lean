/-
# The accounts of a task

On a node alone, with each report, each rebalance and each recovery of a task taken as one
step, and the requests for tasks and the scans taken in steps of their own (`Stride`): what
a record says of the attempts that were made adds up, and a task that was given up stays
given up.

A scan decides from the records that it listed or read, and the recovery that it then
starts asks of the record read anew only whether the task succeeded or waits.  So two
scans may both give a task up, and a recovery may queue a task again that another one gave
up meanwhile.  `accounted` excludes just that (`Watchful`), with the two other writes of what was read
before: the one of a task that waited, and the one of a request.
-/

import ChordInfra.Server.Alone
import ChordInfra.Server.Mirror
import ChordInfra.Server.Timeout

namespace ChordInfra
namespace Server

open Interact Prog
open Storage
open Storage.Serving (Runs)
open ChordInfra.Ring (NodeRef)

/-! ### The accounts of a record -/

/-- An entry that an attempt adds to the history. -/
def isRetry : HistoryEntry → Bool
  | .retrySame _ | .retryDifferent _ => true
  | _ => false

/-- What a record says of the attempts adds up. -/
structure Accounted (r : ResultRecord) : Prop where
  bound : r.attemptCount ≤ r.maxAttempts
  retries : r.attemptCount = r.recoveryHistory.countP isRetry
  once : r.recoveryHistory.count .giveUp ≤ 1

/-- And a task that was given up has ended. -/
structure Balanced (r : ResultRecord) : Prop extends Accounted r where
  closed : GivenUp r → r.waiting = false ∧ (r.status = .success ∨ r.status = .failure)

instance (r : ResultRecord) : Decidable (GivenUp r) := inferInstanceAs (Decidable (_ ∈ _))

namespace Balanced

variable {r r' : ResultRecord}

/-- A record with the same accounts. -/
theorem of_same (h : Balanced r) (hmax : r'.maxAttempts = r.maxAttempts)
    (hcount : r'.attemptCount = r.attemptCount)
    (hhistory : r'.recoveryHistory = r.recoveryHistory)
    (hclosed : GivenUp r → r'.waiting = false ∧ (r'.status = .success ∨ r'.status = .failure)) :
    Balanced r' := by
  refine ⟨⟨?_, ?_, ?_⟩, fun hr => hclosed ?_⟩
  · rw [hcount, hmax]
    exact h.bound
  · rw [hcount, hhistory]
    exact h.retries
  · rw [hhistory]
    exact h.once
  · rwa [GivenUp, hhistory] at hr

/-- A pending task was not given up. -/
theorem not_givenUp (h : Balanced r) (hr : r.status ≠ .success ∧ r.status ≠ .failure) :
    ¬GivenUp r :=
  fun hg => (h.closed hg).2.elim hr.1 hr.2

theorem cleared (h : Balanced r) (now : ℕ) : Balanced (cleared r now) :=
  h.of_same rfl rfl rfl fun hg => ⟨rfl, (h.closed hg).2⟩

/-- A recovery of a task that was not given up. -/
theorem recovers (h : Balanced r) {failureType : Option FailureType} {live : List String}
    (hrec : Recovers r failureType live r') (hwaiting : r.waiting = false) (hnot : ¬GivenUp r) :
    Balanced r' := by
  obtain ⟨⟨hbound, hretries, -⟩, -⟩ := h
  have hnone : r.recoveryHistory.count .giveUp = 0 := List.count_eq_zero.2 hnot
  cases hrec with
  | gaveUp now =>
    refine ⟨⟨hbound, ?_, ?_⟩, fun _ => ⟨hwaiting, .inr rfl⟩⟩
    · simp [gaveUp, isRetry, hretries]
    · simp [gaveUp, hnone]
  | waits now retryAt =>
    refine ⟨⟨hbound, ?_, ?_⟩, fun hg => ?_⟩
    · simp [Server.waiting, isRetry, hretries]
    · simp [Server.waiting, hnone]
    · exact absurd hg (by simpa [GivenUp, Server.waiting] using hnot)
  | requeued now worker hpath =>
    have hless : r.attemptCount < r.maxAttempts := by
      unfold chooseRecoveryPath at hpath
      by_contra hge
      rw [if_pos (by omega)] at hpath
      cases hpath
    refine ⟨⟨?_, ?_, ?_⟩, fun hg => ?_⟩
    · exact hless
    · simp [requeued, retryEntry, isRetry, hretries]
    · simp [requeued, retryEntry, hnone]
    · exact absurd hg (by simpa [GivenUp, requeued, retryEntry] using hnot)

end Balanced

/-- Records are kept under their own ids, and add up. -/
def Booked : Key → Value → Prop
  | .result x, .result r => strip r.taskId = strip x ∧ Balanced r
  | _, _ => True

theorem booked_worker (k : String) (r : WorkerRecord) : Booked (.worker k) (.worker r) := trivial

theorem law_booked : HandlerLaw Booked where
  stripped {x y v} h hv := by
    cases v with
    | result r => exact ⟨hv.1.trans h, hv.2⟩
    | _ => trivial
  completed {x r status} result now _ hstatus h :=
    ⟨h.1, h.2.of_same rfl rfl rfl fun hg => ⟨(h.2.closed hg).1, hstatus⟩⟩
  reassigned {x r} dst hpending h := by
    refine ⟨h.1, h.2.of_same rfl rfl rfl fun hg => absurd hg (h.2.not_givenUp ?_)⟩
    rw [hpending]
    decide
  built {taskId workerId path script taskType assignedBy now r} h := by
    unfold buildResultRecord at h
    split at h
    · split_ifs at h
      cases h
      exact ⟨rfl, ⟨Nat.zero_le 3, rfl, Nat.zero_le 1⟩, fun hg => (by cases hg)⟩
    · cases h
    · cases h

/-! ### Worlds -/

/-- The record that a node keeps of a task. -/
def recordAt (w : World) (a : Address) (x : String) : Option ResultRecord :=
  ((w.stores a).get (.result x)).bind Value.asResult

theorem recordAt_eq_some {w : World} {a : Address} {x : String} {r : ResultRecord} :
    recordAt w a x = some r ↔ (w.stores a).get (.result x) = some (.result r) := by
  unfold recordAt
  constructor
  · intro h
    obtain ⟨v, hv, hr⟩ := Option.bind_eq_some_iff.1 h
    cases v with
    | result r' =>
      cases hr
      exact hv
    | _ => cases hr
  · intro h
    rw [h]
    rfl

/-- The record that takes the place of one of a task that was given up: nothing was
attempted, and the task is not queued. -/
structure Rested (r r' : ResultRecord) : Prop where
  attemptCount : r'.attemptCount = r.attemptCount
  history : r'.recoveryHistory = r.recoveryHistory
  status : r'.status ≠ .pending

theorem Rested.trans {r r' r'' : ResultRecord} (h : Rested r r') (h' : Rested r' r'') :
    Rested r r'' :=
  ⟨h'.attemptCount.trans h.attemptCount, h'.history.trans h.history, h'.status⟩

theorem Rested.givenUp {r r' : ResultRecord} (h : Rested r r') (hr : GivenUp r) : GivenUp r' := by
  rwa [GivenUp, h.history]

/-- The tasks that were given up were left alone. -/
def Rests (w w' : World) : Prop :=
  ∀ a x r, recordAt w a x = some r → GivenUp r → ∃ r', recordAt w' a x = some r' ∧ Rested r r'

theorem Rests.trans {w w' w'' : World} (h : Rests w w') (h' : Rests w' w'') : Rests w w'' := by
  intro a x r hr hgiven
  obtain ⟨r₁, hr₁, hrest⟩ := h a x r hr hgiven
  obtain ⟨r₂, hr₂, hrest'⟩ := h' a x r₁ hr₁ (hrest.givenUp hgiven)
  exact ⟨r₂, hr₂, hrest.trans hrest'⟩

/-- What holds between the steps: every record is booked, and is where the node keeps it,
and no task is under recovery. -/
structure Orderly (node : NodeRef) (w : World) : Prop where
  kept : Kept Booked w
  placed : ∀ a x v, (w.stores a).get (.result x) = some v → a = node.address ∧ x = strip x
  idle : ∀ a, (w.managers a).inProgress = []

/-- What a step leaves of an orderly world. -/
structure Advances (node : NodeRef) (w w' : World) : Prop where
  orderly : Orderly node w'
  rests : Rests w w'

theorem Advances.trans {node : NodeRef} {w w' w'' : World} (h : Advances node w w')
    (h' : Advances node w' w'') : Advances node w w'' :=
  ⟨h'.orderly, h.rests.trans h'.rests⟩

namespace Orderly

variable {node : NodeRef} {w w' : World}

theorem balanced (h : Orderly node w) {a : Address} {x : String} {r : ResultRecord}
    (hr : recordAt w a x = some r) : Balanced r := by
  have hbooked : Booked (.result x) (.result r) := h.kept _ _ _ (recordAt_eq_some.1 hr)
  exact hbooked.2

/-- A task that was given up rests when its record stays. -/
theorem rested (h : Orderly node w) {a : Address} {x : String} {r : ResultRecord}
    (hr : recordAt w a x = some r) (hgiven : GivenUp r) : Rested r r := by
  refine ⟨rfl, rfl, fun hpending => ?_⟩
  rcases ((h.balanced hr).closed hgiven).2 with hstatus | hstatus <;> rw [hstatus] at hpending <;>
    cases hpending

theorem owns (h : Orderly node w) : Kept Owns w := by
  intro a k v hv
  have hbooked := h.kept a k v hv
  cases k with
  | result x =>
    cases v with
    | result r => exact hbooked.1
    | _ => trivial
  | _ => trivial

/-- What writes no record. -/
theorem same (h : Orderly node w)
    (hfree : ∀ a, (w'.managers a).inProgress = (w.managers a).inProgress)
    (hsame : SameResults w w') : Advances node w w' := by
  refine ⟨⟨fun a k v hv => ?_, fun a x v hv => h.placed a x v ((hsame a x).symm.trans hv),
    fun a => (hfree a).trans (h.idle a)⟩, fun a x r hr hgiven => ⟨r, ?_, h.rested hr hgiven⟩⟩
  · cases k with
    | result x => exact h.kept a _ v ((hsame a x).symm.trans hv)
    | _ => cases v <;> trivial
  · rw [recordAt, hsame]
    exact hr

end Orderly

/-- Records are where they belong, none was removed, and the recoveries are those of before. -/
structure Intact (node : NodeRef) (w w' : World) : Prop where
  placed : ∀ a x v, (w'.stores a).get (.result x) = some v → a = node.address ∧ x = strip x
  stays : ∀ a x, (w.stores a).get (.result x) ≠ none → (w'.stores a).get (.result x) ≠ none
  free : ∀ a, (w'.managers a).inProgress = (w.managers a).inProgress

namespace Intact

variable {node : NodeRef} {w w' : World}

theorem refl (h : Orderly node w) : Intact node w w := ⟨h.placed, fun _ _ => id, fun _ => rfl⟩

/-- An operation of a handler puts records where they belong and deletes none. -/
theorem handle (h : Intact node w w') (env : Env) {o : Op} (ho : Fine node o) :
    Intact node w (Storage.handle env o w').2 := by
  refine ⟨fun a x v hv => ?_, fun a x hx => ?_, fun a => ?_⟩
  · obtain ⟨d, -, ⟨u, hwrite, -, -⟩ | ⟨hdelete, -⟩ | ⟨-, -, hget⟩⟩ :=
      handle_get env o w' a (.result x)
    · exact ho.writes a x u hwrite
    · exact absurd hdelete.1 (ho.deletes a x)
    · exact h.placed a x v (hget ▸ hv)
  · obtain ⟨d, -, ⟨u, -, -, hget⟩ | ⟨hdelete, -⟩ | ⟨-, -, hget⟩⟩ :=
      handle_get env o w' a (.result x)
    · rw [hget]
      exact Option.some_ne_none u
    · exact absurd hdelete.1 (ho.deletes a x)
    · rw [hget]
      exact h.stays a x hx
  · exact ((handle_calm ho.calm env w').inProgress a).trans (h.free a)

end Intact

namespace Orderly

variable {node : NodeRef} {w : World}

/-- A program that only reads. -/
theorem looks (h : Orderly node w) (env : Env) {α : Type} {p : M α} (hp : Only Op.Looks p) :
    Advances node w (run env p w).2 :=
  h.same ((hp.mono fun _ h => h.1).aside env w).inProgress
    (.of_stores ((hp.mono fun _ h => h.2).stores env w))

/-- An operation of a request: no record of a task that was given up is written over. -/
theorem op (h : Orderly node w) (env : Env) {o : Op} (ho : Fine node o)
    (hbooked : Writes Booked o)
    (hopen : ∀ a x v r, o.writes = some (a, .result x, v) → recordAt w a x = some r →
      ¬GivenUp r) : Advances node w (handle env o w).2 := by
  have hintact := (Intact.refl h).handle env ho
  refine ⟨⟨(kept_handle h.kept hbooked).2, hintact.placed,
    fun a => (hintact.free a).trans (h.idle a)⟩,
    fun a x r hr hgiven => ⟨r, ?_, h.rested hr hgiven⟩⟩
  obtain ⟨d, -, ⟨u, hwrite, -, -⟩ | ⟨hdelete, -⟩ | ⟨-, -, hget⟩⟩ :=
    handle_get env o w a (.result x)
  · exact absurd hgiven (hopen a x u r hwrite hr)
  · exact absurd hdelete.1 (ho.deletes a x)
  · rw [recordAt, hget]
    exact hr

/-- What a handler may make of the records of a world: of one of a task that was given up
one of a task that rests. -/
def Resting (node : NodeRef) (w : World) : Key → Value → Prop
  | .result x, v => ∀ r, recordAt w node.address (strip x) = some r → GivenUp r →
      ∃ r', v = .result r' ∧ Rested r r'
  | _, _ => True

theorem law_resting (w : World) : UpdateLaw (Resting node w) where
  stripped hxy hv r hr := hv r (hxy ▸ hr)
  completed {x r₁ status} result now _ hstatus hv r hr hgiven := by
    obtain ⟨r', heq, hrest⟩ := hv r hr hgiven
    cases heq
    refine ⟨_, rfl, hrest.attemptCount, hrest.history, fun hpending => ?_⟩
    rcases hstatus with rfl | rfl <;> cases hpending
  reassigned {x r₁} dst hpending hv r hr hgiven := by
    obtain ⟨r', heq, hrest⟩ := hv r hr hgiven
    cases heq
    exact absurd hpending hrest.status

end Orderly

/-! ### Recoveries -/

section Alone

variable {env : Env} {ring : FixedRing env} {node : NodeRef} (halone : Alone ring node)

include halone

/-- What is read of a task is what the node has. -/
theorem Alone.read_eq {w : World}
    (hplaced : ∀ a x v, (w.stores a).get (.result x) = some v → a = node.address ∧ x = strip x)
    {id : String} (hid : strip id ≠ "")
    {x : Option ResultRecord} (hread : ReadOf ring id w x) :
    x = recordAt w node.address (strip id) := by
  have hhome := halone.home id
  cases hget : (w.stores node.address).get (.result (strip id)) with
  | some v =>
    rw [recordAt, hget]
    refine hread.home v hid ?_
    rw [hhome]
    exact hget
  | none =>
    rw [recordAt, hget]
    refine hread.absent fun a y hy => ?_
    by_contra hsome
    obtain ⟨v, hv⟩ := Option.ne_none_iff_exists'.1 hsome
    obtain ⟨rfl, hstripped⟩ := hplaced a y v hv
    rw [hstripped, hy, hget] at hv
    cases hv

namespace Orderly

variable {s : Service} {w w' : World} (hs : s.node = node)

/-- A record that is written: it adds up, and where the task was given up it rests. -/
theorem overwritten (h : Orderly node w) (hcalm : Calm w w') {k : ℕ} {id : String}
    {record : ResultRecord} (hov : Overwritten ring k id record w w')
    (hown : strip record.taskId = strip id) (hrecord : Balanced record)
    (hrests : ∀ r, recordAt w node.address (strip id) = some r → GivenUp r → Rested r record) :
    Advances node w w' := by
  have hfree : ∀ a, (w'.managers a).inProgress = (w.managers a).inProgress := hcalm.inProgress
  by_cases hworker : record.workerId = ""
  · refine h.same hfree fun a x => ?_
    rw [hov a x, if_pos hworker]
  have hget : ∀ a x, (w'.stores a).get (.result x) =
      if a = node.address ∧ x = strip id then some (.result record)
      else (w.stores a).get (.result x) := by
    intro a x
    rw [Mirror.get_overwritten hworker hov, halone.home, halone.replicas]
    simp
  refine ⟨⟨fun a key v hv => ?_, fun a x v hv => ?_, fun a => (hfree a).trans (h.idle a)⟩,
    fun a x r hr hgiven => ?_⟩
  · cases key with
    | result x =>
      rw [hget] at hv
      split_ifs at hv with hspot
      · cases hv
        exact ⟨by rw [hspot.2, strip_strip, hown], hrecord⟩
      · exact h.kept a _ v hv
    | _ => cases v <;> trivial
  · rw [hget] at hv
    split_ifs at hv with hspot
    · exact ⟨hspot.1, by rw [hspot.2, strip_strip]⟩
    · exact h.placed a x v hv
  · by_cases hspot : a = node.address ∧ x = strip id
    · obtain ⟨rfl, rfl⟩ := hspot
      refine ⟨record, ?_, hrests r hr hgiven⟩
      rw [recordAt, hget, if_pos ⟨rfl, rfl⟩]
      rfl
    · refine ⟨r, ?_, h.rested hr hgiven⟩
      rw [recordAt, hget, if_neg hspot]
      exact hr

include hs

theorem member : s.node ∈ ring.members := hs ▸ halone.mem

/-- **A recovery of a task that was not given up.** -/
theorem recover (h : Orderly node w) (cfg : Config) (record : ResultRecord)
    (failureType : Option FailureType)
    (hopen : ∀ r, recordAt w node.address (strip record.taskId) = some r → GivenUp r →
      r.status = .success) :
    Advances node w (run env (attemptRecovery cfg s record failureType) w).2 := by
  obtain ⟨x, w', hrun, haside, hof, hdone, hread⟩ := run_attemptRecovery ring cfg
    (member halone hs) record failureType h.owns
  rw [hrun]
  have hreadOf := hread (by rw [h.idle]; exact List.not_mem_nil)
  unfold Recovered at hdone
  cases x with
  | none => exact h.same haside.inProgress hdone
  | some fresh =>
    obtain ⟨hsame, hid⟩ := hreadOf.task fresh rfl
    have hfresh := (halone.read_eq h.placed hid hreadOf).symm
    dsimp only at hdone
    split_ifs at hdone with hgo
    · exact h.same haside.inProgress hdone
    · obtain ⟨now, r, hrec, hov⟩ := hdone
      obtain ⟨hwaiting, hnot⟩ := not_or.1 hgo
      have hgiven : ¬GivenUp fresh := fun hg => hnot (hopen fresh hfresh hg)
      refine overwritten halone h haside.calm hov (by rw [hrec.taskId_eq])
        ((h.balanced hfresh).recovers hrec (by simpa using hwaiting) hgiven) fun r₀ hr₀ hg => ?_
      rw [hsame, hfresh] at hr₀
      cases hr₀
      exact absurd hg hgiven

/-- **A retry of a task that was not given up.** -/
theorem retry (h : Orderly node w) (cfg : Config) {record : ResultRecord}
    (hrecord : Balanced record) (hlisted : ¬GivenUp record)
    (hopen : ∀ r, recordAt w node.address (strip record.taskId) = some r → ¬GivenUp r) :
    Advances node w (run env (retryWaiting cfg s record) w).2 := by
  have hmember : s.node ∈ ring.members := member halone hs
  unfold retryWaiting
  rw [run_act_bind]
  generalize (handle env .now w).1 = now
  have hfirst : Advances node w (handle env .now w).2 :=
    h.same (fun _ => rfl) (.of_stores rfl)
  have hstores : (handle env .now w).2.stores = w.stores := rfl
  generalize (handle env .now w).2 = w₁ at hfirst hstores
  have hopen₁ : ∀ r, recordAt w₁ node.address (strip record.taskId) = some r → ¬GivenUp r := by
    intro r hr
    refine hopen r ?_
    rw [recordAt, ← hstores]
    exact hr
  by_cases hid : strip record.taskId = ""
  · -- such a record is not written
    have hput : run env (safePut s record.taskId (Server.cleared record now)) w₁ = (.ok (), w₁) := by
      unfold safePut ResultService.put buildResultKey
      rw [if_pos hid]
      cases validateResultRecord (Server.cleared record now) <;> rfl
    rw [run_bind_eq_ok hput]
    exact hfirst.trans (recover halone hs hfirst.orderly cfg (Server.cleared record now) _
      fun r hr hg => absurd hg (hopen₁ r hr))
  · obtain ⟨w₂, hput, haside, hov⟩ := run_safePut ring hmember hid (Server.cleared record now) w₁
    have hsecond : Advances node w₁ w₂ := overwritten halone hfirst.orderly haside.calm hov rfl
      (hrecord.cleared now) fun r hr hg => absurd hg (hopen₁ r hr)
    have hopen₂ : ∀ r, recordAt w₂ node.address (strip record.taskId) = some r → ¬GivenUp r := by
      intro r hr hg
      by_cases hworker : (Server.cleared record now).workerId = ""
      · rw [recordAt, hov, if_pos hworker] at hr
        exact hopen₁ r hr hg
      · rw [recordAt, Mirror.get_overwritten hworker hov, halone.home, if_pos (.inr ⟨rfl, rfl⟩)] at hr
        cases hr
        exact hlisted hg
    rw [run_bind_eq_ok hput]
    exact hfirst.trans (hsecond.trans (recover halone hs hsecond.orderly cfg
      (Server.cleared record now) _ fun r hr hg => absurd hg (hopen₂ r hr)))

end Orderly

/-! ### Handlers -/

theorem own_handle {o : Op} {w : World}
    (hplaced : ∀ a x v, (w.stores a).get (.result x) = some v → a = node.address ∧ x = strip x) :
    Own node o (handle env o w).1 := by
  cases o with
  | findSuccessor a k =>
    rintro rfl
    exact (ring.findSuccessor_eq _ node halone.mem k).trans (halone.owner k)
  | rpc a r =>
    cases r with
    | getState =>
      rintro rfl y hy
      rw [ring.handle_rpc] at hy
      cases hy
      exact (ring.successor_eq _ _).trans halone.successor
    | _ => trivial
  | items a =>
    rintro ⟨key, v⟩ he x rfl
    exact hplaced a x v ((w.stores a).mem_entries_iff.1 he)
  | _ => trivial

namespace Orderly

variable {w : World}

/-- **A handler as a whole**, when it is one whose records are those of the law of updates. -/
theorem runs (h : Orderly node w) {p : M Unit}
    (hp : ∀ {A : (o : Op) → o.Res → Prop} {P : Op → Prop} {φ : Key → Value → Prop},
      Handling A P φ (fun s => s.node = node) → UpdateLaw φ → Runs A P p) :
    Advances node w (run env p w).2 := by
  have hwrites : ∀ {φ : Key → Value → Prop}, (∀ k r, φ (.worker k) (.worker r)) → UpdateLaw φ →
      Runs (Granted φ) (Writes φ) p := fun hworker law =>
    hp ((handling_writes hworker law).weaken fun _ _ => trivial) law
  have hstep : ∀ w₁ o, Intact node w w₁ → Fine node o →
      Own node o (handle env o w₁).1 ∧ Intact node w (handle env o w₁).2 :=
    fun w₁ o hw₁ ho => ⟨own_handle halone hw₁.placed, hw₁.handle env ho⟩
  obtain ⟨⟨hplaced, hstays, hfree⟩, -⟩ :=
    (hp handling_fine law_trivial.toUpdateLaw).exec hstep (.refl h)
  have hkept := (kept_run env (hwrites booked_worker law_booked.toUpdateLaw) h.kept).1
  have hresting : Kept (Resting node w) w := by
    intro a key v hv
    cases key with
    | result x =>
      intro r hr hgiven
      obtain ⟨rfl, hx⟩ := h.placed a x v hv
      rw [← hx] at hr
      cases hv.symm.trans (recordAt_eq_some.1 hr)
      exact ⟨r, rfl, h.rested hr hgiven⟩
    | _ => trivial
  have hrested := (kept_run env (hwrites (fun _ _ => trivial) (law_resting w)) hresting).1
  refine ⟨⟨hkept, hplaced, fun a => (hfree a).trans (h.idle a)⟩, fun a x r hr hgiven => ?_⟩
  have hsome := recordAt_eq_some.1 hr
  obtain ⟨v, hv⟩ := Option.ne_none_iff_exists'.1 (hstays a x (by rw [hsome]; exact Option.some_ne_none _))
  obtain ⟨rfl, hx⟩ := h.placed a x _ hsome
  obtain ⟨r', rfl, hrest⟩ := hrested _ _ _ hv r (by rw [← hx]; exact hr) hgiven
  exact ⟨r', recordAt_eq_some.2 hv, hrest⟩

end Orderly

end Alone

/-! ### Strides -/

/-- A step of a run: an operation of a request for a task, an operation of a scan, or a
program from its start to its end. -/
inductive Stride
  | op (o : Op)
  | scan (cfg : Config) (s : Service) (o : ScanOp)
  | whole (p : M Unit)

/-- What a step is answered. -/
@[reducible] def Stride.Res : Stride → Type
  | op o => o.Res
  | scan _ _ o => Except Exc o.Val
  | whole _ => Unit

/-- How a step is performed. -/
def stride (env : Env) : (o : Stride) → World → o.Res × World
  | .op o, w => handle env o w
  | .scan cfg s o, w => scanStep env cfg s o w
  | .whole p, w => ((), (run env p w).2)

/-- The system of one node whose threads take such steps.  The cleanups and rebalances that
handlers start come in like everything else. -/
def strides (env : Env) : System Stride Stride.Res Exc Unit Unit World where
  handle := stride env
  enabled
    | w, .op o => Server.enabled w o
    | _, _ => true
  note _ _ _ := ()
  launch _ := none

/-- The programs that are taken as one step, besides the recoveries. -/
inductive Whole (node : NodeRef) : M Unit → Prop
  | report {s : Service} (taskId : String) (status result : Json) : s.node = node →
      Whole node (Activity.report s taskId status result).program
  | rebalance {s : Service} : s.node = node → Whole node (Activity.rebalance s).program
  | spawned {s : Service} : s.node = node → Whole node (rebalanceAfterSpawn s)
  | cleanup {s : Service} (workerId taskId : String) : s.node = node →
      Whole node (cleanup s workerId taskId)
  | heartbeat (s : Service) (workerId : String) (pendingTasks : ℤ) (timestamp : Option ℤ)
      (processToken : Option String) :
      Whole node (Activity.heartbeat s workerId pendingTasks timestamp processToken).program
  | kill (s : Service) (workerId : String) : Whole node (Activity.kill s workerId).program

/-- The threads that come in: requests, scans and programs taken as one step. -/
inductive Enters (node : NodeRef) : Thread Stride Stride.Res Exc Unit Unit → Prop
  | create {cfg : Config} {s : Service} (body : Fields) : s.node = node →
      cfg.inject = .nothing →
      Enters node ⟨(), embed Stride.op (fun _ r => r) (Activity.create cfg s body).program⟩
  /-- A scan; where it raises it has ended. -/
  | scan (cfg : Config) {s : Service} (o : SetOrder) : s.node = node →
      Enters node ⟨(), embed (Stride.scan cfg s) (fun _ r => r) (RecoveryManager.scan o)⟩
  | whole {p : M Unit} : Whole node p → Enters node ⟨(), perform (Stride.whole p)⟩

/-- The record that a write takes the place of. -/
def replaced (w : World) : Address × Key × Value → Option ResultRecord
  | (a, .result x, _) => recordAt w a x
  | _ => none

/-- No task is given up between the look that a program takes at its record and what it
does about it: a scan that recovers it, or retries it, saw it given up already, if it is and
did not succeed after that, and a request writes no record over one of a task given up. -/
def Watchful (ι : Type) (node : NodeRef) : Cond ι Stride Unit World := fun _ w _ o =>
  match o with
  | .scan _ _ (.recover r _) => ∀ r₀ ∈ recordAt w node.address (strip r.taskId),
      GivenUp r₀ → r₀.status ≠ .success → GivenUp r
  | .scan _ _ (.retry r) => ∀ r₀ ∈ recordAt w node.address (strip r.taskId),
      GivenUp r₀ → GivenUp r
  | .op o => ∀ e ∈ o.writes, ∀ r₀ ∈ replaced w e, ¬GivenUp r₀
  | _ => True

instance (ι : Type) (node : NodeRef) (γ : ι → Option Unit) (w : World) (i : ι) (o : Stride) :
    Decidable (Watchful ι node γ w i o) :=
  match o with
  | .scan _ _ (.recover r _) => inferInstanceAs (Decidable (∀ r₀ ∈ recordAt w node.address
      (strip r.taskId), GivenUp r₀ → r₀.status ≠ .success → GivenUp r))
  | .scan _ _ (.retry r) => inferInstanceAs (Decidable (∀ r₀ ∈ recordAt w node.address
      (strip r.taskId), GivenUp r₀ → GivenUp r))
  | .op o => inferInstanceAs (Decidable (∀ e ∈ o.writes, ∀ r₀ ∈ replaced w e, ¬GivenUp r₀))
  | .whole _ | .scan _ _ .liveWorkers | .scan _ _ .allWorkers | .scan _ _ (.isLive _)
  | .scan _ _ (.assigned _) | .scan _ _ (.read _) | .scan _ _ .records | .scan _ _ .now =>
    isTrue trivial

/-! ### What the threads do -/

/-- What a scan does about a record: it was not given up when the scan looked. -/
def ScanOp.Timely : ScanOp → Prop
  | .recover r _ => ¬GivenUp r
  | .retry r => ¬GivenUp r ∧ Balanced r
  | _ => True

/-- The records that a scan sees. -/
def ScanOp.Shows : (o : ScanOp) → o.Val → Prop
  | .records, l => ∀ r ∈ l, Balanced r
  | .read _, x => ∀ r ∈ x, Balanced r
  | _, _ => True

/-- A scan looks before it acts. -/
theorem timely_scan (o : SetOrder) :
    Does (fun o (x : Except Exc o.Val) => ∀ a, x = .ok a → o.Shows a) ScanOp.Timely
      (RecoveryManager.scan o) fun _ => True := by
  have hstep : ∀ o : ScanOp, o.Timely →
      Does (fun o (x : Except Exc o.Val) => ∀ a, x = .ok a → o.Shows a) ScanOp.Timely
        (Scan.act o) o.Shows := fun o ho => .call ho fun _ ha => ha
  have hrecover : ∀ (r : ResultRecord) (failureType : FailureType), ¬GivenUp r →
      Does (fun o (x : Except Exc o.Val) => ∀ a, x = .ok a → o.Shows a) ScanOp.Timely
        (Scan.act (.recover r failureType)) fun _ => True := fun r failureType hr =>
    (hstep (.recover r failureType) hr).mono fun _ _ => trivial
  -- a task that has not ended was not given up
  have hqueued : ∀ {r : ResultRecord}, Balanced r → r.status = .pending ∨ r.status = .running →
      ¬GivenUp r := by
    intro r hr hstatus
    refine hr.not_givenUp ?_
    rcases hstatus with hstatus | hstatus <;> rw [hstatus] <;> decide
  have htakeUp : ∀ (p : ResultRecord → Bool) failureType, (∀ r, p r = true → ¬GivenUp r) →
      Does _ ScanOp.Timely (Scan.act .records >>= fun records =>
        each (RecoveryManager.takeUp p failureType) records) fun _ => True :=
    fun p failureType hp => .bind (hstep ScanOp.records trivial) fun records _ => .each fun r _ =>
      .ite (fun hr => hrecover _ _ (hp r hr)) fun _ => .pure trivial
  refine .bind (R := fun _ => True) ?_ fun _ _ => .bind (htakeUp _ _ fun r hr => ?_) fun _ _ =>
    .bind (htakeUp _ _ fun r hr => ?_) fun _ _ => .bind (R := fun _ => True) ?_ fun _ _ => ?_
  · refine .bind (hstep .liveWorkers trivial) fun live _ => ?_
    refine .bind (hstep .allWorkers trivial) fun seen _ => .each fun v _ => ?_
    refine .bind (hstep (.assigned v) trivial) fun taskIds _ => .each fun t _ => ?_
    refine .bind (hstep (.read t) trivial) fun x hx => ?_
    cases x with
    | none => exact .pure trivial
    | some r =>
      exact .ite (fun hstatus => hrecover _ _ (hqueued (hx r rfl) hstatus)) fun _ => .pure trivial
  · have hhistory : r.recoveryHistory = [] := (of_decide_eq_true hr).2.2.2
    rw [GivenUp, hhistory]
    exact List.not_mem_nil
  · exact (of_decide_eq_true hr).2.2.2
  · refine .bind (hstep .records trivial) fun records hrecords => .each fun r hmem => ?_
    refine .ite (fun hstatus => .bind (hstep (.isLive _) trivial) fun live _ => ?_) fun _ =>
      .pure trivial
    exact .ite (fun _ => .pure trivial) fun _ =>
      hrecover _ _ (hqueued (hrecords r hmem) hstatus.1)
  · refine .bind (hstep .now trivial) fun now _ => ?_
    refine .bind (hstep .records trivial) fun records hrecords => .each fun r hmem => ?_
    refine .ite (fun hdue => ?_) fun _ => .pure trivial
    have hopen : ¬GivenUp r := fun hg =>
      Bool.false_ne_true (((hrecords r hmem).closed hg).1.symm.trans hdue.1)
    exact (hstep (.retry r) ⟨hopen, hrecords r hmem⟩).mono fun _ _ => trivial

/-- The steps that threads take. -/
def Stride.Permitted (node : NodeRef) : Stride → Prop
  | .op o => Fine node o ∧ Writes Booked o
  | .scan _ s o => s.node = node ∧ o.Timely
  | .whole p => Whole node p

/-- The answers that they get. -/
def Stride.Answers (node : NodeRef) : (o : Stride) → o.Res → Prop
  | .op o, x => Own node o x ∧ Granted Booked o x
  | .scan _ _ o, x => ∀ a, x = .ok a → o.Shows a
  | .whole _, _ => True

theorem Enters.does {node : NodeRef} {t : Thread Stride Stride.Res Exc Unit Unit}
    (h : Enters node t) :
    Does (Stride.Answers node) (Stride.Permitted node) t.rest fun _ => True := by
  cases h with
  | @create cfg s body hs hinject =>
    have hwrites : Handling (Granted Booked) (Writes Booked) Booked fun _ => True :=
      handling_writes booked_worker law_booked.toUpdateLaw
    have hbooked : Runs (Granted Booked) (Writes Booked) (createTask cfg s body) := by
      refine hwrites.createTask law_booked trivial (fun record _ => hwrites.assign ?_ record) body
      intro o a x ho b k v hw
      rw [Op.deletes_of_writes hw] at ho
      cases ho
    have hfine : Runs (Own node) (Fine node) (createTask cfg s body) :=
      createTask_fine hs hinject body
    exact .embed (fun _ _ hr => hr) (fun _ ho => ho)
      ((runs_quietly hfine).and (runs_quietly hbooked))
  | @scan cfg s o hs =>
    exact .embed (fun _ _ hr => hr) (fun _ ho => ⟨hs, ho⟩) (timely_scan o)
  | whole hp => exact .step hp

/-! ### Runs -/

section Runs

variable {env : Env} {ring : FixedRing env} {node : NodeRef} (halone : Alone ring node)

/-- What a scan reads it reads, and it leaves everything alone. -/
theorem looks_program (cfg : Config) (s : Service) (o : ScanOp) (ho : ∀ r t, o ≠ .recover r t)
    (ho' : ∀ r, o ≠ .retry r) : Only Op.Looks (o.program cfg s) := by
  cases o with
  | liveWorkers | allWorkers | isLive | now => exact .act ⟨trivial, trivial⟩
  | assigned w => exact only_assignmentGet s w
  | read t =>
    refine .bind (.attempt (only_resultGet s t)) fun x => ?_
    cases x <;> exact .pure _
  | records => exact .bind (.act ⟨trivial, trivial⟩) fun _ => .pure _
  | recover r t => exact absurd rfl (ho r t)
  | retry r => exact absurd rfl (ho' r)

/-- The records that a scan reads add up. -/
theorem shows_program {w : World} (h : Orderly node w) (cfg : Config) (s : Service) (o : ScanOp)
    (a : o.Val) (ha : (scanStep env cfg s o w).1 = .ok a) : o.Shows a := by
  have hwrites : Handling (Granted Booked) (Writes Booked) Booked fun _ => True :=
    handling_writes booked_worker law_booked.toUpdateLaw
  cases o with
  | records =>
    intro r hr
    obtain ⟨x, hbooked⟩ := (kept_run env (hwrites.allHt1Records (s := s)) h.kept).2 a ha r hr
    have hbooked : Booked (.result x) (.result r) := hbooked
    exact hbooked.2
  | read t =>
    intro r hr
    have hbooked : Booked (.result (strip t)) (.result r) ∨ Booked (.result t) (.result r) :=
      (kept_run env (hwrites.safeGet (s := s) t) h.kept).2 a ha r hr
    exact hbooked.elim (fun h => h.2) fun h => h.2
  | _ => trivial

include halone

theorem Whole.advances {p : M Unit} (hp : Whole node p) {w : World} (h : Orderly node w) :
    Advances node w (run env p w).2 := by
  cases hp with
  | report t st res hs =>
    exact h.runs halone fun hh law => runs_quietly (hh.resultComplete law hs t st trivial)
  | rebalance hs => exact h.runs halone fun hh law => runs_quietly (hh.doRebalance law)
  | spawned hs => exact h.runs halone fun hh law => runs_quietly (hh.doRebalance law)
  | cleanup v t hs => exact h.runs halone fun hh _ => hh.cleanup v t
  | heartbeat s v n t token =>
    obtain ⟨hfree, hstores⟩ := run_heartbeat env s v n t token w
    exact h.same hfree (.of_stores hstores)
  | kill s v =>
    obtain ⟨hfree, hstores⟩ := run_kill env s v w
    exact h.same hfree (.of_stores hstores)

/-- **One step** of a run in which nothing is given up behind a program's back. -/
theorem Stride.advances {ι : Type} {γ : ι → Option Unit} {i : ι} {w : World} {o : Stride}
    (h : Orderly node w) (ho : o.Permitted node) (hwatch : Watchful ι node γ w i o) :
    o.Answers node (stride env o w).1 ∧ Advances node w (stride env o w).2 := by
  cases o with
  | op o =>
    obtain ⟨hfine, hbooked⟩ := ho
    refine ⟨⟨own_handle halone h.placed, (kept_handle h.kept hbooked).1⟩,
      h.op env hfine hbooked fun a x v r hw hr => hwatch (a, .result x, v) hw r hr⟩
  | whole p => exact ⟨trivial, ho.advances halone h⟩
  | scan cfg s o =>
    obtain ⟨hs, htimely⟩ := ho
    refine ⟨fun a ha => shows_program h cfg s o a ha, ?_⟩
    cases o with
    | recover r failureType =>
      refine h.recover halone hs cfg r _ fun r₀ hr₀ hgiven => ?_
      by_contra hstatus
      exact htimely (hwatch r₀ hr₀ hgiven hstatus)
    | retry r =>
      exact h.retry halone hs cfg htimely.2 htimely.1 fun r₀ hr₀ hgiven =>
        htimely.1 (hwatch r₀ hr₀ hgiven)
    | _ => exact h.looks env (looks_program cfg s _ (by simp) (by simp))

variable {ι : Type} [DecidableEq ι]
  {c c' : Pool ι Stride Stride.Res Exc Unit Unit World}

/-- What a run keeps that starts in an orderly world. -/
theorem advances_keeps (w₀ : World) : Keeps (strides env) (Enters node) (Watchful ι node)
    (Stride.Answers node) (fun _ => Stride.Permitted node) (fun (_ : Except Exc Unit) _ => True)
    fun _ w => Advances node w₀ w := by
  refine ⟨?_, ?_, ?_, ?_⟩
  · intro γ w i slot g o hw _ ho _ hwatch _
    obtain ⟨hanswers, hstep⟩ := Stride.advances halone hw.orderly ho hwatch
    exact ⟨hanswers, hw.trans hstep⟩
  · exact fun o t ht => (by cases ht)
  · exact fun γ w i t hw _ _ => hw
  · exact fun t ht => wp_mono (fun _ _ _ => trivial) ht.does.holds

/-- **While no task is given up between a look at its record and what is done about it, the
accounts of every record add up, and a task that was given up stays given up**: no later step
counts an attempt, adds to its history or queues it. -/
theorem accounted (hrun : Steps (strides env) (Enters node) (Watchful ι node)
      ⟨fun _ => none, World.empty⟩ c) :
    (∀ a x r, recordAt c.world a x = some r → Accounted r) ∧
      ∀ c', Steps (strides env) (Enters node) (Watchful ι node) c c' → ∀ a x r,
        recordAt c.world a x = some r → GivenUp r →
          ∃ r', recordAt c'.world a x = some r' ∧ Rested r r' := by
  have hempty : Orderly node World.empty :=
    ⟨fun _ _ _ hv => (by cases hv), fun _ _ _ hv => (by cases hv), fun _ => rfl⟩
  have hsound := Steps.sound (advances_keeps halone World.empty) hrun
    ⟨fun _ _ hi => (by cases hi), hempty, fun _ _ _ hr => (by cases hr)⟩
  have horderly : Orderly node c.world := hsound.world.orderly
  refine ⟨fun a x r hr => (horderly.balanced hr).toAccounted, fun c' hrun' => ?_⟩
  have hsound' := Steps.sound (advances_keeps halone c.world) hrun'
    ⟨hsound.threads, horderly, fun a x r hr hgiven => ⟨r, hr, horderly.rested hr hgiven⟩⟩
  exact hsound'.world.rests

end Runs

namespace OneNode

/-- The node is the only member of its ring. -/
theorem alone (now : ℕ) (deliver : Call → Delivery) : Alone (ring now deliver) node := ⟨rfl, rfl⟩

/-- A scan of the node. -/
def scans : Thread Stride Stride.Res Exc Unit Unit :=
  ⟨(), embed (Stride.scan config services) (fun _ r => r) (RecoveryManager.scan order)⟩

/-- The task `t` is created and fails, and two scans come in. -/
def failing : List (Event (Fin 4) Stride Stride.Res Exc Unit Unit) :=
  .enter 0 ⟨(), embed Stride.op (fun _ r => r)
      (Activity.create config services (body "t" (some "w"))).program⟩ ::
    List.replicate 14 (.act 0 0) ++
  [.enter 1 ⟨(), perform (Stride.whole
      (Activity.report services "t" (.str "FAILURE") .null).program)⟩, .act 1 0,
    .enter 2 scans, .enter 3 scans]

/-- One scan to its end, and then the other. -/
def oneByOne : List (Event (Fin 4) Stride Stride.Res Exc Unit Unit) :=
  failing ++ List.replicate 8 (.act 2 0) ++ List.replicate 7 (.act 3 0)

/-- Both scans list the records before either does anything about them. -/
def together : List (Event (Fin 4) Stride Stride.Res Exc Unit Unit) :=
  failing ++ List.replicate 4 (.act 2 0) ++ List.replicate 5 (.act 3 0) ++ [.act 2 0]

theorem enters_failing {i : Fin 4} {t : Thread Stride Stride.Res Exc Unit Unit}
    (h : .enter i t ∈ failing) : Enters node t := by
  simp only [failing, List.cons_append, List.mem_cons, List.mem_append, List.mem_replicate,
    Event.enter.injEq, reduceCtorEq, and_false, false_or, or_false, List.not_mem_nil] at h
  rcases h with ⟨-, rfl⟩ | ⟨-, rfl⟩ | ⟨-, rfl⟩ | ⟨-, rfl⟩
  · exact .create _ rfl rfl
  · exact .whole (.report _ _ _ rfl)
  · exact .scan _ _ rfl
  · exact .scan _ _ rfl

/-- Any step may be taken. -/
def anyStride : Cond (Fin 4) Stride Unit World := fun _ _ _ _ => True

instance (γ : Fin 4 → Option Unit) (w : World) (i : Fin 4) (o : Stride) :
    Decidable (anyStride γ w i o) := isTrue trivial

/-- The world before anything came in. -/
def idle : Pool (Fin 4) Stride Stride.Res Exc Unit Unit World := ⟨fun _ => none, World.empty⟩

/-- The hypotheses of `accounted` are satisfiable: a task is created, fails and is given up by
one of two scans. -/
theorem accounted_oneByOne : ∃ (c : Pool (Fin 4) Stride Stride.Res Exc Unit Unit World)
    (r : ResultRecord), recordAt c.world node.address "t" = some r ∧ GivenUp r ∧ Accounted r ∧
      ∀ c', Steps (strides (env 0)) (Enters node) (Watchful (Fin 4) node) c c' →
        ∃ r', recordAt c'.world node.address "t" = some r' ∧ Rested r r' := by
  have hrun : (idle.steps (strides (env 0)) (Watchful (Fin 4) node) oneByOne).map
      (fun c => record c.world "t") = some (some (.failure, "w", 0, [.giveUp])) := by
    decide +kernel
  obtain ⟨c, hc, hrecord⟩ := Option.map_eq_some_iff.1 hrun
  have hsteps : Steps (strides (env 0)) (Enters node) (Watchful (Fin 4) node) idle c := by
    refine .of_steps (fun i t ht => enters_failing (i := i) ?_) hc
    simpa [oneByOne] using ht
  obtain ⟨haccounts, hrests⟩ := accounted (alone 0 fun _ => .delivered) hsteps
  obtain ⟨r, hget, -, -, hhistory⟩ := exists_of_record hrecord
  have hr : recordAt c.world node.address "t" = some r := recordAt_eq_some.2 hget
  have hgiven : GivenUp r := by
    rw [GivenUp, hhistory]
    exact List.mem_singleton_self _
  exact ⟨c, r, hr, hgiven, haccounts _ _ r hr, fun c' hrun' => hrests c' hrun' _ _ r hr hgiven⟩

/-- **Two scans that run at once give a task up twice.** -/
theorem givenUp_twice : ∃ (c : Pool (Fin 4) Stride Stride.Res Exc Unit Unit World)
    (r : ResultRecord), Steps (strides (env 0)) (Enters node) anyStride idle c ∧
      recordAt c.world node.address "t" = some r ∧ r.recoveryHistory = [.giveUp, .giveUp] ∧
      ¬Accounted r := by
  have hrun : (idle.steps (strides (env 0)) anyStride together).map
      (fun c => record c.world "t") = some (some (.failure, "w", 0, [.giveUp, .giveUp])) := by
    decide +kernel
  obtain ⟨c, hc, hrecord⟩ := Option.map_eq_some_iff.1 hrun
  obtain ⟨r, hget, -, -, hhistory⟩ := exists_of_record hrecord
  refine ⟨c, r, .of_steps (fun i t ht => enters_failing (i := i) ?_) hc,
    recordAt_eq_some.2 hget, hhistory, fun h => ?_⟩
  · simpa [together] using ht
  · have honce := h.once
    rw [hhistory] at honce
    exact absurd honce (by decide)

end OneNode

end Server
end ChordInfra
