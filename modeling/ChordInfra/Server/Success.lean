/-
# A task that succeeded

A completion report, a scan, a rebalance and a request for a task each read the record of a task and
write it later, so that one of them can undo what another wrote meanwhile.  A `Look` is what such a
program was shown of the record.  What it writes over the record of a task that succeeded undoes the
success only when it did not know of it (`Look.knows`): it reports something else, or something else
was shown to it.

`success_stays` is the theorem for runs in which no program undoes a success in this way, with any
number of nodes, any order of the single operations and any requests lost.
-/

import ChordInfra.Server.OneNode
import ChordInfra.Server.Recovered

namespace ChordInfra
namespace Server

open Interact Prog
open Storage
open Storage.Serving (Runs)
open ChordInfra.Ring (NodeRef)

/-! ### Looks -/

/-- The value is the record of a task that succeeded. -/
def succeeds (v : Option Value) : Bool :=
  (v.bind Value.asResult).any fun r => r.status = .success

theorem succeeds_iff {v : Option Value} :
    succeeds v = true ↔ ∃ r, v = some (.result r) ∧ r.status = .success := by
  unfold succeeds
  cases v with
  | none => simp
  | some v => cases v <;> simp [Value.asResult]

/-- The entries show the task, if at all, as one that succeeded. -/
def succeedsIn (x : String) (l : List (Key × Value)) : Bool :=
  l.all fun e => e.2.asResult.all fun r => strip r.taskId ≠ strip x || r.status = .success

/-- What a program was shown of the record of a task. -/
structure Look where
  /-- The status that it reports, if it is a report. -/
  reports : Option Status
  /-- Its last listing of a store showed that the task had succeeded. -/
  listed : Bool
  /-- So did every look at the owner's record that it took after the listing. -/
  looked : Bool

namespace Look

/-- Nothing was shown yet. -/
def first (reports : Option Status) : Look := ⟨reports, false, false⟩

/-- The program reports a success, or is no report and was shown the success. -/
def knows (g : Look) : Bool :=
  match g.reports with
  | some status => status = .success
  | none => g.listed && g.looked

/-- What an operation shows of the task that is kept under `x` at `a`. -/
def note (a : Address) (x : String) (g : Look) : (o : Op) → o.Res → Look
  | .items _, l => { g with listed := succeedsIn x l, looked := true }
  | .get b k, v =>
    if b = a ∧ k = .result x then { g with looked := g.looked && succeeds v } else g
  | .rpc b (.get k), v =>
    if b = a ∧ k = .result x then { g with looked := g.looked && succeeds (Option.join v) } else g
  | _, _ => g

/-- A program that goes through a store, and what it was shown there. -/
def Scanning (b : Bool) (g : Look) : Prop := g.reports = none ∧ g.listed = b

/-- And that cannot know that the task succeeded. -/
def Stale (b : Bool) (g : Look) : Prop := g.Scanning b ∧ (b && g.looked) = false

variable {b : Bool} {g : Look}

theorem Scanning.knows (h : g.Scanning b) : g.knows = (b && g.looked) := by
  obtain ⟨hreports, rfl⟩ := h
  simp only [Look.knows, hreports]

end Look

/-- An operation that is not a listing. -/
def NoItems (o : Op) : Prop := ∀ a, o ≠ .items a

section Notes

variable {a : Address} {x : String} {o : Op} {b : Bool} {g : Look}

theorem note_reports (g : Look) (o : Op) (r : o.Res) : (g.note a x o r).reports = g.reports := by
  cases o with
  | get c k =>
    simp only [Look.note]
    split_ifs <;> rfl
  | rpc c q =>
    cases q with
    | get k =>
      simp only [Look.note]
      split_ifs <;> rfl
    | _ => rfl
  | _ => rfl

/-- Without another listing the last one stays, and no success is shown after something else. -/
theorem note_listed (ho : NoItems o) (g : Look) (r : o.Res) :
    (g.note a x o r).listed = g.listed ∧ (g.looked = false → (g.note a x o r).looked = false) := by
  cases o with
  | items c => exact absurd rfl (ho c)
  | get c k =>
    simp only [Look.note]
    split_ifs
    · exact ⟨rfl, fun h => by rw [h]; rfl⟩
    · exact ⟨rfl, id⟩
  | rpc c q =>
    cases q with
    | get k =>
      simp only [Look.note]
      split_ifs
      · exact ⟨rfl, fun h => by rw [h]; rfl⟩
      · exact ⟨rfl, id⟩
    | _ => exact ⟨rfl, id⟩
  | _ => exact ⟨rfl, id⟩

theorem Look.Scanning.note (h : g.Scanning b) (ho : NoItems o) (r : o.Res) :
    (g.note a x o r).Scanning b :=
  ⟨(note_reports g o r).trans h.1, (note_listed ho g r).1.trans h.2⟩

theorem Look.Stale.note (h : g.Stale b) (ho : NoItems o) (r : o.Res) :
    (g.note a x o r).Stale b := by
  refine ⟨h.1.note ho r, ?_⟩
  cases b with
  | false => rfl
  | true => exact (note_listed ho g r).2 h.2

end Notes

section Programs

variable {env : Env} (ring : Owned env) (x : String)

/-- Where the record of the task is. -/
def keeper : Address := (ring.owner (.result x)).address

/-- What the members are told of the owners, and what is read. -/
def Told : (o : Op) → o.Res → Prop
  | .findSuccessor a k, n => (∃ m ∈ ring.members, m.address = a) → n = ring.owner k
  | o, r => Granted Owns o r

/-- An operation of a program that knows of the success leaves it. -/
def Keeping (g : Look) (o : Op) : Prop :=
  ∀ v, o.writes = some (keeper ring x, .result x, v) → g.knows = true → succeeds (some v) = true

/-- What a program does and ends with, with what it was shown. -/
abbrev Notes {α : Type} (p : M α) (T : Except Exc α → Look → Prop) (g : Look) : Prop :=
  Traced (Look.note (keeper ring x) x) (Told ring) (Keeping ring x) p T g

/-- What a program does that keeps what is said of its looks. -/
abbrev Holds (I : Look → Prop) {α : Type} (p : M α) (Q : α → Prop) : Prop :=
  Under (Look.note (keeper ring x) x) (Told ring) (Keeping ring x) I p Q

/-- An operation of a program that lists nothing, and leaves the success if `c` says so. -/
def Backed (c : Bool) (o : Op) : Prop :=
  NoItems o ∧ ∀ v, o.writes = some (keeper ring x, .result x, v) → c = true →
    succeeds (some v) = true

variable {ring x} {c b : Bool} {α : Type} {p : M α} {Q : α → Prop} {s : Service} {g : Look}
  {A : (o : Op) → o.Res → Prop}

/-- What is read says of itself what every record does. -/
theorem told_granted {o : Op} {r : o.Res} (h : Told ring o r) : Granted Owns o r := by
  cases o with
  | findSuccessor a k => trivial
  | _ => exact h

/-- An operation that writes nothing. -/
theorem keeping_of_none {o : Op} (ho : o.writes = none) : Keeping ring x g o := by
  intro v hv
  rw [ho] at hv
  cases hv

theorem holds_backed {I : Look → Prop} (hp : Does (Told ring) (Backed ring x c) p Q)
    (hknows : ∀ g, I g → g.knows = true → c = true)
    (hI : ∀ g o r, I g → NoItems o → I (g.note (keeper ring x) x o r)) : Holds ring x I p Q := by
  refine hp.under fun g o hg ho => ⟨fun v hv hg' => ho.2 v hv (hknows g hg hg'), fun r _ => ?_⟩
  exact hI g o r hg ho.1

/-- A program that may not write over the success when its listing showed it. -/
theorem holds_scanning (hp : Does (Told ring) (Backed ring x b) p Q) :
    Holds ring x (Look.Scanning b) p Q := by
  refine holds_backed hp (fun g hg hknows => ?_) fun _ _ r hg ho => hg.note ho r
  rw [hg.knows] at hknows
  exact (Bool.and_eq_true_iff.1 hknows).1

/-- A program that cannot know of the success may do anything. -/
theorem holds_stale (hp : Does (Told ring) (Backed ring x false) p Q) :
    Holds ring x (Look.Stale b) p Q := by
  refine holds_backed hp (fun g hg hknows => ?_) fun _ _ r hg ho => hg.note ho r
  rw [hg.1.knows, hg.2] at hknows
  cases hknows

/-- What lists nothing and writes no result. -/
theorem backed_of {o : Op} (ho : NoItems o) (hw : ∀ a y v, o.writes ≠ some (a, .result y, v)) :
    Backed ring x c o :=
  ⟨ho, fun _ hv => absurd hv (hw _ _ _)⟩

theorem serving_backed : Serving A (Backed ring x c) fun _ _ => True where
  get _ _ := ⟨backed_of (fun _ h => (by cases h)) fun _ _ _ h => (by cases h), fun _ _ => trivial⟩
  rpcGet _ _ :=
    ⟨backed_of (fun _ h => (by cases h)) fun _ _ _ h => (by cases h), fun _ _ => trivial⟩
  getReplica _ _ :=
    ⟨backed_of (fun _ h => (by cases h)) fun _ _ _ h => (by cases h), fun _ _ => trivial⟩
  getState _ := backed_of (fun _ h => (by cases h)) fun _ _ _ h => (by cases h)
  findSuccessor _ _ := backed_of (fun _ h => (by cases h)) fun _ _ _ h => (by cases h)
  now := backed_of (fun _ h => (by cases h)) fun _ _ _ h => (by cases h)
  lock _ _ := backed_of (fun _ h => (by cases h)) fun _ _ _ h => (by cases h)
  unlock _ _ := backed_of (fun _ h => (by cases h)) fun _ _ _ h => (by cases h)
  deliver _ _ := backed_of (fun _ h => (by cases h)) fun _ _ _ h => (by cases h)
  writes o a k r ho := by
    refine backed_of (fun b hb => ?_) fun b y v h => ?_
    · rw [hb] at ho
      cases ho
    · rw [ho] at h
      cases h

/-- A record may be put where it leaves the success. -/
theorem backed_put {id : String} {record : ResultRecord}
    (hr : strip id = strip x → c = true → record.status = .success) :
    Runs A (Backed ring x c) (ResultService.put s id record) := by
  refine serving_backed.resultPut fun o a y hy ho => ⟨fun b hb => ?_, fun v hv hc => ?_⟩
  · rw [hb] at ho
    cases ho
  · rw [ho] at hv
    cases hv
    exact succeeds_iff.2 ⟨record, rfl, hr hy.symm hc⟩

theorem placing_backed :
    Placing A (Backed ring x c) (fun _ _ => True) fun _ => c = false := by
  refine ⟨serving_backed, fun s hc id record _ _ => backed_put fun _ h => ?_, ?_, ?_⟩
  · rw [hc] at h
    cases h
  · exact fun _ _ _ _ => backed_of (fun _ h => (by cases h)) fun _ _ _ h => (by cases h)
  · exact fun _ => backed_of (fun _ h => (by cases h)) fun _ _ _ h => (by cases h)

theorem backed_manager (a : Address) (m : Workers.Manager.Call) :
    Backed ring x c (.manager a m) :=
  backed_of (fun _ h => (by cases h)) fun _ _ _ h => (by cases h)

/-! ### The reads of a recovery -/

/-- What was read, when a success was shown, was that success. -/
def Read (b : Bool) (y : Except Exc (Option Value)) (g : Look) : Prop :=
  g.Scanning b ∧ (g.looked = true → ∃ v, y = .ok v ∧ succeeds v = true)

theorem notes_requestTries (n : ℕ) (hn : n = 0 → g.looked = false) (hg : g.Scanning b) :
    Notes ring x (Transport.requestTries (keeper ring x) (.get (.result x)) n) (Read b) g := by
  induction n generalizing g with
  | zero =>
    refine ⟨hg, fun h => ?_⟩
    rw [hn rfl] at h
    cases h
  | succ n ih =>
    refine .act (keeping_of_none rfl) fun r _ => ?_
    have hnoted : g.note (keeper ring x) x (.rpc (keeper ring x) (.get (.result x))) r =
        { g with looked := g.looked && succeeds (Option.join r) } := if_pos ⟨rfl, rfl⟩
    have hg' : Look.Scanning b (g.note (keeper ring x) x _ r) :=
      hg.note (fun _ h => (by cases h)) r
    rw [hnoted] at hg' ⊢
    cases r with
    | none => exact ih (fun _ => Bool.and_false _) hg'
    | some v => exact ⟨hg', fun h => ⟨v, rfl, (Bool.and_eq_true_iff.1 h).2⟩⟩

theorem notes_tryGet (hs : s.node ∈ ring.members) (hg : g.Scanning b) :
    Notes ring x (s.tryGetOnNode (ring.owner (.result x)) (.result x)) (Read b) g := by
  have hget : Notes ring x (s.getOnNode (ring.owner (.result x)) (.result x)) (Read b) g := by
    unfold Service.getOnNode
    split_ifs with hid
    · have hself : s.node.address = keeper ring x :=
        congrArg NodeRef.address (ring.eq_owner hs hid)
      refine ⟨fun _ h => (by cases h), fun v _ => ?_⟩
      have hnoted : g.note (keeper ring x) x (.get s.node.address (.result x)) v =
          { g with looked := g.looked && succeeds v } := if_pos ⟨hself, rfl⟩
      have hg' : Look.Scanning b (g.note (keeper ring x) x _ v) :=
        hg.note (fun _ h => (by cases h)) v
      rw [hnoted] at hg' ⊢
      exact ⟨hg', fun h => ⟨v, rfl, (Bool.and_eq_true_iff.1 h).2⟩⟩
    · exact notes_requestTries _ (fun h => (by cases h)) hg
  refine .attempt hget fun y g' hy => ?_
  cases y with
  | ok v => exact ⟨hy⟩
  | error e =>
    refine ⟨hy.1, fun h => ?_⟩
    obtain ⟨_, hv, -⟩ := hy.2 h
    cases hv

/-- The replicas are not looked at. -/
theorem notes_replicas (id : String) (hg : g.Scanning b) (hlooked : g.looked = false) :
    Notes ring x (ResultService.readFromReplicas s id (ring.owner (.result x)))
      (fun _ g' => g'.Scanning b ∧ g'.looked = false) g := by
  have hp : Does (Told ring) (Backed ring x true)
      (ResultService.readFromReplicas s id (ring.owner (.result x))) fun _ => True :=
    (serving_backed.readFromReplicas _ _ _).mono fun _ _ => trivial
  have hI : Holds ring x (fun g => g.Scanning b ∧ g.looked = false) _ _ :=
    holds_backed hp (fun _ _ _ => rfl)
      fun g o r hg ho => ⟨hg.1.note ho r, (note_listed ho g r).2 hg.2⟩
  exact (hI.traced ⟨hg, hlooked⟩).mono fun y g' hy => hy.1

/-- What is read of the task, when a success was shown, was that success. -/
theorem notes_get (hs : s.node ∈ ring.members) {id : String} (hid : strip id = x)
    (hg : g.Scanning b) :
    Notes ring x (ResultService.get s id) (fun y g' => g'.Scanning b ∧ (g'.looked = true →
      ∀ a, y = .ok a → ∃ r : ResultRecord, a = some r ∧ r.status = .success)) g := by
  unfold ResultService.get buildResultKey
  by_cases hempty : strip id = ""
  · rw [if_pos hempty]
    exact ⟨hg, fun _ _ h => (by cases h)⟩
  rw [if_neg hempty, hid]
  refine .act (keeping_of_none rfl) fun n hn => ?_
  obtain rfl : n = ring.owner (.result x) := hn ⟨s.node, hs, rfl⟩
  refine .bind (notes_tryGet hs hg) (fun v g' hy => ?_) fun e g' hy =>
    ⟨hy.1, fun _ _ h => (by cases h)⟩
  obtain ⟨hg', hlooked⟩ := hy
  unfold Replication.orReplicas
  by_cases hsome : v.isSome = true
  · rw [if_pos hsome]
    refine ⟨hg', fun h a ha => ?_⟩
    obtain ⟨u, hu, hsucceeds⟩ := hlooked h
    cases hu
    obtain ⟨r, rfl, hstatus⟩ := succeeds_iff.1 hsucceeds
    cases ha
    exact ⟨r, rfl, hstatus⟩
  · -- the owner showed no success
    rw [if_neg hsome]
    have hnot : g'.looked = false := by
      by_contra h
      obtain ⟨u, hu, hsucceeds⟩ := hlooked (by simpa using h)
      cases hu
      obtain ⟨r, rfl, -⟩ := succeeds_iff.1 hsucceeds
      exact hsome rfl
    refine .bind (notes_replicas id hg' hnot) (fun v g'' hy => ⟨hy.1, fun h => ?_⟩)
      fun e g'' hy => ⟨hy.1, fun _ _ h => (by cases h)⟩
    rw [hy.2] at h
    cases h

/-- The record of a task that a manager reads is one of that task, and a success when that was
shown. -/
theorem notes_safeGet (hs : s.node ∈ ring.members) (id : String) (hg : g.Scanning b) :
    Notes ring x (safeGet s id) (fun y g' => g'.Scanning b ∧ ∀ r, y = .ok (some r) →
      strip r.taskId = strip id ∧ (strip id = x → g'.looked = true → r.status = .success)) g := by
  have hread : Notes ring x (safeGet s id) (fun y g' => g'.Scanning b ∧ ∀ r, y = .ok (some r) →
      strip id = x → g'.looked = true → r.status = .success) g := by
    rcases eq_or_ne (strip id) x with hid | hid
    · refine .attempt (notes_get hs hid hg) fun y g' hy => ?_
      cases y with
      | error e => exact ⟨hy.1, fun r hr => (by cases hr)⟩
      | ok a =>
        refine ⟨hy.1, fun r hr _ hlooked => ?_⟩
        cases hr
        obtain ⟨a', ha', hstatus⟩ := hy.2 hlooked (some r) rfl
        cases ha'
        exact hstatus
    · have hp : Does (Told ring) (Backed ring x b) (safeGet s id) fun _ => True :=
        (placing_backed.safeGet id).mono fun _ _ => trivial
      exact ((holds_scanning hp).traced hg).mono fun y g' hy => ⟨hy.1, fun r _ h => absurd h hid⟩
  refine (hread.and_does (fun _ _ => told_granted)
    ((acting_writes owns_worker law_owns).safeGet id)).mono
    fun y g' hy => ⟨hy.1.1, fun r hr => ⟨?_, hy.1.2 r hr⟩⟩
  exact (hy.2 _ hr r rfl).elim (fun h => Eq.trans h (strip_strip id)) fun h => h

/-! ### Recoveries -/

/-- What is done about a record that is not, where it is one of the task, the success that was
shown. -/
theorem notes_recoverFresh {cfg : Config} {fresh : ResultRecord} {failureType : Option FailureType}
    (hwaiting : fresh.waiting = false) (hg : g.Scanning b)
    (hstale : strip fresh.taskId = strip x → (b && g.looked) = false) :
    Notes ring x (recoverFresh cfg s fresh failureType) (fun _ g' => g'.Scanning b) g := by
  by_cases htask : strip fresh.taskId = strip x
  · have hp : Does (Told ring) (Backed ring x false) (recoverFresh cfg s fresh failureType)
        fun _ => True :=
      placing_backed.recoverFresh law_trivial backed_manager
        (fun _ => backed_put fun _ h => (by cases h)) hwaiting trivial
    exact ((holds_stale hp).traced ⟨hg, hstale htask⟩).mono fun y g' hy => hy.1.1
  · have hp : Does (Told ring) (Backed ring x b) (recoverFresh cfg s fresh failureType)
        fun _ => True :=
      placing_backed.recoverFresh law_trivial backed_manager
        (fun _ => backed_put fun h => absurd h htask) hwaiting trivial
    exact ((holds_scanning hp).traced hg).mono fun y g' hy => hy.1

variable {cfg : Config}

theorem holds_recoverClaimed (hx : strip x = x) (hs : s.node ∈ ring.members) (id : String)
    (failureType : Option FailureType) :
    Holds ring x (Look.Scanning b) (recoverClaimed cfg s id failureType) fun _ => True := by
  refine .of_traced fun g hg => .bind (notes_safeGet hs id hg) (fun record g' hy => ?_)
    fun e g' hy => hy.1
  cases record with
  | none => exact ⟨hy.1⟩
  | some fresh =>
    obtain ⟨hg', hfresh⟩ := hy
    obtain ⟨hid, hsuccess⟩ := hfresh fresh rfl
    dsimp only
    split_ifs with hgo
    · exact ⟨hg'⟩
    · obtain ⟨hwaiting, hstatus⟩ := not_or.1 hgo
      refine notes_recoverFresh (by simpa using hwaiting) hg' fun htask => ?_
      by_contra hknows
      obtain ⟨-, hlooked⟩ := Bool.and_eq_true_iff.1 (Bool.not_eq_false _ ▸ hknows)
      exact hstatus (hsuccess (by rw [← hid, htask, hx]) hlooked)

theorem holds_attemptRecovery (hx : strip x = x) (hs : s.node ∈ ring.members)
    (record : ResultRecord) (failureType : Option FailureType) :
    Holds ring x (Look.Scanning b) (attemptRecovery cfg s record failureType) fun _ => True := by
  have hmanager : ∀ m, Holds ring x (Look.Scanning b) (act (.manager s.node.address m))
      fun _ => True := fun m => holds_scanning (.step (backed_manager _ _))
  refine .ite (fun _ => .pure trivial) fun _ => .bind (hmanager _) fun claimed _ => ?_
  refine .ite (fun _ => ?_) fun _ => .pure trivial
  exact .bind (holds_recoverClaimed hx hs _ _).attempt fun _ _ => hmanager _

/-- A retry of a record that is, where it is one of the task, the success that the listing
showed. -/
theorem holds_retryWaiting (hx : strip x = x) (hs : s.node ∈ ring.members) {record : ResultRecord}
    (hr : strip record.taskId = strip x → b = true → record.status = .success) :
    Holds ring x (Look.Scanning b) (retryWaiting cfg s record) fun _ => True := by
  refine .bind (holds_scanning (.step (serving_backed (A := Told ring)).now)) fun now _ => ?_
  refine .bind (holds_scanning (Placing.safePut (backed_put hr))) fun _ _ => ?_
  exact holds_attemptRecovery hx hs _ _

/-! ### Scans -/

/-- No report. -/
abbrev Look.Reader (g : Look) : Prop := g.reports = none

theorem holds_reader (hp : Does (Told ring) (Backed ring x true) p Q) :
    Holds ring x Look.Reader p Q :=
  holds_backed hp (fun _ _ _ => rfl) fun g o r hg _ => (note_reports g o r).trans hg

/-- What the listing of the records shows. -/
theorem notes_allHt1Records (hg : g.Reader) :
    Notes ring x (allHt1Records s) (fun y g' => g'.Reader ∧ ∀ l, y = .ok l → ∀ r ∈ l,
      strip r.taskId = strip x → g'.listed = true → r.status = .success) g := by
  refine .act (keeping_of_none rfl) fun items _ => ⟨hg, fun l hl r hr htask hlisted => ?_⟩
  cases hl
  obtain ⟨⟨k, v⟩, he, hr⟩ := List.mem_filterMap.1 hr
  have hshown : succeedsIn x items = true := hlisted
  have hentry := List.all_eq_true.1 hshown _ he
  split at hr
  case h_1 t record heq =>
    cases heq
    cases hr
    simpa [Value.asResult, htask] using hentry
  case h_2 => cases hr

theorem holds_scanOp (hx : strip x = x) (hs : s.node ∈ ring.members) (o : ScanOp)
    (ho : ∀ record, o ≠ .retry record) :
    Holds ring x Look.Reader (o.program cfg s) fun _ => True := by
  have hserving : Serving (Told ring) (Backed ring x true) _ := serving_backed
  have hplacing : Placing (Told ring) (Backed ring x true) _ _ := placing_backed
  cases o with
  | liveWorkers => exact holds_reader (.step (hplacing.registry _ trivial False.elim))
  | allWorkers => exact holds_reader (.step (hplacing.registry _ trivial False.elim))
  | isLive w => exact holds_reader (.step (hplacing.registry _ trivial False.elim))
  | assigned w => exact holds_reader (hserving.assignmentGet w)
  | read taskId => exact holds_reader ((hplacing.safeGet taskId).mono fun _ _ => trivial)
  | records => exact .of_traced fun g hg => (notes_allHt1Records hg).mono fun _ _ hy => hy.1
  | now => exact holds_reader (.step hserving.now)
  | recover record failureType =>
    exact .of_traced fun g hg => ((holds_attemptRecovery hx hs record _).traced ⟨hg, rfl⟩).mono
      fun _ _ hy => hy.1.1
  | retry record => exact absurd rfl (ho record)

/-- The retries, which write what was listed. -/
theorem holds_retryWaitingTasks (hx : strip x = x) (hs : s.node ∈ ring.members) :
    Holds ring x Look.Reader
      (expand (ScanOp.program cfg s) RecoveryManager.retryWaitingTasks) fun _ => True := by
  refine .of_traced fun g hg => ?_
  unfold RecoveryManager.retryWaitingTasks
  have hnow : Holds ring x Look.Reader (ScanOp.program cfg s .now) fun _ => True :=
    holds_scanOp hx hs .now fun _ h => (by cases h)
  refine .attempt (hnow.traced hg) fun y g hg => ?_
  cases y with
  | error e => exact ⟨hg.1⟩
  | ok now =>
    refine .attempt (notes_allHt1Records hg.1) fun y g hy => ?_
    cases y with
    | error e => exact ⟨hy.1⟩
    | ok records =>
      have hscan : Holds ring x (Look.Scanning g.listed) (expand (ScanOp.program cfg s)
          (each (RecoveryManager.waitingTask now) records)) fun _ => True := by
        refine .expand (fun o => ∃ record ∈ records, o = .retry record) (fun _ _ => True) ?_
          (.each fun record hmem => ?_)
        · rintro o ⟨record, hmem, rfl⟩
          exact holds_retryWaiting hx hs (hy.2 records rfl record hmem)
        · exact .ite (fun _ => .invoke ⟨record, hmem, rfl⟩) fun _ => .pure trivial
      exact (hscan.traced ⟨hy.1, rfl⟩).mono fun _ _ h => h.1.1

theorem holds_trigger (hx : strip x = x) (hs : s.node ∈ ring.members) (o : SetOrder) :
    Holds ring x Look.Reader (RecoveryManager.trigger cfg s o) fun _ => True := by
  have hdetector : ∀ q : Scan Unit, (∀ {B : (o : ScanOp) → Except Exc o.Val → Prop}
      {R : ScanOp → Prop}, (∀ o, (∀ record, o ≠ .retry record) → R o) →
        Does B R q fun _ => True) →
      Holds ring x Look.Reader (expand (ScanOp.program cfg s) q) fun _ => True := fun q hq =>
    .expand (fun o => ∀ record, o ≠ .retry record) (fun _ _ => True)
      (fun o ho => holds_scanOp hx hs o ho) (hq fun _ ho => ho)
  have hscan : Holds ring x Look.Reader (expand (ScanOp.program cfg s) (RecoveryManager.scan o))
      fun _ => True := by
    unfold RecoveryManager.scan
    simp only [expand_bind]
    refine .bind (hdetector _ fun hR => detects_workerCrashes hR o) fun _ _ => ?_
    refine .bind (hdetector _ fun hR => detects_takeUps hR _ _) fun _ _ => ?_
    refine .bind (hdetector _ fun hR => detects_takeUps hR _ _) fun _ _ => ?_
    exact .bind (hdetector _ fun hR => detects_stuckTasks hR) fun _ _ =>
      holds_retryWaitingTasks hx hs
  exact .bind hscan.attempt fun _ _ => .pure trivial

/-! ### Rebalances -/

/-- What the pending records say of the task. -/
structure Pendings (ring : Owned env) (x : String) (s : Service)
    (l : List (String × ResultRecord)) (g : Look) : Prop where
  pending : ∀ e ∈ l, e.2.status = .pending
  /-- A node that moves the task, of which it keeps the record, read no success. -/
  stale : s.node.address = keeper ring x → (∃ e ∈ l, e.1 = x) → g.looked = false

theorem Pendings.nil : Pendings ring x s [] g :=
  ⟨fun _ h => (by cases h), fun _ ⟨_, h, _⟩ => (by cases h)⟩

theorem notes_pendingRecords (keys : List Key) (hg : g.Reader) :
    Notes ring x (pendingRecords s keys) (fun y g' => g'.Reader ∧
      (g.looked = false → g'.looked = false) ∧ ∀ l, y = .ok l → Pendings ring x s l g') g := by
  induction keys generalizing g with
  | nil =>
    refine ⟨hg, id, fun l hl => ?_⟩
    cases hl
    exact .nil
  | cons k keys ih =>
    cases k with
    | result t =>
      refine .act (keeping_of_none rfl) fun value _ => ?_
      generalize hg₁ : g.note (keeper ring x) x (.get s.node.address (.result t)) value = g₁
      have hreader : g₁.Reader := hg₁ ▸ (note_reports g _ value).trans hg
      have hstays : g.looked = false → g₁.looked = false :=
        hg₁ ▸ (note_listed (fun _ h => (by cases h)) g value).2
      refine .bind (ih hreader) (fun rest g' hy => ?_) fun e g' hy =>
        ⟨hy.1, fun h => hy.2.1 (hstays h), fun _ h => (by cases h)⟩
      obtain ⟨hreader', hstays', hpendings⟩ := hy
      have hrest := hpendings rest rfl
      have hskip : Notes ring x (pure rest) (fun y g' => g'.Reader ∧
          (g.looked = false → g'.looked = false) ∧ ∀ l, y = .ok l → Pendings ring x s l g') g' := by
        refine ⟨hreader', fun h => hstays' (hstays h), fun l hl => ?_⟩
        cases hl
        exact hrest
      split
      case h_1 record _ =>
        split_ifs with hpending
        · refine ⟨hreader', fun h => hstays' (hstays h), fun l hl => ?_⟩
          cases hl
          refine ⟨List.forall_mem_cons.2 ⟨hpending, hrest.pending⟩, fun hself => ?_⟩
          rintro ⟨e, he, htask⟩
          rcases List.mem_cons.1 he with rfl | he
          · -- the record of the task was pending
            have hnoted : g.note (keeper ring x) x (.get s.node.address (.result t))
                (some (.result record)) =
                  { g with looked := g.looked && succeeds (some (.result record)) } :=
              if_pos ⟨hself, congrArg Key.result htask⟩
            refine hstays' ?_
            rw [← hg₁, hnoted]
            simp [succeeds, Value.asResult, hpending]
          · exact hrest.stale hself ⟨e, he, htask⟩
        · exact hskip
      case h_2 => exact hskip
    | _ => exact ih hg

/-- The moves write over the success only where none was read. -/
theorem notes_moveAll {l : List (String × ResultRecord)} (hl : Pendings ring x s l g)
    (hg : g.Reader) (target : ℕ) (load : Dict String ℕ) :
    Notes ring x (moveAll s target l load) (fun _ g' => g'.Reader) g := by
  have hmoves : ∀ c, (c = true → ∀ e ∈ l, ¬(s.node.address = keeper ring x ∧ e.1 = x)) →
      Does (Told ring) (Backed ring x c) (moveAll s target l load) fun _ => True := by
    intro c hc
    refine placing_backed.moveAll law_trivial.toUpdateLaw _ _ _ fun e he =>
      ⟨hl.pending e he, trivial, fun v _ => ⟨fun _ h => (by cases h), fun u hu hsure => ?_⟩⟩
    obtain ⟨haddress, htask, -⟩ : s.node.address = keeper ring x ∧ e.1 = x ∧ v = u := by
      simpa [Op.writes] using hu
    exact absurd ⟨haddress, htask⟩ (hc hsure e he)
  by_cases hself : s.node.address = keeper ring x ∧ ∃ e ∈ l, e.1 = x
  · have hstale : g.Stale g.listed :=
      ⟨⟨hg, rfl⟩, by rw [hl.stale hself.1 hself.2, Bool.and_false]⟩
    exact ((holds_stale (hmoves false fun h => (by cases h))).traced hstale).mono
      fun y g' hy => hy.1.1.1
  · exact ((holds_reader (hmoves true fun _ e he h => hself ⟨h.1, e, he, h.2⟩)).traced hg).mono
      fun y g' hy => hy.1

theorem holds_doRebalance : Holds ring x Look.Reader (doRebalance s) fun _ => True := by
  refine .of_traced fun g hg => .act (keeping_of_none rfl) fun live _ => ?_
  have hg₁ := (note_reports (a := keeper ring x) (x := x) g
    (.registry s.node.address .liveWorkers) live).trans hg
  split_ifs
  · exact ⟨hg₁⟩
  · refine .act (keeping_of_none rfl) fun items _ => ?_
    refine .bind (notes_pendingRecords _ ((note_reports _ _ _).trans hg₁)) (fun l g' hy => ?_)
      fun e g' hy => hy.1
    split_ifs
    · exact ⟨hy.1⟩
    · exact .bind (notes_moveAll (hy.2.2 l rfl) hy.1 _ _) (fun _ g' hg' => ⟨hg'⟩)
        fun _ g' hg' => hg'

/-! ### Requests and reports -/

/-- The status that a report names. -/
def reportOf (status : Json) : Option Status := (reportedStatus status).toOption.join

/-- A report writes what it reports. -/
theorem holds_resultComplete (taskId : String) (status result : Json) :
    Holds ring x (fun g => g.reports = reportOf status)
      (resultComplete s taskId status result) fun _ => True := by
  have hp : Does (Told ring) (Backed ring x (reportOf status ≠ some .failure))
      (resultComplete s taskId status result) fun _ => True := by
    refine placing_backed.completes fun st r now hst _ => backed_put fun _ hnot => ?_
    have hreport : reportOf status = some st := by
      rw [reportOf, hst]
      rfl
    refine (ends_of_reported hst).resolve_right fun hfailure => ?_
    rw [hreport, hfailure] at hnot
    simp at hnot
  refine holds_backed hp (fun g hg hknows => ?_) fun g o r hg _ => (note_reports g o r).trans hg
  by_contra hnot
  have hfailure : g.reports = some .failure := hg.trans (by simpa using hnot)
  rw [Look.knows, hfailure] at hknows
  cases hknows

/-- A request for a task was shown no listing, and knows of nothing. -/
theorem holds_createTask (body : Fields) :
    Holds ring x (Look.Scanning false) (createTask cfg s body) fun _ => True := by
  have hdeletes : ∀ o a y, o.deletes = some (a, .result y) → Backed ring x false o := by
    refine fun o a y ho => backed_of (fun c hc => ?_) fun c y v hw => ?_
    · rw [hc] at ho
      cases ho
    · rw [Op.deletes_of_writes hw] at ho
      cases ho
  exact holds_scanning (placing_backed.createTask law_trivial.toHandlerLaw rfl
    (fun record _ => placing_backed.assign hdeletes record) body)

theorem holds_heartbeat (workerId : String) (pendingTasks : ℤ) (timestamp : Option ℤ)
    (processToken : Option String) :
    Holds ring x Look.Reader (heartbeat s workerId pendingTasks timestamp processToken)
      fun _ => True :=
  holds_reader (.ite (fun _ => .pure trivial) fun _ =>
    .bind (.step (backed_of (fun _ h => (by cases h)) fun _ _ _ h => (by cases h))) fun _ _ =>
      .pure trivial)

theorem holds_killWorker (workerId : String) :
    Holds ring x Look.Reader (killWorker s workerId) fun _ => True :=
  holds_reader (.bind (.step (backed_of (fun _ h => (by cases h)) fun _ _ _ h => (by cases h)))
    fun _ _ => .step (backed_manager _ _))

theorem holds_cleanup (workerId taskId : String) :
    Holds ring x Look.Reader (cleanup s workerId taskId) fun _ => True :=
  holds_reader (placing_backed.cleanup workerId taskId)

end Programs

/-! ### Runs -/

section Runs

variable {env : Env} (ring : Owned env) (x : String)

/-- The servers at work, with what their programs are shown of one task. -/
def looking : System Op Op.Res Exc Unit Look World where
  handle := handle env
  enabled := enabled
  note := Look.note (keeper ring x) x
  launch _ := none

/-- What comes in at the members.  A thread that a handler starts comes in as well, and so at
any time. -/
inductive Arrives : Thread Op Op.Res Exc Unit Look → Prop
  | create (cfg : Config) (s : Service) (body : Fields) (hs : s.node ∈ ring.members) :
      Arrives ⟨.first none, quietly (createTask cfg s body)⟩
  | report (s : Service) (taskId : String) (status result : Json) (hs : s.node ∈ ring.members) :
      Arrives ⟨.first (reportOf status), quietly (resultComplete s taskId status result)⟩
  | scan (cfg : Config) (s : Service) (o : SetOrder) (hs : s.node ∈ ring.members) :
      Arrives ⟨.first none, RecoveryManager.trigger cfg s o⟩
  | rebalance (s : Service) (hs : s.node ∈ ring.members) :
      Arrives ⟨.first none, quietly (doRebalance s)⟩
  | afterSpawn (s : Service) (hs : s.node ∈ ring.members) :
      Arrives ⟨.first none, rebalanceAfterSpawn s⟩
  | cleanup (s : Service) (workerId taskId : String) (hs : s.node ∈ ring.members) :
      Arrives ⟨.first none, cleanup s workerId taskId⟩
  | heartbeat (s : Service) (workerId : String) (pendingTasks : ℤ) (timestamp : Option ℤ)
      (processToken : Option String) (hs : s.node ∈ ring.members) :
      Arrives ⟨.first none, quietly (heartbeat s workerId pendingTasks timestamp processToken)⟩
  | kill (s : Service) (workerId : String) (hs : s.node ∈ ring.members) :
      Arrives ⟨.first none, killWorker s workerId⟩

/-- The owner's record of the task says that it succeeded. -/
def Succeeded (w : World) : Prop :=
  succeeds ((w.stores (keeper ring x)).get (.result x)) = true

instance (w : World) : Decidable (Succeeded ring x w) := inferInstanceAs (Decidable (_ = _))

/-- The operation writes the owner's record of the task. -/
def Rewrites (o : Op) : Prop :=
  (o.writes.map fun e => (e.1, e.2.1)) = some (keeper ring x, .result x)

instance (o : Op) : Decidable (Rewrites ring x o) := inferInstanceAs (Decidable (_ = _))

/-- While the task has succeeded, its record is written only by a program that knows it. -/
def Informed (ι : Type) : Cond ι Op Look World := fun γ w i o =>
  Succeeded ring x w → Rewrites ring x o → (γ i).any Look.knows = true

/-- The record is not deleted. -/
def Undeleted (ι : Type) : Cond ι Op Look World := fun _ _ _ o =>
  o.deletes ≠ some (keeper ring x, .result x)

/-- The record is written by who knows of the success, and is not deleted. -/
def Careful (ι : Type) : Cond ι Op Look World := fun γ w i o =>
  Informed ring x ι γ w i o ∧ Undeleted ring x ι γ w i o

/-- A run from the beginning, of any steps. -/
abbrev Works (ι : Type) [DecidableEq ι] (c : Pool ι Op Op.Res Exc Unit Look World) : Prop :=
  Steps (looking ring x) (Arrives ring) (fun _ _ _ _ => True) ⟨fun _ => none, World.empty⟩ c

variable {ring x}

/-- What a thread may do at any time: what its looks allow, and what every record satisfies. -/
def Allowed (ring : Owned env) (x : String) (g : Look) (o : Op) : Prop :=
  Keeping ring x g o ∧ Writes Owns o

theorem arrives_allowed (hx : strip x = x) {t : Thread Op Op.Res Exc Unit Look}
    (ht : Arrives ring t) :
    wp (Look.note (keeper ring x) x) (Told ring) (Allowed ring x) t.rest (fun _ _ => True)
      t.ghost := by
  have hworking := working_writes owns_worker law_owns
  have hboth : ∀ {I : Look → Prop} {p : M Unit} {g : Look}, Holds ring x I p (fun _ => True) →
      I g → Runs (Granted Owns) (Writes Owns) p →
      wp (Look.note (keeper ring x) x) (Told ring) (Allowed ring x) p (fun _ _ => True) g :=
    fun hp hg howns => wp_mono (fun _ _ _ => trivial)
      (howns.wp_and (fun _ _ => told_granted) (hp.holds _ hg))
  have hquiet : ∀ {I : Look → Prop} {α : Type} {p : M α}, Holds ring x I p (fun _ => True) →
      Holds ring x I (quietly p) fun _ => True :=
    fun hp => .bind hp.attempt fun _ _ => .pure trivial
  cases ht with
  | create cfg s body hs =>
    exact hboth (hquiet (holds_createTask body)) ⟨rfl, rfl⟩
      (hworking.activity law_owns (.create cfg s body))
  | report s taskId status result hs =>
    exact hboth (hquiet (holds_resultComplete taskId status result)) rfl
      (hworking.activity law_owns (.report s taskId status result))
  | scan cfg s o hs =>
    exact hboth (holds_trigger hx hs o) rfl (hworking.activity law_owns (.scan cfg s o))
  | rebalance s hs =>
    exact hboth (hquiet holds_doRebalance) rfl (hworking.activity law_owns (.rebalance s))
  | afterSpawn s hs =>
    exact hboth (.bind holds_doRebalance.attempt fun _ _ => .pure trivial) rfl
      (hworking.job law_owns (fun _ => s) (.rebalance s.node))
  | cleanup s w t hs => exact hboth (holds_cleanup w t) rfl (hworking.cleanup w t)
  | heartbeat s w n time token hs =>
    exact hboth (hquiet (holds_heartbeat w n time token)) rfl
      (hworking.activity law_owns (.heartbeat s w n time token))
  | kill s w hs => exact hboth (holds_killWorker w) rfl (hworking.killWorker w)

/-- The answers that the members get. -/
theorem told_handle {o : Op} {w : World} (hw : Kept Owns w) (ho : Writes Owns o) :
    Told ring o (handle env o w).1 ∧ Kept Owns (handle env o w).2 := by
  have hboth : Granted Owns o (handle env o w).1 ∧ Kept Owns (handle env o w).2 :=
    kept_handle hw ho
  refine ⟨?_, hboth.2⟩
  cases o with
  | findSuccessor a k =>
    rintro ⟨m, hm, rfl⟩
    exact ring.findSuccessor_eq _ m hm k
  | _ => exact hboth.1

/-- A step of a program that knows of the success, or does not write over it. -/
theorem succeeded_handle {o : Op} {w : World} {g : Look} (hw : Succeeded ring x w)
    (ho : Keeping ring x g o) (hknows : Rewrites ring x o → g.knows = true)
    (hdelete : o.deletes ≠ some (keeper ring x, .result x)) :
    Succeeded ring x (handle env o w).2 := by
  obtain ⟨d, -, ⟨v, hwrite, -, hget⟩ | ⟨herased, -⟩ | ⟨-, -, hget⟩⟩ :=
    handle_get env o w (keeper ring x) (.result x)
  · rw [Succeeded, hget]
    exact ho v hwrite (hknows (by rw [Rewrites, hwrite]; rfl))
  · exact absurd herased.1 hdelete
  · rw [Succeeded, hget]
    exact hw

variable {ι : Type} [DecidableEq ι] {cond : Cond ι Op Look World}
  {c c' : Pool ι Op Op.Res Exc Unit Look World}

/-- What every operation that is allowed keeps holds throughout a run. -/
theorem looking_sound (hx : strip x = x) {J : World → Prop}
    (hJ : ∀ γ w i g o, Kept Owns w → J w → γ i = some g → Allowed ring x g o → cond γ w i o →
      J (handle env o w).2)
    (hrun : Steps (looking ring x) (Arrives ring) cond c c')
    (hc : Sound (looking ring x) (Told ring) (Allowed ring x) (fun _ _ => True)
      (fun _ w => Kept Owns w ∧ J w) c) :
    Sound (looking ring x) (Told ring) (Allowed ring x) (fun _ _ => True)
      (fun _ w => Kept Owns w ∧ J w) c' := by
  refine Steps.sound ⟨?_, fun o t ht => (by cases ht), fun γ w i t hw _ _ => hw,
    fun t ht => arrives_allowed hx ht⟩ hrun hc
  intro γ w i slot g o hw hi ho _ hcond _
  have htold : Told ring o (handle env o w).1 ∧ Kept Owns (handle env o w).2 :=
    told_handle hw.1 ho.2
  exact ⟨htold.1, htold.2, hJ γ w i g o hw.1 hw.2 hi ho hcond⟩

/-- **A task that succeeded stays so** in every run in which only programs that know of the
success write its record, until the record is deleted. -/
theorem success_stays (ring : Owned env) (taskId : String) (hrun : Works ring (strip taskId) ι c)
    (hsuccess : Succeeded ring (strip taskId) c.world)
    (hrun' : Steps (looking ring (strip taskId)) (Arrives ring) (Careful ring (strip taskId) ι)
      c c') :
    Succeeded ring (strip taskId) c'.world := by
  have hx := strip_strip taskId
  have hempty : Kept Owns World.empty := fun _ _ _ h => (by cases h)
  have hc := looking_sound hx (J := fun _ => True) (fun _ _ _ _ _ _ _ _ _ _ => trivial) hrun
    ⟨fun i t hi => (by cases hi), hempty, trivial⟩
  refine (looking_sound hx (fun γ w i g o _ hw hi ho hcond => ?_) hrun'
    ⟨hc.threads, hc.world.1, hsuccess⟩).world.2
  refine succeeded_handle hw ho.1 (fun hrewrites => ?_) hcond.2
  have hknows := hcond.1 hw hrewrites
  rwa [hi] at hknows

instance (ι : Type) (γ : ι → Option Look) (w : World) (i : ι) (o : Op) :
    Decidable (Informed ring x ι γ w i o) := inferInstanceAs (Decidable (_ → _ → _))

instance (ι : Type) (γ : ι → Option Look) (w : World) (i : ι) (o : Op) :
    Decidable (Undeleted ring x ι γ w i o) := inferInstanceAs (Decidable (_ ≠ _))

instance (ι : Type) (γ : ι → Option Look) (w : World) (i : ι) (o : Op) :
    Decidable (Careful ring x ι γ w i o) := inferInstanceAs (Decidable (_ ∧ _))

end Runs

namespace OneNode

/-- The node owns every key. -/
def owned : Owned (env 0) := (ring 0 fun _ => .delivered).toOwned

/-- A thread comes in and takes `n` steps. -/
def turns (i : ℕ) (t : Thread Op Op.Res Exc Unit Look) (n : ℕ) :
    List (Event ℕ Op Op.Res Exc Unit Look) := .enter i t :: List.replicate n (.act i i)

/-- A report on the task `t`. -/
def reports (status : String) : Thread Op Op.Res Exc Unit Look :=
  ⟨.first (reportOf (.str status)), quietly (resultComplete services "t" (.str status) .null)⟩

/-- The task `t` is created for the worker `w`, which does not answer; a scan queues it to the
worker `v`, which reports that it succeeded. -/
def retried : List (Event ℕ Op Op.Res Exc Unit Look) :=
  turns 0 ⟨.first none, quietly (beat "v")⟩ 1 ++
  turns 1 ⟨.first none, quietly (create "t" (some "w"))⟩ 14 ++
  turns 2 ⟨.first none, scan⟩ 31 ++ turns 3 (reports "SUCCESS") 8

/-- The world before anything came in. -/
def unseen : Pool ℕ Op Op.Res Exc Unit Look World := ⟨fun _ => none, World.empty⟩

theorem arrives_turns {i j : ℕ} {t t' : Thread Op Op.Res Exc Unit Look} {n : ℕ}
    (h : .enter i t ∈ turns j t' n) : t = t' := by
  simp only [turns, List.mem_cons, Event.enter.injEq, List.mem_replicate, reduceCtorEq, and_false,
    or_false] at h
  exact h.2

theorem arrives_reports (status : String) : Arrives owned (reports status) := .report _ _ _ _ rfl

theorem arrives_retried {i : ℕ} {t : Thread Op Op.Res Exc Unit Look} (h : .enter i t ∈ retried) :
    Arrives owned t := by
  simp only [retried, List.mem_append] at h
  rcases h with ((h | h) | h) | h
  · exact arrives_turns h ▸ .heartbeat services "v" 0 none none rfl
  · exact arrives_turns h ▸ .create config services (body "t" (some "w")) rfl
  · exact arrives_turns h ▸ .scan config services order rfl
  · exact arrives_turns h ▸ arrives_reports _

/-- The hypotheses of `success_stays` are satisfiable: the report of the success arrives once
more. -/
theorem success_stays_again : ∃ c c' : Pool ℕ Op Op.Res Exc Unit Look World,
    Works owned (strip "t") ℕ c ∧
      Steps (looking owned (strip "t")) (Arrives owned) (Careful owned (strip "t") ℕ) c c' ∧
      c'.world.trace.length = c.world.trace.length + 8 ∧
      Succeeded owned (strip "t") c'.world := by
  have hrun : (unseen.steps (looking owned (strip "t")) (fun _ _ _ _ => True) retried).bind
      (fun c => (c.steps (looking owned (strip "t")) (Careful owned (strip "t") ℕ)
        (turns 4 (reports "SUCCESS") 8)).map fun c' =>
          decide (Succeeded owned (strip "t") c.world) &&
          decide (c'.world.trace.length = c.world.trace.length + 8)) = some true := by
    decide +kernel
  obtain ⟨c, hc, hrest⟩ := Option.bind_eq_some_iff.1 hrun
  obtain ⟨c', hc', hfacts⟩ := Option.map_eq_some_iff.1 hrest
  simp only [Bool.and_eq_true, decide_eq_true_eq] at hfacts
  have hworks : Works owned (strip "t") ℕ c := .of_steps (fun i t ht => arrives_retried ht) hc
  have hagain : Steps (looking owned (strip "t")) (Arrives owned) (Careful owned (strip "t") ℕ)
      c c' := .of_steps (fun i t ht => arrives_turns ht ▸ arrives_reports _) hc'
  exact ⟨c, c', hworks, hagain, hfacts.2, success_stays owned "t" hworks hfacts.1 hagain⟩

/-- **The worker that did not answer reports a failure**, and the task that succeeded has
failed. -/
theorem success_lost : ∃ c c' : Pool ℕ Op Op.Res Exc Unit Look World,
    Works owned (strip "t") ℕ c ∧ Succeeded owned (strip "t") c.world ∧
      Steps (looking owned (strip "t")) (Arrives owned) (Undeleted owned (strip "t") ℕ) c c' ∧
      record c'.world "t" = some (.failure, "v", 1, [.retryDifferent "v"]) ∧
      ¬Succeeded owned (strip "t") c'.world := by
  have hrun : (unseen.steps (looking owned (strip "t")) (fun _ _ _ _ => True) retried).bind
      (fun c => (c.steps (looking owned (strip "t")) (Undeleted owned (strip "t") ℕ)
        (turns 4 (reports "FAILURE") 7)).map fun c' =>
          decide (Succeeded owned (strip "t") c.world) &&
          decide (record c'.world "t" = some (.failure, "v", 1, [.retryDifferent "v"]) ∧
            ¬Succeeded owned (strip "t") c'.world)) = some true := by
    decide +kernel
  obtain ⟨c, hc, hrest⟩ := Option.bind_eq_some_iff.1 hrun
  obtain ⟨c', hc', hfacts⟩ := Option.map_eq_some_iff.1 hrest
  simp only [Bool.and_eq_true, decide_eq_true_eq] at hfacts
  exact ⟨c, c', .of_steps (fun i t ht => arrives_retried ht) hc, hfacts.1,
    .of_steps (fun i t ht => arrives_turns ht ▸ arrives_reports _) hc', hfacts.2⟩

end OneNode

end Server
end ChordInfra
