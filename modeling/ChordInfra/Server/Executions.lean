/-
# The executions of a worker process

What holds at every moment of a worker process, however its threads take turns
and whatever the frontend answers: which tasks are in the in-flight set, how
many executions there are, and which tasks they are of (`executions_bounded`).

Each id of the in-flight set is held by one thread, the execution of the task or
the main thread that has marked it and not yet submitted it
(`Interact.Holding`).  The main thread marks an id only when it has found it
unseen and the set not full, and between that and the mark ids only leave the
set.
-/

import ChordInfra.Server.WorkerProcess
import ChordInfra.Interact.Holding
import ChordInfra.Interact.Triple

namespace ChordInfra
namespace Server
namespace WorkerProcess

open Interact Prog
open Storage (Json ExecutionResult)
open Workers (Memory)

/-- The id that a thread has in the in-flight set. -/
def Stage.held : Stage → Option String
  | .idle => none
  | .marked taskId | .inline taskId => some taskId

def Role.held : Role → Option String
  | .main g => g.stage.held
  | .execution taskId released => if released then none else some taskId
  | .heartbeats => none

/-- The task of which a record was read, with a status to be executed. -/
def Main.Due (g : Main) (taskId : String) : Prop :=
  ∃ st, g.lastRead taskId = some st ∧ passedOver st = false

/-- What the main thread may do. -/
def Main.Allows (concurrency : ℕ) (g : Main) : Op → Prop
  | .memory (.full k) => k = concurrency
  | .memory (.begin taskId) => g.stage = .idle ∧ g.pooled = false ∧
      (g.check = .fresh taskId ∨ g.check = .claimed taskId) ∧ g.Due taskId
  | .memory (.finish taskId) => g.stage = .inline taskId
  | .mark taskId => g.stage = .idle ∧ g.check = .fresh taskId ∧ g.room = true ∧ g.Due taskId
  | .submit taskId _ => g.stage = .marked taskId ∧ g.Due taskId
  | _ => True

/-- What a thread may do.  The main thread submits at once what it has marked. -/
def Allowed (concurrency : ℕ) : Role → Op → Prop
  | .main g, o => g.Allows concurrency o ∧
      ∀ taskId, g.stage = .marked taskId → ∃ record, o = .submit taskId record
  | .execution taskId released, .memory (.begin t) | .execution taskId released, .memory (.finish t) =>
    t = taskId ∧ released = false
  | .execution .., .execute .. | .execution .., .complete .. => True
  | .heartbeats, .stopped | .heartbeats, .memory .pending | .heartbeats, .heartbeat _ => True
  | _, _ => False

/-! ### What holds throughout a run -/

/-- What the main thread has found out of a task still holds. -/
def Check.Fits (m : Memory) : Check → Prop
  | nothing => True
  | unseen taskId => taskId ∉ m.seen
  | fresh taskId => taskId ∈ m.seen ∧ taskId ∉ m.inflight
  | claimed taskId => taskId ∈ m.seen

variable {ι : Type} {γ : ι → Option Role} {m m' : Memory} {g g' : Main} {c : ℕ} {i j i₀ slot : ι}
  {taskId : String}

/-- What the main thread knows still holds. -/
structure Main.Fits (c : ℕ) (γ : ι → Option Role) (m : Memory) (g : Main) : Prop where
  room : g.room = true → m.inflight.length < c
  alone : g.pooled = false → ∀ i taskId released, γ i ≠ some (.execution taskId released)
  check : g.check.Fits m

/-- The ids that the threads have in the in-flight set. -/
def heldBy (γ : ι → Option Role) (i : ι) : Option String := (γ i).bind Role.held

/-- What the threads have done, and the state of the process. -/
structure Inv (i₀ : ι) (c : ℕ) (γ : ι → Option Role) (m : Memory) : Prop where
  owner : ∀ i g, γ i = some (.main g) → i = i₀
  holding : Holding (heldBy γ) m.inflight
  bound : m.inflight.length ≤ c
  seen : ∀ t ∈ m.inflight, t ∈ m.seen
  main : ∀ i g, γ i = some (.main g) → g.Fits c γ m

theorem Check.Fits.mono {check : Check} (h : check.Fits m) (hseen : m'.seen = m.seen)
    (hinflight : ∀ t ∈ m'.inflight, t ∈ m.inflight) : check.Fits m' := by
  cases check with
  | nothing => trivial
  | unseen t => exact fun hmem => h (hseen ▸ hmem)
  | fresh t => exact ⟨hseen ▸ h.1, fun hmem => h.2 (hinflight t hmem)⟩
  | claimed t => exact (hseen ▸ h : t ∈ m'.seen)

variable [DecidableEq ι]

theorem heldBy_update (γ : ι → Option Role) (i : ι) (r : Role) :
    heldBy (Function.update γ i (some r)) = Function.update (heldBy γ) i r.held := by
  funext j
  unfold heldBy
  by_cases hj : j = i
  · subst hj
    rw [Function.update_self, Function.update_self]
    rfl
  · rw [Function.update_of_ne hj, Function.update_of_ne hj]

omit [DecidableEq ι] in
theorem heldBy_of {r : Role} (hi : γ i = some r) : heldBy γ i = r.held := by
  unfold heldBy
  rw [hi]
  rfl

/-- A thread that is no main thread before and after, in the place of another. -/
theorem owner_update {r : Role} (h : ∀ i g, γ i = some (.main g) → i = i₀)
    (hr : ∀ g, r = .main g → i = i₀) :
    ∀ j g, Function.update γ i (some r) j = some (.main g) → j = i₀ := by
  intro j g hj
  by_cases hji : j = i
  · subst hji
    rw [Function.update_self] at hj
    exact hr g (Option.some.inj hj)
  · rw [Function.update_of_ne hji] at hj
    exact h j g hj

theorem alone_update {r : Role} (h : ∀ i taskId released, γ i ≠ some (.execution taskId released))
    (hr : ∀ taskId released, r ≠ .execution taskId released) :
    ∀ j taskId released, Function.update γ i (some r) j ≠ some (.execution taskId released) := by
  intro j taskId released hj
  by_cases hji : j = i
  · subst hji
    rw [Function.update_self] at hj
    exact hr taskId released (Option.some.inj hj)
  · rw [Function.update_of_ne hji] at hj
    exact h j taskId released hj

/-- When another thread acted, the main thread was there. -/
theorem main_of_update {r : Role} (hr : ∀ g, r ≠ .main g)
    (hj : Function.update γ i (some r) j = some (.main g)) : γ j = some (.main g) := by
  by_cases hji : j = i
  · rw [hji, Function.update_self] at hj
    exact (hr g (Option.some.inj hj)).elim
  · rwa [Function.update_of_ne hji] at hj

/-- When the main thread acted, it is the main thread. -/
theorem Inv.main_eq (h : Inv i₀ c γ m) (hi : γ i = some (.main g)) {g₁ : Main}
    (hj : Function.update γ i (some (.main g')) j = some (.main g₁)) : j = i ∧ g' = g₁ := by
  have hji : j = i := by
    rw [owner_update h.owner (fun _ _ => h.owner i g hi) j g₁ hj, h.owner i g hi]
  rw [hji, Function.update_self] at hj
  exact ⟨hji, Role.main.inj (Option.some.inj hj)⟩

/-- The main thread knows something else, and may have seen a task. -/
theorem Inv.learn (h : Inv i₀ c γ m) (hi : γ i = some (.main g)) (hstage : g'.stage = g.stage)
    (hpooled : g'.pooled = g.pooled) (hinflight : m'.inflight = m.inflight)
    (hseen : ∀ t ∈ m.seen, t ∈ m'.seen) (hroom : g'.room = true → m.inflight.length < c)
    (hcheck : g'.check.Fits m') : Inv i₀ c (Function.update γ i (some (.main g'))) m' := by
  have hheld : heldBy (Function.update γ i (some (.main g'))) = heldBy γ := by
    rw [heldBy_update]
    refine Function.update_eq_self_iff.2 ?_
    rw [heldBy_of hi]
    exact congrArg Stage.held hstage
  refine ⟨owner_update h.owner fun _ _ => h.owner i g hi, ?_, hinflight ▸ h.bound,
    fun t ht => hseen t (h.seen t (hinflight ▸ ht)), fun j g₁ hj => ?_⟩
  · rw [hheld, hinflight]
    exact h.holding
  · obtain ⟨rfl, rfl⟩ := h.main_eq hi hj
    refine ⟨fun hr => hinflight ▸ hroom hr, fun hp => ?_, hcheck⟩
    exact alone_update ((h.main j g hi).alone (hpooled ▸ hp)) (by rintro _ _ ⟨⟩)

/-- The main thread, which holds nothing, takes an id that nobody holds. -/
theorem Inv.take (h : Inv i₀ c γ m) (hi : γ i = some (.main g)) (hidle : g.stage = .idle)
    (hheld : g'.stage.held = some taskId) (hpooled : g'.pooled = g.pooled)
    (hcheck : g'.check = .nothing) (hroom : g'.room = false) (hfree : taskId ∉ m.inflight)
    (hseen : taskId ∈ m.seen) (hlength : m.inflight.length < c) :
    Inv i₀ c (Function.update γ i (some (.main g')))
      { m with inflight := Memory.add taskId m.inflight } := by
  have hadd : Memory.add taskId m.inflight = taskId :: m.inflight := if_neg hfree
  have hnone : heldBy γ i = none := by
    rw [heldBy_of hi]
    exact congrArg Stage.held hidle
  refine ⟨owner_update h.owner fun _ _ => h.owner i g hi, ?_, ?_, ?_, fun j g₁ hj => ?_⟩
  · rw [heldBy_update, show (Role.main g').held = some taskId from hheld]
    dsimp only
    rw [hadd]
    exact h.holding.take hnone hfree
  · dsimp only
    rw [hadd]
    exact hlength
  · intro t ht
    rcases Memory.mem_add.1 ht with rfl | ht
    · exact hseen
    · exact h.seen t ht
  · obtain ⟨rfl, rfl⟩ := h.main_eq hi hj
    refine ⟨fun hr => ?_, fun hp => ?_, ?_⟩
    · rw [hroom] at hr
      cases hr
    · exact alone_update ((h.main j g hi).alone (hpooled ▸ hp)) (by rintro _ _ ⟨⟩)
    · rw [hcheck]
      trivial

omit [DecidableEq ι] in
/-- What the main thread knows when an id leaves the set. -/
theorem Main.Fits.drop (h : g.Fits c γ m) (taskId : String) :
    g.Fits c γ { m with inflight := m.inflight.filter fun t => t ≠ taskId } where
  room hr := (List.length_filter_le _ _).trans_lt (h.room hr)
  alone := h.alone
  check := h.check.mono rfl fun _ ht => List.mem_of_mem_filter ht

/-- A thread puts its id back. -/
theorem Inv.drop {r r' : Role} (h : Inv i₀ c γ m) (hi : γ i = some r)
    (hheld : r.held = some taskId) (hnone : r'.held = none)
    (howner : ∀ g, r' = .main g → i = i₀)
    (hmain : ∀ j g, Function.update γ i (some r') j = some (.main g) →
      g.Fits c (Function.update γ i (some r')) m) :
    Inv i₀ c (Function.update γ i (some r'))
      { m with inflight := m.inflight.filter fun t => t ≠ taskId } := by
  refine ⟨owner_update h.owner howner, ?_, (List.length_filter_le _ _).trans h.bound,
    fun t ht => h.seen t (List.mem_of_mem_filter ht), fun j g hj => (hmain j g hj).drop taskId⟩
  rw [heldBy_update, hnone]
  exact h.holding.drop ((heldBy_of hi).trans hheld)

/-- The main thread has executed a task itself. -/
theorem Inv.finishInline (h : Inv i₀ c γ m) (hi : γ i = some (.main g))
    (hstage : g.stage = .inline taskId) :
    Inv i₀ c (Function.update γ i (some (.main { g with stage := .idle })))
      { m with inflight := m.inflight.filter fun t => t ≠ taskId } := by
  refine h.drop hi (congrArg Stage.held hstage) rfl (fun _ _ => h.owner i g hi) fun j g₁ hj => ?_
  obtain ⟨rfl, rfl⟩ := h.main_eq hi hj
  have hfits := h.main j g hi
  exact ⟨hfits.room, fun hp => alone_update (hfits.alone hp) (by rintro _ _ ⟨⟩), hfits.check⟩

/-- An execution in the pool is over. -/
theorem Inv.finish (h : Inv i₀ c γ m) (hi : γ i = some (.execution taskId false)) :
    Inv i₀ c (Function.update γ i (some (.execution taskId true)))
      { m with inflight := m.inflight.filter fun t => t ≠ taskId } := by
  refine h.drop hi rfl rfl (by rintro _ ⟨⟩) fun j g hj => ?_
  have hfits := h.main j g (main_of_update (by rintro _ ⟨⟩) hj)
  exact ⟨hfits.room, fun hp => absurd hi (hfits.alone hp i taskId false), hfits.check⟩

/-- The main thread hands an id over to the execution that it submits. -/
theorem Inv.submit (h : Inv i₀ c γ m) (hi : γ i = some (.main g))
    (hstage : g.stage = .marked taskId) (hslot : γ slot = none) :
    Inv i₀ c (Function.update (Function.update γ i
      (some (.main { g with stage := .idle, pooled := true }))) slot
        (some (.execution taskId false))) m := by
  have hheld : heldBy γ i = some taskId := (heldBy_of hi).trans (congrArg Stage.held hstage)
  have hnone : heldBy γ slot = none := by
    unfold heldBy
    rw [hslot]
    rfl
  refine ⟨owner_update (owner_update h.owner fun _ _ => h.owner i g hi) (by rintro _ ⟨⟩), ?_,
    h.bound, h.seen, fun j g₁ hj => ?_⟩
  · rw [heldBy_update, heldBy_update]
    exact h.holding.pass hheld hnone
  · obtain ⟨rfl, rfl⟩ := h.main_eq hi (main_of_update (by rintro _ ⟨⟩) hj)
    exact ⟨(h.main j g hi).room, (by rintro ⟨⟩), (h.main j g hi).check⟩

/-- A heartbeat thread comes in. -/
theorem Inv.enter (h : Inv i₀ c γ m) (hi : γ i = none) :
    Inv i₀ c (Function.update γ i (some .heartbeats)) m := by
  have hheld : heldBy (Function.update γ i (some .heartbeats)) = heldBy γ := by
    rw [heldBy_update]
    refine Function.update_eq_self_iff.2 ?_
    unfold heldBy
    rw [hi]
    rfl
  refine ⟨owner_update h.owner (by rintro _ ⟨⟩), hheld ▸ h.holding, h.bound, h.seen,
    fun j g hj => ?_⟩
  have hfits := h.main j g (main_of_update (by rintro _ ⟨⟩) hj)
  exact ⟨hfits.room, fun hp => alone_update (hfits.alone hp) (by rintro _ _ ⟨⟩), hfits.check⟩

/-- A thread that learns nothing leaves everything as it is. -/
theorem Inv.stay {r : Role} (h : Inv i₀ c γ m) (hi : γ i = some r) :
    Inv i₀ c (Function.update γ i (some r)) m := by
  rw [← hi, Function.update_eq_self]
  exact h

omit [DecidableEq ι] in
/-- Before anything is submitted an idle main thread has the set to itself. -/
theorem Inv.inflight_nil (h : Inv i₀ c γ m) (hi : γ i = some (.main g)) (hidle : g.stage = .idle)
    (hpooled : g.pooled = false) : m.inflight = [] := by
  refine List.eq_nil_iff_forall_not_mem.2 fun t ht => ?_
  obtain ⟨j, hj⟩ := (h.holding.mem_iff t).1 ht
  obtain ⟨r, hr, hheld⟩ := Option.bind_eq_some_iff.1 hj
  cases r with
  | main g₁ =>
    have hji : j = i := (h.owner j g₁ hr).trans (h.owner i g hi).symm
    subst hji
    obtain rfl : g = g₁ := Role.main.inj (Option.some.inj (hi.symm.trans hr))
    rw [Role.held, hidle] at hheld
    cases hheld
  | execution t' released => exact (h.main i g hi).alone hpooled j t' released hr
  | heartbeats => cases hheld

/-! ### A step -/

variable {answers : Answers} {w : World} {r : Role} {o : Op}

/-- What holds after an operation. -/
abbrev After (answers : Answers) (i₀ : ι) (c : ℕ) (γ : ι → Option Role) (w : World) (i slot : ι)
    (r : Role) (o : Op) : Prop :=
  Inv i₀ c (Pool.place (Function.update γ i (some (r.note o (handle answers o w).1))) slot
    (((system answers).launch o).map Thread.ghost)) (handle answers o w).2.memory

/-- The main thread tests or updates the state. -/
theorem Inv.main_memory (hc : 1 ≤ c) (h : Inv i₀ c γ w.memory) (hi : γ i = some (.main g))
    (call : Memory.Call) (hP : g.Allows c (.memory call)) :
    After answers i₀ c γ w i slot (.main g) (.memory call) := by
  have hfits := h.main i g hi
  cases call with
  | full k =>
    obtain rfl : k = c := hP
    refine h.learn hi rfl rfl rfl (fun _ ht => ht) (fun hroom => ?_) hfits.check
    have hanswer : (!decide (k ≤ w.memory.inflight.length)) = true := hroom
    exact Nat.lt_of_not_le (by simpa using hanswer)
  | see t =>
    refine h.learn hi rfl rfl rfl (fun _ ht => Memory.mem_add.2 (.inr ht)) hfits.room ?_
    have hmem : t ∈ Memory.add t w.memory.seen := Memory.mem_add.2 (.inl rfl)
    dsimp only
    split_ifs with hcheck
    · refine ⟨hmem, fun hin => ?_⟩
      have hunseen := hfits.check
      rw [hcheck] at hunseen
      exact hunseen (h.seen t hin)
    · exact hmem
  | hasSeen t =>
    refine h.learn hi rfl rfl rfl (fun _ ht => ht) hfits.room ?_
    dsimp only
    split_ifs with hseen
    · trivial
    · exact fun hin => hseen (decide_eq_true hin)
  | begin t =>
    obtain ⟨hidle, hpooled, hcheck, -⟩ := hP
    have hnil := h.inflight_nil hi hidle hpooled
    refine h.take hi hidle rfl rfl rfl rfl (by rw [hnil]; exact List.not_mem_nil) ?_
      (by rw [hnil]; exact hc)
    have hfit := hfits.check
    rcases hcheck with hcheck | hcheck
    · rw [hcheck] at hfit
      exact hfit.1
    · rw [hcheck] at hfit
      exact hfit
  | finish t => exact h.finishInline hi hP
  | pending => exact h.stay hi

/-- **One operation keeps the invariant.** -/
theorem Inv.act (hc : 1 ≤ c) (h : Inv i₀ c γ w.memory) (hi : γ i = some r) (hP : Allowed c r o)
    (hslot : ∀ t, (system answers).launch o = some t → γ slot = none) :
    After answers i₀ c γ w i slot r o := by
  cases r with
  | main g =>
    obtain ⟨hP, -⟩ := hP
    cases o with
    | memory call => exact h.main_memory hc hi call hP
    | record t =>
      have hfits := h.main i g hi
      exact h.learn hi rfl rfl rfl (fun _ ht => ht) hfits.room hfits.check
    | mark t =>
      obtain ⟨hidle, hcheck, hroom, -⟩ := hP
      have hfits := h.main i g hi
      have hfit := hfits.check
      rw [hcheck] at hfit
      exact h.take hi hidle rfl rfl rfl rfl hfit.2 hfit.1 (hfits.room hroom)
    | submit t record => exact h.submit hi hP.1 (hslot _ rfl)
    | stopped => exact h.stay hi
    | assigned => exact h.stay hi
    | execute t record => exact h.stay hi
    | complete t st result => exact h.stay hi
    | heartbeat n => exact h.stay hi
  | execution t released =>
    cases o with
    | memory call =>
      cases call with
      | begin t' =>
        obtain ⟨rfl, rfl⟩ := hP
        -- the loop has marked it, or it would not have been submitted
        have hmem : t' ∈ w.memory.inflight := h.holding.mem (heldBy_of hi)
        have hsame : (handle answers (.memory (.begin t')) w).2.memory = w.memory := by
          have hadd : Memory.add t' w.memory.inflight = w.memory.inflight := if_pos hmem
          show { w.memory with inflight := Memory.add t' w.memory.inflight } = w.memory
          rw [hadd]
        unfold After
        rw [hsame]
        exact h.stay hi
      | finish t' =>
        obtain ⟨rfl, rfl⟩ := hP
        exact h.finish hi
      | _ => exact hP.elim
    | execute t' record => exact h.stay hi
    | complete t' st result => exact h.stay hi
    | _ => exact hP.elim
  | heartbeats =>
    cases o with
    | memory call =>
      cases call with
      | pending => exact h.stay hi
      | _ => exact hP.elim
    | stopped => exact h.stay hi
    | heartbeat n => exact h.stay hi
    | _ => exact hP.elim

/-! ### What the programs do -/

/-- A program does only what its thread may do, and ends with `Q`. -/
abbrev Obeys (c : ℕ) {α : Type} (p : Program α) (Q : Except String α → Role → Prop) (r : Role) :
    Prop :=
  wp Role.note (fun _ _ => True) (Allowed c) p Q r

variable {α : Type} {Q : Except String Unit → Role → Prop} {record : Json}

theorem allowed_of_idle (hidle : g.stage = .idle) (h : g.Allows c o) : Allowed c (.main g) o :=
  ⟨h, fun t ht => by rw [hidle] at ht; cases ht⟩

theorem obeys_reportTries {st : String} {result : Json}
    (hP : Allowed c r (.complete taskId st result))
    (hnote : ∀ ok, r.note (.complete taskId st result) ok = r) (hQ : Q (.ok ()) r) (tries : ℕ) :
    Obeys c (reportTries taskId st result tries) Q r := by
  induction tries with
  | zero => exact hQ
  | succ tries ih =>
    refine wp_perform_bind.2 ⟨hP, fun ok _ => ?_⟩
    rw [hnote ok]
    cases ok with
    | true => exact hQ
    | false => exact ih

/-- An execution in the pool. -/
theorem obeys_execution (taskId : String) (record : Json) :
    Obeys c (executeAndReport taskId record) (fun _ r => r = .execution taskId true)
      (.execution taskId false) := by
  refine wp_perform_bind.2 ⟨⟨rfl, rfl⟩, fun _ _ => ?_⟩
  refine wp_perform_bind.2 ⟨trivial, fun result _ => ?_⟩
  refine wp_bind.2 (obeys_reportTries ?_ (fun _ => rfl) ?_ _)
  · trivial
  · exact ⟨⟨rfl, rfl⟩, fun _ _ => rfl⟩

/-- The main thread is about to start no task, and nothing was submitted. -/
def Alone (r : Role) : Prop := ∃ g, r = .main g ∧ g.stage = .idle ∧ g.pooled = false

/-- An execution in the main thread. -/
theorem obeys_inline (hidle : g.stage = .idle) (hpooled : g.pooled = false)
    (hcheck : g.check = .fresh taskId ∨ g.check = .claimed taskId) (hdue : g.Due taskId)
    (record : Json) :
    Obeys c (executeAndReport taskId record) (fun _ => Alone) (.main g) := by
  refine wp_perform_bind.2 ⟨allowed_of_idle hidle ⟨hidle, hpooled, hcheck, hdue⟩, fun _ _ => ?_⟩
  refine wp_perform_bind.2 ⟨⟨trivial, by rintro _ ⟨⟩⟩, fun result _ => ?_⟩
  refine wp_bind.2 (obeys_reportTries ?_ (fun _ => rfl) ?_ _)
  · exact ⟨trivial, by rintro _ ⟨⟩⟩
  · exact ⟨⟨rfl, by rintro _ ⟨⟩⟩, fun _ _ => ⟨_, rfl, rfl, hpooled⟩⟩

/-- After a task was noted as seen the main thread has claimed it. -/
theorem check_see (g : Main) (taskId : String) :
    (if g.check = .unseen taskId then Check.fresh taskId else .claimed taskId) = .fresh taskId ∨
      (if g.check = .unseen taskId then Check.fresh taskId else .claimed taskId) =
        .claimed taskId := by
  split_ifs
  · exact .inl rfl
  · exact .inr rfl

/-- A status other than the three is due. -/
theorem not_passedOver_pending {st : Json} (h : isOneOf ["PENDING"] st = true) :
    passedOver st = false := by
  cases st with
  | str s =>
    obtain rfl : s = "PENDING" := by simpa [isOneOf] using h
    decide
  | _ => rfl

/-- The status is read from a record that is a dictionary. -/
theorem obeys_getStatus {f : Json → Program Unit} (herror : ∀ e, Q (.error e) r)
    (hok : ∀ st, status record = some st → Obeys c (f st) Q r) :
    Obeys c (getStatus record >>= f) Q r := by
  unfold getStatus
  cases hst : status record with
  | none => exact herror _
  | some st => exact hok st hst

theorem obeys_recoverPendingTask (h : Alone r) (taskId : String) :
    Obeys c (recoverPendingTask taskId) (fun _ => Alone) r := by
  obtain ⟨g, rfl, hidle, hpooled⟩ := h
  refine wp_perform_bind.2 ⟨allowed_of_idle hidle trivial, fun _ _ => ?_⟩
  refine wp_perform_bind.2 ⟨allowed_of_idle hidle trivial, fun record _ => ?_⟩
  split
  · exact ⟨_, rfl, hidle, hpooled⟩
  · refine obeys_getStatus (fun _ => ⟨_, rfl, hidle, hpooled⟩) fun st hst => ?_
    split_ifs with hpending
    · refine obeys_inline ?_ ?_ ?_ ?_ _
      · exact hidle
      · exact hpooled
      · exact check_see g taskId
      · exact ⟨st, (Function.update_self ..).trans hst, not_passedOver_pending hpending⟩
    · exact ⟨_, rfl, hidle, hpooled⟩

/-- A program that leaves the main thread in `I` where it was in `I`. -/
abbrev Leaves (c : ℕ) (I : Role → Prop) (p : Program α) : Prop :=
  Under Role.note (fun _ _ => True) (Allowed c) I p fun _ => True

/-- Operations that the main thread may perform at any time, and that are noted
nowhere or as the status of a record. -/
theorem leaves_act {I : Role → Prop} (hI : ∀ r, I r → ∃ g, r = .main g ∧ g.stage = .idle)
    (hP : ∀ g : Main, g.Allows c o) (hnote : ∀ r answer, I r → I (r.note o answer)) :
    Leaves c I (act o) := by
  refine Under.perform fun r hr => ?_
  obtain ⟨g, rfl, hidle⟩ := hI r hr
  exact ⟨allowed_of_idle hidle (hP g), fun answer _ => hnote _ answer hr⟩

theorem Alone.idle (r : Role) (h : Alone r) : ∃ g, r = .main g ∧ g.stage = .idle := by
  obtain ⟨g, rfl, hidle, -⟩ := h
  exact ⟨g, rfl, hidle⟩

theorem leaves_recoverPendingTasks : Leaves c Alone recoverPendingTasks := by
  refine (leaves_act (o := .assigned) Alone.idle (fun _ => trivial) fun r _ h => ?_).bind
    fun assigned _ => ?_
  · obtain ⟨g, rfl, h⟩ := h
    exact ⟨g, rfl, h⟩
  · exact .each fun taskId _ => .of_traced fun r h => ⟨obeys_recoverPendingTask h taskId⟩

/-- The main thread is about to start no task, and has a thread pool or has
submitted nothing. -/
def Free (c : ℕ) (r : Role) : Prop :=
  ∃ g, r = .main g ∧ g.stage = .idle ∧ (1 < c ∨ g.pooled = false)

theorem Free.idle (r : Role) (h : Free c r) : ∃ g, r = .main g ∧ g.stage = .idle := by
  obtain ⟨g, rfl, hidle, -⟩ := h
  exact ⟨g, rfl, hidle⟩

theorem Alone.free (h : Alone r) : Free c r := by
  obtain ⟨g, rfl, hidle, hpooled⟩ := h
  exact ⟨g, rfl, hidle, .inr hpooled⟩

/-- A task that was found unseen, with room for it where there is a pool. -/
theorem obeys_startTask (hidle : g.stage = .idle) (hcheck : g.check = .unseen taskId)
    (hdue : g.Due taskId) (hroom : 1 < c → g.room = true) (hpooled : ¬1 < c → g.pooled = false)
    (record : Json) : Obeys c (startTask c taskId record) (fun _ => Free c) (.main g) := by
  have hfresh : (if g.check = .unseen taskId then Check.fresh taskId else .claimed taskId) =
      .fresh taskId := if_pos hcheck
  refine wp_perform_bind.2 ⟨allowed_of_idle hidle trivial, fun _ _ => ?_⟩
  split_ifs with hc
  · refine wp_perform_bind.2 ⟨allowed_of_idle hidle ⟨hidle, hfresh, hroom hc, hdue⟩, fun _ _ => ?_⟩
    refine ⟨⟨⟨rfl, hdue⟩, fun t ht => ?_⟩, fun _ _ => ⟨_, rfl, rfl, .inl hc⟩⟩
    cases ht
    exact ⟨record, rfl⟩
  · refine wp_mono (fun _ _ h => h.free) (obeys_inline ?_ ?_ ?_ ?_ record)
    · exact hidle
    · exact hpooled hc
    · exact .inl hfresh
    · exact hdue

/-- The main thread has found room for a task, where it has a pool. -/
theorem obeys_pollTask (hidle : g.stage = .idle) (hroom : 1 < c → g.room = true)
    (hpooled : ¬1 < c → g.pooled = false) (taskId : String) :
    Obeys c (pollTask c taskId) (fun _ => Free c) (.main g) := by
  have hfree : 1 < c ∨ g.pooled = false := or_iff_not_imp_left.2 hpooled
  refine wp_perform_bind.2 ⟨allowed_of_idle hidle trivial, fun record _ => ?_⟩
  split
  · exact ⟨_, rfl, hidle, hfree⟩
  · refine obeys_getStatus (fun _ => ⟨_, rfl, hidle, hfree⟩) fun st hst => ?_
    split_ifs with hpassed
    · exact ⟨allowed_of_idle hidle trivial, fun _ _ => ⟨_, rfl, hidle, hfree⟩⟩
    · refine wp_perform_bind.2 ⟨allowed_of_idle hidle trivial, fun seen _ => ?_⟩
      cases seen with
      | true => exact ⟨_, rfl, hidle, hfree⟩
      | false =>
        refine obeys_startTask ?_ ?_ ?_ ?_ ?_ _
        · exact hidle
        · rfl
        · exact ⟨st, (Function.update_self ..).trans hst, Bool.eq_false_of_not_eq_true hpassed⟩
        · exact hroom
        · exact hpooled

theorem leaves_stopped {I : Role → Prop} (hI : ∀ r, I r → ∃ g, r = .main g ∧ g.stage = .idle) :
    Leaves c I (act .stopped) := by
  refine leaves_act hI (fun _ => trivial) fun r _ h => ?_
  obtain ⟨g, rfl, -⟩ := hI r h
  exact h

/-- The test for room is noted. -/
theorem obeys_full {f : Bool → Program Unit} (h : Free c r) (hfull : ∀ r, Free c r → Q (.ok ()) r)
    (hroom : ∀ g, g.stage = .idle → (1 < c → g.room = true) → (¬1 < c → g.pooled = false) →
      Obeys c (f false) Q (.main g)) :
    Obeys c (full c >>= fun isFull => if isFull then pure () else f isFull) Q r := by
  obtain ⟨g, rfl, hidle, hfree⟩ := h
  unfold full
  by_cases hc : 1 < c
  · rw [if_pos hc]
    refine wp_perform_bind.2 ⟨allowed_of_idle hidle rfl, fun isFull _ => ?_⟩
    cases isFull with
    | true => exact hfull _ ⟨_, rfl, hidle, hfree⟩
    | false =>
      refine hroom _ ?_ (fun _ => rfl) fun hnot => absurd hc hnot
      exact hidle
  · rw [if_neg hc]
    exact hroom g hidle (fun h => absurd h hc) fun _ => hfree.resolve_left hc

theorem leaves_pollTasks (taskIds : List String) : Leaves c (Free c) (pollTasks c taskIds) := by
  induction taskIds with
  | nil => exact Under.pure trivial
  | cons taskId taskIds ih =>
    refine (leaves_stopped Free.idle).bind fun stopped _ =>
      .ite (fun _ => .pure trivial) fun _ => .of_traced fun r h => ⟨?_⟩
    refine obeys_full h (fun _ h => h) fun g hidle hroom hpooled => wp_bind.2 ?_
    refine wp_mono (fun x r' h' => ?_) (obeys_pollTask hidle hroom hpooled taskId)
    cases x with
    | ok u => exact wp_mono (fun _ _ h => h.1) (ih.holds r' h')
    | error e => exact h'

theorem leaves_pollTick : Leaves c (Free c) (pollTick c) := by
  refine (leaves_act (o := .assigned) Free.idle (fun _ => trivial) fun r _ h => ?_).bind
    fun assigned _ => leaves_pollTasks assigned
  obtain ⟨g, rfl, h⟩ := h
  exact ⟨g, rfl, h⟩

theorem leaves_pollingLoop (n : ℕ) : Leaves c (Free c) (pollingLoop c n) := by
  induction n with
  | zero => exact Under.pure trivial
  | succ n ih =>
    refine (leaves_stopped Free.idle).bind fun stopped _ =>
      .ite (fun _ => .pure trivial) fun _ => ?_
    exact Under.bind (Under.attempt leaves_pollTick) fun _ _ => ih

/-- **The main thread does what it may**, from its start on. -/
theorem obeys_run (n : ℕ) :
    Obeys c (run c n) (fun _ r => r.held = none)
      (.main ⟨fun _ => none, .idle, .nothing, false, false⟩) := by
  have halone : Alone (.main ⟨fun _ => none, .idle, .nothing, false, false⟩) := ⟨_, rfl, rfl, rfl⟩
  refine wp_perform_bind.2 ⟨allowed_of_idle rfl trivial, fun pending _ => ?_⟩
  refine wp_perform_bind.2 ⟨allowed_of_idle rfl trivial, fun _ _ => ?_⟩
  refine wp_bind.2 (wp_attempt.2 (wp_mono (fun x r h => ?_)
    (leaves_recoverPendingTasks.holds _ halone)))
  refine wp_mono (fun _ r' h' => ?_) ((leaves_pollingLoop n).holds r h.1.free)
  obtain ⟨g, rfl, hidle, -⟩ := h'.1
  exact congrArg Stage.held hidle

theorem obeys_heartbeatLoop (n : ℕ) :
    Obeys c (heartbeatLoop n) (fun _ r => r.held = none) .heartbeats := by
  induction n with
  | zero => rfl
  | succ n ih =>
    refine wp_perform_bind.2 ⟨trivial, fun stopped _ => ?_⟩
    cases stopped with
    | true => rfl
    | false =>
      refine wp_perform_bind.2 ⟨trivial, fun pending _ => ?_⟩
      exact wp_perform_bind.2 ⟨trivial, fun _ _ => ih⟩

/-! ### Runs -/

theorem keeps (answers : Answers) (hc : 1 ≤ c) (i₀ : ι) :
    Keeps (system answers) Enters (fun _ _ _ _ => True) (fun _ _ => True) (Allowed c)
      (fun _ r => r.held = none) (fun γ w => Inv i₀ c γ w.memory) := by
  refine ⟨fun γ w i slot r o h hi hP _ _ hslot => ⟨trivial, h.act hc hi hP hslot⟩, fun o t ht => ?_,
    fun γ w i t h hi ht => ?_, fun t ht => ?_⟩
  · cases o with
    | submit taskId record =>
      obtain rfl := Option.some.inj ht
      exact wp_mono (fun _ r hr => by rw [hr]; rfl) (obeys_execution taskId record)
    | _ => cases ht
  · obtain ⟨n, rfl⟩ := ht
    exact h.enter hi
  · obtain ⟨n, rfl⟩ := ht
    exact obeys_heartbeatLoop n

/-- A process that starts. -/
theorem inv_start (i₀ : ι) (n : ℕ) : Inv i₀ c (start i₀ c n).ghosts World.init.memory := by
  have hghosts : (start i₀ c n).ghosts = Function.update (fun _ => none) i₀
      (some (.main ⟨fun _ => none, .idle, .nothing, false, false⟩)) :=
    Pool.map_update Thread.ghost _ i₀ _
  have hheld : heldBy (start i₀ c n).ghosts = fun _ => none := by
    rw [hghosts, heldBy_update]
    exact Function.update_eq_self_iff.2 rfl
  rw [hghosts] at hheld ⊢
  refine ⟨owner_update (by rintro _ _ ⟨⟩) fun _ _ => rfl, ?_, Nat.zero_le _, by rintro _ ⟨⟩,
    fun j g hj => ?_⟩
  · rw [hheld]
    exact .none
  · have hji : j = i₀ := owner_update (by rintro _ _ ⟨⟩) (fun _ _ => rfl) j g hj
    subst hji
    rw [Function.update_self] at hj
    obtain rfl := Role.main.inj (Option.some.inj hj)
    exact ⟨by rintro ⟨⟩, fun _ => alone_update (by rintro _ _ _ ⟨⟩) (by rintro _ _ ⟨⟩), trivial⟩

/-- A process at some moment of a run. -/
abbrev Running (ι : Type) := Pool ι Op Op.Res String Unit Role World

/-- What holds at every moment. -/
theorem sound_run {answers : Answers} (hc : 1 ≤ c) {n : ℕ} {s : Running ι}
    (hrun : Steps (system answers) Enters (fun _ _ _ _ => True) (start i₀ c n) s) :
    Sound (system answers) (fun _ _ => True) (Allowed c) (fun _ r => r.held = none)
      (fun γ w => Inv i₀ c γ w.memory) s := by
  refine Steps.sound (keeps answers hc i₀) hrun ⟨fun i t hi => ?_, inv_start i₀ n⟩
  unfold start at hi
  dsimp only at hi
  by_cases hi₀ : i = i₀
  · subst hi₀
    rw [Function.update_self] at hi
    obtain rfl := Option.some.inj hi
    exact obeys_run n
  · rw [Function.update_of_ne hi₀] at hi
    cases hi

omit [DecidableEq ι]

/-- The task that a thread executes, or will: from its submission on in the pool,
from the start of the execution on in the main thread. -/
def Role.executing : Role → Option String
  | .main ⟨_, .inline taskId, _, _, _⟩ => some taskId
  | .execution taskId false => some taskId
  | _ => none

/-- The thread in slot `i` has an execution of the task queued or running. -/
def Executing (s : Running ι) (i : ι) (taskId : String) : Prop :=
  ∃ r, s.ghosts i = some r ∧ r.executing = some taskId

/-- The next thing that the main thread does is to submit the task. -/
def Submits (s : Running ι) (taskId : String) : Prop :=
  ∃ i g record k, s.threads i = some ⟨.main g, .op (.submit taskId record) k⟩

/-- The next thing that the main thread, which has done `g`, does is to start the
task: to submit it, or to begin to execute it itself. -/
def Starts (s : Running ι) (g : Main) (taskId : String) : Prop :=
  (∃ i record k, s.threads i = some ⟨.main g, .op (.submit taskId record) k⟩) ∨
    ∃ i k, s.threads i = some ⟨.main g, .op (.memory (.begin taskId)) k⟩

theorem Role.held_of_executing (h : r.executing = some taskId) : r.held = some taskId := by
  cases r with
  | main g =>
    obtain ⟨_, stage, _, _, _⟩ := g
    cases stage with
    | inline t => exact h
    | _ => cases h
  | execution t released =>
    cases released with
    | false => exact h
    | true => cases h
  | heartbeats => cases h

theorem Role.executing_of_held (h : r.held = some taskId) :
    r.executing = some taskId ∨ ∃ g, r = .main g ∧ g.stage = .marked taskId := by
  cases r with
  | main g =>
    obtain ⟨_, stage, _, _, _⟩ := g
    cases stage with
    | idle => cases h
    | marked t =>
      obtain rfl : t = taskId := Option.some.inj h
      exact .inr ⟨_, rfl, rfl⟩
    | inline t => exact .inl h
  | execution t released =>
    cases released with
    | false => exact .inl h
    | true => cases h
  | heartbeats => cases h

theorem Executing.heldBy {s : Running ι} (h : Executing s i taskId) :
    heldBy s.ghosts i = some taskId := by
  obtain ⟨r, hr, hexecuting⟩ := h
  exact (heldBy_of hr).trans (Role.held_of_executing hexecuting)

/-- While the main thread has a task marked, no thread executes it. -/
theorem not_executing_of_marked {s : Running ι} (hinv : Inv i₀ c s.ghosts s.world.memory)
    (hj : s.ghosts j = some (.main g)) (hstage : g.stage = .marked taskId) :
    ¬Executing s i taskId := by
  intro hi
  have hheld : WorkerProcess.heldBy s.ghosts j = some taskId :=
    (heldBy_of hj).trans (congrArg Stage.held hstage)
  obtain rfl := hinv.holding.unique i j taskId hi.heldBy hheld
  obtain ⟨r, hr, hexecuting⟩ := hi
  obtain rfl : r = .main g := Option.some.inj (hr.symm.trans hj)
  obtain ⟨_, stage, _, _, _⟩ := g
  obtain rfl : stage = .marked taskId := hstage
  cases hexecuting

section Moments

variable {s : Running ι} {J : (ι → Option Role) → World → Prop}

/-- What is marked is submitted at once. -/
theorem submits_of_marked (hs : Sound (system answers) (fun _ _ => True) (Allowed c)
      (fun _ r => r.held = none) J s) (hi : s.ghosts i = some (.main g))
    (hstage : g.stage = .marked taskId) : Submits s taskId := by
  obtain ⟨⟨r, rest⟩, ht, hr⟩ := Option.map_eq_some_iff.1 hi
  obtain rfl : r = .main g := hr
  have hwp := hs.threads i _ ht
  have hheld : (Role.main g).held = some taskId := congrArg Stage.held hstage
  cases rest with
  | ret a => exact absurd (hheld.symm.trans hwp) (by simp)
  | raise e => exact absurd (hheld.symm.trans hwp) (by simp)
  | op o k =>
    obtain ⟨record, rfl⟩ := hwp.1.2 taskId hstage
    exact ⟨i, g, record, k, ht⟩

/-- What the main thread is about to submit it has marked. -/
theorem Submits.marked (hs : Sound (system answers) (fun _ _ => True) (Allowed c)
      (fun _ r => r.held = none) J s) (h : Submits s taskId) :
    ∃ i g, s.ghosts i = some (.main g) ∧ g.stage = .marked taskId := by
  obtain ⟨i, g, record, k, ht⟩ := h
  have hallowed := (hs.threads i _ ht).1
  refine ⟨i, g, ?_, hallowed.1.1⟩
  rw [Pool.ghosts, ht]
  rfl

/-- What the main thread is about to start is due. -/
theorem Starts.due (hs : Sound (system answers) (fun _ _ => True) (Allowed c)
      (fun _ r => r.held = none) J s) (h : Starts s g taskId) : g.Due taskId := by
  rcases h with ⟨i, record, k, ht⟩ | ⟨i, k, ht⟩
  · have hallowed := (hs.threads i _ ht).1
    exact hallowed.1.2
  · have hallowed := (hs.threads i _ ht).1
    exact hallowed.1.2.2.2

end Moments

/-- **The executions of a worker process.**  With any number `c ≥ 1` of slots,
whatever the frontend answers and in whatever order the threads take turns, at
every moment before the process is stopped: at most `c` executions are queued or
running, no two of one task; the in-flight set has the tasks of these executions
and besides, between the mark and the submission, the one task that the loop is
about to submit, which has no execution yet, and never more than `c` tasks; and
the loop is about to start no task whose record it last read as `SUCCESS`,
`FAILURE` or `RUNNING`. -/
theorem executions_bounded {ι : Type} [DecidableEq ι] (answers : Answers) {c : ℕ} (hc : 1 ≤ c)
    (i₀ : ι) (n : ℕ) {s : Running ι}
    (hrun : Steps (system answers) Enters (fun _ _ _ _ => True) (start i₀ c n) s) :
    ({i | ∃ taskId, Executing s i taskId}.Finite ∧
        {i | ∃ taskId, Executing s i taskId}.ncard ≤ c) ∧
      (∀ i j taskId, Executing s i taskId → Executing s j taskId → i = j) ∧
      (∀ taskId, taskId ∈ s.world.memory.inflight ↔
        (∃ i, Executing s i taskId) ∨ Submits s taskId) ∧
      (∀ taskId, Submits s taskId → ∀ i, ¬Executing s i taskId) ∧
      s.world.memory.inflight.length ≤ c ∧
      ∀ g taskId, Starts s g taskId →
        ∃ st, g.lastRead taskId = some st ∧ passedOver st = false := by
  have hs := sound_run hc hrun
  have hinv := hs.world
  refine ⟨?_, fun i j taskId hi hj => ?_, fun taskId => ⟨fun hmem => ?_, ?_⟩,
    fun taskId hsubmits i hi => ?_, hinv.bound, fun g taskId h => h.due hs⟩
  · obtain ⟨hfinite, hcard⟩ := hinv.holding.ncard_le (s := {i | ∃ t, Executing s i t})
      fun i hi => by
        obtain ⟨t, ht⟩ := hi
        rw [ht.heldBy]
        rfl
    exact ⟨hfinite, hcard.trans hinv.bound⟩
  · exact hinv.holding.unique i j taskId hi.heldBy hj.heldBy
  · obtain ⟨i, hi⟩ := (hinv.holding.mem_iff taskId).1 hmem
    obtain ⟨r, hr, hheld⟩ := Option.bind_eq_some_iff.1 hi
    rcases Role.executing_of_held hheld with hexecuting | ⟨g, rfl, hstage⟩
    · exact .inl ⟨i, r, hr, hexecuting⟩
    · exact .inr (submits_of_marked hs hr hstage)
  · rintro (⟨i, hi⟩ | hsubmits)
    · exact hinv.holding.mem hi.heldBy
    · obtain ⟨i, g, hi, hstage⟩ := hsubmits.marked hs
      exact hinv.holding.mem ((heldBy_of hi).trans (congrArg Stage.held hstage))
  · obtain ⟨j, g, hj, hstage⟩ := hsubmits.marked hs
    exact not_executing_of_marked hinv hj hstage hi

/-! ### A process with two slots -/

/-- The task `t` is assigned twice, but to nothing at the start; its record is
pending when it is read for the first time, and running afterwards. -/
def repeated : Answers where
  assigned k := if k ≤ 2 then [] else ["t", "t"]
  record k _ := .obj [("status", .str (if k ≤ 7 then "PENDING" else "RUNNING"))]
  execute _ _ _ := .error "interrupted"
  complete _ _ := true

/-- The main thread, in slot `0`, performs `n` operations; executions are put in
slot `1`. -/
def mainActs (n : ℕ) : Option (Running ℕ) :=
  (start 0 2 1).steps (system repeated) (fun _ _ _ _ => True) (List.replicate n (.act 0 1))

theorem run_mainActs {n : ℕ} {s : Running ℕ} (h : mainActs n = some s) :
    Steps (system repeated) Enters (fun _ _ _ _ => True) (start 0 2 1) s :=
  .of_steps (fun i t ht => by cases (List.mem_replicate.1 ht).2) h

/-- Where the main thread stands, and the status it last read of `t`. -/
def standing : Option Role → Option (Stage × Bool)
  | some (.main g) => some (g.stage, (g.lastRead "t").any passedOver)
  | _ => none

/-- The task whose execution a program is about to begin. -/
def beginning : Option (Thread Op Op.Res String Unit Role) → Option String
  | some ⟨.execution _ _, .op (.memory (.begin taskId)) _⟩ => some taskId
  | _ => none

theorem marked_of_standing {r : Option Role} {b : Bool}
    (h : standing r = some (.marked taskId, b)) :
    ∃ g, r = some (.main g) ∧ g.stage = .marked taskId := by
  match r, h with
  | some (.main g), h => exact ⟨g, rfl, congrArg Prod.fst (Option.some.inj h)⟩

/-- **A task is in the in-flight set before it is submitted, and may begin after
its record says that it runs.**  First the loop has marked `t`, and no execution
of it is queued or running.  Then the execution was submitted and is still
queued, and is about to begin; of the record, which was pending when the loop
submitted it, the loop has read once more that it is `RUNNING`. -/
theorem marked_not_submitted :
    (∃ s : Running ℕ, Steps (system repeated) Enters (fun _ _ _ _ => True) (start 0 2 1) s ∧
      ¬∀ taskId, taskId ∈ s.world.memory.inflight ↔ ∃ i, Executing s i taskId) ∧
    ∃ s : Running ℕ, Steps (system repeated) Enters (fun _ _ _ _ => True) (start 0 2 1) s ∧
      beginning (s.threads 1) = some "t" ∧ standing (s.ghosts 0) = some (.idle, true) := by
  have hmarked : (mainActs 11).map (fun s => (decide ("t" ∈ s.world.memory.inflight),
      standing (s.ghosts 0))) = some (true, some (.marked "t", false)) := by
    decide +kernel
  have hbegins : (mainActs 15).map (fun s => (beginning (s.threads 1), standing (s.ghosts 0))) =
      some (some "t", some (.idle, true)) := by
    decide +kernel
  constructor
  · obtain ⟨s, hs, hfacts⟩ := Option.map_eq_some_iff.1 hmarked
    obtain ⟨hmem, hstanding⟩ := Prod.mk.inj hfacts
    have hrun := run_mainActs hs
    obtain ⟨g, hg, hstage⟩ := marked_of_standing hstanding
    refine ⟨s, hrun, fun h => ?_⟩
    obtain ⟨i, hi⟩ := (h "t").1 (of_decide_eq_true hmem)
    exact not_executing_of_marked (sound_run (by decide) hrun).world hg hstage hi
  · obtain ⟨s, hs, hfacts⟩ := Option.map_eq_some_iff.1 hbegins
    obtain ⟨hbeginning, hstanding⟩ := Prod.mk.inj hfacts
    exact ⟨s, run_mainActs hs, hbeginning, hstanding⟩

/-- The hypotheses of `executions_bounded` are satisfiable: the loop has
submitted the task. -/
theorem executions_bounded_two : ∃ s : Running ℕ,
    Steps (system repeated) Enters (fun _ _ _ _ => True) (start 0 2 1) s ∧
      "t" ∈ s.world.memory.inflight ∧ ((∃ i, Executing s i "t") ∨ Submits s "t") ∧
      s.world.memory.inflight.length ≤ 2 := by
  have hsubmitted : (mainActs 12).map (fun s => decide ("t" ∈ s.world.memory.inflight)) =
      some true := by
    decide +kernel
  obtain ⟨s, hs, hmem⟩ := Option.map_eq_some_iff.1 hsubmitted
  have hrun := run_mainActs hs
  have hmem := of_decide_eq_true hmem
  obtain ⟨-, -, hinflight, -, hlength, -⟩ := executions_bounded repeated (by decide) 0 1 hrun
  exact ⟨s, hrun, hmem, (hinflight "t").1 hmem, hlength⟩

end WorkerProcess
end Server
end ChordInfra
