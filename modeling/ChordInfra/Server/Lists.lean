/-
# A pending task is on one list

Every operation of a node alone runs to its end before the next one starts: `Ready` is what holds
then, and each operation keeps it.  Two do so under a condition only.  A rebalance takes no task
off the list of a worker that it does not know, and it looks for the task under the key of its
record (`Leaves`); and a cleanup takes the task off the list though it may be pending again.
-/

import ChordInfra.Server.Tables

namespace ChordInfra
namespace Server

open Interact Prog
open Storage
open ChordInfra.Ring (NodeRef)

/-! ### What a rebalance goes through -/

/-- The pending record under a key. -/
def pendingUnder (store : Dict Key Value) (key : Key) : Option (String × ResultRecord) :=
  match key, store.get key with
  | .result x, some (.result record) => if record.status = .pending then some (x, record) else none
  | _, _ => none

theorem pendingUnder_eq_some {store : Dict Key Value} {key : Key} {e : String × ResultRecord}
    (h : pendingUnder store key = some e) :
    key = .result e.1 ∧ store.get (.result e.1) = some (.result e.2) ∧ e.2.status = .pending := by
  unfold pendingUnder at h
  split at h
  · next x record hget =>
    split_ifs at h with hpending
    cases h
    exact ⟨rfl, hget, hpending⟩
  · cases h

/-- The pending records of a store, with the ids of their keys. -/
def pendingAt (store : Dict Key Value) : List (String × ResultRecord) :=
  (store.entries.map Prod.fst).filterMap (pendingUnder store)

theorem mem_pendingAt {store : Dict Key Value} {e : String × ResultRecord} : e ∈ pendingAt store ↔
    store.get (.result e.1) = some (.result e.2) ∧ e.2.status = .pending := by
  constructor
  · intro h
    obtain ⟨key, -, hkey⟩ := List.mem_filterMap.1 h
    exact (pendingUnder_eq_some hkey).2
  · rintro ⟨hget, hpending⟩
    refine List.mem_filterMap.2 ⟨.result e.1, ?_, ?_⟩
    · exact List.mem_map_of_mem (store.mem_entries_iff.2 hget)
    · unfold pendingUnder
      rw [hget]
      exact if_pos hpending

theorem pendingAt_distinct (store : Dict Key Value) : ((pendingAt store).map Prod.fst).Nodup := by
  refine List.pairwise_map.2 (List.pairwise_filterMap.2 (store.nodup.imp ?_))
  intro key key' hne e he e' he' hsame
  obtain ⟨rfl, -⟩ := pendingUnder_eq_some he
  obtain ⟨rfl, -⟩ := pendingUnder_eq_some he'
  exact hne (by rw [hsame])

/-- The worker that a record goes to is one of those whose loads are known. -/
theorem destination_mem {target : ℕ} {load : Dict String ℕ} {current dst : String}
    (h : destination target load current = some dst) : (load.get dst).isSome := by
  have hmem : ∀ e ∈ leastLoaded load, (load.get e.1).isSome := by
    rintro ⟨v, n⟩ he
    rw [(load.mem_entries_iff).1 (List.argmin_mem he)]
    rfl
  unfold destination at h
  split at h
  · split_ifs at h
    obtain ⟨e, he, rfl⟩ := Option.map_eq_some_iff.1 h
    exact hmem e (Option.filter_eq_some_iff.1 he).1
  · obtain ⟨e, he, rfl⟩ := Option.map_eq_some_iff.1 h
    exact hmem e he

/-- A move adds no worker to those whose loads are known. -/
theorem isSome_shifted {load : Dict String ℕ} {src dst v : String} (hdst : (load.get dst).isSome)
    (h : ((shifted load src dst).get v).isSome) : (load.get v).isSome := by
  have hset : ∀ {u w : String} {n : ℕ}, (load.get u).isSome → ((load.set u n).get w).isSome →
      (load.get w).isSome := by
    intro u w n hu hw
    rw [Dict.get_set] at hw
    split_ifs at hw with hwu
    · exact hwu ▸ hu
    · exact hw
  unfold shifted at h
  dsimp only at h
  split at h
  · next n hn =>
    rw [Dict.get_set] at h
    split_ifs at h with hv
    · subst hv
      exact hset hdst (by rw [hn]; rfl)
    · exact hset hdst h
  · exact hset hdst h

/-- The loads that are known are those of the live workers. -/
theorem mem_of_isSome_loads {live : List String} {pending : List (String × ResultRecord)}
    {v : String} (h : ((loads live pending).get v).isSome) : v ∈ live := by
  unfold loads at h
  have hfold : ∀ (l : List String) (load : Dict String ℕ),
      ((l.foldl (fun load w => load.set w (pending.countP fun e => e.2.workerId = w)) load).get
        v).isSome → v ∈ l ∨ (load.get v).isSome := by
    intro l
    induction l with
    | nil => exact fun load hload => .inr hload
    | cons u l ih =>
      intro load hload
      rcases ih _ hload with hmem | hsome
      · exact .inl (List.mem_cons_of_mem _ hmem)
      · rw [Dict.get_set] at hsome
        split_ifs at hsome with hvu
        · exact .inl (hvu ▸ List.mem_cons_self)
        · exact .inr hsome
  rcases hfold live .empty h with hmem | hnone
  · exact hmem
  · cases hnone

/-- Every task that a rebalance takes from a worker leaves the list of this worker: the worker is
known, or the two have one list, and the task goes by the key of its record. -/
def Leaves (target : ℕ) : List (String × ResultRecord) → Dict String ℕ → Prop
  | [], _ => True
  | (taskId, record) :: pending, load =>
    match destination target load record.workerId with
    | none => Leaves target pending load
    | some dst =>
      ((load.get record.workerId).isSome = true ∨ strip dst = strip record.workerId) ∧
        record.taskId = taskId ∧ Leaves target pending (shifted load record.workerId dst)

/-- What a rebalance finds to be so before it starts. -/
def Balanceable (env : Env) (node : NodeRef) (w : World) : Prop :=
  let live := (w.registries node.address).liveWorkers (env.now w.trace.length)
  let pending := ((w.stores node.address).entries.map Prod.fst).filterMap
    (pendingUnder (w.stores node.address))
  2 ≤ live.length → Leaves (max 1 (pending.length / live.length)) pending (loads live pending)

section Alone

variable {env : Env} {ring : FixedRing env} {node : NodeRef} (halone : Alone ring node)
  {s : Service} (hs : s.node = node)

include halone hs

/-! ### Recoveries -/

/-- The tables agree, no task is under recovery, and no worker without a name is known. -/
structure Ready (node : NodeRef) (w : World) : Prop where
  tables : Matched node w
  idle : ∀ a, (w.managers a).inProgress = []
  proper : Proper w

namespace Ready

variable {w w' : World}

omit halone hs in
theorem of_calm (h : Ready node w) (hcalm : Calm w w') (htables : Matched node w') :
    Ready node w' :=
  ⟨htables, fun a => (hcalm.inProgress a).trans (h.idle a),
    fun a => (h.proper a).of_workers (hcalm.workers a)⟩

omit halone hs in
/-- A program that only reads. -/
theorem looks (h : Ready node w) (env : Env) {α : Type} {p : M α} (hp : Only Op.Looks p) :
    Ready node (run env p w).2 :=
  h.of_calm ((hp.mono fun _ h => h.1).aside env w).calm
    (h.tables.congr ((hp.mono fun _ h => h.2).stores env w))

end Ready

namespace Matched

variable {w : World}

/-- What is done about a record just read. -/
theorem recoverFresh (h : Matched node w) (hproper : Proper w) (cfg : Config)
    {fresh : ResultRecord} (hfresh : recordAt w node.address (strip fresh.taskId) = some fresh)
    (hid : strip fresh.taskId ≠ "") (failureType : Option FailureType) :
    Matched node (run env (Server.recoverFresh cfg s fresh failureType) w).2 := by
  obtain ⟨hempty, hmem⟩ := scored_spec env s w
  have hnames : ∀ worker ∈ ((w.registries s.node.address).scoreAllWorkers
      (env.now w.trace.length)).map Prod.fst, worker ≠ "" := by
    rintro worker hin rfl
    exact (hproper s.node.address).not_live (hmem _ hin)
  unfold Server.recoverFresh
  rw [run_act_bind]
  have hscored : (handle env (.registry s.node.address .scoreAllWorkers) w).1 =
      (w.registries s.node.address).scoreAllWorkers (env.now w.trace.length) := rfl
  rw [hscored, hempty]
  generalize (w.registries s.node.address).scoreAllWorkers (env.now w.trace.length) = scored
    at hempty hnames
  have h₁ : Matched node (handle env (.registry s.node.address .scoreAllWorkers) w).2 :=
    h.congr rfl
  have hfresh₁ : recordAt (handle env (.registry s.node.address .scoreAllWorkers) w).2 node.address
      (strip fresh.taskId) = some fresh := hfresh
  generalize (handle env (.registry s.node.address .scoreAllWorkers) w).2 = w₁ at h₁ hfresh₁
  split_ifs
  · obtain ⟨justSpawned, w₂, hrun₂, -, hst₂⟩ := run_spawnWorker env cfg s w₁
    rw [run_bind_eq_ok hrun₂]
    refine (h₁.congr hst₂).execute halone hs ?_ hid failureType hempty hnames justSpawned
    rw [recordAt, hst₂]
    exact hfresh₁
  · exact h₁.execute halone hs hfresh₁ hid failureType hempty hnames false

theorem recoverClaimed (h : Matched node w) (hproper : Proper w) (cfg : Config) (id : String)
    (failureType : Option FailureType) :
    Matched node (run env (Server.recoverClaimed cfg s id failureType) w).2 := by
  obtain ⟨x, w₁, hrun₁, hread, haside, hstores⟩ :=
    run_safeGet ring (hs ▸ halone.mem : s.node ∈ ring.members) id h.owns
  have h₁ : Matched node w₁ := h.congr hstores
  unfold Server.recoverClaimed
  rw [run_bind_eq_ok hrun₁]
  cases x with
  | none => exact h₁
  | some fresh =>
    dsimp only
    obtain ⟨hsame, hid⟩ := hread.task fresh rfl
    have hfresh : recordAt w₁ node.address (strip fresh.taskId) = some fresh := by
      rw [recordAt, hstores, hsame]
      exact (halone.read_eq h.placed hid hread).symm
    split_ifs
    · exact h₁
    · have hproper₁ : Proper w₁ := by
        intro a
        rw [haside.registries]
        exact hproper a
      exact h₁.recoverFresh halone hs hproper₁ cfg hfresh (hsame ▸ hid) failureType

end Matched

namespace Ready

variable {w w' : World}

/-- **A recovery.** -/
theorem recover (h : Ready node w) (cfg : Config) (record : ResultRecord)
    (failureType : Option FailureType) :
    Ready node (run env (attemptRecovery cfg s record failureType) w).2 := by
  obtain ⟨x, w', hrun, haside, -⟩ := run_attemptRecovery ring cfg
    (hs ▸ halone.mem : s.node ∈ ring.members) record failureType h.tables.owns
  have hcalm : Calm w (run env (attemptRecovery cfg s record failureType) w).2 := by
    rw [hrun]
    exact haside.calm
  refine h.of_calm hcalm ?_
  unfold attemptRecovery
  split_ifs with hname
  · exact h.tables
  · rw [run_act_bind]
    have hproper : Proper (handle env (.manager s.node.address (.claim record.taskId)) w).2 :=
      h.proper
    have h₁ : Matched node (handle env (.manager s.node.address (.claim record.taskId)) w).2 :=
      h.tables.congr rfl
    generalize (handle env (.manager s.node.address (.claim record.taskId)) w).1 = claimed
    generalize (handle env (.manager s.node.address (.claim record.taskId)) w).2 = w₁ at h₁ hproper
    split_ifs
    · rw [run_attempt_bind]
      have h₂ := h₁.recoverClaimed halone hs hproper cfg record.taskId failureType
      generalize (run env (Server.recoverClaimed cfg s record.taskId failureType) w₁).2 = w₂ at h₂
      have hstores : (run env (act (.manager s.node.address (.discard record.taskId))) w₂).2.stores =
          w₂.stores := rfl
      exact h₂.congr hstores
    · exact h₁

/-- **A retry** of a record that is as it was listed. -/
theorem retry (h : Ready node w) (cfg : Config) {record : ResultRecord}
    (hrecord : recordAt w node.address (strip record.taskId) = some record) :
    Ready node (run env (retryWaiting cfg s record) w).2 := by
  unfold retryWaiting
  rw [run_act_bind]
  have h₁ : Ready node (handle env .now w).2 := ⟨h.tables.congr rfl, h.idle, h.proper⟩
  have hrecord₁ : recordAt (handle env .now w).2 node.address (strip record.taskId) = some record :=
    hrecord
  generalize (handle env .now w).1 = now
  generalize (handle env .now w).2 = w₁ at h₁ hrecord₁
  by_cases hid : strip record.taskId = ""
  · have hput : run env (Server.safePut s record.taskId (Server.cleared record now)) w₁ =
        (.ok (), w₁) := by
      unfold Server.safePut ResultService.put buildResultKey
      rw [if_pos hid]
      cases validateResultRecord (Server.cleared record now) <;> rfl
    rw [run_bind_eq_ok hput]
    exact h₁.recover halone hs cfg _ _
  · obtain ⟨w₂, hput, haside, -⟩ := run_safePut ring (hs ▸ halone.mem : s.node ∈ ring.members) hid
      (Server.cleared record now) w₁
    have htables : Matched node w₂ := by
      have hkept := h₁.tables.safePut halone hs hrecord₁ hid
        (show (Server.cleared record now).taskId = record.taskId from rfl) rfl id
      rw [hput] at hkept
      exact hkept
    rw [run_bind_eq_ok hput]
    exact (h₁.of_calm haside.calm htables).recover halone hs cfg _ _

/-! ### Scans -/

/-- The record in an entry of a store. -/
def resultIn : Key × Value → Option ResultRecord
  | (.result _, .result record) => some record
  | _ => none

omit hs halone in
theorem resultIn_eq_some {e : Key × Value} {r : ResultRecord} :
    resultIn e = some r ↔ ∃ x, e = (.result x, .result r) := by
  constructor
  · intro h
    obtain ⟨key, value⟩ := e
    cases key <;> cases value <;> cases h
    exact ⟨_, rfl⟩
  · rintro ⟨x, rfl⟩
    rfl

/-- The records are those that the node keeps, of tasks that are all different. -/
structure Current (node : NodeRef) (l : List ResultRecord) (w : World) : Prop where
  records : ∀ r ∈ l, recordAt w node.address (strip r.taskId) = some r
  distinct : l.Pairwise fun r r' => strip r.taskId ≠ strip r'.taskId

omit halone in
/-- The listing of the records. -/
theorem current_records (h : Ready node w) :
    ∃ l w', run env (allHt1Records s) w = (.ok l, w') ∧ Ready node w' ∧ Current node l w' := by
  have hready : Ready node (handle env (.items s.node.address) w).2 :=
    h.of_calm (handle_aside (o := .items s.node.address) trivial env w).calm (h.tables.congr rfl)
  have hlisted : ∀ e ∈ (w.stores s.node.address).entries, ∀ r, resultIn e = some r →
      e.1 = .result (strip r.taskId) ∧ recordAt w node.address (strip r.taskId) = some r := by
    intro e he r hr
    obtain ⟨x, rfl⟩ := resultIn_eq_some.1 hr
    have hrecord : recordAt w s.node.address x = some r :=
      recordAt_eq_some.2 ((w.stores s.node.address).mem_entries_iff.1 he)
    rw [(h.tables.key_eq hrecord).2, ← hs]
    exact ⟨rfl, hrecord⟩
  refine ⟨(w.stores s.node.address).entries.filterMap resultIn, _, rfl, hready, fun r hr => ?_, ?_⟩
  · obtain ⟨e, he, hr⟩ := List.mem_filterMap.1 hr
    exact (hlisted e he r hr).2
  · have hkeys : ((w.stores s.node.address).entries).Pairwise fun e e' => e.1 ≠ e'.1 :=
      List.pairwise_map.1 (w.stores s.node.address).nodup
    refine List.pairwise_filterMap.2 (hkeys.imp_of_mem fun he he' hne r hr r' hr' hsame => hne ?_)
    rw [(hlisted _ he r hr).1, (hlisted _ he' r' hr').1, hsame]

omit hs in
/-- A record that is written leaves those of the other tasks. -/
theorem recordAt_of_overwritten {k : ℕ} {id : String} {record : ResultRecord}
    (hov : Overwritten ring k id record w w') {x : String} (hx : x ≠ strip id) :
    recordAt w' node.address x = recordAt w node.address x := by
  by_cases hworker : record.workerId = ""
  · rw [recordAt, hov, if_pos hworker]
    rfl
  · rw [recordAt, Mirror.get_overwritten hworker hov, halone.home, halone.replicas,
      if_neg (by simp [hx])]
    rfl

/-- A retry leaves the records of the other tasks. -/
theorem recordAt_retry (h : Ready node w) (cfg : Config) (record : ResultRecord) {x : String}
    (hx : x ≠ strip record.taskId) :
    recordAt (run env (retryWaiting cfg s record) w).2 node.address x = recordAt w node.address x := by
  have hmember : s.node ∈ ring.members := hs ▸ halone.mem
  have hrecover : ∀ (w₁ : World) (r : ResultRecord) failureType, Kept Owns w₁ →
      r.taskId = record.taskId →
      recordAt (run env (attemptRecovery cfg s r failureType) w₁).2 node.address x =
        recordAt w₁ node.address x := by
    intro w₁ r failureType howns htask
    obtain ⟨y, w', hrun, -, hof, hdone, -⟩ :=
      run_attemptRecovery ring cfg hmember r failureType howns
    rw [hrun]
    unfold Recovered at hdone
    cases y with
    | none => rw [recordAt, hdone]; rfl
    | some fresh =>
      dsimp only at hdone
      split_ifs at hdone
      · rw [recordAt, hdone]
        rfl
      · obtain ⟨now, r', -, hov⟩ := hdone
        refine recordAt_of_overwritten halone hov ?_
        rw [hof fresh rfl, htask]
        exact hx
  unfold retryWaiting
  rw [run_act_bind]
  have h₁ : Kept Owns (handle env .now w).2 := h.tables.owns
  have hsame : recordAt (handle env .now w).2 node.address x = recordAt w node.address x := rfl
  rw [← hsame]
  generalize (handle env .now w).1 = now
  generalize (handle env .now w).2 = w₁ at h₁
  have hyields : Yields (fun _ => True) (Server.safePut s record.taskId (Server.cleared record now)) :=
    .bind (.attempt _) fun _ _ => .pure trivial
  obtain ⟨_, hok, -⟩ := hyields.exec (handle env) w₁
  rw [run_bind hok]
  have hput : Kept Owns (run env (Server.safePut s record.taskId (Server.cleared record now)) w₁).2 :=
    (kept_run env (Placing.safePut ((acting_writes owns_worker law_owns).putKept
      law_owns.toUpdateLaw (s := s) trivial
      (show Owns (.result record.taskId) (.result (Server.cleared record now)) from rfl))) h₁).1
  rw [hrecover _ (Server.cleared record now) _ hput rfl]
  by_cases hid : strip record.taskId = ""
  · unfold Server.safePut ResultService.put buildResultKey
    rw [if_pos hid]
    cases validateResultRecord (Server.cleared record now) <;> rfl
  · obtain ⟨w₂, hrun, -, hov⟩ := run_safePut ring hmember hid (Server.cleared record now) w₁
    rw [hrun]
    exact recordAt_of_overwritten halone hov hx

variable {cfg : Config}

omit halone hs in
theorem ends_looks {α : Type} {p : M α} (honly : Only Op.Looks p)
    (hyields : Yields (fun _ => True) p) :
    Ends (handle env) (Ready node) p fun _ => Ready node := by
  refine ⟨fun w hw => ?_⟩
  obtain ⟨x, hx, -⟩ := hyields.exec (handle env) w
  exact ⟨x, _, Prod.ext hx rfl, hw.looks env honly⟩

theorem ends_recover (record : ResultRecord) (failureType : FailureType) :
    Ends (scanStep env cfg s) (Ready node) (Scan.act (.recover record failureType))
      fun _ => Ready node := by
  refine .call ⟨fun w hw => ?_⟩
  obtain ⟨x, w', hrun, -⟩ := run_attemptRecovery ring cfg (hs ▸ halone.mem : s.node ∈ ring.members)
    record (some failureType) hw.tables.owns
  have hready := hw.recover halone hs cfg record (some failureType)
  rw [hrun] at hready
  exact ⟨(), w', hrun, hready⟩

theorem ends_retry (record : ResultRecord) (rest : List ResultRecord) :
    Ends (scanStep env cfg s) (fun w => Ready node w ∧ Current node (record :: rest) w)
      (Scan.act (.retry record)) fun _ w => Ready node w ∧ Current node rest w := by
  refine .call ⟨fun w hw => ?_⟩
  obtain ⟨hready, hcurrent⟩ := hw
  obtain ⟨hne, hdistinct⟩ := List.pairwise_cons.1 hcurrent.distinct
  have hyields : Yields (fun _ => True) (retryWaiting cfg s record) := by
    refine .bind (.act .now) fun now _ => .bind (φ := fun _ => True) ?_ fun _ _ => ?_
    · exact .bind (.attempt _) fun _ _ => .pure trivial
    · refine .ite (.pure trivial) (.bind (.act (.manager s.node.address (.claim record.taskId)))
        fun claimed _ => .ite ?_ (.pure trivial))
      exact .bind (.attempt _) fun _ _ => .act (.manager s.node.address (.discard record.taskId))
  obtain ⟨_, hok, -⟩ := hyields.exec (handle env) w
  refine ⟨(), _, Prod.ext hok rfl,
    hready.retry halone hs cfg (hcurrent.records record List.mem_cons_self), fun r hr => ?_,
    hdistinct⟩
  exact (recordAt_retry halone hs hready cfg record (hne r hr).symm).trans
    (hcurrent.records r (List.mem_cons_of_mem _ hr))

/-- **A scan.** -/
theorem scan (h : Ready node w) (o : SetOrder) :
    Ready node (run env (RecoveryManager.trigger cfg s o) w).2 := by
  have hrecover : ∀ record failureType, Ends (scanStep env cfg s) (Ready node)
      (Scan.act (.recover record failureType)) fun _ => Ready node := ends_recover halone hs
  have hrecords : Ends (scanStep env cfg s) (Ready node) (Scan.act .records)
      fun (l : List ResultRecord) w => Ready node w ∧ Current node l w := by
    refine .call ⟨fun w hw => ?_⟩
    obtain ⟨l, w', hrun, hready, hcurrent⟩ := current_records hs hw
    exact ⟨l, w', hrun, hready, hcurrent⟩
  have hlooks : ∀ o : Op, o.Looks → Ends (handle env) (Ready node) (act o) fun _ => Ready node :=
    fun o ho => ends_looks (.act ho) (.act o)
  have htakeUp : ∀ (p : ResultRecord → Bool) failureType, Ends (scanStep env cfg s) (Ready node)
      (Scan.act .records >>= fun records => each (RecoveryManager.takeUp p failureType) records)
      fun _ => Ready node := fun p failureType =>
    .bind hrecords fun l => .pre (.each fun r _ => .ite (fun _ => hrecover r failureType)
      fun _ => .pure fun _ hw => hw) fun _ hw => hw.1
  have hcrashes : Ends (scanStep env cfg s) (Ready node) (RecoveryManager.detectWorkerCrashes o)
      fun _ => Ready node := by
    have hseen : Ends (scanStep env cfg s) (Ready node) (Scan.act .allWorkers)
        fun (l : List (String × ℤ × ℤ)) w => "" ∉ l.map Prod.fst ∧ Ready node w :=
      .call (.perform fun w hw => ⟨(hw.proper s.node.address).not_seen, hw.looks env (p := act _)
        (.act (o := .registry s.node.address .allWorkers) ⟨trivial, trivial⟩)⟩)
    refine .bind (.call (hlooks (.registry s.node.address .liveWorkers) ⟨trivial, trivial⟩))
      fun live => .bind hseen fun seen => .assuming fun hnot => .each fun v hv => ?_
    have hname : v ≠ "" := by
      rintro rfl
      exact hnot (List.mem_filter.1 ((o.perm _).mem_iff.1 hv)).1
    refine .bind (K := fun _ => Ready node) (.call (ends_looks (only_assignmentGet s v)
      (yields_assignmentGet s hname))) fun taskIds => .each fun t _ => ?_
    have hread : Ends (scanStep env cfg s) (Ready node) (Scan.act (.read t))
        fun (_ : Option ResultRecord) => Ready node := by
      refine .call ⟨fun w hw => ?_⟩
      obtain ⟨x, w', hrun, -, haside, hstores⟩ :=
        run_safeGet ring (hs ▸ halone.mem : s.node ∈ ring.members) t hw.tables.owns
      exact ⟨x, w', hrun, hw.of_calm haside.calm (hw.tables.congr hstores)⟩
    refine .bind hread fun x => ?_
    cases x with
    | none => exact .pure fun _ hw => hw
    | some r => exact .ite (fun _ => hrecover r _) fun _ => .pure fun _ hw => hw
  have hstuck : Ends (scanStep env cfg s) (Ready node) RecoveryManager.detectStuckTasks
      fun _ => Ready node := by
    refine .bind hrecords fun l => .pre (.each fun r _ => ?_) fun _ hw => hw.1
    refine .ite (fun _ => ?_) fun _ => .pure fun _ hw => hw
    exact .bind (K := fun _ => Ready node)
      (.call (hlooks (.registry s.node.address (.isLive r.workerId)) ⟨trivial, trivial⟩))
      fun live => .ite (fun _ => .pure fun _ hw => hw) fun _ => hrecover r _
  have hwaiting : Ends (scanStep env cfg s) (Ready node) RecoveryManager.retryWaitingTasks
      fun _ => Ready node := by
    refine .bind (K := fun _ => Ready node) (.call (hlooks .now ⟨trivial, trivial⟩)) fun now =>
      .bind hrecords fun l => .mono (.each_rest
        (J := fun l w => Ready node w ∧ Current node l w) (fun r rest => ?_) l) fun _ _ hw => hw.1
    refine .ite (fun _ => ends_retry halone hs r rest) fun _ => .pure fun w hw => ⟨hw.1, ?_⟩
    exact ⟨fun r' hr' => hw.2.records r' (List.mem_cons_of_mem _ hr'),
      (List.pairwise_cons.1 hw.2.distinct).2⟩
  have hscan : Ends (scanStep env cfg s) (Ready node) (RecoveryManager.scan o)
      fun _ => Ready node :=
    .bind hcrashes fun _ => .bind (htakeUp _ _) fun _ => .bind (htakeUp _ _) fun _ =>
      .bind hstuck fun _ => hwaiting
  obtain ⟨u, w', hrun, hw'⟩ := (Ends.expand hscan).holds w h
  unfold RecoveryManager.trigger
  rw [run, exec_attempt_bind, hrun]
  exact hw'

end Ready

/-! ### Rebalances -/

omit halone hs in
/-- The pending records under some keys. -/
theorem run_pendingRecords (env : Env) (s : Service) (keys : List Key) (w : World) :
    ∃ w', run env (pendingRecords s keys) w =
      (.ok (keys.filterMap (pendingUnder (w.stores s.node.address))), w') ∧ w'.stores = w.stores := by
  induction keys generalizing w with
  | nil => exact ⟨w, rfl, rfl⟩
  | cons key keys ih =>
    cases key with
    | result x =>
      unfold pendingRecords
      rw [run_act_bind]
      obtain ⟨w', hrun, hstores⟩ := ih (handle env (.get s.node.address (.result x)) w).2
      have hvalue : (handle env (.get s.node.address (.result x)) w).1 =
          (w.stores s.node.address).get (.result x) := rfl
      have hsame : (handle env (.get s.node.address (.result x)) w).2.stores = w.stores := rfl
      rw [run_bind_eq_ok hrun, hvalue, hsame, List.filterMap_cons]
      refine ⟨w', ?_, hstores.trans hsame⟩
      unfold pendingUnder
      split
      · next record hget =>
        simp only [hget]
        split_ifs <;> rfl
      · next hnone =>
        split
        · rfl
        · next e he =>
          split at he
          · next heq hget =>
            cases heq
            exact absurd hget (hnone _)
          · cases he
    | _ =>
      obtain ⟨w', hrun, hstores⟩ := ih w
      exact ⟨w', hrun, hstores⟩

namespace Matched

/-- **The moves of a rebalance.** -/
theorem moveAll (target : ℕ) (pending : List (String × ResultRecord)) (load : Dict String ℕ)
    {w : World} (h : Matched node w)
    (hrecords : ∀ e ∈ pending, recordAt w node.address e.1 = some e.2)
    (hdistinct : pending.Pairwise fun e e' => e.1 ≠ e'.1)
    (hknown : ∀ v, (load.get v).isSome → v ≠ "") (hleaves : Leaves target pending load) :
    Matched node (run env (moveAll s target pending load) w).2 := by
  induction pending generalizing load w with
  | nil => exact h
  | cons e pending ih =>
    obtain ⟨taskId, record⟩ := e
    obtain ⟨hne, hdistinct⟩ := List.pairwise_cons.1 hdistinct
    unfold Leaves at hleaves
    unfold Server.moveAll
    cases hdest : destination target load record.workerId with
    | none =>
      rw [hdest] at hleaves
      exact ih load h (fun e he => hrecords e (List.mem_cons_of_mem _ he)) hdistinct hknown hleaves
    | some dst =>
      rw [hdest] at hleaves
      obtain ⟨hleave, htask, hleaves⟩ := hleaves
      have hdst := destination_mem hdest
      obtain ⟨w₁, hrun, h₁, hothers⟩ := h.run_move halone hs
        (hrecords _ List.mem_cons_self) htask (hknown dst hdst) hleave
      have hrest := ih (shifted load record.workerId dst) h₁
        (fun e he => (hothers e.1 (hne e he).symm).trans (hrecords e (List.mem_cons_of_mem _ he)))
        hdistinct (fun v hv => hknown v (isSome_shifted hdst hv)) hleaves
      dsimp only
      rw [run_attempt_bind, hrun]
      dsimp only
      generalize hmoved : run env (Server.moveAll s target pending _) w₁ = moved at hrest
      obtain ⟨y, w₂⟩ := moved
      cases y with
      | ok n =>
        rw [run_bind_eq_ok hmoved]
        exact hrest
      | error e =>
        rw [run_bind_eq_error hmoved]
        exact hrest

end Matched

namespace Ready

variable {w : World}

/-- **A rebalance** that finds all to be so. -/
theorem rebalance (h : Ready node w) (hbalance : Balanceable env node w) :
    Ready node (run env (doRebalance s) w).2 := by
  have hruns : Serving.Runs (fun _ _ => True) Op.Calm (doRebalance s) :=
    handling_calm.doRebalance law_trivial.toUpdateLaw
  refine h.of_calm ((Only.of_does hruns).calm env w) ?_
  subst hs
  have hlive : (handle env (.registry s.node.address .liveWorkers) w).1 =
      (w.registries s.node.address).liveWorkers (env.now w.trace.length) := rfl
  have hitems : (handle env (.items s.node.address)
      (handle env (.registry s.node.address .liveWorkers) w).2).1 =
        (w.stores s.node.address).entries := rfl
  have hnames : ∀ v ∈ (w.registries s.node.address).liveWorkers (env.now w.trace.length), v ≠ "" := by
    rintro v hv rfl
    exact (h.proper s.node.address).not_live hv
  unfold Balanceable at hbalance
  unfold doRebalance
  rw [run_act_bind, hlive]
  generalize (w.registries s.node.address).liveWorkers (env.now w.trace.length) = live
    at hbalance hnames
  split_ifs with hfew
  · exact h.tables.congr rfl
  · rw [run_act_bind, hitems]
    have h₂ : Matched s.node (handle env (.items s.node.address)
        (handle env (.registry s.node.address .liveWorkers) w).2).2 := h.tables.congr rfl
    have hstores₂ : (handle env (.items s.node.address)
        (handle env (.registry s.node.address .liveWorkers) w).2).2.stores = w.stores := rfl
    generalize (handle env (.items s.node.address)
      (handle env (.registry s.node.address .liveWorkers) w).2).2 = w₂ at h₂ hstores₂
    obtain ⟨w₃, hrun₃, hstores₃⟩ :=
      run_pendingRecords env s ((w.stores s.node.address).entries.map Prod.fst) w₂
    rw [run_bind_eq_ok hrun₃, hstores₂]
    have h₃ : Matched s.node w₃ := h₂.congr hstores₃
    have hpending := hbalance (by omega)
    generalize hl : ((w.stores s.node.address).entries.map Prod.fst).filterMap
      (pendingUnder (w.stores s.node.address)) = pending at hpending
    split_ifs with hnil
    · exact h₃
    · rw [run, exec_bind_pure]
      have hl' : pendingAt (w.stores s.node.address) = pending := hl
      refine h₃.moveAll halone rfl _ pending _ (fun e he => ?_) ?_ (fun v hv => ?_) hpending
      · rw [recordAt_eq_some, hstores₃, hstores₂]
        exact (mem_pendingAt.1 (hl' ▸ he)).1
      · rw [← hl']
        exact List.pairwise_map.1 (pendingAt_distinct _)
      · exact hnames v (mem_of_isSome_loads hv)

/-! ### Requests, reports and workers -/

/-- **A request for a task.** -/
theorem create (h : Ready node w) (hcalls : ∀ t a c, env.deliverCall t a c = .delivered)
    (hinject : cfg.inject = .nothing) (body : Fields) :
    Ready node (run env (createTask cfg s body) w).2 := by
  refine h.of_calm (calm_createTask env cfg s body w) ?_
  rcases run_createTask ring hcalls (hs ▸ halone.mem : s.node ∈ ring.members) hinject body
    h.tables.owns with hstores | ⟨record, mid, hcreated⟩
  · exact h.tables.congr hstores
  · have hnone : recordAt w node.address (strip record.taskId) = none :=
      (halone.read_eq h.tables.placed hcreated.named hcreated.fresh).symm
    have hwritten : mid.stores = w.stores.put node.address (.result (strip record.taskId))
        (.result record) := by
      rw [hcreated.written, FixedRing.written, halone.home, halone.replicas]
      rfl
    obtain ⟨hput, hlists⟩ := puts_of_stores hwritten
    have honly : Only Op.Listing (WorkerAssignment.append s record.workerId record.taskId) :=
      .of_does (serving_listing.append _ _)
    rw [hcreated.listed]
    refine h.tables.created hnone hcreated.worker
      (fun a y => ((honly.listing env mid).2 a y).trans (hput a y)) fun v => ?_
    rw [(run_append_alone halone hs hcreated.worker record.taskId mid).2, hlists]
    rfl

/-- **A report.** -/
theorem report (h : Ready node w) (taskId : String) (status result : Json) :
    Ready node (run env (resultComplete s taskId status result) w).2 := by
  refine h.of_calm (calm_resultComplete env s taskId status result w) ?_
  obtain ⟨x, hread, hdone⟩ := run_resultComplete ring (hs ▸ halone.mem : s.node ∈ ring.members)
    taskId status result h.tables.owns
  split at hdone
  case h_2 => exact h.tables.congr hdone
  case h_1 st r hst =>
    obtain ⟨⟨now, hwritten⟩, -⟩ := hdone
    obtain ⟨hsame, hid⟩ := hread.task r rfl
    have hfresh : recordAt w node.address (strip r.taskId) = some r := by
      rw [hsame]
      exact (halone.read_eq h.tables.placed hid hread).symm
    have hnamed : r.workerId ≠ "" := h.tables.named _ _ _ (recordAt_eq_some.1 hfresh)
    rw [Written, if_neg (show (completed r st result now).workerId ≠ "" from hnamed),
      FixedRing.written, halone.home, halone.replicas] at hwritten
    obtain ⟨hput, hlists⟩ := puts_of_stores hwritten
    refine h.tables.rewritten hfresh (show (completed r st result now).taskId = r.taskId from rfl)
      rfl (fun hpending => ?_) ?_ hlists
    · have hst' : st = .pending := hpending
      rcases reportedStatus_eq_some hst with rfl | rfl <;> cases hst'
    · rw [show strip (completed r st result now).taskId = strip taskId from hsame]
      exact hput

/-- **A cleanup**, unless the task is pending for this worker again. -/
theorem cleanup (h : Ready node w) (workerId taskId : String)
    (hdone : ∀ r, recordAt w node.address (strip taskId) = some r → r.status = .pending →
      r.taskId = taskId → strip r.workerId ≠ strip workerId) :
    Ready node (run env (Server.cleanup s workerId taskId) w).2 := by
  have honly : Only Op.Listing (WorkerAssignment.remove s workerId taskId) :=
    .of_does (serving_listing.remove _ _)
  obtain ⟨haside, hsame⟩ := honly.listing env w
  have hcleanup : (run env (Server.cleanup s workerId taskId) w).2 =
      (run env (WorkerAssignment.remove s workerId taskId) w).2 := by
    unfold Server.cleanup
    rw [run_attempt_bind]
    rfl
  rw [hcleanup]
  refine h.of_calm haside.calm ?_
  by_cases hw : workerId = ""
  · have hraises : (run env (WorkerAssignment.remove s workerId taskId) w).2 = w := by
      unfold WorkerAssignment.remove buildWorkerKey
      rw [if_pos hw]
      rfl
    rw [hraises]
    exact h.tables
  · exact h.tables.unlisted hsame (run_remove_alone halone hs hw taskId w).2 hdone

omit halone hs in
/-- What changes neither the store nor what is under recovery. -/
theorem same (h : Ready node w) {w' : World} (hproper : Proper w')
    (hfree : ∀ a, (w'.managers a).inProgress = (w.managers a).inProgress)
    (hstores : w'.stores = w.stores) : Ready node w' :=
  ⟨h.tables.congr hstores, fun a => (hfree a).trans (h.idle a), hproper⟩

end Ready

end Alone

/-! ### Runs -/

section Runs

variable {env : Env} {ring : FixedRing env} {node : NodeRef} {w : World}

/-- What goes on at a node alone: requests for tasks, reports, the cleanups that these start,
scans, rebalances, heartbeats, and workers killed.  With `careful`, no task is taken from a worker
whose list it does not leave, and none from the list of a worker for which it is pending. -/
inductive Solo (env : Env) (node : NodeRef) (careful : Prop) (w : World) : M Unit → Prop
  | create {cfg : Config} {s : Service} (body : Fields) : s.node = node →
      cfg.inject = .nothing → Solo env node careful w (Activity.create cfg s body).program
  | report {s : Service} (taskId : String) (status result : Json) : s.node = node →
      Solo env node careful w (Activity.report s taskId status result).program
  | cleanup {s : Service} (workerId taskId : String) : s.node = node →
      .spawn (.cleanup node workerId taskId) ∈ w.trace.map Prod.fst →
      (careful → ∀ r, recordAt w node.address (strip taskId) = some r → r.status = .pending →
        r.taskId = taskId → strip r.workerId ≠ strip workerId) →
      Solo env node careful w (cleanup s workerId taskId)
  | scan {s : Service} (cfg : Config) (o : SetOrder) : s.node = node →
      Solo env node careful w (Activity.scan cfg s o).program
  | rebalance {s : Service} : s.node = node → (careful → Balanceable env node w) →
      Solo env node careful w (Activity.rebalance s).program
  | heartbeat {s : Service} (workerId : String) (pendingTasks : ℤ) (timestamp : Option ℤ)
      (processToken : Option String) : s.node = node →
      Solo env node careful w
        (Activity.heartbeat s workerId pendingTasks timestamp processToken).program
  | kill {s : Service} (workerId : String) : s.node = node →
      Solo env node careful w (Activity.kill s workerId).program

/-- **One operation** of a careful run. -/
theorem Solo.ready (halone : Alone ring node)
    (hcalls : ∀ t a c, env.deliverCall t a c = .delivered) {p : M Unit}
    (hp : Solo env node True w p) (h : Ready node w) : Ready node (run env p w).2 := by
  cases hp with
  | create body hs hinject =>
    simp only [Activity.program, run_quietly]
    exact h.create halone hs hcalls hinject body
  | report taskId status result hs =>
    simp only [Activity.program, run_quietly]
    exact h.report halone hs taskId status result
  | cleanup workerId taskId hs _ hdone =>
    exact h.cleanup halone hs workerId taskId (hdone trivial)
  | scan cfg o hs => exact h.scan halone hs o
  | rebalance hs hbalance =>
    simp only [Activity.program, run_quietly]
    exact h.rebalance halone hs (hbalance trivial)
  | @heartbeat s workerId pendingTasks timestamp processToken hs =>
    obtain ⟨hfree, hstores⟩ := run_heartbeat env s workerId pendingTasks timestamp processToken w
    exact h.same (proper_run env (working_named.activity law_trivial (.heartbeat s workerId
      pendingTasks timestamp processToken)) h.proper) hfree hstores
  | @kill s workerId hs =>
    obtain ⟨hfree, hstores⟩ := run_kill env s workerId w
    exact h.same (proper_run env (working_named.activity law_trivial (.kill s workerId)) h.proper)
      hfree hstores

theorem ready_empty (node : NodeRef) : Ready node World.empty where
  tables := ⟨fun _ _ _ hv => (by cases hv), fun _ _ _ hv => (by cases hv),
    fun _ _ _ hr => (by cases hr), fun _ _ ht => (by cases ht), fun _ _ hr => (by cases hr)⟩
  idle _ := rfl
  proper := proper_empty

/-- **While every task that a rebalance moves leaves the list of its worker, and no cleanup comes
for a task that is pending again, every pending task is on the list of the worker that its record
names, and on no other.** -/
theorem on_own_list (halone : Alone ring node)
    (hcalls : ∀ t a c, env.deliverCall t a c = .delivered)
    (hrun : Serially (handle env) (Solo env node True) World.empty w) {x : String}
    {r : ResultRecord} (hr : recordAt w node.address x = some r) (hpending : r.status = .pending)
    (v : String) : r.taskId ∈ listAt node w v ↔ v = strip r.workerId := by
  have hready : Ready node w :=
    hrun.keeps (fun _ _ h hp => hp.ready halone hcalls h) (ready_empty node)
  exact hready.tables.on_list_iff hr hpending v

end Runs

namespace OneNode

/-- The world after an operation while the clock stands still. -/
def later (p : M Unit) (w : World) : World := (run (env 0) p w).2

/-- The task `t` is requested for the worker `w`. -/
def askFor : M Unit := (Activity.create config services (body "t" (some "w"))).program

/-- A worker is heard of. -/
def hears (workerId : String) : M Unit :=
  (Activity.heartbeat services workerId 0 none none).program

/-- The pending tasks are spread over the live workers. -/
def spread : M Unit := (Activity.rebalance services).program

theorem solo_askFor {careful : Prop} (w : World) : Solo (env 0) node careful w askFor :=
  .create _ rfl rfl

theorem solo_hears {careful : Prop} (workerId : String) (w : World) :
    Solo (env 0) node careful w (hears workerId) := .heartbeat _ _ _ _ rfl

/-- The hypotheses of `on_own_list` are satisfiable: a task is requested for a live worker. -/
theorem on_own_list_asked : ∃ r, recordAt (later askFor (later (hears "w") World.empty))
      node.address "t" = some r ∧
    ∀ v, r.taskId ∈ listAt node (later askFor (later (hears "w") World.empty)) v ↔
      v = strip r.workerId := by
  have hpending : shows (later askFor (later (hears "w") World.empty)) "t"
      (fun r => decide (r.status = .pending)) = true := by decide +kernel
  obtain ⟨r, hr, hstatus⟩ := exists_of_shows hpending
  have hrun : Serially (handle (env 0)) (Solo (env 0) node True) World.empty
      (later askFor (later (hears "w") World.empty)) :=
    .tail (.single ⟨_, solo_hears "w" _, rfl⟩) ⟨_, solo_askFor _, rfl⟩
  have hrecord := recordAt_eq_some.2 hr
  exact ⟨r, hrecord, on_own_list (alone 0 fun _ => .delivered) (fun _ _ _ => rfl) hrun hrecord
    (of_decide_eq_true hstatus)⟩

/-- **A rebalance leaves a task on two lists**: it takes the task from a worker that was never
heard of. -/
theorem on_two_lists : ∃ (w : World) (r : ResultRecord),
    Serially (handle (env 0)) (Solo (env 0) node False) World.empty w ∧
    recordAt w node.address "t" = some r ∧ r.status = .pending ∧ strip r.workerId = "a" ∧
    r.taskId ∈ listAt node w "a" ∧ r.taskId ∈ listAt node w "w" := by
  have hmoved : shows (later spread (later (hears "b") (later (hears "a") (later askFor
      World.empty)))) "t" (fun r => decide (r.status = .pending ∧ strip r.workerId = "a" ∧
        r.taskId = "t")) = true := by decide +kernel
  have hlists : "t" ∈ listAt node (later spread (later (hears "b") (later (hears "a")
        (later askFor World.empty)))) "a" ∧
      "t" ∈ listAt node (later spread (later (hears "b") (later (hears "a") (later askFor
        World.empty)))) "w" := by decide +kernel
  obtain ⟨r, hr, hfacts⟩ := exists_of_shows hmoved
  obtain ⟨hstatus, hworker, htask⟩ := of_decide_eq_true hfacts
  rw [← htask] at hlists
  refine ⟨_, r, ?_, recordAt_eq_some.2 hr, hstatus, hworker, hlists⟩
  exact .tail (.tail (.tail (.single ⟨_, solo_askFor _, rfl⟩) ⟨_, solo_hears "a" _, rfl⟩)
    ⟨_, solo_hears "b" _, rfl⟩) ⟨_, .rebalance rfl fun h => h.elim, rfl⟩

end OneNode

end Server
end ChordInfra
