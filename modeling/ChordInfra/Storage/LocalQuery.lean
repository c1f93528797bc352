/-
# Queries over the local store

`storage/task_service.py: query_local_tasks`: one pass over the node's store in
its order, three filters, and a limit that is tested after a record was added.
The store is the whole `data_store` here, any JSON values under any keys, since
what the query must not return is the rest of it.

`queryLocalTasks_eq_take` says what the pass returns for every limit, and from
it `query_exact_iff` says for which the answer is the first `limit` matches:
all but a limit of `0` with something to return.
-/

import ChordInfra.Storage.Json

namespace ChordInfra
namespace Storage
namespace LocalQuery

/-- `value.get(field) == text` on a value of the store. -/
def fieldIs (field text : String) : Json → Bool
  | .obj fields =>
    match Dict.find field fields with
    | some (.str s) => s = text
    | _ => false
  | _ => false

/-- `is_task_record`; `TASK_KIND` is `"task"`. -/
def isTaskRecord (value : Json) : Bool := value.isObj && fieldIs "kind" "task" value

/-- `f and value.get(field) != f`: a filter that is given and refuses the value.
An absent filter is `None` or the empty text. -/
def refuses (filter : Option String) (field : String) (value : Json) : Bool :=
  match filter with
  | some text => text ≠ "" && !fieldIs field text value
  | none => false

section Query

variable (jobId status : Option String) (includeDeleted : Bool) (limit : ℤ)

/-- The loop of `query_local_tasks`, from the records found so far. -/
def scan : List Json → List Json → List Json
  | results, [] => results
  | results, value :: rest =>
    if !isTaskRecord value then scan results rest
    else if !includeDeleted && fieldIs "status" "DELETED" value then scan results rest
    else if refuses jobId "job_id" value then scan results rest
    else if refuses status "status" value then scan results rest
    else
      -- the test comes after `append`, so the first match is kept whatever the limit
      let results := results ++ [value]
      if (results.length : ℤ) ≥ limit then results else scan results rest

/-- `query_local_tasks` on the items of the store. -/
def queryLocalTasks (store : Dict String Json) : List Json :=
  scan jobId status includeDeleted limit [] (store.entries.map Prod.snd)

/-- The records a query asks for. -/
def selects (value : Json) : Bool :=
  isTaskRecord value && (includeDeleted || !fieldIs "status" "DELETED" value) &&
    !refuses jobId "job_id" value && !refuses status "status" value

/-- The records of the store a query asks for, in the order of the store. -/
def matching (store : Dict String Json) : List Json :=
  (store.entries.map Prod.snd).filter (selects jobId status includeDeleted)

/-- The answer is the first `limit` matches, so it has no other value and no
more than `limit` records. -/
structure Exact (store : Dict String Json) (limit : ℕ) (answer : List Json) : Prop where
  first : answer = (matching jobId status includeDeleted store).take limit
  only : ∀ value ∈ answer, isTaskRecord value = true ∧
    selects jobId status includeDeleted value = true
  bounded : answer.length ≤ limit

end Query

variable {jobId status : Option String} {includeDeleted : Bool} {limit : ℤ}

/-- One value of the store: skipped, or added and the last one if the limit is reached. -/
theorem scan_cons (results : List Json) (value : Json) (rest : List Json) :
    scan jobId status includeDeleted limit results (value :: rest) =
      if selects jobId status includeDeleted value then
        if ((results ++ [value]).length : ℤ) ≥ limit then results ++ [value]
        else scan jobId status includeDeleted limit (results ++ [value]) rest
      else scan jobId status includeDeleted limit results rest := by
  rw [scan]
  unfold selects
  cases isTaskRecord value <;> cases includeDeleted <;> cases fieldIs "status" "DELETED" value <;>
    cases refuses jobId "job_id" value <;> cases refuses status "status" value <;> rfl

/-- The loop adds matches until there are `limit`, but one at least. -/
theorem scan_eq {results : List Json} (h : (results.length : ℤ) < max limit 1)
    (values : List Json) :
    scan jobId status includeDeleted limit results values = results ++
      (values.filter (selects jobId status includeDeleted)).take
        ((max limit 1).toNat - results.length) := by
  induction values generalizing results with
  | nil => rw [scan, List.filter_nil, List.take_nil, List.append_nil]
  | cons value rest ih =>
    rw [scan_cons]
    by_cases hsel : selects jobId status includeDeleted value = true
    · rw [if_pos hsel, List.filter_cons_of_pos hsel]
      have hlength : (results ++ [value]).length = results.length + 1 := by simp
      have htake : (max limit 1).toNat - results.length =
          (max limit 1).toNat - (results ++ [value]).length + 1 := by omega
      rw [htake, List.take_succ_cons, List.append_cons results value (List.take _ _)]
      split_ifs with hfull
      · have hnone : (max limit 1).toNat - (results ++ [value]).length = 0 := by omega
        rw [hnone, List.take_zero, List.append_nil]
      · have hmore : ((results ++ [value]).length : ℤ) < max limit 1 := by omega
        exact ih hmore
    · rw [if_neg hsel, List.filter_cons_of_neg hsel]
      exact ih h

/-- **What a query returns**, for every limit. -/
theorem queryLocalTasks_eq_take (store : Dict String Json) :
    queryLocalTasks jobId status includeDeleted limit store =
      (matching jobId status includeDeleted store).take (max limit 1).toNat := by
  unfold queryLocalTasks matching
  have hroom : (([] : List Json).length : ℤ) < max limit 1 := by
    rw [List.length_nil]
    omega
  rw [scan_eq hroom, List.nil_append, List.length_nil, Nat.sub_zero]

/-- Taking the first elements takes matches, as many as asked for at most. -/
theorem exact_take (store : Dict String Json) (limit : ℕ) :
    Exact jobId status includeDeleted store limit
      ((matching jobId status includeDeleted store).take limit) where
  first := rfl
  only value hvalue := by
    have hsel := (List.mem_filter.1 (List.mem_of_mem_take hvalue)).2
    refine ⟨?_, hsel⟩
    unfold selects at hsel
    simp only [Bool.and_eq_true] at hsel
    exact hsel.1.1.1
  bounded := by
    rw [List.length_take]
    exact Nat.min_le_left _ _

/-- **The answer is the first `limit` matches exactly when the limit is
positive or nothing matches.** -/
theorem query_exact_iff (store : Dict String Json) (jobId status : Option String)
    (includeDeleted : Bool) (limit : ℕ) :
    Exact jobId status includeDeleted store limit
        (queryLocalTasks jobId status includeDeleted limit store) ↔
      1 ≤ limit ∨ matching jobId status includeDeleted store = [] := by
  rw [queryLocalTasks_eq_take]
  constructor
  · intro h
    rcases Nat.eq_zero_or_pos limit with rfl | hpos
    · right
      have hnone := h.first
      rw [List.take_zero, List.take_eq_nil_iff] at hnone
      exact hnone.resolve_left (by decide)
    · exact .inl hpos
  · rintro (hpos | hnil)
    · rw [show (max (limit : ℤ) 1).toNat = limit by omega]
      exact exact_take store limit
    · have h : Exact jobId status includeDeleted store limit _ := exact_take store limit
      rw [hnil, List.take_nil] at h ⊢
      exact h

/-- A store with one task. -/
def oneTask : Dict String Json :=
  Dict.empty.set "task:a" (.obj [("kind", .str "task"), ("status", .str "REGISTERED")])

/-- A query with limit `0` returns the task. -/
theorem query_zero_returns : (queryLocalTasks none none false 0 oneTask).length = 1 ∧
    ¬Exact none none false oneTask 0 (queryLocalTasks none none false 0 oneTask) := by
  have hlength : (queryLocalTasks none none false 0 oneTask).length = 1 := by decide
  refine ⟨hlength, fun h => ?_⟩
  have hbound := h.bounded
  rw [hlength] at hbound
  exact absurd hbound (by decide)

/-- The limit `QueryTasks` of the gRPC interface passes on. -/
def grpcLimit (limit : ℤ) : ℤ := if limit > 0 then limit else 100

/-- Its queries never reach that case. -/
theorem grpc_query_exact (store : Dict String Json) (limit : ℤ) :
    Exact jobId status includeDeleted store (grpcLimit limit).toNat
      (queryLocalTasks jobId status includeDeleted (grpcLimit limit) store) := by
  have hpos : 0 < grpcLimit limit := by
    unfold grpcLimit
    split_ifs <;> omega
  have hmax : max (grpcLimit limit) 1 = grpcLimit limit := by omega
  rw [queryLocalTasks_eq_take, hmax]
  exact exact_take store _

end LocalQuery
end Storage
end ChordInfra
