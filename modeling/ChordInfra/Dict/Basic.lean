/-
# Insertion-ordered dictionaries

A dictionary is its list of entries, in the order in which the keys were first
set, with distinct keys.  Setting a key that is there keeps its place; setting a
new one appends it; erasing a key drops its entry.
-/

import Mathlib.Data.List.Nodup

namespace ChordInfra

/-- A finite map with the insertion order of its keys. -/
structure Dict (κ ν : Type) where
  entries : List (κ × ν)
  nodup : (entries.map Prod.fst).Nodup

namespace Dict

variable {κ ν : Type} [DecidableEq κ] {k k' : κ} {v v' : ν}

/-- The dictionary without entries. -/
def empty : Dict κ ν := ⟨[], List.nodup_nil⟩

/-- The value of the first entry with key `k`. -/
def find (k : κ) : List (κ × ν) → Option ν
  | [] => none
  | e :: es => if e.1 = k then some e.2 else find k es

/-- The value at a key. -/
def get (d : Dict κ ν) (k : κ) : Option ν := find k d.entries

/-- The entries with the value at `k` set to `v`. -/
def setEntries (k : κ) (v : ν) : List (κ × ν) → List (κ × ν)
  | [] => [(k, v)]
  | e :: es => if e.1 = k then (k, v) :: es else e :: setEntries k v es

theorem mem_keys_setEntries (es : List (κ × ν)) :
    k' ∈ (setEntries k v es).map Prod.fst ↔ k' = k ∨ k' ∈ es.map Prod.fst := by
  induction es with
  | nil => simp [setEntries]
  | cons e es ih =>
    unfold setEntries
    split_ifs with h
    · simp [h]
    · rw [List.map_cons, List.mem_cons, ih, List.map_cons, List.mem_cons]
      tauto

theorem nodup_setEntries {es : List (κ × ν)} (h : (es.map Prod.fst).Nodup) :
    ((setEntries k v es).map Prod.fst).Nodup := by
  induction es with
  | nil => simp [setEntries]
  | cons e es ih =>
    obtain ⟨hnot, hes⟩ := List.nodup_cons.1 h
    unfold setEntries
    split_ifs with hk
    · exact List.nodup_cons.2 ⟨hk ▸ hnot, hes⟩
    · refine List.nodup_cons.2 ⟨?_, ih hes⟩
      rw [mem_keys_setEntries]
      exact not_or.2 ⟨hk, hnot⟩

/-- `d[k] = v`. -/
def set (d : Dict κ ν) (k : κ) (v : ν) : Dict κ ν :=
  ⟨setEntries k v d.entries, nodup_setEntries d.nodup⟩

/-- `d.pop(k, None)`. -/
def erase (d : Dict κ ν) (k : κ) : Dict κ ν :=
  ⟨d.entries.filter fun e => e.1 ≠ k,
    d.nodup.sublist (List.filter_sublist.map Prod.fst)⟩

theorem find_setEntries (k k' : κ) (v : ν) (es : List (κ × ν)) :
    find k' (setEntries k v es) = if k' = k then some v else find k' es := by
  induction es with
  | nil => simp [setEntries, find, eq_comm]
  | cons e es ih =>
    unfold setEntries
    by_cases he : e.1 = k
    · rw [if_pos he]
      by_cases hk : k' = k
      · simp [find, hk]
      · simp [find, hk, he, Ne.symm hk]
    · rw [if_neg he, find, ih, find]
      by_cases hk : k' = k
      · simp [hk, he]
      · simp [hk]

theorem find_filter_ne (k k' : κ) (es : List (κ × ν)) :
    find k' (es.filter fun e => e.1 ≠ k) = if k' = k then none else find k' es := by
  induction es with
  | nil => simp [find]
  | cons e es ih =>
    by_cases he : e.1 = k
    · rw [List.filter_cons_of_neg (by simpa using he), ih]
      by_cases hk : k' = k
      · simp [hk]
      · simp [hk, find, he, Ne.symm hk]
    · rw [List.filter_cons_of_pos (by simpa using he), find, ih, find]
      by_cases hk : k' = k
      · simp [hk, he]
      · simp [hk]

theorem find_eq_some_iff {es : List (κ × ν)} (h : (es.map Prod.fst).Nodup) :
    find k es = some v ↔ (k, v) ∈ es := by
  induction es with
  | nil => simp [find]
  | cons e es ih =>
    obtain ⟨hnot, hes⟩ := List.nodup_cons.1 h
    unfold find
    split_ifs with he
    · subst he
      constructor
      · rintro ⟨rfl⟩
        exact List.mem_cons_self
      · intro hmem
        rcases List.mem_cons.1 hmem with heq | hmem
        · exact congrArg (fun e => some e.2) heq.symm
        · exact absurd (List.mem_map_of_mem hmem) hnot
    · rw [ih hes, List.mem_cons]
      exact ⟨.inr, fun hmem => hmem.resolve_left fun heq => he (heq ▸ rfl)⟩

@[simp] theorem get_empty (k : κ) : (empty : Dict κ ν).get k = none := rfl

theorem get_set (d : Dict κ ν) (k k' : κ) (v : ν) :
    (d.set k v).get k' = if k' = k then some v else d.get k' :=
  find_setEntries k k' v d.entries

@[simp] theorem get_set_self (d : Dict κ ν) (k : κ) (v : ν) : (d.set k v).get k = some v := by
  rw [get_set, if_pos rfl]

theorem get_set_ne (d : Dict κ ν) (h : k' ≠ k) (v : ν) : (d.set k v).get k' = d.get k' := by
  rw [get_set, if_neg h]

theorem get_erase (d : Dict κ ν) (k k' : κ) :
    (d.erase k).get k' = if k' = k then none else d.get k' :=
  find_filter_ne k k' d.entries

@[simp] theorem get_erase_self (d : Dict κ ν) (k : κ) : (d.erase k).get k = none := by
  rw [get_erase, if_pos rfl]

/-- Every value changed by `f`. -/
def mapValues (f : ν → ν) (d : Dict κ ν) : Dict κ ν :=
  ⟨d.entries.map fun e => (e.1, f e.2), by simpa [Function.comp_def] using d.nodup⟩

theorem get_mapValues (f : ν → ν) (d : Dict κ ν) (k : κ) :
    (d.mapValues f).get k = (d.get k).map f := by
  obtain ⟨es, hes⟩ := d
  simp only [get, mapValues]
  clear hes
  induction es with
  | nil => rfl
  | cons e es ih =>
    rw [List.map_cons, find, find]
    split_ifs
    · rfl
    · exact ih

/-- The entries are the keys with their values. -/
theorem mem_entries_iff (d : Dict κ ν) : (k, v) ∈ d.entries ↔ d.get k = some v :=
  (find_eq_some_iff d.nodup).symm

/-- Erasing a key that is not there changes nothing. -/
theorem erase_eq_self {d : Dict κ ν} (h : d.get k = none) : d.erase k = d := by
  obtain ⟨es, hes⟩ := d
  unfold erase
  congr 1
  refine List.filter_eq_self.2 fun e he => decide_eq_true ?_
  rintro rfl
  have hget := (mem_entries_iff (⟨es, hes⟩ : Dict κ ν)).1 (show (e.1, e.2) ∈ es from he)
  rw [h] at hget
  cases hget

/-- Setting a key that is there keeps the keys. -/
theorem keys_set {d : Dict κ ν} (h : (d.get k).isSome) (v : ν) :
    (d.set k v).entries.map Prod.fst = d.entries.map Prod.fst := by
  obtain ⟨es, hes⟩ := d
  unfold set get at *
  dsimp only at *
  clear hes
  induction es with
  | nil => cases h
  | cons e es ih =>
    unfold setEntries
    split_ifs with he
    · rw [List.map_cons, List.map_cons, he]
    · rw [find, if_neg he] at h
      rw [List.map_cons, List.map_cons, ih h]

/-- Setting a new key adds its entry at the end. -/
theorem entries_set_new {d : Dict κ ν} (h : d.get k = none) (v : ν) :
    (d.set k v).entries = d.entries ++ [(k, v)] := by
  obtain ⟨es, hes⟩ := d
  unfold set get at *
  dsimp only at *
  clear hes
  induction es with
  | nil => rfl
  | cons e es ih =>
    rw [find] at h
    unfold setEntries
    split_ifs at h ⊢ with he
    rw [ih h]
    rfl

theorem keys_set_new {d : Dict κ ν} (h : d.get k = none) (v : ν) :
    (d.set k v).entries.map Prod.fst = d.entries.map Prod.fst ++ [k] := by
  rw [entries_set_new h, List.map_append]
  rfl

/-- The values are those of the keys in their order. -/
theorem values_eq (d : Dict κ ν) (fallback : ν) : d.entries.map Prod.snd =
    (d.entries.map Prod.fst).map fun k => (d.get k).getD fallback := by
  rw [List.map_map]
  refine List.map_congr_left fun e he => ?_
  rw [Function.comp_apply, (d.mem_entries_iff).1 (show (e.1, e.2) ∈ d.entries from he)]
  rfl

/-- `d.update(items)`. -/
def update (d items : Dict κ ν) : Dict κ ν := items.entries.foldl (fun d e => d.set e.1 e.2) d

/-- After an update the items are there, and what they do not have is as before. -/
theorem get_update (d items : Dict κ ν) (k : κ) :
    (d.update items).get k = (items.get k).or (d.get k) := by
  obtain ⟨es, hes⟩ := items
  unfold update get
  dsimp only
  induction es generalizing d with
  | nil => rfl
  | cons e es ih =>
    obtain ⟨hnot, hrest⟩ := List.nodup_cons.1 hes
    have hset := get_set d e.1 k e.2
    unfold get at hset
    rw [List.foldl_cons, ih (d.set e.1 e.2) hrest, hset, find]
    by_cases hk : k = e.1
    · have hnone : find k es = none := by
        rw [Option.eq_none_iff_forall_ne_some]
        intro v hv
        exact hnot (hk ▸ List.mem_map_of_mem ((find_eq_some_iff hrest).1 hv))
      simp [hk, hk ▸ hnone]
    · simp [hk, Ne.symm hk]

end Dict
end ChordInfra
