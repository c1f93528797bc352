/-
# The snapshot of a node's store

`chord/node.py`: `put`, `delete` and `bulk_put` on `data_store`, and the
snapshot file, which `_save_to_disk` replaces as a whole and `_load_from_disk`
reads when a node starts.  The node has a data directory, and reading and
writing the file succeed, so the file is as good as a second copy of the store.

`put` and `bulk_put` always save.  `delete` saves only if what it took out is
not `None`, and a key whose value is `null` gives `None` as a missing one does:
such a key is gone from memory and stays in the file
(`snapshot_synced_iff`).
-/

import ChordInfra.Durable.WriteThrough
import ChordInfra.Storage.Json

namespace ChordInfra
namespace Data

open Durable
open Storage (Json)

/-- A node with its data directory: `memory` is `data_store`, `file` the
snapshot, missing before the first save. -/
abbrev Persistent (File : Type) := Cell (Dict String Json) File

/-- `json.dump` and `json.load` on stores, as far as the file depends on them;
`dumps` undone by `loads` is what JSON promises of JSON values. -/
structure JsonFormat (File : Type) where
  dumps : Dict String Json → File
  loads : File → Dict String Json
  loads_dumps : ∀ d, loads (dumps d) = d

namespace Persistent

section Calls

variable {File : Type} (json : JsonFormat File)

/-- `_load_from_disk`.  `json.load(f) or {}` puts an empty dictionary in the
place of an empty one. -/
def loadFromDisk (n : Persistent File) : Persistent File :=
  match n.file with
  | none => n
  | some f => { n with memory := json.loads f }

/-- A node that starts with the file `file`: the constructor makes an empty
store and loads the snapshot. -/
def boot (file : Option File) : Persistent File := loadFromDisk json ⟨.empty, file⟩

/-- `_save_to_disk`. -/
def saveToDisk (n : Persistent File) : Persistent File :=
  { n with file := some (json.dumps n.memory) }

/-- `put`. -/
def put (key : String) (value : Json) (n : Persistent File) : Bool × Persistent File :=
  (true, saveToDisk json { n with memory := n.memory.set key value })

/-- `value is not None`, of what `pop(key, None)` gives: JSON's `null` is
Python's `None`. -/
def popped : Option Json → Bool
  | some .null => false
  | some _ => true
  | none => false

/-- `delete`. -/
def delete (key : String) (n : Persistent File) : Bool × Persistent File :=
  let removed := popped (n.memory.get key)
  let n' : Persistent File := { n with memory := n.memory.erase key }
  (removed, if removed then saveToDisk json n' else n')

/-- `bulk_put`. -/
def bulkPut (items : Dict String Json) (n : Persistent File) : Persistent File :=
  saveToDisk json { n with memory := n.memory.update items }

/-- A call that changes the store. -/
inductive Call
  | put (key : String) (value : Json)
  | delete (key : String)
  | bulkPut (items : Dict String Json)

/-- The node after a call. -/
def Call.apply (n : Persistent File) : Call → Persistent File
  | .put key value => (Persistent.put json key value n).2
  | .delete key => (Persistent.delete json key n).2
  | .bulkPut items => Persistent.bulkPut json items n

/-- The node after the calls. -/
def after (n : Persistent File) (calls : List Call) : Persistent File :=
  calls.foldl (Call.apply json) n

/-- What the snapshot file says, a missing file counting as an empty store. -/
def snapshot : Option File → Dict String Json
  | none => .empty
  | some f => json.loads f

end Calls

/-! ### The calls as operations on memory and file -/

variable {File : Type} {json : JsonFormat File} {n : Persistent File}

/-- The file is read and written as JSON, and is empty when it is missing. -/
def format (json : JsonFormat File) : Format (Dict String Json) File :=
  ⟨json.dumps, json.loads, .empty, json.loads_dumps⟩

/-- The change a call makes, and when it saves. -/
def Call.op : Call → Op (Dict String Json)
  | .put key value => ⟨fun d => d.set key value, fun _ => true⟩
  | .delete key => ⟨fun d => d.erase key, fun d => popped (d.get key)⟩
  | .bulkPut items => ⟨fun d => d.update items, fun _ => true⟩

theorem Call.apply_eq (call : Call) (n : Persistent File) :
    call.apply json n = call.op.apply (format json) n := by
  cases call with
  | put key value => rfl
  | delete key => rfl
  | bulkPut items => rfl

/-- A node that starts with the file of another one is that node restarted. -/
theorem boot_eq (n : Persistent File) : boot json n.file = n.restart (format json) := by
  obtain ⟨memory, file⟩ := n
  cases file with
  | none => rfl
  | some f => rfl

theorem synced_iff : n.Synced (format json) ↔ snapshot json n.file = n.memory := by
  obtain ⟨memory, file⟩ := n
  cases file with
  | none => exact Iff.rfl
  | some f => exact Iff.rfl

theorem after_eq (n : Persistent File) (calls : List Call) :
    after json n calls = run (format json) (calls.map Call.op) n := by
  unfold after run
  rw [List.foldl_map]
  exact congrFun (congrFun (congrArg _ (funext fun n => funext fun call => call.apply_eq n)) n) calls

/-- A call leaves memory and file apart only when it deletes a key with the
value `null`. -/
theorem Call.op_faithful_iff (call : Call) (d : Dict String Json) :
    (call.op.saves d = true ∨ call.op.change d = d) ↔
      ∀ key, call = .delete key → d.get key ≠ some .null := by
  cases call with
  | put key value => exact iff_of_true (.inl rfl) nofun
  | bulkPut items => exact iff_of_true (.inl rfl) nofun
  | delete key =>
    have hop : (Call.delete key).op = ⟨fun d => d.erase key, fun d => popped (d.get key)⟩ := rfl
    rw [hop]
    dsimp only
    cases hget : d.get key with
    | none => exact iff_of_true (.inr (Dict.erase_eq_self hget)) (by rintro _ ⟨⟩; simp [hget])
    | some value =>
      by_cases hnull : value = .null
      · subst hnull
        refine iff_of_false ?_ fun h => h key rfl hget
        rintro (hsaves | hsame)
        · cases hsaves
        · rw [← hsame, Dict.get_erase_self] at hget
          cases hget
      · refine iff_of_true (.inl ?_) ?_
        · cases value with
          | null => exact absurd rfl hnull
          | _ => rfl
        · rintro _ ⟨⟩ h
          rw [hget] at h
          exact hnull (Option.some.inj h)

theorem boot_eq_self_iff : boot json n.file = n ↔ snapshot json n.file = n.memory := by
  rw [boot_eq, restart_eq_iff, synced_iff]

/-- The calls of a run keep the file in step when none deletes a `null`. -/
theorem faithful_iff (calls : List Call) : Faithful (format json) n (calls.map Call.op) ↔
    ∀ pre key post, calls = pre ++ .delete key :: post →
      (after json n pre).memory.get key ≠ some .null := by
  constructor
  · rintro h pre key post rfl
    have hstep := h (pre.map Call.op) (Call.delete key).op (post.map Call.op) (by simp)
    rw [← after_eq, Call.op_faithful_iff] at hstep
    exact hstep key rfl
  · intro h pre op post hsplit
    obtain ⟨calls₁, rest, rfl, rfl, hrest⟩ := List.map_eq_append_iff.1 hsplit
    obtain ⟨call, calls₂, rfl, rfl, -⟩ := List.map_eq_cons_iff.1 hrest
    rw [← after_eq, Call.op_faithful_iff]
    rintro key rfl
    exact h calls₁ key calls₂ rfl

/-- **The snapshot is the store, except after the deletion of a `null`.**  A
node starts from any file, or from none, and any calls are made.  After each of
them the snapshot says what is in memory, and a node restarted from it is the
same, exactly when no call deletes a key whose value is `null`. -/
theorem snapshot_synced_iff (json : JsonFormat File) (file : Option File) (calls : List Call) :
    (∀ pre, pre <+: calls →
        snapshot json (after json (boot json file) pre).file =
            (after json (boot json file) pre).memory ∧
          boot json (after json (boot json file) pre).file = after json (boot json file) pre) ↔
      ∀ pre key post, calls = pre ++ .delete key :: post →
        (after json (boot json file) pre).memory.get key ≠ some .null := by
  have hboot : (boot json file).Synced (format json) := by
    have hrestart : boot json file = _ := boot_eq ⟨.empty, file⟩
    rw [hrestart]
    exact synced_restart _
  rw [← faithful_iff, ← synced_prefixes_iff hboot]
  constructor
  · intro h pre hpre
    obtain ⟨calls', hcalls', rfl⟩ := List.prefix_map_iff.1 hpre
    rw [← after_eq, synced_iff]
    exact (h calls' hcalls').1
  · intro h pre hpre
    have hsynced := h (pre.map Call.op) (hpre.map Call.op)
    rw [← after_eq, synced_iff] at hsynced
    exact ⟨hsynced, boot_eq_self_iff.2 hsynced⟩

/-- A file that is the store itself. -/
def plain : JsonFormat (Dict String Json) := ⟨id, id, fun _ => rfl⟩

/-- A key with the value `null` is put and deleted: it is gone from memory and
still in the snapshot, so the node finds it again when it restarts. -/
theorem delete_null_not_saved :
    ((after plain (boot plain none) [.put "k" .null, .delete "k"]).memory.get "k").isNone = true ∧
      ((snapshot plain
        (after plain (boot plain none) [.put "k" .null, .delete "k"]).file).get "k").isSome = true ∧
      ¬∀ pre, pre <+: [Call.put "k" .null, .delete "k"] →
        snapshot plain (after plain (boot plain none) pre).file =
          (after plain (boot plain none) pre).memory := by
  have hmemory : ((after plain (boot plain none) [.put "k" .null, .delete "k"]).memory.get
      "k").isNone = true := by decide
  have hfile : ((snapshot plain (after plain (boot plain none)
      [.put "k" .null, .delete "k"]).file).get "k").isSome = true := by decide
  refine ⟨hmemory, hfile, fun h => ?_⟩
  rw [h _ (List.prefix_refl _)] at hfile
  rw [Option.isNone_iff_eq_none.1 hmemory] at hfile
  cases hfile

end Persistent
end Data
end ChordInfra
