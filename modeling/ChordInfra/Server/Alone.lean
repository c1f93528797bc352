/-
# A node alone

A ring of one member.  Its node owns every key and has no replicas, so every record that a
handler writes is put into its own store, under the id stripped (`Fine`), and no append to
a list fails: nothing is rolled back.
-/

import ChordInfra.Server.Outcomes

namespace ChordInfra
namespace Server

open Interact Prog
open Storage
open Storage.Serving (Runs)
open ChordInfra.Ring (NodeRef)

/-- The only member of a ring, and its own successor. -/
structure Alone {env : Env} (ring : FixedRing env) (node : NodeRef) : Prop where
  members : ring.members = {node}
  successor : ring.successor node.address = some node

namespace Alone

variable {env : Env} {ring : FixedRing env} {node : NodeRef} (h : Alone ring node)

include h

theorem mem : node ∈ ring.members := by
  rw [h.members]
  rfl

theorem owner (key : Key) : ring.owner key = node := by
  have hmem := ring.owner_mem key
  rw [h.members] at hmem
  exact hmem

theorem home (id : String) : ring.home id = node := h.owner _

theorem replicas (k : ℕ) : ring.replicas k node = [] := by
  obtain ⟨n, hn⟩ : ∃ n, max 1 k = n + 1 := ⟨max 1 k - 1, by omega⟩
  unfold FixedRing.replicas
  rw [hn]
  unfold FixedRing.chain
  simp [h.successor]

end Alone

/-! ### What the handlers write -/

/-- The answers of a ring of one node. -/
def Own (node : NodeRef) : (o : Op) → o.Res → Prop
  | .findSuccessor a _, n => a = node.address → n = node
  | .rpc a .getState, x => a = node.address → ∀ y ∈ x, y = some node
  | .items a, l => ∀ e ∈ l, ∀ x, e.1 = .result x → a = node.address ∧ x = strip x
  | _, _ => True

/-- A record is put into the store of the node under its id stripped, and none is
deleted. -/
structure Fine (node : NodeRef) (o : Op) : Prop where
  writes : ∀ a x v, o.writes = some (a, .result x, v) → a = node.address ∧ x = strip x
  deletes : ∀ a x, o.deletes ≠ some (a, .result x)
  calm : o.Calm

theorem Fine.of_reads {node : NodeRef} {o : Op} (hr : o.Reads) (hc : o.Calm) : Fine node o where
  writes a x v h := by
    rw [hr.writes] at h
    cases h
  deletes a x h := by
    rw [hr.deletes] at h
    cases h
  calm := hc

section Handlers

variable {node : NodeRef}

theorem serving_fine : Serving (Own node) (Fine node) fun _ _ => True where
  get _ _ := ⟨.of_reads trivial trivial, fun _ _ => trivial⟩
  rpcGet _ _ := ⟨.of_reads trivial trivial, fun _ _ => trivial⟩
  getReplica _ _ := ⟨.of_reads trivial trivial, fun _ _ => trivial⟩
  getState _ := .of_reads trivial trivial
  findSuccessor _ _ := .of_reads trivial trivial
  now := .of_reads trivial trivial
  lock _ _ := .of_reads trivial trivial
  unlock _ _ := .of_reads trivial trivial
  deliver _ _ := .of_reads trivial trivial
  writes o a k r ho := by
    refine ⟨fun b x v h => ?_, fun b x h => ?_, Op.calm_of_writes ho⟩
    · rw [ho] at h
      cases h
    · rw [Op.deletes_of_writes ho] at h
      cases h

/-- The chain of the node is the node. -/
theorem replicas_fine (k : ℕ) :
    Does (Own node) (Fine node) (Replication.getReplicas k node) fun l => l = [] := by
  obtain ⟨n, hn⟩ : ∃ n, max 1 k = n + 1 := ⟨max 1 k - 1, by omega⟩
  unfold Replication.getReplicas Replication.getSuccessorChain
  rw [hn]
  unfold Replication.chainFrom
  rw [if_neg List.not_mem_nil]
  have hstate : Does (Own node) (Fine node) (Transport.request node.address .getState)
      fun y => y = some node :=
    Serving.request (.of_reads trivial trivial) fun y hy => hy rfl y rfl
  refine .bind (R := fun l => l = [node]) (.bind hstate.attempt fun x hx => ?_) ?_
  · cases x with
    | error e => exact .pure rfl
    | ok y =>
      obtain rfl := hx y rfl
      dsimp only
      rw [if_pos rfl]
      exact .pure rfl
  · intro l hl
    subst hl
    exact .pure rfl

/-- A record is written in the one place where it belongs. -/
theorem put_fine {s : Service} (hs : s.node = node) (id : String) (record : ResultRecord) :
    Runs (Own node) (Fine node) (ResultService.put s id record) := by
  have h : Serving (Own node) (Fine node) fun _ _ => True := serving_fine
  refine .bind (Serving.lift (Q := fun _ => True) fun _ _ => trivial) fun _ _ =>
    .bind (Serving.resultKey id) ?_
  rintro key rfl
  have howner : Does (Own node) (Fine node) (s.owner (.result (strip id))) fun n => n = node :=
    .perform (h.findSuccessor _ _) fun _ hn => hn (by rw [hs])
  refine .bind howner ?_
  rintro primary rfl
  have hput : Fine primary (.put s.node.address (.result (strip id)) (.result record)) := by
    refine ⟨fun a x v ha => ?_, fun a x hd => (by cases hd), trivial⟩
    cases ha
    exact ⟨by rw [hs], (strip_strip id).symm⟩
  have hlocal : Runs (Own primary) (Fine primary) (s.putOnNode primary (.result (strip id))
      (.result record)) := by
    unfold Service.putOnNode
    rw [if_pos (by rw [hs])]
    exact .step hput
  refine .bind hlocal fun _ _ => ?_
  unfold ResultService.replicate Replication.replicateWith
  refine .bind (replicas_fine _) fun replicas hreplicas => ?_
  subst hreplicas
  exact .pure trivial

theorem handling_fine : Handling (Own node) (Fine node) (fun _ _ => True) fun s => s.node = node where
  toServing := serving_fine
  put _ hs _ _ _ _ := put_fine hs _ _
  registry _ _ hc _ := .of_reads trivial hc
  spawn _ := .of_reads trivial trivial
  items a := by
    refine ⟨.of_reads trivial trivial, fun l hl e he => ⟨trivial, fun v _ => ?_⟩⟩
    refine ⟨fun b x u hb => ?_, fun b x hd => (by cases hd), trivial⟩
    obtain ⟨rfl, hx, -⟩ : a = b ∧ e.1 = .result x ∧ v = u := by simpa [Op.writes] using hb
    exact hl e he x hx

/-- A task gets on the list of a worker. -/
theorem append_fine {s : Service} (hs : s.node = node) {workerId : String} (hw : workerId ≠ "")
    (id : String) :
    Gives (Own node) (Fine node) (WorkerAssignment.append s workerId id) fun _ => True := by
  unfold WorkerAssignment.append WorkerAssignment.appendBy buildWorkerKey
  rw [if_neg hw, lift_ok_bind]
  have howner : Gives (Own node) (Fine node) (s.owner (.worker (strip workerId)))
      fun n => n = node := .perform (.of_reads trivial trivial) fun _ hn => hn (by rw [hs])
  refine .bind howner ?_
  rintro primary rfl
  rw [if_pos (by rw [hs])]
  exact (yields_appendLocal hw _ _ _ _).gives (serving_fine.appendLocal _ _ _ _ _)

/-- What always ends with a value does so at the first try. -/
theorem Gives.retryLoop {A : (o : Op) → o.Res → Prop} {P : Op → Prop} {α : Type} {op : M α}
    {Q : α → Prop} (h : Gives A P op Q) (opName : String) (n : ℕ) :
    Gives A P (retryLoop opName op (n + 1)) Q := by
  refine ⟨wp_bind.2 (wp_attempt.2 (wp_mono (fun x _ hx => ?_) h.holds))⟩
  obtain ⟨a, rfl, ha⟩ := hx
  exact ⟨a, rfl, ha⟩

/-- The append of `/createTask` is not rolled back. -/
theorem assign_fine {cfg : Config} {s : Service} (hs : s.node = node)
    (hinject : cfg.inject = .nothing) {record : ResultRecord} (hw : record.workerId ≠ "") :
    Runs (Own node) (Fine node) (assign cfg s record) := by
  have hop : Gives (Own node) (Fine node) (ht2Op cfg s record) fun _ => True := by
    unfold ht2Op
    rw [if_neg (by rw [hinject]; decide)]
    exact .bind (append_fine hs hw _) fun _ _ => .pure trivial
  refine .bind (Gives.retryLoop hop (ht2OpName record) maxRetries).attempt fun x hx => ?_
  obtain ⟨_, rfl, -⟩ := hx
  exact .pure trivial

theorem createTask_fine {cfg : Config} {s : Service} (hs : s.node = node)
    (hinject : cfg.inject = .nothing) (body : Fields) :
    Runs (Own node) (Fine node) (createTask cfg s body) :=
  handling_fine.createTask law_trivial.toHandlerLaw hs
    (fun _ hw => assign_fine hs hinject hw) body

end Handlers

end Server
end ChordInfra
