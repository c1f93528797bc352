/-
# Traversal of a graph with a queue and a set of seen vertices

The loop takes the first vertex of the queue, skips it if it was seen, and
otherwise marks it and appends its unseen neighbours.  A vertex may stand in
the queue several times, since it is marked when it is taken out, not when it
is put in.

`visit` returns the vertices in the order in which they are visited, and `none`
only when its fuel runs out.  `visit_isSome` bounds the fuel for a finite set of
vertices, and `visit_spec` says what is visited: each vertex that can be
reached, once.
-/

import Mathlib.Data.Finset.Card
import Mathlib.Logic.Relation

namespace ChordInfra
namespace Traverse

variable {α : Type} [DecidableEq α]

/-- The vertices visited from a queue on, `seen` being marked already. -/
def visit (next : α → List α) : ℕ → List α → List α → Option (List α)
  | _, _, [] => some []
  | 0, _, _ :: _ => none
  | fuel + 1, seen, a :: queue =>
    if a ∈ seen then visit next fuel seen queue
    else (visit next fuel (a :: seen)
      (queue ++ (next a).filter fun b => b ∉ a :: seen)).map (a :: ·)

/-- `b` can be reached from `a`. -/
def Reach (next : α → List α) : α → α → Prop := Relation.ReflTransGen fun a b => b ∈ next a

variable {next : α → List α} {fuel : ℕ} {seen queue visited : List α} {a b start : α}

@[simp] theorem visit_nil (next : α → List α) (fuel : ℕ) (seen : List α) :
    visit next fuel seen [] = some [] := by
  cases fuel <;> rfl

/-- The loop with something in the queue: the vertex is skipped or visited. -/
theorem visit_cons_cases (h : visit next fuel seen (a :: queue) = some visited) :
    ∃ f, fuel = f + 1 ∧
      (a ∈ seen ∧ visit next f seen queue = some visited ∨
        a ∉ seen ∧ ∃ rest, visited = a :: rest ∧
          visit next f (a :: seen)
            (queue ++ (next a).filter fun b => b ∉ a :: seen) = some rest) := by
  cases fuel with
  | zero => cases h
  | succ f =>
    rw [visit] at h
    refine ⟨f, rfl, ?_⟩
    by_cases ha : a ∈ seen
    · rw [if_pos ha] at h
      exact .inl ⟨ha, h⟩
    · rw [if_neg ha] at h
      obtain ⟨rest, hrest, rfl⟩ := Option.map_eq_some_iff.1 h
      exact .inr ⟨ha, rest, rfl, hrest⟩

/-- What is known of a visit: nothing is visited twice or again, all that is
visited comes from the queue, and the queue and the neighbours of what is
visited are dealt with. -/
structure Visited (next : α → List α) (seen queue visited : List α) : Prop where
  nodup : visited.Nodup
  fresh : ∀ a ∈ visited, a ∉ seen
  sound : ∀ a ∈ visited, ∃ q ∈ queue, Reach next q a
  queued : ∀ a ∈ queue, a ∈ seen ∨ a ∈ visited
  closed : ∀ a ∈ visited, ∀ b ∈ next a, b ∈ seen ∨ b ∈ visited

omit [DecidableEq α] in
theorem Visited.nil : Visited next seen [] [] := ⟨List.nodup_nil, nofun, nofun, nofun, nofun⟩

theorem visited_of_visit (h : visit next fuel seen queue = some visited) :
    Visited next seen queue visited := by
  induction fuel generalizing seen queue visited with
  | zero =>
    cases queue with
    | nil =>
      obtain rfl := Option.some.inj h
      exact .nil
    | cons a queue => cases h
  | succ fuel ih =>
    cases queue with
    | nil =>
      obtain rfl := Option.some.inj h
      exact .nil
    | cons a queue =>
      obtain ⟨f, hf, ⟨ha, hrest⟩ | ⟨ha, rest, rfl, hrest⟩⟩ := visit_cons_cases h
      · obtain rfl := Nat.succ.inj hf
        have hvisited := ih hrest
        refine { hvisited with sound := fun b hb => ?_, queued := fun b hb => ?_ }
        · obtain ⟨q, hq, hreach⟩ := hvisited.sound b hb
          exact ⟨q, List.mem_cons_of_mem _ hq, hreach⟩
        · rcases List.mem_cons.1 hb with rfl | hb
          · exact .inl ha
          · exact hvisited.queued b hb
      · obtain rfl := Nat.succ.inj hf
        have hvisited := ih hrest
        -- a vertex dealt with after `a` was marked is marked before or visited from `a` on
        have hmark : ∀ b, b ∈ a :: seen ∨ b ∈ rest → b ∈ seen ∨ b ∈ a :: rest := by
          rintro b (hb | hb)
          · rcases List.mem_cons.1 hb with rfl | hb
            · exact .inr List.mem_cons_self
            · exact .inl hb
          · exact .inr (List.mem_cons_of_mem _ hb)
        refine ⟨List.nodup_cons.2 ⟨fun hmem => ?_, hvisited.nodup⟩, fun b hb => ?_, fun b hb => ?_,
          fun b hb => ?_, fun b hb c hc => ?_⟩
        · exact hvisited.fresh a hmem List.mem_cons_self
        · rcases List.mem_cons.1 hb with rfl | hb
          · exact ha
          · exact fun hseen => hvisited.fresh b hb (List.mem_cons_of_mem _ hseen)
        · rcases List.mem_cons.1 hb with rfl | hb
          · exact ⟨b, List.mem_cons_self, .refl⟩
          · obtain ⟨q, hq, hreach⟩ := hvisited.sound b hb
            rcases List.mem_append.1 hq with hq | hq
            · exact ⟨q, List.mem_cons_of_mem _ hq, hreach⟩
            · exact ⟨a, List.mem_cons_self, .head (List.mem_filter.1 hq).1 hreach⟩
        · rcases List.mem_cons.1 hb with rfl | hb
          · exact .inr List.mem_cons_self
          · exact hmark b (hvisited.queued b (List.mem_append_left _ hb))
        · rcases List.mem_cons.1 hb with rfl | hb
          · refine hmark c ?_
            by_cases hseen : c ∈ b :: seen
            · exact .inl hseen
            · exact hvisited.queued c (List.mem_append_right _
                (List.mem_filter.2 ⟨hc, decide_eq_true hseen⟩))
          · exact hmark c (hvisited.closed b hb c hc)

/-- **What a traversal visits**: from a vertex whose neighbours are queued, each
vertex that can be reached, once. -/
theorem visit_spec (hsub : ∀ b ∈ queue, b ∈ next start)
    (hqueue : ∀ b ∈ next start, b ∈ queue ∨ b = start)
    (h : visit next fuel [start] queue = some visited) :
    (start :: visited).Nodup ∧ ∀ a, a ∈ start :: visited ↔ Reach next start a := by
  have hvisited := visited_of_visit h
  refine ⟨List.nodup_cons.2 ⟨fun hmem => ?_, hvisited.nodup⟩, fun a => ⟨fun ha => ?_, fun ha => ?_⟩⟩
  · exact hvisited.fresh start hmem (List.mem_singleton_self start)
  · rcases List.mem_cons.1 ha with rfl | ha
    · exact .refl
    · obtain ⟨q, hq, hreach⟩ := hvisited.sound a ha
      exact .head (hsub q hq) hreach
  · induction ha with
    | refl => exact List.mem_cons_self
    | @tail b c _ hbc ih =>
      have hmark : c ∈ [start] ∨ c ∈ visited → c ∈ start :: visited := by
        rintro (hc | hc)
        · rw [List.mem_singleton.1 hc]
          exact List.mem_cons_self
        · exact List.mem_cons_of_mem _ hc
      rcases List.mem_cons.1 ih with rfl | hb
      · rcases hqueue c hbc with hc | rfl
        · exact hmark (hvisited.queued c hc)
        · exact List.mem_cons_self
      · exact hmark (hvisited.closed b hb c hbc)

/-! ### Termination -/

/-- More fuel changes nothing. -/
theorem visit_mono {fuel' : ℕ} (hle : fuel ≤ fuel') (h : visit next fuel seen queue = some visited) :
    visit next fuel' seen queue = some visited := by
  induction fuel' generalizing fuel seen queue visited with
  | zero =>
    obtain rfl : fuel = 0 := Nat.le_zero.1 hle
    exact h
  | succ fuel' ih =>
    cases queue with
    | nil =>
      rw [visit_nil] at h ⊢
      exact h
    | cons a queue =>
      obtain ⟨f, rfl, ⟨ha, hrest⟩ | ⟨ha, rest, rfl, hrest⟩⟩ := visit_cons_cases h
      · rw [visit, if_pos ha]
        exact ih (Nat.le_of_succ_le_succ hle) hrest
      · rw [visit, if_neg ha, ih (Nat.le_of_succ_le_succ hle) hrest]
        rfl

/-- **A traversal within a finite set of vertices ends.**  Skipping shortens the
queue; a visit marks a vertex and queues at most `width` others. -/
theorem visit_isSome {vertices : Finset α} {width : ℕ} (hnext : ∀ a, ∀ b ∈ next a, b ∈ vertices)
    (hwidth : ∀ a, (next a).length ≤ width) (hqueue : ∀ a ∈ queue, a ∈ vertices)
    (hfuel : queue.length + width * (vertices \ seen.toFinset).card ≤ fuel) :
    (visit next fuel seen queue).isSome := by
  induction fuel generalizing seen queue with
  | zero =>
    obtain rfl : queue = [] := List.length_eq_zero_iff.1 (by omega)
    rfl
  | succ fuel ih =>
    cases queue with
    | nil => rfl
    | cons a queue =>
      rw [List.length_cons] at hfuel
      have hrest : ∀ b ∈ queue, b ∈ vertices := fun b hb => hqueue b (List.mem_cons_of_mem _ hb)
      rw [visit]
      by_cases ha : a ∈ seen
      · rw [if_pos ha]
        exact ih hrest (by omega)
      · rw [if_neg ha, Option.isSome_map]
        refine ih (fun b hb => ?_) ?_
        · rcases List.mem_append.1 hb with hb | hb
          · exact hrest b hb
          · exact hnext a b (List.mem_filter.1 hb).1
        · have hmem : a ∈ vertices \ seen.toFinset :=
            Finset.mem_sdiff.2 ⟨hqueue a List.mem_cons_self, fun h => ha (List.mem_toFinset.1 h)⟩
          have hcard : (vertices \ (a :: seen).toFinset).card + 1 =
              (vertices \ seen.toFinset).card := by
            rw [List.toFinset_cons, Finset.sdiff_insert]
            exact Finset.card_erase_add_one hmem
          have hpushed : ((next a).filter fun b => b ∉ a :: seen).length ≤ width :=
            (List.length_filter_le _ _).trans (hwidth a)
          rw [← hcard, Nat.mul_succ] at hfuel
          rw [List.length_append]
          omega

end Traverse
end ChordInfra
