import Mathlib.Data.Finset.Basic
import Mathlib.Data.Finset.Lattice.Lemmas

/-!
# Work in three stages

Items are first asked for, then wait in a queue, and then are done.  `Splits` says that the three
stages hold each item of a target once and nothing else; taking an item from the first stage to the
second and popping the queue keep it.

The stages are lists, so that the order in which items pass them can be seen, but `Splits` is about
their members only.  Nothing is asked about who moves the items: a stage may be filled by one party
and emptied by another, and calls that move nothing need no rule.
-/

/-- The items in each stage. -/
structure Pipeline (α : Type*) where
  asked : Finset α
  queued : List α
  done : Finset α

namespace Pipeline

variable {α : Type*} [DecidableEq α] {l : Pipeline α} {target : Finset α} {a : α} {rest : List α}

/-- Nothing is asked for, waits or is done. -/
def empty : Pipeline α := ⟨∅, [], ∅⟩

/-- All of the target is asked for, behind what still waits. -/
def ask (l : Pipeline α) (target : Finset α) : Pipeline α := ⟨target, l.queued, ∅⟩

/-- An item that was asked for has come. -/
def take (l : Pipeline α) (a : α) : Pipeline α := ⟨l.asked.erase a, l.queued ++ [a], l.done⟩

/-- The item at the front is done. -/
def pop (l : Pipeline α) (a : α) (rest : List α) : Pipeline α := ⟨l.asked, rest, insert a l.done⟩

/-- The stages hold each item of the target once, and nothing else. -/
structure Splits (l : Pipeline α) (target : Finset α) : Prop where
  nodup : l.queued.Nodup
  asked_queued : Disjoint l.asked l.queued.toFinset
  asked_done : Disjoint l.asked l.done
  queued_done : Disjoint l.queued.toFinset l.done
  union : l.asked ∪ l.queued.toFinset ∪ l.done = target

/-- An item of the target is in one of the three stages. -/
theorem Splits.mem_iff (h : l.Splits target) (b : α) :
    b ∈ target ↔ b ∈ l.asked ∨ b ∈ l.queued ∨ b ∈ l.done := by
  rw [← h.union, Finset.mem_union, Finset.mem_union, List.mem_toFinset, or_assoc]

/-- A target that is asked for while nothing waits. -/
theorem splits_ask (h : l.queued = []) (target : Finset α) : (l.ask target).Splits target := by
  have hnone : (l.ask target).queued = [] := h
  constructor
  · rw [hnone]
    exact List.nodup_nil
  · rw [hnone]
    exact Finset.disjoint_empty_right _
  · exact Finset.disjoint_empty_right _
  · exact Finset.disjoint_empty_right _
  · rw [hnone]
    change target ∪ ∅ ∪ ∅ = target
    rw [Finset.union_empty, Finset.union_empty]

/-- An item that was asked for and arrives joins the queue. -/
theorem Splits.take (h : l.Splits target) (ha : a ∈ l.asked) : (l.take a).Splits target := by
  have hqueued : a ∉ l.queued :=
    fun hmem => Finset.disjoint_left.mp h.asked_queued ha (List.mem_toFinset.mpr hmem)
  constructor
  · change (l.queued ++ [a]).Nodup
    rw [List.nodup_append_comm]
    exact List.nodup_cons.mpr ⟨hqueued, h.nodup⟩
  · refine Finset.disjoint_left.mpr fun b hb hmem => ?_
    obtain ⟨hne, hasked⟩ := Finset.mem_erase.mp hb
    rcases List.mem_append.mp (List.mem_toFinset.mp hmem) with hmem | hmem
    · exact Finset.disjoint_left.mp h.asked_queued hasked (List.mem_toFinset.mpr hmem)
    · exact hne (List.mem_singleton.mp hmem)
  · exact h.asked_done.mono_left (Finset.erase_subset a l.asked)
  · refine Finset.disjoint_left.mpr fun b hb hmem => ?_
    rcases List.mem_append.mp (List.mem_toFinset.mp hb) with hb | hb
    · exact Finset.disjoint_left.mp h.queued_done (List.mem_toFinset.mpr hb) hmem
    · rw [List.mem_singleton.mp hb] at hmem
      exact Finset.disjoint_left.mp h.asked_done ha hmem
  · ext b
    rw [h.mem_iff, Finset.mem_union, Finset.mem_union, List.mem_toFinset]
    change (b ∈ l.asked.erase a ∨ b ∈ l.queued ++ [a]) ∨ b ∈ l.done ↔ _
    rw [Finset.mem_erase, List.mem_append, List.mem_singleton]
    by_cases hb : b = a
    · rw [hb]
      simp [ha]
    · simp [hb, or_assoc]

/-- The first of the queue is done. -/
theorem Splits.pop (h : l.Splits target) (hfront : l.queued = a :: rest) :
    (l.pop a rest).Splits target := by
  have hnodup := h.nodup
  have hasked := h.asked_queued
  have hdone := h.queued_done
  rw [hfront, List.nodup_cons] at hnodup
  rw [hfront, List.toFinset_cons] at hasked hdone
  constructor
  · exact hnodup.2
  · exact hasked.mono_right (Finset.subset_insert a _)
  · change Disjoint l.asked (insert a l.done)
    rw [Finset.disjoint_insert_right]
    exact ⟨fun hmem => Finset.disjoint_left.mp hasked hmem (Finset.mem_insert_self a _), h.asked_done⟩
  · change Disjoint rest.toFinset (insert a l.done)
    rw [Finset.disjoint_insert_right, List.mem_toFinset]
    exact ⟨hnodup.1, hdone.mono_left (Finset.subset_insert a _)⟩
  · ext b
    rw [h.mem_iff, hfront, Finset.mem_union, Finset.mem_union, List.mem_toFinset, List.mem_cons]
    change (b ∈ l.asked ∨ b ∈ rest) ∨ b ∈ insert a l.done ↔ _
    rw [Finset.mem_insert]
    tauto

/-- Nothing is asked for and nothing waits: all is done. -/
theorem Splits.done_eq (h : l.Splits target) (hasked : l.asked = ∅) (hqueued : l.queued = []) :
    l.done = target := by
  rw [← h.union, hasked, hqueued, List.toFinset_nil, Finset.union_empty, Finset.empty_union]

end Pipeline
