import Mathlib.Data.List.Nodup
import MilpRounding.Proofs.CourseStages

namespace MilpRounding

open Scalar LawfulScalar

variable {α : Type} [Scalar α]

namespace Tableau

variable {y : Tableau α} {s : Store α} {stopOnStall : Bool} {left : Nat} {pending : List Nat}

theorem sweepFrom_pending_sublist (y : Tableau α) (pending : List Nat) (s : Store α) :
    (y.sweepFrom pending s).pending.Sublist pending := by
  induction pending generalizing s with
  | nil => exact .slnil
  | cons j rest ih =>
      rw [sweepFrom_cons_pending]
      split
      · exact (ih _).cons j
      · exact (ih _).cons_cons j

omit [Scalar α] in
theorem ref_injective (hy : y.columns.Nodup) {i j : Nat} (hi : i < y.columns.length)
    (hj : j < y.columns.length) (h : y.ref i = y.ref j) : i = j := by
  simp only [ref, List.getD_eq_getElem?_getD, List.getElem?_eq_getElem, hi, hj,
    Option.getD_some] at h
  exact (List.getElem_inj hy).mp h

omit [Scalar α] in
theorem nodup_map_ref (hy : y.columns.Nodup) (hp : pending.Nodup)
    (hlt : ∀ j ∈ pending, j < y.columns.length) : (pending.map y.ref).Nodup :=
  hp.map_on fun i hi j hj h => ref_injective hy (hlt i hi) (hlt j hj) h

theorem read_sweepFrom_of_not_mem {r : Ref} (h : r ∉ pending.map y.ref) (s : Store α) :
    (y.sweepFrom pending s).store.read r = s.read r := by
  refine (sweepFrom_invariant (P := fun t => t.read r = s.read r) (fun t j hj ht => ?_)
    (List.Subset.refl pending) rfl).2
  have hne : y.ref j ≠ r := fun hr => h (hr ▸ List.mem_map_of_mem hj)
  exact (read_next_of_ne hne t).trans ht

theorem size_next (y : Tableau α) (s : Store α) (j : Nat) : (y.next s j).1.size = s.size := by
  rw [next]
  split
  next => rfl
  next => exact Store.size_write s _ _

theorem size_sweepFrom (y : Tableau α) (pending : List Nat) (s : Store α) :
    (y.sweepFrom pending s).store.size = s.size :=
  (sweepFrom_invariant (P := fun t => t.size = s.size)
    (fun t j _ ht => (y.size_next t j).trans ht) (List.Subset.refl pending) rfl).2

theorem size_course (y : Tableau α) (stopOnStall : Bool) (left : Nat) (pending : List Nat)
    (s : Store α) : (y.course stopOnStall left pending s).store.size = s.size :=
  (course_invariant (P := fun t => t.size = s.size)
    (fun t j _ ht => (y.size_next t j).trans ht) stopOnStall left
    (List.Subset.refl pending) rfl).2

theorem kind_next (y : Tableau α) (s : Store α) (j : Nat) (r : Ref) :
    ((y.next s j).1.read r).kind = (s.read r).kind := by
  rw [next]
  split
  next => rfl
  next =>
    rw [Store.read_write]
    split
    next h =>
      rw [← h.1]
      rfl
    next => rfl

theorem kind_course (y : Tableau α) (stopOnStall : Bool) (left : Nat) (pending : List Nat)
    (s : Store α) (r : Ref) :
    ((y.course stopOnStall left pending s).store.read r).kind = (s.read r).kind :=
  (course_invariant (P := fun t => (t.read r).kind = (s.read r).kind)
    (fun t j _ ht => (y.kind_next t j r).trans ht) stopOnStall left
    (List.Subset.refl pending) rfl).2

theorem isFractional_of_mem_sweepFrom (hp : (pending.map y.ref).Nodup) :
    ∀ j ∈ (y.sweepFrom pending s).pending,
      y.isFractional (y.sweepFrom pending s).store j = true := by
  induction pending generalizing s with
  | nil => exact fun j hj => nomatch hj
  | cons i rest ih =>
      obtain ⟨hi, hrest⟩ := List.nodup_cons.mp hp
      intro j hj
      rw [sweepFrom_cons_pending] at hj
      change y.isFractional (y.sweepFrom rest (y.next s i).1).store j = true
      split at hj
      next => exact ih hrest j hj
      next hw =>
        rcases List.mem_cons.mp hj with rfl | hj
        · rw [isFractional, variableAt, read_sweepFrom_of_not_mem hi]
          simpa [variableAt] using hw
        · exact ih hrest j hj

theorem isFractional_of_mem_course (hp : (pending.map y.ref).Nodup)
    (hstart : left = 0 → ∀ j ∈ pending, y.isFractional s j = true) :
    ∀ j ∈ (y.course stopOnStall left pending s).pending,
      y.isFractional (y.course stopOnStall left pending s).store j = true := by
  induction left generalizing pending s with
  | zero => exact hstart rfl
  | succ left ih =>
      have hw := isFractional_of_mem_sweepFrom (s := s) hp
      cases hr : (y.sweepFrom pending s).reason? stopOnStall with
      | some status =>
          rw [course_of_reason hr]
          exact hw
      | none =>
          rw [course_of_no_reason hr]
          exact ih (hp.sublist ((sweepFrom_pending_sublist y pending s).map y.ref)) fun _ => hw

theorem pending_course [LawfulScalar α] (hs : s.Sound) (hp : (pending.map y.ref).Nodup)
    (hleft : 1 ≤ left) :
    (y.course stopOnStall left pending s).pending =
      pending.filter (y.isFractional (y.course stopOnStall left pending s).store) := by
  have hfractional : ∀ j ∈ (y.course stopOnStall left pending s).pending,
      y.isFractional (y.course stopOnStall left pending s).store j = true :=
    isFractional_of_mem_course hp fun h => absurd hleft (by omega)
  rw [← filter_pending_course hs fun _ hj => hj]
  exact (List.filter_eq_self.mpr hfractional).symm

theorem length_sweeps_le (y : Tableau α) (stopOnStall : Bool) (left : Nat) (pending : List Nat)
    (s : Store α) : (y.course stopOnStall left pending s).sweeps.length ≤ left := by
  induction left generalizing pending s with
  | zero => exact Nat.le_refl 0
  | succ left ih =>
      cases hr : (y.sweepFrom pending s).reason? stopOnStall with
      | some status =>
          rw [course_of_reason hr]
          exact Nat.succ_le_succ (Nat.zero_le left)
      | none =>
          rw [course_of_no_reason hr, Course.after, List.length_append, List.length_singleton,
            Nat.add_comm]
          exact Nat.succ_le_succ (ih _ _)

theorem length_sweeps_pos (y : Tableau α) (stopOnStall : Bool) (left : Nat) (pending : List Nat)
    (s : Store α) : 0 < (y.course stopOnStall (left + 1) pending s).sweeps.length := by
  cases hr : (y.sweepFrom pending s).reason? stopOnStall with
  | some status =>
      rw [course_of_reason hr]
      exact Nat.succ_pos _
  | none =>
      rw [course_of_no_reason hr]
      exact Nat.succ_pos _

end Tableau

end MilpRounding
