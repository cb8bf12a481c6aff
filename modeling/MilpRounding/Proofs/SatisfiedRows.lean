import MilpRounding.Proofs.InequalityRows
import MilpRounding.Proofs.StrictRows

namespace MilpRounding

open Scalar LawfulScalar Rounding

/-- An inequality with finite numbers, not a strict one, that holds at a point. -/
structure Row.Satisfied (x : List ℚ) (r : Row Exact) : Prop where
  rational : r.Rational
  inequality : r.relation ≠ .eq
  lax : r.relation.isStrict = false
  room : 0 ≤ r.room x

namespace Row.Satisfied

variable {r : Row Exact} {x : List ℚ}

theorem not_isViolated (h : r.Satisfied x) {tol : Exact} (ht : 0 ≤ tol) :
    r.isViolated tol (x.map .finite) = false := by
  refine h.rational.isViolated_eq_false h.inequality ht h.room fun hstrict => ?_
  rw [h.lax] at hstrict
  cases hstrict

theorem toward (h : r.Satisfied x) (target : Relation) : (r.toward target).Satisfied x where
  rational := h.rational.toward target
  inequality := Row.relation_toward_ne h.inequality target
  lax := (r.isStrict_toward target).trans h.lax
  room := by
    rw [Row.room_toward h.rational]
    exact h.room

end Row.Satisfied

theorem violatedRows_of_satisfied {rows : List (Row Exact)} {x : List ℚ}
    (h : ∀ r ∈ rows, r.Satisfied x) {tol : Exact} (ht : 0 ≤ tol) :
    violatedRows tol rows (x.map .finite) = [] :=
  violatedRows_eq_nil fun r hr => (h r hr).not_isViolated ht

namespace Tableau

variable {y : Tableau Exact} {s : Store Exact} {columns : List Nat}

/-- Rows that hold at the start of a course hold at its end. -/
theorem satisfied_course (hy : y.Prepared) (hs : s.Sound)
    (hcolumns : ∀ j ∈ columns, j < y.columns.length) (h : ∀ r ∈ y.rows, r.Satisfied (y.point s))
    (stopOnStall : Bool) (left : Nat) :
    ∀ r ∈ y.rows, r.Satisfied (y.point (y.course stopOnStall left columns s).store) := by
  intro r hr
  obtain ⟨hrational, hne, hlax, hroom⟩ := h r hr
  have hend := (course_room hy hs hcolumns stopOnStall left hr).2
  rw [min_eq_left hroom] at hend
  exact ⟨hrational, hne, hlax, hend⟩

theorem isFeasible_of_satisfied (hs : s.Sound) (h : ∀ r ∈ y.rows, r.Satisfied (y.point s))
    {tol : Exact} (ht : 0 ≤ tol) : y.isFeasible tol s = true := by
  rw [isFeasible, violated, values_eq hs, violatedRows_of_satisfied h ht]
  rfl

end Tableau

namespace Reported

variable {options : Options Exact} {idx : List Int} {c : Scene Exact} {columns : List Ref}
  {rows : List (Row Exact)}

theorem feasible_of_satisfied (h : Reported options idx c columns rows)
    (hrows : ∀ r ∈ rows, r.Satisfied (point columns c.store)) (ht : 0 ≤ options.tol) :
    (reportOf options (some idx) (tableau options c.model)
      (passage options (some idx) c)).feasible = true := by
  have hstart : ∀ r ∈ (tableau options c.model).rows,
      r.Satisfied ((tableau options c.model).point c.store) := by
    intro r hr
    rw [h.tableau_eq] at hr
    obtain ⟨r, hmem, rfl⟩ := List.mem_map.mp hr
    rw [h.point_eq]
    exact (hrows r hmem).toward .le
  exact Tableau.isFeasible_of_satisfied h.passage_sound
    (Tableau.satisfied_course h.prepared h.sound h.listed_lt hstart options.stopOnStall
      options.maxSweeps.1) ht

end Reported

end MilpRounding
