import MilpRounding.Problem.Assembly
import MilpRounding.Proofs.RationalRows
import Mathlib.Data.List.Forall2

namespace MilpRounding

open Scalar

section Direct

variable {α : Type} [Scalar α]

def Expression.linear (e : Expression α) (value : String → α) : α :=
  (e.terms.map fun t => t.coefficient * value t.variableName).foldl (· + ·) 0

theorem Expression.eval_eq (e : Expression α) (value : String → α) :
    e.eval value = e.linear value + e.constant := rfl

/-- How far the left side of a constraint exceeds the right one. -/
def Constraint.excess (c : Constraint α) (value : String → α) : α := c.left.eval value - c.rhs

/-- Whether a constraint fails by more than is tolerated; a strict one tolerates nothing. -/
def Constraint.fails (tol : α) (value : String → α) (c : Constraint α) : Bool :=
  match c.relation with
  | .lt => decide (0 ≤ c.excess value)
  | .le => decide (tol < c.excess value)
  | .eq => decide (tol < magnitude (c.excess value))
  | .ge => decide (c.excess value < -tol)
  | .gt => decide (c.excess value ≤ 0)

end Direct

def assigned (y : String → ℚ) (name : String) : Exact := .finite (y name)

/-- A row that says of every assignment to the names what a constraint says. -/
structure Row.Means (names : List String) (c : Constraint Exact) (r : Row Exact) : Prop where
  relation : r.relation = c.relation
  excess (y : String → ℚ) : r.left (names.map (assigned y)) - r.rhs = c.excess (assigned y)

structure Constraint.Rational (c : Constraint Exact) : Prop where
  coefficients : ∀ t ∈ c.left.terms, isFinite t.coefficient = true
  constant : isFinite c.left.constant = true
  rhs : isFinite c.rhs = true

theorem form_modify (a : List ℚ) {x : List ℚ} {j : Nat} {q : ℚ} (hx : x[j]? = some q)
    (hj : j < a.length) (w : ℚ) : form (a.modify j (· + w)) x = form a x + w * q := by
  have ha : a.modify j (· + w) = a.set j (a.getD j 0 + w) := by
    rw [List.modify_eq_set_get _ hj]
    simp [hj]
  have hq : x.getD j 0 = q := by
    rw [List.getD_eq_getElem?_getD, hx]
    rfl
  rw [ha, form_comm, form_set x hj, form_comm, hq]
  ring

theorem modify_finite (ws : List ℚ) (j : Nat) (w : ℚ) :
    (ws.map Exact.finite).modify j (· + .finite w) = (ws.modify j (· + w)).map .finite := by
  apply List.ext_getElem?
  intro i
  simp only [List.getElem?_modify, List.getElem?_map]
  cases ws[i]? with
  | none => rfl
  | some q =>
      by_cases h : j = i <;> simp [h]

section Terms

variable {names : List String} {unknown : String → BuildFault Exact} {terms : List (Term Exact)}

def total (terms : List (Term Exact)) (y : String → ℚ) : ℚ :=
  (terms.map fun t => t.coefficient.toRat * y t.variableName).sum

theorem linear_finite {e : Expression Exact} (hterms : ∀ t ∈ e.terms, isFinite t.coefficient = true)
    (y : String → ℚ) : e.linear (assigned y) = .finite (total e.terms y) := by
  have h : (e.terms.map fun t => t.coefficient * assigned y t.variableName) =
      (e.terms.map fun t => t.coefficient.toRat * y t.variableName).map .finite := by
    rw [List.map_map]
    apply List.map_congr_left
    intro t ht
    rw [Exact.eq_finite (hterms t ht)]
    rfl
  rw [Expression.linear, h, Exact.zero_eq, foldl_add_finite, zero_add, total]

theorem getElem?_of_idxOf? {name : String} {j : Nat} (h : names.idxOf? name = some j) :
    names[j]? = some name := by
  obtain ⟨hj, rfl, -⟩ := List.idxOf?_eq_some_iff.mp h
  exact List.getElem?_eq_getElem hj

theorem addTerms_eq (hterms : ∀ t ∈ terms, isFinite t.coefficient = true) {ws : List ℚ}
    (hlength : ws.length = names.length) {row : List Exact}
    (h : addTerms names unknown terms (ws.map .finite) = .ok row) :
    ∃ vs : List ℚ, row = vs.map .finite ∧ vs.length = names.length ∧
      ∀ y : String → ℚ, form vs (names.map y) = form ws (names.map y) + total terms y := by
  induction terms generalizing ws with
  | nil =>
      cases h
      exact ⟨ws, rfl, hlength, fun y => by simp [total]⟩
  | cons t rest ih =>
      rw [addTerms] at h
      cases hj : names.idxOf? t.variableName with
      | none =>
          rw [hj] at h
          cases h
      | some j =>
          rw [hj] at h
          simp only at h
          rw [Exact.eq_finite (hterms t List.mem_cons_self), modify_finite] at h
          obtain ⟨vs, hrow, hlen, hvs⟩ := ih (fun u hu => hterms u (List.mem_cons_of_mem _ hu))
            (by simpa using hlength) h
          refine ⟨vs, hrow, hlen, fun y => ?_⟩
          have hname := getElem?_of_idxOf? hj
          have hlt : j < ws.length := by
            rw [hlength]
            exact (List.getElem?_eq_some_iff.mp hname).1
          have hy : (names.map y)[j]? = some (y t.variableName) := by
            rw [List.getElem?_map, hname]
            rfl
          rw [hvs, form_modify ws hy hlt, total, total, List.map_cons, List.sum_cons]
          ring

theorem denseRow_eq (hterms : ∀ t ∈ terms, isFinite t.coefficient = true) {row : List Exact}
    (h : denseRow names unknown terms = .ok row) :
    ∃ vs : List ℚ, row = vs.map .finite ∧ vs.length = names.length ∧
      ∀ y : String → ℚ, form vs (names.map y) = total terms y := by
  have hzeros : List.replicate names.length (0 : Exact) =
      (List.replicate names.length 0).map .finite := by
    rw [List.map_replicate]
    rfl
  rw [denseRow, hzeros] at h
  obtain ⟨vs, hrow, hlength, hvs⟩ := addTerms_eq hterms (by simp) h
  refine ⟨vs, hrow, hlength, fun y => ?_⟩
  rw [hvs, form_comm, form_replicate_zero, zero_add]

theorem dot_denseRow {e : Expression Exact} (hterms : ∀ t ∈ e.terms, isFinite t.coefficient = true)
    {row : List Exact} (h : denseRow names unknown e.terms = .ok row) (y : String → ℚ) :
    dot row (names.map (assigned y)) = e.linear (assigned y) := by
  obtain ⟨vs, rfl, -, hvs⟩ := denseRow_eq hterms h
  have hvalues : names.map (assigned y) = (names.map y).map .finite := by
    rw [List.map_map]
    rfl
  rw [hvalues, dot_finite, hvs, linear_finite hterms]

end Terms

theorem Constraint.Rational.excess_eq {c : Constraint Exact} (hc : c.Rational) (y : String → ℚ) :
    c.excess (assigned y) =
      .finite (total c.left.terms y + c.left.constant.toRat - c.rhs.toRat) := by
  rw [excess, Expression.eval_eq, linear_finite hc.coefficients, Exact.eq_finite hc.constant,
    Exact.eq_finite hc.rhs, Exact.finite_add_finite, Exact.finite_sub_finite]
  simp only [Exact.toRat]

theorem Row.means_of_denseRow {names : List String} {unknown : String → BuildFault Exact}
    {c : Constraint Exact} (hc : c.Rational) {row : List Exact}
    (h : denseRow names unknown c.left.terms = .ok row) :
    Row.Means names c ⟨row, c.relation, c.rhs - c.left.constant⟩ := by
  refine ⟨rfl, fun y => ?_⟩
  rw [hc.excess_eq, Row.left, dot_denseRow hc.coefficients h, linear_finite hc.coefficients,
    Exact.eq_finite hc.constant, Exact.eq_finite hc.rhs]
  simp only [Exact.finite_sub_finite, Exact.toRat]
  congr 1
  ring

theorem Row.rational_of_denseRow {names : List String} {unknown : String → BuildFault Exact}
    {c : Constraint Exact} (hc : c.Rational) {row : List Exact}
    (h : denseRow names unknown c.left.terms = .ok row) :
    Row.Rational ⟨row, c.relation, c.rhs - c.left.constant⟩ := by
  obtain ⟨vs, rfl, -, -⟩ := denseRow_eq hc.coefficients h
  constructor
  · intro a ha
    obtain ⟨q, -, rfl⟩ := List.mem_map.mp ha
    rfl
  · rw [Exact.eq_finite hc.rhs, Exact.eq_finite hc.constant, Exact.finite_sub_finite]
    rfl

/-- What holds of each dense row and its constraint holds of them all, one by one. -/
theorem forall₂_of_denseRows {names : List String} {P : Constraint Exact → Row Exact → Prop}
    {constraints : List (Constraint Exact)} {matrix : List (List Exact)}
    (hP : ∀ c ∈ constraints, ∀ row, denseRow names (.unknownInConstraint c.name) c.left.terms = .ok row →
      P c ⟨row, c.relation, c.rhs - c.left.constant⟩)
    (h : List.Forall₂ (fun c row =>
      denseRow names (.unknownInConstraint c.name) c.left.terms = .ok row) constraints matrix) :
    List.Forall₂ P constraints
      (Model.assemble matrix (constraints.map fun c => c.rhs - c.left.constant)
        (constraints.map (·.relation))) := by
  induction h with
  | nil => exact .nil
  | cons hrow _ ih =>
      exact .cons (hP _ List.mem_cons_self _ hrow)
        (ih fun c hmem => hP c (List.mem_cons_of_mem _ hmem))

theorem Row.Means.room_eq {names : List String} {c : Constraint Exact} {r : Row Exact}
    (h : Row.Means names c r) (hr : r.Rational) (hc : c.Rational) (y : String → ℚ) :
    r.room (names.map y) =
      if c.relation = .eq then 0
      else if c.relation.isBelow then c.rhs.toRat - (total c.left.terms y + c.left.constant.toRat)
      else total c.left.terms y + c.left.constant.toRat - c.rhs.toRat := by
  have hexcess := h.excess y
  have hvalues : names.map (assigned y) = (names.map y).map .finite := by
    rw [List.map_map]
    rfl
  rw [hc.excess_eq, hvalues, hr.left_eq, Exact.eq_finite hr.rhs, Exact.finite_sub_finite,
    Exact.finite.injEq] at hexcess
  rw [Row.room, h.relation]
  split
  next => rfl
  next =>
    split
    next => linarith
    next => exact hexcess

/-- A row that means a constraint is violated just where the constraint fails. -/
theorem Row.Means.isViolated_eq {names : List String} {c : Constraint Exact} {r : Row Exact}
    (h : Row.Means names c r) (hc : c.Rational) {tol : ℚ} (ht : 0 ≤ tol) (y : String → ℚ) :
    r.isViolated (.finite tol) (names.map (assigned y)) = c.fails (.finite tol) (assigned y) := by
  have hexcess := h.excess y
  have hother : r.rhs - r.left (names.map (assigned y)) = -c.excess (assigned y) := by
    rw [← hexcess, Exact.neg_sub]
  rw [isViolated, Constraint.fails, slack, h.relation, hexcess, hother, hc.excess_eq]
  generalize total c.left.terms y + c.left.constant.toRat - c.rhs.toRat = e
  cases c.relation with
  | lt =>
      have himp : tol < e → 0 ≤ e := fun h => ht.trans h.le
      simpa [Relation.isStrict, Relation.isBelow] using himp
  | le => simp [Relation.isStrict, Relation.isBelow]
  | eq => simp
  | ge => simp [Relation.isStrict, Relation.isBelow]
  | gt =>
      have himp : e < -tol → e ≤ 0 := fun h => h.le.trans (neg_nonpos.mpr ht)
      simpa [Relation.isStrict, Relation.isBelow] using himp

end MilpRounding
