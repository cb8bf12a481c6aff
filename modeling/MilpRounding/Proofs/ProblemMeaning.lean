import MilpRounding.Proofs.AssembledProblem
import MilpRounding.Proofs.DenseRows
import MilpRounding.Tools

namespace MilpRounding

open Scalar

def Point.rational (point : Point Exact) (name : String) : ℚ := ((point.lookup name).getD 0).toRat

structure Problem.Rational (p : Problem Exact) : Prop where
  costs : ∀ t ∈ p.objective.terms, isFinite t.coefficient = true
  constraints : ∀ c ∈ p.constraints, c.Rational

namespace Problem

variable {p : Problem Exact} {point : Point Exact} {a : Assembly Exact}

theorem means_of_denseConstraints (hp : p.Rational) {matrix : List (List Exact)}
    (h : p.denseConstraints = .ok matrix) :
    List.Forall₂ (Row.Means p.names) p.constraints
      (Model.assemble matrix p.rightSides (p.constraints.map (·.relation))) :=
  forall₂_of_denseRows (fun c hc _ hrow => Row.means_of_denseRow (hp.constraints c hc) hrow)
    (forall₂_of_mapM h)

theorem values_of_cells {cells : List (Variable Exact)}
    (h : instantiateAll point [] p.declarations = .ok cells) :
    (∀ name ∈ p.names, point.lookup name = some (assigned point.rational name)) ∧
      valuesAt (List.range p.declarations.length) ⟨cells.toArray⟩ =
        p.names.map (assigned point.rational) := by
  have hcells := (describes_of_instantiateAll h).imp fun d v hv => by
    have hvalue : assigned point.rational d.name = v.value := by
      rw [assigned, Point.rational, hv.value]
      exact (Exact.eq_finite (Variable.admits_iff.mp hv.sound.admitted).1).symm
    exact And.intro (hv.value.trans (congrArg some hvalue.symm)) hvalue
  obtain ⟨hlookup, hvalues⟩ := (List.forall₂_and_left _ _).mp hcells
  constructor
  · intro name hname
    obtain ⟨d, hd, rfl⟩ := List.mem_map.mp hname
    exact hlookup d hd
  · have hmaps : List.Forall₂ (· = ·) (p.declarations.map (assigned point.rational ∘ (·.name)))
        (cells.map (·.value)) := by
      rw [List.forall₂_map_left_iff, List.forall₂_map_right_iff]
      exact hvalues
    rw [List.forall₂_eq_eq_eq] at hmaps
    rw [hcells.length_eq, valuesAt_range, names, List.map_map]
    exact hmaps.symm

theorem violated_eq {rows : List (Row Exact)} (hp : p.Rational)
    (hmeans : List.Forall₂ (Row.Means p.names) p.constraints rows) {tol : ℚ} (ht : 0 ≤ tol)
    (y : String → ℚ) :
    (violatedRows (.finite tol) rows (p.names.map (assigned y))).filterMap
        ((p.constraints.map (·.name))[·]?) =
      (p.constraints.filter (·.fails (.finite tol) (assigned y))).map (·.name) := by
  apply filterMap_filter_range
  have hboth := (List.forall₂_and_left _ _).mpr ⟨hp.constraints, hmeans⟩
  exact hboth.imp fun c r h => h.2.isViolated_eq h.1 ht y

end Problem

theorem Exact.tolerance_eq : (tolerance : Exact) = .finite (1 / 1000000000) := by
  rw [tolerance, Exact.ofInt_eq, Exact.ofInt_eq, Exact.finite_div_finite _ (by norm_num)]
  norm_num

/-- An assembly says what its problem says. The constraints that fail at the point are those whose
rows are violated there. -/
structure Assembly.Faithful (p : Problem Exact) (point : Point Exact) (a : Assembly Exact) :
    Prop where
  rows : ∃ rows, a.model.rows = some rows ∧ List.Forall₂ (Row.Means p.names) p.constraints rows
  objective : ∃ costs, a.model.objective = some ⟨p.sense, costs⟩ ∧ ∀ y : String → ℚ,
    dot costs (p.names.map (assigned y)) = p.objective.linear (assigned y)
  ascending : a.integral.Pairwise (· < ·)
  integral (j : Nat) : j ∈ a.integral ↔ ∃ d, p.declarations[j]? = some d ∧ d.isIntegral = true
  violated : ∃ x : String → ℚ, (∀ name ∈ p.names, point.lookup name = some (assigned x name)) ∧
    a.model.values a.store = .ok (p.names.map (assigned x)) ∧
    ∃ table, (p.slackTable point).1 = .ok table ∧ table.violated =
      (p.constraints.filter (·.fails tolerance (assigned x))).map (·.name)

theorem assemble_faithful {p : Problem Exact} (hp : p.Rational) {point : Point Exact}
    {a : Assembly Exact} (h : p.assemble point = .ok a) : a.Faithful p point := by
  obtain ⟨cells, costs, matrix, hcells, hcosts, hmatrix, ha⟩ := Problem.assemble_parts h
  obtain ⟨hlookup, hvalues⟩ := Problem.values_of_cells hcells
  have hmeans := Problem.means_of_denseConstraints hp hmatrix
  have hviolated := Problem.violated_eq hp hmeans (by norm_num : (0 : ℚ) ≤ 1 / 1000000000)
    point.rational
  rw [← Exact.tolerance_eq, ← hvalues] at hviolated
  rw [ha]
  constructor
  · exact ⟨_, rfl, hmeans⟩
  · exact ⟨costs, rfl, dot_denseRow hp.costs hcosts⟩
  · exact p.pairwise_integralColumns
  · exact fun j => Problem.mem_integralColumns
  · refine ⟨point.rational, hlookup, congrArg Except.ok hvalues, ?_⟩
    rw [Problem.slackTable, h, ha]
    exact ⟨_, rfl, hviolated⟩

def blend : Problem Exact where
  sense := .max
  objective := ⟨[⟨"y", .finite 1⟩, ⟨"x", .finite 2⟩, ⟨"y", .finite (1 / 2)⟩], .finite 7⟩
  declarations := [⟨"x", some (.finite 0), none, true⟩, ⟨"y", none, none, false⟩]
  constraints :=
    [⟨"sum", ⟨[⟨"x", .finite 1⟩, ⟨"y", .finite 1⟩, ⟨"x", .finite 1⟩], .finite (-1)⟩, .le, .finite 1⟩,
      ⟨"cap", ⟨[⟨"y", .finite 1⟩], .finite 0⟩, .lt, .finite 1⟩]

theorem assemble_faithful_blend :
    ∃ a, blend.assemble [("y", .finite 1), ("x", .finite (1 / 2))] = .ok a ∧
      a.Faithful blend [("y", .finite 1), ("x", .finite (1 / 2))] := by
  have hrational : blend.Rational := by
    constructor
    · decide
    · intro c hc
      obtain rfl | rfl := List.mem_pair.mp hc
      · exact ⟨by decide, rfl, rfl⟩
      · exact ⟨by decide, rfl, rfl⟩
  have haccepted : (blend.assemble [("y", .finite 1), ("x", .finite (1 / 2))]).toBool = true := by
    decide +kernel
  cases h : blend.assemble [("y", .finite 1), ("x", .finite (1 / 2))] with
  | error f =>
      rw [h] at haccepted
      cases haccepted
  | ok a => exact ⟨a, rfl, assemble_faithful hrational h⟩

end MilpRounding
