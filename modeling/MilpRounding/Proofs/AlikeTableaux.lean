import MilpRounding.Proofs.MarkedColumns
import MilpRounding.Proofs.RationalMoves

namespace MilpRounding

open Scalar LawfulScalar Rounding

variable {α : Type} [Scalar α]

namespace Tableau

structure Alike (columns : List Nat) (y z : Tableau α) : Prop where
  columns_eq : z.columns = y.columns
  preference : ∀ j ∈ columns, z.preference j = y.preference j
  limit : ∀ s : Store α, s.Sound → ∀ j d, z.limit s j d = y.limit s j d

variable {columns : List Nat} {y z : Tableau α} {s : Store α}

theorem Alike.ref_eq (h : y.Alike columns z) (j : Nat) : z.ref j = y.ref j := by
  rw [ref, ref, h.columns_eq]

theorem Alike.variableAt_eq (h : y.Alike columns z) (s : Store α) (j : Nat) :
    z.variableAt s j = y.variableAt s j := by
  rw [variableAt, variableAt, h.ref_eq]

theorem Alike.choice_eq (h : y.Alike columns z) (hs : s.Sound) {j : Nat} (hj : j ∈ columns) :
    z.choice s j = y.choice s j := by
  have hup : z.limitUp s j = y.limitUp s j := h.limit s hs j .up
  have hdown : z.limitDown s j = y.limitDown s j := h.limit s hs j .down
  simp only [choice, targetUp, targetDown, reachUp, reachDown, h.variableAt_eq, h.preference j hj,
    hup, hdown]

theorem Alike.next_eq (h : y.Alike columns z) (hs : s.Sound) {j : Nat} (hj : j ∈ columns) :
    z.next s j = y.next s j := by
  rw [next, next, h.choice_eq hs hj, h.ref_eq, h.variableAt_eq]

theorem Alike.totals_eq (h : y.Alike columns z) (hs : s.Sound) (pending : List Nat) :
    z.totals s pending = y.totals s pending := by
  have hup (j : Nat) : z.limitUp s j = y.limitUp s j := h.limit s hs j .up
  have hdown (j : Nat) : z.limitDown s j = y.limitDown s j := h.limit s hs j .down
  simp only [totals, hup, hdown]

variable [LawfulScalar α]

theorem Alike.parallel (h : y.Alike columns z) (stopOnStall : Bool) :
    Parallel stopOnStall columns (fun s t => s.Sound ∧ t = s) y z := by
  constructor
  · rintro s _ j ⟨hs, rfl⟩ hj
    rw [h.next_eq hs hj]
  · rintro s _ j ⟨hs, rfl⟩ hj
    rw [h.next_eq hs hj]
    exact ⟨next_sound hs y j, rfl⟩
  · rintro s _ j ⟨-, rfl⟩ -
    rw [h.variableAt_eq]
  · rintro s _ pending moves ⟨hs, rfl⟩ -
    rw [h.totals_eq hs]

theorem Alike.course (h : y.Alike columns z) (stopOnStall : Bool) (left : Nat) (hs : s.Sound) :
    (y.course stopOnStall left columns s).Agrees (fun s t => t = s)
      (z.course stopOnStall left columns s) := by
  have hagrees := (h.parallel stopOnStall).course left (List.Subset.refl columns) ⟨hs, rfl⟩
  exact ⟨hagrees.status, hagrees.pending, hagrees.history, hagrees.store.2⟩

end Tableau

namespace Rounding

variable {options : Options α} {indices : Option (List Int)} {columns : List Nat} {y z : Tableau α}
  {k l : Course α}

theorem markColumns_alike (h : y.Alike columns z) (marks : List Nat) (s : Store α) :
    markColumns z marks s = markColumns y marks s := by
  simp only [markColumns, h.ref_eq]

theorem settled_alike (h : y.Alike columns z) (hagrees : k.Agrees (fun s t => t = s) l) :
    settled options indices z l = settled options indices y k := by
  rw [settled_eq_markColumns, settled_eq_markColumns, hagrees.store, markColumns_alike h,
    markedColumns_congr hagrees.pending]

theorem reportOf_alike (h : y.Alike columns z) (hagrees : k.Agrees (fun s t => t = s) l) :
    reportOf options indices z l = { reportOf options indices y k with
      objective := z.objectiveValue k.store
      feasible := z.isFeasible options.tol k.store } := by
  have hvalues : z.values k.store = y.values k.store := by
    rw [Tableau.values, Tableau.values, h.columns_eq]
  simp only [reportOf, roundedColumns, hagrees.status, hagrees.pending, hagrees.history,
    hagrees.length_sweeps, hagrees.store, hvalues]

variable [LawfulScalar α] {c d : Scene α}

omit [LawfulScalar α] in
theorem values_end (options : Options α) (indices : Option (List Int)) (c : Scene α) (z : Tableau α) :
    z.values (outcome options indices c).store = z.values (passage options indices c).store :=
  List.map_congr_left fun r _ => value_settled options indices _ _ r

theorem reported_at_end (hs : c.store.Sound) {report : Report α} {c' : Scene α}
    (h : (run options indices).run c = .ok report c') :
    report.objective = (tableau options c.model).objectiveValue c'.store ∧
      report.feasible = (tableau options c.model).isFeasible options.tol c'.store := by
  obtain ⟨-, rfl, rfl⟩ := ready_of_run hs h
  simp only [reportOf, Tableau.objectiveValue, Tableau.isFeasible, Tableau.violated, values_end,
    and_self]

/-- Models with the same obstacles and alike tableaux let a run take the same course. -/
theorem run_of_alike (hs : c.store.Sound) (hstore : d.store = c.store)
    (hobstacle : obstacle? options indices d.model = obstacle? options indices c.model)
    (h : (tableau options c.model).Alike (listed indices) (tableau options d.model))
    {report : Report α} {c' : Scene α} (hrun : (run options indices).run c = .ok report c') :
    ∃ d', (run options indices).run d = .ok { report with
        objective := (tableau options d.model).objectiveValue c'.store
        feasible := (tableau options d.model).isFeasible options.tol c'.store } d' ∧
      d'.store = c'.store := by
  obtain ⟨hready, rfl, rfl⟩ := ready_of_run hs hrun
  have hagrees : (passage options indices c).Agrees (fun s t => t = s) (passage options indices d) := by
    rw [passage, passage, hstore]
    exact h.course options.stopOnStall options.maxSweeps.1 hs
  have hend : (outcome options indices d).store = (outcome options indices c).store :=
    settled_alike h hagrees
  refine ⟨_, (run_of_ready (hstore ▸ hs) (hobstacle.trans hready)).trans ?_, hend⟩
  rw [reportOf_alike h hagrees]
  simp only [Tableau.objectiveValue, Tableau.isFeasible, Tableau.violated, values_end]

end Rounding

end MilpRounding
