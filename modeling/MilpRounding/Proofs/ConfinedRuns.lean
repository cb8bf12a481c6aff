import MilpRounding.Proofs.Trail
import MilpRounding.Proofs.TruthfulReport

namespace MilpRounding

open Scalar LawfulScalar

variable {α : Type} [Scalar α]

def Model.holds (m : Model α) (j : Nat) (r : Ref) : Prop := (m.columns.getD [])[j]? = some r

/-- What a run with a report may change of a scene. -/
structure Scene.Confined (options : Options α) (indices : List Int) (report : Report α)
    (c c' : Scene α) : Prop where
  size : c'.store.size = c.store.size
  value (r : Ref) : (∀ j : Nat, (j : Int) ∈ indices → ¬ c.model.holds j r) →
    c'.store.value r = c.store.value r
  bounds (r : Ref) : (c'.store.read r).low = (c.store.read r).low ∧
    (c'.store.read r).high = (c.store.read r).high
  marked (r : Ref) : options.markIntegral = true → (∃ j ∈ report.rounded, c.model.holds j r) →
    (c'.store.read r).kind = .integral
  kind (r : Ref) : ¬ (options.markIntegral = true ∧ ∃ j ∈ report.rounded, c.model.holds j r) →
    (c'.store.read r).kind = (c.store.read r).kind
  columns : c'.model.columns = c.model.columns
  objective : c'.model.objective = c.model.objective
  rowCount : c'.model.rowCount = c.model.rowCount
  turned : options.normalize = true → ∃ flipped, c.model.orient .le = .ok (c'.model, flipped)
  kept : options.normalize = false → c'.model = c.model

theorem Tableau.read_course_of_not_mem {y : Tableau α} {pending : List Nat} {r : Ref}
    (h : r ∉ pending.map y.ref) (stopOnStall : Bool) (left : Nat) (s : Store α) :
    (y.course stopOnStall left pending s).store.read r = s.read r := by
  refine (course_invariant (P := fun t => t.read r = s.read r) (fun t j hj ht => ?_) stopOnStall left
    (List.Subset.refl pending) rfl).2
  have hne : y.ref j ≠ r := fun hr => h (hr ▸ List.mem_map_of_mem hj)
  exact (read_next_of_ne hne t).trans ht

namespace Rounding

variable {options : Options α} {c : Scene α}

theorem holds_iff {columns : List Ref} (hc : c.model.columns = some columns) {j : Nat}
    (hj : j < columns.length) (r : Ref) :
    c.model.holds j r ↔ (tableau options c.model).ref j = r := by
  rw [Model.holds, ref_tableau hc, hc, Option.getD_some, List.getD_eq_getElem?_getD,
    List.getElem?_eq_getElem hj, Option.getD_some, Option.some.injEq]

theorem confined_of_run [LawfulScalar α] {indices : Option (List Int)} {report : Report α}
    {c' : Scene α} (hs : c.store.Sound)
    (hlive : ∀ r ∈ c.model.columns.getD [], r < c.store.size)
    (h : (run options indices).run c = .ok report c') :
    ∃ idx, indices = some idx ∧ c.Confined options idx report c' := by
  obtain ⟨hready, rfl, rfl⟩ := ready_of_run hs h
  obtain ⟨idx, columns, rows, rfl, hcolumns, hrows, hrange, -⟩ := obstacle?_eq_none hready
  have hrounded {j : Nat} (hj : j ∈ roundedColumns (some idx) (passage options (some idx) c)) :
      j < columns.length := mem_listed hrange (mem_roundedColumns.mp hj).1
  refine ⟨idx, rfl, {
    size := ?_
    value := fun r hr => ?_
    bounds := fun r => (outcome_journey options (some idx) hs).trail.revised.bounds r
    marked := fun r hm hr => ?_
    kind := fun r hr => ?_
    columns := rfl
    objective := rfl
    rowCount := ?_
    turned := fun hn => ⟨_, orient_eq hn hrows⟩
    kept := fun hn => orientedModel_eq hn c.model }⟩
  · exact (outcome_journey options (some idx) hs).trail.revised.size_eq
  -- a variable in none of the listed columns is read, but never written, in the course
  · have hnot : r ∉ (listed (some idx)).map (tableau options c.model).ref := by
      intro hmem
      obtain ⟨j, hj, hread⟩ := List.mem_map.mp hmem
      have hlt := mem_listed hrange hj
      obtain ⟨i, hi, rfl⟩ := List.mem_map.mp hj
      refine hr i.toNat ?_ ((holds_iff hcolumns hlt r).mpr hread)
      rwa [Int.toNat_of_nonneg (hrange i hi).1]
    have hcourse := Tableau.read_course_of_not_mem hnot options.stopOnStall options.maxSweeps.1
      c.store
    rw [outcome, value_settled]
    exact congrArg Variable.value hcourse
  · obtain ⟨j, hj, hheld⟩ := hr
    rw [← (holds_iff hcolumns (hrounded hj) r).mp hheld]
    apply kind_of_marked hm hj
    rw [(holds_iff hcolumns (hrounded hj) r).mp hheld]
    exact hlive r (List.mem_of_getElem? hheld)
  · apply kind_of_unmarked
    rintro ⟨hm, j, hj, hread⟩
    exact hr ⟨hm, j, hj, (holds_iff hcolumns (hrounded hj) r).mpr hread⟩
  · have hlength : (oriented options rows).length = rows.length := by
      rw [oriented]
      split
      · exact List.length_map _
      · rfl
    simp only [outcome, orientedModel, Model.rowCount, hrows, Option.map_some, Option.getD_some,
      hlength]

end Rounding

open Session

/-- A launch that reports leaves all else alone: other models, names and engines too. -/
theorem launch_confined [LawfulScalar α] {w t : Workspace α} {e : Nat} {report : Report α}
    (hw : w.Reachable) (h : (launch e).run w = .ok report t) :
    ∃ g indices, w.engines[e]? = some g ∧ g.indices = some indices ∧
      (w.scene g.model).Confined g.options indices report (t.scene g.model) ∧
      t.names = w.names ∧ t.engines = w.engines ∧
      ∀ i, i ≠ g.model → t.modelAt i = w.modelAt i := by
  obtain ⟨g, c, hg, hrun, ht, hscene⟩ := run_of_launch hw.sound h
  obtain ⟨heard, hheard⟩ := Workspace.hear_eq (w.withScene g.model c) e report
  have hlive : ∀ r ∈ (w.modelAt g.model).columns.getD [], r < w.store.size := by
    intro r hr
    cases hc : (w.modelAt g.model).columns with
    | none =>
        rw [hc] at hr
        cases hr
    | some columns =>
        rw [hc] at hr
        exact hw.live.columns g.model columns hc r hr
  obtain ⟨indices, hindices, hconfined⟩ := Rounding.confined_of_run hw.sound.store hlive hrun
  refine ⟨g, indices, hg, hindices, ?_, ?_, ?_, fun i hi => ?_⟩
  · rw [hscene]
    exact hconfined
  · rw [ht, hheard]
    rfl
  · rw [ht, hheard]
    rfl
  · rw [ht, hheard]
    rcases w.modelAt_withScene_cases g.model i c with ⟨-, hsame⟩ | hsame
    · exact absurd hsame.symm hi
    · exact hsame

/-- Two models that share a variable, which stands twice in the columns of the first; one of its rows
is to be turned, and the third of its columns is not listed. -/
def sharedVariable : List (Command Float) :=
  [.makeVariable "x" "continuous" 0.5 0 10, .makeVariable "y" "continuous" 0.5 0 10,
    .newModel, .setColumns 0 ["x", "x", "y"], .setColumns 1 ["y", "x"],
    .setRows 0 [[1, 0, 0], [0, -1, 1]] [3, -4] ["<=", ">="],
    .newEngine 0 { markIntegral := true }, .setIndices 0 [1]]

theorem launch_confined_sharedVariable :
    let w := Workspace.after sharedVariable
    ∃ report t g indices, (launch 0).run w = .ok report t ∧ w.engines[0]? = some g ∧
      (w.scene g.model).Confined g.options indices report (t.scene g.model) := by
  intro w
  have hconverged : (launch 0).status? w = some .converged := by decide +kernel
  obtain ⟨report, t, hrun, -⟩ := run_of_status? hconverged
  obtain ⟨g, indices, hg, -, hconfined, -⟩ :=
    launch_confined (Workspace.reachable_after sharedVariable) hrun
  exact ⟨report, t, g, indices, hrun, hg, hconfined⟩

end MilpRounding
