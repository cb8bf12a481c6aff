import MilpRounding.Proofs.Binary64.LawfulDouble
import MilpRounding.Proofs.DistinctIndices
import MilpRounding.Proofs.LiveColumns
import MilpRounding.Proofs.MarkedColumns
import MilpRounding.Proofs.PendingColumns
import MilpRounding.Proofs.RepeatedRuns

namespace MilpRounding

open Scalar LawfulScalar Rounding

variable {α : Type} [Scalar α]

/-- The columns of a report are those that were listed, each once and in the order of the list. -/
structure Report.Sorted (indices : List Int) (report : Report α) : Prop where
  disjoint : ∀ j ∈ report.rounded, j ∉ report.fractional
  listed : ∀ j : Nat, j ∈ report.rounded ∨ j ∈ report.fractional ↔ (j : Int) ∈ indices
  rounded : report.rounded.Pairwise (ListedBefore indices)
  fractional : report.fractional.Pairwise (ListedBefore indices)

structure Report.Counted (options : Options α) (report : Report α) : Prop where
  sweeps : report.history.length = report.sweeps
  moves : report.history.sum = report.moves
  sweeps_pos : 1 ≤ report.sweeps
  sweeps_le : report.sweeps ≤ options.maxSweeps.1

structure Report.Truthful [LawfulScalar α] (options : Options α) (indices : List Int)
    (c c' : Scene α) (report : Report α) : Prop where
  sorted : report.Sorted indices
  counted : report.Counted options
  whole : ∀ j : Nat, (j : Int) ∈ indices → ∃ v : Variable α,
    c'.model.variableAt c'.store j = .ok v ∧
      (j ∈ report.rounded ↔ ∃ z : ℤ, denote v.value = .finite z)
  values : c'.model.values c'.store = .ok report.values
  objective : report.objective = c.model.objective.map fun o => dot o.coefficients report.values
  feasible : c'.model.isFeasible options.tol c'.store = .ok report.feasible
  marked : options.markIntegral = true → ∀ j ∈ report.rounded, ∃ v : Variable α,
    c'.model.variableAt c'.store j = .ok v ∧ v.kind = .integral
  unmarked : ∀ r, ¬ (options.markIntegral = true ∧
    ∃ j ∈ report.rounded, (c.model.columns.getD []).getD j 0 = r) →
      (c'.store.read r).kind = (c.store.read r).kind
  accepted : ∃ events : List (Event α), c'.events = c.events ++ events.toArray ∧
    ∀ reason, .updateRejected reason ∉ events

namespace Rounding

omit [Scalar α] in
theorem roundedColumns_eq {indices : Option (List Int)} {k : Course α} {f : Nat → Bool}
    (h : k.pending = (listed indices).filter f) :
    roundedColumns indices k = (listed indices).filter fun j => !f j := by
  rw [roundedColumns, h]
  refine List.filter_congr fun j hj => ?_
  cases hf : f j <;> simp [hj, hf]

omit [Scalar α] in
theorem not_rejected_sweepEvents (reason : Rejection α) (n : Nat) (ws : List (Sweep α)) :
    .updateRejected reason ∉ sweepEvents n ws := by
  induction ws generalizing n with
  | nil => exact List.not_mem_nil
  | cons w rest ih => simpa [sweepEvents] using ih (n + 1)

theorem not_rejected_runEvents (options : Options α) (indices : Option (List Int)) (c : Scene α)
    (reason : Rejection α) : .updateRejected reason ∉ runEvents options indices c := by
  have horient : .updateRejected reason ∉ orientEvents options c.model := by
    rw [orientEvents]
    split <;> simp
  simp [runEvents, horient, not_rejected_sweepEvents reason]

theorem kind_outcome (options : Options α) (indices : Option (List Int)) (c : Scene α) (r : Ref) :
    ((outcome options indices c).store.read r).kind =
      if (∃ j ∈ markedColumns options indices (passage options indices c),
        (tableau options c.model).ref j = r) ∧ r < c.store.size then .integral
      else (c.store.read r).kind := by
  have hsize : (passage options indices c).store.size = c.store.size :=
    Tableau.size_course _ _ _ _ _
  have hkind : ((passage options indices c).store.read r).kind = (c.store.read r).kind :=
    Tableau.kind_course _ _ _ _ _ r
  simp only [outcome, settled_eq_markColumns, read_markColumns, hsize, ← hkind]
  split_ifs <;> rfl

section Outcome

variable {options : Options α} {indices : Option (List Int)} {c : Scene α}

theorem kind_of_marked (hm : options.markIntegral = true) {j : Nat}
    (hj : j ∈ roundedColumns indices (passage options indices c))
    (hlive : (tableau options c.model).ref j < c.store.size) :
    ((outcome options indices c).store.read ((tableau options c.model).ref j)).kind =
      .integral := by
  rw [kind_outcome, if_pos]
  refine ⟨⟨j, ?_, rfl⟩, hlive⟩
  rwa [markedColumns, if_pos hm]

theorem kind_of_unmarked {r : Ref} (h : ¬ (options.markIntegral = true ∧
    ∃ j ∈ roundedColumns indices (passage options indices c),
      (tableau options c.model).ref j = r)) :
    ((outcome options indices c).store.read r).kind = (c.store.read r).kind := by
  rw [kind_outcome, if_neg]
  rintro ⟨hmarked, -⟩
  rw [markedColumns] at hmarked
  split at hmarked
  next hm => exact h ⟨hm, hmarked⟩
  next =>
    obtain ⟨j, hj, -⟩ := hmarked
    cases hj

theorem values_outcome (h : obstacle? options indices c.model = none) :
    (outcome options indices c).model.values (outcome options indices c).store =
      .ok ((tableau options c.model).values (passage options indices c).store) := by
  obtain ⟨-, columns, -, -, hcolumns, -⟩ := obstacle?_eq_none h
  have hmodel : (outcome options indices c).model.columns = some columns := hcolumns
  have hy : (tableau options c.model).columns = columns := by rw [tableau, hcolumns]; rfl
  have hvalues := values_settled options indices (tableau options c.model)
    (passage options indices c)
  rw [Model.values, Model.requireColumns_eq hmodel, ← hvalues, Tableau.values, hy]
  rfl

theorem isFeasible_outcome (h : obstacle? options indices c.model = none) (tol : α) :
    (outcome options indices c).model.isFeasible tol (outcome options indices c).store =
      .ok ((tableau options c.model).isFeasible tol (passage options indices c).store) := by
  have hy : (outcome options indices c).model.requireTableau = .ok (tableau options c.model) :=
    requireTableau_orientedModel h
  have hvalues : (tableau options c.model).values (outcome options indices c).store = _ :=
    values_settled options indices _ _
  rw [Model.isFeasible, Model.violated, hy, Tableau.isFeasible, Tableau.violated, ← hvalues]
  rfl

end Outcome

section Run

variable [LawfulScalar α] {options : Options α} {indices : List Int} {c c' : Scene α}
  {report : Report α}

/-- In columns of their own, the columns that a run leaves pending are the fractional ones. -/
theorem pending_passage (hs : c.store.Sound) (hc : (c.model.columns.getD []).Nodup)
    (hready : obstacle? options (some (distinct indices)) c.model = none) :
    let k := passage options (some (distinct indices)) c
    k.pending = (listed (some (distinct indices))).filter
      ((tableau options c.model).isFractional k.store) := by
  obtain ⟨_, columns, -, hidx, hcolumns, -, hrange, -⟩ := obstacle?_eq_none hready
  obtain rfl := Option.some.inj hidx
  refine Tableau.pending_course hs (Tableau.nodup_map_ref hc (nodup_listed hrange) ?_)
    options.maxSweeps.2
  intro j hj
  rw [tableau, hcolumns]
  exact mem_listed hrange hj

omit [LawfulScalar α] in
theorem sorted_reportOf {n : Nat} (hrange : ∀ j ∈ distinct indices, 0 ≤ j ∧ j < n) {y : Tableau α}
    {k : Course α} {f : Nat → Bool} (h : k.pending = (listed (some (distinct indices))).filter f) :
    (reportOf options (some (distinct indices)) y k).Sorted indices := by
  have hrounded := roundedColumns_eq h
  have horder := pairwise_listed hrange
  refine ⟨fun j hj => ?_, fun j => ?_, ?_, ?_⟩
  · exact (mem_roundedColumns.mp hj).2
  · simp only [reportOf, hrounded, h, List.mem_filter, ← mem_listed_iff hrange j]
    cases f j <;> simp
  · simp only [reportOf, hrounded]
    exact horder.filter _
  · simp only [reportOf, h]
    exact horder.filter f

omit [LawfulScalar α] in
theorem counted_reportOf (options : Options α) (indices : Option (List Int)) (c : Scene α) :
    (reportOf options indices (tableau options c.model) (passage options indices c)).Counted
      options := by
  obtain ⟨sweeps, hsweeps⟩ := Nat.exists_eq_add_of_le' options.maxSweeps.2
  refine ⟨List.length_map _, rfl, ?_, ?_⟩
  · simp only [reportOf, passage, hsweeps]
    exact Tableau.length_sweeps_pos _ _ _ _ _
  · exact Tableau.length_sweeps_le _ _ _ _ _

theorem truthful_of_run (hs : c.store.Sound) (hc : (c.model.columns.getD []).Nodup)
    (hlive : ∀ r ∈ c.model.columns.getD [], r < c.store.size)
    (h : (run options (some (distinct indices))).run c = .ok report c') :
    report.Truthful options indices c c' := by
  obtain ⟨hready, rfl, rfl⟩ := ready_of_run hs h
  have hpending := pending_passage hs hc hready
  obtain ⟨_, columns, -, hidx, hcolumns, -, hrange, -⟩ := obstacle?_eq_none hready
  obtain rfl := Option.some.inj hidx
  have hlt {j : Nat} (hj : j ∈ listed (some (distinct indices))) : j < columns.length :=
    mem_listed hrange hj
  have hvariable {j : Nat} (hj : j ∈ listed (some (distinct indices))) :=
    variableAt_outcome hcolumns options (some (distinct indices)) (hlt hj)
  refine {
    sorted := sorted_reportOf hrange hpending
    counted := counted_reportOf options _ c
    whole := fun j hj => ?_
    values := values_outcome hready
    objective := rfl
    feasible := isFeasible_outcome hready options.tol
    marked := fun hm j hj => ?_
    unmarked := fun r hr => ?_
    accepted := ⟨_, rfl, not_rejected_runEvents options _ c⟩ }
  · have hj := (mem_listed_iff hrange j).mpr hj
    refine ⟨_, hvariable hj, ?_⟩
    -- marks change kinds only, so the value is that at the end of the course
    have hvalue := value_settled options (some (distinct indices)) (tableau options c.model)
      (passage options (some (distinct indices)) c) (columns.getD j 0)
    change _ ↔ ∃ z : ℤ, denote ((outcome options _ c).store.value (columns.getD j 0)) = .finite z
    rw [← isWhole_iff_denote, outcome, hvalue, reportOf, roundedColumns_eq hpending,
      List.mem_filter, Tableau.isFractional, Bool.not_not, Tableau.variableAt,
      ref_tableau hcolumns]
    exact and_iff_right hj
  · have hmem := (mem_roundedColumns.mp hj).1
    have hsome : columns.getD j 0 ∈ columns := by
      rw [List.getD_eq_getElem?_getD, List.getElem?_eq_getElem (hlt hmem), Option.getD_some]
      exact List.getElem_mem (hlt hmem)
    refine ⟨_, hvariable hmem, ?_⟩
    rw [← ref_tableau hcolumns options j]
    apply kind_of_marked hm hj
    rw [ref_tableau hcolumns]
    exact hlive _ (by rwa [hcolumns])
  · apply kind_of_unmarked
    rintro ⟨hm, j, hj, hread⟩
    exact hr ⟨hm, j, hj, hread⟩

end Run

end Rounding

/-- In a workspace that commands lead to, the report about a model with columns of their own is true of
the scene that the run leaves. -/
theorem run_truthful [LawfulScalar α] {w : Workspace α} (hw : w.Reachable) (k : Nat)
    (hc : ((w.modelAt k).columns.getD []).Nodup) {options : Options α} {indices : List Int}
    {report : Report α} {c' : Scene α}
    (h : (run options (some (distinct indices))).run (w.scene k) = .ok report c') :
    report.Truthful options indices (w.scene k) c' := by
  refine truthful_of_run (hw.scene_sound k) hc (fun r hr => ?_) h
  obtain ⟨hready, -, -⟩ := ready_of_run (hw.scene_sound k) h
  obtain ⟨-, columns, -, -, hcolumns, -⟩ := obstacle?_eq_none hready
  rw [hcolumns] at hr
  exact hw.live.columns k columns hcolumns r hr

theorem run_truthful_twoColumns :
    let options : Options Float := { markIntegral := true }
    let c := (Workspace.after twoColumns).scene 0
    ∃ report c', (run options (some (distinct [1, 0, 1]))).run c = .ok report c' ∧
      report.rounded = [0] ∧ report.fractional = [1] ∧ report.Truthful options [1, 0, 1] c c' := by
  intro options c
  have hw := Workspace.reachable_after twoColumns
  have hs : c.store.Sound := hw.scene_sound 0
  have hc : (((Workspace.after twoColumns).modelAt 0).columns.getD []).Nodup := by decide +kernel
  have hready : (obstacle? options (some (distinct [1, 0, 1])) c.model).isNone = true := by
    decide +kernel
  have hpending : (passage options (some (distinct [1, 0, 1])) c).pending = [1] := by
    decide +kernel
  have hrun := run_of_ready hs (Option.isNone_iff_eq_none.mp hready)
  refine ⟨_, _, hrun, ?_, hpending, run_truthful hw 0 hc hrun⟩
  change roundedColumns _ _ = _
  rw [roundedColumns, hpending]
  rfl

end MilpRounding
