import MilpRounding.Proofs.AssembledProblem
import MilpRounding.Proofs.RunOutcome
import MilpRounding.Tools

namespace MilpRounding

open Scalar Rounding

variable {α : Type} [Scalar α]

section Points

omit [Scalar α]

theorem Point.put_of_not_mem {point : Point α} {name : String} (h : name ∉ point.map Prod.fst)
    (value : α) : point.put name value = point ++ [(name, value)] := by
  have hany : point.any (·.1 == name) = false := by
    rw [List.any_eq_false]
    intro entry hentry hname
    obtain rfl : entry.1 = name := by simpa using hname
    exact h (List.mem_map_of_mem hentry)
  rw [put, hany]
  rfl

theorem Point.foldl_put (point : Point α) {pairs : Point α}
    (h : ((point ++ pairs).map Prod.fst).Nodup) :
    pairs.foldl (fun point entry => point.put entry.1 entry.2) point = point ++ pairs := by
  induction pairs generalizing point with
  | nil => rw [List.foldl_nil, List.append_nil]
  | cons entry rest ih =>
      have hnew : entry.1 ∉ point.map Prod.fst := by
        rw [List.map_append, List.map_cons, List.nodup_append] at h
        intro hmem
        exact h.2.2 _ hmem _ List.mem_cons_self rfl
      rw [List.foldl_cons, put_of_not_mem hnew, ih]
      · rw [List.append_assoc]
        rfl
      · rwa [List.append_assoc]

theorem Point.ofPairs_eq {pairs : Point α} (h : (pairs.map Prod.fst).Nodup) :
    Point.ofPairs pairs = pairs :=
  Point.foldl_put [] h

end Points

namespace Assembly

def scene (a : Assembly α) : Scene α := ⟨a.store, a.model, #[]⟩

def indices (a : Assembly α) : Option (List Int) := some (a.integral.map Int.ofNat)

def course (a : Assembly α) (options : Options α) : Course α := passage options a.indices a.scene

def report (a : Assembly α) (options : Options α) : Report α :=
  reportOf options a.indices (tableau options a.model) (a.course options)

omit [Scalar α] in
theorem listed_indices (a : Assembly α) : listed a.indices = a.integral := by
  rw [listed, indices, Option.getD_some, List.map_map]
  exact List.map_id a.integral

end Assembly

namespace Problem

variable {p : Problem α} {point : Point α} {options : Options α} {a : Assembly α}

theorem sound_of_assemble [LawfulScalar α] (h : p.assemble point = .ok a) : a.store.Sound := by
  obtain ⟨cells, -, -, hcells, -, -, rfl⟩ := assemble_parts h
  exact Store.sound_of_cells fun v hv => sound_of_instantiateAll hcells v (List.mem_toArray.mp hv)

theorem read_of_assemble (h : p.assemble point = .ok a) {j : Nat} {d : Declaration α}
    (hj : p.declarations[j]? = some d) : d.Describes point (a.store.read j) := by
  obtain ⟨cells, _, _, hcells, -, -, rfl⟩ := assemble_parts h
  have hdescribes := describes_of_instantiateAll hcells
  obtain ⟨hlt, rfl⟩ := List.getElem?_eq_some_iff.mp hj
  have hlt' : j < cells.length := hdescribes.length_eq ▸ hlt
  have hread : Store.read ⟨cells.toArray⟩ j = cells[j] := by
    simp [Store.read, hlt']
  rw [hread]
  exact hdescribes.get hlt hlt'

theorem integral_of_assemble (h : p.assemble point = .ok a) : a.integral = p.integralColumns := by
  obtain ⟨-, -, -, -, -, -, rfl⟩ := assemble_parts h
  rfl

theorem columns_of_assemble (h : p.assemble point = .ok a) :
    a.model.columns = some (List.range p.declarations.length) := by
  obtain ⟨-, -, -, -, -, -, rfl⟩ := assemble_parts h
  rfl

theorem objective_of_assemble (h : p.assemble point = .ok a) : ∃ costs,
    denseRow p.names .unknownInObjective p.objective.terms = .ok costs ∧
      a.model.objective = some ⟨p.sense, costs⟩ := by
  obtain ⟨-, costs, _, -, hcosts, -, rfl⟩ := assemble_parts h
  exact ⟨costs, hcosts, rfl⟩

theorem rows_of_assemble (h : p.assemble point = .ok a) :
    ∃ rows, a.model.rows = some rows ∧ rows.map (·.relation) = p.constraints.map (·.relation) := by
  obtain ⟨-, -, matrix, -, -, hmatrix, rfl⟩ := assemble_parts h
  have hlength := (forall₂_of_mapM hmatrix).length_eq
  refine ⟨_, rfl, (Model.assemble_spec ?_ ?_).2.2⟩
  · rw [rightSides, List.length_map, hlength]
  · rw [List.length_map, hlength]

theorem exists_row_of_assemble [LawfulScalar α] (h : p.assemble point = .ok a)
    {rows : List (Row α)} (hrows : a.model.rows = some rows) : ∃ row, row ∈ rows := by
  obtain ⟨-, -, -, -, hsome⟩ := not_unfit_iff.mp ((p.assemble_decides point).ok_iff.mp ⟨a, h⟩)
  obtain ⟨rows', hrows', hrelations⟩ := rows_of_assemble h
  obtain rfl := Option.some.inj (hrows.symm.trans hrows')
  apply List.exists_mem_of_ne_nil
  rintro rfl
  exact hsome (List.map_eq_nil_iff.mp hrelations.symm)

theorem obstacle?_of_assemble (h : p.assemble point = .ok a) (options : Options α) :
    obstacle? options a.indices a.model =
      if !options.normalize && p.constraints.any (·.relation.isAbove) then some .wrongPolarity
      else none := by
  obtain ⟨rows, hrows, hrelations⟩ := rows_of_assemble h
  have hrange : outOfRange? (List.range p.declarations.length).length (a.integral.map Int.ofNat) =
      none := by
    rw [integral_of_assemble h, outOfRange?, List.find?_eq_none]
    intro j hj
    obtain ⟨i, hi, rfl⟩ := List.mem_map.mp hj
    obtain ⟨d, hd, -⟩ := mem_integralColumns.mp hi
    simpa using (List.getElem?_eq_some_iff.mp hd).1
  have hany : rows.any (·.relation.isAbove) = p.constraints.any (·.relation.isAbove) := by
    have hmap := congrArg (List.any · Relation.isAbove) hrelations
    simp only [List.any_map] at hmap
    exact hmap
  simp only [obstacle?, Assembly.indices, columns_of_assemble h, hrange, hrows, hany]

/-- What rounding answers on an assembled problem. -/
theorem roundPoint_of_assemble [LawfulScalar α] (h : p.assemble point = .ok a)
    (options : Options α) :
    (p.roundPoint point options).1 =
      if !options.normalize && p.constraints.any (·.relation.isAbove) then
        .error (.running .wrongPolarity)
      else .ok (p.present (a.report options)) := by
  have hobstacle := obstacle?_of_assemble h options
  have hrun : runAssembled a options = (run options a.indices).run a.scene := rfl
  simp only [roundPoint, h, hrun]
  by_cases hturned : (!options.normalize && p.constraints.any (·.relation.isAbove)) = true
  · rw [if_pos hturned] at hobstacle ⊢
    rw [run_of_obstacle (c := a.scene) hobstacle]
    rfl
  · rw [if_neg hturned] at hobstacle ⊢
    rw [run_of_ready (c := a.scene) (sound_of_assemble h) hobstacle]
    rfl

theorem report_of_roundPoint [LawfulScalar α] {r : RoundedProblem α}
    (h : (p.roundPoint point options).1 = .ok r) :
    ∃ a, p.assemble point = .ok a ∧ r = p.present (a.report options) := by
  cases ha : p.assemble point with
  | error f =>
      rw [roundPoint, ha] at h
      cases h
  | ok a =>
      rw [roundPoint_of_assemble ha] at h
      split at h
      next => cases h
      next =>
        cases h
        exact ⟨a, rfl, rfl⟩

theorem values_report (h : p.assemble point = .ok a) (options : Options α) :
    (a.report options).values =
      valuesAt (List.range p.declarations.length) (a.course options).store := by
  rw [Assembly.report, reportOf, Tableau.values, tableau, columns_of_assemble h, Option.getD_some]

theorem values_present [LawfulScalar α] (h : p.assemble point = .ok a) (options : Options α) :
    (p.present (a.report options)).values = p.names.zip (a.report options).values ∧
      p.names.length = (a.report options).values.length := by
  have hlength : p.names.length = (a.report options).values.length := by
    simp [values_report h, names, valuesAt]
  refine ⟨Point.ofPairs_eq ?_, hlength⟩
  rw [List.map_fst_zip hlength.le]
  exact (not_unfit_iff.mp ((p.assemble_decides point).ok_iff.mp ⟨a, h⟩)).1

theorem slackTable_of_assemble (h : p.assemble point = .ok a) :
    ∃ slacks failing, a.model.slacks a.store = .ok slacks ∧
      a.model.violated tolerance a.store = .ok failing ∧
      (p.constraints.map (·.name)).length = slacks.length ∧ (p.slackTable point).1 =
        .ok ⟨Point.ofPairs ((p.constraints.map (·.name)).zip slacks),
          failing.filterMap ((p.constraints.map (·.name))[·]?)⟩ := by
  obtain ⟨rows, hrows, hrelations⟩ := rows_of_assemble h
  obtain ⟨y, hy, rfl⟩ : ∃ y, a.model.requireTableau = .ok y ∧ y.rows = rows :=
    ⟨_, Model.requireTableau_eq (columns_of_assemble h) hrows, rfl⟩
  have hslacks : a.model.slacks a.store = .ok (y.slacks a.store) := by
    simp only [Model.slacks, hrows, hy]
    rfl
  have hfailing : a.model.violated tolerance a.store = .ok (y.violated tolerance a.store) := by
    rw [Model.violated, hy]
    rfl
  refine ⟨_, _, hslacks, hfailing, ?_, ?_⟩
  · simpa [Tableau.slacks] using (congrArg List.length hrelations).symm
  · simp only [slackTable, h, hslacks, hfailing]
    rfl

end Problem

end MilpRounding
