import MilpRounding.Proofs.AssembledRun
import MilpRounding.Proofs.TruthfulReport

namespace MilpRounding

open Rounding

variable {α : Type} [Scalar α]

namespace Problem

variable {p : Problem α} {point : Point α} {a : Assembly α}

omit [Scalar α] in
theorem named_integralColumns (p : Problem α) :
    p.named p.integralColumns = (p.declarations.filter (·.isIntegral)).map (·.name) := by
  apply filterMap_filter_range
  exact List.forall₂_same.mpr fun _ _ => rfl

theorem perm_report [LawfulScalar α] (h : p.assemble point = .ok a) (options : Options α) :
    ((a.report options).rounded ++ (a.report options).fractional).Perm p.integralColumns := by
  have hcolumns : (tableau options a.model).columns = List.range p.declarations.length := by
    rw [tableau, columns_of_assemble h]
    rfl
  have hlt : ∀ j ∈ p.integralColumns, j < (tableau options a.model).columns.length := by
    intro j hj
    obtain ⟨d, hd, -⟩ := mem_integralColumns.mp hj
    simpa [hcolumns] using (List.getElem?_eq_some_iff.mp hd).1
  have hlisted : listed a.indices = p.integralColumns :=
    a.listed_indices.trans (integral_of_assemble h)
  have hdistinct : (p.integralColumns.map (tableau options a.model).ref).Nodup :=
    Tableau.nodup_map_ref (hcolumns ▸ List.nodup_range) p.pairwise_integralColumns.nodup hlt
  have hpending : (a.course options).pending = (listed a.indices).filter
      ((tableau options a.model).isFractional (a.course options).store) :=
    Tableau.pending_course (sound_of_assemble h) (hlisted ▸ hdistinct) options.maxSweeps.2
  have hrounded := roundedColumns_eq hpending
  rw [Assembly.report, reportOf, hrounded, hpending, hlisted]
  exact List.perm_append_comm.trans (List.filter_append_perm _ _)

/-- Rows point the wrong way, and none may be turned. -/
def Barred (p : Problem α) (options : Options α) : Prop :=
  options.normalize = false ∧ ∃ c ∈ p.constraints, c.relation.isAbove = true

theorem barred_iff (p : Problem α) (options : Options α) :
    (!options.normalize && p.constraints.any (·.relation.isAbove)) = true ↔ p.Barred options := by
  rw [Bool.and_eq_true, Bool.not_eq_true', List.any_eq_true, Barred]

theorem roundPoint_decides [LawfulScalar α] (p : Problem α) (point : Point α)
    (options : Options α) :
    Decides (fun r => r.category.isValueMistake = true) (p.roundPoint point options).1
      (¬ (p.Unfit point ∨ p.Barred options)) := by
  rw [not_or]
  rcases p.assemble_decides point with ⟨hfit, a, ha⟩ | ⟨hunfit, f, hf, hmistake⟩
  · rw [roundPoint_of_assemble ha]
    split
    next hbarred => exact decides_throw (fun h => h.2 ((p.barred_iff options).mp hbarred)) rfl
    next hbarred => exact decides_pure ⟨hfit, mt (p.barred_iff options).mpr hbarred⟩
  · rw [roundPoint, hf]
    exact decides_throw (fun h => hunfit h.1) hmistake

theorem slackTable_decides [LawfulScalar α] (p : Problem α) (point : Point α) :
    Decides (fun r => ∃ f, r = .building f ∧ f.IsMistake) (p.slackTable point).1
      (¬ p.Unfit point) := by
  rcases p.assemble_decides point with ⟨hfit, a, ha⟩ | ⟨hunfit, f, hf, hmistake⟩
  · obtain ⟨_, _, -, -, -, htable⟩ := slackTable_of_assemble ha
    rw [htable]
    exact decides_pure hfit
  · rw [slackTable, hf]
    exact decides_throw hunfit ⟨f, rfl, hmistake⟩

/-- A report tells about every variable: each has a value, in their order, and those that are to become
whole are either rounded or fractional. -/
structure Reported (p : Problem α) (r : RoundedProblem α) : Prop where
  values : r.values.map Prod.fst = p.names
  integral : (r.rounded ++ r.fractional).Perm
    ((p.declarations.filter (·.isIntegral)).map (·.name))

theorem reported_of_roundPoint [LawfulScalar α] {options : Options α} {r : RoundedProblem α}
    (h : (p.roundPoint point options).1 = .ok r) : p.Reported r := by
  obtain ⟨a, ha, rfl⟩ := report_of_roundPoint h
  obtain ⟨hvalues, hlength⟩ := values_present ha options
  constructor
  · rw [hvalues, List.map_fst_zip hlength.le]
  · have hperm := (perm_report ha options).filterMap (p.names[·]?)
    rw [List.filterMap_append] at hperm
    exact hperm.trans (.of_eq p.named_integralColumns)

end Problem

/-- Rounding refuses a request just where the problem is unfit for the point, or barred by rows that point
the wrong way; otherwise it reports on every variable. Listing the slacks refuses a request just where the
problem is unfit for the point, and otherwise lists them. What is refused is a mistake in what was given. -/
theorem services_outcome [LawfulScalar α] (p : Problem α) (point : Point α) (options : Options α) :
    ((∃ r, (p.roundPoint point options).1 = .error r ∧ r.category.isValueMistake = true) ↔
        p.Unfit point ∨ p.Barred options) ∧
      ((p.Unfit point ∨ p.Barred options) ∨
        ∃ r, (p.roundPoint point options).1 = .ok r ∧ p.Reported r) ∧
      ((∃ f, (p.slackTable point).1 = .error (.building f) ∧ f.IsMistake) ↔ p.Unfit point) ∧
      (p.Unfit point ∨ ∃ table, (p.slackTable point).1 = .ok table) := by
  have hround := p.roundPoint_decides point options
  have hslack := p.slackTable_decides point
  refine ⟨hround.error_iff.trans not_not, ?_, ?_, ?_⟩
  · rcases hround with ⟨-, r, hr⟩ | ⟨hrefused, -⟩
    · exact .inr ⟨r, hr, Problem.reported_of_roundPoint hr⟩
    · exact .inl (not_not.mp hrefused)
  · rw [← not_not (a := p.Unfit point), ← hslack.error_iff]
    simp
  · rcases hslack with ⟨-, table, htable⟩ | ⟨hrefused, -⟩
    · exact .inr ⟨table, htable⟩
    · exact .inl (not_not.mp hrefused)

end MilpRounding
