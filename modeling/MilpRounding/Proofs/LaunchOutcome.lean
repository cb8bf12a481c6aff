import MilpRounding.Proofs.Binary64.LawfulDouble
import MilpRounding.Proofs.ReachableWorkspace

namespace MilpRounding

open Scalar LawfulScalar Rounding

variable {α : Type} [Scalar α]

def Session.Refuses {β : Type} (x : Session α β) (w : Workspace α) (k : Category) : Prop :=
  ∃ f : Fault α, f.category = k ∧ x.run w = .error f w

theorem outOfRange?_isSome {n : Nat} {indices : List Int} :
    (outOfRange? n indices).isSome = true ↔ ∃ j ∈ indices, ¬ (0 ≤ j ∧ j < n) := by
  simp only [outOfRange?, List.find?_isSome, Bool.not_eq_true', decide_eq_false_iff_not]

section Launch

variable [LawfulScalar α] {w : Workspace α} {e : Nat} {g : Engine α}

omit [LawfulScalar α] in
theorem launch_of_obstacle (hw : w.Sound) (hg : w.engines[e]? = some g) {f : Fault α}
    (h : obstacle? g.options g.indices (w.modelAt g.model) = some f) :
    (Session.launch e).run w = .error f w := by
  have hrun := run_of_obstacle (c := w.scene g.model) h
  rw [Session.launch_run hg (hw.ready e g hg), hrun]
  simp only [Workspace.withScene_scene]

theorem launch_of_ready (hw : w.Sound) (hg : w.engines[e]? = some g)
    (h : obstacle? g.options g.indices (w.modelAt g.model) = none) :
    ∃ r t, (Session.launch e).run w = .ok r t := by
  have hrun := run_of_ready (c := w.scene g.model) hw.store h
  rw [Session.launch_run hg (hw.ready e g hg), hrun]
  exact ⟨_, _, rfl⟩

/-- The first obstacle is reported, with nothing changed and nothing heard. Without an obstacle
there is a report. -/
theorem launch_outcome (hw : w.Reachable) (hg : w.engines[e]? = some g) :
    let m := w.modelAt g.model
    if g.indices.isNone ∨ m.columns.isNone then (Session.launch e).Refuses w .value
    else if ∃ j ∈ g.indices.getD [], ¬ (0 ≤ j ∧ j < (m.columns.getD []).length) then
      (Session.launch e).Refuses w .position
    else if m.rows.isNone then (Session.launch e).Refuses w .value
    else if g.options.normalize = false ∧ ∃ r ∈ m.rows.getD [], r.relation.isAbove = true then
      (Session.launch e).Refuses w .value
    else ∃ r t, (Session.launch e).run w = .ok r t := by
  intro m
  have refuses {f : Fault α} (h : obstacle? g.options g.indices m = some f) :
      (Session.launch e).Refuses w f.category := ⟨f, rfl, launch_of_obstacle hw.sound hg h⟩
  cases hi : g.indices with
  | none => exact refuses (by rw [hi]; rfl)
  | some indices =>
      cases hc : m.columns with
      | none => exact refuses (f := .noVariables) (by simp [hi, obstacle?, hc])
      | some columns =>
          rw [if_neg (by simp)]
          simp only [Option.getD_some]
          split
          next hj =>
            obtain ⟨j, hj⟩ := Option.isSome_iff_exists.mp (outOfRange?_isSome.mpr hj)
            exact refuses (f := .indexOutOfRange j columns.length) (by simp [hi, obstacle?, hc, hj])
          next hj =>
            have hnone : outOfRange? columns.length indices = none := by
              rw [← Option.not_isSome_iff_eq_none, outOfRange?_isSome]
              exact hj
            cases hr : m.rows with
            | none => exact refuses (f := .noConstraints) (by simp [hi, obstacle?, hc, hnone, hr])
            | some rows =>
                rw [if_neg (by simp)]
                split
                next hp =>
                  exact refuses (f := .wrongPolarity) (by
                    simpa [hi, obstacle?, hc, hnone, hr] using hp)
                next hp =>
                  refine launch_of_ready hw.sound hg ?_
                  change obstacle? g.options g.indices m = none
                  simpa [hi, obstacle?, hc, hnone, hr] using hp

end Launch

def oneColumn : List (Command Float) :=
  [.makeVariable "x" "continuous" 0.5 0 10, .setColumns 0 ["x"], .setRows 0 [[1]] [1] ["<="],
    .newEngine 0 {}, .setIndices 0 [0]]

theorem launch_oneColumn : ∃ r t, (Session.launch 0).run (Workspace.after oneColumn) = .ok r t := by
  have hg : (Workspace.after oneColumn).engines[0]?.map
      (fun g => (g.model, g.indices, g.options.normalize)) = some (0, some [0], true) := by
    decide +kernel
  have hc : ((Workspace.after oneColumn).modelAt 0).columns = some [0] := by decide +kernel
  have hr : ((Workspace.after oneColumn).modelAt 0).rows.isNone = false := by decide +kernel
  have hreach := Workspace.reachable_after oneColumn
  -- from here on the workspace is not computed any more
  generalize Workspace.after oneColumn = w at hg hc hr hreach ⊢
  obtain ⟨g, hg, heq⟩ := Option.map_eq_some_iff.mp hg
  obtain ⟨hmodel, hindices, hnormalize⟩ : g.model = 0 ∧ g.indices = some [0] ∧
    g.options.normalize = true := by simpa using heq
  have h := launch_outcome hreach hg
  simpa [hmodel, hindices, hnormalize, hc, hr] using h

end MilpRounding
