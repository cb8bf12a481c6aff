import MilpRounding.Proofs.InequalityRows
import MilpRounding.Proofs.SoundVerdicts
import MilpRounding.Proofs.SuccessiveTurns

namespace MilpRounding

open Scalar LawfulScalar

/-- Two models that say the same about their rows, whatever the values of the variables are. -/
structure Model.AnswersAlike {α : Type} [Scalar α] (m n : Model α) : Prop where
  slack (s : Store α) (i : Int) : n.slack s i = m.slack s i
  slacks (s : Store α) : n.slacks s = m.slacks s
  violated (s : Store α) (tol : α) : n.violated tol s = m.violated tol s
  isFeasible (s : Store α) (tol : α) : n.isFeasible tol s = m.isFeasible tol s

variable {target : Relation}

namespace Row

theorem relation_toward_eq_iff {α : Type} [Scalar α] {r : Row α} :
    (r.toward target).relation = .eq ↔ r.relation = .eq := by
  by_cases h : r.relation = .eq
  · have ho : r.relation.opposes target = false := by
      rw [h]
      rfl
    rw [toward_of_not_opposes ho]
  · exact iff_of_false (relation_toward_ne h target) h

theorem slack_toward (target : Relation) (r : Row Exact) (x : List Exact) :
    (r.toward target).slack x = r.slack x := by
  cases ho : r.relation.opposes target with
  | true =>
      rw [toward_of_opposes ho]
      exact denote_slack_negated x r (Relation.ne_eq_of_opposes ho)
  | false => rw [toward_of_not_opposes ho]

end Row

theorem violatedRows_toward (target : Relation) (tol : Exact) (rows : List (Row Exact))
    (x : List Exact) :
    violatedRows tol (rows.map (Row.toward target)) x = violatedRows tol rows x := by
  rw [violatedRows, violatedRows, List.length_map]
  apply List.filter_congr
  intro i _
  rw [List.getElem?_map]
  cases rows[i]? with
  | none => rfl
  | some r => exact r.isViolated_toward tol x target

def Tableau.toward (target : Relation) (y : Tableau Exact) : Tableau Exact :=
  { y with rows := y.rows.map (Row.toward target) }

namespace Tableau

theorem slacks_toward (y : Tableau Exact) (s : Store Exact) :
    (y.toward target).slacks s = y.slacks s := by
  rw [slacks, slacks, toward, List.map_map]
  apply List.map_congr_left
  intro r _
  exact r.slack_toward target (y.values s)

theorem violated_toward (y : Tableau Exact) (tol : Exact) (s : Store Exact) :
    (y.toward target).violated tol s = y.violated tol s :=
  violatedRows_toward target tol y.rows (y.values s)

end Tableau

namespace Model

variable {m : Model Exact} {rows : List (Row Exact)}

def toward (target : Relation) (m : Model Exact) : Model Exact :=
  { m with rows := m.rows.map (List.map (Row.toward target)) }

theorem requireTableau_toward (target : Relation) (m : Model Exact) :
    (m.toward target).requireTableau = m.requireTableau.map (Tableau.toward target) := by
  obtain ⟨columns, rows, objective⟩ := m
  cases rows <;> cases columns <;> rfl

theorem slack_toward (target : Relation) (m : Model Exact) (s : Store Exact) (i : Int) :
    (m.toward target).slack s i = m.slack s i := by
  cases hr : m.rows with
  | none =>
      have hturned : (m.toward target).rows = none := by
        rw [toward, hr, Option.map_none]
      rw [slack, slack, requireRows, requireRows, hturned, hr]
      rfl
  | some rows =>
      have hturned : (m.toward target).rows = some (rows.map (Row.toward target)) := by
        rw [toward, hr, Option.map_some]
      rw [slack_eq_bind hturned, slack_eq_bind hr, pick_of_map]
      cases (pick rows i : Except (Fault Exact) (Row Exact)) with
      | error f => rfl
      | ok r =>
          have hslack : (r.toward target).slack = r.slack := by
            funext x
            exact r.slack_toward target x
          simp only [Except.map, Except.bind, Row.relation_toward_eq_iff, hslack]
          rfl

theorem answersAlike_toward (target : Relation) (m : Model Exact) :
    m.AnswersAlike (m.toward target) := by
  have hviolated (s : Store Exact) (tol : Exact) :
      (m.toward target).violated tol s = m.violated tol s := by
    rw [violated, violated, requireTableau_toward]
    cases m.requireTableau with
    | error f => rfl
    | ok y => exact congrArg Except.ok (y.violated_toward tol s)
  refine ⟨fun s i => m.slack_toward target s i, fun s => ?_, hviolated, fun s tol => ?_⟩
  · have htableau := m.requireTableau_toward target
    rw [slacks, slacks, htableau]
    cases hr : m.rows with
    | none => simp [toward, hr]
    | some rows =>
        simp only [toward, hr, Option.map_some]
        cases m.requireTableau with
        | error f => rfl
        | ok y => exact congrArg Except.ok (y.slacks_toward s)
  · rw [isFeasible, isFeasible, hviolated]

end Model

/-- To turn the rows of a model toward an inequality negates just the rows that oppose it, and changes no
slack, no violation and no verdict, whatever the values of the variables are and whatever is tolerated. -/
theorem turn_keeps_answers {c : Scene Exact} {rows : List (Row Exact)}
    (hrows : c.model.rows = some rows) (htarget : target ≠ .eq) :
    ∃ flipped c' turned, (Action.orient target).run c = .ok flipped c' ∧ c'.store = c.store ∧
      c'.model = { c.model with rows := some turned } ∧ Turn target rows flipped turned ∧
      c.model.AnswersAlike c'.model := by
  obtain ⟨events, hrun, -⟩ := Action.orient_turns htarget hrows
  have halike := c.model.answersAlike_toward target
  rw [Model.toward, hrows] at halike
  exact ⟨_, _, _, hrun, rfl, rfl, turn_toward htarget rows, halike⟩

def fiveRelations : Scene Exact where
  store := halves.store
  model :=
    { columns := some [0, 1]
      rows := some [⟨[.finite 1, .finite 1], .lt, .finite 1⟩, ⟨[.finite 2, .finite 0], .le, .finite 1⟩,
        ⟨[.finite 1, .finite (-1)], .eq, .finite 0⟩, ⟨[.finite (-1), .finite 2], .ge, .finite 1⟩,
        ⟨[.posInf, .finite 1], .gt, .finite 3⟩] }

theorem turn_keeps_answers_fiveRelations :
    ∃ flipped c', (Action.orient .le).run fiveRelations = .ok flipped c' ∧ flipped = [3, 4] ∧
      fiveRelations.model.AnswersAlike c'.model := by
  have hle : Relation.le ≠ .eq := by decide
  obtain ⟨flipped, c', _, hrun, -, -, -, halike⟩ := turn_keeps_answers (c := fiveRelations) rfl hle
  obtain ⟨events, hrun', -⟩ := Action.orient_turns (c := fiveRelations) hle rfl
  rw [hrun'] at hrun
  cases hrun
  exact ⟨_, _, hrun', by decide, halike⟩

end MilpRounding
