import MilpRounding.Proofs.CourseStages
import MilpRounding.Proofs.RunOutcome

namespace MilpRounding

open Scalar LawfulScalar

variable {α : Type} [Scalar α]

namespace Tableau

variable (y : Tableau α) (s : Store α) (r : Ref)

theorem values_makeIntegral : y.values (s.makeIntegral r) = y.values s :=
  List.map_congr_left fun t _ => Store.read_makeIntegral_value s r t

theorem variableAt_makeIntegral (j : Nat) : ∃ kind,
    y.variableAt (s.makeIntegral r) j = { y.variableAt s j with kind := kind } := by
  rw [variableAt, Store.read_makeIntegral]
  split
  next => exact ⟨.integral, rfl⟩
  next => exact ⟨(s.read (y.ref j)).kind, rfl⟩

theorem limitUp_makeIntegral (j : Nat) : y.limitUp (s.makeIntegral r) j = y.limitUp s j := by
  simp only [limitUp, values_makeIntegral]

theorem limitDown_makeIntegral (j : Nat) : y.limitDown (s.makeIntegral r) j = y.limitDown s j := by
  simp only [limitDown, values_makeIntegral]

theorem choice_makeIntegral (j : Nat) : y.choice (s.makeIntegral r) j = y.choice s j := by
  obtain ⟨kind, hv⟩ := y.variableAt_makeIntegral s r j
  simp only [choice, targetUp, targetDown, reachUp, reachDown, limitUp_makeIntegral,
    limitDown_makeIntegral, hv]
  rfl

theorem totals_makeIntegral (pending : List Nat) :
    y.totals (s.makeIntegral r) pending = y.totals s pending := by
  simp only [totals, limitUp_makeIntegral, limitDown_makeIntegral]

theorem next_makeIntegral (j : Nat) :
    y.next (s.makeIntegral r) j = ((y.next s j).1.makeIntegral r, (y.next s j).2) := by
  rw [next, choice_makeIntegral, next]
  cases y.choice s j with
  | none => rfl
  | some t =>
      refine Prod.ext (Store.ext_read ?_ fun i => ?_) rfl
      · simp [Store.makeIntegral]
      · simp only [variableAt, Store.read_makeIntegral, Store.read_write, Store.size_makeIntegral,
          Store.size_write]
        split_ifs <;> grind

end Tableau

namespace Rounding

variable {y : Tableau α} {options : Options α} {indices : Option (List Int)}

section Marks

variable (y) (columns marks : List Nat) (s : Store α)

theorem next_markColumns (j : Nat) : y.next (markColumns y columns s) j =
    (markColumns y columns (y.next s j).1, (y.next s j).2) := by
  induction columns generalizing s with
  | nil => rfl
  | cons i rest ih =>
      simp only [markColumns, List.foldl_cons] at ih ⊢
      rw [ih, y.next_makeIntegral]

theorem values_markColumns : y.values (markColumns y columns s) = y.values s :=
  List.map_congr_left fun r _ => value_markColumns y columns s r

theorem totals_markColumns (pending : List Nat) :
    y.totals (markColumns y columns s) pending = y.totals s pending := by
  induction columns generalizing s with
  | nil => rfl
  | cons i rest ih =>
      simp only [markColumns, List.foldl_cons] at ih ⊢
      rw [ih, y.totals_makeIntegral]

theorem isIntegral_markColumns (j : Nat) :
    (y.variableAt (markColumns y columns s) j).isIntegral = (y.variableAt s j).isIntegral := by
  have hvalue : (y.variableAt (markColumns y columns s) j).value = (y.variableAt s j).value :=
    value_markColumns y columns s (y.ref j)
  rw [Variable.isIntegral, Variable.isIntegral, hvalue]

theorem size_markColumns : (markColumns y columns s).size = s.size := by
  rw [markColumns_eq_foldl, Store.size_foldl_makeIntegral]

theorem read_markColumns (r : Ref) : (markColumns y columns s).read r =
    if (∃ j ∈ columns, y.ref j = r) ∧ r < s.size then { s.read r with kind := .integral }
    else s.read r := by
  simp only [markColumns_eq_foldl, Store.read_foldl_makeIntegral, List.mem_map]

theorem markColumns_markColumns (h : marks ⊆ columns) :
    markColumns y columns (markColumns y marks s) = markColumns y columns s := by
  refine Store.ext_read (by simp only [size_markColumns]) fun r => ?_
  simp only [read_markColumns, size_markColumns]
  split_ifs <;> grind

/-- Marks do not change a course but for the marks themselves. -/
theorem course_markColumns (stopOnStall : Bool) (left : Nat) (pending : List Nat) :
    (y.course stopOnStall left pending s).Agrees (fun t u => u = markColumns y columns t)
      (y.course stopOnStall left pending (markColumns y columns s)) := by
  have h : Tableau.Parallel stopOnStall pending (fun t u => u = markColumns y columns t) y y := by
    constructor
    · rintro t _ j rfl -
      rw [next_markColumns]
    · rintro t _ j rfl -
      rw [next_markColumns]
    · rintro t _ j rfl -
      rw [isIntegral_markColumns]
    · rintro t _ p moves rfl -
      rw [totals_markColumns]
  exact h.course left (List.Subset.refl pending) rfl

end Marks

def markedColumns (options : Options α) (indices : Option (List Int)) (k : Course α) : List Nat :=
  if options.markIntegral then roundedColumns indices k else []

theorem settled_eq_markColumns (y : Tableau α) (k : Course α) :
    settled options indices y k = markColumns y (markedColumns options indices k) k.store := by
  rw [settled, markedColumns]
  split <;> rfl

theorem markedColumns_congr {k l : Course α} (h : k.pending = l.pending) :
    markedColumns options indices k = markedColumns options indices l := by
  simp only [markedColumns, roundedColumns, h]

theorem markedColumns_subset {k l : Course α} (h : l.pending ⊆ k.pending) :
    markedColumns options indices k ⊆ markedColumns options indices l := by
  rw [markedColumns, markedColumns]
  split
  next =>
    intro j hj
    obtain ⟨hmem, hdone⟩ := mem_roundedColumns.mp hj
    exact mem_roundedColumns.mpr ⟨hmem, fun hl => hdone (h hl)⟩
  next => exact List.Subset.refl _

/-- A report does not tell courses apart that agree about the values of the columns. -/
theorem reportOf_congr {k l : Course α} (h : k.Agrees (fun s t => y.values s = y.values t) l) :
    reportOf options indices y k = reportOf options indices y l := by
  simp only [reportOf, roundedColumns, Tableau.objectiveValue, Tableau.isFeasible,
    Tableau.violated, h.status, h.pending, h.history, h.store, h.length_sweeps]

theorem reportOf_after (ws : List (Sweep α)) (k : Course α) :
    reportOf options indices y (k.after ws) =
      { reportOf options indices y k with
        sweeps := ws.length + k.sweeps.length
        moves := (ws.map Sweep.moves).sum + (k.sweeps.map Sweep.moves).sum
        history := ws.map Sweep.moves ++ k.sweeps.map Sweep.moves } := by
  simp [reportOf, Course.after, roundedColumns]

theorem oriented_oriented (options : Options α) (rows : List (Row α)) :
    oriented options (oriented options rows) = oriented options rows := by
  rw [oriented]
  split
  next hn => simp [oriented, hn, Row.toward_toward]
  next => rfl

theorem orientedModel_orientedModel (options : Options α) (m : Model α) :
    orientedModel options (orientedModel options m) = orientedModel options m := by
  simp [orientedModel, oriented_oriented, Function.comp_def]

theorem tableau_orientedModel (options : Options α) (m : Model α) :
    tableau options (orientedModel options m) = tableau options m := by
  cases hr : m.rows with
  | none => simp [tableau, orientedModel, hr]
  | some rows => simp [tableau, orientedModel, hr, oriented_oriented]

theorem obstacle?_orientedModel {m : Model α} (h : obstacle? options indices m = none) :
    obstacle? options indices (orientedModel options m) = none := by
  obtain ⟨idx, columns, rows, rfl, hc, hr, -, -⟩ := obstacle?_eq_none h
  simp only [obstacle?, hc, hr] at h
  simp only [obstacle?, orientedModel, hc, hr, Option.map_some]
  cases hout : outOfRange? columns.length idx with
  | some j => simp [hout] at h
  | none =>
      cases hn : options.normalize with
      | true => simp
      | false => simpa [hout, hn, oriented] using h

end Rounding

end MilpRounding
