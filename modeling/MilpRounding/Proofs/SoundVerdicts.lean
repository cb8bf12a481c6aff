import MilpRounding.Proofs.Binary64.Products
import MilpRounding.Proofs.ReportedObjective
import MilpRounding.Proofs.StoreRevision

namespace MilpRounding

open Scalar LawfulScalar Rounding

variable {α : Type} [Scalar α]

/-- A row holds at some values if the comparison that it stands for is true there. -/
def Row.Holds (tol : α) (x : List α) (r : Row α) : Prop :=
  match r.relation with
  | .eq => magnitude (r.left x - r.rhs) ≤ tol
  | .le | .ge => -tol ≤ r.slack x
  | .lt | .gt => 0 < r.slack x ∧ -tol ≤ r.slack x

namespace LawfulScalar

variable [LawfulScalar α]

theorem le_iff_not_lt (a b : α) : a ≤ b ↔ ¬ b < a ∧ isNaN a = false ∧ isNaN b = false := by
  rw [le_iff_denote, lt_iff_denote, isNaN_denote a, isNaN_denote b]
  exact Exact.le_iff_not_lt (denote a) (denote b)

theorem lt_iff_not_le (a b : α) : a < b ↔ ¬ b ≤ a ∧ isNaN a = false ∧ isNaN b = false := by
  rw [le_iff_denote, lt_iff_denote, isNaN_denote a, isNaN_denote b]
  exact Exact.lt_iff_not_le (denote a) (denote b)

theorem isNaN_zero : isNaN (0 : α) = false := by
  rw [isNaN_denote, denote_zero]
  rfl

theorem isNaN_neg (a : α) : isNaN (-a) = isNaN a := isNaN_of_neg (denote_neg a)

theorem isNaN_magnitude (a : α) : isNaN (magnitude a) = isNaN a := by
  rw [magnitude]
  split
  next => exact isNaN_neg a
  next =>
    split
    next h => rw [isNaN_denote a, denote_eq_of_beq h, ← isNaN_denote]
    next => rfl

end LawfulScalar

namespace Row

variable [LawfulScalar α] [DifferenceScalar α] (tol : α) (x : List α) (r : Row α)

theorem isNaN_slack (h : r.relation ≠ .eq) : isNaN (r.slack x) = isNaN (r.left x - r.rhs) := by
  rw [slack, if_neg h]
  split
  next => exact isNaN_of_neg (denote_sub_comm _ _)
  next => rfl

/-- A row holds if it is not violated and its two sides can be compared. -/
theorem holds_iff : r.Holds tol x ↔
    r.isViolated tol x = false ∧ isNaN tol = false ∧ isNaN (r.left x - r.rhs) = false := by
  have hslack := r.isNaN_slack x
  rw [Holds, isViolated]
  cases hr : r.relation with
  | eq =>
      simp only [reduceIte, decide_eq_false_iff_not, le_iff_not_lt, isNaN_magnitude]
      exact and_congr_right fun _ => and_comm
  | le | ge =>
      rw [hr] at hslack
      simp [le_iff_not_lt, isNaN_neg, hslack, Relation.isStrict]
  | lt | gt =>
      rw [hr] at hslack
      simp only [lt_iff_not_le (0 : α), isNaN_zero, ne_eq, reduceCtorEq, not_false_eq_true, hslack,
        true_and, le_iff_not_lt (-tol), isNaN_neg, reduceIte, Relation.isStrict, Bool.true_and,
        Bool.or_eq_false_iff, decide_eq_false_iff_not]
      tauto

section Turned

variable [RoundedScalar α]

theorem denote_slack_negated (h : r.relation ≠ .eq) :
    denote (r.negated.slack x) = denote (r.slack x) := by
  have hleft : denote (r.negated.left x) = -denote (r.left x) := denote_dot_neg r.coefficients x
  have hrhs : denote r.negated.rhs = -denote r.rhs := denote_neg r.rhs
  have hturned : r.negated.relation ≠ .eq := Relation.converse_ne_eq h
  have hbelow : r.negated.relation.isBelow = !r.relation.isBelow := Relation.isBelow_converse h
  rw [slack, slack, if_neg h, if_neg hturned, hbelow]
  cases r.relation.isBelow with
  | true =>
      rw [Bool.not_true, if_neg Bool.false_ne_true, if_pos rfl, denote_sub_of_neg hleft hrhs,
        denote_sub_comm, Exact.neg_neg]
  | false =>
      rw [Bool.not_false, if_pos rfl, if_neg Bool.false_ne_true, denote_sub_of_neg hrhs hleft,
        denote_sub_comm, Exact.neg_neg]

theorem isViolated_toward (target : Relation) :
    (r.toward target).isViolated tol x = r.isViolated tol x := by
  rw [toward]
  split
  next h =>
    have hne := Relation.ne_eq_of_opposes h
    have hturned : r.negated.relation ≠ .eq := Relation.converse_ne_eq hne
    have hstrict : r.negated.relation.isStrict = r.relation.isStrict :=
      Relation.isStrict_converse r.relation
    have hslack := denote_slack_negated x r hne
    have hnone : r.negated.slack x ≤ 0 ↔ r.slack x ≤ 0 := by
      rw [le_iff_denote, hslack, ← le_iff_denote]
    have hless : r.negated.slack x < -tol ↔ r.slack x < -tol := by
      rw [lt_iff_denote, hslack, ← lt_iff_denote]
    rw [isViolated, isViolated, if_neg hne, if_neg hturned, hstrict, decide_eq_decide.mpr hnone,
      decide_eq_decide.mpr hless]
  next => rfl

end Turned

end Row

theorem violatedRows_isEmpty {tol : α} {rows : List (Row α)} {x : List α} :
    (violatedRows tol rows x).isEmpty = true ↔ ∀ r ∈ rows, r.isViolated tol x = false := by
  rw [violatedRows, List.isEmpty_iff, List.filter_eq_nil_iff]
  constructor
  · intro h r hr
    obtain ⟨i, hi⟩ := List.mem_iff_getElem?.mp hr
    have hlt := (List.getElem?_eq_some_iff.mp hi).1
    simpa [hi] using h i (List.mem_range.mpr hlt)
  · intro h i _
    cases hi : rows[i]? with
    | none => simp
    | some r => simpa using h r (List.mem_of_getElem? hi)

section Feasible

variable [LawfulScalar α] [DifferenceScalar α] [RoundedScalar α]

/-- A run judges the rows as they were before it turned them. -/
theorem isFeasible_tableau (options : Options α) (m : Model α) (tol : α) (s : Store α) :
    (tableau options m).isFeasible tol s = true ↔
      ∀ r ∈ m.rows.getD [], r.isViolated tol (valuesAt (m.columns.getD []) s) = false := by
  rw [Tableau.isFeasible, Tableau.violated, violatedRows_isEmpty, tableau, Tableau.values, oriented]
  split
  next =>
    rw [List.forall_mem_map]
    simp only [Row.isViolated_toward]
  next => rfl

end Feasible

namespace Tableau

theorem bounds_next (y : Tableau α) (s : Store α) (j : Nat) (r : Ref) :
    ((y.next s j).1.read r).low = (s.read r).low ∧
      ((y.next s j).1.read r).high = (s.read r).high := by
  rw [next]
  split
  next => exact ⟨rfl, rfl⟩
  next => refine Store.read_write_bounds ?_ ?_ r <;> rfl

theorem bounds_course (y : Tableau α) (stopOnStall : Bool) (left : Nat) (pending : List Nat)
    (s : Store α) (r : Ref) :
    ((y.course stopOnStall left pending s).store.read r).low = (s.read r).low ∧
      ((y.course stopOnStall left pending s).store.read r).high = (s.read r).high :=
  (course_invariant
    (P := fun t => (t.read r).low = (s.read r).low ∧ (t.read r).high = (s.read r).high)
    (fun t j _ ht => ⟨(y.bounds_next t j r).1.trans ht.1, (y.bounds_next t j r).2.trans ht.2⟩)
    stopOnStall left (List.Subset.refl pending) ⟨rfl, rfl⟩).2

end Tableau

namespace Problem

variable [LawfulScalar α] {p : Problem α} {point : Point α} {a : Assembly α}

theorem lookup_present (h : p.assemble point = .ok a) (options : Options α) {j : Nat}
    {d : Declaration α} (hj : p.declarations[j]? = some d) :
    (p.present (a.report options)).values.lookup d.name =
      some ((a.course options).store.value j) := by
  obtain ⟨hvalues, hlength⟩ := values_present h options
  have hn := (not_unfit_iff.mp ((p.assemble_decides point).ok_iff.mp ⟨a, h⟩)).1
  have hlt := (List.getElem?_eq_some_iff.mp hj).1
  have hlookup := congrArg (·[j]?) (map_lookup_zip hn hlength)
  simp only [values_report h, names, valuesAt, List.getElem?_map, hj, List.getElem?_range hlt,
    Option.map_some, Option.some.injEq] at hlookup
  rw [hvalues, values_report h]
  exact hlookup

theorem within_iff (h : p.assemble point = .ok a) (options : Options α) {j : Nat}
    {d : Declaration α} (hj : p.declarations[j]? = some d) :
    (∀ low, d.low = some low → (low ≤ (a.course options).store.value j ↔ isNaN low = false)) ∧
      ∀ high, d.high = some high →
        ((a.course options).store.value j ≤ high ↔ isNaN high = false) := by
  have hd := read_of_assemble h hj
  have hsound : ((a.course options).store.read j).Sound :=
    Tableau.course_sound (sound_of_assemble h) _ _ _ j
  have hbounds : ((a.course options).store.read j).low = (a.store.read j).low ∧
      ((a.course options).store.read j).high = (a.store.read j).high :=
    Tableau.bounds_course _ _ _ _ _ j
  constructor
  · intro low hlow
    have hsame : ((a.course options).store.read j).low = low := by
      rw [hbounds.1, hd.low, Declaration.lowOrFree, hlow, Option.getD_some]
    rw [← hsame]
    exact ⟨fun hle => ((le_iff_not_lt _ _).mp hle).2.1, hsound.low_le⟩
  · intro high hhigh
    have hsame : ((a.course options).store.read j).high = high := by
      rw [hbounds.2, hd.high, Declaration.highOrFree, hhigh, Option.getD_some]
    rw [← hsame]
    exact ⟨fun hle => ((le_iff_not_lt _ _).mp hle).2.2, hsound.le_high⟩

end Problem

/-- A report can be relied on if all given bounds truly hold of the values that it gives, and all rows
truly hold at them where it calls them feasible. -/
structure RoundedProblem.Reliable (r : RoundedProblem α) (p : Problem α) (rows : List (Row α))
    (tol : α) : Prop where
  bounds : ∀ d ∈ p.declarations, ∃ v, r.values.lookup d.name = some v ∧
    (∀ low, d.low = some low → low ≤ v) ∧ ∀ high, d.high = some high → v ≤ high
  rows : r.feasible = true → ∀ row ∈ rows, row.Holds tol (r.values.map Prod.snd)

section Reports

variable [LawfulScalar α] [DifferenceScalar α] [RoundedScalar α] {p : Problem α} {point : Point α}
  {options : Options α}

/-- A report can be relied on if and only if no bound that is given is undefined, and neither, where it
calls the values feasible, is the tolerance or the difference of the two sides of a row. -/
theorem reliable_iff {r : RoundedProblem α} (h : (p.roundPoint point options).1 = .ok r) :
    ∃ a rows, p.assemble point = .ok a ∧ a.model.rows = some rows ∧
      (r.Reliable p rows options.tol ↔
        (∀ d ∈ p.declarations, (∀ low, d.low = some low → isNaN low = false) ∧
          ∀ high, d.high = some high → isNaN high = false) ∧
        (r.feasible = true → isNaN options.tol = false ∧
          ∀ row ∈ rows, isNaN (row.left (r.values.map Prod.snd) - row.rhs) = false)) := by
  obtain ⟨a, ha, rfl⟩ := Problem.report_of_roundPoint h
  obtain ⟨rows, hrows, hrelations⟩ := Problem.rows_of_assemble ha
  obtain ⟨hvalues, hlength⟩ := Problem.values_present ha options
  have hx : (p.present (a.report options)).values.map Prod.snd = (a.report options).values := by
    rw [hvalues, List.map_snd_zip hlength.ge]
  have hfeasible : (p.present (a.report options)).feasible = true ↔
      ∀ row ∈ rows, row.isViolated options.tol (a.report options).values = false := by
    have hjudged := isFeasible_tableau options a.model options.tol (a.course options).store
    rw [hrows, Problem.columns_of_assemble ha, Option.getD_some, Option.getD_some] at hjudged
    rw [Problem.values_report ha]
    exact hjudged
  -- the tolerance is compared in every row, and there is at least one
  obtain ⟨row₀, hrow₀⟩ := Problem.exists_row_of_assemble ha hrows
  refine ⟨a, rows, ha, hrows, fun hr => ⟨fun d hd => ?_, fun hf => ?_⟩, ?_⟩
  · obtain ⟨j, hj⟩ := List.mem_iff_getElem?.mp hd
    obtain ⟨v, hv, hlow, hhigh⟩ := hr.bounds d hd
    obtain rfl := Option.some.inj ((Problem.lookup_present ha options hj).symm.trans hv)
    obtain ⟨hl, hh⟩ := Problem.within_iff ha options hj
    exact ⟨fun low h => (hl low h).mp (hlow low h), fun high h => (hh high h).mp (hhigh high h)⟩
  · have hholds := hr.rows hf
    simp only [Row.holds_iff] at hholds
    exact ⟨(hholds row₀ hrow₀).2.1, fun row hrow => (hholds row hrow).2.2⟩
  · rintro ⟨hbounds, hnumbers⟩
    refine ⟨fun d hd => ?_, fun hf row hrow => ?_⟩
    · obtain ⟨j, hj⟩ := List.mem_iff_getElem?.mp hd
      obtain ⟨hl, hh⟩ := Problem.within_iff ha options hj
      exact ⟨_, Problem.lookup_present ha options hj,
        fun low h => (hl low h).mpr ((hbounds d hd).1 low h),
        fun high h => (hh high h).mpr ((hbounds d hd).2 high h)⟩
    · obtain ⟨htol, hsides⟩ := hnumbers hf
      rw [Row.holds_iff]
      refine ⟨?_, htol, hsides row hrow⟩
      rw [hx]
      exact hfeasible.mp hf row hrow

end Reports

def capped (coefficient : Float) : Problem Float where
  sense := .min
  objective := ⟨[], 0⟩
  declarations := [⟨"y", some 0, some 2, false⟩]
  constraints := [⟨"cap", ⟨[⟨"y", coefficient⟩], 0⟩, .le, 1⟩]

theorem reliable_capped : ∃ r a rows,
    ((capped 1).roundPoint [("y", 0)] .standard).1 = .ok r ∧
      (capped 1).assemble [("y", 0)] = .ok a ∧ a.model.rows = some rows ∧
      r.Reliable (capped 1) rows (tolerance : Float) := by
  have hanswered : ((capped 1).roundPoint [("y", 0)] .standard).1.toBool = true := by decide +kernel
  obtain ⟨r, hr⟩ := ok_of_toBool hanswered
  obtain ⟨a, rows, ha, hrows, hiff⟩ := reliable_iff hr
  have hsides : ((capped 1).roundPoint [("y", 0)] .standard).1.toOption.any (fun r =>
      ((capped 1).assemble [("y", 0)]).toOption.any fun a => (a.model.rows.getD []).all fun row =>
        !isNaN (row.left (r.values.map Prod.snd) - row.rhs)) = true := by
    decide +kernel
  simp only [hr, ha, hrows, Except.toOption, Option.any_some, Option.getD_some,
    List.all_eq_true] at hsides
  refine ⟨r, a, rows, hr, ha, hrows, hiff.mpr ⟨?_, fun _ => ⟨by decide +kernel, ?_⟩⟩⟩
  · intro d hd
    obtain rfl := List.mem_singleton.mp hd
    constructor
    · rintro low ⟨⟩
      decide +kernel
    · rintro high ⟨⟩
      decide +kernel
  · intro row hrow
    simpa using hsides row hrow

/-- At zero the two sides of the cap cannot be compared, and the report calls it feasible. -/
theorem verdict_unreliable : ∃ r a rows,
    ((capped infinity).roundPoint [("y", 0)] .standard).1 = .ok r ∧
      (capped infinity).assemble [("y", 0)] = .ok a ∧ a.model.rows = some rows ∧
      r.feasible = true ∧ ∃ row ∈ rows, ¬ row.Holds (tolerance : Float) (r.values.map Prod.snd) := by
  have hanswered : ((capped infinity).roundPoint [("y", 0)] .standard).1.toBool = true := by
    decide +kernel
  obtain ⟨r, hr⟩ := ok_of_toBool hanswered
  obtain ⟨a, ha, -⟩ := Problem.report_of_roundPoint hr
  obtain ⟨rows, hrows, -⟩ := Problem.rows_of_assemble ha
  have hsides : ((capped infinity).roundPoint [("y", 0)] .standard).1.toOption.any (fun r =>
      r.feasible && ((capped infinity).assemble [("y", 0)]).toOption.any fun a =>
        (a.model.rows.getD []).any fun row =>
          isNaN (row.left (r.values.map Prod.snd) - row.rhs)) = true := by
    decide +kernel
  simp only [hr, ha, hrows, Except.toOption, Option.any_some, Option.getD_some, Bool.and_eq_true,
    List.any_eq_true] at hsides
  obtain ⟨hfeasible, row, hrow, hundefined⟩ := hsides
  refine ⟨r, a, rows, hr, ha, hrows, hfeasible, row, hrow, ?_⟩
  rw [Row.holds_iff, hundefined]
  simp

end MilpRounding
