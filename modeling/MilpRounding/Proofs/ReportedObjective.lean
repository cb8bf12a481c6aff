import MilpRounding.Proofs.AssembledRun
import MilpRounding.Proofs.ProblemMeaning

namespace MilpRounding

open Scalar

section Points

variable {α : Type} [Scalar α]

def Point.valueOf (point : Point α) (name : String) : α := (point.lookup name).getD 0

omit [Scalar α] in
theorem map_lookup_zip {names : List String} (hn : names.Nodup) {values : List α}
    (hlength : names.length = values.length) :
    names.map ((names.zip values).lookup ·) = values.map some := by
  induction names generalizing values with
  | nil =>
      obtain rfl := List.length_eq_zero_iff.mp hlength.symm
      rfl
  | cons name rest ih =>
      obtain ⟨hfresh, hrest⟩ := List.nodup_cons.mp hn
      cases values with
      | nil => cases hlength
      | cons value values =>
          have htail : rest.map (((name, value) :: rest.zip values).lookup ·) =
              rest.map ((rest.zip values).lookup ·) := by
            apply List.map_congr_left
            intro other hother
            have hne : (other == name) = false := by
              rw [beq_eq_false_iff_ne]
              rintro rfl
              exact hfresh hother
            rw [List.lookup_cons, hne]
          rw [List.zip_cons_cons, List.map_cons, List.map_cons, List.lookup_cons_self, htail,
            ih hrest (Nat.succ_injective hlength)]

theorem Expression.linear_congr {e : Expression α} {f g : String → α}
    (h : ∀ t ∈ e.terms, f t.variableName = g t.variableName) : e.linear f = e.linear g := by
  have hproducts : (e.terms.map fun t => t.coefficient * f t.variableName) =
      e.terms.map fun t => t.coefficient * g t.variableName :=
    List.map_congr_left fun t ht => by rw [h t ht]
  rw [linear, linear, hproducts]

/-- Numbers given to names of their own can be read off by name. -/
theorem map_valueOf_zip {names : List String} (hn : names.Nodup) {values : List α}
    (hlength : names.length = values.length) :
    names.map (Point.valueOf (names.zip values)) = values := by
  have h := congrArg (List.map (·.getD 0)) (map_lookup_zip hn hlength)
  rw [List.map_map, List.map_map] at h
  exact h.trans (List.map_id values)

end Points

structure Expression.Rational (e : Expression Exact) : Prop where
  coefficients : ∀ t ∈ e.terms, isFinite t.coefficient = true
  constant : isFinite e.constant = true

theorem Expression.Rational.linear_eq {e : Expression Exact} (he : e.Rational) {f : String → Exact}
    (hf : ∀ t ∈ e.terms, isFinite (f t.variableName) = true) :
    e.linear f = .finite (total e.terms fun name => (f name).toRat) := by
  have hassigned : e.linear f = e.linear (assigned fun name => (f name).toRat) :=
    linear_congr fun t ht => Exact.eq_finite (hf t ht)
  rw [hassigned, linear_finite he.coefficients]

theorem assigned_of_map {names : List String} {f : String → Exact} {values : List Exact}
    (hread : names.map f = values) (hfinite : ∀ v ∈ values, isFinite v = true) :
    (∀ name ∈ names, isFinite (f name) = true) ∧
      names.map (assigned fun name => (f name).toRat) = values := by
  have hnames : ∀ name ∈ names, isFinite (f name) = true := fun name hname =>
    hfinite _ (hread ▸ List.mem_map_of_mem hname)
  refine ⟨hnames, ?_⟩
  rw [← hread]
  exact List.map_congr_left fun name hname => (Exact.eq_finite (hnames name hname)).symm

theorem isFinite_of_mem_valuesAt {s : Store Exact} (hs : s.Sound) {columns : List Ref} :
    ∀ v ∈ valuesAt columns s, isFinite v = true := by
  rw [valuesAt_eq hs]
  intro v hv
  obtain ⟨q, -, rfl⟩ := List.mem_map.mp hv
  rfl

namespace Problem

open Rounding

variable {p : Problem Exact} {point : Point Exact} {options : Options Exact}

/-- The names of a problem and what its report says: a value for each name, and what the terms of the
objective come to at these values. -/
theorem present_spec (hp : p.objective.Rational) {r : RoundedProblem Exact}
    (h : (p.roundPoint point options).1 = .ok r) :
    r.values.map Prod.fst = p.names ∧ (∀ t ∈ p.objective.terms, t.variableName ∈ p.names) ∧
      ∃ q, p.objective.linear r.values.valueOf = .finite q ∧ r.objective = some (.finite q) := by
  obtain ⟨a, ha, rfl⟩ := report_of_roundPoint h
  obtain ⟨costs, hcosts, hobjective⟩ := objective_of_assemble ha
  obtain ⟨hpairs, hlength⟩ := values_present ha options
  obtain ⟨hn, -, hmem, -⟩ := not_unfit_iff.mp ((p.assemble_decides point).ok_iff.mp ⟨a, ha⟩)
  have hreported : (a.report options).objective = some (dot costs (a.report options).values) := by
    rw [Assembly.report, reportOf, Tableau.objectiveValue, tableau, hobjective]
    rfl
  rw [hpairs]
  have hvalues_finite : ∀ v ∈ (a.report options).values, isFinite v = true := by
    rw [values_report ha]
    exact isFinite_of_mem_valuesAt (Tableau.course_sound (sound_of_assemble ha) _ _ _)
  obtain ⟨hfinite, hassigned⟩ := assigned_of_map (map_valueOf_zip hn hlength) hvalues_finite
  have hlinear := hp.linear_eq fun t ht => hfinite _ (hmem t ht)
  have hdot := dot_denseRow hp.coefficients hcosts
    fun name => (Point.valueOf (p.names.zip (a.report options).values) name).toRat
  rw [hassigned, linear_finite hp.coefficients] at hdot
  exact ⟨List.map_fst_zip hlength.le, hmem, _, hlinear, hreported.trans (congrArg some hdot)⟩

end Problem

/-- What a report gives as the objective is short of the problem's objective at the reported values by
the constant, so it is the problem's objective if and only if the constant is zero. -/
theorem objective_reported_iff {p : Problem Exact} (hp : p.objective.Rational) {point : Point Exact}
    {options : Options Exact} {r : RoundedProblem Exact}
    (h : (p.roundPoint point options).1 = .ok r) :
    r.values.map Prod.fst = p.names ∧ (∀ t ∈ p.objective.terms, t.variableName ∈ p.names) ∧
      ∃ v, r.objective = some v ∧
        p.objective.eval r.values.valueOf = v + p.objective.constant ∧
        (v = p.objective.eval r.values.valueOf ↔ p.objective.constant = 0) := by
  obtain ⟨hkeys, hnames, q, hlinear, hobjective⟩ := Problem.present_spec hp h
  refine ⟨hkeys, hnames, .finite q, hobjective, ?_, ?_⟩
  · rw [Expression.eval_eq, hlinear]
  · obtain ⟨c, hc⟩ := Exact.isFinite_iff.mp hp.constant
    rw [Expression.eval_eq, hlinear, hc, Exact.finite_add_finite, Exact.zero_eq]
    simp only [Exact.finite.injEq]
    constructor
    · intro hq
      linarith
    · rintro rfl
      rw [add_zero]

theorem roundPoint_of_toBool (p : Problem Exact) (point : Point Exact) (options : Options Exact)
    (h : (p.roundPoint point options).1.toBool = true) :
    ∃ r, (p.roundPoint point options).1 = .ok r :=
  ok_of_toBool h

theorem objective_reported_blend :
    ∃ r v, (blend.roundPoint [("y", .finite 1), ("x", .finite (1 / 2))] .standard).1 = .ok r ∧
      r.objective = some v ∧ blend.objective.eval r.values.valueOf = v + .finite 7 := by
  obtain ⟨r, hr⟩ := roundPoint_of_toBool blend [("y", .finite 1), ("x", .finite (1 / 2))] .standard
    (by decide +kernel)
  obtain ⟨-, -, v, hv, heval, -⟩ := objective_reported_iff ⟨by decide, rfl⟩ hr
  exact ⟨r, v, hr, hv, heval⟩

def offset : Problem Exact where
  sense := .min
  objective := ⟨[⟨"x", .finite 1⟩], .finite 7⟩
  declarations := [⟨"x", some (.finite 0), some (.finite 10), true⟩]
  constraints := [⟨"cap", ⟨[⟨"x", .finite 1⟩], .finite 0⟩, .le, .finite 1⟩]

theorem objective_misreported :
    offset.objective.Rational ∧ ∃ r, (offset.roundPoint [("x", .finite (1 / 2))] .standard).1 = .ok r ∧
      r.objective ≠ some (offset.objective.eval r.values.valueOf) := by
  have hrational : offset.objective.Rational := ⟨by decide, rfl⟩
  obtain ⟨r, hr⟩ := roundPoint_of_toBool offset [("x", .finite (1 / 2))] .standard
    (by decide +kernel)
  obtain ⟨-, -, q, hlinear, hobjective⟩ := Problem.present_spec hrational hr
  refine ⟨hrational, r, hr, ?_⟩
  rw [hobjective, Expression.eval_eq, hlinear]
  intro hsame
  have hq : q = q + 7 := Exact.finite.inj (Option.some.inj hsame)
  linarith

end MilpRounding
