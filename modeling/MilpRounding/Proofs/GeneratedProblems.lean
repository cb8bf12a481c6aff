import Mathlib
import MilpRounding.Proofs.AssembledRun
import MilpRounding.Proofs.ProblemMeaning
import MilpRounding.Proofs.ReportedObjective
import MilpRounding.Proofs.SatisfiedRows
import MilpRounding.Sample.Generated

namespace MilpRounding

open Scalar

namespace Draw

variable {σ β γ : Type}

/-- Whatever state it starts from, a computation results in something with a property. -/
structure Yields (x : StateM σ β) (P : β → Prop) : Prop where
  result (t : σ) : P (x.run t).1

theorem yields_pure {b : β} {P : β → Prop} (h : P b) : Yields (pure b : StateM σ β) P :=
  ⟨fun _ => h⟩

theorem Yields.bind {x : StateM σ β} {f : β → StateM σ γ} {P : β → Prop} {Q : γ → Prop}
    (hx : Yields x P) (hf : ∀ b, P b → Yields (f b) Q) : Yields (x >>= f) Q :=
  ⟨fun t => (hf _ (hx.result t)).result (x.run t).2⟩

theorem yields_any (x : StateM σ β) : Yields x fun _ => True := ⟨fun _ => trivial⟩

/-- The numbers are rational, from zero up to but not including one. -/
def Source.Proper (source : Source Exact σ) : Prop :=
  Yields source.unit fun a => ∃ q : ℚ, a = .finite q ∧ 0 ≤ q ∧ q < 1

theorem Source.Proper.uniform {source : Source Exact σ} (h : source.Proper) {low high : ℚ}
    (hle : low ≤ high) : Yields (source.uniform (.finite low) (.finite high)) fun a =>
      ∃ q : ℚ, a = .finite q ∧ low ≤ q ∧ q ≤ high := by
  rw [Source.uniform]
  apply Yields.bind h
  rintro _ ⟨q, rfl, hq, hq'⟩
  apply yields_pure
  have hspan : 0 ≤ high - low := sub_nonneg.mpr hle
  rw [Exact.finite_sub_finite]
  refine ⟨low + (high - low) * q, rfl, le_add_of_nonneg_right (mul_nonneg hspan hq), ?_⟩
  have hpart := mul_le_of_le_one_right hspan hq'.le
  linarith

end Draw

namespace Sample

open Draw

variable {σ : Type} {source : Source Exact σ}

theorem drawMany_yields (h : source.Proper) {low high : ℚ} (hle : low ≤ high) (n : Nat) :
    Yields (drawMany source (.finite low) (.finite high) n) fun l =>
      ∃ qs : List ℚ, l = qs.map .finite ∧ qs.length = n ∧ ∀ q ∈ qs, low ≤ q ∧ q ≤ high := by
  induction n with
  | zero => exact yields_pure ⟨[], rfl, rfl, fun q hq => nomatch hq⟩
  | succ n ih =>
      rw [drawMany]
      apply (h.uniform hle).bind
      rintro _ ⟨q, rfl, hq⟩
      apply ih.bind
      rintro _ ⟨qs, rfl, rfl, hqs⟩
      exact yields_pure ⟨q :: qs, rfl, rfl, List.forall_mem_cons.mpr ⟨hq, hqs⟩⟩

/-- A constraint over all variables, with no constant on its left side, that holds at some values. -/
def Fits (xs : List ℚ) (c : Constraint Exact) : Prop :=
  ∃ (ws : List ℚ) (b : ℚ), ws.length = xs.length ∧ c.left = ⟨termsOf (ws.map .finite), 0⟩ ∧
    c.rhs = .finite b ∧ (c.relation = .le ∧ form ws xs ≤ b ∨ c.relation = .ge ∧ b ≤ form ws xs)

theorem drawConstraint_yields (h : source.Proper) (xs : List ℚ) (i : Nat) :
    Yields (drawConstraint source (xs.map .finite) i) (Fits xs) := by
  rw [drawConstraint]
  apply (drawMany_yields h (by norm_num : -((5 : ℤ) : ℚ) ≤ (5 : ℤ)) _).bind
  rintro _ ⟨ws, rfl, hws, -⟩
  rw [List.length_map] at hws
  apply h.bind
  rintro side -
  apply (h.uniform (by norm_num : (0 : ℚ) ≤ (3 : ℤ))).bind
  rintro _ ⟨offset, rfl, hoffset, -⟩
  rw [dot_finite]
  split
  next => exact yields_pure ⟨ws, _, hws, rfl, rfl, .inl ⟨rfl, le_add_of_nonneg_right hoffset⟩⟩
  next =>
    exact yields_pure ⟨ws, form ws xs - offset, hws, rfl, by rw [Exact.finite_sub_finite],
      .inr ⟨rfl, sub_le_self _ hoffset⟩⟩

theorem drawConstraints_yields (h : source.Proper) (xs : List ℚ) (is : List Nat) :
    Yields (drawConstraints source (xs.map .finite) is) fun cs =>
      cs.length = is.length ∧ ∀ c ∈ cs, Fits xs c := by
  induction is with
  | nil => exact yields_pure ⟨rfl, fun c hc => nomatch hc⟩
  | cons i rest ih =>
      rw [drawConstraints]
      apply (drawConstraint_yields h xs i).bind
      intro c hc
      apply ih.bind
      rintro cs ⟨hlength, hcs⟩
      exact yields_pure ⟨congrArg Nat.succ hlength, List.forall_mem_cons.mpr ⟨hc, hcs⟩⟩

structure Generated (xs : List ℚ) (p : Problem Exact) : Prop where
  range : ∀ x ∈ xs, 0 ≤ x ∧ x ≤ 10
  declarations : p.declarations = (List.range xs.length).map declaration
  costs : ∃ ws : List ℚ, ws.length = xs.length ∧ p.objective.terms = termsOf (ws.map .finite)
  constraints : ∀ c ∈ p.constraints, Fits xs c
  constrained : p.constraints ≠ []

def pointOf (xs : List ℚ) : Point Exact :=
  ((List.range xs.length).map variableName).zip (xs.map .finite)

theorem drawProblem_yields (h : source.Proper) (n : Nat) {m : Nat} (hm : 1 ≤ m) :
    Yields (drawProblem source n m) fun d => ∃ xs, Generated xs d.1 ∧ d.2 = pointOf xs := by
  rw [drawProblem]
  apply (drawMany_yields h (by norm_num : (0 : ℚ) ≤ (10 : ℤ)) n).bind
  rintro _ ⟨xs, rfl, rfl, hxs⟩
  apply (drawConstraints_yields h xs (List.range m)).bind
  rintro cs ⟨hlength, hcs⟩
  apply (drawMany_yields h (by norm_num : -((4 : ℤ) : ℚ) ≤ (4 : ℤ)) _).bind
  rintro _ ⟨ws, rfl, hws, -⟩
  apply (yields_any source.coin).bind
  intro maximise _
  apply yields_pure
  refine ⟨xs, ⟨by exact_mod_cast hxs, rfl, ⟨ws, hws, rfl⟩, hcs, ?_⟩, rfl⟩
  rintro rfl
  rw [List.length_nil, List.length_range] at hlength
  omega

theorem variableName_injective {i j : Nat} (h : variableName i = variableName j) : i = j := by
  simp only [variableName, toString] at h
  exact Nat.repr_inj.mp ((String.append_right_inj "x").mp h)

theorem mem_termsOf {ws : List ℚ} {t : Term Exact} (ht : t ∈ termsOf (ws.map .finite)) :
    ∃ i, ∃ hi : i < ws.length, t = ⟨variableName i, .finite ws[i]⟩ := by
  obtain ⟨⟨a, i⟩, hmem, rfl⟩ := List.mem_map.mp ht
  have hat : (ws.map .finite)[i]? = some a := List.mem_zipIdx_iff_getElem?.mp hmem
  obtain ⟨hi, rfl⟩ := List.getElem?_eq_some_iff.mp hat
  exact ⟨i, by simpa using hi, by simp⟩

theorem total_termsOf (ws : List ℚ) (y : String → ℚ) :
    total (termsOf (ws.map .finite)) y =
      form ws (((List.range ws.length).map variableName).map y) := by
  rw [total, termsOf, form, List.map_map]
  congr 1
  apply List.ext_getElem
  · simp
  · intro i hi hi'
    simp [Exact.toRat]

section Fits

variable {xs : List ℚ} {c : Constraint Exact}

theorem Fits.rational (hc : Fits xs c) : c.Rational := by
  obtain ⟨ws, b, -, hleft, hrhs, -⟩ := hc
  refine ⟨fun t ht => ?_, ?_, ?_⟩
  · rw [hleft] at ht
    obtain ⟨i, hi, rfl⟩ := mem_termsOf ht
    rfl
  · rw [hleft]
    rfl
  · rw [hrhs]
    rfl

theorem Fits.satisfied (hc : Fits xs c) {names : List String}
    (hnames : names = (List.range xs.length).map variableName) {y : String → ℚ}
    (hy : names.map y = xs) {unknown : String → BuildFault Exact} {row : List Exact}
    (hrow : denseRow names unknown c.left.terms = .ok row) :
    Row.Satisfied xs ⟨row, c.relation, c.rhs - c.left.constant⟩ := by
  have hrational := Row.rational_of_denseRow hc.rational hrow
  have hroom := (Row.means_of_denseRow hc.rational hrow).room_eq hrational hc.rational y
  obtain ⟨ws, b, hws, hleft, hrhs, hside⟩ := hc
  have htotal : total c.left.terms y + c.left.constant.toRat = form ws xs := by
    rw [hleft, total_termsOf, hws, ← hnames, hy]
    exact add_zero _
  have hb : c.rhs.toRat = b := by
    rw [hrhs]
    rfl
  rw [hy, htotal, hb] at hroom
  rcases hside with ⟨hrel, hle⟩ | ⟨hrel, hle⟩
  · refine ⟨hrational, ?_, ?_, ?_⟩
    · simp [hrel]
    · simp [hrel, Relation.isStrict]
    · rw [hroom, hrel]
      exact sub_nonneg.mpr hle
  · refine ⟨hrational, ?_, ?_, ?_⟩
    · simp [hrel]
    · simp [hrel, Relation.isStrict]
    · rw [hroom, hrel]
      exact sub_nonneg.mpr hle

end Fits

namespace Generated

variable {xs : List ℚ} {p : Problem Exact} {a : Assembly Exact}

theorem names_eq (h : Generated xs p) : p.names = (List.range xs.length).map variableName := by
  rw [Problem.names, h.declarations, List.map_map]
  rfl

theorem nodup_names (h : Generated xs p) : p.names.Nodup := by
  rw [h.names_eq]
  exact List.nodup_range.map fun i j hij => variableName_injective hij

theorem map_lookup (h : Generated xs p) :
    p.names.map ((pointOf xs).lookup ·) = (xs.map Exact.finite).map some := by
  rw [pointOf, ← h.names_eq]
  apply map_lookup_zip h.nodup_names
  rw [h.names_eq]
  simp

theorem lookup_variableName (h : Generated xs p) {i : Nat} (hi : i < xs.length) :
    (pointOf xs).lookup (variableName i) = some (.finite xs[i]) := by
  have hat := congrArg (·[i]?) h.map_lookup
  simpa [h.names_eq, hi] using hat

theorem map_rational (h : Generated xs p) : p.names.map (pointOf xs).rational = xs := by
  have hall := congrArg (List.map fun v => (v.getD 0).toRat) h.map_lookup
  rw [List.map_map, List.map_map, List.map_map] at hall
  exact hall.trans (List.map_id xs)

theorem mem_names (h : Generated xs p) {ws : List ℚ} (hws : ws.length = xs.length) {t : Term Exact}
    (ht : t ∈ termsOf (ws.map .finite)) : t.variableName ∈ p.names := by
  obtain ⟨i, hi, rfl⟩ := mem_termsOf ht
  rw [h.names_eq]
  exact List.mem_map_of_mem (List.mem_range.mpr (hws ▸ hi))

theorem not_unfit (h : Generated xs p) : ¬ p.Unfit (pointOf xs) := by
  rw [Problem.not_unfit_iff]
  refine ⟨h.nodup_names, fun d hd => ?_, fun t ht => ?_, fun c hc t ht => ?_, h.constrained⟩
  · rw [h.declarations] at hd
    obtain ⟨i, hi, rfl⟩ := List.mem_map.mp hd
    rw [List.mem_range] at hi
    obtain ⟨hlow, hhigh⟩ := h.range xs[i] (List.getElem_mem hi)
    rw [Declaration.not_unfit_iff]
    refine ⟨.finite xs[i], h.lookup_variableName hi, ?_, rfl, ?_, ?_⟩
    · simp [declaration, Declaration.lowOrFree, Declaration.highOrFree]
    · simpa [declaration, Declaration.lowOrFree] using hlow
    · simpa [declaration, Declaration.highOrFree] using hhigh
  · obtain ⟨ws, hws, hterms⟩ := h.costs
    rw [hterms] at ht
    exact h.mem_names hws ht
  · obtain ⟨ws, b, hws, hleft, -⟩ := h.constraints c hc
    rw [hleft] at ht
    exact h.mem_names hws ht

theorem exists_assembly (h : Generated xs p) : ∃ a, p.assemble (pointOf xs) = .ok a :=
  (p.assemble_decides (pointOf xs)).ok_iff.mpr h.not_unfit

theorem rows_satisfied (h : Generated xs p) (ha : p.assemble (pointOf xs) = .ok a) :
    ∃ rows, a.model.rows = some rows ∧ ∀ r ∈ rows, r.Satisfied xs := by
  obtain ⟨-, -, matrix, -, -, hmatrix, rfl⟩ := Problem.assemble_parts ha
  have hrows := forall₂_of_denseRows
    (fun c hc _ hrow => (h.constraints c hc).satisfied h.names_eq h.map_rational hrow)
    (forall₂_of_mapM hmatrix)
  exact ⟨_, rfl, forall_mem_of_forall₂ hrows⟩

theorem point_eq (h : Generated xs p) (ha : p.assemble (pointOf xs) = .ok a) :
    point (List.range p.declarations.length) a.store = xs := by
  obtain ⟨cells, -, -, hcells, -, -, rfl⟩ := Problem.assemble_parts ha
  have hvalues := congrArg (List.map Exact.toRat) (Problem.values_of_cells hcells).2
  rw [valuesAt, List.map_map, List.map_map] at hvalues
  exact hvalues.trans h.map_rational

theorem violated_eq_nil (h : Generated xs p) (ha : p.assemble (pointOf xs) = .ok a) {tol : Exact}
    (ht : 0 ≤ tol) : a.model.violated tol a.store = .ok [] := by
  obtain ⟨rows, hrows, hsatisfied⟩ := h.rows_satisfied ha
  rw [Model.violated_eq (Problem.columns_of_assemble ha) hrows,
    valuesAt_eq (Problem.sound_of_assemble ha), h.point_eq ha,
    violatedRows_of_satisfied hsatisfied ht]

theorem scene_rational (h : Generated xs p) (ha : p.assemble (pointOf xs) = .ok a) :
    a.scene.Rational := by
  obtain ⟨rows, hrows, hsatisfied⟩ := h.rows_satisfied ha
  have hcolumns : a.scene.model.columns = _ := Problem.columns_of_assemble ha
  have hall : a.scene.model.rows = some rows := hrows
  refine ⟨Problem.sound_of_assemble ha, ?_, ?_⟩
  · rw [hcolumns]
    exact List.nodup_range
  · rw [hall]
    exact fun r hr => (hsatisfied r hr).rational

theorem run_feasible (h : Generated xs p) (ha : p.assemble (pointOf xs) = .ok a)
    {options : Options Exact} (hn : options.normalize = true) (ht : 0 ≤ options.tol) :
    ∃ report c', Problem.runAssembled a options = .ok report c' ∧ report.feasible = true := by
  have hready : Rounding.obstacle? options a.indices a.scene.model = none := by
    have hobstacle := Problem.obstacle?_of_assemble ha options
    rw [hn, Bool.not_true, Bool.false_and, if_neg Bool.false_ne_true] at hobstacle
    exact hobstacle
  have hrun := Rounding.run_of_ready (Problem.sound_of_assemble ha) hready
  obtain ⟨-, idx, columns, rows, hidx, hreported⟩ := reported (h.scene_rational ha) hrun
  refine ⟨_, _, hrun, ?_⟩
  rw [hidx]
  refine hreported.feasible_of_satisfied ?_ ht
  obtain ⟨rows', hrows', hsatisfied⟩ := h.rows_satisfied ha
  obtain rfl : rows' = rows := Option.some.inj (hrows'.symm.trans hreported.rows_eq)
  obtain rfl : _ = columns :=
    Option.some.inj ((Problem.columns_of_assemble ha).symm.trans hreported.columns_eq)
  intro r hr
  rw [show a.scene.store = a.store from rfl, h.point_eq ha]
  exact hsatisfied r hr

end Generated

end Sample

open Sample Draw in
/-- Whatever is drawn, a random problem with constraints can be assembled at the point that comes with it.
No row is violated there, and no run that turns the rows as it needs them ends where one is. -/
theorem drawn_stays_feasible {σ : Type} {source : Source Exact σ} (hsource : source.Proper) (n : Nat)
    {m : Nat} (hm : 1 ≤ m) (t : σ) :
    let drawn := ((drawProblem source n m).run t).1
    ∃ a, drawn.1.assemble drawn.2 = .ok a ∧
      (∀ tol, 0 ≤ tol → a.model.violated tol a.store = .ok []) ∧
      ∀ options : Options Exact, options.normalize = true → 0 ≤ options.tol →
        ∃ report c', Problem.runAssembled a options = .ok report c' ∧ report.feasible = true := by
  intro drawn
  obtain ⟨xs, h, hpoint⟩ := (drawProblem_yields hsource n hm).result t
  obtain ⟨a, ha⟩ := h.exists_assembly
  rw [← hpoint] at ha
  refine ⟨a, ha, ?_⟩
  rw [hpoint] at ha
  exact ⟨fun tol ht => h.violated_eq_nil ha ht, fun options hn ht => h.run_feasible ha hn ht⟩

def shrinking : Draw.Source Exact Nat where
  unit := fun t => (.finite (1 / (t + 2)), t + 1)
  coin := fun t => (true, t)

theorem drawn_stays_feasible_shrinking :
    let drawn := ((Sample.drawProblem shrinking 3 2).run 0).1
    ∃ a report c', drawn.1.assemble drawn.2 = .ok a ∧ a.model.violated 0 a.store = .ok [] ∧
      Problem.runAssembled a .standard = .ok report c' ∧ report.feasible = true := by
  intro drawn
  have hproper : shrinking.Proper := by
    refine ⟨fun t => ⟨1 / (t + 2), rfl, by positivity, ?_⟩⟩
    rw [div_lt_one (by positivity)]
    linarith [(Nat.cast_nonneg t : (0 : ℚ) ≤ t)]
  have htol : (0 : Exact) ≤ (Options.standard : Options Exact).tol := by decide +kernel
  obtain ⟨a, ha, hviolated, hruns⟩ := drawn_stays_feasible hproper 3 (by decide : 1 ≤ 2) 0
  obtain ⟨report, c', hrun, hfeasible⟩ := hruns .standard rfl htol
  exact ⟨a, report, c', ha, hviolated 0 (by decide), hrun, hfeasible⟩

end MilpRounding
