import MilpRounding.Proofs.RationalScene

namespace MilpRounding

open Scalar LawfulScalar Rounding

structure Shape where
  weights : List ℚ
  relation : Relation

def Row.shape (r : Row Exact) : Shape := ⟨r.weights, r.relation⟩

namespace Shape

/-- The weight of a column in a row that is turned for a run. -/
def load (σ : Shape) (j : Nat) : ℚ :=
  if σ.relation.isAbove then -σ.weights.getD j 0 else σ.weights.getD j 0

/-- Some rows resist a column in a direction, and none of these is an equation. -/
def Loose (shapes : List Shape) (j : Nat) (d : Direction) : Prop :=
  (∃ σ ∈ shapes, d.Resisted (σ.load j)) ∧
    ∀ σ ∈ shapes, d.Resisted (σ.load j) → σ.relation ≠ .eq

instance (shapes : List Shape) (j : Nat) (d : Direction) : Decidable (Loose shapes j d) :=
  inferInstanceAs (Decidable (_ ∧ _))

theorem abs_load (σ : Shape) (j : Nat) : |σ.load j| = |σ.weights.getD j 0| := by
  rw [load]
  split
  · exact abs_neg _
  · rfl

end Shape

structure Scene.Shaped (c : Scene Exact) (count : Nat) (shapes : List Shape) : Prop
    extends Scene.Rational c where
  columns_count : c.model.columns.map List.length = some count
  rows_shape : c.model.rows.map (List.map Row.shape) = some shapes

theorem Scene.Shaped.reported {c c' : Scene Exact} {n : Nat} {shapes : List Shape}
    (hc : c.Shaped n shapes) {options : Options Exact} {idx : List Int} {report : Report Exact}
    (h : (run options (some idx)).run c = .ok report c') :
    c' = outcome options (some idx) c ∧
      ∃ columns rows, Reported options idx c columns rows ∧ rows.map Row.shape = shapes := by
  obtain ⟨hout, idx', columns, rows, hidx, hrun⟩ := MilpRounding.reported hc.toRational h
  obtain rfl := Option.some.inj hidx
  exact ⟨hout, columns, rows, hrun, by simpa [hrun.rows_eq] using hc.rows_shape⟩

theorem Direction.Leads.ne {d : Direction} {p q : ℚ} (h : d.Leads p q) : q ≠ p := by
  cases d with
  | up => exact ne_of_gt h
  | down => exact ne_of_lt h

theorem Direction.exists_resisted {w : ℚ} (h : w ≠ 0) : ∃ d : Direction, d.Resisted w := by
  rcases lt_or_gt_of_ne h with h | h
  · exact ⟨.down, h⟩
  · exact ⟨.up, h⟩

theorem weight_toward {r : Row Exact} (h : r.Rational) (j : Nat) :
    Tableau.weight (r.toward .le) j = r.shape.load j := by
  rw [Row.toward, Shape.load, Row.shape, Tableau.weight]
  rw [Relation.opposes_le]
  split
  next =>
    rw [Row.weights_negated h, List.getD_eq_getElem?_getD, List.getElem?_map,
      List.getD_eq_getElem?_getD]
    cases r.weights[j]? <;> simp
  next => rfl

/-- A move of a column needs resistance, but not that of an equation. -/
theorem Tableau.choice_loose {y : Tableau Exact} {rows : List (Row Exact)}
    (hy : y.rows = rows.map (Row.toward .le)) (hrows : ∀ r ∈ rows, r.Rational)
    {s : Store Exact} (hs : s.Sound) {j : Nat} {t : Exact} (h : y.choice s j = some t) {q : ℚ}
    (hq : (y.variableAt s j).value = .finite q) :
    ∃ d τ, t = .finite τ ∧ τ ≠ q ∧ Shape.Loose (rows.map Row.shape) j d := by
  have hrational : ∀ r ∈ y.rows, r.Rational := by
    rw [hy]
    intro r hr
    obtain ⟨r, hmem, rfl⟩ := List.mem_map.mp hr
    exact (hrows r hmem).toward .le
  obtain ⟨d, τ, rfl, hleads, hsome, hroom⟩ := choice_spec hs hrational h hq
  rw [hy] at hsome hroom
  refine ⟨d, τ, rfl, hleads.ne, ?_, ?_⟩
  · obtain ⟨r, hr, hres⟩ := hsome
    obtain ⟨r, hmem, rfl⟩ := List.mem_map.mp hr
    exact ⟨r.shape, List.mem_map_of_mem hmem, by rwa [weight_toward (hrows r hmem)] at hres⟩
  · intro σ hσ hres he
    obtain ⟨r, hmem, rfl⟩ := List.mem_map.mp hσ
    have hnone := hroom (r.toward .le) (List.mem_map_of_mem hmem)
    have heq : r.relation = .eq := he
    rw [weight_toward (hrows r hmem), Row.room_toward (hrows r hmem), Row.room, if_pos heq] at hnone
    have hpos := mul_pos (abs_pos.mpr hres.ne_zero) (abs_pos.mpr (sub_ne_zero.mpr hleads.ne))
    exact absurd (hnone hres) (not_le.mpr hpos)

theorem Reported.form_passage {options : Options Exact} {idx : List Int} {c : Scene Exact}
    {columns : List Ref} {rows : List (Row Exact)} (h : Reported options idx c columns rows)
    {a : List ℚ}
    (ha : ∀ j : Nat, (j : Int) ∈ idx → a.getD j 0 ≠ 0 → ∀ d,
      ¬ Shape.Loose (rows.map Row.shape) j d) :
    form a (point columns (passage options (some idx) c).store) =
      form a (point columns c.store) := by
  have hstep : ∀ s, ∀ j ∈ listed (some idx),
      (s.Sound ∧ form a (point columns s) = form a (point columns c.store)) →
      ((tableau options c.model).next s j).1.Sound ∧
        form a (point columns ((tableau options c.model).next s j).1) =
          form a (point columns c.store) := by
    rintro s j hj ⟨hs, hform⟩
    refine ⟨Tableau.next_sound hs _ j, ?_⟩
    cases hc : (tableau options c.model).choice s j with
    | none => rwa [Tableau.next, hc]
    | some t =>
        obtain ⟨q, hq⟩ := ((tableau options c.model).variableAt_sound hs j).finite
        obtain ⟨d, τ, rfl, -, hloose⟩ := Tableau.choice_loose
          (by rw [h.tableau_eq]) h.rational hs hc hq
        have hzero : a.getD j 0 = 0 := by
          obtain ⟨i, hi, rfl⟩ := List.mem_map.mp hj
          by_contra hne
          refine ha i.toNat ?_ hne d hloose
          rwa [Int.toNat_of_nonneg (h.range i hi).1]
        have hlt := h.listed_lt j hj
        rw [← h.point_eq, Tableau.point_next h.prepared hs hlt hc,
          form_set _ (by simpa [Tableau.point] using hlt), hzero, zero_mul, add_zero, h.point_eq]
        exact hform
  exact (Tableau.course_invariant hstep options.stopOnStall options.maxSweeps.1
    (List.Subset.refl _) ⟨h.sound, rfl⟩).2.2

end MilpRounding
