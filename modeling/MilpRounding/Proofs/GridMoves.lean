import Mathlib.Algebra.Group.Subgroup.ZPowers.Basic
import Mathlib.Data.List.GetD
import MilpRounding.Proofs.LooseColumns

namespace MilpRounding

open Scalar LawfulScalar

variable {d : ℕ}

def grid (d : ℕ) : AddSubgroup ℚ := AddSubgroup.zmultiples (1 / d : ℚ)

theorem mem_grid {q : ℚ} : q ∈ grid d ↔ ∃ z : ℤ, q = z / d := by
  rw [grid, AddSubgroup.mem_zmultiples_iff]
  refine exists_congr fun z => ?_
  rw [zsmul_eq_mul, mul_one_div, eq_comm]

theorem intCast_mem_grid (hd : 1 ≤ d) (n : ℤ) : (n : ℚ) ∈ grid d := by
  have hpos : (d : ℚ) ≠ 0 := by positivity
  refine mem_grid.mpr ⟨n * d, ?_⟩
  rw [Int.cast_mul, Int.cast_natCast, mul_div_cancel_right₀ _ hpos]

namespace Exact

/-- The number lies on the grid, or is not finite. -/
def OnGrid (d : ℕ) (a : Exact) : Prop := ∀ q, a = .finite q → q ∈ grid d

variable {a b : Exact}

theorem OnGrid.add (ha : a.OnGrid d) (hb : b.OnGrid d) : (a + b).OnGrid d := by
  intro q hq
  cases a with
  | finite p =>
      cases b with
      | finite r =>
          obtain rfl := Exact.finite.inj hq
          exact add_mem (ha p rfl) (hb r rfl)
      | undefined | negInf | posInf => cases hq
  | undefined | negInf | posInf => cases b <;> cases hq

theorem OnGrid.neg (ha : a.OnGrid d) : (-a).OnGrid d := by
  intro q hq
  cases a with
  | finite p =>
      obtain rfl := Exact.finite.inj hq
      exact neg_mem (ha p rfl)
  | undefined | negInf | posInf => cases hq

theorem OnGrid.sub (ha : a.OnGrid d) (hb : b.OnGrid d) : (a - b).OnGrid d := ha.add hb.neg

theorem OnGrid.lesser (ha : a.OnGrid d) (hb : b.OnGrid d) : (lesser a b).OnGrid d := by
  rw [Scalar.lesser]
  split
  · exact hb
  · exact ha

theorem OnGrid.greater (ha : a.OnGrid d) (hb : b.OnGrid d) : (greater a b).OnGrid d := by
  rw [Scalar.greater]
  split
  · exact hb
  · exact ha

theorem onGrid_finite {q : ℚ} (h : q ∈ grid d) : (finite q).OnGrid d := by
  rintro _ hq
  obtain rfl := Exact.finite.inj hq
  exact h

theorem onGrid_zero : (0 : Exact).OnGrid d := onGrid_finite (zero_mem _)

theorem onGrid_ofInt (hd : 1 ≤ d) (n : ℤ) : (ofInt n : Exact).OnGrid d :=
  onGrid_finite (intCast_mem_grid hd n)

theorem onGrid_above (hd : 1 ≤ d) (a : Exact) : (above a).OnGrid d := onGrid_ofInt hd _

theorem onGrid_underneath (hd : 1 ≤ d) (a : Exact) : (underneath a).OnGrid d := onGrid_ofInt hd _

theorem OnGrid.gap (hd : 1 ≤ d) (ha : a.OnGrid d) : (gap a).OnGrid d :=
  (ha.sub (onGrid_underneath hd a)).lesser ((onGrid_above hd a).sub ha)

end Exact

open Exact

structure Variable.OnGrid (d : ℕ) (v : Variable Exact) : Prop where
  value : v.value.OnGrid d
  low : v.low.OnGrid d
  high : v.high.OnGrid d

theorem Variable.OnGrid.target (hd : 1 ≤ d) {v : Variable Exact} (hv : v.OnGrid d) {step : Exact}
    (hstep : step.OnGrid d) (way : Direction) : (v.target step way).OnGrid d := by
  cases way with
  | up =>
      rw [Variable.target]
      split
      · exact onGrid_above hd _
      · exact (hv.value.add hstep).lesser hv.high
  | down =>
      rw [Variable.target]
      split
      · exact onGrid_underneath hd _
      · exact (hv.value.sub hstep).greater hv.low

namespace Row

/-- All coefficients are zero or units, and the right side is on the grid. -/
structure OnGrid (d : ℕ) (r : Row Exact) : Prop where
  coefficients : ∀ a ∈ r.coefficients, a = .finite (-1) ∨ a = .finite 0 ∨ a = .finite 1
  rhs : ∃ q ∈ grid d, r.rhs = .finite q

variable {r : Row Exact}

theorem OnGrid.rational (h : r.OnGrid d) : r.Rational := by
  constructor
  · intro a ha
    rcases h.coefficients a ha with rfl | rfl | rfl <;> rfl
  · obtain ⟨q, -, hq⟩ := h.rhs
    rw [hq]
    rfl

theorem OnGrid.negated (h : r.OnGrid d) : r.negated.OnGrid d := by
  constructor
  · intro a ha
    obtain ⟨b, hb, rfl⟩ := List.mem_map.mp ha
    rcases h.coefficients b hb with rfl | rfl | rfl
    · exact .inr (.inr (by simp))
    · exact .inr (.inl (by simp))
    · exact .inl rfl
  · obtain ⟨q, hq, hrhs⟩ := h.rhs
    exact ⟨-q, neg_mem hq, by rw [Row.negated, hrhs, neg_finite]⟩

theorem OnGrid.toward (h : r.OnGrid d) (target : Relation) : (r.toward target).OnGrid d := by
  rw [Row.toward]
  split
  · exact h.negated
  · exact h

theorem OnGrid.weights (h : r.OnGrid d) : ∀ w ∈ r.weights, w = -1 ∨ w = 0 ∨ w = 1 := by
  intro w hw
  obtain ⟨a, ha, rfl⟩ := List.mem_map.mp hw
  rcases h.coefficients a ha with rfl | rfl | rfl
  · exact .inl rfl
  · exact .inr (.inl rfl)
  · exact .inr (.inr rfl)

theorem OnGrid.abs_weight (h : r.OnGrid d) {j : Nat} (hw : Tableau.weight r j ≠ 0) :
    |Tableau.weight r j| = 1 := by
  rw [Tableau.weight] at hw ⊢
  by_cases hj : j < r.weights.length
  · rw [List.getD_eq_getElem _ _ hj] at hw ⊢
    rcases h.weights _ (List.getElem_mem hj) with hone | hzero | hone
    · rw [hone]
      norm_num
    · exact absurd hzero hw
    · rw [hone]
      norm_num
  · rw [List.getD_eq_default _ _ (Nat.le_of_not_lt hj)] at hw
    exact absurd rfl hw

end Row

theorem form_mem_grid {a x : List ℚ} (ha : ∀ w ∈ a, w = -1 ∨ w = 0 ∨ w = 1)
    (hx : ∀ q ∈ x, q ∈ grid d) : form a x ∈ grid d := by
  induction a generalizing x with
  | nil => exact zero_mem _
  | cons w a ih =>
      cases x with
      | nil => exact zero_mem _
      | cons q x =>
          have hq : q ∈ grid d := hx q List.mem_cons_self
          have hproduct : w * q ∈ grid d := by
            rcases ha w List.mem_cons_self with rfl | rfl | rfl
            · rw [neg_one_mul]
              exact neg_mem hq
            · rw [zero_mul]
              exact zero_mem _
            · rwa [one_mul]
          rw [form_cons]
          exact add_mem hproduct (ih (fun w hw => ha w (List.mem_cons_of_mem _ hw))
            fun q hq => hx q (List.mem_cons_of_mem _ hq))

theorem Row.OnGrid.room_mem {r : Row Exact} (h : r.OnGrid d) {x : List ℚ} (hx : ∀ q ∈ x, q ∈ grid d) :
    r.room x ∈ grid d := by
  have hform := form_mem_grid h.weights hx
  obtain ⟨q, hq, hrhs⟩ := h.rhs
  rw [room, hrhs, Exact.toRat]
  split
  · exact zero_mem _
  · split
    · exact sub_mem hq hform
    · exact sub_mem hform hq

def Store.OnGrid (d : ℕ) (columns : List Ref) (s : Store Exact) : Prop :=
  ∀ r ∈ columns, (s.read r).OnGrid d

def Store.ValuesOnGrid (d : ℕ) (columns : List Ref) (s : Store Exact) : Prop :=
  ∀ r ∈ columns, ∃ z : ℤ, s.value r = .finite (z / d)

theorem Store.OnGrid.values {columns : List Ref} {s : Store Exact} (hgrid : s.OnGrid d columns)
    (hs : s.Sound) : s.ValuesOnGrid d columns := by
  intro r hr
  obtain ⟨q, hq⟩ := Exact.isFinite_iff.mp (Variable.admits_iff.mp (hs r).admitted).1
  obtain ⟨z, rfl⟩ := mem_grid.mp ((hgrid r hr).value q hq)
  exact ⟨z, hq⟩

namespace Tableau

variable {y : Tableau Exact} {s : Store Exact}

theorem limit_onGrid (hs : s.Sound) (hy : ∀ r ∈ y.rows, r.OnGrid d) (hgrid : s.OnGrid d y.columns)
    (j : Nat) (way : Direction) : (y.limit s j way).OnGrid d := by
  have hpoint : ∀ q ∈ y.point s, q ∈ grid d := by
    intro q hq
    obtain ⟨r, hr, rfl⟩ := List.mem_map.mp hq
    exact (hgrid r hr).value _ (Exact.eq_finite (Variable.admits_iff.mp (hs r).admitted).1)
  obtain ⟨m, hm, -, htight⟩ := limit_spec (j := j) hs (fun r hr => (hy r hr).rational) way
  intro q hq
  obtain rfl := Exact.finite.inj (hm.symm.trans hq)
  obtain ⟨r, hr, hres, rfl⟩ | ⟨-, rfl⟩ := htight
  · rw [(hy r hr).abs_weight hres.ne_zero, div_one]
    exact (hy r hr).room_mem hpoint
  · exact zero_mem _

theorem choice_onGrid (hd : 1 ≤ d) (hs : s.Sound) (hy : ∀ r ∈ y.rows, r.OnGrid d)
    (hgrid : s.OnGrid d y.columns) {j : Nat} (hj : y.ref j ∈ y.columns) {t : Exact}
    (h : y.choice s j = some t) : t.OnGrid d := by
  have hv : (y.variableAt s j).OnGrid d := hgrid _ hj
  have hlimit := limit_onGrid hs hy hgrid j
  obtain ⟨rfl | rfl, -⟩ := choice_eq_some h
  · exact hv.target hd (onGrid_zero.greater (((hv.high.sub hv.value).lesser (hlimit .up)).lesser
      ((onGrid_above hd _).sub hv.value))) .up
  · exact hv.target hd (onGrid_zero.greater (((hv.value.sub hv.low).lesser (hlimit .down)).lesser
      (hv.value.sub (onGrid_underneath hd _)))) .down

theorem next_onGrid (hd : 1 ≤ d) (hs : s.Sound) (hy : ∀ r ∈ y.rows, r.OnGrid d)
    (hgrid : s.OnGrid d y.columns) (j : Nat) : (y.next s j).1.OnGrid d y.columns := by
  intro r hr
  rw [next]
  cases hc : y.choice s j with
  | none => exact hgrid r hr
  | some t =>
      simp only [Store.read_write]
      split
      next h =>
        have hj : y.ref j ∈ y.columns := by rwa [h.1]
        have hv : (y.variableAt s j).OnGrid d := hgrid _ hj
        exact ⟨choice_onGrid hd hs hy hgrid hj hc, hv.low, hv.high⟩
      next => exact hgrid r hr

theorem course_onGrid (hd : 1 ≤ d) (hs : s.Sound) (hy : ∀ r ∈ y.rows, r.OnGrid d)
    (hgrid : s.OnGrid d y.columns) (stopOnStall : Bool) (left : Nat) (pending : List Nat) :
    let k := y.course stopOnStall left pending s
    (∀ w ∈ k.sweeps, ∀ e ∈ w.decisions, e.after.ValuesOnGrid d y.columns) ∧
      k.store.ValuesOnGrid d y.columns := by
  have hall := course_invariant (y := y) (P := fun s => s.Sound ∧ s.OnGrid d y.columns)
    (fun s j _ h => ⟨next_sound h.1 y j, next_onGrid hd h.1 hy h.2 j⟩) stopOnStall left
    (List.Subset.refl pending) ⟨hs, hgrid⟩
  refine ⟨fun w hw e he => ?_, hall.2.2.values hall.2.1⟩
  obtain ⟨-, hsound, hgrid⟩ := hall.1 w hw e he
  exact hgrid.values hsound

end Tableau

end MilpRounding
