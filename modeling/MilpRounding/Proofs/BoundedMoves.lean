import Mathlib.Algebra.Order.BigOperators.Group.List
import Mathlib.Algebra.Order.Floor.Semiring
import MilpRounding.Proofs.FallingGaps
import MilpRounding.Proofs.GridMoves
import MilpRounding.Proofs.SeparateGroups

namespace MilpRounding

open Scalar LawfulScalar Rounding

namespace Tableau

section Measure

variable {α : Type} [Scalar α] {y : Tableau α} {columns : List Nat} {P : Store α → Prop}
  {μ : Store α → ℕ} {s : Store α}

/-- Where a property of the store holds, decisions keep it and every move lowers a quantity. -/
structure Descends (y : Tableau α) (columns : List Nat) (P : Store α → Prop) (μ : Store α → ℕ) :
    Prop where
  keeps : ∀ s, ∀ j ∈ columns, P s → P (y.next s j).1
  falls : ∀ s, ∀ j ∈ columns, P s → (y.next s j).2 = true → μ (y.next s j).1 < μ s

theorem Descends.sweepFrom (h : y.Descends columns P μ) {pending : List Nat}
    (hp : pending ⊆ columns) (hs : P s) :
    μ (y.sweepFrom pending s).store + (y.sweepFrom pending s).moves ≤ μ s := by
  induction pending generalizing s with
  | nil => exact le_rfl
  | cons j rest ih =>
      have hj : j ∈ columns := hp List.mem_cons_self
      have hrest := ih (fun i hi => hp (List.mem_cons_of_mem _ hi)) (h.keeps s j hj hs)
      rw [sweepFrom_cons_moves]
      change μ (y.sweepFrom rest (y.next s j).1).store + _ ≤ _
      split
      next hmoved =>
        have hlt := h.falls s j hj hs hmoved
        omega
      next hstays =>
        have hsame : (y.next s j).1 = s := by
          rw [next, choice_eq_none_of_next (by simpa using hstays)]
        rw [hsame] at hrest ⊢
        exact hrest

theorem Descends.course (h : y.Descends columns P μ) (stopOnStall : Bool) (left : Nat)
    {pending : List Nat} (hp : pending ⊆ columns) (hs : P s) :
    let k := y.course stopOnStall left pending s
    μ k.store + (k.sweeps.map Sweep.moves).sum ≤ μ s := by
  induction left generalizing pending s with
  | zero => exact le_rfl
  | succ left ih =>
      have hsweep := h.sweepFrom hp hs
      cases hr : (y.sweepFrom pending s).reason? stopOnStall with
      | some status =>
          rw [course_of_reason hr]
          simpa using hsweep
      | none =>
          have hrest := ih (List.Subset.trans (sweepFrom_pending_subset y pending s) hp)
            (sweepFrom_invariant h.keeps hp hs).2
          rw [course_of_no_reason hr]
          simp only [Course.after, List.singleton_append, List.map_cons, List.sum_cons] at hrest ⊢
          omega

/-- Where stalls end a course, one that is cut off has moved in every sweep. -/
theorem le_moves_of_limit {left : Nat} {pending : List Nat}
    (h : (y.course true left pending s).status = .sweepLimit) :
    left ≤ ((y.course true left pending s).sweeps.map Sweep.moves).sum := by
  induction left generalizing pending s with
  | zero => exact Nat.zero_le _
  | succ left ih =>
      cases hr : (y.sweepFrom pending s).reason? true with
      | some status =>
          rw [course_of_reason hr] at h
          exact absurd h (stopReason?_ne hr)
      | none =>
          have hmoves : (y.sweepFrom pending s).moves ≠ 0 := by
            intro hzero
            rw [Sweep.reason?, stopReason?, hzero] at hr
            split at hr <;> simp at hr
          rw [course_of_no_reason hr] at h ⊢
          have hrest := ih h
          simp only [Course.after, List.singleton_append, List.map_cons, List.sum_cons] at hrest ⊢
          omega

end Measure

end Tableau

variable {d : ℕ}

def steps (d : ℕ) (g : ℚ) : ℕ := ⌊(d : ℚ) * g⌋₊

theorem steps_mono {g h : ℚ} (hle : g ≤ h) : steps d g ≤ steps d h :=
  Nat.floor_mono (mul_le_mul_of_nonneg_left hle (Nat.cast_nonneg d))

theorem steps_lt (hd : 1 ≤ d) {g h : ℚ} (hg : g ∈ grid d) (hh : h ∈ grid d) (hlt : g < h)
    (hpos : 0 ≤ g) : steps d g < steps d h := by
  obtain ⟨z, rfl⟩ := mem_grid.mp hg
  obtain ⟨w, rfl⟩ := mem_grid.mp hh
  have hd' : (0 : ℚ) < d := by positivity
  have hzw : z < w := by exact_mod_cast (div_lt_div_iff_of_pos_right hd').mp hlt
  have hz : 0 ≤ z := by
    rw [le_div_iff₀ hd', zero_mul] at hpos
    exact_mod_cast hpos
  lift z to ℕ using hz
  lift w to ℕ using by omega
  rw [steps, steps, mul_div_cancel₀ _ hd'.ne', mul_div_cancel₀ _ hd'.ne', Int.cast_natCast,
    Int.cast_natCast, Nat.floor_natCast, Nat.floor_natCast]
  exact_mod_cast hzw

theorem steps_le {g : ℚ} (hpos : 0 ≤ g) (hle : g ≤ 1 / 2) : steps d g ≤ d / 2 := by
  have hfloor : (steps d g : ℚ) ≤ d * g := Nat.floor_le (by positivity)
  have hhalf : (d : ℚ) * g ≤ d * (1 / 2) := mul_le_mul_of_nonneg_left hle (Nat.cast_nonneg d)
  rw [Nat.le_div_iff_mul_le two_pos]
  have : (steps d g : ℚ) * 2 ≤ d := by linarith
  exact_mod_cast this

def Variable.steps (d : ℕ) (v : Variable Exact) : ℕ := MilpRounding.steps d (Scalar.gap v.value).toRat

namespace Tableau

variable {y : Tableau Exact} {columns : List Nat} {s t : Store Exact}

/-- How many steps the values of some columns are away from the integers, together. -/
def distance (d : ℕ) (y : Tableau Exact) (columns : List Nat) (s : Store Exact) : ℕ :=
  (columns.map fun j => (y.variableAt s j).steps d).sum

theorem gap_spec (hs : s.Sound) (r : Ref) :
    ∃ g, gap (s.value r) = .finite g ∧ 0 ≤ g ∧ g ≤ 1 / 2 := by
  obtain ⟨q, hq⟩ := Exact.isFinite_iff.mp (Variable.admits_iff.mp (hs r).admitted).1
  refine ⟨min (q - ⌊q⌋) (⌈q⌉ - q), by rw [Store.value, hq, gap_finite], ?_, ?_⟩
  · exact le_min (by linarith [Int.floor_le q]) (by linarith [Int.le_ceil q])
  · have hceil : (⌈q⌉ : ℚ) ≤ ⌊q⌋ + 1 := by exact_mod_cast Int.ceil_le_floor_add_one q
    have hleft := min_le_left (q - ⌊q⌋) (⌈q⌉ - q)
    have hright := min_le_right (q - ⌊q⌋) (⌈q⌉ - q)
    linarith

theorem steps_le_of_gap (hs : s.Sound) (ht : t.Sound) {r : Ref}
    (h : gap (t.value r) ≤ gap (s.value r)) : (t.read r).steps d ≤ (s.read r).steps d := by
  obtain ⟨g, hg, -, -⟩ := gap_spec hs r
  obtain ⟨g', hg', -, -⟩ := gap_spec ht r
  rw [hg, hg', Exact.finite_le_finite] at h
  rw [Store.value] at hg hg'
  rw [Variable.steps, Variable.steps, hg, hg']
  exact steps_mono h

theorem steps_lt_of_gap (hd : 1 ≤ d) (hs : s.Sound) (ht : t.Sound) {r : Ref}
    (hsg : (s.read r).OnGrid d) (htg : (t.read r).OnGrid d)
    (h : gap (t.value r) < gap (s.value r)) : (t.read r).steps d < (s.read r).steps d := by
  obtain ⟨g, hg, -, -⟩ := gap_spec hs r
  obtain ⟨g', hg', hpos, -⟩ := gap_spec ht r
  rw [hg, hg', Exact.finite_lt_finite] at h
  rw [Store.value] at hg hg'
  rw [Variable.steps, Variable.steps, hg, hg']
  exact steps_lt hd (htg.value.gap hd _ hg') (hsg.value.gap hd _ hg) h hpos

theorem descends_onGrid (hd : 1 ≤ d) (hy : ∀ r ∈ y.rows, r.OnGrid d)
    (hcolumns : ∀ j ∈ columns, y.ref j ∈ y.columns) :
    y.Descends columns (fun s => s.Sound ∧ s.OnGrid d y.columns) (y.distance d columns) := by
  have hkeeps (s : Store Exact) (j : Nat) (h : s.Sound ∧ s.OnGrid d y.columns) :
      (y.next s j).1.Sound ∧ (y.next s j).1.OnGrid d y.columns :=
    ⟨next_sound h.1 y j, next_onGrid hd h.1 hy h.2 j⟩
  refine ⟨fun s j _ h => hkeeps s j h, fun s j hj h hmoved => ?_⟩
  obtain ⟨hsound, hgrid⟩ := hkeeps s j h
  -- no column is further away than before, and the one that moves is nearer
  refine List.sum_lt_sum _ _ (fun i _ => ?_) ⟨j, hj, ?_⟩
  · exact steps_le_of_gap h.1 hsound (Store.gapsFall_next y j h.1 _)
  · exact steps_lt_of_gap hd h.1 hsound (h.2 _ (hcolumns j hj)) (hgrid _ (hcolumns j hj))
      (Store.gap_lt_of_moved h.1 hmoved)

theorem distance_le (hs : s.Sound) (y : Tableau Exact) (columns : List Nat) (d : ℕ) :
    y.distance d columns s ≤ columns.length * (d / 2) := by
  rw [distance, ← List.length_map (f := fun j => (y.variableAt s j).steps d), ← smul_eq_mul]
  refine List.sum_le_card_nsmul _ _ fun n hn => ?_
  obtain ⟨j, -, rfl⟩ := List.mem_map.mp hn
  obtain ⟨g, hg, hpos, hhalf⟩ := gap_spec hs (y.ref j)
  rw [Variable.steps, show gap (y.variableAt s j).value = .finite g from hg]
  exact steps_le hpos hhalf

end Tableau

/-- Rows of units over a grid, and variables with values and bounds on it. -/
structure Scene.OnGrid (d : ℕ) (c : Scene Exact) : Prop where
  rows : ∀ r ∈ c.model.rows.getD [], r.OnGrid d
  store : c.store.OnGrid d (c.model.columns.getD [])

theorem Scene.OnGrid.rows_oriented {c : Scene Exact} (hc : c.OnGrid d) (options : Options Exact) :
    ∀ r ∈ (tableau options c.model).rows, r.OnGrid d :=
  forall_oriented (fun _ h => h.toward .le) options hc.rows

section Run

variable {c c' : Scene Exact} {options : Options Exact} {idx : List Int} {report : Report Exact}

theorem moves_le_onGrid (hd : 1 ≤ d) (hs : c.store.Sound) (hc : c.OnGrid d)
    (hready : obstacle? options (some idx) c.model = none) :
    ((passage options (some idx) c).sweeps.map Sweep.moves).sum ≤ idx.length * (d / 2) := by
  obtain ⟨_, columns, rows, hidx, hcolumns, -, hrange, -⟩ := obstacle?_eq_none hready
  obtain rfl := Option.some.inj hidx
  have hrefs : ∀ j ∈ listed (some idx),
      (tableau options c.model).ref j ∈ (tableau options c.model).columns := by
    intro j hj
    have hlt := mem_listed hrange hj
    rw [ref_tableau hcolumns, tableau, hcolumns, Option.getD_some, List.getD_eq_getElem _ _ hlt]
    exact List.getElem_mem hlt
  have hdescends := Tableau.descends_onGrid hd (hc.rows_oriented options) hrefs
  have hcourse := hdescends.course options.stopOnStall options.maxSweeps.1
    (List.Subset.refl (listed (some idx))) ⟨hs, hc.store⟩
  have hstart := Tableau.distance_le hs (tableau options c.model) (listed (some idx)) d
  rw [listed, List.length_map] at hstart
  exact ((Nat.le_add_left _ _).trans hcourse).trans hstart

/-- On a grid of the multiples of `1 / d` a run over `n` indices makes at most `n * (d / 2)` moves and
keeps all values on the grid, at every moment. If stalls end it, one sweep more than that is enough for it
to end by itself. -/
theorem run_on_grid (hd : 1 ≤ d) (hs : c.store.Sound) (hc : c.OnGrid d)
    (h : (run options (some idx)).run c = .ok report c') :
    let bound := idx.length * (d / 2)
    let columns := c.model.columns.getD []
    report.moves ≤ bound ∧
    (∀ w ∈ (passage options (some idx) c).sweeps, ∀ e ∈ w.decisions,
      e.after.ValuesOnGrid d columns) ∧
    c'.store.ValuesOnGrid d columns ∧
    (∀ a ∈ report.values, ∃ z : ℤ, a = .finite (z / d)) ∧
    (options.stopOnStall = true → bound + 1 ≤ options.maxSweeps.1 →
      report.status ≠ .sweepLimit) := by
  intro bound columns
  obtain ⟨hready, rfl, rfl⟩ := ready_of_run hs h
  have hmoves : ((passage options (some idx) c).sweeps.map Sweep.moves).sum ≤ bound :=
    moves_le_onGrid hd hs hc hready
  obtain ⟨hduring, hend⟩ := Tableau.course_onGrid hd hs (hc.rows_oriented options) hc.store
    options.stopOnStall options.maxSweeps.1 (listed (some idx))
  refine ⟨hmoves, hduring, fun r hr => ?_, fun a ha => ?_, fun hstops hroom hlimit => ?_⟩
  · obtain ⟨z, hz⟩ := hend r hr
    exact ⟨z, (value_settled options (some idx) _ _ r).trans hz⟩
  · obtain ⟨r, hr, rfl⟩ := List.mem_map.mp ha
    exact hend r hr
  · change (passage options (some idx) c).status = .sweepLimit at hlimit
    rw [passage, hstops] at hlimit hmoves
    have hsweeps := Tableau.le_moves_of_limit hlimit
    omega

end Run

theorem sideBySide_onGrid : sideBySide.OnGrid 2 := by
  constructor
  · intro r hr
    rcases List.mem_pair.mp hr with rfl | rfl
    · exact ⟨by simp, 1, mem_grid.mpr ⟨2, by norm_num⟩, rfl⟩
    · exact ⟨by simp, 0, zero_mem _, rfl⟩
  · have hcell : Variable.OnGrid 2 ⟨.continuous, .finite (1 / 2), .finite 0, .finite 10⟩ :=
      ⟨Exact.onGrid_finite (mem_grid.mpr ⟨1, by norm_num⟩), Exact.onGrid_finite (zero_mem _),
        Exact.onGrid_finite (mem_grid.mpr ⟨20, by norm_num⟩)⟩
    intro r hr
    rcases List.mem_pair.mp hr with rfl | rfl <;> exact hcell

theorem run_on_grid_sideBySide :
    ∃ report c', (run .standard (some [0, 1])).run sideBySide = .ok report c' ∧
      report.moves ≤ 2 ∧ (∀ a ∈ report.values, ∃ z : ℤ, a = .finite (z / (2 : ℕ))) ∧
      report.status ≠ .sweepLimit := by
  have hsound := sideBySide_rational.sound
  have hrun : (run .standard (some [0, 1])).run sideBySide = _ := run_of_ready hsound (by decide)
  obtain ⟨hmoves, -, -, hvalues, hstatus⟩ :=
    run_on_grid (by decide) hsound sideBySide_onGrid hrun
  exact ⟨_, _, hrun, hmoves, hvalues, hstatus rfl (by decide)⟩

end MilpRounding
