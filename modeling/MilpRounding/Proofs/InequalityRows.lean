import MilpRounding.Proofs.RationalScene

namespace MilpRounding

open Scalar LawfulScalar Rounding

theorem Direction.Leads.mul_nonpos {d : Direction} {q τ w : ℚ} (h : d.Leads q τ)
    (hw : ¬ d.Resisted w) : w * (τ - q) ≤ 0 := by
  cases d with
  | up => exact mul_nonpos_of_nonpos_of_nonneg (not_lt.mp hw) (sub_nonneg.mpr (le_of_lt h))
  | down => exact mul_nonpos_of_nonneg_of_nonpos (not_lt.mp hw) (sub_nonpos.mpr (le_of_lt h))

namespace Tableau

variable {y : Tableau Exact} {s : Store Exact} {j : Nat}

/-- A decision takes nothing from a row that has nothing left, and leaves the others at least
nothing. -/
theorem room_next (hy : y.Prepared) (hs : s.Sound) (hj : j < y.columns.length) {r : Row Exact}
    (hr : r ∈ y.rows) : min 0 (r.room (y.point s)) ≤ r.room (y.point (y.next s j).1) := by
  cases hc : y.choice s j with
  | none =>
      rw [next, hc]
      exact min_le_right _ _
  | some t =>
      rcases hy.oriented r hr with he | hb
      · simp [Row.room, he]
      · obtain ⟨q, hq⟩ := (y.variableAt_sound hs j).finite
        obtain ⟨d, τ, rfl, hleads, -, hroom⟩ := choice_spec hs hy.rational hc hq
        rw [point_next hy hs hj hc, Row.room_set hb (by simpa [point] using hj),
          getD_point_of_value hj hq]
        change min 0 (r.room (y.point s)) ≤ r.room (y.point s) - weight r j * (τ - q)
        by_cases hres : d.Resisted (weight r j)
        · have habs := (le_abs_self _).trans_eq (abs_mul (weight r j) (τ - q))
          exact (min_le_left _ _).trans (by linarith [hroom r hr hres])
        · have hsign := hleads.mul_nonpos hres
          exact (min_le_right _ _).trans (by linarith)

theorem course_room (hy : y.Prepared) (hs : s.Sound) {columns : List Nat}
    (hcolumns : ∀ j ∈ columns, j < y.columns.length) (stopOnStall : Bool) (left : Nat)
    {r : Row Exact} (hr : r ∈ y.rows) :
    (∀ w ∈ (y.course stopOnStall left columns s).sweeps, ∀ d ∈ w.decisions,
      d.after.Sound ∧ min 0 (r.room (y.point s)) ≤ r.room (y.point d.after)) ∧
    min 0 (r.room (y.point s)) ≤ r.room (y.point (y.course stopOnStall left columns s).store) := by
  have hstep : ∀ t, ∀ j ∈ columns,
      (t.Sound ∧ min 0 (r.room (y.point s)) ≤ r.room (y.point t)) →
      (y.next t j).1.Sound ∧ min 0 (r.room (y.point s)) ≤ r.room (y.point (y.next t j).1) := by
    rintro t j hj ⟨ht, hroom⟩
    exact ⟨next_sound ht y j, (le_min (min_le_left _ _) hroom).trans
      (room_next hy ht (hcolumns j hj) hr)⟩
  obtain ⟨hall, hlast⟩ := course_invariant hstep stopOnStall left (List.Subset.refl columns)
    ⟨hs, min_le_right _ _⟩
  exact ⟨fun w hw d hd => (hall w hw d hd).2, hlast.2⟩

end Tableau

/-- After every move and at the end of a run each row leaves at least what it left at the start, or
zero if it left more. -/
theorem slack_not_pushed_below_zero {c c' : Scene Exact} (hc : c.Rational)
    {options : Options Exact} {indices : Option (List Int)} {report : Report Exact}
    (hrun : (run options indices).run c = .ok report c') {i : Int} {a : Exact}
    (ha : c.model.slack c.store i = .ok a) :
    (∀ w ∈ (passage options indices c).sweeps, ∀ d ∈ w.decisions,
      ∃ b, c'.model.slack d.after i = .ok b ∧ lesser 0 a ≤ b) ∧
    ∃ b, c'.model.slack c'.store i = .ok b ∧ lesser 0 a ≤ b := by
  obtain ⟨rfl, idx, columns, rows, rfl, h⟩ := reported hc hrun
  obtain ⟨rows', r, hrows', hpick⟩ := Model.exists_of_slack ha
  obtain rfl : rows = rows' := Option.some.inj (h.rows_eq.symm.trans hrows')
  rw [h.slack_start hpick] at ha
  obtain rfl : a = .finite (r.room (point columns c.store)) := (Except.ok.inj ha).symm
  have hcourse := Tableau.course_room h.prepared h.sound h.listed_lt options.stopOnStall
    options.maxSweeps.1 (h.toward_mem (mem_of_pick hpick))
  simp only [Row.room_toward (h.rational r (mem_of_pick hpick)), h.point_eq] at hcourse
  have hbound {p q : ℚ} (h : min 0 p ≤ q) : lesser 0 (Exact.finite p) ≤ .finite q := by
    rw [Exact.zero_eq, lesser_finite, Exact.finite_le_finite]
    exact h
  refine ⟨fun w hw d hd => ?_, _, h.slack_end hpick, hbound hcourse.2⟩
  obtain ⟨hs, hroom⟩ := hcourse.1 w hw d hd
  exact ⟨_, h.slack_during hs hpick, hbound hroom⟩

def halves : Scene Exact where
  store := ⟨#[⟨.continuous, .finite (1 / 2), .finite 0, .finite 10⟩,
    ⟨.continuous, .finite (1 / 2), -infinity, infinity⟩]⟩
  model :=
    { columns := some [0, 1]
      rows := some [⟨[.finite 1, .finite 1], .lt, .finite (3 / 2)⟩,
        ⟨[.finite (-1), .finite 2], .ge, .finite 1⟩] }

theorem halves_rational : halves.Rational where
  sound := Store.sound_of_cells <| by
    intro v hv
    obtain rfl | rfl := List.mem_pair.mp (Array.mem_def.mp hv)
    · exact Variable.continuous_sound rfl rfl (by norm_num) (by norm_num)
    · exact Variable.continuous_sound rfl rfl (fun h => nomatch h) (fun h => nomatch h)
  distinct := by decide
  rows := by decide

theorem slack_not_pushed_below_zero_halves :
    ∃ report c', (run .standard (some [0, 1])).run halves = .ok report c' ∧
      ∃ b, c'.model.slack c'.store 1 = .ok b ∧ lesser 0 (.finite (-1 / 2)) ≤ b := by
  have hrun : (run .standard (some [0, 1])).run halves = _ :=
    run_of_ready halves_rational.sound (by decide)
  have ha : halves.model.slack halves.store 1 = .ok (.finite (-1 / 2)) := by
    rw [Model.slack_eq rfl rfl halves_rational.rows halves_rational.sound rfl]
    exact congrArg (fun q => Except.ok (Exact.finite q)) (show _ = (-1 / 2 : ℚ) by decide +kernel)
  exact ⟨_, _, hrun, (slack_not_pushed_below_zero halves_rational hrun ha).2⟩

end MilpRounding
