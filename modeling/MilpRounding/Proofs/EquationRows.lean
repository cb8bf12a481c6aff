import MilpRounding.Proofs.TrialScene

namespace MilpRounding

open Scalar LawfulScalar Rounding

def Model.Balanced {α : Type} [Scalar α] (m : Model α) (s : Store α) (k : Nat) : Prop :=
  ∃ y r, m.requireTableau = .ok y ∧ y.rows[k]? = some r ∧ r.relation = .eq ∧
    r.left (y.values s) = r.rhs

theorem Model.balanced_iff {m : Model Exact} {columns : List Ref} {rows : List (Row Exact)}
    (hc : m.columns = some columns) (hr : m.rows = some rows) {k : Nat} {r : Row Exact}
    (hk : rows[k]? = some r) (he : r.relation = .eq) (hrational : r.Rational) {s : Store Exact}
    {x : List ℚ} (hx : valuesAt columns s = x.map .finite) :
    m.Balanced s k ↔ form r.weights x = r.rhs.toRat := by
  have hy := requireTableau_eq hc hr
  have hleft : r.left (valuesAt columns s) = .finite (form r.weights x) := by
    rw [hx, hrational.left_eq]
  constructor
  · rintro ⟨y, r', hy', hk', -, h⟩
    obtain rfl : _ = y := Except.ok.inj (hy.symm.trans hy')
    obtain rfl : r = r' := Option.some.inj (hk.symm.trans hk')
    have hboth := hleft.symm.trans h
    rw [Exact.eq_finite hrational.rhs] at hboth
    exact Exact.finite.inj hboth
  · intro h
    refine ⟨_, r, hy, hk, he, hleft.trans ?_⟩
    rw [h, ← Exact.eq_finite hrational.rhs]

theorem toward_of_eq {r : Row Exact} (h : r.relation = .eq) : r.toward .le = r :=
  Row.toward_of_not_isAbove (by rw [h]; rfl)

namespace Reported

variable {options : Options Exact} {idx : List Int} {c : Scene Exact} {columns : List Ref}
  {rows : List (Row Exact)} {k : Nat} {r : Row Exact}

theorem balanced_start (h : Reported options idx c columns rows) (hk : rows[k]? = some r)
    (he : r.relation = .eq) :
    c.model.Balanced c.store k ↔ form r.weights (point columns c.store) = r.rhs.toRat :=
  Model.balanced_iff h.columns_eq h.rows_eq hk he (h.rational r (List.mem_of_getElem? hk))
    (valuesAt_eq h.sound columns)

theorem balanced_end (h : Reported options idx c columns rows) (hk : rows[k]? = some r)
    (he : r.relation = .eq) :
    (outcome options (some idx) c).model.Balanced (outcome options (some idx) c).store k ↔
      form r.weights (point columns (passage options (some idx) c).store) = r.rhs.toRat := by
  have hk' : (rows.map (Row.toward .le))[k]? = some r := by
    rw [List.getElem?_map, hk, Option.map_some, toward_of_eq he]
  refine Model.balanced_iff (m := orientedModel options c.model) h.columns_eq h.rows_oriented hk' he
    (h.rational r (List.mem_of_getElem? hk)) ?_
  rw [valuesAt_outcome, valuesAt_eq h.passage_sound]

end Reported

section Trial

variable {n j k : Nat} {shapes : List Shape} {σ : Shape} {d : Direction} {idx : List Int}

theorem rhs_trialRow (he : σ.relation = .eq) (j : Nat) :
    (trialRow j σ).rhs.toRat = σ.weights.getD j 0 * (1 / 2) := by
  simp only [trialRow, if_pos he, Exact.toRat]
  ring

theorem balanced_trial (hj : j < n) (hrange : ∀ i ∈ idx, 0 ≤ i ∧ i < n)
    (hk : shapes[k]? = some σ) (he : σ.relation = .eq) (d : Direction) :
    (trial n shapes j d).model.Balanced (trial n shapes j d).store k := by
  rw [(trial_reported hj hrange shapes d).balanced_start (getElem?_trialRow hk j) he,
    point_trial hj, left_trialRow hj, rhs_trialRow he]

theorem not_balanced_outcome_trial (hj : j < n) (h : Shape.Loose shapes j d)
    (hrange : ∀ i ∈ idx, 0 ≤ i ∧ i < n) (hmem : (j : Int) ∈ idx) (hk : shapes[k]? = some σ)
    (he : σ.relation = .eq) (hw : σ.weights.getD j 0 ≠ 0) :
    ¬ (outcome .standard (some idx) (trial n shapes j d)).model.Balanced
      (outcome .standard (some idx) (trial n shapes j d)).store k := by
  rw [(trial_reported hj hrange shapes d).balanced_end (getElem?_trialRow hk j) he,
    point_passage_trial hj h hrange hmem, left_trialRow hj, rhs_trialRow he]
  intro hgoal
  have hat := mul_left_cancel₀ hw hgoal
  cases d <;> norm_num [Direction.goal] at hat

end Trial

/-- An equation survives all runs about some columns, whatever the values and the right-hand sides
are, if and only if none of these columns that it weighs is loose. -/
theorem equation_kept_iff {n : Nat} {shapes : List Shape} {k : Nat} {σ : Shape}
    (hk : shapes[k]? = some σ) (he : σ.relation = .eq) {idx : List Int}
    (hrange : ∀ j ∈ idx, 0 ≤ j ∧ j < n) :
    (∀ c : Scene Exact, c.Shaped n shapes → ∀ options report c',
      (run options (some idx)).run c = .ok report c' →
      c.model.Balanced c.store k → c'.model.Balanced c'.store k) ↔
    ∀ j : Nat, (j : Int) ∈ idx → σ.weights.getD j 0 ≠ 0 → ∀ d, ¬ Shape.Loose shapes j d := by
  constructor
  · intro hkept j hj hw d hloose
    have hlt : j < n := by
      have := (hrange j hj).2
      omega
    have hrun := run_of_ready (trial_shaped hlt shapes d).sound (obstacle_trial hrange)
    exact not_balanced_outcome_trial hlt hloose hrange hj hk he hw
      (hkept _ (trial_shaped hlt shapes d) .standard _ _ hrun (balanced_trial hlt hrange hk he d))
  · intro hfixed c hc options report c' hrun hstart
    obtain ⟨rfl, columns, rows, h, rfl⟩ := hc.reported hrun
    obtain ⟨r, hr, rfl⟩ : ∃ r, rows[k]? = some r ∧ r.shape = σ := by simpa using hk
    rw [h.balanced_start hr he] at hstart
    rw [h.balanced_end hr he]
    exact (h.form_passage hfixed).trans hstart

def level : Scene Exact where
  store := ⟨#[⟨.continuous, .finite (3 / 2), .finite 0, .finite 10⟩,
    ⟨.continuous, .finite (5 / 2), .finite 0, .finite 10⟩]⟩
  model := { columns := some [0, 1], rows := some [⟨[.finite 1, .finite 1], .eq, .finite 4⟩] }

theorem level_shaped : level.Shaped 2 [⟨[1, 1], .eq⟩] where
  sound := Store.sound_of_cells <| by
    intro v hv
    obtain rfl | rfl := List.mem_pair.mp (Array.mem_def.mp hv) <;>
      exact Variable.continuous_sound rfl rfl (by norm_num) (by norm_num)
  distinct := by decide
  rows := by decide
  columns_count := rfl
  rows_shape := rfl

theorem equation_kept_level :
    ∃ report c', (run .standard (some [0, 1])).run level = .ok report c' ∧
      c'.model.Balanced c'.store 0 := by
  have hrun : (run .standard (some [0, 1])).run level = _ :=
    run_of_ready level_shaped.sound (by decide)
  have hsum : (0 + 1 * (3 / 2) + 1 * (5 / 2) : ℚ) = 4 := by norm_num
  have hstart : level.model.Balanced level.store 0 :=
    ⟨_, _, rfl, rfl, rfl, congrArg Exact.finite hsum⟩
  refine ⟨_, _, hrun, (equation_kept_iff rfl rfl (by decide)).mpr (fun j hj _ d => ?_) level
    level_shaped .standard _ _ hrun hstart⟩
  rcases (show j = 0 ∨ j = 1 by simpa using hj) with rfl | rfl <;> cases d <;> decide

def held : Scene Exact where
  store := ⟨#[⟨.continuous, .finite (1 / 2), .finite 0, .finite 10⟩]⟩
  model :=
    { columns := some [0]
      rows := some [⟨[.finite 1], .eq, .finite (1 / 2)⟩, ⟨[.finite (-1)], .le, 0⟩] }

theorem held_reported : Reported .standard [0] held [0]
    [⟨[.finite 1], .eq, .finite (1 / 2)⟩, ⟨[.finite (-1)], .le, 0⟩] where
  columns_eq := rfl
  rows_eq := rfl
  range := by decide
  rational := by decide
  distinct := by decide
  sound := Store.sound_of_cells <| by
    intro v hv
    obtain rfl := List.mem_singleton.mp (Array.mem_def.mp hv)
    exact Variable.continuous_sound rfl rfl (by norm_num) (by norm_num)
  oriented := rfl

theorem equation_broken :
    held.Rational ∧ held.model.Balanced held.store 0 ∧
      ∃ report c', (run .standard (some [0])).run held = .ok report c' ∧
        ¬ c'.model.Balanced c'.store 0 := by
  have h := held_reported
  refine ⟨⟨h.sound, h.distinct, h.rational⟩, ?_, _, _,
    run_of_ready h.sound (by decide), ?_⟩
  · exact (h.balanced_start rfl rfl).mpr (by decide +kernel)
  · rw [h.balanced_end rfl rfl]
    decide +kernel

end MilpRounding
