import MilpRounding.Proofs.TrialScene

namespace MilpRounding

open Scalar LawfulScalar Rounding

namespace Row

variable {r : Row Exact}

/-- A row that leaves something, or at least nothing if it is not strict, is not violated, whatever is
tolerated. -/
theorem Rational.isViolated_eq_false (hr : r.Rational) (hne : r.relation ≠ .eq) {tol : Exact}
    (ht : 0 ≤ tol) {x : List ℚ} (h : 0 ≤ r.room x)
    (hstrict : r.relation.isStrict = true → 0 < r.room x) :
    r.isViolated tol (x.map .finite) = false := by
  have hlt : ¬ Exact.finite (r.room x) < -tol := by
    cases tol with
    | finite q =>
        simp at ht ⊢
        linarith
    | posInf => exact fun h => by cases h
    | undefined | negInf => cases ht
  rw [isViolated, if_neg hne, hr.slack_eq]
  cases hs : r.relation.isStrict with
  | true => simp [hstrict hs, hlt]
  | false => simp [hlt]

theorem Rational.not_isViolated (hr : r.Rational) (hne : r.relation ≠ .eq) {tol : Exact}
    (ht : 0 ≤ tol) {x : List ℚ} (h : 0 < r.room x) : r.isViolated tol (x.map .finite) = false :=
  hr.isViolated_eq_false hne ht h.le fun _ => h

end Row

theorem not_mem_violatedRows {rows : List (Row Exact)} {k : Nat} {r : Row Exact}
    (hk : rows[k]? = some r) {tol : Exact} {x : List Exact} (h : r.isViolated tol x = false) :
    k ∉ violatedRows tol rows x := by
  intro hmem
  have hany := (List.mem_filter.mp hmem).2
  rw [hk, Option.any_some, h] at hany
  cases hany

theorem violatedRows_eq_nil {rows : List (Row Exact)} {tol : Exact} {x : List Exact}
    (h : ∀ r ∈ rows, r.isViolated tol x = false) : violatedRows tol rows x = [] := by
  refine List.filter_eq_nil_iff.mpr fun k hk => ?_
  have hlt : k < rows.length := by simpa using hk
  simp [hlt, h]

theorem Model.violated_eq {m : Model Exact} {columns : List Ref} {rows : List (Row Exact)}
    (hc : m.columns = some columns) (hr : m.rows = some rows) (tol : Exact) (s : Store Exact) :
    m.violated tol s = .ok (violatedRows tol rows (valuesAt columns s)) := by
  rw [violated, requireTableau_eq hc hr]
  rfl

theorem isFeasible_trial {n j : Nat} (hj : j < n) {shapes : List Shape}
    (h : ∀ σ ∈ shapes, σ.relation ≠ .eq) (d : Direction) :
    (trial n shapes j d).model.isFeasible 0 (trial n shapes j d).store = .ok true := by
  have hsound := (trial_shaped hj shapes d).sound
  rw [Model.isFeasible, Model.violated_eq rfl rfl, valuesAt_eq hsound, violatedRows_eq_nil]
  · rfl
  · intro r hr
    obtain ⟨σ, hσ, rfl⟩ := List.mem_map.mp hr
    refine (trialRow_rational j σ).not_isViolated (h σ hσ) (by simp) ?_
    rw [room_trial hj (h σ hσ)]
    exact spare_pos _

theorem spare_used {σ : Shape} {j : Nat} {d : Direction} (hd : d.Resisted (σ.load j)) :
    spare (σ.weights.getD j 0) - σ.load j * (d.goal - 1 / 2) = 0 := by
  have hne : σ.weights.getD j 0 ≠ 0 := by
    rw [← abs_ne_zero, ← Shape.abs_load]
    exact abs_ne_zero.mpr hd.ne_zero
  rw [spare_of_ne_zero hne, ← Shape.abs_load]
  cases d with
  | up =>
      rw [abs_of_pos hd, Direction.goal]
      ring
  | down =>
      rw [abs_of_neg hd, Direction.goal]
      ring

section Trial

variable {n j k : Nat} {shapes : List Shape} {σ : Shape} {d : Direction} {idx : List Int}

theorem slack_trial (hj : j < n) (hk : shapes[k]? = some σ) (hσ : σ.relation ≠ .eq)
    (d : Direction) : (trial n shapes j d).model.slack (trial n shapes j d).store k =
      .ok (.finite (spare (σ.weights.getD j 0))) := by
  have hrows := (trial_shaped hj shapes d).rows
  have hslack := Model.slack_eq (m := (trial n shapes j d).model) rfl rfl hrows
    (trial_shaped hj shapes d).sound (pick_natCast (getElem?_trialRow hk j))
  rwa [room_trial hj hσ] at hslack

theorem slack_outcome_trial (hj : j < n) (h : Shape.Loose shapes j d)
    (hrange : ∀ i ∈ idx, 0 ≤ i ∧ i < n) (hmem : (j : Int) ∈ idx) (hk : shapes[k]? = some σ)
    (hσ : σ.relation ≠ .eq) (hd : d.Resisted (σ.load j)) :
    (outcome .standard (some idx) (trial n shapes j d)).model.slack
      (outcome .standard (some idx) (trial n shapes j d)).store k = .ok (.finite 0) := by
  have hend := (trial_reported hj hrange shapes d).slack_end (pick_natCast (getElem?_trialRow hk j))
  rwa [point_passage_trial hj h hrange hmem, room_trialRow hj hσ, spare_used hd] at hend

end Trial

namespace Reported

variable {options : Options Exact} {idx : List Int} {c : Scene Exact} {columns : List Ref}
  {rows : List (Row Exact)}

theorem room_passage (h : Reported options idx c columns rows) {r : Row Exact}
    (hfree : ∀ j : Nat, (j : Int) ∈ idx → r.weights.getD j 0 = 0) :
    r.room (point columns (passage options (some idx) c).store) =
      r.room (point columns c.store) :=
  Row.room_congr (h.form_passage fun j hj hw => absurd (hfree j hj) hw)

theorem violated_end (h : Reported options idx c columns rows) (tol : Exact) :
    (outcome options (some idx) c).model.violated tol (outcome options (some idx) c).store =
      .ok (violatedRows tol (rows.map (Row.toward .le))
        ((point columns (passage options (some idx) c).store).map .finite)) := by
  rw [← valuesAt_eq h.passage_sound, ← valuesAt_outcome]
  exact Model.violated_eq (m := orientedModel options c.model) h.columns_eq h.rows_oriented tol _

end Reported

/-- A row keeps a positive slack, which a strict row needs, in all runs about some columns that
start feasible and without equations, whatever the values and the right-hand sides are, if and only
if it weighs none of these columns. -/
theorem positive_slack_kept_iff {n : Nat} {shapes : List Shape}
    (hshapes : ∀ σ ∈ shapes, σ.relation ≠ .eq) {k : Nat} {σ : Shape} (hk : shapes[k]? = some σ)
    {idx : List Int} (hrange : ∀ j ∈ idx, 0 ≤ j ∧ j < n) :
    (∀ c : Scene Exact, c.Shaped n shapes → ∀ tol, 0 ≤ tol →
      c.model.isFeasible tol c.store = .ok true → ∀ options report c',
      (run options (some idx)).run c = .ok report c' →
      ∀ a, c.model.slack c.store k = .ok a → 0 < a →
      (∃ b, c'.model.slack c'.store k = .ok b ∧ 0 < b) ∧
        ∃ v, c'.model.violated tol c'.store = .ok v ∧ k ∉ v) ↔
    ∀ j : Nat, (j : Int) ∈ idx → σ.weights.getD j 0 = 0 := by
  have hσ : σ ∈ shapes := List.mem_of_getElem? hk
  constructor
  -- otherwise there is a scene in which the column takes all that the row has left
  · intro hkept j hj
    by_contra hw
    have hlt : j < n := by
      have := (hrange j hj).2
      omega
    have hload : σ.load j ≠ 0 := by rwa [← abs_ne_zero, Shape.abs_load, abs_ne_zero]
    obtain ⟨d, hd⟩ := Direction.exists_resisted hload
    have hloose : Shape.Loose shapes j d := ⟨⟨σ, hσ, hd⟩, fun σ h _ => hshapes σ h⟩
    have hpos : (0 : Exact) < .finite (spare (σ.weights.getD j 0)) := by
      rw [Exact.zero_eq, Exact.finite_lt_finite]
      exact spare_pos _
    obtain ⟨⟨b, hb, hb₀⟩, -⟩ := hkept _ (trial_shaped hlt shapes d) 0 (by simp)
      (isFeasible_trial hlt hshapes d) .standard _ _
      (run_of_ready (trial_shaped hlt shapes d).sound (obstacle_trial hrange)) _
      (slack_trial hlt hk (hshapes σ hσ) d) hpos
    rw [slack_outcome_trial hlt hloose hrange hj hk (hshapes σ hσ) hd] at hb
    obtain rfl : _ = b := Except.ok.inj hb
    exact Exact.lt_irrefl _ hb₀
  · intro hfree c hc tol ht _ options report c' hrun a ha ha₀
    obtain ⟨rfl, columns, rows, h, rfl⟩ := hc.reported hrun
    obtain ⟨r, hr, rfl⟩ : ∃ r, rows[k]? = some r ∧ r.shape = σ := by simpa using hk
    have hrational := h.rational r (List.mem_of_getElem? hr)
    rw [h.slack_start (pick_natCast hr)] at ha
    obtain rfl : _ = a := Except.ok.inj ha
    have hroom := h.room_passage hfree
    have hturned : (rows.map (Row.toward .le))[k]? = some (r.toward .le) := by
      rw [List.getElem?_map, hr, Option.map_some]
    refine ⟨⟨_, h.slack_end (pick_natCast hr), by rwa [hroom]⟩, _, h.violated_end tol,
      not_mem_violatedRows hturned ?_⟩
    refine (hrational.toward .le).not_isViolated (Row.relation_toward_ne (hshapes _ hσ) .le) ht ?_
    rw [Row.room_toward hrational, hroom]
    simpa using ha₀

def beside : Scene Exact where
  store := ⟨#[⟨.continuous, .finite (1 / 2), .finite 0, .finite 10⟩,
    ⟨.continuous, .finite (1 / 2), .finite 0, .finite 10⟩]⟩
  model :=
    { columns := some [0, 1]
      rows := some [⟨[.finite 1, .finite 0], .gt, .finite 0⟩,
        ⟨[.finite 1, .finite 1], .le, .finite 2⟩] }

theorem beside_shaped : beside.Shaped 2 [⟨[1, 0], .gt⟩, ⟨[1, 1], .le⟩] where
  sound := Store.sound_of_cells <| by
    intro v hv
    obtain rfl | rfl := List.mem_pair.mp (Array.mem_def.mp hv) <;>
      exact Variable.continuous_sound rfl rfl (by norm_num) (by norm_num)
  distinct := by decide
  rows := by decide
  columns_count := rfl
  rows_shape := rfl

theorem positive_slack_kept_beside :
    ∃ report c', (run .standard (some [1])).run beside = .ok report c' ∧
      (∃ b, c'.model.slack c'.store (0 : Nat) = .ok b ∧ 0 < b) ∧
      ∃ v, c'.model.violated 0 c'.store = .ok v ∧ 0 ∉ v := by
  have hrun : (run .standard (some [1])).run beside = _ :=
    run_of_ready beside_shaped.sound (by decide)
  have hfeasible : beside.model.isFeasible 0 beside.store = .ok true := by
    rw [Model.isFeasible, Model.violated_eq rfl rfl]
    exact congrArg Except.ok (show _ = true by decide +kernel)
  have hslack := Model.slack_eq (m := beside.model) (s := beside.store) (i := (0 : Nat)) rfl rfl
    beside_shaped.rows beside_shaped.sound rfl
  refine ⟨_, _, hrun, (positive_slack_kept_iff (by decide) rfl (by decide)).mpr (fun j hj => ?_)
    beside beside_shaped 0 (by simp) hfeasible .standard _ _ hrun _ hslack (by decide +kernel)⟩
  obtain rfl : j = 1 := by simpa using hj
  rfl

def bounded : Scene Exact where
  store := ⟨#[⟨.continuous, .finite (1 / 2), .finite 0, .finite 10⟩]⟩
  model := { columns := some [0], rows := some [⟨[.finite 1], .lt, .finite 1⟩] }

theorem bounded_reported :
    Reported .standard [0] bounded [0] [⟨[.finite 1], .lt, .finite 1⟩] where
  columns_eq := rfl
  rows_eq := rfl
  range := by decide
  rational := by decide
  distinct := by decide
  sound := Store.sound_of_cells <| by
    intro v hv
    obtain rfl := List.mem_singleton.mp (Array.mem_def.mp hv)
    exact Variable.continuous_sound rfl rfl (by norm_num) (by norm_num)
  oriented := rfl

theorem strict_broken :
    bounded.Rational ∧ bounded.model.isFeasible 0 bounded.store = .ok true ∧
      (∃ a, bounded.model.slack bounded.store 0 = .ok a ∧ 0 < a) ∧
      ∃ report c', (run .standard (some [0])).run bounded = .ok report c' ∧
        c'.model.slack c'.store 0 = .ok 0 ∧ c'.model.violated 0 c'.store = .ok [0] := by
  have h := bounded_reported
  refine ⟨⟨h.sound, h.distinct, h.rational⟩, ?_, ?_, _, _,
    run_of_ready h.sound (by decide), ?_, ?_⟩
  · rw [Model.isFeasible, Model.violated_eq h.columns_eq h.rows_eq]
    exact congrArg Except.ok (show _ = true by decide +kernel)
  · exact ⟨_, h.slack_start rfl, by decide +kernel⟩
  · rw [h.slack_end rfl]
    exact congrArg (fun q => Except.ok (Exact.finite q)) (show _ = (0 : ℚ) by decide +kernel)
  · rw [h.violated_end]
    exact congrArg Except.ok (show _ = [0] by decide +kernel)

end MilpRounding
