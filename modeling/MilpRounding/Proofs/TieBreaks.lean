import MilpRounding.Proofs.InequalityRows
import MilpRounding.Proofs.MirroredSteps
import MilpRounding.Proofs.ReachableWorkspace

namespace MilpRounding

open Scalar LawfulScalar Rounding

/-- The first of two values of an objective is at least as good as the second. -/
def Sense.NoWorse : Sense → ℚ → ℚ → Prop
  | .min, p, q => p ≤ q
  | .max, p, q => q ≤ p

theorem Sense.noWorse_iff_of_add (sense : Sense) (b p q : ℚ) :
    sense.NoWorse (b + p) (b + q) ↔ sense.NoWorse p q := by
  cases sense with
  | min => exact add_le_add_iff_left b
  | max => exact add_le_add_iff_left b

/-- Nothing between two values is better by the cost than the one on the preferred side. -/
theorem Direction.noWorse_favoured (sense : Sense) (c : ℚ) {τ : Direction → ℚ} {p : ℚ}
    (hdown : τ .down ≤ p) (hup : p ≤ τ .up) :
    sense.NoWorse (c * τ (favoured (some sense) (Exact.finite c))) (c * p) := by
  cases sense with
  | min =>
      simp only [favoured, Exact.zero_eq, Exact.finite_lt_finite]
      split
      next hc => exact mul_le_mul_of_nonneg_left hdown hc.le
      next hc => exact mul_le_mul_of_nonpos_left hup (not_lt.mp hc)
  | max =>
      simp only [favoured, Exact.zero_eq, Exact.finite_lt_finite]
      split
      next hc => exact mul_le_mul_of_nonpos_left hdown hc.le
      next hc => exact mul_le_mul_of_nonneg_left hup (not_lt.mp hc)

namespace Objective

variable {o : Objective Exact}

def Rational (o : Objective Exact) : Prop := ∀ a ∈ o.coefficients, isFinite a = true

instance (o : Objective Exact) : Decidable o.Rational :=
  inferInstanceAs (Decidable (∀ a ∈ o.coefficients, isFinite a = true))

def costs (o : Objective Exact) : List ℚ := o.coefficients.map Exact.toRat

theorem Rational.coefficients_eq (h : o.Rational) : o.coefficients = o.costs.map Exact.finite :=
  (map_toRat_map_finite h).symm

end Objective

namespace Model

variable {m : Model Exact} {s : Store Exact} {o : Objective Exact}

theorem objective_of_requireTableau {y : Tableau Exact} (h : m.requireTableau = .ok y) :
    y.objective = m.objective := by
  obtain ⟨hcolumns, hrows⟩ := parts_of_requireTableau h
  rw [requireTableau_eq hcolumns hrows] at h
  exact (congrArg Tableau.objective (Except.ok.inj h)).symm

theorem objectiveValue_eq {columns : List Ref} (hc : m.columns = some columns)
    (ho : m.objective = some o) (hrational : o.Rational) (hs : s.Sound) :
    m.objectiveValue s = .ok (.finite (form o.costs (point columns s))) := by
  have hdot : dot o.coefficients (valuesAt columns s) =
      .finite (form o.costs (point columns s)) := by
    rw [hrational.coefficients_eq, valuesAt_eq hs, dot_finite]
  rw [objectiveValue, requireObjective, ho, values, requireColumns_eq hc]
  exact congrArg Except.ok hdot

end Model

namespace Tableau

variable {y : Tableau Exact} {s : Store Exact} {j : Nat}

def placed (y : Tableau Exact) (s : Store Exact) (j : Nat) (a : Exact) : Store Exact :=
  s.write (y.ref j) { y.variableAt s j with value := a }

theorem next_eq_placed {t : Exact} (h : y.choice s j = some t) :
    y.next s j = (y.placed s j t, true) := by
  rw [next, h, placed]

theorem admits_targetTo (hs : s.Sound) (y : Tableau Exact) (j : Nat) (d : Direction) :
    Variable.admits (y.variableAt s j).low (y.variableAt s j).high (y.targetTo s j d) = true := by
  cases d with
  | up => exact y.admits_targetUp hs j
  | down => exact y.admits_targetDown hs j

theorem placed_sound (hs : s.Sound) {t : Exact} (h : y.choice s j = some t) (d : Direction) :
    (y.placed s j (y.targetTo s j d)).Sound :=
  hs.write _ ⟨y.admits_targetTo hs j d, fun hk => absurd hk (kind_of_choice hs h)⟩

theorem targets_around (hs : s.Sound) (y : Tableau Exact) {q : ℚ}
    (hq : (y.variableAt s j).value = .finite q) :
    ∃ τ : Direction → ℚ, (∀ d, y.targetTo s j d = .finite (τ d)) ∧ τ .down ≤ q ∧ q ≤ τ .up := by
  have hτ (d : Direction) : y.targetTo s j d = .finite (y.targetTo s j d).toRat :=
    Exact.eq_finite (Variable.admits_iff.mp (y.admits_targetTo hs j d)).1
  obtain ⟨a, ha, hqa, -, -⟩ := targetUp_between hs y hq
  obtain ⟨b, hb, -, hbq, -⟩ := targetDown_between hs y hq
  obtain rfl := Exact.finite.inj ((hτ .up).symm.trans ha)
  obtain rfl := Exact.finite.inj ((hτ .down).symm.trans hb)
  exact ⟨_, hτ, hbq, hqa⟩

/-- On a tie the preference decides. -/
theorem choice_of_tie (hs : s.Sound) (htie : gap (y.targetUp s j) = gap (y.targetDown s j))
    (hless : gap (y.targetUp s j) < gap (y.variableAt s j).value) :
    y.choice s j = some (y.targetTo s j (y.preference j)) := by
  obtain ⟨p, hp⟩ := Exact.isFinite_iff.mp (Variable.admits_iff.mp (y.admits_targetUp hs j)).1
  have hsame : (gap (y.targetUp s j) == gap (y.targetDown s j)) = true := by
    rw [← htie, hp, gap_finite, Exact.finite_beq_finite, decide_eq_true rfl]
  have hchoose : choose (y.preference j) (gap (y.variableAt s j).value) (gap (y.targetTo s j .up))
      (gap (y.targetTo s j .down)) = some (y.preference j) :=
    if_pos (Bool.and_eq_true_iff.mpr ⟨hsame, decide_eq_true hless⟩)
  rw [choice_eq_map, hchoose, Option.map_some]

theorem preference_eq {o : Objective Exact} (ho : y.objective = some o) (hcosts : o.Rational) :
    y.preference j = .favoured (some o.sense) (Exact.finite (o.costs.getD j 0)) := by
  rw [preference, objectiveEntry, ho, Option.map_some]
  simp only
  rw [hcosts.coefficients_eq, getD_map_finite]

theorem form_placed (hn : y.columns.Nodup) (hj : j < y.columns.length) (hs : s.Sound) {t : Exact}
    (h : y.choice s j = some t) {q : ℚ} (hq : (y.variableAt s j).value = .finite q) (a : List ℚ) :
    ∃ rest, form a (y.point s) = rest + a.getD j 0 * q ∧
      ∀ u, form a (y.point (y.placed s j (.finite u))) = rest + a.getD j 0 * u := by
  refine ⟨form a (y.point s) - a.getD j 0 * q, (sub_add_cancel _ _).symm, fun u => ?_⟩
  have hpoint : y.point (y.placed s j (.finite u)) = (y.point s).set j u :=
    point_write hn hj (ref_lt_of_choice hs h) _
  rw [hpoint, form_set a (by simpa [point] using hj), getD_point_of_value hj hq]
  ring

end Tableau

open Session

/-- Where both targets of a column are as near to an integer as each other, and nearer than its value, a
decision about the column moves it, and the objective is then at least as good as it was and as it would
be at the other target. -/
theorem tie_favours_objective {w : Workspace Exact} {e : Nat} {g : Engine Exact}
    (hw : w.store.Sound) (hg : w.engines[e]? = some g) {y : Tableau Exact}
    (hy : (w.modelAt g.model).requireTableau = .ok y) (hn : y.columns.Nodup) {o : Objective Exact}
    (ho : y.objective = some o) (hcosts : o.Rational) {j : Int} {k : Nat}
    (hj : resolve? y.columns.length j = some k)
    (htie : gap (y.targetUp w.store k) = gap (y.targetDown w.store k))
    (hless : gap (y.targetUp w.store k) < gap (y.variableAt w.store k).value) :
    ∃ d before after other w', (moveColumn e j).run w = .ok true w' ∧
      w'.store = y.placed w.store k (y.targetTo w.store k d) ∧
      (w.modelAt g.model).objectiveValue w.store = .ok (.finite before) ∧
      (w'.modelAt g.model).objectiveValue w'.store = .ok (.finite after) ∧
      (w.modelAt g.model).objectiveValue (y.placed w.store k (y.targetTo w.store k d.opposite)) =
        .ok (.finite other) ∧
      o.sense.NoWorse after before ∧ o.sense.NoWorse after other := by
  obtain ⟨hcolumns, -⟩ := Model.parts_of_requireTableau hy
  have hobjective := (Model.objective_of_requireTableau hy).symm.trans ho
  have hchoice := Tableau.choice_of_tie hw htie hless
  obtain ⟨q, hq⟩ : ∃ q, (y.variableAt w.store k).value = .finite q := (y.variableAt_sound hw k).finite
  obtain ⟨τ, hτ, hdown, hup⟩ := y.targets_around hw hq
  obtain ⟨rest, hnow, hplaced⟩ :=
    Tableau.form_placed hn (lt_of_resolve? hj) hw hchoice hq o.costs
  have hmoved := moveColumn_run hw hg hy hj
  rw [Tableau.next_eq_placed hchoice] at hmoved
  have hbefore : (w.modelAt g.model).objectiveValue w.store =
      .ok (.finite (rest + o.costs.getD k 0 * q)) := by
    rw [Model.objectiveValue_eq hcolumns hobjective hcosts hw, ← hnow, Tableau.point]
  have hafter (d : Direction) : (w.modelAt g.model).objectiveValue
      (y.placed w.store k (y.targetTo w.store k d)) =
        .ok (.finite (rest + o.costs.getD k 0 * τ d)) := by
    rw [Model.objectiveValue_eq hcolumns hobjective hcosts (Tableau.placed_sound hw hchoice d), hτ,
      ← hplaced, Tableau.point]
  -- the objective is linear along the column, so it is best at the end that its coefficient prefers
  have hbest {p : ℚ} (hlo : τ .down ≤ p) (hhi : p ≤ τ .up) :
      o.sense.NoWorse (rest + o.costs.getD k 0 * τ (y.preference k))
        (rest + o.costs.getD k 0 * p) := by
    rw [Sense.noWorse_iff_of_add, Tableau.preference_eq ho hcosts]
    exact Direction.noWorse_favoured o.sense _ hlo hhi
  have hother (d : Direction) : τ .down ≤ τ d ∧ τ d ≤ τ .up := by
    cases d with
    | up => exact ⟨hdown.trans hup, le_rfl⟩
    | down => exact ⟨le_rfl, hdown.trans hup⟩
  exact ⟨y.preference k, _, _, _, _, hmoved, rfl, hbefore, hafter _, hafter _, hbest hdown hup,
    hbest (hother _).1 (hother _).2⟩

def betweenRows : Workspace Exact where
  store := halves.store
  models := #[{ columns := some [0, 1]
                rows := some [⟨[.finite 1, .finite 0], .le, .finite 1⟩,
                  ⟨[.finite 2, .finite 1], .ge, .finite (1 / 2)⟩,
                  ⟨[.finite (-1), .finite 0], .lt, .finite 0⟩]
                objective := some ⟨.max, [.finite (-2), .finite 1]⟩ }]
  engines := #[{ model := 0, options := .standard, indices := some [0] }]

theorem tie_favours_objective_betweenRows :
    ∃ before after w', (moveColumn 0 (-2)).run betweenRows = .ok true w' ∧
      (betweenRows.modelAt 0).objectiveValue betweenRows.store = .ok (.finite before) ∧
      (w'.modelAt 0).objectiveValue w'.store = .ok (.finite after) ∧ before ≤ after := by
  obtain ⟨_, before, after, _, w', hmoved, -, hbefore, hafter, -, hbest, -⟩ :=
    tie_favours_objective (w := betweenRows) (e := 0) (j := -2) (k := 0) halves_rational.sound rfl rfl
      (by decide) rfl (by decide) (by decide) (Exact.eq_of_beq (by decide +kernel)) (by decide +kernel)
  exact ⟨before, after, w', hmoved, hbefore, hafter, hbest⟩

end MilpRounding
