import MilpRounding.Proofs.RationalMoves
import MilpRounding.Scene

namespace MilpRounding

open Scalar

section Mirror

variable {α : Type} [Scalar α]

def Variable.mirrored (v : Variable α) : Variable α := ⟨v.kind, -v.value, -v.high, -v.low⟩

def Store.mirrored (s : Store α) : Store α := ⟨s.cells.map Variable.mirrored⟩

def Row.mirrored (r : Row α) : Row α := { r with coefficients := r.coefficients.map (-·) }

def Objective.mirrored (o : Objective α) : Objective α :=
  { o with coefficients := o.coefficients.map (-·) }

def Model.mirrored (m : Model α) : Model α where
  columns := m.columns
  rows := m.rows.map (List.map Row.mirrored)
  objective := m.objective.map Objective.mirrored

def Tableau.mirrored (y : Tableau α) : Tableau α where
  columns := y.columns
  rows := y.rows.map Row.mirrored
  objective := y.objective.map Objective.mirrored

def Scene.mirrored (c : Scene α) : Scene α :=
  { c with store := c.store.mirrored, model := c.model.mirrored }

theorem Scene.model_mirrored (c : Scene α) : c.mirrored.model = c.model.mirrored := rfl

end Mirror

def Direction.opposite : Direction → Direction
  | .up => .down
  | .down => .up

namespace Exact

theorem sub_neg_neg (a b : Exact) : -a - -b = b - a := by
  rw [Exact.sub_eq_add_neg, Exact.neg_neg, Exact.add_comm, Exact.sub_eq_add_neg]

theorem neg_add_eq (a b : Exact) : -a + b = -(a - b) := by
  rw [Exact.sub_eq_add_neg, Exact.neg_add, Exact.neg_neg]

theorem zero_lt_neg (a : Exact) : 0 < -a ↔ a < 0 := by
  rw [← Exact.neg_lt_neg_iff, Exact.neg_neg]
  rfl

theorem ne_of_lt {a b : Exact} (h : a < b) : a ≠ b := by
  rintro rfl
  exact lt_irrefl a h

theorem lesser_neg (a b : Exact) : lesser (-a) (-b) = -greater a b := by
  simp only [lesser, greater, Exact.neg_lt_neg_iff]
  split <;> rfl

theorem above_neg {a : Exact} (ha : Scalar.isFinite a = true) : above (-a) = -underneath a := by
  obtain ⟨q, rfl⟩ := isFinite_iff.mp ha
  simp [Int.ceil_neg]

theorem gap_neg {a : Exact} (ha : Scalar.isFinite a = true) : gap (-a) = gap a := by
  obtain ⟨q, rfl⟩ := isFinite_iff.mp ha
  rw [Exact.neg_finite, gap_finite, gap_finite, Int.floor_neg, Int.ceil_neg, min_comm]
  push_cast
  ring_nf

theorem isWhole_neg (a : Exact) : isWhole (-a) = isWhole a := by
  rw [isWhole, isWhole, isFinite_neg]
  cases ha : Scalar.isFinite a with
  | false => rfl
  | true => rw [gap_neg ha]

theorem dot_neg (a x : List Exact) : dot (a.map (-·)) (x.map (-·)) = dot a x := by
  rw [dot, dot, List.zipWith_map]
  simp only [Exact.neg_mul_neg]

end Exact

/-- A cost of the other sign prefers the other direction. Without a cost both sides prefer to go
up. -/
theorem Direction.favoured_neg {q : ℚ} (hq : q ≠ 0) (sense : Sense) :
    favoured (some sense) (Exact.finite (-q)) =
      (favoured (some sense) (Exact.finite q)).opposite := by
  have hneg : -q < 0 ↔ ¬ q < 0 := by grind
  have hpos : 0 < -q ↔ ¬ 0 < q := by grind
  cases sense with
  | min =>
      simp only [favoured, Exact.zero_eq, Exact.finite_lt_finite, hpos, ite_not]
      split <;> rfl
  | max =>
      simp only [favoured, Exact.zero_eq, Exact.finite_lt_finite, hneg, ite_not]
      split <;> rfl

theorem choose_opposite (p : Direction) (now up down : Exact) :
    Tableau.choose p.opposite now down up =
      (Tableau.choose p now up down).map Direction.opposite := by
  by_cases hsame : (up == down) = true
  · obtain rfl := Exact.eq_of_beq hsame
    simp only [Tableau.choose, hsame, Exact.lt_irrefl, false_and, if_false, Bool.true_and]
    split <;> rfl
  · have hsame' : ¬ (down == up) = true := by
      rwa [Exact.beq_comm]
    simp only [Tableau.choose, hsame, hsame', Bool.false_and, Bool.false_eq_true, if_false]
    by_cases hup : up < down
    · have hdown : ¬ down < up := Exact.not_lt_of_le (Exact.le_of_lt hup)
      simp only [hup, hdown, true_and, false_and, if_false]
      split <;> rfl
    · simp only [hup, false_and, if_false]
      split <;> rfl

namespace Variable

theorem mirrored_mirrored (v : Variable Exact) : v.mirrored.mirrored = v := by
  simp [mirrored]

theorem isIntegral_mirrored (v : Variable Exact) : v.mirrored.isIntegral = v.isIntegral :=
  Exact.isWhole_neg v.value

theorem Sound.mirrored {v : Variable Exact} (hv : v.Sound) : v.mirrored.Sound := by
  obtain ⟨hfinite, hlow, hhigh⟩ := admits_iff.mp hv.admitted
  constructor
  · apply admits_iff.mpr
    refine ⟨(Exact.isFinite_neg v.value).trans hfinite, ?_, ?_⟩
    · simpa [Variable.mirrored] using hhigh
    · simpa [Variable.mirrored] using hlow
  · intro hk
    rw [isIntegral_mirrored]
    exact hv.whole hk

theorem target_mirrored_up {v : Variable Exact} (hv : Scalar.isFinite v.value = true)
    (step : Exact) : v.mirrored.target step .up = -v.target step .down := by
  simp only [target, mirrored, Exact.above_neg hv, Exact.sub_neg_neg, Exact.neg_le_neg_iff]
  split
  next => rfl
  next => rw [Exact.neg_add_eq, Exact.lesser_neg]

theorem target_mirrored {v : Variable Exact} (hv : Scalar.isFinite v.value = true) (step : Exact)
    (d : Direction) : v.mirrored.target step d = -v.target step d.opposite := by
  cases d with
  | up => exact target_mirrored_up hv step
  | down =>
      have h := target_mirrored_up (v := v.mirrored) ((Exact.isFinite_neg v.value).trans hv) step
      rw [mirrored_mirrored] at h
      rw [Direction.opposite, h, Exact.neg_neg]

end Variable

namespace Store

variable (s : Store Exact)

theorem read_mirrored (r : Ref) : s.mirrored.read r = (s.read r).mirrored := by
  simp only [read, mirrored, Array.getD_eq_getD_getElem?, Array.getElem?_map]
  cases s.cells[r]? <;> rfl

theorem mirrored_mirrored : s.mirrored.mirrored = s := by
  obtain ⟨cells⟩ := s
  have h : Variable.mirrored ∘ Variable.mirrored = @id (Variable Exact) :=
    funext Variable.mirrored_mirrored
  simp only [mirrored, Array.map_map, h, Array.map_id]

theorem mirrored_write (r : Ref) (v : Variable Exact) :
    (s.write r v).mirrored = s.mirrored.write r v.mirrored := by
  simp only [write, mirrored, Array.map_setIfInBounds]

theorem mirrored_makeIntegral (r : Ref) :
    (s.makeIntegral r).mirrored = s.mirrored.makeIntegral r := by
  rw [makeIntegral, mirrored_write, makeIntegral, read_mirrored]
  rfl

theorem valuesAt_mirrored (columns : List Ref) :
    valuesAt columns s.mirrored = (valuesAt columns s).map (-·) := by
  rw [valuesAt, valuesAt, List.map_map]
  apply List.map_congr_left
  intro r _
  rw [value, read_mirrored]
  rfl

variable {s}

theorem Sound.mirrored (hs : s.Sound) : s.mirrored.Sound := by
  intro r
  rw [read_mirrored]
  exact (hs r).mirrored

end Store

namespace Row

variable (r : Row Exact)

theorem mirrored_mirrored : r.mirrored.mirrored = r := by
  simp only [mirrored, map_neg_neg]

theorem left_mirrored (x : List Exact) : r.mirrored.left (x.map (-·)) = r.left x :=
  Exact.dot_neg r.coefficients x

theorem slack_mirrored (x : List Exact) : r.mirrored.slack (x.map (-·)) = r.slack x := by
  rw [slack, left_mirrored]
  rfl

theorem isViolated_mirrored (tol : Exact) (x : List Exact) :
    r.mirrored.isViolated tol (x.map (-·)) = r.isViolated tol x := by
  rw [isViolated, left_mirrored, slack_mirrored]
  rfl

theorem entry_mirrored (j : Nat) : Tableau.entry r.mirrored j = -Tableau.entry r j := by
  simp only [Tableau.entry, mirrored, List.getD_eq_getElem?_getD, List.getElem?_map]
  cases r.coefficients[j]? <;> rfl

theorem toward_mirrored (target : Relation) :
    r.mirrored.toward target = (r.toward target).mirrored := by
  rw [toward, toward]
  change (if r.relation.opposes target then _ else _) = _
  split <;> rfl

end Row

namespace Tableau

variable {y : Tableau Exact} {s : Store Exact} {j : Nat}

theorem values_mirrored (y : Tableau Exact) (s : Store Exact) :
    y.mirrored.values s.mirrored = (y.values s).map (-·) :=
  s.valuesAt_mirrored y.columns

theorem variableAt_mirrored (y : Tableau Exact) (s : Store Exact) (j : Nat) :
    y.mirrored.variableAt s.mirrored j = (y.variableAt s j).mirrored :=
  s.read_mirrored (y.ref j)

theorem rows_mirrored (y : Tableau Exact) : y.mirrored.rows = y.rows.map Row.mirrored := rfl

theorem objective_mirrored (y : Tableau Exact) :
    y.mirrored.objective = y.objective.map Objective.mirrored := rfl

theorem mirrored_mirrored (y : Tableau Exact) : y.mirrored.mirrored = y := by
  have hrows : Row.mirrored ∘ Row.mirrored = @id (Row Exact) := funext Row.mirrored_mirrored
  have hobjective : Objective.mirrored ∘ Objective.mirrored = @id (Objective Exact) := by
    funext o
    simp only [Function.comp_apply, Objective.mirrored, map_neg_neg, id_eq]
  simp only [mirrored, List.map_map, hrows, List.map_id, Option.map_map, hobjective, Option.map_id,
    id_eq]

theorem limitUp_mirrored (y : Tableau Exact) (s : Store Exact) (j : Nat) :
    y.mirrored.limitUp s.mirrored j = y.limitDown s j := by
  simp only [limitUp, limitDown, values_mirrored, rows_mirrored, List.filterMap_map]
  congr 1
  apply List.filterMap_congr
  intro r _
  simp only [Function.comp_apply, Row.entry_mirrored, Row.slack_mirrored, Exact.zero_lt_neg]
  split
  next h => rw [Exact.div_neg (Exact.ne_of_lt h)]
  next => rfl

theorem limitDown_mirrored (y : Tableau Exact) (s : Store Exact) (j : Nat) :
    y.mirrored.limitDown s.mirrored j = y.limitUp s j := by
  have h := limitUp_mirrored y.mirrored s.mirrored j
  rw [mirrored_mirrored, Store.mirrored_mirrored] at h
  exact h.symm

theorem reachUp_mirrored (hs : s.Sound) : y.mirrored.reachUp s.mirrored j = y.reachDown s j := by
  obtain ⟨hv, -, -⟩ := Variable.admits_iff.mp (y.variableAt_sound hs j).admitted
  simp only [reachUp, reachDown, limitUp_mirrored, variableAt_mirrored, Variable.mirrored,
    Exact.above_neg hv, Exact.sub_neg_neg]

theorem reachDown_mirrored (hs : s.Sound) :
    y.mirrored.reachDown s.mirrored j = y.reachUp s j := by
  have h := reachUp_mirrored (y := y.mirrored) (j := j) hs.mirrored
  rw [mirrored_mirrored, Store.mirrored_mirrored] at h
  exact h.symm

theorem targetTo_mirrored (hs : s.Sound) (d : Direction) :
    y.mirrored.targetTo s.mirrored j d = -y.targetTo s j d.opposite := by
  obtain ⟨hv, -, -⟩ := Variable.admits_iff.mp (y.variableAt_sound hs j).admitted
  cases d with
  | up =>
      rw [targetTo, targetUp, variableAt_mirrored, Variable.target_mirrored hv,
        reachUp_mirrored hs]
      rfl
  | down =>
      rw [targetTo, targetDown, variableAt_mirrored, Variable.target_mirrored hv,
        reachDown_mirrored hs]
      rfl

theorem gap_targetTo_mirrored (hs : s.Sound) (d : Direction) :
    gap (y.mirrored.targetTo s.mirrored j d) = gap (y.targetTo s j d.opposite) := by
  have hfinite : Scalar.isFinite (y.targetTo s j d.opposite) = true := by
    cases d with
    | up => exact (Variable.admits_iff.mp (y.admits_targetDown hs j)).1
    | down => exact (Variable.admits_iff.mp (y.admits_targetUp hs j)).1
  rw [targetTo_mirrored hs, Exact.gap_neg hfinite]

theorem objectiveEntry_mirrored (y : Tableau Exact) (j : Nat) :
    y.mirrored.objectiveEntry j = -y.objectiveEntry j := by
  simp only [objectiveEntry, mirrored]
  cases y.objective with
  | none => rfl
  | some o =>
      simp only [Option.map_some, Objective.mirrored, List.getD_eq_getElem?_getD, List.getElem?_map]
      cases o.coefficients[j]? <;> rfl

theorem preference_mirrored {q : ℚ} (hq : q ≠ 0) (h : y.objectiveEntry j = .finite q) :
    y.mirrored.preference j = (y.preference j).opposite := by
  rw [preference, objectiveEntry_mirrored, h, preference, h]
  cases ho : y.objective with
  | none =>
      rw [objectiveEntry, ho] at h
      exact absurd (Exact.finite.inj h).symm hq
  | some o =>
      simp only [mirrored, ho, Option.map_some]
      exact Direction.favoured_neg hq o.sense

theorem choice_eq_map (y : Tableau Exact) (s : Store Exact) (j : Nat) :
    y.choice s j = (choose (y.preference j) (gap (y.variableAt s j).value)
      (gap (y.targetTo s j .up)) (gap (y.targetTo s j .down))).map (y.targetTo s j) := by
  rfl

theorem choice_mirrored (hs : s.Sound) {q : ℚ} (hq : q ≠ 0) (h : y.objectiveEntry j = .finite q) :
    y.mirrored.choice s.mirrored j = (y.choice s j).map (-·) := by
  obtain ⟨hv, -, -⟩ := Variable.admits_iff.mp (y.variableAt_sound hs j).admitted
  have hnow : gap (y.mirrored.variableAt s.mirrored j).value = gap (y.variableAt s j).value := by
    rw [variableAt_mirrored]
    exact Exact.gap_neg hv
  rw [choice_eq_map, choice_eq_map, preference_mirrored hq h, hnow, gap_targetTo_mirrored hs,
    gap_targetTo_mirrored hs]
  rw [Direction.opposite, Direction.opposite, choose_opposite, Option.map_map, Option.map_map]
  congr 1
  funext d
  rw [Function.comp_apply, Function.comp_apply, targetTo_mirrored hs]
  cases d <;> rfl

theorem next_mirrored (hs : s.Sound) {q : ℚ} (hq : q ≠ 0) (h : y.objectiveEntry j = .finite q) :
    y.mirrored.next s.mirrored j = ((y.next s j).1.mirrored, (y.next s j).2) := by
  rw [next, choice_mirrored hs hq h, next]
  cases y.choice s j with
  | none => rfl
  | some t =>
      simp only [Option.map_some, Store.mirrored_write, variableAt_mirrored]
      rfl

theorem totals_mirrored (y : Tableau Exact) (s : Store Exact) (pending : List Nat) :
    y.mirrored.totals s.mirrored pending = (y.totals s pending).swap := by
  simp only [totals, limitUp_mirrored, limitDown_mirrored]
  rfl

theorem violated_mirrored (y : Tableau Exact) (tol : Exact) (s : Store Exact) :
    y.mirrored.violated tol s.mirrored = y.violated tol s := by
  simp only [violated, values_mirrored, rows_mirrored, violatedRows, List.length_map]
  apply List.filter_congr
  intro i _
  rw [List.getElem?_map]
  cases y.rows[i]? with
  | none => rfl
  | some r => exact r.isViolated_mirrored tol (y.values s)

theorem objectiveValue_mirrored (y : Tableau Exact) (s : Store Exact) :
    y.mirrored.objectiveValue s.mirrored = y.objectiveValue s := by
  simp only [objectiveValue, values_mirrored, objective_mirrored, Option.map_map]
  congr 1
  funext o
  exact Exact.dot_neg o.coefficients (y.values s)

end Tableau

end MilpRounding
