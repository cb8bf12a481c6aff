import MilpRounding.Proofs.LooseColumns

namespace MilpRounding

open Scalar LawfulScalar Rounding

def Direction.goal : Direction → ℚ
  | .up => 1
  | .down => 0

def freeVariable : Variable Exact := ⟨.continuous, 0, -infinity, infinity⟩

def trialVariable : Direction → Variable Exact
  | .up => ⟨.continuous, .finite (1 / 2), .finite (1 / 2), infinity⟩
  | .down => ⟨.continuous, .finite (1 / 2), -infinity, .finite (1 / 2)⟩

def trialStore (n j : Nat) (v : Variable Exact) : Store Exact :=
  Store.write ⟨Array.replicate n freeVariable⟩ j v

/-- What an inequality leaves if it weighs the column by `w`. -/
def spare (w : ℚ) : ℚ := if w = 0 then 1 else |w| / 2

def trialRow (j : Nat) (σ : Shape) : Row Exact where
  coefficients := σ.weights.map .finite
  relation := σ.relation
  rhs := .finite <|
    let w := σ.weights.getD j 0
    if σ.relation = .eq then w / 2
    else if σ.relation.isBelow then w / 2 + spare w
    else w / 2 - spare w

def trialModel (n : Nat) (shapes : List Shape) (j : Nat) : Model Exact where
  columns := some (List.range n)
  rows := some (shapes.map (trialRow j))

def trial (n : Nat) (shapes : List Shape) (j : Nat) (d : Direction) : Scene Exact where
  store := trialStore n j (trialVariable d)
  model := trialModel n shapes j

theorem freeVariable_sound : freeVariable.Sound := Store.sound_empty 0

theorem freeVariable_isIntegral : freeVariable.isIntegral = true :=
  (isWhole_finite 0).mpr ⟨0, rfl⟩

theorem spare_pos (w : ℚ) : 0 < spare w := by
  rw [spare]
  split
  next => exact one_pos
  next h => exact half_pos (abs_pos.mpr h)

theorem spare_of_ne_zero {w : ℚ} (h : w ≠ 0) : spare w = |w| / 2 := if_neg h

section Row

variable {n j : Nat} {σ : Shape} {q : ℚ}

theorem trialRow_rational (j : Nat) (σ : Shape) : (trialRow j σ).Rational where
  coefficients := by
    intro a ha
    obtain ⟨q, -, rfl⟩ := List.mem_map.mp ha
    rfl
  rhs := rfl

@[simp] theorem weights_trialRow (j : Nat) (σ : Shape) : (trialRow j σ).weights = σ.weights := by
  rw [Row.weights, trialRow, List.map_map]
  exact List.map_id _

theorem shape_trialRow (j : Nat) (σ : Shape) : (trialRow j σ).shape = σ := by
  rw [Row.shape, weights_trialRow]
  rfl

theorem getElem?_trialRow {shapes : List Shape} {k : Nat} (hk : shapes[k]? = some σ) (j : Nat) :
    (shapes.map (trialRow j))[k]? = some (trialRow j σ) := by
  rw [List.getElem?_map, hk, Option.map_some]

theorem form_single (a : List ℚ) (hj : j < n) (q : ℚ) :
    form a ((List.replicate n 0).set j q) = a.getD j 0 * q := by
  rw [form_set a (by simpa using hj), form_replicate_zero]
  simp [hj]

theorem left_trialRow (hj : j < n) (σ : Shape) (q : ℚ) :
    form (trialRow j σ).weights ((List.replicate n 0).set j q) = σ.weights.getD j 0 * q := by
  rw [weights_trialRow, form_single _ hj]

theorem room_trialRow (hj : j < n) (hσ : σ.relation ≠ .eq) (q : ℚ) :
    (trialRow j σ).room ((List.replicate n 0).set j q) =
      spare (σ.weights.getD j 0) - σ.load j * (q - 1 / 2) := by
  simp only [Row.room, left_trialRow hj]
  obtain ⟨weights, relation⟩ := σ
  cases relation with
  | eq => exact absurd rfl hσ
  | lt | le | gt | ge =>
      simp [trialRow, Shape.load, Exact.toRat, Relation.isBelow, Relation.isAbove]
      ring

end Row

section Store

variable {n j : Nat} {v : Variable Exact}

theorem read_trialStore (hj : j < n) (v : Variable Exact) (t : Ref) :
    (trialStore n j v).read t = if j = t then v else freeVariable := by
  rw [trialStore, Store.read_write]
  simp only [Store.size, Array.size_replicate, hj, and_true]
  congr 1
  by_cases ht : t < n <;> simp [Store.read, Array.getD_eq_getD_getElem?, ht, freeVariable]

theorem write_trialStore (n j : Nat) (v w : Variable Exact) :
    (trialStore n j v).write j w = trialStore n j w := by
  simp [trialStore, Store.write]

theorem trialStore_sound (hj : j < n) (hv : v.Sound) : (trialStore n j v).Sound := by
  intro t
  rw [read_trialStore hj]
  split
  · exact hv
  · exact freeVariable_sound

theorem point_trialStore (hj : j < n) {q : ℚ} (hq : v.value = .finite q) :
    point (List.range n) (trialStore n j v) = (List.replicate n 0).set j q := by
  apply List.ext_getElem
  · simp
  · intro i hi _
    simp only [point, List.getElem_map, List.getElem_range, Store.value, read_trialStore hj,
      List.getElem_set, List.getElem_replicate]
    split
    next => rw [hq]; rfl
    next => rfl

end Store

theorem step_of_no_room (p m w : ℚ) :
    greater 0 (lesser (lesser (Exact.finite p - .finite p) (.finite m)) (.finite w)) =
      .finite 0 := by
  have h : min (min 0 m) w ≤ 0 := (min_le_left _ _).trans (min_le_left _ _)
  rw [Exact.finite_sub_finite, sub_self, lesser_finite, lesser_finite, Exact.zero_eq,
    greater_finite, max_eq_left h]

def movedVariable (d : Direction) : Variable Exact :=
  { trialVariable d with value := .finite d.goal }

theorem infinity_sub_finite (q : ℚ) : (infinity : Exact) - .finite q = .posInf := rfl

theorem finite_sub_negInfinity (q : ℚ) : Exact.finite q - -infinity = .posInf := rfl

theorem ceil_half : ⌈(1 / 2 : ℚ)⌉ = 1 := by norm_num

theorem floor_half : ⌊(1 / 2 : ℚ)⌋ = 0 := by norm_num

theorem value_trialVariable (d : Direction) : (trialVariable d).value = .finite (1 / 2) := by
  cases d <;> rfl

theorem gap_half : gap (Exact.finite (1 / 2)) = .finite (1 / 2) := by
  rw [gap_finite, ceil_half, floor_half]
  norm_num

theorem gap_goal (d : Direction) : gap (Exact.finite d.goal) = .finite 0 := by
  rw [gap_finite]
  cases d <;> norm_num [Direction.goal]

theorem target_goal (d : Direction) :
    (trialVariable d).target (.finite (1 / 2)) d = .finite d.goal := by
  cases d with
  | up =>
      have hway : (1 / 2 : ℚ) = 1 - 1 / 2 := by norm_num
      have hhigh : Exact.finite 1 ≤ infinity := rfl
      simp only [Variable.target, trialVariable, Exact.above_finite, ceil_half, Int.cast_one,
        Exact.finite_sub_finite, Exact.finite_beq_finite, ← hway, decide_true, hhigh,
        Bool.and_self, if_pos]
      rfl
  | down =>
      have hway : (1 / 2 : ℚ) = 1 / 2 - 0 := by norm_num
      have hlow : -infinity ≤ Exact.finite 0 := rfl
      simp only [Variable.target, trialVariable, Exact.underneath_finite, floor_half, Int.cast_zero,
        Exact.finite_sub_finite, Exact.finite_beq_finite, ← hway, decide_true, hlow,
        Bool.and_self, if_pos]
      rfl

theorem target_back {d e : Direction} (h : e ≠ d) :
    (trialVariable d).target (.finite 0) e = .finite (1 / 2) := by
  cases d <;> cases e
  case up.up | down.down => exact absurd rfl h
  case up.down =>
    have hway : ¬ (0 : ℚ) = 1 / 2 - 0 := by norm_num
    simp only [Variable.target, trialVariable, Exact.underneath_finite, floor_half, Int.cast_zero,
      Exact.finite_sub_finite, Exact.finite_beq_finite, hway, decide_false, Bool.false_and,
      greater_finite]
    norm_num
  case down.up =>
    have hway : ¬ (0 : ℚ) = 1 - 1 / 2 := by norm_num
    simp only [Variable.target, trialVariable, Exact.above_finite, ceil_half, Int.cast_one,
      Exact.finite_sub_finite, Exact.finite_add_finite, Exact.finite_beq_finite, hway,
      decide_false, Bool.false_and, lesser_finite]
    norm_num

namespace Tableau

theorem choose_up (p : Direction) {now up down : ℚ} (h : up < down) (hup : up < now) :
    choose p (Exact.finite now) (.finite up) (.finite down) = some .up := by
  simp [choose, h, h.ne, hup]

theorem choose_down (p : Direction) {now up down : ℚ} (h : down < up) (hdown : down < now) :
    choose p (Exact.finite now) (.finite up) (.finite down) = some .down := by
  simp [choose, h, h.ne', h.le, hdown]

theorem choice_trial {y : Tableau Exact} {s : Store Exact} {j : Nat} {d : Direction}
    (hv : y.variableAt s j = trialVariable d) (hlimit : ∀ e, ∃ m, y.limit s j e = .finite m)
    (h : y.limit s j d = .finite (1 / 2)) : y.choice s j = some (.finite d.goal) := by
  cases d with
  | up =>
      obtain ⟨m, hm⟩ := hlimit .down
      have hreach : y.reachUp s j = .finite (1 / 2) := by
        rw [reachUp, hv, show y.limitUp s j = .finite (1 / 2) from h]
        simp only [trialVariable, infinity_sub_finite, Exact.above_finite, ceil_half,
          Exact.finite_sub_finite, step_of_posInf]
        norm_num
      -- the bound is where the column stands, whatever the limit
      have hback : y.reachDown s j = .finite 0 := by
        rw [reachDown, hv, show y.limitDown s j = .finite m from hm]
        simp only [trialVariable, Exact.underneath_finite]
        rw [Exact.finite_sub_finite (1 / 2) ⌊(1 / 2 : ℚ)⌋, step_of_no_room]
      rw [choice, targetUp, targetDown, hreach, hback, hv, target_goal, target_back (by decide),
        value_trialVariable, gap_half, gap_goal, choose_up _ (by norm_num) (by norm_num)]
      rfl
  | down =>
      obtain ⟨m, hm⟩ := hlimit .up
      have hreach : y.reachDown s j = .finite (1 / 2) := by
        rw [reachDown, hv, show y.limitDown s j = .finite (1 / 2) from h]
        simp only [trialVariable, finite_sub_negInfinity, Exact.underneath_finite, floor_half,
          Exact.finite_sub_finite, step_of_posInf]
        norm_num
      have hback : y.reachUp s j = .finite 0 := by
        rw [reachUp, hv, show y.limitUp s j = .finite m from hm]
        simp only [trialVariable, Exact.above_finite]
        rw [Exact.finite_sub_finite ⌈(1 / 2 : ℚ)⌉ (1 / 2), step_of_no_room]
      rw [choice, targetUp, targetDown, hreach, hback, hv, target_goal, target_back (by decide),
        value_trialVariable, gap_half, gap_goal, choose_down _ (by norm_num) (by norm_num)]
      rfl

end Tableau

theorem trial_sound (d : Direction) : (trialVariable d).Sound := by
  refine Variable.continuous_sound (by cases d <;> rfl) (value_trialVariable d) ?_ ?_
  · cases d
    · exact Exact.lt_irrefl _
    · rintro ⟨⟩
  · cases d
    · rintro ⟨⟩
    · exact Exact.lt_irrefl _

theorem moved_isIntegral (d : Direction) : (movedVariable d).isIntegral = true := by
  refine (isWhole_finite _).mpr ?_
  cases d
  · exact ⟨1, by norm_num [Direction.goal]⟩
  · exact ⟨0, by norm_num [Direction.goal]⟩

theorem moved_sound (d : Direction) : (movedVariable d).Sound := by
  refine Variable.continuous_sound (by cases d <;> rfl) rfl ?_ ?_
  · cases d
    · norm_num [movedVariable, trialVariable, Direction.goal]
    · rintro ⟨⟩
  · cases d
    · rintro ⟨⟩
    · norm_num [movedVariable, trialVariable, Direction.goal]

section Run

variable {n j : Nat} {shapes : List Shape} {d : Direction} {idx : List Int}

theorem trial_shaped (hj : j < n) (shapes : List Shape) (d : Direction) :
    (trial n shapes j d).Shaped n shapes where
  sound := trialStore_sound hj (trial_sound d)
  distinct := List.nodup_range
  rows := by
    intro r hr
    obtain ⟨σ, -, rfl⟩ := List.mem_map.mp hr
    exact trialRow_rational j σ
  columns_count := by simp [trial, trialModel]
  rows_shape := by simp [trial, trialModel, Function.comp_def, shape_trialRow]

theorem point_trial (hj : j < n) (shapes : List Shape) (d : Direction) :
    point (List.range n) (trial n shapes j d).store = (List.replicate n 0).set j (1 / 2) :=
  point_trialStore hj (value_trialVariable d)

theorem room_trial (hj : j < n) {σ : Shape} (hσ : σ.relation ≠ .eq) (shapes : List Shape)
    (d : Direction) : (trialRow j σ).room (point (List.range n) (trial n shapes j d).store) =
      spare (σ.weights.getD j 0) := by
  rw [point_trial hj, room_trialRow hj hσ, sub_self, mul_zero, sub_zero]

theorem trial_reported (hj : j < n) (hrange : ∀ i ∈ idx, 0 ≤ i ∧ i < n) (shapes : List Shape)
    (d : Direction) : Reported .standard idx (trial n shapes j d) (List.range n)
      (shapes.map (trialRow j)) where
  columns_eq := rfl
  rows_eq := rfl
  range := by simpa using hrange
  rational := (trial_shaped hj shapes d).rows
  distinct := List.nodup_range
  sound := (trial_shaped hj shapes d).sound
  oriented := rfl

theorem trial_prepared (hj : j < n) (shapes : List Shape) :
    (tableau .standard (trialModel n shapes j)).Prepared := by
  have h : Reported .standard [] (trial n shapes j .up) (List.range n)
      (shapes.map (trialRow j)) := trial_reported hj (by simp) shapes .up
  exact h.prepared

theorem obstacle_trial (hrange : ∀ i ∈ idx, 0 ≤ i ∧ i < n) :
    obstacle? .standard (some idx) (trial n shapes j d).model = none := by
  have hout : outOfRange? n idx = none := by simpa [outOfRange?] using hrange
  simp [obstacle?, trial, trialModel, hout, Options.standard]

theorem limit_trial (hj : j < n) (h : Shape.Loose shapes j d) :
    (tableau .standard (trialModel n shapes j)).limit (trialStore n j (trialVariable d)) j d =
      .finite (1 / 2) := by
  obtain ⟨m, hm, -, htight⟩ := Tableau.limit_spec (j := j) (trial_shaped hj shapes d).sound
    (trial_prepared hj shapes).rational d
  refine hm.trans (congrArg Exact.finite ?_)
  obtain ⟨r, hr, hres, rfl⟩ | ⟨hnone, -⟩ := htight
  · obtain ⟨r, hr', rfl⟩ := List.mem_map.mp hr
    obtain ⟨σ, hσ, rfl⟩ := List.mem_map.mp hr'
    have hw := trialRow_rational j σ
    rw [weight_toward hw, shape_trialRow] at hres ⊢
    have hne : |σ.weights.getD j 0| ≠ 0 := by
      rw [← Shape.abs_load]
      exact abs_ne_zero.mpr hres.ne_zero
    change ((trialRow j σ).toward .le).room (point (List.range n) (trial n shapes j d).store) /
      |σ.load j| = 1 / 2
    rw [Row.room_toward hw, room_trial hj (h.2 σ hσ hres), Shape.abs_load,
      spare_of_ne_zero (abs_ne_zero.mp hne)]
    field_simp
  · obtain ⟨σ, hσ, hres⟩ := h.1
    have hw := trialRow_rational j σ
    have hnot := hnone _ (List.mem_map_of_mem (List.mem_map_of_mem hσ))
    rw [weight_toward hw, shape_trialRow] at hnot
    exact absurd hres hnot

theorem variableAt_trial (hj : j < n) (shapes : List Shape) (v : Variable Exact) {i : Nat}
    (hi : i < n) : (tableau .standard (trialModel n shapes j)).variableAt (trialStore n j v) i =
      if j = i then v else freeVariable := by
  have href : (tableau .standard (trialModel n shapes j)).ref i = i := by
    simp [tableau, trialModel, Tableau.ref, hi]
  rw [Tableau.variableAt, href, read_trialStore hj]

theorem next_trial (hj : j < n) (h : Shape.Loose shapes j d) :
    ((tableau .standard (trialModel n shapes j)).next (trialStore n j (trialVariable d)) j).1 =
      trialStore n j (movedVariable d) := by
  have hv := variableAt_trial hj shapes (trialVariable d) hj
  rw [if_pos rfl] at hv
  have hfinite : ∀ e, ∃ m, (tableau .standard (trialModel n shapes j)).limit
      (trialStore n j (trialVariable d)) j e = .finite m := fun e =>
    (Tableau.limit_spec (trial_shaped hj shapes d).sound
      (trial_prepared hj shapes).rational e).imp fun _ h => h.1
  have hc := Tableau.choice_trial hv hfinite (limit_trial hj h)
  rw [Tableau.next, hc, hv, Tableau.ref]
  simp [tableau, trialModel, hj, write_trialStore, movedVariable]

theorem next_trialStore (hj : j < n) (shapes : List Shape) {v : Variable Exact} (hv : v.Sound)
    {i : Nat} (hi : i < n) (hwhole : j = i → v.isIntegral = true) :
    ((tableau .standard (trialModel n shapes j)).next (trialStore n j v) i).1 =
      trialStore n j v := by
  have hw : ((tableau .standard (trialModel n shapes j)).variableAt (trialStore n j v)
      i).isIntegral = true := by
    rw [variableAt_trial hj shapes v hi]
    split
    next h => exact hwhole h
    next => exact freeVariable_isIntegral
  rw [Tableau.next_of_isIntegral (trialStore_sound hj hv) hw]

/-- A run about the column ends with this column moved. -/
theorem passage_trial (hj : j < n) (h : Shape.Loose shapes j d)
    (hrange : ∀ i ∈ idx, 0 ≤ i ∧ i < n) (hmem : (j : Int) ∈ idx) :
    (passage .standard (some idx) (trial n shapes j d)).store =
      trialStore n j (movedVariable d) := by
  have hlt : ∀ i ∈ listed (some idx), i < n := fun i hi => mem_listed hrange hi
  have hstart : ∀ s, ∀ i ∈ listed (some idx), s = trialStore n j (trialVariable d) →
      ((tableau .standard (trialModel n shapes j)).next s i).1 =
        trialStore n j (trialVariable d) ∨
      ((tableau .standard (trialModel n shapes j)).next s i).1 =
        trialStore n j (movedVariable d) := by
    rintro s i hi rfl
    by_cases hji : j = i
    · rw [← hji]
      exact .inr (next_trial hj h)
    · exact .inl (next_trialStore hj shapes (trial_sound d) (hlt i hi) fun h => absurd h hji)
  have hend : ∀ s, ∀ i ∈ listed (some idx), s = trialStore n j (movedVariable d) →
      ((tableau .standard (trialModel n shapes j)).next s i).1 =
        trialStore n j (movedVariable d) := by
    rintro s i hi rfl
    exact next_trialStore hj shapes (moved_sound d) (hlt i hi) fun _ => moved_isIntegral d
  have hlisted : j ∈ listed (some idx) := List.mem_map.mpr ⟨j, hmem, rfl⟩
  refine Tableau.course_reaches (P := (· = trialStore n j (trialVariable d))) hstart hend ?_
    hlisted _ Options.standard.maxSweeps.2 rfl
  rintro s rfl
  exact next_trial hj h

theorem point_passage_trial (hj : j < n) (h : Shape.Loose shapes j d)
    (hrange : ∀ i ∈ idx, 0 ≤ i ∧ i < n) (hmem : (j : Int) ∈ idx) :
    point (List.range n) (passage .standard (some idx) (trial n shapes j d)).store =
      (List.replicate n 0).set j d.goal := by
  rw [passage_trial hj h hrange hmem, point_trialStore hj rfl]

end Run

end MilpRounding
