import MilpRounding.Proofs.RationalRows
import MilpRounding.Proofs.StepSafety

namespace MilpRounding

open Scalar LawfulScalar

/-- A row with this weight loses room by a move in this direction. -/
def Direction.Resisted : Direction → ℚ → Prop
  | .up, w => 0 < w
  | .down, w => w < 0

theorem Direction.Resisted.ne_zero {d : Direction} {w : ℚ} (h : d.Resisted w) : w ≠ 0 := by
  cases d with
  | up => exact ne_of_gt h
  | down => exact ne_of_lt h

instance (d : Direction) (w : ℚ) : Decidable (d.Resisted w) :=
  match d with
  | .up => inferInstanceAs (Decidable (0 < w))
  | .down => inferInstanceAs (Decidable (w < 0))

def Direction.Leads : Direction → ℚ → ℚ → Prop
  | .up, p, q => p < q
  | .down, p, q => q < p

theorem minimum_finite (q : ℚ) (l : List ℚ) :
    ∃ m, minimum (.finite q) (l.map Exact.finite) = .finite m ∧
      (∀ p ∈ q :: l, m ≤ p) ∧ m ∈ q :: l := by
  induction l generalizing q with
  | nil => exact ⟨q, rfl, by simp, by simp⟩
  | cons p l ih =>
      have hleast : least (Exact.finite q) (.finite p) = .finite (min q p) := by
        rw [least]
        by_cases h : q < p
        · simp [h, h.le]
        · simp [h, not_lt.mp h]
      obtain ⟨m, hm, hle, hmem⟩ := ih (min q p)
      refine ⟨m, ?_, ?_, ?_⟩
      · rw [minimum, List.map_cons, List.foldl_cons, hleast]
        exact hm
      · have := hle (min q p) (by simp)
        intro r hr
        simp only [List.mem_cons] at hr
        rcases hr with rfl | rfl | hr
        · exact this.trans (min_le_left _ _)
        · exact this.trans (min_le_right _ _)
        · exact hle r (by simp [hr])
      · rcases List.mem_cons.mp hmem with rfl | hmem
        · rcases min_choice q p with h | h <;> simp [h]
        · simp [hmem]

theorem leastOrZero_finite (l : List ℚ) :
    ∃ m, Tableau.leastOrZero (l.map Exact.finite) = .finite m ∧ (∀ p ∈ l, m ≤ p) ∧
      (m ∈ l ∨ l = [] ∧ m = 0) := by
  cases l with
  | nil => exact ⟨0, rfl, by simp, .inr ⟨rfl, rfl⟩⟩
  | cons q l =>
      obtain ⟨m, hm, hle, hmem⟩ := minimum_finite q l
      exact ⟨m, hm, hle, .inl hmem⟩

namespace Tableau

variable {y : Tableau Exact} {s : Store Exact} {j : Nat}

def limit {α : Type} [Scalar α] (y : Tableau α) (s : Store α) (j : Nat) : Direction → α
  | .up => y.limitUp s j
  | .down => y.limitDown s j

def weight (r : Row Exact) (j : Nat) : ℚ := r.weights.getD j 0

def point (y : Tableau Exact) (s : Store Exact) : List ℚ := MilpRounding.point y.columns s

theorem values_eq (hs : s.Sound) : y.values s = (y.point s).map Exact.finite :=
  valuesAt_eq hs y.columns

def ratios (y : Tableau Exact) (s : Store Exact) (j : Nat) (d : Direction) : List ℚ :=
  y.rows.filterMap fun r =>
    if d.Resisted (weight r j) then some (r.room (y.point s) / |weight r j|) else none

theorem toRat_variableAt {q : ℚ} (hq : (y.variableAt s j).value = .finite q) :
    (y.variableAt s j).value.toRat = q := by
  rw [hq]
  rfl

theorem getD_point_of_value (hj : j < y.columns.length) {q : ℚ}
    (hq : (y.variableAt s j).value = .finite q) : (y.point s).getD j 0 = q := by
  rw [point, getD_point hj]
  exact toRat_variableAt hq

theorem ratio_up {p w : ℚ} :
    (if (0 : Exact) < .finite w then some (Exact.finite p / .finite w) else none) =
      (if Direction.up.Resisted w then some (p / |w|) else none).map Exact.finite := by
  by_cases h : 0 < w
  · have hlt : (0 : Exact) < .finite w := by simpa using h
    rw [if_pos hlt, if_pos (show Direction.up.Resisted w from h), abs_of_pos h,
      Exact.finite_div_finite p h.ne', Option.map_some]
  · have hlt : ¬ (0 : Exact) < .finite w := by simpa using h
    rw [if_neg hlt, if_neg (show ¬ Direction.up.Resisted w from h), Option.map_none]

theorem ratio_down {p w : ℚ} :
    (if Exact.finite w < 0 then some (-Exact.finite p / .finite w) else none) =
      (if Direction.down.Resisted w then some (p / |w|) else none).map Exact.finite := by
  by_cases h : w < 0
  · have hlt : Exact.finite w < 0 := by simpa using h
    rw [if_pos hlt, if_pos (show Direction.down.Resisted w from h), abs_of_neg h,
      Exact.neg_finite, Exact.finite_div_finite (-p) h.ne, Option.map_some, neg_div, div_neg]
  · have hlt : ¬ Exact.finite w < 0 := by simpa using h
    rw [if_neg hlt, if_neg (show ¬ Direction.down.Resisted w from h), Option.map_none]

theorem limit_eq (hs : s.Sound) (hr : ∀ r ∈ y.rows, r.Rational) (d : Direction) :
    y.limit s j d = leastOrZero ((y.ratios s j d).map Exact.finite) := by
  cases d with
  | up =>
      rw [limit, limitUp, ratios, List.map_filterMap]
      congr 1
      refine List.filterMap_congr fun r hmem => ?_
      rw [values_eq hs, (hr r hmem).slack_eq, (hr r hmem).entry_eq]
      exact ratio_up
  | down =>
      rw [limit, limitDown, ratios, List.map_filterMap]
      congr 1
      refine List.filterMap_congr fun r hmem => ?_
      rw [values_eq hs, (hr r hmem).slack_eq, (hr r hmem).entry_eq]
      exact ratio_down

/-- The limit is what the tightest resisting row allows, and zero without one. -/
theorem limit_spec (hs : s.Sound) (hr : ∀ r ∈ y.rows, r.Rational) (d : Direction) :
    ∃ m, y.limit s j d = .finite m ∧
      (∀ r ∈ y.rows, d.Resisted (weight r j) → m ≤ r.room (y.point s) / |weight r j|) ∧
      ((∃ r ∈ y.rows, d.Resisted (weight r j) ∧ m = r.room (y.point s) / |weight r j|) ∨
        (∀ r ∈ y.rows, ¬ d.Resisted (weight r j)) ∧ m = 0) := by
  obtain ⟨m, hm, hle, hmem⟩ := leastOrZero_finite (y.ratios s j d)
  refine ⟨m, by rw [limit_eq hs hr, hm], fun r hmem hres => ?_, ?_⟩
  · exact hle _ (List.mem_filterMap.mpr ⟨r, hmem, if_pos hres⟩)
  · rcases hmem with hmem | ⟨hnil, rfl⟩
    · obtain ⟨r, hmem, hsome⟩ := List.mem_filterMap.mp hmem
      split at hsome
      next hres => exact .inl ⟨r, hmem, hres, (Option.some.inj hsome).symm⟩
      next => cases hsome
    · refine .inr ⟨fun r hmem hres => ?_, rfl⟩
      have := List.filterMap_eq_nil_iff.mp hnil r hmem
      rw [if_pos hres] at this
      cases this

end Tableau

theorem lesser_finite (p q : ℚ) : lesser (Exact.finite p) (.finite q) = .finite (min p q) := by
  rw [lesser]
  by_cases h : q < p
  · simp [h, h.le]
  · simp [h, not_lt.mp h]

theorem greater_finite (p q : ℚ) : greater (Exact.finite p) (.finite q) = .finite (max p q) := by
  rw [greater]
  by_cases h : p < q
  · simp [h, h.le]
  · simp [h, not_lt.mp h]

theorem gap_finite (q : ℚ) : gap (Exact.finite q) = .finite (min (q - ⌊q⌋) (⌈q⌉ - q)) := by
  rw [gap, Exact.underneath_finite, Exact.above_finite, Exact.finite_sub_finite,
    Exact.finite_sub_finite, lesser_finite]

theorem isWhole_finite (q : ℚ) : isWhole (Exact.finite q) = true ↔ ∃ z : ℤ, q = z :=
  isWhole_iff_denote.trans (exists_congr fun _ => Exact.finite.injEq _ _ ▸ Iff.rfl)

theorem step_of_posInf (m w : ℚ) :
    greater 0 (lesser (lesser Exact.posInf (.finite m)) (.finite w)) =
      .finite (max 0 (min m w)) := by
  rw [show lesser Exact.posInf (.finite m) = .finite m from rfl, lesser_finite, Exact.zero_eq,
    greater_finite]

theorem step_of_pos (bound : Exact) (m w : ℚ) :
    ∃ σ, greater 0 (lesser (lesser bound (.finite m)) (.finite w)) = .finite σ ∧ 0 ≤ σ ∧
      ∀ t, 0 < t → (t ≤ σ ↔ .finite t ≤ bound ∧ t ≤ m ∧ t ≤ w) := by
  cases bound with
  | finite b =>
      refine ⟨max 0 (min (min b m) w), ?_, le_max_left _ _, fun t ht => ?_⟩
      · rw [lesser_finite, lesser_finite, Exact.zero_eq, greater_finite]
      · rw [le_max_iff, or_iff_right (not_le.mpr ht), le_min_iff, le_min_iff, and_assoc,
          Exact.finite_le_finite]
  | posInf =>
      refine ⟨max 0 (min m w), step_of_posInf m w, le_max_left _ _, fun t ht => ?_⟩
      rw [le_max_iff, or_iff_right (not_le.mpr ht), le_min_iff]
      exact (and_iff_right rfl).symm
  | undefined | negInf =>
      refine ⟨0, rfl, le_rfl, fun t ht => iff_of_false (not_le.mpr ht) ?_⟩
      rintro ⟨h, -⟩
      cases h

theorem step_spec (bound : Exact) (m w : ℚ) :
    ∃ σ, greater 0 (lesser (lesser bound (.finite m)) (.finite w)) = .finite σ ∧
      0 ≤ σ ∧ σ ≤ max 0 m := by
  obtain ⟨σ, hσ, h₀, hle⟩ := step_of_pos bound m w
  refine ⟨σ, hσ, h₀, ?_⟩
  rcases h₀.eq_or_lt with rfl | hpos
  · exact le_max_left _ _
  · exact le_max_of_le_right ((hle σ hpos).mp le_rfl).2.1

namespace Variable

variable {v : Variable Exact} {q σ : ℚ}

theorem continuous_sound (hk : v.kind = .continuous) (hq : v.value = .finite q)
    (hlow : ¬ v.value < v.low) (hhigh : ¬ v.high < v.value) : v.Sound := by
  refine ⟨admits_iff.mpr ⟨?_, hlow, hhigh⟩, fun hi => ?_⟩
  · rw [hq]
    rfl
  · rw [hk] at hi
    cases hi

theorem Sound.target_up (hv : v.Sound) (hq : v.value = .finite q) (hσ : 0 ≤ σ) :
    ∃ τ, v.target (.finite σ) .up = .finite τ ∧ q ≤ τ ∧ τ ≤ q + σ := by
  obtain ⟨-, -, hhigh⟩ := admits_iff.mp hv.admitted
  simp only [target, hq, Exact.above_finite, Exact.finite_sub_finite, Exact.finite_add_finite]
  split
  next hto =>
    simp only [Bool.and_eq_true] at hto
    have hway : σ = ⌈q⌉ - q := by simpa using Exact.eq_of_beq hto.1
    exact ⟨⌈q⌉, rfl, Int.le_ceil q, by linarith⟩
  next =>
    cases hh : v.high with
    | finite b =>
        rw [hh, hq, Exact.finite_lt_finite, not_lt] at hhigh
        exact ⟨min (q + σ) b, lesser_finite _ _, le_min (by linarith) hhigh, min_le_left _ _⟩
    | posInf => exact ⟨q + σ, rfl, by linarith, le_rfl⟩
    | undefined => exact ⟨q + σ, rfl, by linarith, le_rfl⟩
    | negInf =>
        rw [hh, hq] at hhigh
        exact absurd rfl hhigh

theorem Sound.target_down (hv : v.Sound) (hq : v.value = .finite q) (hσ : 0 ≤ σ) :
    ∃ τ, v.target (.finite σ) .down = .finite τ ∧ q - σ ≤ τ ∧ τ ≤ q := by
  obtain ⟨-, hlow, -⟩ := admits_iff.mp hv.admitted
  simp only [target, hq, Exact.underneath_finite, Exact.finite_sub_finite]
  split
  next hto =>
    simp only [Bool.and_eq_true] at hto
    have hway : σ = q - ⌊q⌋ := by simpa using Exact.eq_of_beq hto.1
    exact ⟨⌊q⌋, rfl, by linarith, Int.floor_le q⟩
  next =>
    cases hl : v.low with
    | finite b =>
        rw [hl, hq, Exact.finite_lt_finite, not_lt] at hlow
        exact ⟨max (q - σ) b, greater_finite _ _, le_max_left _ _, max_le (by linarith) hlow⟩
    | negInf => exact ⟨q - σ, rfl, le_rfl, by linarith⟩
    | undefined => exact ⟨q - σ, rfl, le_rfl, by linarith⟩
    | posInf =>
        rw [hl, hq] at hlow
        exact absurd rfl hlow

end Variable

namespace Tableau

variable {y : Tableau Exact} {s : Store Exact} {j : Nat}

def targetTo {α : Type} [Scalar α] (y : Tableau α) (s : Store α) (j : Nat) : Direction → α
  | .up => y.targetUp s j
  | .down => y.targetDown s j

theorem targetTo_spec (hs : s.Sound) {d : Direction} {m q : ℚ} (hm : y.limit s j d = .finite m)
    (hq : (y.variableAt s j).value = .finite q) :
    ∃ τ, y.targetTo s j d = .finite τ ∧ |τ - q| ≤ max 0 m ∧ (τ ≠ q → d.Leads q τ) := by
  have hv := y.variableAt_sound hs j
  cases d with
  | up =>
      obtain ⟨σ, hσ, h₀, hle⟩ := step_spec ((y.variableAt s j).high - .finite q) m (⌈q⌉ - q)
      have hstep : y.reachUp s j = .finite σ := by
        rw [← hσ, reachUp, hq, Exact.above_finite, Exact.finite_sub_finite,
          show y.limitUp s j = .finite m from hm]
      obtain ⟨τ, hτ, hlo, hhi⟩ := hv.target_up hq h₀
      refine ⟨τ, by rw [targetTo, targetUp, hstep, hτ], ?_, fun hne => ?_⟩
      · rw [abs_of_nonneg (by linarith)]
        linarith
      · exact lt_of_le_of_ne hlo (Ne.symm hne)
  | down =>
      obtain ⟨σ, hσ, h₀, hle⟩ := step_spec (.finite q - (y.variableAt s j).low) m (q - ⌊q⌋)
      have hstep : y.reachDown s j = .finite σ := by
        rw [← hσ, reachDown, hq, Exact.underneath_finite, Exact.finite_sub_finite,
          show y.limitDown s j = .finite m from hm]
      obtain ⟨τ, hτ, hlo, hhi⟩ := hv.target_down hq h₀
      refine ⟨τ, by rw [targetTo, targetDown, hstep, hτ], ?_, fun hne => ?_⟩
      · rw [abs_of_nonpos (by linarith)]
        linarith
      · exact lt_of_le_of_ne hhi hne

theorem targetTo_of_choice {t : Exact} (h : y.choice s j = some t) :
    ∃ d, t = y.targetTo s j d ∧ gap t < gap (y.variableAt s j).value := by
  obtain ⟨rfl | rfl, hgap⟩ := choice_eq_some h
  · exact ⟨.up, rfl, hgap⟩
  · exact ⟨.down, rfl, hgap⟩

/-- A move of a column goes one way, against rows that resist, each of which has the room. -/
theorem choice_spec (hs : s.Sound) (hr : ∀ r ∈ y.rows, r.Rational) {t : Exact}
    (h : y.choice s j = some t) {q : ℚ} (hq : (y.variableAt s j).value = .finite q) :
    ∃ d τ, t = .finite τ ∧ Direction.Leads d q τ ∧ (∃ r ∈ y.rows, d.Resisted (weight r j)) ∧
      ∀ r ∈ y.rows, d.Resisted (weight r j) → |weight r j| * |τ - q| ≤ r.room (y.point s) := by
  obtain ⟨d, hd, hgap⟩ := targetTo_of_choice h
  obtain ⟨m, hm, hle, htight⟩ := limit_spec hs hr d
  obtain ⟨τ, hτ, habs, hleads⟩ := targetTo_spec hs hm hq
  have hne : τ ≠ q := by
    rintro rfl
    rw [hd, hτ, hq] at hgap
    exact Exact.lt_irrefl _ hgap
  have hpos : 0 < |τ - q| := abs_pos.mpr (sub_ne_zero.mpr hne)
  have hm₀ : 0 < m := (lt_max_iff.mp (hpos.trans_le habs)).resolve_left (lt_irrefl 0)
  rw [max_eq_right hm₀.le] at habs
  refine ⟨d, τ, hd.trans hτ, hleads hne, ?_, fun r hmem hres => ?_⟩
  · obtain ⟨r, hmem, hres, -⟩ | ⟨-, rfl⟩ := htight
    · exact ⟨r, hmem, hres⟩
    · exact absurd hm₀ (lt_irrefl 0)
  · rw [mul_comm, ← le_div_iff₀ (abs_pos.mpr hres.ne_zero)]
    exact habs.trans (hle r hmem hres)

end Tableau

end MilpRounding
