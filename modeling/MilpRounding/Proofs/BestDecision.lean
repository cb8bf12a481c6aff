import Mathlib.Algebra.Order.Round
import MilpRounding.Proofs.InequalityRows
import MilpRounding.Proofs.MirroredSteps

namespace MilpRounding

open Scalar

def integerDistance (q : ℚ) : ℚ := |q - round q|

theorem integerDistance_eq {q : ℚ} {z : ℤ} (hlo : (z : ℚ) ≤ q) (hhi : q ≤ z + 1) :
    integerDistance q = min (q - z) (z + 1 - q) := by
  rcases eq_or_lt_of_le hhi with rfl | hlt
  · have hround : round ((z : ℚ) + 1) = z + 1 := by exact_mod_cast round_intCast (α := ℚ) (z + 1)
    rw [integerDistance, hround]
    simp
  · have hfract : Int.fract q = q - z := by rw [Int.fract, Int.floor_eq_iff.mpr ⟨hlo, hlt⟩]
    rw [integerDistance, abs_sub_round_eq_min, hfract]
    congr 1
    ring

theorem gap_eq_integerDistance (q : ℚ) : gap (Exact.finite q) = .finite (integerDistance q) := by
  rw [gap_finite]
  congr 1
  by_cases h : (⌊q⌋ : ℚ) = q
  · have hceil : ⌈q⌉ = ⌊q⌋ := by rw [← h, Int.ceil_intCast, Int.floor_intCast]
    rw [integerDistance_eq (Int.floor_le q) (Int.lt_floor_add_one q).le, hceil, h]
    simp
  · have hceil : ⌈q⌉ = ⌊q⌋ + 1 := by
      rw [Int.ceil_eq_iff]
      push_cast
      exact ⟨by linarith [lt_of_le_of_ne (Int.floor_le q) h], (Int.lt_floor_add_one q).le⟩
    rw [integerDistance_eq (Int.floor_le q) (Int.lt_floor_add_one q).le, hceil]
    push_cast
    rfl

/-- Between two integers no value of an interval is nearer to one than the nearer of the ends. -/
theorem min_integerDistance_le {p q u : ℚ} {z : ℤ} (hp : (z : ℚ) ≤ p) (hq : q ≤ z + 1) (hpu : p ≤ u)
    (huq : u ≤ q) : min (integerDistance p) (integerDistance q) ≤ integerDistance u := by
  rw [integerDistance_eq hp (hpu.trans (huq.trans hq)),
    integerDistance_eq (hp.trans (hpu.trans huq)) hq,
    integerDistance_eq (hp.trans hpu) (huq.trans hq)]
  refine le_min ?_ ?_
  · exact (min_le_left _ _).trans ((min_le_left _ _).trans (by linarith))
  · exact (min_le_right _ _).trans ((min_le_right _ _).trans (by linarith))

theorem Exact.le_sub_finite {t q : ℚ} {b : Exact} :
    finite t ≤ b - finite q ↔ finite (q + t) ≤ b := by
  cases b with
  | finite b =>
      rw [finite_sub_finite, finite_le_finite, finite_le_finite, le_sub_iff_add_le']
  | undefined | negInf | posInf => exact Iff.rfl

theorem Exact.le_finite_sub {t q : ℚ} {b : Exact} :
    finite t ≤ finite q - b ↔ b ≤ finite (q - t) := by
  cases b with
  | finite b =>
      rw [finite_sub_finite, finite_le_finite, finite_le_finite, le_sub_comm]
  | undefined | negInf | posInf => exact Iff.rfl

theorem step_of_nonneg {bound : Exact} {m w : ℚ} (hbound : .finite 0 ≤ bound) (hm : 0 ≤ m) (hw : 0 ≤ w) :
    ∃ σ, greater 0 (lesser (lesser bound (.finite m)) (.finite w)) = .finite σ ∧
      ∀ t, t ≤ σ ↔ .finite t ≤ bound ∧ t ≤ m ∧ t ≤ w := by
  obtain ⟨σ, hσ, h₀, hle⟩ := step_of_pos bound m w
  refine ⟨σ, hσ, fun t => ?_⟩
  rcases lt_or_ge 0 t with ht | ht
  · exact hle t ht
  · have hbelow : Exact.finite t ≤ bound := Exact.le_trans ((Exact.finite_le_finite t 0).mpr ht) hbound
    exact iff_of_true (ht.trans h₀) ⟨hbelow, ht.trans hm, ht.trans hw⟩

def Direction.ahead : Direction → ℚ → ℚ → ℚ
  | .up, q, t => q + t
  | .down, q, t => q - t

theorem Direction.Resisted.mul_ahead {d : Direction} {w : ℚ} (h : d.Resisted w) (q t : ℚ) :
    w * (d.ahead q t - q) = |w| * t := by
  cases d with
  | up => rw [abs_of_pos h, ahead, add_sub_cancel_left]
  | down => rw [abs_of_neg h, ahead, sub_sub_cancel_left, mul_neg, neg_mul]

/-- A row with this weight has the room for a step just if it does not resist, or if the step takes no
more than there is. -/
theorem Direction.mul_ahead_le_iff (d : Direction) {w p q t : ℚ} (ht : 0 ≤ t) (hp : 0 ≤ p) :
    w * (d.ahead q t - q) ≤ p ↔ (d.Resisted w → |w| * t ≤ p) := by
  by_cases h : d.Resisted w
  · rw [h.mul_ahead]
    exact (imp_iff_right h).symm
  · have hfree : w * (d.ahead q t - q) ≤ 0 := by
      cases d with
      | up =>
          rw [ahead, add_sub_cancel_left]
          exact mul_nonpos_of_nonpos_of_nonneg (not_lt.mp h) ht
      | down =>
          rw [ahead, sub_sub_cancel_left]
          exact mul_nonpos_of_nonneg_of_nonpos (not_lt.mp h) (neg_nonpos.mpr ht)
    exact iff_of_true (hfree.trans hp) fun hres => absurd hres h

def Direction.toInteger : Direction → ℚ → ℚ
  | .up, q => ⌈q⌉ - q
  | .down, q => q - ⌊q⌋

theorem Direction.toInteger_nonneg (d : Direction) (q : ℚ) : 0 ≤ d.toInteger q := by
  cases d with
  | up => exact sub_nonneg.mpr (Int.le_ceil q)
  | down => exact sub_nonneg.mpr (Int.floor_le q)

namespace Variable

variable {v : Variable Exact} {q σ : ℚ}

def headroom (v : Variable Exact) : Direction → Exact
  | .up => v.high - v.value
  | .down => v.value - v.low

theorem headroom_nonneg (hq : v.value = .finite q) (hlow : v.low ≤ .finite q)
    (hhigh : .finite q ≤ v.high) (d : Direction) : .finite 0 ≤ v.headroom d := by
  cases d with
  | up =>
      rw [headroom, hq, Exact.le_sub_finite, add_zero]
      exact hhigh
  | down =>
      rw [headroom, hq, Exact.le_finite_sub, sub_zero]
      exact hlow

theorem target_eq (hq : v.value = .finite q) {d : Direction} (h : .finite σ ≤ v.headroom d) :
    v.target (.finite σ) d = .finite (d.ahead q σ) := by
  cases d with
  | up =>
      rw [headroom, hq, Exact.le_sub_finite] at h
      simp only [target, hq, Exact.above_finite, Exact.finite_sub_finite, Exact.finite_add_finite]
      split
      next hto =>
        rw [Bool.and_eq_true, Exact.finite_beq_finite, decide_eq_true_eq] at hto
        rw [hto.1, Direction.ahead, add_sub_cancel]
      next => exact if_neg (Exact.not_lt_of_le h)
  | down =>
      rw [headroom, hq, Exact.le_finite_sub] at h
      simp only [target, hq, Exact.underneath_finite, Exact.finite_sub_finite]
      split
      next hto =>
        rw [Bool.and_eq_true, Exact.finite_beq_finite, decide_eq_true_eq] at hto
        rw [hto.1, Direction.ahead, sub_sub_cancel]
      next => exact if_neg (Exact.not_lt_of_le h)

end Variable

theorem Row.left_le_iff {r : Row Exact} (hr : r.Rational) (hb : r.relation.isBelow = true)
    (x : List ℚ) : r.left (x.map Exact.finite) ≤ r.rhs ↔ 0 ≤ r.room x := by
  have hne := Relation.ne_eq_of_isBelow hb
  rw [hr.left_eq, Exact.eq_finite hr.rhs, Exact.finite_le_finite, room, if_neg hne, if_pos hb,
    sub_nonneg]

namespace Tableau

variable {y : Tableau Exact} {s : Store Exact} {j : Nat}

/-- What a column may become by a decision, as far as the rows and its bounds are concerned. -/
structure Allows (y : Tableau Exact) (s : Store Exact) (j : Nat) (u : ℚ) : Prop where
  floor_le : ⌊(y.variableAt s j).value.toRat⌋ ≤ u
  le_ceil : u ≤ ⌈(y.variableAt s j).value.toRat⌉
  low_le : (y.variableAt s j).low ≤ .finite u
  le_high : .finite u ≤ (y.variableAt s j).high
  rows : ∀ r ∈ y.rows, r.left ((y.values s).set j (.finite u)) ≤ r.rhs

/-- A column between bounds that are defined, under satisfied rows that hold it from both sides. -/
structure Held (y : Tableau Exact) (s : Store Exact) (j : Nat) : Prop where
  column : j < y.columns.length
  below : ∀ r ∈ y.rows, r.relation.isBelow = true
  slack : ∀ r ∈ y.rows, 0 ≤ r.slack (y.values s)
  above : ∃ r ∈ y.rows, 0 < entry r j
  under : ∃ r ∈ y.rows, entry r j < 0
  low : isNaN (y.variableAt s j).low = false
  high : isNaN (y.variableAt s j).high = false

namespace Held

theorem room_nonneg (h : y.Held s j) (hs : s.Sound) (hy : y.Prepared) {r : Row Exact}
    (hr : r ∈ y.rows) : 0 ≤ r.room (y.point s) := by
  have hslack := h.slack r hr
  rw [values_eq hs, (hy.rational r hr).slack_eq] at hslack
  exact (Exact.finite_le_finite _ _).mp hslack

theorem exists_resisted (h : y.Held s j) (hy : y.Prepared) (d : Direction) :
    ∃ r ∈ y.rows, d.Resisted (weight r j) := by
  cases d with
  | up =>
      obtain ⟨r, hr, hpos⟩ := h.above
      rw [(hy.rational r hr).entry_eq] at hpos
      exact ⟨r, hr, (Exact.finite_lt_finite _ _).mp hpos⟩
  | down =>
      obtain ⟨r, hr, hneg⟩ := h.under
      rw [(hy.rational r hr).entry_eq] at hneg
      exact ⟨r, hr, (Exact.finite_lt_finite _ _).mp hneg⟩

theorem limit_spec (h : y.Held s j) (hs : s.Sound) (hy : y.Prepared) (d : Direction) :
    ∃ m, y.limit s j d = .finite m ∧ 0 ≤ m ∧ ∀ t, t ≤ m ↔
      ∀ r ∈ y.rows, d.Resisted (weight r j) → |weight r j| * t ≤ r.room (y.point s) := by
  obtain ⟨m, hm, hle, htight⟩ := Tableau.limit_spec hs hy.rational d
  obtain ⟨r₀, hr₀, hres₀, rfl⟩ : ∃ r ∈ y.rows, d.Resisted (weight r j) ∧
      m = r.room (y.point s) / |weight r j| := by
    refine htight.resolve_right fun hfree => ?_
    obtain ⟨r, hr, hres⟩ := h.exists_resisted hy d
    exact hfree.1 r hr hres
  refine ⟨_, hm, div_nonneg (h.room_nonneg hs hy hr₀) (abs_nonneg _), fun t => ?_⟩
  constructor
  · intro ht r hr hres
    rw [mul_comm, ← le_div_iff₀ (abs_pos.mpr hres.ne_zero)]
    exact ht.trans (hle r hr hres)
  · intro hall
    rw [le_div_iff₀ (abs_pos.mpr hres₀.ne_zero), mul_comm]
    exact hall r₀ hr₀ hres₀

theorem left_ahead_le_iff (h : y.Held s j) (hs : s.Sound) (hy : y.Prepared) {q : ℚ}
    (hq : (y.variableAt s j).value = .finite q) (d : Direction) {t : ℚ} (ht : 0 ≤ t) {r : Row Exact}
    (hr : r ∈ y.rows) : r.left ((y.values s).set j (.finite (d.ahead q t))) ≤ r.rhs ↔
      (d.Resisted (weight r j) → |weight r j| * t ≤ r.room (y.point s)) := by
  have hj : j < (y.point s).length := by simpa [point] using h.column
  rw [values_eq hs, ← List.map_set, Row.left_le_iff (hy.rational r hr) (h.below r hr),
    Row.room_set (h.below r hr) hj, getD_point_of_value h.column hq, sub_nonneg,
    d.mul_ahead_le_iff ht (h.room_nonneg hs hy hr)]

/-- Bound, integer and rows are all that stands in the way of a step. -/
theorem allows_ahead_iff (h : y.Held s j) (hs : s.Sound) {q : ℚ}
    (hq : (y.variableAt s j).value = .finite q) (d : Direction) {t : ℚ} (ht : 0 ≤ t) :
    y.Allows s j (d.ahead q t) ↔ .finite t ≤ (y.variableAt s j).headroom d ∧
      (∀ r ∈ y.rows, r.left ((y.values s).set j (.finite (d.ahead q t))) ≤ r.rhs) ∧
      t ≤ d.toInteger q := by
  have hlow := (y.variableAt_sound hs j).low_le h.low
  have hhigh := (y.variableAt_sound hs j).le_high h.high
  have hrat := toRat_variableAt hq
  rw [hq] at hlow hhigh
  -- behind the value a step ahead passes neither the bound nor the integer
  cases d with
  | up =>
      rw [Variable.headroom, hq, Exact.le_sub_finite, Direction.toInteger, le_sub_iff_add_le']
      constructor
      · intro hall
        exact ⟨hall.le_high, hall.rows, hrat ▸ hall.le_ceil⟩
      · rintro ⟨hb, hr, hway⟩
        have hle : q ≤ q + t := le_add_of_nonneg_right ht
        refine ⟨?_, ?_, ?_, hb, hr⟩
        · rw [hrat]
          exact (Int.floor_le q).trans hle
        · rw [hrat]
          exact hway
        · exact Exact.le_trans hlow ((Exact.finite_le_finite _ _).mpr hle)
  | down =>
      rw [Variable.headroom, hq, Exact.le_finite_sub, Direction.toInteger, le_sub_comm]
      constructor
      · intro hall
        exact ⟨hall.low_le, hall.rows, hrat ▸ hall.floor_le⟩
      · rintro ⟨hb, hr, hway⟩
        have hle : q - t ≤ q := sub_le_self q ht
        refine ⟨?_, ?_, hb, ?_, hr⟩
        · rw [hrat]
          exact hway
        · rw [hrat]
          exact hle.trans (Int.le_ceil q)
        · exact Exact.le_trans ((Exact.finite_le_finite _ _).mpr hle) hhigh

theorem targetTo_of_limit {q m : ℚ} (hq : (y.variableAt s j).value = .finite q) {d : Direction}
    (hm : y.limit s j d = .finite m) :
    y.targetTo s j d = (y.variableAt s j).target (greater 0 (lesser
      (lesser ((y.variableAt s j).headroom d) (.finite m)) (.finite (d.toInteger q)))) d := by
  cases d with
  | up =>
      rw [targetTo, targetUp, reachUp, show y.limitUp s j = .finite m from hm, Variable.headroom, hq,
        Exact.above_finite, Exact.finite_sub_finite, Direction.toInteger]
  | down =>
      rw [targetTo, targetDown, reachDown, show y.limitDown s j = .finite m from hm,
        Variable.headroom, hq, Exact.underneath_finite, Exact.finite_sub_finite, Direction.toInteger]

theorem targetTo_eq (h : y.Held s j) (hs : s.Sound) (hy : y.Prepared) {q : ℚ}
    (hq : (y.variableAt s j).value = .finite q) (d : Direction) :
    ∃ σ, 0 ≤ σ ∧ y.targetTo s j d = .finite (d.ahead q σ) ∧
      ∀ t, 0 ≤ t → (t ≤ σ ↔ y.Allows s j (d.ahead q t)) := by
  have hv := y.variableAt_sound hs j
  have hroom := Variable.headroom_nonneg hq (hq ▸ hv.low_le h.low) (hq ▸ hv.le_high h.high) d
  obtain ⟨m, hm, hm₀, hlimit⟩ := h.limit_spec hs hy d
  obtain ⟨σ, hσ, hle⟩ := step_of_nonneg hroom hm₀ (d.toInteger_nonneg q)
  refine ⟨σ, (hle 0).mpr ⟨hroom, hm₀, d.toInteger_nonneg q⟩, ?_, fun t ht => ?_⟩
  · rw [targetTo_of_limit hq hm, hσ]
    exact Variable.target_eq hq ((hle σ).mp le_rfl).1
  · have hrows : t ≤ m ↔
        ∀ r ∈ y.rows, r.left ((y.values s).set j (.finite (d.ahead q t))) ≤ r.rhs := by
      rw [hlimit]
      exact forall₂_congr fun r hr => (h.left_ahead_le_iff hs hy hq d ht hr).symm
    rw [hle, h.allows_ahead_iff hs hq d ht, hrows]

/-- The targets are the least and the greatest value that the column may take. -/
theorem allowed_between (h : y.Held s j) (hs : s.Sound) (hy : y.Prepared) :
    ∃ τ : Direction → ℚ, (∀ d, y.targetTo s j d = .finite (τ d) ∧ y.Allows s j (τ d)) ∧
      ∀ u, y.Allows s j u → τ .down ≤ u ∧ u ≤ τ .up := by
  obtain ⟨q, hq⟩ := (y.variableAt_sound hs j).finite
  choose σ hσ₀ htarget hle using h.targetTo_eq hs hy hq
  refine ⟨fun d => d.ahead q (σ d), fun d => ⟨htarget d, (hle d _ (hσ₀ d)).mp le_rfl⟩, fun u hu => ?_⟩
  simp only [Direction.ahead]
  rcases le_total q u with hqu | huq
  · have hup : u - q ≤ σ .up := by
      rw [hle .up _ (sub_nonneg.mpr hqu), Direction.ahead, add_sub_cancel]
      exact hu
    exact ⟨by linarith [hσ₀ .down], by linarith⟩
  · have hdown : q - u ≤ σ .down := by
      rw [hle .down _ (sub_nonneg.mpr huq), Direction.ahead, sub_sub_cancel]
      exact hu
    exact ⟨by linarith, by linarith [hσ₀ .up]⟩

end Held

theorem Held.allows_now (h : y.Held s j) (hs : s.Sound) (hy : y.Prepared) {q : ℚ}
    (hq : (y.variableAt s j).value = .finite q) : y.Allows s j q := by
  obtain ⟨σ, hσ, -, hle⟩ := h.targetTo_eq hs hy hq .up
  have hnow := (hle 0 le_rfl).mp hσ
  rwa [Direction.ahead, add_zero] at hnow

theorem choose_least (preference : Direction) (now : ℚ) (gaps : Direction → ℚ) :
    (∀ d, choose preference (Exact.finite now) (.finite (gaps .up)) (.finite (gaps .down)) = some d →
      gaps d ≤ min (gaps .up) (gaps .down)) ∧
    (choose preference (Exact.finite now) (.finite (gaps .up)) (.finite (gaps .down)) = none →
      now ≤ min (gaps .up) (gaps .down)) := by
  simp only [choose, Exact.finite_beq_finite, Exact.finite_lt_finite, Bool.and_eq_true,
    decide_eq_true_eq]
  constructor
  · intro d hd
    split_ifs at hd with htie hup hdown <;> cases hd
    · cases preference with
      | up => exact le_min le_rfl htie.1.le
      | down => exact le_min htie.1.ge le_rfl
    · exact le_min le_rfl hup.1.le
    · exact le_min hdown.1.le le_rfl
  · intro hd
    split_ifs at hd with htie hup hdown
    rcases lt_trichotomy (gaps .up) (gaps .down) with hlt | heq | hgt
    · have hnow : now ≤ gaps .up := not_lt.mp fun k => hup ⟨hlt, k⟩
      exact le_min hnow (hnow.trans hlt.le)
    · have hnow : now ≤ gaps .up := not_lt.mp fun k => htie ⟨heq, k⟩
      exact le_min hnow (hnow.trans_eq heq)
    · have hnow : now ≤ gaps .down := not_lt.mp fun k => hdown ⟨hgt, k⟩
      exact le_min (hnow.trans hgt.le) hnow

/-- The choice falls on the target that is nearer to an integer, and on none only if neither is nearer
than the value. -/
theorem choice_nearest {q : ℚ} {τ : Direction → ℚ} (hq : (y.variableAt s j).value = .finite q)
    (hτ : ∀ d, y.targetTo s j d = .finite (τ d)) :
    (∀ t, y.choice s j = some t → ∃ d, t = .finite (τ d) ∧
      integerDistance (τ d) ≤ min (integerDistance (τ .up)) (integerDistance (τ .down))) ∧
    (y.choice s j = none →
      integerDistance q ≤ min (integerDistance (τ .up)) (integerDistance (τ .down))) := by
  have hchoice : y.choice s j = (choose (y.preference j) (Exact.finite (integerDistance q))
      (.finite (integerDistance (τ .up))) (.finite (integerDistance (τ .down)))).map
        (y.targetTo s j) := by
    rw [choice_eq_map, hq, hτ, hτ, gap_eq_integerDistance, gap_eq_integerDistance,
      gap_eq_integerDistance]
  obtain ⟨hsome, hnone⟩ := choose_least (y.preference j) (integerDistance q)
    fun d => integerDistance (τ d)
  rw [hchoice]
  constructor
  · intro t ht
    obtain ⟨d, hd, rfl⟩ := Option.map_eq_some_iff.mp ht
    exact ⟨d, hτ d, hsome d hd⟩
  · intro hn
    exact hnone (Option.map_eq_none_iff.mp hn)

theorem Held.choice_least (h : y.Held s j) (hs : s.Sound) (hy : y.Prepared) {q : ℚ}
    (hq : (y.variableAt s j).value = .finite q) :
    (∀ t, y.choice s j = some t → ∃ w, t = .finite w ∧ y.Allows s j w ∧
      ∀ u, y.Allows s j u → integerDistance w ≤ integerDistance u) ∧
    (y.choice s j = none → ∀ u, y.Allows s j u → integerDistance q ≤ integerDistance u) := by
  obtain ⟨τ, hτ, hends⟩ := h.allowed_between hs hy
  have hleast {u : ℚ} (hu : y.Allows s j u) :
      min (integerDistance (τ .up)) (integerDistance (τ .down)) ≤ integerDistance u := by
    obtain ⟨hlo, hhi⟩ := hends u hu
    have hceil : (⌈(y.variableAt s j).value.toRat⌉ : ℚ) ≤ ⌊(y.variableAt s j).value.toRat⌋ + 1 := by
      exact_mod_cast Int.ceil_le_floor_add_one _
    rw [min_comm]
    exact min_integerDistance_le (hτ .down).2.floor_le ((hτ .up).2.le_ceil.trans hceil) hlo hhi
  obtain ⟨hsome, hnone⟩ := choice_nearest hq fun d => (hτ d).1
  constructor
  · intro t ht
    obtain ⟨d, rfl, hd⟩ := hsome t ht
    exact ⟨τ d, rfl, (hτ d).2, fun u hu => hd.trans (hleast hu)⟩
  · exact fun hn u hu => (hnone hn).trans (hleast hu)

theorem getElem?_values (hj : j < y.columns.length) (s : Store Exact) :
    (y.values s)[j]? = some (y.variableAt s j).value := by
  simp [values, valuesAt, variableAt, ref, Store.value, hj]

theorem values_next (hy : y.Prepared) (hs : s.Sound) (hj : j < y.columns.length) {w : ℚ}
    (h : y.choice s j = some (.finite w)) :
    y.values (y.next s j).1 = (y.values s).set j (.finite w) := by
  rw [values_eq (next_sound hs y j), point_next hy hs hj h, List.map_set, values_eq hs]
  rfl

end Tableau

theorem Scene.Rational.prepared {c : Scene Exact} (hc : c.Rational) {y : Tableau Exact}
    (hy : c.model.requireTableau = .ok y)
    (horiented : ∀ r ∈ y.rows, r.relation = .eq ∨ r.relation.isBelow = true) : y.Prepared := by
  obtain ⟨hcolumns, hrows⟩ := Model.parts_of_requireTableau hy
  refine ⟨?_, ?_, horiented⟩
  · simpa [hcolumns] using hc.distinct
  · simpa [hrows] using hc.rows

/-- A decision about a column that is held from both sides leaves it at a value that it may take, under
satisfied rows, and at the one of these that is nearest to an integer. It leaves the value alone only if
none of these is nearer. -/
theorem decision_best {c : Scene Exact} (hc : c.Rational) {y : Tableau Exact}
    (hy : c.model.requireTableau = .ok y) {j : Nat} (h : y.Held c.store j) :
    ∃ moved c' w, (Rounding.roundColumn y j).run c = .ok moved c' ∧
      (y.variableAt c'.store j).value = .finite w ∧
      y.values c'.store = (y.values c.store).set j (.finite w) ∧
      y.Allows c.store j w ∧ (∀ r ∈ y.rows, r.left (y.values c'.store) ≤ r.rhs) ∧
      (∀ u, y.Allows c.store j u → integerDistance w ≤ integerDistance u) ∧
      (moved = false → ∀ u, y.Allows c.store j u →
        ¬ integerDistance u < integerDistance (y.variableAt c.store j).value.toRat) := by
  have hprepared := hc.prepared hy fun r hr => .inr (h.below r hr)
  obtain ⟨q, hq⟩ : ∃ q, (y.variableAt c.store j).value = .finite q :=
    (y.variableAt_sound hc.sound j).finite
  obtain ⟨hsome, hnone⟩ := h.choice_least hc.sound hprepared hq
  have hrun := roundColumn_run y j hc.sound
  have hlength : j < (y.values c.store).length := by
    simpa [Tableau.values, valuesAt] using h.column
  cases hchoice : y.choice c.store j with
  | none =>
      have hbest := hnone hchoice
      have hallowed := h.allows_now hc.sound hprepared hq
      have hstays : y.values c.store = (y.values c.store).set j (.finite q) := by
        have hat := y.getElem?_values h.column c.store
        rw [List.getElem?_eq_getElem hlength, Option.some.injEq, hq] at hat
        rw [← hat, List.set_getElem_self]
      rw [Tableau.next, hchoice] at hrun
      refine ⟨false, c, q, hrun, hq, hstays, hallowed, ?_, hbest, fun _ u hu => ?_⟩
      · rw [hstays]
        exact hallowed.rows
      · rw [hq]
        exact not_lt.mpr (hbest u hu)
  | some t =>
      obtain ⟨w, rfl, hallowed, hbest⟩ := hsome t hchoice
      have hvalues := y.values_next hprepared hc.sound h.column hchoice
      have hvalue := y.getElem?_values h.column (y.next c.store j).1
      rw [hvalues, List.getElem?_set_self hlength, Option.some.injEq] at hvalue
      have hmoved : (y.next c.store j).2 = true := by rw [Tableau.next, hchoice]
      refine ⟨_, _, w, hrun, hvalue.symm, hvalues, hallowed, ?_, hbest, fun hstays => ?_⟩
      · rw [hvalues]
        exact hallowed.rows
      · rw [hmoved] at hstays
        cases hstays

def between : Scene Exact where
  store := halves.store
  model :=
    { columns := some [0, 1]
      rows := some [⟨[.finite 1, .finite 1], .lt, .finite (3 / 2)⟩,
        ⟨[.finite (-1), .finite 2], .le, .finite (3 / 4)⟩] }

theorem decision_best_between :
    ∃ y moved c' w, between.model.requireTableau = .ok y ∧
      (Rounding.roundColumn y 0).run between = .ok moved c' ∧
      (y.variableAt c'.store 0).value = .finite w ∧ y.Allows between.store 0 w ∧
      ∀ u, y.Allows between.store 0 u → integerDistance w ≤ integerDistance u := by
  have hc : between.Rational := ⟨halves_rational.sound, by decide, by decide⟩
  have h : Tableau.Held ⟨[0, 1], between.model.rows.getD [], none⟩ between.store 0 :=
    ⟨by decide, by decide, by decide +kernel, by decide +kernel, by decide +kernel, rfl, rfl⟩
  obtain ⟨moved, c', w, hrun, hvalue, -, hallowed, -, hbest, -⟩ := decision_best hc rfl h
  exact ⟨_, moved, c', w, rfl, hrun, hvalue, hallowed, hbest⟩

end MilpRounding
