import MilpRounding.Proofs.ExactOrder

namespace MilpRounding

open Scalar

class LawfulScalar (α : Type) [Scalar α] where
  /-- The exact number that a scalar stands for. -/
  denote : α → Exact
  round : ℚ → Exact
  lt_iff_denote (a b : α) : a < b ↔ denote a < denote b
  le_iff_denote (a b : α) : a ≤ b ↔ denote a ≤ denote b
  beq_eq_denote (a b : α) : (a == b) = (denote a == denote b)
  isNaN_denote (a : α) : isNaN a = isNaN (denote a)
  isFinite_denote (a : α) : isFinite a = isFinite (denote a)
  denote_zero : denote 0 = .finite 0
  denote_one : denote (ofInt 1) = .finite 1
  denote_infinity : denote infinity = .posInf
  denote_neg (a : α) : denote (-a) = -denote a
  denote_add {a b : α} {p q : ℚ} : denote a = .finite p → denote b = .finite q →
    denote (a + b) = round (p + q)
  denote_sub {a b : α} {p q : ℚ} : denote a = .finite p → denote b = .finite q →
    denote (a - b) = round (p - q)
  denote_above {a : α} {q : ℚ} : denote a = .finite q → denote (above a) = .finite ⌈q⌉
  denote_underneath {a : α} {q : ℚ} : denote a = .finite q → denote (underneath a) = .finite ⌊q⌋
  round_mono {p q : ℚ} : p ≤ q → round p ≤ round q
  round_neg (q : ℚ) : round (-q) = -round q
  round_denote {a : α} {q : ℚ} : denote a = .finite q → round q = .finite q
  round_add_to_ceil {a : α} {q d : ℚ} : denote a = .finite q → round (⌈q⌉ - q) = .finite d →
    round (q + d) = .finite ⌈q⌉

instance : LawfulScalar Exact where
  denote a := a
  round := .finite
  lt_iff_denote _ _ := Iff.rfl
  le_iff_denote _ _ := Iff.rfl
  beq_eq_denote _ _ := rfl
  isNaN_denote _ := rfl
  isFinite_denote _ := rfl
  denote_zero := rfl
  denote_one := by simp
  denote_infinity := rfl
  denote_neg _ := rfl
  denote_add := by rintro _ _ p q rfl rfl; simp
  denote_sub := by rintro _ _ p q rfl rfl; simp
  denote_above := by rintro _ q rfl; simp
  denote_underneath := by rintro _ q rfl; simp
  round_mono h := by simpa using h
  round_neg _ := rfl
  round_denote _ := rfl
  round_add_to_ceil := by
    intro _ q d _ hd
    have hd' : ⌈q⌉ - q = d := by simpa using hd
    rw [← hd', add_sub_cancel]

class InvolutiveScalar (α : Type) [Scalar α] : Prop where
  neg_neg (a : α) : - -a = a

instance : InvolutiveScalar Exact := ⟨Exact.neg_neg⟩

theorem map_neg_neg {α : Type} [Scalar α] [InvolutiveScalar α] (x : List α) :
    (x.map (-·)).map (-·) = x := by
  rw [List.map_map]
  exact (List.map_congr_left fun a _ => InvolutiveScalar.neg_neg a).trans (List.map_id x)

namespace LawfulScalar

variable {α : Type} [Scalar α] [LawfulScalar α]

theorem isFinite_iff_denote {a : α} : isFinite a = true ↔ ∃ q, denote a = .finite q := by
  rw [isFinite_denote, Exact.isFinite_iff]

protected theorem le_of_lt {a b : α} (h : a < b) : a ≤ b := by
  rw [lt_iff_denote] at h
  rw [le_iff_denote]
  exact Exact.le_of_lt h

protected theorem le_trans {a b c : α} (h : a ≤ b) (k : b ≤ c) : a ≤ c := by
  rw [le_iff_denote] at h k ⊢
  exact Exact.le_trans h k

theorem not_lt_neg_infinity (a : α) : ¬ a < -infinity := by
  rw [lt_iff_denote, denote_neg, denote_infinity, Exact.neg_posInf, Exact.lt_iff]
  cases denote a <;> simp [Exact.less]

theorem not_infinity_lt (a : α) : ¬ infinity < a := by
  rw [lt_iff_denote, denote_infinity, Exact.lt_iff]
  cases denote a <;> simp [Exact.less]

theorem denote_eq_of_beq {a b : α} (h : (a == b) = true) : denote a = denote b := by
  rw [beq_eq_denote] at h
  exact Exact.eq_of_beq h

theorem round_zero : round α 0 = .finite 0 := round_denote denote_zero

theorem round_one : round α 1 = .finite 1 := round_denote denote_one

theorem round_unit {x : ℚ} (h₀ : 0 ≤ x) (h₁ : x ≤ 1) :
    ∃ d, round α x = .finite d ∧ 0 ≤ d ∧ d ≤ 1 := by
  have hlo := round_mono (α := α) h₀
  have hhi := round_mono (α := α) h₁
  rw [round_zero] at hlo
  rw [round_one] at hhi
  exact Exact.eq_finite_of_le_of_le hlo hhi

theorem denote_distance_up {a : α} {q : ℚ} (ha : denote a = .finite q) :
    ∃ d, denote (above a - a) = .finite d ∧ 0 ≤ d ∧ round α (q + d) = .finite ⌈q⌉ := by
  obtain ⟨d, hd, h₀, -⟩ := round_unit (α := α) (x := ⌈q⌉ - q)
    (by linarith [Int.le_ceil q]) (by linarith [Int.ceil_lt_add_one q])
  exact ⟨d, by rw [denote_sub (denote_above ha) ha, hd], h₀, round_add_to_ceil ha hd⟩

theorem denote_distance_down {a : α} {q : ℚ} (ha : denote a = .finite q) :
    ∃ d, denote (a - underneath a) = .finite d ∧ 0 ≤ d ∧ round α (q - d) = .finite ⌊q⌋ := by
  obtain ⟨d, hd, h₀, -⟩ := round_unit (α := α) (x := q - ⌊q⌋)
    (by linarith [Int.floor_le q]) (by linarith [Int.lt_floor_add_one q])
  have hn : denote (-a) = .finite (-q) := by rw [denote_neg, ha, Exact.neg_finite]
  have hd' : round α (⌈-q⌉ - -q) = .finite d := by
    rw [← hd, Int.ceil_neg]
    congr 1
    push_cast
    ring
  have h := round_add_to_ceil hn hd'
  refine ⟨d, by rw [denote_sub ha (denote_underneath ha), hd], h₀, ?_⟩
  rw [show q - d = -(-q + d) by ring, round_neg, h, Int.ceil_neg]
  simp

theorem gap_nonneg {a : α} {q : ℚ} (ha : denote a = .finite q) :
    ∃ g, denote (gap a) = .finite g ∧ 0 ≤ g := by
  obtain ⟨d, hd, h₀, -⟩ := denote_distance_up ha
  obtain ⟨e, he, h₁, -⟩ := denote_distance_down ha
  rw [gap, lesser]
  split
  · exact ⟨d, hd, h₀⟩
  · exact ⟨e, he, h₁⟩

theorem gap_le_gap {a : α} {q : ℚ} (ha : denote a = .finite q) : gap a ≤ gap a := by
  obtain ⟨g, hg, -⟩ := gap_nonneg ha
  rw [le_iff_denote, hg, Exact.finite_le_finite]

theorem denote_eq_floor_of_gap {a : α} {q : ℚ} (ha : denote a = .finite q)
    (h : denote (gap a) = .finite 0) : q = ⌊q⌋ ∨ q = ⌈q⌉ := by
  obtain ⟨d, hd, -, hup⟩ := denote_distance_up ha
  obtain ⟨e, he, -, hdown⟩ := denote_distance_down ha
  rw [gap, lesser] at h
  split at h
  next =>
    rw [hd, Exact.finite.injEq] at h
    rw [h, add_zero, round_denote ha, Exact.finite.injEq] at hup
    exact .inr hup
  next =>
    rw [he, Exact.finite.injEq] at h
    rw [h, sub_zero, round_denote ha, Exact.finite.injEq] at hdown
    exact .inl hdown

theorem isWhole_iff_denote {a : α} : isWhole a = true ↔ ∃ z : ℤ, denote a = .finite z := by
  rw [isWhole, Bool.and_eq_true, beq_eq_denote, denote_zero]
  constructor
  · rintro ⟨hfinite, hgap⟩
    obtain ⟨q, hq⟩ := isFinite_iff_denote.mp hfinite
    rcases denote_eq_floor_of_gap hq (Exact.eq_of_beq hgap) with h | h
    · exact ⟨⌊q⌋, by rw [hq, ← h]⟩
    · exact ⟨⌈q⌉, by rw [hq, ← h]⟩
  · rintro ⟨z, hz⟩
    have hdown : denote (a - underneath a) = .finite 0 := by
      rw [denote_sub hz (denote_underneath hz), Int.floor_intCast, sub_self, round_zero]
    have hup : denote (above a - a) = .finite 0 := by
      rw [denote_sub (denote_above hz) hz, Int.ceil_intCast, sub_self, round_zero]
    refine ⟨isFinite_iff_denote.mpr ⟨z, hz⟩, ?_⟩
    rw [gap, lesser]
    split
    · rw [hup, Exact.finite_beq_finite, decide_eq_true rfl]
    · rw [hdown, Exact.finite_beq_finite, decide_eq_true rfl]

theorem isWhole_zero : isWhole (0 : α) = true := isWhole_iff_denote.mpr ⟨0, by simpa using denote_zero⟩

theorem gap?_eq {a : α} {q : ℚ} (ha : denote a = .finite q) : gap? a = .ok (gap a) := by
  rw [gap?]
  rw [isNaN_denote, isFinite_denote, ha]
  rfl

/-- A step is never negative and never longer than the way to the next integer, whatever the room
and the limit are. -/
theorem denote_step (room limit : α) {way : α} {d : ℚ} (hd : denote way = .finite d)
    (h₀ : 0 ≤ d) :
    ∃ t, denote (greater 0 (lesser (lesser room limit) way)) = .finite t ∧ 0 ≤ t ∧ t ≤ d := by
  have hz : ∃ t, denote (0 : α) = .finite t ∧ 0 ≤ t ∧ t ≤ d := ⟨0, denote_zero, le_rfl, h₀⟩
  rw [greater]
  split
  next hpos =>
    generalize hm : lesser room limit = m at hpos ⊢
    rw [lesser] at hpos ⊢
    split
    next => exact ⟨d, hd, h₀, le_rfl⟩
    next hle =>
      rw [if_neg hle, lt_iff_denote, denote_zero] at hpos
      rw [lt_iff_denote, hd] at hle
      have hm' := Exact.le_of_not_lt (Exact.ne_undefined_of_lt_right hpos) (by simp) hle
      exact Exact.eq_finite_of_le_of_le (Exact.le_of_lt hpos) hm'
  next => exact hz

end LawfulScalar

end MilpRounding
