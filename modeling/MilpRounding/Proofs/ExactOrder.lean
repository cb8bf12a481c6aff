import MilpRounding.Scalar.Exact
import Mathlib.Data.Rat.Floor
import Mathlib.Tactic.Linarith

namespace MilpRounding.Exact

theorem lt_iff (a b : Exact) : a < b ↔ less a b = true := Iff.rfl

theorem le_iff (a b : Exact) : a ≤ b ↔ (less a b || same a b) = true := Iff.rfl

@[simp] theorem zero_eq : (0 : Exact) = finite 0 := rfl

@[simp] theorem finite_lt_finite (p q : ℚ) : finite p < finite q ↔ p < q := by
  simp [lt_iff, less]

@[simp] theorem finite_le_finite (p q : ℚ) : finite p ≤ finite q ↔ p ≤ q := by
  simp [le_iff, less, same, le_iff_lt_or_eq]

@[simp] theorem finite_beq_finite (p q : ℚ) : (finite p == finite q) = decide (p = q) := rfl

@[simp] theorem finite_add_finite (p q : ℚ) : finite p + finite q = finite (p + q) := rfl

@[simp] theorem neg_finite (p : ℚ) : -finite p = finite (-p) := rfl

@[simp] theorem finite_sub_finite (p q : ℚ) : finite p - finite q = finite (p - q) := by
  rw [sub_eq_add_neg]
  rfl

theorem finite_div_finite (p : ℚ) {q : ℚ} (hq : q ≠ 0) : finite p / finite q = finite (p / q) :=
  if_neg hq

@[simp] theorem ceil_finite (p : ℚ) : Scalar.ceil (finite p) = ⌈p⌉ := by
  change Rat.ceil p = ⌈p⌉
  rw [Rat.ceil_eq_neg_floor_neg]
  rfl

@[simp] theorem ofInt_eq (n : Int) : (Scalar.ofInt n : Exact) = finite n := rfl

@[simp] theorem isFinite_finite (p : ℚ) : Scalar.isFinite (finite p) = true := rfl

@[simp] theorem isNaN_finite (p : ℚ) : Scalar.isNaN (finite p) = false := rfl

@[simp] theorem underneath_finite (p : ℚ) : Scalar.underneath (finite p) = finite ⌊p⌋ := rfl

@[simp] theorem above_finite (p : ℚ) : Scalar.above (finite p) = finite ⌈p⌉ := by
  rw [Scalar.above, ceil_finite, ofInt_eq]

theorem isFinite_iff {a : Exact} : Scalar.isFinite a = true ↔ ∃ q, a = finite q := by
  cases a <;> simp [Scalar.isFinite, isFinite]

theorem lt_of_le_of_lt {a b c : Exact} (h : a ≤ b) (k : b < c) : a < c := by
  cases a <;> cases b <;> cases c <;> simp_all [le_iff, lt_iff, less, same]
  grind

theorem lt_of_lt_of_le {a b c : Exact} (h : a < b) (k : b ≤ c) : a < c := by
  cases a <;> cases b <;> cases c <;> simp_all [le_iff, lt_iff, less, same]
  grind

protected theorem le_trans {a b c : Exact} (h : a ≤ b) (k : b ≤ c) : a ≤ c := by
  cases a <;> cases b <;> cases c <;> simp_all [le_iff, less, same]
  grind

theorem lt_irrefl (a : Exact) : ¬ a < a := by
  cases a <;> simp [lt_iff, less]

theorem not_lt_of_le {a b : Exact} (h : a ≤ b) : ¬ b < a :=
  fun k => lt_irrefl a (lt_of_le_of_lt h k)

theorem le_of_lt {a b : Exact} (h : a < b) : a ≤ b := by
  rw [lt_iff] at h
  rw [le_iff, h]
  rfl

theorem le_of_not_lt {a b : Exact} (ha : a ≠ undefined) (hb : b ≠ undefined) (h : ¬ b < a) :
    a ≤ b := by
  cases a <;> cases b <;> simp_all [le_iff, lt_iff, less, same]
  grind

theorem eq_of_beq {a b : Exact} (h : (a == b) = true) : a = b := by
  change same a b = true at h
  cases a <;> cases b <;> simp_all [same]

theorem ne_undefined_of_isNaN {a : Exact} (h : Scalar.isNaN a = false) : a ≠ undefined := by
  rintro rfl
  cases h

theorem ne_undefined_of_lt_left {a b : Exact} (h : a < b) : a ≠ undefined := by
  rintro rfl
  simp [lt_iff, less] at h

theorem ne_undefined_of_lt_right {a b : Exact} (h : a < b) : b ≠ undefined := by
  rintro rfl
  cases a <;> simp [lt_iff, less] at h

/-- Comparisons with the undefined number are false, the others are those of an order. -/
theorem le_iff_not_lt (a b : Exact) :
    a ≤ b ↔ ¬ b < a ∧ Scalar.isNaN a = false ∧ Scalar.isNaN b = false := by
  constructor
  · intro h
    refine ⟨not_lt_of_le h, ?_⟩
    cases a <;> cases b <;> first | exact ⟨rfl, rfl⟩ | cases h
  · rintro ⟨h, ha, hb⟩
    exact le_of_not_lt (ne_undefined_of_isNaN ha) (ne_undefined_of_isNaN hb) h

theorem lt_iff_not_le (a b : Exact) :
    a < b ↔ ¬ b ≤ a ∧ Scalar.isNaN a = false ∧ Scalar.isNaN b = false := by
  rw [le_iff_not_lt b a]
  constructor
  · intro h
    refine ⟨fun hle => hle.1 h, ?_⟩
    cases a <;> cases b <;> first | exact ⟨rfl, rfl⟩ | cases h
  · rintro ⟨h, ha, hb⟩
    by_contra hn
    exact h ⟨hn, hb, ha⟩

theorem eq_finite_of_le_of_le {a : Exact} {p q : ℚ} (hp : finite p ≤ a) (hq : a ≤ finite q) :
    ∃ r, a = finite r ∧ p ≤ r ∧ r ≤ q := by
  cases a with
  | finite r => exact ⟨r, rfl, (finite_le_finite p r).mp hp, (finite_le_finite r q).mp hq⟩
  | undefined | negInf | posInf => simp_all [le_iff, less, same]

@[simp] theorem neg_undefined : -undefined = undefined := rfl

@[simp] theorem neg_posInf : -posInf = negInf := rfl

@[simp] theorem neg_negInf : -negInf = posInf := rfl

@[simp] protected theorem neg_neg (a : Exact) : - -a = a := by
  cases a <;> simp

theorem beq_comm (a b : Exact) : (a == b) = (b == a) := by
  change same a b = same b a
  cases a <;> cases b <;> simp [same, eq_comm]

theorem isFinite_neg (a : Exact) : Scalar.isFinite (-a) = Scalar.isFinite a := by
  cases a <;> rfl

theorem isNaN_neg (a : Exact) : Scalar.isNaN (-a) = Scalar.isNaN a := by
  cases a <;> rfl

@[simp] theorem neg_beq_neg (a b : Exact) : (-a == -b) = (a == b) := by
  change same (-a) (-b) = same a b
  cases a <;> cases b <;> simp [same]

@[simp] protected theorem neg_lt_neg_iff (a b : Exact) : -a < -b ↔ b < a := by
  cases a <;> cases b <;> simp [lt_iff, less]

theorem le_iff_lt_or_beq (a b : Exact) : a ≤ b ↔ a < b ∨ (a == b) = true := by
  rw [le_iff, Bool.or_eq_true]
  rfl

@[simp] protected theorem neg_le_neg_iff (a b : Exact) : -a ≤ -b ↔ b ≤ a := by
  rw [le_iff_lt_or_beq, le_iff_lt_or_beq, Exact.neg_lt_neg_iff, neg_beq_neg, beq_comm]

protected theorem sub_eq_add_neg (a b : Exact) : a - b = a + -b := rfl

protected theorem add_comm (a b : Exact) : a + b = b + a := by
  cases a <;> cases b <;> first | rfl | simp [Rat.add_comm]

protected theorem neg_add (a b : Exact) : -(a + b) = -a + -b := by
  cases a <;> cases b <;> first | rfl | simp [Rat.add_comm]

protected theorem neg_sub (a b : Exact) : -(a - b) = b - a := by
  rw [Exact.sub_eq_add_neg, Exact.neg_add, Exact.neg_neg, Exact.add_comm, Exact.sub_eq_add_neg]

theorem sign_neg (a : Exact) : sign (-a) = -sign a := by
  cases a with
  | finite q =>
      simp only [neg_finite, sign]
      grind
  | undefined | negInf | posInf => simp [sign]

protected theorem neg_mul_neg (a b : Exact) : -a * -b = a * b := by
  have h : unbounded (sign (-a) * sign (-b)) = unbounded (sign a * sign b) := by
    rw [sign_neg, sign_neg, neg_mul_neg]
  cases a with
  | finite p =>
      cases b with
      | finite q => exact congrArg finite (neg_mul_neg p q)
      | undefined | negInf | posInf => exact h
  | undefined | negInf | posInf => exact h

protected theorem div_neg {a b : Exact} (hb : b ≠ 0) : a / -b = -a / b := by
  cases b with
  | undefined | negInf | posInf => cases a <;> rfl
  | finite q =>
      have hq : q ≠ 0 := fun h => hb (congrArg finite h)
      have hsign : -q < 0 ↔ ¬ q < 0 := by grind
      cases a with
      | undefined => rfl
      | finite p =>
          rw [neg_finite, neg_finite, finite_div_finite p (neg_ne_zero.mpr hq),
            finite_div_finite (-p) hq, div_neg, neg_div]
      | posInf =>
          change (if -q < 0 then negInf else posInf) = if q < 0 then posInf else negInf
          simp only [hsign, ite_not]
      | negInf =>
          change (if -q < 0 then posInf else negInf) = if q < 0 then negInf else posInf
          simp only [hsign, ite_not]

end MilpRounding.Exact
