import MilpRounding.Proofs.LawfulScalar

namespace MilpRounding

open Scalar LawfulScalar

class RoundedScalar (α : Type) [Scalar α] [LawfulScalar α] : Prop where
  denote_mul {a b : α} {p q : ℚ} : denote a = .finite p → denote b = .finite q →
    denote (a * b) = round α (p * q)
  denote_add_of_not_finite {a b : α} : ¬ (isFinite a = true ∧ isFinite b = true) →
    denote (a + b) = denote a + denote b
  denote_mul_of_not_finite {a b : α} : ¬ (isFinite a = true ∧ isFinite b = true) →
    denote (a * b) = denote a * denote b

/-- Differences with numbers that are not finite are those of the exact numbers. -/
class DifferenceScalar (α : Type) [Scalar α] [LawfulScalar α] : Prop where
  denote_sub_of_not_finite {a b : α} : ¬ (isFinite a = true ∧ isFinite b = true) →
    denote (a - b) = denote a - denote b

instance : DifferenceScalar Exact := ⟨fun _ => rfl⟩

instance : RoundedScalar Exact where
  denote_mul := by rintro _ _ p q rfl rfl; rfl
  denote_add_of_not_finite _ := rfl
  denote_mul_of_not_finite _ := rfl

namespace Exact

theorem unbounded_neg (q : ℚ) : unbounded (-q) = -unbounded q := by
  rcases lt_trichotomy q 0 with h | rfl | h
  · simp [unbounded, h, h.le.not_gt]
  · rfl
  · simp [unbounded, h, h.le.not_gt]

protected theorem neg_mul (a b : Exact) : -a * b = -(a * b) := by
  have h : unbounded (sign (-a) * sign b) = -unbounded (sign a * sign b) := by
    rw [sign_neg, neg_mul, unbounded_neg]
  cases a with
  | finite p =>
      cases b with
      | finite q => exact congrArg finite (neg_mul p q)
      | undefined | negInf | posInf => exact h
  | undefined | negInf | posInf => exact h

end Exact

namespace LawfulScalar

open RoundedScalar

variable {α : Type} [Scalar α] [LawfulScalar α] [RoundedScalar α] {a b a' b' : α}

omit [RoundedScalar α] in
theorem neg_denote_zero : -denote (0 : α) = denote (0 : α) := by
  rw [denote_zero, Exact.neg_finite, neg_zero]

omit [RoundedScalar α] in
theorem isFinite_of_neg (h : denote b = -denote a) : isFinite b = isFinite a := by
  rw [isFinite_denote b, isFinite_denote a, h]
  exact Exact.isFinite_neg (denote a)

omit [RoundedScalar α] in
theorem isNaN_of_neg (h : denote b = -denote a) : isNaN b = isNaN a := by
  rw [isNaN_denote b, isNaN_denote a, h]
  exact Exact.isNaN_neg (denote a)

theorem denote_neg_mul (a b : α) : denote (-a * b) = -denote (a * b) := by
  by_cases hfinite : isFinite a = true ∧ isFinite b = true
  · obtain ⟨p, hp⟩ := isFinite_iff_denote.mp hfinite.1
    obtain ⟨q, hq⟩ := isFinite_iff_denote.mp hfinite.2
    have hn : denote (-a) = .finite (-p) := by rw [denote_neg, hp, Exact.neg_finite]
    rw [denote_mul hn hq, denote_mul hp hq, neg_mul, round_neg]
  · have hn := hfinite
    rw [← isFinite_of_neg (denote_neg a)] at hn
    rw [denote_mul_of_not_finite hn, denote_mul_of_not_finite hfinite, denote_neg, Exact.neg_mul]

theorem denote_add_of_neg (ha : denote a' = -denote a) (hb : denote b' = -denote b) :
    denote (a' + b') = -denote (a + b) := by
  by_cases hfinite : isFinite a = true ∧ isFinite b = true
  · obtain ⟨p, hp⟩ := isFinite_iff_denote.mp hfinite.1
    obtain ⟨q, hq⟩ := isFinite_iff_denote.mp hfinite.2
    rw [hp, Exact.neg_finite] at ha
    rw [hq, Exact.neg_finite] at hb
    rw [denote_add ha hb, denote_add hp hq, ← neg_add, round_neg]
  · have hn := hfinite
    rw [← isFinite_of_neg ha, ← isFinite_of_neg hb] at hn
    rw [denote_add_of_not_finite hn, denote_add_of_not_finite hfinite, ha, hb, Exact.neg_add]

omit [RoundedScalar α] in
theorem denote_sub_of_neg [DifferenceScalar α] (ha : denote a' = -denote a)
    (hb : denote b' = -denote b) : denote (a' - b') = -denote (a - b) := by
  by_cases hfinite : isFinite a = true ∧ isFinite b = true
  · obtain ⟨p, hp⟩ := isFinite_iff_denote.mp hfinite.1
    obtain ⟨q, hq⟩ := isFinite_iff_denote.mp hfinite.2
    rw [hp, Exact.neg_finite] at ha
    rw [hq, Exact.neg_finite] at hb
    rw [denote_sub ha hb, denote_sub hp hq, ← round_neg, neg_sub_neg, neg_sub]
  · have hn := hfinite
    rw [← isFinite_of_neg ha, ← isFinite_of_neg hb] at hn
    rw [DifferenceScalar.denote_sub_of_not_finite hn,
      DifferenceScalar.denote_sub_of_not_finite hfinite, ha, hb, Exact.sub_eq_add_neg,
      Exact.sub_eq_add_neg, Exact.neg_add]

omit [RoundedScalar α] in
theorem denote_sub_comm [DifferenceScalar α] (a b : α) : denote (b - a) = -denote (a - b) := by
  by_cases hfinite : isFinite a = true ∧ isFinite b = true
  · obtain ⟨p, hp⟩ := isFinite_iff_denote.mp hfinite.1
    obtain ⟨q, hq⟩ := isFinite_iff_denote.mp hfinite.2
    rw [denote_sub hq hp, denote_sub hp hq, ← round_neg, neg_sub]
  · rw [DifferenceScalar.denote_sub_of_not_finite hfinite,
      DifferenceScalar.denote_sub_of_not_finite (mt And.symm hfinite), Exact.neg_sub]

theorem denote_products_neg (costs x : List α) (h : denote b = -denote a) :
    denote ((List.zipWith (· * ·) (costs.map (-·)) x).foldl (· + ·) b) =
      -denote ((List.zipWith (· * ·) costs x).foldl (· + ·) a) := by
  induction costs generalizing x a b with
  | nil => exact h
  | cons p costs ih =>
      cases x with
      | nil => exact h
      | cons q x => exact ih x (denote_add_of_neg h (denote_neg_mul p q))

theorem denote_dot_neg (costs x : List α) :
    denote (dot (costs.map (-·)) x) = -denote (dot costs x) :=
  denote_products_neg costs x neg_denote_zero.symm

end LawfulScalar

end MilpRounding
