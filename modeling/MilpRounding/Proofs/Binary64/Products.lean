import MilpRounding.Proofs.Binary64.LawfulDouble
import MilpRounding.Proofs.NegatedForms

namespace MilpRounding.Binary64

open Float.Model (Format UnpackedFloat)
open Float.Model.UnpackedFloat

theorem positive_mul (s : Sign) : Sign.positive * s = s := by
  cases s <;> rfl

theorem negative_mul (s : Sign) : Sign.negative * s = -s := by
  cases s <;> rfl

theorem mul_apply (s t : Sign) (m n : ℤ) : (s * t).apply (m * n) = s.apply m * t.apply n := by
  cases s with
  | positive => rw [positive_mul]; cases t <;> simp [Sign.apply]
  | negative => rw [negative_mul, neg_apply]; cases t <;> simp [Sign.apply]

theorem le_lastPlace_mul {s t : Sign} {m n : Nat} {e f : ℤ} {hm : 0 < m} {hn : 0 < n}
    (hu : Canonical (.finite s m e hm)) (hv : Canonical (.finite t n f hn)) :
    e + f ≤ lastPlace ((m * n : Nat) * 2 ^ (e + f)) := by
  obtain ⟨-, -, hu⟩ := hu
  obtain ⟨-, -, hv⟩ := hv
  have hpos := Nat.mul_pos hm hn
  rw [lastPlace_places hpos]
  have hlong (h : 2 ^ 52 ≤ m * n) : 52 ≤ (m * n).log2 := (Nat.le_log2 hpos.ne').mpr h
  rcases hu with hu | rfl
  · have := hlong (hu.trans (Nat.le_mul_of_pos_right m hn))
    omega
  · rcases hv with hv | rfl
    -- a long significand makes up for a short one, however short
    · have := hlong (hv.trans (Nat.le_mul_of_pos_left n hm))
      omega
    · omega

theorem worth_mul {u v : UnpackedFloat} (hu : Canonical u) (hv : Canonical v) {p q : ℚ}
    (hp : worth u = .finite p) (hq : worth v = .finite q) :
    worth (unpack Format.binary64 (pack Format.binary64 (UnpackedFloat.mul Format.binary64 u v))) =
      rounded (p * q) := by
  have hzero (s : Sign) : worth (unpack Format.binary64 (pack Format.binary64 (.zero s))) =
      rounded 0 := by
    rw [worth_of_holds (q := 0) (.inl ⟨rfl, rfl⟩), mul_zero, rounded, nearest_zero]
  obtain ⟨rfl, s, rfl⟩ | ⟨s, m, e, hm, rfl, rfl⟩ := worth_eq_finite hp
  · rw [zero_mul]
    obtain ⟨-, t, rfl⟩ | ⟨t, n, f, hn, rfl, -⟩ := worth_eq_finite hq <;> exact hzero _
  · obtain ⟨rfl, t, rfl⟩ | ⟨t, n, f, hn, rfl, rfl⟩ := worth_eq_finite hq
    · rw [mul_zero]
      exact hzero _
    · have h := worth_of_holds (holds_roundWithAccuracy (s * t) (Nat.mul_pos hm hn)
        (le_lastPlace_mul hu hv))
      have hsigned : ((s * t).apply (m * n : Nat) : ℚ) * 2 ^ (e + f) =
          s.apply m * 2 ^ e * (t.apply n * 2 ^ f) := by
        rw [Nat.cast_mul, mul_apply, zpow_add₀ two_ne_zero]
        push_cast
        ring
      refine h.trans ?_
      rw [← hsigned, rounded]
      cases s * t with
      | positive => simp [Sign.apply]
      | negative => simp [Sign.apply, nearest_neg]

theorem sign_places (s : Sign) {m : Nat} (hm : 0 < m) (e : ℤ) :
    Exact.sign (.finite (s.apply m * 2 ^ e)) = s.apply 1 := by
  cases s with
  | positive => simp [Exact.sign, Sign.apply, places_pos hm e]
  | negative => simp [Exact.sign, Sign.apply, places_pos hm e, (places_pos hm e).le]

theorem sign_infinity (s : Sign) : Exact.sign (worth (.infinity s)) = s.apply 1 := by
  cases s <;> simp [Exact.sign, Sign.apply, worth]

theorem unbounded_apply (s t : Sign) :
    Exact.unbounded (s.apply 1 * t.apply 1) = worth (.infinity (s * t)) := by
  have h := mul_apply s t 1 1
  rw [mul_one] at h
  rw [← Int.cast_mul, ← h]
  cases s * t <;> simp [Exact.unbounded, Sign.apply, worth]

theorem worth_pack_infinity (s : Sign) :
    worth (unpack Format.binary64 (pack Format.binary64 (.infinity s))) = worth (.infinity s) := by
  rw [unpack_pack (u := .infinity s) trivial trivial]

theorem worth_pack_notANumber :
    worth (unpack Format.binary64 (pack Format.binary64 .notANumber)) = .undefined := by
  rw [unpack_pack (u := .notANumber) trivial trivial]
  rfl

theorem infinity_add_finite (s : Sign) (q : ℚ) :
    worth (.infinity s) + .finite q = worth (.infinity s) := by
  cases s <;> rfl

theorem finite_add_infinity (q : ℚ) (s : Sign) :
    .finite q + worth (.infinity s) = worth (.infinity s) := by
  cases s <;> rfl

theorem worth_add_of_not_finite (u v : UnpackedFloat)
    (h : ¬ (Exact.isFinite (worth u) = true ∧ Exact.isFinite (worth v) = true)) :
    worth (unpack Format.binary64 (pack Format.binary64 (UnpackedFloat.add Format.binary64 u v))) =
      worth u + worth v := by
  cases u with
  | notANumber =>
      refine worth_pack_notANumber.trans ?_
      rw [worth]
      cases worth v <;> rfl
  | infinity s =>
      cases v with
      | notANumber => cases s <;> exact worth_pack_notANumber
      | infinity t =>
          cases s with
          | positive =>
              cases t with
              | positive => exact worth_pack_infinity .positive
              | negative => exact worth_pack_notANumber
          | negative =>
              cases t with
              | positive => exact worth_pack_notANumber
              | negative => exact worth_pack_infinity .negative
      | zero t | finite t n f hn =>
          exact (worth_pack_infinity s).trans (infinity_add_finite s _).symm
  | zero s | finite s m e hm =>
      cases v with
      | notANumber => exact worth_pack_notANumber
      | infinity t => exact (worth_pack_infinity t).trans (finite_add_infinity _ t).symm
      | zero t | finite t n f hn => exact absurd ⟨rfl, rfl⟩ h

theorem mul_eq_unbounded {a b : Exact} (h : ¬ (Exact.isFinite a = true ∧ Exact.isFinite b = true)) :
    a * b = Exact.unbounded (Exact.sign a * Exact.sign b) := by
  cases a <;> cases b <;> first | rfl | exact absurd ⟨rfl, rfl⟩ h

theorem worth_mul_of_not_finite (u v : UnpackedFloat)
    (h : ¬ (Exact.isFinite (worth u) = true ∧ Exact.isFinite (worth v) = true)) :
    worth (unpack Format.binary64 (pack Format.binary64 (UnpackedFloat.mul Format.binary64 u v))) =
      worth u * worth v := by
  rw [mul_eq_unbounded h]
  have hundefined : worth (unpack Format.binary64 (pack Format.binary64 .notANumber)) =
      Exact.unbounded 0 := worth_pack_notANumber
  have hinfinity (s t : Sign) : worth (unpack Format.binary64 (pack Format.binary64
      (.infinity (s * t)))) = Exact.unbounded (s.apply 1 * t.apply 1) :=
    (worth_pack_infinity _).trans (unbounded_apply s t).symm
  have hnone : Exact.sign (worth .notANumber) = 0 := rfl
  have hzero (t : Sign) : Exact.sign (worth (.zero t)) = 0 := rfl
  cases u with
  | notANumber =>
      rw [hnone, zero_mul]
      cases v <;> exact hundefined
  | infinity s =>
      cases v with
      | notANumber =>
          rw [hnone, mul_zero]
          exact hundefined
      | infinity t =>
          rw [sign_infinity, sign_infinity]
          exact hinfinity s t
      | zero t =>
          rw [hzero, mul_zero]
          exact hundefined
      | finite t n f hn =>
          rw [sign_infinity, worth, sign_places t hn]
          exact hinfinity s t
  | zero s =>
      rw [hzero, zero_mul]
      cases v with
      | notANumber | infinity t => exact hundefined
      | zero t | finite t n f hn => exact absurd ⟨rfl, rfl⟩ h
  | finite s m e hm =>
      rw [worth, sign_places s hm]
      cases v with
      | notANumber =>
          rw [hnone, mul_zero]
          exact hundefined
      | infinity t =>
          rw [sign_infinity]
          exact hinfinity s t
      | zero t | finite t n f hn => exact absurd ⟨rfl, rfl⟩ h

theorem not_isFinite_exactOf {a b : Float} (h : ¬ (Scalar.isFinite a = true ∧ Scalar.isFinite b = true)) :
    ¬ (Exact.isFinite (exactOf a) = true ∧ Exact.isFinite (exactOf b) = true) := by
  rw [← isFinite_eq, ← isFinite_eq]
  exact h

instance : DifferenceScalar Float where
  denote_sub_of_not_finite {a b} h := by
    have hneg : ¬ (Exact.isFinite (worth a.toModel.unpack) = true ∧
        Exact.isFinite (worth b.toModel.unpack.neg) = true) := by
      rintro ⟨hleft, hright⟩
      rw [worth_neg] at hright
      exact not_isFinite_exactOf h ⟨hleft, (Exact.isFinite_neg _).symm.trans hright⟩
    change worth (unpack Format.binary64 (pack Format.binary64
      (UnpackedFloat.sub Format.binary64 a.toModel.unpack b.toModel.unpack))) = _
    rw [sub_eq_add_neg_unpacked, worth_add_of_not_finite _ _ hneg, worth_neg]
    rfl

instance : RoundedScalar Float where
  denote_mul {a b} _ _ ha hb := worth_mul (canonical a) (canonical b) ha hb
  denote_add_of_not_finite h := worth_add_of_not_finite _ _ (not_isFinite_exactOf h)
  denote_mul_of_not_finite h := worth_mul_of_not_finite _ _ (not_isFinite_exactOf h)

end MilpRounding.Binary64
