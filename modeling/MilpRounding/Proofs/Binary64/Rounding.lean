import MilpRounding.Proofs.Binary64.Unpacked

namespace MilpRounding.Binary64

open Float.Model (Format UnpackedFloat totalExponent)
open Float.Model.UnpackedFloat

/-- What the two bits of a shifted significand tell about the number it approximates. -/
structure Approximates (a : ExtendedMantissa) (x : ℚ) : Prop where
  low : a.mantissa ≤ x
  high : x < a.mantissa + 1
  half : a.roundBit = true ↔ (a.mantissa : ℚ) + 1 / 2 ≤ x
  rest : a.stickyBit = false ↔ x = a.mantissa ∨ x = a.mantissa + 1 / 2

theorem approximates_exact (m : Nat) :
    Approximates (.ofMantissaAndAccuracy m .exact) m where
  low := le_rfl
  high := lt_add_one _
  half := by norm_num [ExtendedMantissa.ofMantissaAndAccuracy]
  rest := by simp [ExtendedMantissa.ofMantissaAndAccuracy]

theorem Approximates.shiftRightOne {a : ExtendedMantissa} {x : ℚ} (h : Approximates a x) :
    Approximates a.shiftRightOne (x / 2) := by
  obtain ⟨m, r, s⟩ := a
  obtain ⟨hlow, hhigh, hhalf, hrest⟩ := h
  simp only at hlow hhigh hhalf hrest
  have hm : (m : ℚ) = 2 * (m / 2 : ℕ) + (m % 2 : ℕ) := by
    exact_mod_cast (Nat.div_add_mod m 2).symm
  have hexact : (r || s) = false ↔ x = m := by
    rw [Bool.or_eq_false_iff, hrest, ← Bool.not_eq_true, hhalf]
    constructor
    · rintro ⟨hr, h | h⟩
      · exact h
      · exact absurd h.ge hr
    · rintro rfl
      exact ⟨by linarith, .inl rfl⟩
  rcases Nat.mod_two_eq_zero_or_one m with hb | hb <;> rw [hb] at hm <;> push_cast at hm
  all_goals
    refine ⟨?_, ?_, ?_, ?_⟩ <;> simp only [ExtendedMantissa.shiftRightOne, hb, hexact]
    · linarith
    · linarith
    · norm_num
      linarith
  · refine ⟨fun hx => .inl (by linarith), ?_⟩
    rintro (hx | hx) <;> linarith
  · refine ⟨fun hx => .inr (by linarith), ?_⟩
    rintro (hx | hx) <;> linarith

theorem Approximates.shiftRight {a : ExtendedMantissa} {x : ℚ} (h : Approximates a x) (n : Nat) :
    Approximates (a >>> n) (x / 2 ^ n) := by
  change Approximates (n.repeat ExtendedMantissa.shiftRightOne a) _
  induction n with
  | zero => simpa [Nat.repeat] using h
  | succ n ih =>
      rw [pow_succ, ← div_div]
      exact ih.shiftRightOne

theorem Approximates.roundedMantissa {a : ExtendedMantissa} {x : ℚ} (h : Approximates a x) :
    (a.roundedMantissa : ℤ) = nearestEven x := by
  obtain ⟨m, r, s⟩ := a
  obtain ⟨hlow, hhigh, hhalf, hrest⟩ := h
  simp only at hlow hhigh hhalf hrest
  have hf : ⌊x⌋ = (m : ℤ) := by
    rw [Int.floor_eq_iff]
    exact ⟨by exact_mod_cast hlow, by exact_mod_cast hhigh⟩
  have hdown (k : x - m < 1 / 2) : nearestEven x = m := by
    rw [nearestEven, hf, if_pos (.inl (by exact_mod_cast k))]
  have hup (k : 1 / 2 < x - m) : nearestEven x = m + 1 := by
    rw [nearestEven, hf, if_neg]
    push_cast
    rintro (k' | ⟨k', -⟩) <;> linarith
  cases r with
  | false =>
      have hlt : x - m < 1 / 2 := by
        by_contra hc
        exact absurd (hhalf.mpr (by linarith)) (by decide)
      rw [hdown hlt]
      cases s <;> rfl
  | true =>
      have hge := hhalf.mp rfl
      cases s with
      | false =>
          -- no bit was lost, so this is exactly halfway
          have htie : x - m = 1 / 2 := by
            rcases hrest.mp rfl with hx | hx <;> linarith
          rw [nearestEven, hf]
          push_cast
          rw [htie]
          simp only [ExtendedMantissa.roundedMantissa, ExtendedMantissa.accuracy,
            Accuracy.roundToNearestEven]
          split
          next hc =>
            have : (m : ℤ) % 2 = 0 := by simpa using hc
            omega
          next hc =>
            have : ¬ (m : ℤ) % 2 = 0 := by simpa using hc
            omega
      | true =>
          have hne : ¬ x = m + 1 / 2 := fun hx => absurd (hrest.mpr (.inr hx)) (by decide)
          rw [hup (by
            have := lt_of_le_of_ne hge (Ne.symm hne)
            linarith)]
          rfl

theorem places_pos {m : Nat} (hm : 0 < m) (e : ℤ) : (0 : ℚ) < m * 2 ^ e :=
  mul_pos (by exact_mod_cast hm) (two_zpow_pos e)

theorem two_zpow_le_places {m : Nat} (hm : 0 < m) (e : ℤ) :
    (2 : ℚ) ^ ((m.log2 : ℤ) + e) ≤ m * 2 ^ e := by
  rw [zpow_add₀ two_ne_zero, zpow_natCast]
  exact mul_le_mul_of_nonneg_right (by exact_mod_cast Nat.log2_self_le hm.ne') (two_zpow_pos e).le

theorem places_lt_two_zpow (m : Nat) (e : ℤ) :
    (m : ℚ) * 2 ^ e < 2 ^ ((m.log2 : ℤ) + e + 1) := by
  rw [add_right_comm, zpow_add₀ two_ne_zero, zpow_add_one₀ two_ne_zero, zpow_natCast, ← pow_succ]
  exact mul_lt_mul_of_pos_right (by exact_mod_cast Nat.lt_log2_self) (two_zpow_pos e)

theorem log_places {m : Nat} (hm : 0 < m) (e : ℤ) :
    Int.log 2 ((m : ℚ) * 2 ^ e) = m.log2 + e := by
  have hpos := places_pos hm e
  apply le_antisymm
  · have := (Int.lt_zpow_iff_log_lt (b := 2) (by norm_num) hpos).mp
      (by exact_mod_cast places_lt_two_zpow m e)
    omega
  · exact (Int.zpow_le_iff_le_log (b := 2) (by norm_num) hpos).mp
      (by exact_mod_cast two_zpow_le_places hm e)

theorem lastPlace_places {m : Nat} (hm : 0 < m) (e : ℤ) :
    lastPlace (m * 2 ^ e) = max (m.log2 + e - 52) (-1074) := by
  rw [lastPlace, abs_of_pos (places_pos hm e), log_places hm]

theorem targetExponent_eq {m : Nat} (hm : 0 < m) (e : ℤ) :
    Format.binary64.targetExponent (totalExponent m e) = lastPlace (m * 2 ^ e) := by
  rw [lastPlace_places hm]
  change max ((m.log2 : ℤ) + 1 + e - 53) (-1074) = _
  omega

theorem shiftToExponent_eq (m : Nat) {e t : ℤ} (h : e ≤ t) :
    shiftToExponent m e .exact t =
      (ExtendedMantissa.ofMantissaAndAccuracy m .exact >>> (t - e).toNat, t) := by
  simp only [shiftToExponent, Prod.mk.injEq, true_and]
  omega

theorem approximates_shift (m : Nat) {e t : ℤ} (h : e ≤ t) :
    Approximates (ExtendedMantissa.ofMantissaAndAccuracy m .exact >>> (t - e).toNat)
      (m * 2 ^ e / 2 ^ t) := by
  have hx : (m : ℚ) / 2 ^ (t - e).toNat = m * 2 ^ e / 2 ^ t := by
    rw [← zpow_natCast, Int.toNat_of_nonneg (by omega), zpow_sub₀ two_ne_zero, mul_div_assoc,
      div_div_eq_mul_div, mul_div_assoc]
  rw [← hx]
  exact (approximates_exact m).shiftRight _

def Holds (u : UnpackedFloat) (s : Sign) (q : ℚ) : Prop :=
  q = 0 ∧ u = .zero s ∨
    ∃ m e h, u = .finite s m e h ∧ Canonical u ∧ (m : ℚ) * 2 ^ e = q

/-- The second half of a rounding: a significand that rounding made too long by one place is
shifted once more. -/
def settle (s : Sign) (r : Nat) (t : ℤ) : UnpackedFloat :=
  let shifted := shiftToTargetExponent Format.binary64 r t .exact
  if h : shifted.1.mantissa = 0 then .zero s
  else .finite s shifted.1.mantissa shifted.2 (Nat.pos_of_ne_zero h)

theorem roundWithAccuracy_eq (s : Sign) (m : Nat) (e : ℤ) (a : Accuracy) :
    roundWithAccuracy Format.binary64 s m e a =
      settle s (shiftToTargetExponent Format.binary64 m e a).1.roundedMantissa
        (shiftToTargetExponent Format.binary64 m e a).2 :=
  rfl

theorem settle_of_short (s : Sign) {r : Nat} {t : ℤ} (hr : r < 2 ^ 53) (ht : -1074 ≤ t) :
    settle s r t = if h : r = 0 then .zero s else .finite s r t (Nat.pos_of_ne_zero h) := by
  have hlog : r.log2 < 53 := by
    rcases Nat.eq_zero_or_pos r with rfl | hpos
    · decide
    · exact (Nat.log2_lt hpos.ne').mpr hr
  have htarget : (Format.binary64.targetExponent (totalExponent r t) - t).toNat = 0 := by
    change (max ((r.log2 : ℤ) + 1 + t - 53) (-1074) - t).toNat = 0
    omega
  have hshift : shiftToTargetExponent Format.binary64 r t .exact =
      (ExtendedMantissa.ofMantissaAndAccuracy r .exact, t) := by
    simp only [shiftToTargetExponent, shiftToExponent, htarget, Nat.cast_zero, add_zero]
    rfl
  simp only [settle, hshift]
  rfl

theorem settle_of_long (s : Sign) {t : ℤ} (ht : -1074 ≤ t) :
    settle s (2 ^ 53) t = .finite s (2 ^ 52) (t + 1) (by decide) := by
  have htarget : (Format.binary64.targetExponent (totalExponent (2 ^ 53) t) - t).toNat = 1 := by
    change (max (((2 ^ 53 : Nat).log2 : ℤ) + 1 + t - 53) (-1074) - t).toNat = 1
    rw [Nat.log2_two_pow]
    omega
  have hshift : shiftToTargetExponent Format.binary64 (2 ^ 53) t .exact =
      (⟨2 ^ 52, false, false⟩, t + 1) := by
    simp only [shiftToTargetExponent, shiftToExponent, htarget]
    rfl
  simp only [settle, hshift]
  rfl

theorem holds_settle (s : Sign) {r : Nat} {t : ℤ} (hr : r ≤ 2 ^ 53) (ht : -1074 ≤ t)
    (hlo : 2 ^ 52 ≤ r ∨ t = -1074) : Holds (settle s r t) s (r * 2 ^ t) := by
  rcases hr.lt_or_eq with hlt | rfl
  · rw [settle_of_short s hlt ht]
    split
    next hz => exact .inl ⟨by rw [hz, Nat.cast_zero, zero_mul], rfl⟩
    next hz => exact .inr ⟨r, t, _, rfl, ⟨hlt, ht, hlo⟩, rfl⟩
  · rw [settle_of_long s ht]
    refine .inr ⟨2 ^ 52, t + 1, _, rfl, ⟨by decide, by omega, .inl le_rfl⟩, ?_⟩
    rw [zpow_add_one₀ two_ne_zero]
    push_cast
    ring

theorem holds_roundWithAccuracy (s : Sign) {m : Nat} (hm : 0 < m) {e : ℤ}
    (he : e ≤ lastPlace (m * 2 ^ e)) :
    Holds (roundWithAccuracy Format.binary64 s m e .exact) s (nearest (m * 2 ^ e)) := by
  have hround := (approximates_shift m he).roundedMantissa
  have hlast := lastPlace_places hm e
  have hpos := two_zpow_pos (lastPlace (m * 2 ^ e))
  rw [roundWithAccuracy_eq, shiftToTargetExponent, targetExponent_eq hm, shiftToExponent_eq m he,
    nearest, ← hround]
  refine holds_settle s ?_ (by omega) ?_
  · have hle : (m : ℚ) * 2 ^ e / 2 ^ lastPlace (m * 2 ^ e) ≤ ((2 ^ 53 : ℤ) : ℚ) := by
      have hexp := zpow_le_zpow_right₀ (show (1 : ℚ) ≤ 2 by norm_num)
        (show (m.log2 : ℤ) + e + 1 ≤ 53 + lastPlace (m * 2 ^ e) by omega)
      rw [zpow_add₀ two_ne_zero 53] at hexp
      rw [div_le_iff₀ hpos]
      exact_mod_cast (places_lt_two_zpow m e).le.trans hexp
    have := nearestEven_mono hle
    rw [nearestEven_intCast, ← hround] at this
    exact_mod_cast this
  · rcases eq_or_ne (lastPlace (m * 2 ^ e)) (-1074) with h | h
    · exact .inr h
    · have hge : ((2 ^ 52 : ℤ) : ℚ) ≤ (m : ℚ) * 2 ^ e / 2 ^ lastPlace (m * 2 ^ e) := by
        have hexp := zpow_le_zpow_right₀ (show (1 : ℚ) ≤ 2 by norm_num)
          (show 52 + lastPlace (m * 2 ^ e) ≤ (m.log2 : ℤ) + e by omega)
        rw [zpow_add₀ two_ne_zero 52] at hexp
        rw [le_div_iff₀ hpos]
        exact_mod_cast hexp.trans (two_zpow_le_places hm e)
      have := nearestEven_mono hge
      rw [nearestEven_intCast, ← hround] at this
      exact .inl (by exact_mod_cast this)

theorem decreaseExponent_worth (m : Nat) (e t : ℤ) :
    ((decreaseExponent m e t).1 : ℚ) * 2 ^ (decreaseExponent m e t).2 = m * 2 ^ e := by
  simp only [decreaseExponent, Nat.shiftLeft_eq]
  push_cast
  rw [mul_assoc, ← zpow_natCast, ← zpow_add₀ two_ne_zero]
  congr 2
  omega

theorem holds_round (s : Sign) {m : Nat} (hm : 0 < m) (e : ℤ) :
    Holds (UnpackedFloat.round Format.binary64 s m e) s (nearest (m * 2 ^ e)) := by
  simp only [UnpackedFloat.round, targetExponent_eq hm]
  have hworth := decreaseExponent_worth m e (lastPlace (m * 2 ^ e))
  have hle : (decreaseExponent m e (lastPlace (m * 2 ^ e))).2 ≤ lastPlace (m * 2 ^ e) := by
    simp only [decreaseExponent]
    omega
  have hpos : 0 < (decreaseExponent m e (lastPlace (m * 2 ^ e))).1 := by
    simp only [decreaseExponent, Nat.shiftLeft_eq]
    exact Nat.mul_pos hm (Nat.two_pow_pos _)
  have h := holds_roundWithAccuracy s hpos (by rwa [hworth])
  rwa [hworth] at h

theorem worth_of_holds {u : UnpackedFloat} {s : Sign} {q : ℚ} (h : Holds u s q) :
    worth (unpack Format.binary64 (pack Format.binary64 u)) = overflow (s.apply 1 * q) := by
  obtain ⟨rfl, rfl⟩ | ⟨m, e, h, rfl, hc, rfl⟩ := h
  · rw [unpack_pack (u := .zero s) trivial trivial, mul_zero]
    have h := rounded_of_representable (representable_intCast (n := 0) (by norm_num))
    rw [Int.cast_zero, rounded, nearest_zero] at h
    rw [h, worth]
  · rw [worth_pack hc]
    congr 1
    cases s <;> simp [Sign.apply]

/-- Normalizing is rounding the number that a significand and an exponent stand for. -/
theorem worth_normalize (m e : ℤ) (s : Sign) :
    worth (unpack Format.binary64 (pack Format.binary64 (normalize Format.binary64 m e s))) =
      rounded (m * 2 ^ e) := by
  rw [UnpackedFloat.normalize]
  rcases lt_trichotomy m 0 with hm | rfl | hm
  · have hn : ((-m).toNat : ℚ) = -m := by exact_mod_cast Int.toNat_of_nonneg (by omega : 0 ≤ -m)
    rw [show compare m 0 = .lt from compare_lt_iff_lt.mpr hm]
    simp only
    rw [worth_of_holds (holds_round .negative (by omega) e), hn, neg_mul, nearest_neg]
    simp [Sign.apply, rounded]
  · rw [show compare (0 : ℤ) 0 = .eq from rfl]
    simp only
    rw [worth_of_holds (q := 0) (s := s) (.inl ⟨rfl, rfl⟩)]
    simp [rounded, nearest_zero]
  · have hn : (m.toNat : ℚ) = m := by exact_mod_cast Int.toNat_of_nonneg hm.le
    rw [show compare m 0 = .gt from compare_gt_iff_gt.mpr hm]
    simp only
    rw [worth_of_holds (holds_round .positive (by omega) e), hn]
    simp [Sign.apply, rounded]

end MilpRounding.Binary64
