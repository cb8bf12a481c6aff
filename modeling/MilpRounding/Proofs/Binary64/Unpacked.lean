import Mathlib
import MilpRounding.Proofs.Binary64.Grid
import MilpRounding.Scalar.Binary64

namespace MilpRounding.Binary64

open Float.Model (Format UnpackedFloat)
open Float.Model.UnpackedFloat

/-- The number that an unpacked double stands for. -/
def worth : UnpackedFloat → Exact
  | .infinity .positive => .posInf
  | .infinity .negative => .negInf
  | .notANumber => .undefined
  | .zero _ => .finite 0
  | .finite s m e _ => .finite (s.apply m * 2 ^ e)

def exactOf (x : Float) : Exact := worth x.toModel.unpack

/-- The significand has 53 places, or less where the exponent is the least. -/
def Canonical : UnpackedFloat → Prop
  | .finite _ m e _ => m < 2 ^ 53 ∧ -1074 ≤ e ∧ (2 ^ 52 ≤ m ∨ e = -1074)
  | _ => True

def InRange : UnpackedFloat → Prop
  | .finite _ _ e _ => e ≤ 971
  | _ => True

abbrev exponentField (b : BitVec 64) : BitVec 11 := @unpackExponent Format.binary64 b

abbrev fractionField (b : BitVec 64) : BitVec 52 := @unpackMantissa Format.binary64 b

abbrev signField (b : BitVec 64) : BitVec 1 := @unpackSign Format.binary64 b

theorem exponentField_toNat (b : BitVec 64) :
    (exponentField b).toNat = b.toNat / 2 ^ 52 % 2 ^ 11 := by
  simp [unpackExponent, Nat.shiftRight_eq_div_pow]

theorem fractionField_toNat (b : BitVec 64) : (fractionField b).toNat = b.toNat % 2 ^ 52 := by
  simp [unpackMantissa]

theorem signField_toNat (b : BitVec 64) : (signField b).toNat = b.toNat / 2 ^ 63 := by
  simp [unpackSign, Nat.shiftRight_eq_div_pow]
  have := b.isLt
  omega

theorem toNat_implicit (m : BitVec 52) : (1#1 ++ m).toNat = 2 ^ 52 + m.toNat := by
  rw [BitVec.toNat_append, ← Nat.shiftLeft_add_eq_or_of_lt m.isLt]
  simp [Nat.shiftLeft_eq]

theorem exponentField_eq_ones {b : BitVec 64} :
    exponentField b = -1#11 ↔ (exponentField b).toNat = 2047 := by
  rw [← BitVec.toNat_inj]
  rfl

theorem exponentField_eq_zero {b : BitVec 64} :
    exponentField b = 0#11 ↔ (exponentField b).toNat = 0 := by
  rw [← BitVec.toNat_inj]
  rfl

theorem bias_eq : ((Format.binary64.exponentBias : ℤ) + (52 : ℕ)) = 1075 := rfl

theorem unpack_canonical (b : BitVec 64) :
    Canonical (unpack Format.binary64 b) ∧ InRange (unpack Format.binary64 b) := by
  have hm := (fractionField b).isLt
  have he := (exponentField b).isLt
  rw [unpack]
  simp only [exponentField_eq_ones, exponentField_eq_zero]
  split
  next => split <;> exact ⟨trivial, trivial⟩
  next hones =>
    split
    next hzero =>
      split
      next => exact ⟨trivial, trivial⟩
      next =>
        simp only [Canonical, InRange, bias_eq, hzero]
        omega
    next hzero =>
      simp only [Canonical, InRange, bias_eq, toNat_implicit]
      change (2 ^ 52 + (fractionField b).toNat < 2 ^ 53 ∧
        -1074 ≤ ((exponentField b).toNat : ℤ) - 1075 ∧
        (2 ^ 52 ≤ 2 ^ 52 + (fractionField b).toNat ∨
          ((exponentField b).toNat : ℤ) - 1075 = -1074)) ∧
        ((exponentField b).toNat : ℤ) - 1075 ≤ 971
      omega

def isNegative : Sign → Bool
  | .negative => true
  | .positive => false

def decoded : UnpackedFloat → Decoded
  | .infinity s => .infinite (isNegative s)
  | .notANumber => .undefined
  | .zero s => .finite (isNegative s) 0 (-1074)
  | .finite s m e _ => .finite (isNegative s) m e

theorem isNegative_ofBitVec (b : BitVec 64) :
    isNegative (Sign.ofBitVec (signField b)) = decide (Nat.pow 2 63 ≤ b.toNat) := by
  have hs := signField_toNat b
  have hb := b.isLt
  have hz : signField b = 0#1 ↔ (signField b).toNat = 0 := by
    rw [← BitVec.toNat_inj]
    rfl
  rw [Sign.ofBitVec]
  split
  next h =>
    rw [hz, hs] at h
    simp only [isNegative, Nat.pow_eq, false_eq_decide_iff]
    omega
  next h =>
    rw [hz, hs] at h
    simp only [isNegative, Nat.pow_eq, true_eq_decide_iff]
    omega

theorem decode_eq (x : Float) : decode x = decoded x.toModel.unpack := by
  have hbits : x.toBits.toNat = x.toModel.toBits.toBitVec.toNat := rfl
  rw [Float.Model.unpack]
  generalize x.toModel.toBits.toBitVec = b at hbits ⊢
  have he := exponentField_toNat b
  have hm := fractionField_toNat b
  have hs := isNegative_ofBitVec b
  have hz : fractionField b = 0#52 ↔ (fractionField b).toNat = 0 := by
    rw [← BitVec.toNat_inj]
    rfl
  rw [decode, unpack]
  simp only [hbits, exponentField_eq_ones, exponentField_eq_zero, hz, Nat.pow_eq]
  simp only [Nat.pow_eq] at hs
  rw [← he, ← hm, ← hs]
  split
  next => split <;> rfl
  next hones =>
    split
    next hzero =>
      split
      next hzero' => simp only [decoded, hzero']
      next =>
        simp only [decoded, bias_eq, hzero]
        rfl
    next hzero =>
      simp only [decoded, bias_eq, toNat_implicit]

theorem implicit_pos (m : BitVec 52) : 0 < (1#1 ++ m).toNat := by
  rw [toNat_implicit]
  omega

theorem fraction_pos {m : BitVec 52} (h : ¬ m = 0#52) : 0 < m.toNat := by
  rw [← BitVec.toNat_inj] at h
  exact Nat.pos_of_ne_zero h

theorem unpack_packComponents (s : Sign) (e : BitVec 11) (m : BitVec 52) :
    unpack Format.binary64 (packComponents Format.binary64 s e m) =
      if e = -1#11 then if m = 0#52 then .infinity s else .notANumber
      else if e = 0#11 then
        if h : m = 0#52 then .zero s else .finite s m.toNat (-1074) (fraction_pos h)
      else .finite s (1#1 ++ m).toNat (e.toNat - 1075) (implicit_pos m) := by
  rw [unpack]
  simp only [unpackMantissa_packComponents, unpackExponent_packComponents, bias_eq]
  simp only [unpackSign_packComponents, Sign.ofBitVec_toBitVec]
  split
  next => rfl
  next =>
    split
    next he =>
      subst he
      rfl
    next => rfl

theorem unpack_pack_of_normal {s : Sign} {m : Nat} {e : ℤ} {h : 0 < m} (hlo : 2 ^ 52 ≤ m)
    (hhi : m < 2 ^ 53) (helo : -1074 ≤ e) (hehi : e ≤ 971) :
    unpack Format.binary64 (pack Format.binary64 (.finite s m e h)) = .finite s m e h := by
  have hlog : m.log2 = 52 := (Nat.log2_eq_iff h.ne').mpr ⟨hlo, hhi⟩
  have hexp : (e + Format.binary64.exponentBias + (52 : ℕ)).toNat = (e + 1075).toNat := by
    rw [add_assoc, bias_eq]
  have hfield : (BitVec.ofNat 11 (e + 1075).toNat).toNat = (e + 1075).toNat := by
    rw [BitVec.toNat_ofNat, Nat.mod_eq_of_lt (by omega)]
  have hones : ¬ BitVec.ofNat 11 (e + 1075).toNat = -1#11 := by
    rw [← BitVec.toNat_inj, hfield]
    change ¬ (e + 1075).toNat = 2047
    omega
  have hzero : ¬ BitVec.ofNat 11 (e + 1075).toNat = 0#11 := by
    rw [← BitVec.toNat_inj, hfield]
    change ¬ (e + 1075).toNat = 0
    omega
  have hmant : (1#1 ++ BitVec.ofNat 52 m).toNat = m := by
    rw [toNat_implicit, BitVec.toNat_ofNat]
    omega
  rw [pack]
  simp only [hlog, hexp]
  rw [if_neg (by simp; omega), if_pos (by rfl), unpack_packComponents, if_neg hones, if_neg hzero]
  congr 1
  omega

theorem unpack_pack_of_subnormal {s : Sign} {m : Nat} {h : 0 < m} (hhi : m < 2 ^ 52) :
    unpack Format.binary64 (pack Format.binary64 (.finite s m (-1074) h)) =
      .finite s m (-1074) h := by
  have hlog : m.log2 < 52 := (Nat.log2_lt h.ne').mpr hhi
  have hmant : (BitVec.ofNat 52 m).toNat = m := by
    rw [BitVec.toNat_ofNat, Nat.mod_eq_of_lt hhi]
  have hzero : ¬ BitVec.ofNat 52 m = 0#52 := by
    rw [← BitVec.toNat_inj, hmant]
    exact h.ne'
  rw [pack]
  rw [if_neg (by decide), if_neg (by simp [Format.mantissaBits]; omega), unpack_packComponents,
    if_neg (by decide), if_pos rfl, dif_neg hzero]
  congr 1

theorem unpack_pack_of_large {s : Sign} {m : Nat} {e : ℤ} {h : 0 < m} (he : 971 < e) :
    unpack Format.binary64 (pack Format.binary64 (.finite s m e h)) = .infinity s := by
  have hexp : (e + Format.binary64.exponentBias + (52 : ℕ)).toNat = (e + 1075).toNat := by
    rw [add_assoc, bias_eq]
  rw [pack]
  simp only [hexp]
  rw [if_pos (by simp; omega), packedInfinity, unpack_packComponents, if_pos rfl]
  rfl

theorem unpack_pack {u : UnpackedFloat} (hc : Canonical u) (hr : InRange u) :
    unpack Format.binary64 (pack Format.binary64 u) = u := by
  cases u with
  | infinity s => exact (unpack_packComponents s (-1#11) 0#52).trans rfl
  | notANumber => exact (unpack_packComponents .positive (-1#11) (1#52 <<< 51)).trans rfl
  | zero s => exact (unpack_packComponents s 0#11 0#52).trans rfl
  | finite s m e h =>
      obtain ⟨hhi, helo, hlo⟩ := hc
      rcases lt_or_ge m (2 ^ 52) with hm | hm
      · obtain rfl : e = -1074 := hlo.resolve_left (by omega)
        exact unpack_pack_of_subnormal hm
      · exact unpack_pack_of_normal hm hhi helo hr

theorem abs_apply (s : Sign) (m : Nat) : |s.apply m| = m := by
  cases s <;> simp [Sign.apply]

theorem representable_of_canonical {s : Sign} {m : Nat} {e : ℤ} {h : 0 < m}
    (hc : Canonical (.finite s m e h)) (hr : InRange (.finite s m e h)) :
    Representable (s.apply m * 2 ^ e) := by
  obtain ⟨hhi, helo, -⟩ := hc
  have hm : |s.apply m| < 2 ^ 53 := by
    rw [abs_apply]
    exact_mod_cast hhi
  refine ⟨⟨s.apply m, e, rfl, hm, helo⟩, (abs_lt_of_places hm).trans_le (two_zpow_le_limit ?_)⟩
  simp only [InRange] at hr
  omega

theorem overflow_apply (s : Sign) (q : ℚ) (hq : limit ≤ q) :
    overflow (s.apply 1 * q) = worth (.infinity s) := by
  have hl := limit_pos
  cases s with
  | positive => simp [Sign.apply, worth, overflow, hq]
  | negative =>
      simp only [Sign.apply, worth, overflow]
      push_cast
      rw [if_neg (by linarith), if_pos (by linarith)]

/-- A packed number is the number, or an infinity where that is too large. -/
theorem worth_pack {s : Sign} {m : Nat} {e : ℤ} {h : 0 < m} (hc : Canonical (.finite s m e h)) :
    worth (unpack Format.binary64 (pack Format.binary64 (.finite s m e h))) =
      overflow (s.apply m * 2 ^ e) := by
  rcases le_or_gt e 971 with he | he
  · have hr := representable_of_canonical hc he
    have ho := rounded_of_representable hr
    rw [rounded, nearest_of_representable hr] at ho
    rw [unpack_pack hc he, ho]
    rfl
  · obtain ⟨-, -, hlo⟩ := hc
    have hm : (2 : ℚ) ^ (52 : ℤ) ≤ m := by exact_mod_cast hlo.resolve_right (by omega)
    have hbig : limit ≤ m * 2 ^ e := by
      calc limit ≤ 2 ^ (52 + e) := zpow_le_zpow_right₀ (by norm_num) (by omega)
        _ = 2 ^ (52 : ℤ) * 2 ^ e := zpow_add₀ two_ne_zero 52 e
        _ ≤ m * 2 ^ e := mul_le_mul_of_nonneg_right hm (two_zpow_pos e).le
    have happly : (s.apply m : ℚ) * 2 ^ e = s.apply 1 * (m * 2 ^ e) := by
      cases s <;> simp [Sign.apply]
    rw [unpack_pack_of_large he, happly, overflow_apply s _ hbig]

end MilpRounding.Binary64
