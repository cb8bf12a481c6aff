import MilpRounding.Proofs.ExactOrder
import Mathlib.Data.Int.Log
import Mathlib.Tactic.FieldSimp
import Mathlib.Tactic.Positivity
import Mathlib.Tactic.Ring

namespace MilpRounding.Binary64

/-- The nearest integer; of two, the even one. -/
def nearestEven (x : ℚ) : ℤ :=
  if x - ⌊x⌋ < 1 / 2 ∨ x - ⌊x⌋ = 1 / 2 ∧ ⌊x⌋ % 2 = 0 then ⌊x⌋ else ⌊x⌋ + 1

/-- The exponent of the last place that is kept of a number. -/
def lastPlace (q : ℚ) : ℤ := max (Int.log 2 |q| - 52) (-1074)

def nearest (q : ℚ) : ℚ := nearestEven (q / 2 ^ lastPlace q) * 2 ^ lastPlace q

def limit : ℚ := 2 ^ (1024 : ℤ)

def overflow (q : ℚ) : Exact :=
  if limit ≤ q then .posInf else if q ≤ -limit then .negInf else .finite q

def rounded (q : ℚ) : Exact := overflow (nearest q)

structure Representable (q : ℚ) : Prop where
  grid : ∃ m t : ℤ, q = m * 2 ^ t ∧ |m| < 2 ^ 53 ∧ -1074 ≤ t
  range : |q| < limit

theorem nearestEven_intCast (n : ℤ) : nearestEven n = n := by
  simp [nearestEven]

theorem nearestEven_close (x : ℚ) : |nearestEven x - x| ≤ 1 / 2 := by
  have hlo := Int.floor_le x
  have hhi := Int.lt_floor_add_one x
  rw [abs_le]
  rw [nearestEven]
  split
  next h =>
    constructor
    · rcases h with h | h <;> linarith
    · linarith
  next h =>
    push Not at h
    push_cast
    constructor <;> linarith [h.1]

theorem nearestEven_mono {x y : ℚ} (h : x ≤ y) : nearestEven x ≤ nearestEven y := by
  have hfloor := Int.floor_mono h
  rcases hfloor.lt_or_eq with hlt | heq
  · have hx : nearestEven x ≤ ⌊x⌋ + 1 := by
      rw [nearestEven]
      split <;> omega
    have hy : ⌊y⌋ ≤ nearestEven y := by
      rw [nearestEven]
      split <;> omega
    omega
  · simp only [nearestEven]
    rw [heq]
    split
    next =>
      split <;> omega
    next hx =>
      rw [if_neg]
      rintro (hy | ⟨hy, heven⟩)
      · exact hx (.inl (by linarith))
      · by_cases hs : x - ⌊y⌋ < 1 / 2
        · exact hx (.inl hs)
        · exact hx (.inr ⟨by linarith, heven⟩)

theorem nearestEven_neg (x : ℚ) : nearestEven (-x) = -nearestEven x := by
  have hlo := Int.floor_le x
  have hhi := Int.lt_floor_add_one x
  rcases hlo.eq_or_lt with heq | hlt
  · rw [← heq, ← Int.cast_neg, nearestEven_intCast, nearestEven_intCast]
  · have hf : ⌊-x⌋ = -⌊x⌋ - 1 := by
      rw [Int.floor_eq_iff]
      push_cast
      constructor <;> linarith
    simp only [nearestEven]
    rw [hf]
    push_cast
    rcases lt_trichotomy (x - ⌊x⌋) (1 / 2) with h | h | h
    · rw [if_neg (by rintro (k | ⟨k, -⟩) <;> linarith), if_pos (.inl h)]
      omega
    · have hup : -x - (-⌊x⌋ - 1) = 1 / 2 := by linarith
      rcases Int.emod_two_eq ⌊x⌋ with he | ho
      · rw [if_neg (by rintro (k | ⟨-, k⟩) <;> [linarith; omega]), if_pos (.inr ⟨h, he⟩)]
        omega
      · rw [if_pos (.inr ⟨hup, by omega⟩), if_neg (by rintro (k | ⟨-, k⟩) <;> [linarith; omega])]
        omega
    · rw [if_pos (.inl (by linarith)), if_neg (by rintro (k | ⟨k, -⟩) <;> linarith)]
      omega

theorem two_zpow_pos (t : ℤ) : (0 : ℚ) < 2 ^ t := zpow_pos two_pos t

theorem two_zpow_le_of_lastPlace {q : ℚ} {k : ℤ} (hk : lastPlace q ≤ k) :
    (2 : ℚ) ^ k / 2 ^ lastPlace q = ((2 ^ (k - lastPlace q).toNat : ℤ) : ℚ) := by
  rw [← zpow_sub₀ two_ne_zero]
  push_cast
  rw [← zpow_natCast, Int.toNat_of_nonneg (by omega)]

theorem nearest_zero : nearest 0 = 0 := by
  simp [nearest, nearestEven]

theorem nearest_neg (q : ℚ) : nearest (-q) = -nearest q := by
  have hl : lastPlace (-q) = lastPlace q := by rw [lastPlace, abs_neg, ← lastPlace]
  rw [nearest, hl, neg_div, nearestEven_neg, Int.cast_neg, neg_mul, ← nearest]

theorem nearest_of_multiple {q : ℚ} {n : ℤ} (h : q = n * 2 ^ lastPlace q) : nearest q = q := by
  have hd : q / 2 ^ lastPlace q = n := by
    rw [div_eq_iff (two_zpow_pos _).ne', ← h]
  rw [nearest, hd, nearestEven_intCast, ← h]

theorem lastPlace_le {q : ℚ} {t : ℤ} (hq : q ≠ 0) (h : |q| < 2 ^ (t + 53)) (ht : -1074 ≤ t) :
    lastPlace q ≤ t := by
  have hlog := (Int.lt_zpow_iff_log_lt (b := 2) (by norm_num) (abs_pos.mpr hq)).mp
    (by exact_mod_cast h)
  exact max_le (by omega) ht

theorem abs_lt_of_places {m t : ℤ} (hm : |m| < 2 ^ 53) : |(m : ℚ) * 2 ^ t| < 2 ^ (t + 53) := by
  rw [abs_mul, abs_of_pos (two_zpow_pos t), add_comm, zpow_add₀ two_ne_zero]
  have hm' : (|m| : ℚ) < 2 ^ (53 : ℤ) := by exact_mod_cast hm
  exact mul_lt_mul_of_pos_right hm' (two_zpow_pos t)

theorem nearest_of_representable {q : ℚ} (hq : Representable q) : nearest q = q := by
  obtain ⟨⟨m, t, rfl, hm, ht⟩, -⟩ := hq
  by_cases hz : (m : ℚ) * 2 ^ t = 0
  · rw [hz, nearest_zero]
  · have hl := lastPlace_le hz (abs_lt_of_places hm) ht
    refine nearest_of_multiple (n := m * 2 ^ (t - lastPlace (m * 2 ^ t)).toNat) ?_
    have hsplit := two_zpow_le_of_lastPlace hl
    rw [div_eq_iff (two_zpow_pos _).ne'] at hsplit
    conv_lhs => rw [hsplit]
    push_cast
    ring

theorem rounded_of_representable {q : ℚ} (hq : Representable q) : rounded q = .finite q := by
  have hr := abs_lt.mp hq.range
  rw [rounded, nearest_of_representable hq, overflow, if_neg (by linarith), if_neg (by linarith)]

theorem limit_pos : 0 < limit := two_zpow_pos 1024

theorem overflow_mono {p q : ℚ} (h : p ≤ q) : overflow p ≤ overflow q := by
  simp only [overflow]
  have hl := limit_pos
  by_cases hq : limit ≤ q
  · rw [if_pos hq]
    split
    · simp [Exact.le_iff, Exact.less, Exact.same]
    · split <;> simp [Exact.le_iff, Exact.less, Exact.same]
  · rw [if_neg hq, if_neg (by linarith)]
    split
    next hp => split <;> simp [Exact.le_iff, Exact.less, Exact.same]
    next hp =>
      rw [if_neg (by linarith)]
      simpa using h

theorem overflow_neg (q : ℚ) : overflow (-q) = -overflow q := by
  simp only [overflow]
  have hl := limit_pos
  rcases lt_or_ge q limit with hq | hq
  · rcases lt_or_ge (-limit) q with hn | hn
    · rw [if_neg (by linarith), if_neg (by linarith), if_neg (by linarith), if_neg (by linarith)]
      rfl
    · rw [if_pos (by linarith), if_neg (by linarith), if_pos hn]
      rfl
  · rw [if_neg (by linarith), if_pos (by linarith), if_pos hq]
    rfl

theorem rounded_neg (q : ℚ) : rounded (-q) = -rounded q := by
  rw [rounded, nearest_neg, overflow_neg, ← rounded]

theorem nearest_nonneg {q : ℚ} (h : 0 ≤ q) : 0 ≤ nearest q := by
  have hd : 0 ≤ q / 2 ^ lastPlace q := div_nonneg h (two_zpow_pos _).le
  have he := nearestEven_mono hd
  rw [show nearestEven (0 : ℚ) = 0 from nearestEven_intCast 0] at he
  exact mul_nonneg (by exact_mod_cast he) (two_zpow_pos _).le

theorem nearest_le_two_zpow {q : ℚ} {k : ℤ} (hk : lastPlace q ≤ k) (h : q ≤ 2 ^ k) :
    nearest q ≤ 2 ^ k := by
  have hpos := two_zpow_pos (lastPlace q)
  have hd : q / 2 ^ lastPlace q ≤ 2 ^ k / 2 ^ lastPlace q := by gcongr
  rw [two_zpow_le_of_lastPlace hk] at hd
  have he := nearestEven_mono hd
  rw [nearestEven_intCast] at he
  rw [nearest, ← le_div_iff₀ hpos, two_zpow_le_of_lastPlace hk]
  exact_mod_cast he

theorem two_zpow_le_nearest {q : ℚ} {k : ℤ} (hk : lastPlace q ≤ k) (h : 2 ^ k ≤ q) :
    2 ^ k ≤ nearest q := by
  have hpos := two_zpow_pos (lastPlace q)
  have hd : 2 ^ k / 2 ^ lastPlace q ≤ q / 2 ^ lastPlace q := by gcongr
  rw [two_zpow_le_of_lastPlace hk] at hd
  have he := nearestEven_mono hd
  rw [nearestEven_intCast] at he
  rw [nearest, ← div_le_iff₀ hpos, two_zpow_le_of_lastPlace hk]
  exact_mod_cast he

theorem nearest_mono_of_pos {p q : ℚ} (hp : 0 < p) (h : p ≤ q) : nearest p ≤ nearest q := by
  have hq := hp.trans_le h
  have hlog : Int.log 2 p ≤ Int.log 2 q := Int.log_mono_right hp h
  have hlp : lastPlace p = max (Int.log 2 p - 52) (-1074) := by rw [lastPlace, abs_of_pos hp]
  have hlq : lastPlace q = max (Int.log 2 q - 52) (-1074) := by rw [lastPlace, abs_of_pos hq]
  rcases (show lastPlace p ≤ lastPlace q by omega).eq_or_lt with heq | hlt
  · have hd : p / 2 ^ lastPlace q ≤ q / 2 ^ lastPlace q := by
      have := two_zpow_pos (lastPlace q)
      gcongr
    have he := nearestEven_mono hd
    rw [nearest, nearest, heq]
    exact mul_le_mul_of_nonneg_right (by exact_mod_cast he) (two_zpow_pos _).le
  · -- the last place grows, so a power of two lies between the numbers
    have hlt' : Int.log 2 p < Int.log 2 q := by omega
    have hpk : p < 2 ^ Int.log 2 q := by
      exact_mod_cast (Int.lt_zpow_iff_log_lt (b := 2) (by norm_num) hp).mpr hlt'
    have hkq : (2 : ℚ) ^ Int.log 2 q ≤ q := by
      exact_mod_cast Int.zpow_log_le_self (b := 2) (by norm_num) hq
    calc nearest p ≤ 2 ^ Int.log 2 q := nearest_le_two_zpow (by omega) hpk.le
      _ ≤ nearest q := two_zpow_le_nearest (by omega) hkq

theorem nearest_mono {p q : ℚ} (h : p ≤ q) : nearest p ≤ nearest q := by
  rcases lt_or_ge 0 p with hp | hp
  · exact nearest_mono_of_pos hp h
  · have hp' : 0 ≤ nearest (-p) := nearest_nonneg (by linarith)
    rw [nearest_neg] at hp'
    rcases lt_or_ge q 0 with hq | hq
    · have hm := nearest_mono_of_pos (show 0 < -q by linarith) (neg_le_neg h)
      rw [nearest_neg, nearest_neg] at hm
      linarith
    · linarith [nearest_nonneg hq]

theorem rounded_mono {p q : ℚ} (h : p ≤ q) : rounded p ≤ rounded q := overflow_mono (nearest_mono h)

theorem nearest_close (q : ℚ) : |nearest q - q| ≤ 2 ^ lastPlace q / 2 := by
  have hpos := two_zpow_pos (lastPlace q)
  have hc := nearestEven_close (q / 2 ^ lastPlace q)
  have hq : q = q / 2 ^ lastPlace q * 2 ^ lastPlace q := (div_mul_cancel₀ q hpos.ne').symm
  calc |nearest q - q|
      = |(nearestEven (q / 2 ^ lastPlace q) - q / 2 ^ lastPlace q) * 2 ^ lastPlace q| := by
        rw [sub_mul, ← hq, nearest]
    _ ≤ 1 / 2 * 2 ^ lastPlace q := by
        rw [abs_mul, abs_of_pos hpos]
        exact mul_le_mul_of_nonneg_right hc hpos.le
    _ = 2 ^ lastPlace q / 2 := by ring

theorem eq_nearest_of_rounded {q d : ℚ} (h : rounded q = .finite d) : d = nearest q := by
  rw [rounded, overflow] at h
  split at h
  next => cases h
  next =>
    split at h
    next => cases h
    next => cases h; rfl

theorem two_zpow_le_limit {k : ℤ} (hk : k ≤ 1024) : (2 : ℚ) ^ k ≤ limit :=
  zpow_le_zpow_right₀ (by norm_num) hk

theorem representable_intCast {n : ℤ} (hn : |n| < 2 ^ 53) : Representable n := by
  refine ⟨⟨n, 0, by simp, hn, by norm_num⟩, lt_of_lt_of_le ?_ (two_zpow_le_limit (k := 53) (by decide))⟩
  exact_mod_cast hn

theorem rounded_of_near_one {q : ℚ} (hlo : 1 - 1 / 2 ^ 54 ≤ q) (hhi : q ≤ 1 + 1 / 2 ^ 54) :
    rounded q = .finite 1 := by
  have hl : nearest (1 - 1 / 2 ^ 54) = 1 := by decide +kernel
  have hh : nearest (1 + 1 / 2 ^ 54) = 1 := by decide +kernel
  have h : nearest q = nearest 1 := by
    have h₁ := nearest_mono hlo
    have h₂ := nearest_mono hhi
    have h₃ : nearest 1 = 1 := nearest_of_representable (representable_intCast (n := 1) (by norm_num))
    linarith
  rw [rounded, h, ← rounded]
  exact rounded_of_representable (representable_intCast (n := 1) (by norm_num))

theorem Representable.neg {q : ℚ} (hq : Representable q) : Representable (-q) := by
  obtain ⟨⟨m, t, hm, hlt, ht⟩, hr⟩ := hq
  refine ⟨⟨-m, t, ?_, by rwa [abs_neg], ht⟩, by rwa [abs_neg]⟩
  rw [hm]
  push_cast
  ring

theorem intCast_of_places (m : ℤ) {t : ℤ} (ht : 0 ≤ t) :
    (m : ℚ) * 2 ^ t = ((m * 2 ^ t.toNat : ℤ) : ℚ) := by
  push_cast
  rw [← zpow_natCast, Int.toNat_of_nonneg ht]

theorem Representable.ceil {q : ℚ} (hq : Representable q) : Representable (⌈q⌉ : ℚ) := by
  obtain ⟨⟨m, t, hm, hlt, ht⟩, -⟩ := id hq
  rcases lt_or_ge t 0 with hneg | hnonneg
  · have hle : (2 : ℚ) ^ (t + 53) ≤ 2 ^ (52 : ℤ) := zpow_le_zpow_right₀ (by norm_num) (by omega)
    have hsmall := (abs_lt_of_places hlt).trans_le hle
    rw [← hm] at hsmall
    have hbound := abs_lt.mp hsmall
    norm_num at hbound
    have h₁ : (⌈q⌉ : ℚ) < 2 ^ 53 := by linarith [Int.ceil_lt_add_one q]
    have h₂ : (-2 ^ 53 : ℚ) < ⌈q⌉ := by linarith [Int.le_ceil q]
    exact representable_intCast (abs_lt.mpr ⟨by exact_mod_cast h₂, by exact_mod_cast h₁⟩)
  · rw [show (⌈q⌉ : ℚ) = q by rw [hm, intCast_of_places m hnonneg, Int.ceil_intCast]]
    exact hq

theorem Representable.floor {q : ℚ} (hq : Representable q) : Representable (⌊q⌋ : ℚ) := by
  have h := hq.neg.ceil.neg
  rwa [Int.ceil_neg, Int.cast_neg, neg_neg] at h

/-- The distance of a small number from one may be rounded, but the sum is too close to one to be
anything else. -/
theorem rounded_add_to_one {q d : ℚ} (h₀ : 0 < q) (h₁ : q < 1) (hd : rounded (1 - q) = .finite d) :
    rounded (q + d) = .finite 1 := by
  have hplace : lastPlace (1 - q) ≤ -53 := by
    refine lastPlace_le (by linarith) ?_ (by decide)
    rw [abs_of_pos (by linarith)]
    norm_num
    exact h₀
  have hulp : (2 : ℚ) ^ lastPlace (1 - q) / 2 ≤ 1 / 2 ^ 54 := by
    have := zpow_le_zpow_right₀ (show (1 : ℚ) ≤ 2 by norm_num) hplace
    norm_num at this ⊢
    linarith
  have hclose := (nearest_close (1 - q)).trans hulp
  rw [← eq_nearest_of_rounded hd, abs_le] at hclose
  exact rounded_of_near_one (by linarith) (by linarith)

/-- The distance to the next integer is a multiple of the last place, so it is kept if it is short
enough. Otherwise the number is close to zero and the next integer is one. -/
theorem rounded_add_to_ceil {q d : ℚ} (hq : Representable q) (hd : rounded (⌈q⌉ - q) = .finite d) :
    rounded (q + d) = .finite ⌈q⌉ := by
  obtain ⟨⟨m, t, hm, hlt, ht⟩, -⟩ := id hq
  have hceil := Int.le_ceil q
  have hceil' := Int.ceil_lt_add_one q
  rcases lt_or_ge t 0 with hneg | hnonneg
  · have hpow : (2 : ℚ) ^ (-t).toNat * 2 ^ t = 1 := by
      rw [← zpow_natCast, Int.toNat_of_nonneg (by omega), ← zpow_add₀ two_ne_zero,
        neg_add_cancel, zpow_zero]
    obtain ⟨k, hk⟩ : ∃ k : ℤ, (⌈q⌉ : ℚ) - q = k * 2 ^ t := by
      refine ⟨⌈q⌉ * 2 ^ (-t).toNat - m, ?_⟩
      push_cast
      rw [sub_mul, mul_assoc, hpow, mul_one, ← hm]
    have hk₀ : 0 ≤ k := by
      have h : (0 : ℚ) ≤ k * 2 ^ t := by linarith
      exact_mod_cast nonneg_of_mul_nonneg_left h (two_zpow_pos t)
    have hsmall : |q| < 2 ^ (t + 53) := hm ▸ abs_lt_of_places hlt
    rcases lt_or_ge k (2 ^ 53) with hshort | hlong
    · have hδ : Representable (⌈q⌉ - q) := by
        refine ⟨⟨k, t, hk, by rwa [abs_of_nonneg hk₀], ht⟩, ?_⟩
        rw [abs_of_nonneg (by linarith)]
        exact (show (⌈q⌉ : ℚ) - q < 1 by linarith).trans_le (two_zpow_le_limit (k := 0) (by decide))
      rw [eq_nearest_of_rounded hd, nearest_of_representable hδ, add_sub_cancel]
      exact rounded_of_representable hq.ceil
    -- more than 53 places apart: the number is tiny beside its distance from one
    · have hfar : (2 : ℚ) ^ (t + 53) ≤ ⌈q⌉ - q := by
        rw [hk, add_comm, zpow_add₀ two_ne_zero]
        exact mul_le_mul_of_nonneg_right (by exact_mod_cast hlong) (two_zpow_pos t).le
      have hbound := abs_lt.mp hsmall
      have hpos : 0 < q := by
        by_contra hneg
        have hzero : ⌈q⌉ = 0 := Int.ceil_eq_iff.mpr ⟨by push_cast; linarith, by
          push_cast
          linarith⟩
        rw [hzero] at hfar
        push_cast at hfar
        linarith
      have hone : ⌈q⌉ = 1 := Int.ceil_eq_iff.mpr ⟨by push_cast; linarith, by
        push_cast
        linarith⟩
      rw [hone] at hd ⊢
      push_cast at hd ⊢
      exact rounded_add_to_one hpos (by linarith) hd
  · have hc : (⌈q⌉ : ℚ) = q := by rw [hm, intCast_of_places m hnonneg, Int.ceil_intCast]
    have hz : d = 0 := by rw [eq_nearest_of_rounded hd, hc, sub_self, nearest_zero]
    rw [hz, add_zero, hc, rounded_of_representable hq]

end MilpRounding.Binary64
