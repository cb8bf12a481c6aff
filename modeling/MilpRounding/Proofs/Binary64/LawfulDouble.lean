import MilpRounding.Proofs.Binary64.Rounding
import MilpRounding.Proofs.LawfulScalar

namespace MilpRounding.Binary64

open Float.Model (Format UnpackedFloat)
open Float.Model.UnpackedFloat

theorem canonical (x : Float) : Canonical x.toModel.unpack := (unpack_canonical _).1

theorem inRange (x : Float) : InRange x.toModel.unpack := (unpack_canonical _).2

theorem apply_pos {m : Nat} (h : 0 < m) (e : ℤ) :
    (0 : ℚ) < (Sign.positive.apply m : ℤ) * 2 ^ e := by
  simpa [Sign.apply] using places_pos h e

theorem apply_neg {m : Nat} (h : 0 < m) (e : ℤ) :
    (Sign.negative.apply m : ℤ) * (2 : ℚ) ^ e < 0 := by
  simpa [Sign.apply] using places_pos h e

theorem places_lt {s s' : Sign} {m m' : Nat} {e e' : ℤ} {h : 0 < m} {h' : 0 < m'}
    (hc : Canonical (.finite s m e h)) (hc' : Canonical (.finite s' m' e' h'))
    (hlt : e < e' ∨ e = e' ∧ m < m') : (m : ℚ) * 2 ^ e < m' * 2 ^ e' := by
  obtain ⟨hhi, helo, -⟩ := hc
  obtain ⟨-, -, hlo'⟩ := hc'
  rcases hlt with hlt | ⟨rfl, hlt⟩
  · have hm : (m : ℚ) < 2 ^ (53 : ℤ) := by exact_mod_cast hhi
    have hm' : (2 : ℚ) ^ (52 : ℤ) ≤ m' := by exact_mod_cast hlo'.resolve_right (by omega)
    calc (m : ℚ) * 2 ^ e < 2 ^ (53 : ℤ) * 2 ^ e := mul_lt_mul_of_pos_right hm (two_zpow_pos e)
      _ = 2 ^ (53 + e) := (zpow_add₀ two_ne_zero 53 e).symm
      _ ≤ 2 ^ (52 + e') := zpow_le_zpow_right₀ (by norm_num) (by omega)
      _ = 2 ^ (52 : ℤ) * 2 ^ e' := zpow_add₀ two_ne_zero 52 e'
      _ ≤ m' * 2 ^ e' := mul_le_mul_of_nonneg_right hm' (two_zpow_pos e').le
  · exact mul_lt_mul_of_pos_right (by exact_mod_cast hlt) (two_zpow_pos e)

/-- The comparison of exact numbers; nothing compares with the undefined one. -/
def ordering (a b : Exact) : Option Ordering :=
  if Exact.isNaN a || Exact.isNaN b then none
  else if Exact.less a b then some .lt
  else if Exact.same a b then some .eq
  else some .gt

theorem less_same_of_isNaN {a b : Exact} (h : (Exact.isNaN a || Exact.isNaN b) = true) :
    Exact.less a b = false ∧ Exact.same a b = false := by
  cases a <;> cases b <;> simp_all [Exact.isNaN, Exact.less, Exact.same]

theorem same_of_less {a b : Exact} (h : Exact.less a b = true) : Exact.same a b = false := by
  cases a <;> cases b <;> simp_all [Exact.less, Exact.same]
  exact h.ne

theorem ordering_eq_lt (a b : Exact) : (ordering a b == some .lt) = Exact.less a b := by
  rw [ordering]
  cases hn : Exact.isNaN a || Exact.isNaN b with
  | true => rw [(less_same_of_isNaN hn).1]; rfl
  | false => cases Exact.less a b <;> cases Exact.same a b <;> rfl

theorem ordering_eq_eq (a b : Exact) : (ordering a b == some .eq) = Exact.same a b := by
  rw [ordering]
  cases hn : Exact.isNaN a || Exact.isNaN b with
  | true => rw [(less_same_of_isNaN hn).2]; rfl
  | false =>
      cases hl : Exact.less a b with
      | true => rw [same_of_less hl]; rfl
      | false => cases Exact.same a b <;> rfl

theorem ordering_any_isLE (a b : Exact) :
    (ordering a b).any (·.isLE) = (Exact.less a b || Exact.same a b) := by
  rw [ordering]
  cases hn : Exact.isNaN a || Exact.isNaN b with
  | true => rw [(less_same_of_isNaN hn).1, (less_same_of_isNaN hn).2]; rfl
  | false => cases Exact.less a b <;> cases Exact.same a b <;> rfl

theorem ordering_finite (p q : ℚ) : ordering (.finite p) (.finite q) = some (compare p q) := by
  rcases lt_trichotomy p q with h | rfl | h
  · simp [ordering, Exact.isNaN, Exact.less, h, compare_lt_iff_lt.mpr h]
  · simp [ordering, Exact.isNaN, Exact.less, Exact.same]
  · simp [ordering, Exact.isNaN, Exact.less, Exact.same, h.not_gt, h.ne', compare_gt_iff_gt.mpr h]

theorem compare_neg (p q : ℚ) : compare (-p) (-q) = (compare p q).swap := by
  rcases lt_trichotomy p q with h | rfl | h
  · rw [compare_lt_iff_lt.mpr h, compare_gt_iff_gt.mpr (neg_lt_neg h)]
    rfl
  · rw [compare_eq_iff_eq.mpr rfl, compare_eq_iff_eq.mpr rfl]
    rfl
  · rw [compare_gt_iff_gt.mpr h, compare_lt_iff_lt.mpr (neg_lt_neg h)]
    rfl

theorem compare_places {s s' : Sign} {m m' : Nat} {e e' : ℤ} {h : 0 < m} {h' : 0 < m'}
    (hc : Canonical (.finite s m e h)) (hc' : Canonical (.finite s' m' e' h')) :
    (compare e e').then (compare m m') = compare ((m : ℚ) * 2 ^ e) (m' * 2 ^ e') := by
  rcases lt_trichotomy e e' with he | rfl | he
  · rw [compare_lt_iff_lt.mpr he, compare_lt_iff_lt.mpr (places_lt hc hc' (.inl he))]
    rfl
  · rw [compare_eq_iff_eq.mpr rfl]
    rcases lt_trichotomy m m' with hm | rfl | hm
    · rw [compare_lt_iff_lt.mpr hm, compare_lt_iff_lt.mpr (places_lt hc hc' (.inr ⟨rfl, hm⟩))]
      rfl
    · rw [compare_eq_iff_eq.mpr rfl, compare_eq_iff_eq.mpr rfl]
      rfl
    · rw [compare_gt_iff_gt.mpr hm, compare_gt_iff_gt.mpr (places_lt hc' hc (.inr ⟨rfl, hm⟩))]
      rfl
  · rw [compare_gt_iff_gt.mpr he, compare_gt_iff_gt.mpr (places_lt hc' hc (.inl he))]
    rfl

theorem compare_eq {u v : UnpackedFloat} (hu : Canonical u) (hv : Canonical v) :
    UnpackedFloat.compare u v = ordering (worth u) (worth v) := by
  cases u with
  | notANumber => cases v <;> rfl
  | infinity s =>
      cases v with
      | infinity t => cases s <;> cases t <;> rfl
      | _ => cases s <;> rfl
  | zero s =>
      cases v with
      | notANumber => rfl
      | infinity t => cases t <;> rfl
      | zero t => rfl
      | finite t m e h =>
          rw [worth, worth, ordering_finite]
          cases t with
          | positive => rw [compare_lt_iff_lt.mpr (apply_pos h e)]; rfl
          | negative => rw [compare_gt_iff_gt.mpr (apply_neg h e)]; rfl
  | finite s m e h =>
      cases v with
      | notANumber => rfl
      | infinity t => cases s <;> cases t <;> rfl
      | zero t =>
          rw [worth, worth, ordering_finite]
          cases s with
          | positive => rw [compare_gt_iff_gt.mpr (apply_pos h e)]; rfl
          | negative => rw [compare_lt_iff_lt.mpr (apply_neg h e)]; rfl
      | finite t m' e' h' =>
          rw [worth, worth, ordering_finite]
          have hcompare := compare_places hu hv
          cases s with
          | positive =>
              cases t with
              | positive => simp [UnpackedFloat.compare, hcompare, Sign.apply]
              | negative =>
                  rw [compare_gt_iff_gt.mpr ((apply_neg h' e').trans (apply_pos h e))]
                  rfl
          | negative =>
              cases t with
              | positive =>
                  rw [compare_lt_iff_lt.mpr ((apply_neg h e).trans (apply_pos h' e'))]
                  rfl
              | negative =>
                  simp [UnpackedFloat.compare, hcompare, Sign.apply, compare_neg]

theorem lt_iff (a b : Float) : a < b ↔ exactOf a < exactOf b := by
  have h : a < b ↔ a.toModel.unpack.lt b.toModel.unpack = true := by
    change decide (a.toModel < b.toModel) = true ↔ _
    rw [decide_eq_true_iff]
    rfl
  rw [h, UnpackedFloat.lt, compare_eq (canonical a) (canonical b), ordering_eq_lt]
  rfl

theorem le_iff (a b : Float) : a ≤ b ↔ exactOf a ≤ exactOf b := by
  have h : a ≤ b ↔ a.toModel.unpack.le b.toModel.unpack = true := by
    change decide (a.toModel ≤ b.toModel) = true ↔ _
    rw [decide_eq_true_iff]
    rfl
  rw [h, UnpackedFloat.le, compare_eq (canonical a) (canonical b), ordering_any_isLE]
  rfl

theorem beq_eq (a b : Float) : (a == b) = (exactOf a == exactOf b) := by
  change a.toModel.unpack.beq b.toModel.unpack = _
  rw [UnpackedFloat.beq, compare_eq (canonical a) (canonical b), ordering_eq_eq]
  rfl

theorem isNaN_eq (a : Float) : isNaN a = Exact.isNaN (exactOf a) := by
  rw [isNaN, decode_eq, exactOf]
  cases a.toModel.unpack with
  | infinity s => cases s <;> rfl
  | _ => rfl

theorem isFinite_eq (a : Float) : isFinite a = Exact.isFinite (exactOf a) := by
  rw [isFinite, decode_eq, exactOf]
  cases a.toModel.unpack with
  | infinity s => cases s <;> rfl
  | _ => rfl

theorem neg_apply (s : Sign) (n : ℤ) : (-s).apply n = -s.apply n := by
  cases s with
  | negative => exact (neg_neg n).symm
  | positive => rfl

theorem worth_neg (u : UnpackedFloat) : worth u.neg = -worth u := by
  cases u with
  | infinity s => cases s <;> rfl
  | notANumber => rfl
  | zero s => rfl
  | finite s m e h =>
      rw [UnpackedFloat.neg, worth, worth, neg_apply, Exact.neg_finite]
      push_cast
      rw [neg_mul]

theorem canonical_neg {u : UnpackedFloat} (h : Canonical u) : Canonical u.neg := by
  cases u <;> exact h

theorem inRange_neg {u : UnpackedFloat} (h : InRange u) : InRange u.neg := by
  cases u <;> exact h

theorem exactOf_neg (a : Float) : exactOf (-a) = -exactOf a := by
  change worth (unpack Format.binary64 (pack Format.binary64 a.toModel.unpack.neg)) = _
  rw [unpack_pack (canonical_neg (canonical a)) (inRange_neg (inRange a)), worth_neg]
  rfl

theorem neg_neg_unpacked (u : UnpackedFloat) : u.neg.neg = u := by
  have hs (s : Sign) : - -s = s := by cases s <;> rfl
  cases u <;> simp only [UnpackedFloat.neg, hs]

/-- With a single undefined number, the bits of a number can be told from what it stands for. -/
theorem pack_unpack_of_valid {b : BitVec 64} (h : Format.binary64.Valid b) :
    pack Format.binary64 (unpack Format.binary64 b) = b := by
  rw [@pack_unpack Format.binary64 b (by decide)]
  split
  next hn =>
    obtain ⟨hexponent, hmantissa⟩ := of_decide_eq_true hn
    exact (h.eq_packedNaN hexponent hmantissa).symm
  next => rfl

instance : InvolutiveScalar Float where
  neg_neg := by
    rintro ⟨⟨⟨b⟩, hb⟩⟩
    have hu := unpack_canonical b
    change Float.ofModel (Float.Model.pack (unpack Format.binary64
      (pack Format.binary64 (unpack Format.binary64 b).neg)).neg) = _
    rw [unpack_pack (canonical_neg hu.1) (inRange_neg hu.2), neg_neg_unpacked]
    simp only [Float.Model.pack, pack_unpack_of_valid hb]

theorem worth_eq_finite {u : UnpackedFloat} {q : ℚ} (h : worth u = .finite q) :
    (q = 0 ∧ ∃ s, u = .zero s) ∨ ∃ s m e hm, u = .finite s m e hm ∧ q = s.apply m * 2 ^ e := by
  cases u with
  | infinity s => cases s <;> cases h
  | notANumber => cases h
  | zero s =>
      cases h
      exact .inl ⟨rfl, s, rfl⟩
  | finite s m e hm =>
      cases h
      exact .inr ⟨s, m, e, hm, rfl, rfl⟩

theorem representable_of_worth {u : UnpackedFloat} (hc : Canonical u) (hr : InRange u) {q : ℚ}
    (h : worth u = .finite q) : Representable q := by
  obtain ⟨rfl, -⟩ | ⟨s, m, e, hm, rfl, rfl⟩ := worth_eq_finite h
  · simpa using representable_intCast (n := 0) (by norm_num)
  · exact representable_of_canonical hc hr

theorem representable {a : Float} {q : ℚ} (h : exactOf a = .finite q) : Representable q :=
  representable_of_worth (canonical a) (inRange a) h

theorem apply_decreaseExponent (s : Sign) (m : Nat) {e t : ℤ} (h : t ≤ e) :
    ((s.apply (decreaseExponent m e t).1 : ℤ) : ℚ) * 2 ^ t = s.apply m * 2 ^ e := by
  have hexp : (decreaseExponent m e t).2 = t := by
    simp only [decreaseExponent]
    omega
  have hworth := decreaseExponent_worth m e t
  rw [hexp] at hworth
  cases s <;> simp only [Sign.apply] <;> push_cast <;> linarith

theorem worth_add {u v : UnpackedFloat} (hu : Canonical u ∧ InRange u)
    (hv : Canonical v ∧ InRange v) {p q : ℚ} (hp : worth u = .finite p)
    (hq : worth v = .finite q) :
    worth (unpack Format.binary64 (pack Format.binary64 (UnpackedFloat.add Format.binary64 u v))) =
      rounded (p + q) := by
  have hkeepu := rounded_of_representable (representable_of_worth hu.1 hu.2 hp)
  have hkeepv := rounded_of_representable (representable_of_worth hv.1 hv.2 hq)
  obtain ⟨rfl, s, rfl⟩ | ⟨s, m, e, h, rfl, rfl⟩ := worth_eq_finite hp
  · rw [zero_add, hkeepv]
    obtain ⟨rfl, t, rfl⟩ | ⟨t, m', e', h', rfl, rfl⟩ := worth_eq_finite hq
    · cases s <;> cases t <;> exact congrArg worth (unpack_pack (u := .zero _) trivial trivial)
    · exact congrArg worth (unpack_pack hv.1 hv.2)
  · obtain ⟨rfl, t, rfl⟩ | ⟨t, m', e', h', rfl, rfl⟩ := worth_eq_finite hq
    · rw [add_zero, hkeepu]
      exact congrArg worth (unpack_pack hu.1 hu.2)
    · simp only [UnpackedFloat.add]
      rw [worth_normalize]
      push_cast
      rw [add_mul, apply_decreaseExponent s m (min_le_left e e'),
        apply_decreaseExponent t m' (min_le_right e e')]

theorem sub_eq_add_neg_unpacked (u v : UnpackedFloat) :
    UnpackedFloat.sub Format.binary64 u v = UnpackedFloat.add Format.binary64 u v.neg := by
  cases u with
  | notANumber => cases v <;> rfl
  | infinity s => cases v <;> rfl
  | zero s => cases v <;> rfl
  | finite s m e h =>
      cases v with
      | finite t m' e' h' =>
          simp only [UnpackedFloat.sub, UnpackedFloat.add, UnpackedFloat.neg, neg_apply, sub_eq_add_neg]
      | _ => rfl

theorem exactOf_add {a b : Float} {p q : ℚ} (ha : exactOf a = .finite p)
    (hb : exactOf b = .finite q) : exactOf (a + b) = rounded (p + q) :=
  worth_add ⟨canonical a, inRange a⟩ ⟨canonical b, inRange b⟩ ha hb

theorem exactOf_sub {a b : Float} {p q : ℚ} (ha : exactOf a = .finite p)
    (hb : exactOf b = .finite q) : exactOf (a - b) = rounded (p - q) := by
  change worth (unpack Format.binary64 (pack Format.binary64
    (UnpackedFloat.sub Format.binary64 a.toModel.unpack b.toModel.unpack))) = _
  rw [sub_eq_add_neg_unpacked, sub_eq_add_neg]
  refine worth_add ⟨canonical a, inRange a⟩
    ⟨canonical_neg (canonical b), inRange_neg (inRange b)⟩ ha ?_
  rw [worth_neg, show worth b.toModel.unpack = .finite q from hb, Exact.neg_finite]

theorem exactOf_ofInt {n : ℤ} (hn : Representable n) : exactOf (ofInt n) = .finite n := by
  have h := worth_normalize n 0 .positive
  rw [zpow_zero, mul_one, rounded_of_representable hn] at h
  exact h

theorem signed_eq (s : Sign) (n : Nat) : signed (isNegative s) n = s.apply n := by
  cases s <;> rfl

theorem apply_mul (s : Sign) (m n : Nat) : s.apply (m * n : Nat) = s.apply m * n := by
  cases s <;> simp [Sign.apply]

theorem div_of_places (m : ℤ) {e : ℤ} (he : ¬ 0 ≤ e) :
    (m : ℚ) * 2 ^ e = m / ((2 ^ (-e).toNat : Nat) : ℚ) := by
  have h : (2 : ℚ) ^ e = (2 ^ (-e).toNat)⁻¹ := by
    rw [← zpow_natCast, Int.toNat_of_nonneg (by omega), zpow_neg, inv_inv]
  rw [h]
  push_cast
  rfl

theorem floor_eq {a : Float} {q : ℚ} (h : exactOf a = .finite q) : floor a = ⌊q⌋ := by
  rw [floor, decode_eq]
  obtain ⟨rfl, s, hu⟩ | ⟨s, m, e, hm, hu, rfl⟩ := worth_eq_finite h
  · rw [hu]
    cases s <;> rfl
  · rw [hu]
    simp only [decoded, signed_eq]
    split
    next he =>
      rw [intCast_of_places (s.apply m) he, Int.floor_intCast, apply_mul]
      rfl
    next he =>
      rw [div_of_places (s.apply m) he, Rat.floor_intCast_div_natCast,
        Int.fdiv_eq_ediv_of_nonneg _ (Int.natCast_nonneg _)]
      rfl

theorem ceil_eq {a : Float} {q : ℚ} (h : exactOf a = .finite q) : ceil a = ⌈q⌉ := by
  rw [ceil, decode_eq]
  obtain ⟨rfl, s, hu⟩ | ⟨s, m, e, hm, hu, rfl⟩ := worth_eq_finite h
  · rw [hu]
    cases s <;> rfl
  · rw [hu]
    simp only [decoded, signed_eq]
    split
    next he =>
      rw [intCast_of_places (s.apply m) he, Int.ceil_intCast, apply_mul]
      rfl
    next he =>
      rw [div_of_places (s.apply m) he, Rat.ceil_intCast_div_natCast,
        Int.fdiv_eq_ediv_of_nonneg _ (Int.natCast_nonneg _)]
      rfl

instance : LawfulScalar Float where
  denote := exactOf
  round := rounded
  lt_iff_denote := lt_iff
  le_iff_denote := le_iff
  beq_eq_denote := beq_eq
  isNaN_denote := isNaN_eq
  isFinite_denote := isFinite_eq
  denote_zero := rfl
  denote_one := exactOf_ofInt (n := 1) (representable_intCast (by norm_num))
  denote_infinity := rfl
  denote_neg := exactOf_neg
  denote_add := exactOf_add
  denote_sub := exactOf_sub
  denote_above h := by
    rw [Scalar.above, show Scalar.ceil _ = _ from ceil_eq h]
    exact exactOf_ofInt (representable h).ceil
  denote_underneath h := by
    rw [Scalar.underneath, show Scalar.floor _ = _ from floor_eq h]
    exact exactOf_ofInt (representable h).floor
  round_mono := rounded_mono
  round_neg := rounded_neg
  round_denote h := rounded_of_representable (representable h)
  round_add_to_ceil h hd := rounded_add_to_ceil (representable h) hd

end MilpRounding.Binary64
