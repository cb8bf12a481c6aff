import MilpRounding.Proofs.SoundStore
import MilpRounding.Rounding.Step

namespace MilpRounding

open Scalar LawfulScalar

variable {α : Type} [Scalar α] [LawfulScalar α]

namespace Variable

theorem Sound.admits_above {v : Variable α} (hv : v.Sound) {t : α} {q r : ℚ}
    (hq : denote v.value = .finite q) (hr : denote t = .finite r) (h : q ≤ r)
    (hhigh : ¬ v.high < t) : admits v.low v.high t = true := by
  obtain ⟨-, hlow, -⟩ := admits_iff.mp hv.admitted
  refine admits_iff.mpr ⟨isFinite_iff_denote.mpr ⟨r, hr⟩, ?_, hhigh⟩
  rw [lt_iff_denote, hq] at hlow
  rw [lt_iff_denote, hr]
  exact fun k => hlow (Exact.lt_of_le_of_lt (by simpa using h) k)

theorem Sound.admits_below {v : Variable α} (hv : v.Sound) {t : α} {q r : ℚ}
    (hq : denote v.value = .finite q) (hr : denote t = .finite r) (h : r ≤ q)
    (hlow : ¬ t < v.low) : admits v.low v.high t = true := by
  obtain ⟨-, -, hhigh⟩ := admits_iff.mp hv.admitted
  refine admits_iff.mpr ⟨isFinite_iff_denote.mpr ⟨r, hr⟩, hlow, ?_⟩
  rw [lt_iff_denote, hq] at hhigh
  rw [lt_iff_denote, hr]
  exact fun k => hhigh (Exact.lt_of_lt_of_le k (by simpa using h))

theorem Sound.lesser_between {v : Variable α} (hv : v.Sound) {t : α} {q r : ℚ}
    (hq : denote v.value = .finite q) (hr : denote t = .finite r) (h : q ≤ r) :
    ∃ b, denote (lesser t v.high) = .finite b ∧ q ≤ b ∧ b ≤ r ∧ ¬ v.high < lesser t v.high := by
  obtain ⟨-, -, hhigh⟩ := admits_iff.mp hv.admitted
  rw [lt_iff_denote, hq] at hhigh
  rw [lesser]
  split
  next hcut =>
    rw [lt_iff_denote, hr] at hcut
    obtain ⟨b, hb, hqb, hbr⟩ := Exact.eq_finite_of_le_of_le
      (Exact.le_of_not_lt (by simp) (Exact.ne_undefined_of_lt_left hcut) hhigh)
      (Exact.le_of_lt hcut)
    refine ⟨b, hb, hqb, hbr, ?_⟩
    rw [lt_iff_denote]
    exact Exact.lt_irrefl _
  next hcut => exact ⟨r, hr, h, le_rfl, hcut⟩

theorem Sound.greater_between {v : Variable α} (hv : v.Sound) {t : α} {q r : ℚ}
    (hq : denote v.value = .finite q) (hr : denote t = .finite r) (h : r ≤ q) :
    ∃ b, denote (greater t v.low) = .finite b ∧ r ≤ b ∧ b ≤ q ∧ ¬ greater t v.low < v.low := by
  obtain ⟨-, hlow, -⟩ := admits_iff.mp hv.admitted
  rw [lt_iff_denote, hq] at hlow
  rw [greater]
  split
  next hcut =>
    rw [lt_iff_denote, hr] at hcut
    obtain ⟨b, hb, hrb, hbq⟩ := Exact.eq_finite_of_le_of_le (Exact.le_of_lt hcut)
      (Exact.le_of_not_lt (Exact.ne_undefined_of_lt_right hcut) (by simp) hlow)
    refine ⟨b, hb, hrb, hbq, ?_⟩
    rw [lt_iff_denote]
    exact Exact.lt_irrefl _
  next hcut => exact ⟨r, hr, le_rfl, h, hcut⟩

/-- The upper target lies between the value and the next integer, and not above the bound. -/
theorem Sound.target_up_between {v : Variable α} (hv : v.Sound) {q : ℚ}
    (hq : denote v.value = .finite q) (limit : α) :
    let t := v.target (greater 0 (lesser (lesser (v.high - v.value) limit)
      (above v.value - v.value))) .up
    ∃ r, denote t = .finite r ∧ q ≤ r ∧ r ≤ ⌈q⌉ ∧ ¬ v.high < t := by
  obtain ⟨d, hd, h₀, hround⟩ := denote_distance_up hq
  obtain ⟨t, ht, ht₀, htd⟩ := denote_step (v.high - v.value) limit hd h₀
  simp only [target]
  split
  next hto =>
    simp only [Bool.and_eq_true, decide_eq_true_eq] at hto
    refine ⟨⌈q⌉, denote_above hq, Int.le_ceil q, le_rfl, ?_⟩
    have hup := hto.2
    rw [le_iff_denote] at hup
    rw [lt_iff_denote]
    exact Exact.not_lt_of_le hup
  next =>
    have hlo : round α q ≤ round α (q + t) := round_mono (by linarith)
    have hhi : round α (q + t) ≤ round α (q + d) := round_mono (by linarith)
    rw [round_denote hq] at hlo
    rw [hround] at hhi
    obtain ⟨r, hr, hqr, hrc⟩ := Exact.eq_finite_of_le_of_le hlo hhi
    obtain ⟨b, hb, hqb, hbr, hhigh⟩ := hv.lesser_between hq (by rw [denote_add hq ht, hr]) hqr
    exact ⟨b, hb, hqb, hbr.trans hrc, hhigh⟩

theorem Sound.target_down_between {v : Variable α} (hv : v.Sound) {q : ℚ}
    (hq : denote v.value = .finite q) (limit : α) :
    let t := v.target (greater 0 (lesser (lesser (v.value - v.low) limit)
      (v.value - underneath v.value))) .down
    ∃ r, denote t = .finite r ∧ ⌊q⌋ ≤ r ∧ r ≤ q ∧ ¬ t < v.low := by
  obtain ⟨d, hd, h₀, hround⟩ := denote_distance_down hq
  obtain ⟨t, ht, ht₀, htd⟩ := denote_step (v.value - v.low) limit hd h₀
  simp only [target]
  split
  next hto =>
    simp only [Bool.and_eq_true, decide_eq_true_eq] at hto
    refine ⟨⌊q⌋, denote_underneath hq, le_rfl, Int.floor_le q, ?_⟩
    have hdown := hto.2
    rw [le_iff_denote] at hdown
    rw [lt_iff_denote]
    exact Exact.not_lt_of_le hdown
  next =>
    have hlo : round α (q - d) ≤ round α (q - t) := round_mono (by linarith)
    have hhi : round α (q - t) ≤ round α q := round_mono (by linarith)
    rw [hround] at hlo
    rw [round_denote hq] at hhi
    obtain ⟨r, hr, hfr, hrq⟩ := Exact.eq_finite_of_le_of_le hlo hhi
    obtain ⟨b, hb, hrb, hbq, hlow⟩ := hv.greater_between hq (by rw [denote_sub hq ht, hr]) hrq
    exact ⟨b, hb, hfr.trans hrb, hbq, hlow⟩

end Variable

namespace Tableau

omit [LawfulScalar α] in
theorem variableAt_sound {s : Store α} (hs : s.Sound) (y : Tableau α) (j : Nat) :
    (y.variableAt s j).Sound :=
  hs (y.ref j)

theorem targetUp_between {s : Store α} (hs : s.Sound) (y : Tableau α) {j : Nat} {q : ℚ}
    (hq : denote (y.variableAt s j).value = .finite q) :
    ∃ r, denote (y.targetUp s j) = .finite r ∧ q ≤ r ∧ r ≤ ⌈q⌉ ∧
      ¬ (y.variableAt s j).high < y.targetUp s j :=
  (y.variableAt_sound hs j).target_up_between hq _

theorem targetDown_between {s : Store α} (hs : s.Sound) (y : Tableau α) {j : Nat} {q : ℚ}
    (hq : denote (y.variableAt s j).value = .finite q) :
    ∃ r, denote (y.targetDown s j) = .finite r ∧ ⌊q⌋ ≤ r ∧ r ≤ q ∧
      ¬ y.targetDown s j < (y.variableAt s j).low :=
  (y.variableAt_sound hs j).target_down_between hq _

theorem admits_targetUp {s : Store α} (hs : s.Sound) (y : Tableau α) (j : Nat) :
    Variable.admits (y.variableAt s j).low (y.variableAt s j).high (y.targetUp s j) = true := by
  obtain ⟨q, hq⟩ := (y.variableAt_sound hs j).finite
  obtain ⟨r, hr, hqr, -, hhigh⟩ := targetUp_between hs y hq
  exact (y.variableAt_sound hs j).admits_above hq hr hqr hhigh

theorem admits_targetDown {s : Store α} (hs : s.Sound) (y : Tableau α) (j : Nat) :
    Variable.admits (y.variableAt s j).low (y.variableAt s j).high (y.targetDown s j) = true := by
  obtain ⟨q, hq⟩ := (y.variableAt_sound hs j).finite
  obtain ⟨r, hr, -, hrq, hlow⟩ := targetDown_between hs y hq
  exact (y.variableAt_sound hs j).admits_below hq hr hrq hlow

def choice (y : Tableau α) (s : Store α) (j : Nat) : Option α :=
  (choose (y.preference j) (gap (y.variableAt s j).value) (gap (y.targetUp s j))
    (gap (y.targetDown s j))).map fun
  | .up => y.targetUp s j
  | .down => y.targetDown s j

def next (y : Tableau α) (s : Store α) (j : Nat) : Store α × Bool :=
  match y.choice s j with
  | none => (s, false)
  | some t => (s.write (y.ref j) { y.variableAt s j with value := t }, true)

theorem lt_of_choose {preference d : Direction} {now up down : α}
    (h : choose preference now up down = some d) :
    (match d with | .up => up | .down => down) < now := by
  rw [choose] at h
  split at h
  next hc =>
    simp only [Bool.and_eq_true, decide_eq_true_eq] at hc
    cases h
    cases preference with
    | up => exact hc.2
    | down =>
        rw [lt_iff_denote, ← denote_eq_of_beq hc.1, ← lt_iff_denote]
        exact hc.2
  next =>
    split at h
    next hc =>
      cases h
      exact hc.2
    next =>
      split at h
      next hc =>
        cases h
        exact hc.2
      next => cases h

/-- A move leads nearer to an integer, and to one of the two targets. -/
theorem choice_eq_some {y : Tableau α} {s : Store α} {j : Nat} {t : α}
    (h : y.choice s j = some t) :
    (t = y.targetUp s j ∨ t = y.targetDown s j) ∧ gap t < gap (y.variableAt s j).value := by
  obtain ⟨d, hd, rfl⟩ := Option.map_eq_some_iff.mp h
  have hlt := lt_of_choose hd
  cases d with
  | up => exact ⟨.inl rfl, hlt⟩
  | down => exact ⟨.inr rfl, hlt⟩

theorem choice_admitted {y : Tableau α} {s : Store α} (hs : s.Sound) {j : Nat} {t : α}
    (h : y.choice s j = some t) :
    Variable.admits (y.variableAt s j).low (y.variableAt s j).high t = true := by
  obtain ⟨rfl | rfl, -⟩ := choice_eq_some h
  · exact y.admits_targetUp hs j
  · exact y.admits_targetDown hs j

theorem choice_between {y : Tableau α} {s : Store α} (hs : s.Sound) {j : Nat} {t : α}
    (h : y.choice s j = some t) {q : ℚ} (hq : denote (y.variableAt s j).value = .finite q) :
    ∃ r, denote t = .finite r ∧ ⌊q⌋ ≤ r ∧ r ≤ ⌈q⌉ := by
  obtain ⟨rfl | rfl, -⟩ := choice_eq_some h
  · obtain ⟨r, hr, hqr, hrc, -⟩ := targetUp_between hs y hq
    exact ⟨r, hr, (Int.floor_le q).trans hqr, hrc⟩
  · obtain ⟨r, hr, hfr, hrq, -⟩ := targetDown_between hs y hq
    exact ⟨r, hr, hfr, hrq.trans (Int.le_ceil q)⟩

/-- A whole value has no distance that a move could make smaller. -/
theorem choice_eq_none {y : Tableau α} {s : Store α} (hs : s.Sound) {j : Nat}
    (h : (y.variableAt s j).isIntegral = true) : y.choice s j = none := by
  cases hc : y.choice s j with
  | none => rfl
  | some t =>
      obtain ⟨q, hq⟩ := isFinite_iff_denote.mp (Variable.admits_iff.mp (choice_admitted hs hc)).1
      obtain ⟨g, hg, h₀⟩ := gap_nonneg hq
      have hlt := (choice_eq_some hc).2
      simp only [Variable.isIntegral, isWhole, Bool.and_eq_true] at h
      rw [lt_iff_denote, denote_eq_of_beq h.2, denote_zero, hg, Exact.finite_lt_finite] at hlt
      exact absurd hlt (not_lt.mpr h₀)

theorem next_of_isIntegral {y : Tableau α} {s : Store α} (hs : s.Sound) {j : Nat}
    (h : (y.variableAt s j).isIntegral = true) : y.next s j = (s, false) := by
  rw [next, choice_eq_none hs h]

theorem decision_eq {s : Store α} (hs : s.Sound) (y : Tableau α) (j : Nat) :
    y.decision s j = .ok (y.choice s j) := by
  obtain ⟨p, hp⟩ := (y.variableAt_sound hs j).finite
  obtain ⟨q, hq⟩ := isFinite_iff_denote.mp (Variable.admits_iff.mp (y.admits_targetUp hs j)).1
  obtain ⟨r, hr⟩ := isFinite_iff_denote.mp (Variable.admits_iff.mp (y.admits_targetDown hs j)).1
  rw [decision]
  rw [show s.value (y.ref j) = (y.variableAt s j).value from rfl, gap?_eq hp, gap?_eq hq,
    gap?_eq hr]
  rfl

theorem ref_lt_of_choice {y : Tableau α} {s : Store α} (hs : s.Sound) {j : Nat} {t : α}
    (h : y.choice s j = some t) : y.ref j < s.size := by
  by_contra hn
  have hwhole : (y.variableAt s j).isIntegral = true := by
    rw [variableAt, Store.read_of_size_le (Nat.le_of_not_lt hn)]
    exact isWhole_zero
  rw [choice_eq_none hs hwhole] at h
  cases h

theorem kind_of_choice {y : Tableau α} {s : Store α} (hs : s.Sound) {j : Nat} {t : α}
    (h : y.choice s j = some t) : (y.variableAt s j).kind ≠ .integral := by
  intro hk
  rw [choice_eq_none hs ((y.variableAt_sound hs j).whole hk)] at h
  cases h

theorem withValue_of_choice {y : Tableau α} {s : Store α} (hs : s.Sound) {j : Nat} {t : α}
    (h : y.choice s j = some t) :
    (y.variableAt s j).withValue t = .ok { y.variableAt s j with value := t } := by
  have hk := kind_of_choice hs h
  rw [Variable.withValue]
  rw [if_neg fun hf => hk hf.1, if_pos (choice_admitted hs h)]
  rfl

/-- No decision about a store of sound variables fails. -/
theorem roundColumn_eq {s : Store α} (hs : s.Sound) (y : Tableau α) (j : Nat) :
    y.roundColumn s j = .ok (y.next s j) := by
  rw [roundColumn, next]
  rw [decision_eq hs y j]
  cases hc : y.choice s j with
  | none => rfl
  | some t =>
      simp only [bind, Except.bind, withValue_of_choice hs hc]
      rfl

omit [LawfulScalar α] in
theorem value_next {s : Store α} (y : Tableau α) (j : Nat) (r : Ref) :
    (y.next s j).1.value r = s.value r ∨
      ∃ t, y.choice s j = some t ∧ y.ref j = r ∧ (y.next s j).1.value r = t := by
  rw [next]
  cases hc : y.choice s j with
  | none => exact .inl rfl
  | some t =>
      simp only [Store.value, Store.read_write]
      split
      next h => exact .inr ⟨t, rfl, h.1, rfl⟩
      next => exact .inl rfl

theorem choice_of_moved {y : Tableau α} {s : Store α} (hs : s.Sound) {j : Nat}
    (h : (y.next s j).2 = true) :
    ∃ t, y.choice s j = some t ∧ (y.next s j).1.value (y.ref j) = t := by
  rw [next] at h ⊢
  cases hc : y.choice s j with
  | none =>
      rw [hc] at h
      cases h
  | some t =>
      refine ⟨t, rfl, ?_⟩
      rw [Store.value, Store.read_write, if_pos ⟨rfl, ref_lt_of_choice hs hc⟩]

theorem next_sound {s : Store α} (hs : s.Sound) (y : Tableau α) (j : Nat) :
    (y.next s j).1.Sound := by
  rw [next]
  split
  next => exact hs
  next t hc => exact hs.write _ ⟨choice_admitted hs hc, fun hk => absurd hk (kind_of_choice hs hc)⟩

end Tableau

end MilpRounding
