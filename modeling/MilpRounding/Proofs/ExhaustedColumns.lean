import MilpRounding.Proofs.BestDecision
import MilpRounding.Proofs.BoundedMoves
import MilpRounding.Proofs.RepeatedRuns

namespace MilpRounding

open Scalar LawfulScalar Rounding

namespace Direction

variable {d e : Direction} {p q t u w : ℚ}

theorem Leads.trans (h : d.Leads p q) (h' : d.Leads q u) : d.Leads p u := by
  cases d with
  | up => exact lt_trans h h'
  | down => exact lt_trans h' h

theorem not_leads_self (d : Direction) (q : ℚ) : ¬ d.Leads q q := by
  cases d with
  | up => exact lt_irrefl q
  | down => exact lt_irrefl q

theorem Leads.of_not_leads (h : d.Leads p q) (hn : ¬ d.Leads p u) : d.Leads u q := by
  cases d with
  | up => exact (not_lt.mp hn).trans_lt h
  | down => exact h.trans_le (not_lt.mp hn)

theorem Leads.eq (h : d.Leads p q) (h' : e.Leads p q) : d = e := by
  cases d <;> cases e <;> first | rfl | exact absurd h (lt_asymm h')

theorem leads_ahead (d : Direction) (q : ℚ) (ht : 0 < t) : d.Leads q (d.ahead q t) := by
  cases d with
  | up => exact lt_add_of_pos_right q ht
  | down => exact sub_lt_self q ht

theorem Leads.exists_ahead (h : d.Leads q p) : ∃ t, 0 < t ∧ p = d.ahead q t := by
  cases d with
  | up => exact ⟨p - q, sub_pos.mpr h, (add_sub_cancel q p).symm⟩
  | down => exact ⟨q - p, sub_pos.mpr h, (sub_sub_cancel q p).symm⟩

theorem leads_ahead_ahead_iff (d : Direction) (q : ℚ) :
    d.Leads (d.ahead q t) (d.ahead q u) ↔ t < u := by
  cases d with
  | up => exact add_lt_add_iff_left q
  | down => exact sub_lt_sub_iff_left q

theorem ahead_zero (d : Direction) (q : ℚ) : d.ahead q 0 = q := by
  cases d with
  | up => exact add_zero q
  | down => exact sub_zero q

theorem Resisted.pos_of_leads (hw : d.Resisted w) (h : d.Leads q p) : 0 < w * (p - q) := by
  obtain ⟨t, ht, rfl⟩ := h.exists_ahead
  rw [hw.mul_ahead]
  exact mul_pos (abs_pos.mpr hw.ne_zero) ht

theorem le_toInteger_iff (d : Direction) (ht : 0 < t) :
    t ≤ d.toInteger q ↔ ⌊q⌋ ≤ d.ahead q t ∧ d.ahead q t ≤ ⌈q⌉ := by
  cases d with
  | up =>
      rw [toInteger, le_sub_iff_add_le']
      exact (and_iff_right ((Int.floor_le q).trans (lt_add_of_pos_right q ht).le)).symm
  | down =>
      rw [toInteger, le_sub_comm]
      exact (and_iff_left ((sub_lt_self q ht).le.trans (Int.le_ceil q))).symm

end Direction

namespace Variable

variable {v : Variable Exact} {q t : ℚ}

def Within (v : Variable Exact) : Direction → ℚ → Prop
  | .up, p => .finite p ≤ v.high
  | .down, p => v.low ≤ .finite p

theorem le_headroom_iff (hq : v.value = .finite q) (d : Direction) :
    .finite t ≤ v.headroom d ↔ v.Within d (d.ahead q t) := by
  cases d with
  | up =>
      rw [headroom, hq]
      exact Exact.le_sub_finite
  | down =>
      rw [headroom, hq]
      exact Exact.le_finite_sub

theorem Sound.target_zero (hv : v.Sound) (hq : v.value = .finite q) (d : Direction) :
    v.target (.finite 0) d = .finite q := by
  cases d with
  | up =>
      obtain ⟨τ, hτ, hlo, hhi⟩ := hv.target_up hq le_rfl
      rw [hτ, le_antisymm (hhi.trans_eq (add_zero q)) hlo]
  | down =>
      obtain ⟨τ, hτ, hlo, hhi⟩ := hv.target_down hq le_rfl
      rw [hτ, le_antisymm hhi ((sub_zero q).symm.trans_le hlo)]

end Variable

namespace Tableau

variable {y : Tableau Exact} {s : Store Exact} {j : Nat} {d e : Direction} {p q t : ℚ}

/-- What a column may become by a move in a direction: a value beyond the present one and before the next
integer, within the bound, for which all rows that resist have the room. There must be one that does. -/
structure Reaches (y : Tableau Exact) (s : Store Exact) (j : Nat) (d : Direction) (p : ℚ) :
    Prop where
  leads : d.Leads (y.variableAt s j).value.toRat p
  cell : ⌊(y.variableAt s j).value.toRat⌋ ≤ p ∧ p ≤ ⌈(y.variableAt s j).value.toRat⌉
  within : (y.variableAt s j).Within d p
  resisted : ∃ r ∈ y.rows, d.Resisted (weight r j)
  room : ∀ r ∈ y.rows, d.Resisted (weight r j) →
    weight r j * (p - (y.variableAt s j).value.toRat) ≤ r.room (y.point s)

theorem le_limit_iff (hs : s.Sound) (hr : ∀ r ∈ y.rows, r.Rational) (d : Direction) :
    ∃ m, y.limit s j d = .finite m ∧ ∀ t, 0 < t → (t ≤ m ↔
      (∃ r ∈ y.rows, d.Resisted (weight r j)) ∧
        ∀ r ∈ y.rows, d.Resisted (weight r j) → |weight r j| * t ≤ r.room (y.point s)) := by
  obtain ⟨m, hm, hle, htight⟩ := limit_spec hs hr d
  refine ⟨m, hm, fun t ht => ?_⟩
  constructor
  · intro htm
    have hresisted : ∃ r ∈ y.rows, d.Resisted (weight r j) := by
      obtain ⟨r, hmem, hres, -⟩ | ⟨-, rfl⟩ := htight
      · exact ⟨r, hmem, hres⟩
      · exact absurd htm (not_le.mpr ht)
    refine ⟨hresisted, fun r hmem hres => ?_⟩
    rw [mul_comm, ← le_div_iff₀ (abs_pos.mpr hres.ne_zero)]
    exact htm.trans (hle r hmem hres)
  · rintro ⟨⟨r₀, hmem₀, hres₀⟩, hroom⟩
    obtain ⟨r, hmem, hres, rfl⟩ | ⟨hfree, -⟩ := htight
    · rw [le_div_iff₀ (abs_pos.mpr hres.ne_zero), mul_comm]
      exact hroom r hmem hres
    · exact absurd hres₀ (hfree r₀ hmem₀)

theorem targetTo_ahead (hs : s.Sound) (hr : ∀ r ∈ y.rows, r.Rational)
    (hq : (y.variableAt s j).value = .finite q) (d : Direction) :
    ∃ σ, 0 ≤ σ ∧ y.targetTo s j d = .finite (d.ahead q σ) ∧
      ∀ t, 0 < t → (t ≤ σ ↔ y.Reaches s j d (d.ahead q t)) := by
  obtain rfl := toRat_variableAt hq
  obtain ⟨m, hm, hlimit⟩ := le_limit_iff (j := j) hs hr d
  obtain ⟨σ, hσ, h₀, hle⟩ := step_of_pos ((y.variableAt s j).headroom d) m
    (d.toInteger (y.variableAt s j).value.toRat)
  refine ⟨σ, h₀, ?_, fun t ht => ?_⟩
  · rw [Held.targetTo_of_limit hq hm, hσ]
    rcases h₀.eq_or_lt with rfl | hpos
    · rw [d.ahead_zero]
      exact (y.variableAt_sound hs j).target_zero hq d
    · exact Variable.target_eq hq ((hle σ hpos).mp le_rfl).1
  · rw [hle t ht, hlimit t ht, Variable.le_headroom_iff hq, d.le_toInteger_iff ht]
    constructor
    · rintro ⟨hwithin, ⟨hresisted, hroom⟩, hcell⟩
      refine ⟨d.leads_ahead _ ht, hcell, hwithin, hresisted, fun r hmem hres => ?_⟩
      rw [hres.mul_ahead]
      exact hroom r hmem hres
    · rintro ⟨-, hcell, hwithin, hresisted, hroom⟩
      refine ⟨hwithin, ⟨hresisted, fun r hmem hres => ?_⟩, hcell⟩
      rw [← hres.mul_ahead]
      exact hroom r hmem hres

/-- A target is the furthest value that the column reaches, or the present one if it reaches none. -/
theorem targetTo_furthest (hs : s.Sound) (hr : ∀ r ∈ y.rows, r.Rational)
    (hq : (y.variableAt s j).value = .finite q) (d : Direction) :
    ∃ τ, y.targetTo s j d = .finite τ ∧ (τ = q ∨ y.Reaches s j d τ) ∧
      ∀ p, y.Reaches s j d p → ¬ d.Leads τ p := by
  obtain ⟨σ, h₀, htarget, hle⟩ := y.targetTo_ahead hs hr hq d
  refine ⟨d.ahead q σ, htarget, ?_, fun p hp => ?_⟩
  · rcases h₀.eq_or_lt with rfl | hpos
    · exact .inl (d.ahead_zero q)
    · exact .inr ((hle σ hpos).mp le_rfl)
  · have hleads := hp.leads
    rw [toRat_variableAt hq] at hleads
    obtain ⟨t, ht, rfl⟩ := hleads.exists_ahead
    rw [d.leads_ahead_ahead_iff, not_lt]
    exact (hle t ht).mpr hp

theorem variableAt_next (hs : s.Sound) {t : Exact} (h : y.choice s j = some t) :
    y.variableAt (y.next s j).1 j = { y.variableAt s j with value := t } := by
  rw [next, h, variableAt, Store.read_write, if_pos ⟨rfl, ref_lt_of_choice hs h⟩]

/-- What a column reaches after a move, beyond where it was before, it reached before the move. -/
theorem Reaches.before (hy : y.Prepared) (hs : s.Sound) (hj : j < y.columns.length)
    (hq : (y.variableAt s j).value = .finite q) {u : ℚ} (hu : y.choice s j = some (.finite u))
    (h : y.Reaches (y.next s j).1 j d p) (hbeyond : d.Leads q p) : y.Reaches s j d p := by
  obtain ⟨hleads, hcell, hwithin, hresisted, hroom⟩ := h
  rw [variableAt_next hs hu] at hleads hcell hwithin hroom
  rw [point_next hy hs hj hu] at hroom
  simp only [Exact.toRat] at hleads hcell hroom
  obtain rfl := toRat_variableAt hq
  obtain ⟨u', hu', hfloor, hceil⟩ := choice_between hs hu hq
  obtain rfl : u = u' := Exact.finite.inj hu'
  refine ⟨hbeyond, ⟨?_, ?_⟩, ?_, hresisted, fun r hmem hres => ?_⟩
  · have : ⌊(y.variableAt s j).value.toRat⌋ ≤ ⌊u⌋ := Int.le_floor.mpr hfloor
    exact (Int.cast_le.mpr this).trans hcell.1
  · have : ⌈u⌉ ≤ ⌈(y.variableAt s j).value.toRat⌉ := Int.ceil_le.mpr hceil
    exact hcell.2.trans (Int.cast_le.mpr this)
  · cases d <;> exact hwithin
  · have htake := hroom r hmem hres
    rcases hy.oriented r hmem with heq | hbelow
    · have hnone : r.room ((y.point s).set j u) = 0 := by rw [Row.room, if_pos heq]
      exact absurd htake (not_le.mpr (hnone.trans_lt (hres.pos_of_leads hleads)))
    · rw [Row.room_set hbelow (by simpa [point] using hj), getD_point_of_value hj hq] at htake
      linarith

structure Ends (y : Tableau Exact) (s : Store Exact) (j : Nat) (q : ℚ) (τ : Direction → ℚ) : Prop where
  value : (y.variableAt s j).value = .finite q
  target : ∀ d, y.targetTo s j d = .finite (τ d)
  reached : ∀ d, τ d = q ∨ y.Reaches s j d (τ d)
  furthest : ∀ d p, y.Reaches s j d p → ¬ d.Leads (τ d) p

theorem exists_ends (hs : s.Sound) (hr : ∀ r ∈ y.rows, r.Rational)
    (hq : (y.variableAt s j).value = .finite q) : ∃ τ, y.Ends s j q τ := by
  choose τ htarget hreached hfurthest using y.targetTo_furthest hs hr hq
  exact ⟨τ, hq, htarget, hreached, hfurthest⟩

namespace Ends

variable {τ τ' : Direction → ℚ}

theorem leads (h : y.Ends s j q τ) (hne : τ d ≠ q) : d.Leads q (τ d) := by
  have hleads := ((h.reached d).resolve_left hne).leads
  rwa [toRat_variableAt h.value] at hleads

theorem cell (h : y.Ends s j q τ) (d : Direction) : ⌊q⌋ ≤ τ d ∧ τ d ≤ ⌈q⌉ := by
  rcases h.reached d with heq | hreached
  · rw [heq]
    exact ⟨Int.floor_le q, Int.le_ceil q⟩
  · have hcell := hreached.cell
    rwa [toRat_variableAt h.value] at hcell

theorem not_leads_value (h : y.Ends s j q τ) (d : Direction) : ¬ d.Leads (τ d) q := by
  by_cases heq : τ d = q
  · rw [heq]
    exact d.not_leads_self q
  · intro hback
    exact d.not_leads_self q ((h.leads heq).trans hback)

theorem not_leads (h : y.Ends s j q τ) (d e : Direction) : ¬ d.Leads (τ d) (τ e) := by
  intro hleads
  have hbeyond : d.Leads q (τ e) := hleads.of_not_leads (h.not_leads_value d)
  have hne : τ e ≠ q := by
    intro heq
    rw [heq] at hbeyond
    exact d.not_leads_self q hbeyond
  obtain rfl := hbeyond.eq (h.leads hne)
  exact d.not_leads_self _ hleads

theorem not_leads_next (h : y.Ends s j q τ) (hy : y.Prepared) (hs : s.Sound)
    (hj : j < y.columns.length) (hc : y.choice s j = some (.finite (τ e)))
    (h' : y.Ends (y.next s j).1 j (τ e) τ') (d d' : Direction) : ¬ d.Leads (τ d) (τ' d') := by
  intro hleads
  have hbeyond : d.Leads (τ e) (τ' d') := hleads.of_not_leads (h.not_leads d e)
  have hne : τ' d' ≠ τ e := by
    intro heq
    rw [heq] at hbeyond
    exact d.not_leads_self _ hbeyond
  obtain rfl := hbeyond.eq (h'.leads hne)
  -- what is reached beyond a target of before was reached before, where the target is the furthest
  have hreaches := (h'.reached d).resolve_left hne
  have hbefore := hreaches.before hy hs hj h.value hc (hleads.of_not_leads (h.not_leads_value d))
  exact h.furthest d _ hbefore hleads

end Ends

theorem choice_eq_none_of_le {τ : Direction → ℚ} (h : y.Ends s j q τ)
    (hle : ∀ d, integerDistance q ≤ integerDistance (τ d)) : y.choice s j = none := by
  cases hc : y.choice s j with
  | none => rfl
  | some t =>
      obtain ⟨d, rfl, hgap⟩ := targetTo_of_choice hc
      rw [h.target, h.value, gap_eq_integerDistance, gap_eq_integerDistance,
        Exact.finite_lt_finite] at hgap
      exact absurd hgap (not_lt.mpr (hle d))

/-- A decision leaves nothing to decide about its column. -/
theorem choice_next (hy : y.Prepared) (hs : s.Sound) (hj : j < y.columns.length) :
    y.choice (y.next s j).1 j = none := by
  cases hc : y.choice s j with
  | none =>
      rw [next, hc]
      exact hc
  | some t =>
      obtain ⟨q, hq⟩ : ∃ q, (y.variableAt s j).value = .finite q := (y.variableAt_sound hs j).finite
      obtain ⟨τ, hends⟩ := y.exists_ends hs hy.rational hq
      obtain ⟨e, rfl, hnearest⟩ := (choice_nearest hq hends.target).1 t hc
      have hvalue : (y.variableAt (y.next s j).1 j).value = .finite (τ e) := by
        rw [variableAt_next hs hc]
      obtain ⟨τ', hends'⟩ := y.exists_ends (next_sound hs y j) hy.rational hvalue
      refine choice_eq_none_of_le hends' fun d => hnearest.trans ?_
      have hceil : (⌈q⌉ : ℚ) ≤ ⌊q⌋ + 1 := by exact_mod_cast Int.ceil_le_floor_add_one q
      have hdown : τ .down ≤ τ' d := not_lt.mp (hends.not_leads_next hy hs hj hc hends' .down d)
      have hup : τ' d ≤ τ .up := not_lt.mp (hends.not_leads_next hy hs hj hc hends' .up d)
      rw [min_comm]
      exact min_integerDistance_le (hends.cell .down).1 ((hends.cell .up).2.trans hceil) hdown hup

theorem course_singleton_moves (hy : y.Prepared) (hs : s.Sound) (hj : j < y.columns.length)
    (stopOnStall : Bool) (left : Nat) :
    ((y.course stopOnStall left [j] s).sweeps.map Sweep.moves).sum ≤ 1 := by
  have hdescends : y.Descends [j] Store.Sound fun s => if y.choice s j = none then 0 else 1 := by
    refine ⟨fun s i _ hs => next_sound hs y i, fun s i hi hs hmoved => ?_⟩
    obtain rfl := List.mem_singleton.mp hi
    obtain ⟨t, ht, -⟩ := choice_of_moved hs hmoved
    rw [if_pos (choice_next hy hs hj), ht]
    exact Nat.zero_lt_one
  have hcourse := hdescends.course stopOnStall left (List.Subset.refl [j]) hs
  have hstart : (if y.choice s j = none then 0 else 1) ≤ 1 := by split <;> decide
  omega

end Tableau

theorem Rounding.moves_le_one {c c' : Scene Exact} (hc : c.Rational) {options : Options Exact} {j : Int}
    {report : Report Exact} (h : (run options (some [j])).run c = .ok report c') :
    report.moves ≤ 1 := by
  obtain ⟨-, idx, columns, rows, hidx, hreported⟩ := reported hc h
  obtain rfl : [j] = idx := Option.some.inj hidx
  obtain ⟨-, rfl, -⟩ := ready_of_run hc.sound h
  have hj : j.toNat < (tableau options c.model).columns.length :=
    hreported.listed_lt _ (List.mem_singleton.mpr rfl)
  exact Tableau.course_singleton_moves hreported.prepared hc.sound hj _ _

open Session

/-- A decision about a column right after another one changes nothing, from whatever values the first one
started. So a run over a single column makes at most one move. -/
theorem decision_exhausts {w : Workspace Exact} {e : Nat} {g : Engine Exact} (hw : w.Ready)
    (hg : w.engines[e]? = some g) (hc : (w.scene g.model).Rational) {y : Tableau Exact}
    (hy : (w.modelAt g.model).requireTableau = .ok y) :
    ((∀ r ∈ y.rows, r.relation.isAbove = false) → ∀ j k, resolve? y.columns.length j = some k →
      ∃ moved w', (moveColumn e j).run w = .ok moved w' ∧ (moveColumn e j).run w' = .ok false w') ∧
    ∀ j report w', g.indices = some [j] → (launch e).run w = .ok report w' → report.moves ≤ 1 := by
  constructor
  · intro hrows j k hj
    have hs : w.store.Sound := hc.sound
    have hprepared : y.Prepared := hc.prepared hy fun r hr => Relation.eq_or_isBelow (hrows r hr)
    have hagain : y.next (y.next w.store k).1 k = ((y.next w.store k).1, false) := by
      rw [Tableau.next, Tableau.choice_next hprepared hs (lt_of_resolve? hj)]
    have hsecond := moveColumn_run (w := { w with store := (y.next w.store k).1 })
      (Tableau.next_sound hs y k) hg hy hj
    rw [hagain] at hsecond
    exact ⟨_, _, moveColumn_run hs hg hy hj, hsecond⟩
  · intro j report w' hindices hlaunch
    obtain ⟨g', c, hg', hrun, -, -⟩ := run_of_launch ⟨hc.sound, hw⟩ hlaunch
    obtain rfl : g = g' := Option.some.inj (hg.symm.trans hg')
    rw [hindices] at hrun
    exact Rounding.moves_le_one hc hrun

def overdrawnColumn : Workspace Exact where
  store := halves.store
  models := #[{ columns := some [0, 1]
                rows := some [⟨[.finite 1, .finite 0], .le, .finite 1⟩,
                  ⟨[.finite (-2), .finite 1], .lt, .finite (-3 / 4)⟩,
                  ⟨[.finite 0, .finite 1], .eq, .finite 1⟩] }]
  engines := #[{ model := 0, options := .standard, indices := some [0] }]

theorem decision_exhausts_overdrawnColumn :
    ∃ w' w'' report, (moveColumn 0 0).run overdrawnColumn = .ok true w' ∧
      (moveColumn 0 0).run w' = .ok false w' ∧
      (launch 0).run overdrawnColumn = .ok report w'' ∧ report.moves ≤ 1 := by
  have hc : (overdrawnColumn.scene 0).Rational := ⟨halves_rational.sound, by decide, by decide⟩
  have hready : overdrawnColumn.Ready := by
    rintro (_ | e) g hg
    · cases hg
      rfl
    · simp [overdrawnColumn] at hg
  obtain ⟨hdecision, hmoves⟩ := decision_exhausts (e := 0) hready rfl hc rfl
  obtain ⟨moved, w', hfirst, hsecond⟩ := hdecision (by decide) 0 0 (by decide)
  have hmoved : moved = true := by
    rw [moveColumn_run (e := 0) (j := 0) (k := 0) hc.sound rfl rfl (by decide)] at hfirst
    cases hfirst
    decide +kernel
  subst hmoved
  have hrun : (run .standard (some [0])).run (overdrawnColumn.scene 0) = _ :=
    run_of_ready hc.sound (by decide)
  have hlaunch := launch_of_run (e := 0) ⟨hc.sound, hready⟩ rfl hrun
  exact ⟨w', _, _, hfirst, hsecond, hlaunch, hmoves 0 _ _ rfl hlaunch⟩

end MilpRounding
