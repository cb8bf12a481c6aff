import MilpRounding.Proofs.CourseAgreement

namespace MilpRounding

open Scalar LawfulScalar

variable {α : Type} [Scalar α]

theorem Rounding.stopReason?_ne {stopOnStall : Bool} {moves : Nat} {pending : List Nat} {up down : α}
    {status : Status} (h : stopReason? stopOnStall moves pending up down = some status) :
    status ≠ .sweepLimit := by
  rw [stopReason?] at h
  split at h
  next =>
    cases h
    decide
  next =>
    split at h
    next =>
      cases h
      decide
    next => cases h

theorem Rounding.moves_eq_zero_of_stopReason? {stopOnStall : Bool} {moves : Nat}
    {pending : List Nat} {up down : α} {status : Status}
    (h : stopReason? stopOnStall moves pending up down = some status) (hp : pending ≠ []) :
    moves = 0 := by
  rw [stopReason?] at h
  split at h
  next hc =>
    simp only [hp, List.isEmpty_iff, Bool.and_eq_true, Bool.or_eq_true, beq_iff_eq, or_false] at hc
    exact hc.2
  next =>
    split at h
    next hc =>
      simp only [Bool.and_eq_true, beq_iff_eq] at hc
      exact hc.1
    next => cases h

theorem Rounding.stopReason?_nil [LawfulScalar α] (stopOnStall : Bool) (moves : Nat) :
    stopReason? stopOnStall moves [] (0 : α) 0 = some .converged := by
  have hzero : ((0 : α) == 0) = true := by
    rw [beq_eq_denote, denote_zero]
    rfl
  simp [stopReason?, hzero]

namespace Tableau

variable {y : Tableau α} {s : Store α} {stopOnStall : Bool} {left : Nat} {pending : List Nat}

theorem course_add_of_limit (b : Nat)
    (h : (y.course stopOnStall left pending s).status = .sweepLimit) :
    let k := y.course stopOnStall left pending s
    y.course stopOnStall (left + b) pending s =
      (y.course stopOnStall b k.pending k.store).after k.sweeps := by
  induction left generalizing pending s with
  | zero =>
      rw [Nat.zero_add]
      rfl
  | succ left ih =>
      rw [Nat.add_right_comm]
      cases hr : (y.sweepFrom pending s).reason? stopOnStall with
      | some status =>
          rw [course_of_reason hr] at h
          exact absurd h (Rounding.stopReason?_ne hr)
      | none =>
          rw [course_of_no_reason hr] at h
          rw [course_of_no_reason hr, course_of_no_reason hr, ih h]
          rfl

theorem course_add_of_stop (b : Nat)
    (h : (y.course stopOnStall left pending s).status ≠ .sweepLimit) :
    y.course stopOnStall (left + b) pending s = y.course stopOnStall left pending s := by
  induction left generalizing pending s with
  | zero => exact absurd rfl h
  | succ left ih =>
      rw [Nat.add_right_comm]
      cases hr : (y.sweepFrom pending s).reason? stopOnStall with
      | some status => rw [course_of_reason hr, course_of_reason hr]
      | none =>
          rw [course_of_no_reason hr] at h
          rw [course_of_no_reason hr, course_of_no_reason hr, ih h]

theorem course_pending_subset (y : Tableau α) (stopOnStall : Bool) (left : Nat)
    (pending : List Nat) (s : Store α) :
    (y.course stopOnStall left pending s).pending ⊆ pending := by
  induction left generalizing pending s with
  | zero => exact List.Subset.refl pending
  | succ left ih =>
      have hw := sweepFrom_pending_subset y pending s
      cases hr : (y.sweepFrom pending s).reason? stopOnStall with
      | some status =>
          rw [course_of_reason hr]
          exact hw
      | none =>
          rw [course_of_no_reason hr]
          exact List.Subset.trans (ih _ _) hw

theorem choice_eq_none_of_next {j : Nat} (h : (y.next s j).2 = false) : y.choice s j = none := by
  rw [next] at h
  cases hc : y.choice s j with
  | none => rfl
  | some t =>
      rw [hc] at h
      cases h

theorem choice_eq_none_of_moves (h : (y.sweepFrom pending s).moves = 0) :
    ∀ j ∈ pending, y.choice s j = none := by
  induction pending generalizing s with
  | nil => exact fun j hj => nomatch hj
  | cons i rest ih =>
      rw [sweepFrom_cons_moves] at h
      cases hi : (y.next s i).2 with
      | true => simp [hi] at h
      | false =>
          have hc := choice_eq_none_of_next hi
          have hrest := ih (s := (y.next s i).1) (by simpa [hi] using h)
          rw [next, hc] at hrest
          intro j hj
          rcases List.mem_cons.mp hj with rfl | hj
          · exact hc
          · exact hrest j hj

theorem sweepFrom_of_choice_eq_none (h : ∀ j ∈ pending, y.choice s j = none) :
    (y.sweepFrom pending s).moves = 0 ∧ (y.sweepFrom pending s).store = s ∧
      (y.sweepFrom pending s).pending = pending.filter (y.isFractional s) := by
  induction pending with
  | nil => exact ⟨rfl, rfl, rfl⟩
  | cons j rest ih =>
      obtain ⟨hmoves, hstore, hpending⟩ := ih fun i hi => h i (List.mem_cons_of_mem _ hi)
      have hj : y.next s j = (s, false) := by rw [next, h j List.mem_cons_self]
      refine ⟨?_, ?_, ?_⟩
      · rw [sweepFrom_cons_moves, hj]
        exact hmoves
      · change (y.sweepFrom rest (y.next s j).1).store = s
        rw [hj]
        exact hstore
      · rw [sweepFrom_cons_pending, hj, hpending, List.filter_cons]
        cases hw : (y.variableAt s j).isIntegral <;> simp [isFractional, hw]

section Whole

variable [LawfulScalar α]

theorem filter_pending_sweepFrom (hs : s.Sound) {keep : Nat → Bool}
    (hkeep : ∀ j, keep j = true → y.isFractional (y.sweepFrom pending s).store j = true) :
    (y.sweepFrom pending s).pending.filter keep = pending.filter keep := by
  induction pending generalizing s with
  | nil => rfl
  | cons j rest ih =>
      have hnext := next_sound hs y j
      have hrest := ih hnext hkeep
      rw [sweepFrom_cons_pending]
      split
      next hw =>
        have hj : ¬ keep j = true := by
          intro hj
          have hf := isFractional_of_sweepFrom hnext rest (hkeep j hj)
          rw [isFractional, hw] at hf
          cases hf
        rw [List.filter_cons_of_neg hj, hrest]
      next => rw [List.filter_cons, List.filter_cons, hrest]

theorem filter_pending_course (hs : s.Sound) {keep : Nat → Bool}
    (hkeep : ∀ j, keep j = true →
      y.isFractional (y.course stopOnStall left pending s).store j = true) :
    (y.course stopOnStall left pending s).pending.filter keep = pending.filter keep := by
  induction left generalizing pending s with
  | zero => rfl
  | succ left ih =>
      have hw := sweepFrom_sound hs y pending
      cases hr : (y.sweepFrom pending s).reason? stopOnStall with
      | some status =>
          rw [course_of_reason hr] at hkeep ⊢
          exact filter_pending_sweepFrom hs hkeep
      | none =>
          rw [course_of_no_reason hr] at hkeep ⊢
          have hlast : ∀ j, keep j = true →
              y.isFractional (y.sweepFrom pending s).store j = true :=
            fun j hj => isFractional_of_course hw stopOnStall left (hkeep j hj)
          exact (ih hw hkeep).trans (filter_pending_sweepFrom hs hlast)

/-- Nothing that is pending can move, and there is a reason to stop. -/
structure Rests (y : Tableau α) (stopOnStall : Bool) (k : Course α) : Prop where
  still : ∀ j ∈ k.pending, y.choice k.store j = none
  fractional : ∀ j ∈ k.pending, y.isFractional k.store j = true
  stops : Rounding.stopReason? stopOnStall 0 k.pending (y.totals k.store k.pending).1
    (y.totals k.store k.pending).2 = some k.status

theorem course_rests (h : (y.course stopOnStall left pending s).status ≠ .sweepLimit) :
    y.Rests stopOnStall (y.course stopOnStall left pending s) := by
  induction left generalizing pending s with
  | zero => exact absurd rfl h
  | succ left ih =>
      cases hr : (y.sweepFrom pending s).reason? stopOnStall with
      | none =>
          rw [course_of_no_reason hr] at h ⊢
          exact ⟨(ih h).still, (ih h).fractional, (ih h).stops⟩
      | some status =>
          rw [course_of_reason hr]
          by_cases hp : (y.sweepFrom pending s).pending = []
          · have htotals := sweepFrom_totals y pending s
            rw [hp] at htotals
            obtain ⟨hup, hdown⟩ := Prod.mk.inj htotals
            rw [Sweep.reason?, hp, ← hup, ← hdown] at hr
            refine ⟨by simp [hp], by simp [hp], ?_⟩
            simp only [hp]
            exact (Rounding.stopReason?_nil stopOnStall 0).trans
              ((Rounding.stopReason?_nil stopOnStall _).symm.trans hr)
          -- nothing moved in the last sweep, so its store is the one it began with
          · have hmoves := Rounding.moves_eq_zero_of_stopReason? hr hp
            have hstill := choice_eq_none_of_moves hmoves
            obtain ⟨-, hstore, hpending⟩ := sweepFrom_of_choice_eq_none hstill
            rw [Sweep.reason?, hmoves] at hr
            refine ⟨fun j hj => ?_, fun j hj => ?_, ?_⟩
            · rw [hstore]
              exact hstill j (sweepFrom_pending_subset y pending s hj)
            · rw [hstore]
              rw [hpending] at hj
              exact (List.mem_filter.mp hj).2
            · rw [sweepFrom_totals]
              exact hr

theorem choice_eq_none_of_rests {k : Course α} (h : y.Rests stopOnStall k) (hs : k.store.Sound)
    {columns : List Nat} (hp : columns.filter (y.isFractional k.store) = k.pending) :
    ∀ j ∈ columns, y.choice k.store j = none := by
  intro j hj
  by_cases hf : y.isFractional k.store j = true
  · exact h.still j (hp ▸ List.mem_filter.mpr ⟨hj, hf⟩)
  · exact choice_eq_none hs (by simpa [isFractional] using hf)

/-- From where a course rests, a course over all its columns ends after one sweep. -/
theorem course_of_rests {k : Course α} (h : y.Rests stopOnStall k) (hs : k.store.Sound)
    {columns : List Nat} (hp : columns.filter (y.isFractional k.store) = k.pending) (left : Nat) :
    ∃ w : Sweep α, w.moves = 0 ∧
      y.course stopOnStall (left + 1) columns k.store = ⟨k.status, k.store, k.pending, [w]⟩ := by
  obtain ⟨hmoves, hstore, hpending⟩ :=
    sweepFrom_of_choice_eq_none (choice_eq_none_of_rests h hs hp)
  rw [hp] at hpending
  have htotals := sweepFrom_totals y columns k.store
  rw [hstore, hpending] at htotals
  obtain ⟨hup, hdown⟩ := Prod.mk.inj htotals
  have hr : (y.sweepFrom columns k.store).reason? stopOnStall = some k.status := by
    rw [Sweep.reason?, hmoves, hpending, ← hup, ← hdown]
    exact h.stops
  exact ⟨_, hmoves, by rw [course_of_reason hr, hstore, hpending]⟩

theorem course_again (hs : s.Sound)
    (h : (y.course stopOnStall left pending s).status ≠ .sweepLimit) {again : Nat}
    (hagain : 1 ≤ again) :
    let k := y.course stopOnStall left pending s
    ∃ w : Sweep α, w.moves = 0 ∧
      y.course stopOnStall again pending k.store = ⟨k.status, k.store, k.pending, [w]⟩ := by
  have hrest := course_rests h
  obtain ⟨again, rfl⟩ := Nat.exists_eq_add_of_le' hagain
  refine course_of_rests hrest (course_sound hs stopOnStall left pending) ?_ again
  rw [← filter_pending_course hs fun _ hj => hj]
  exact List.filter_eq_self.mpr hrest.fractional

/-- A course that is cut off goes on as a course over all its columns would from there. -/
theorem course_resumed (hs : s.Sound) {b : Nat} (hb : 1 ≤ b)
    (h : (y.course stopOnStall left pending s).status = .sweepLimit) :
    let k := y.course stopOnStall left pending s
    (y.course stopOnStall (left + b) pending s).Agrees (· = ·)
      ((y.course stopOnStall b pending k.store).after k.sweeps) := by
  intro k
  have hk : k.store.Sound := course_sound hs stopOnStall left pending
  have hpending := sweepFrom_filter hk k.pending (y.isFractional k.store) fun _ _ hj => hj
  have hall := sweepFrom_filter hk pending (y.isFractional k.store) fun _ _ hj => hj
  rw [filter_pending_course hs fun _ hj => hj] at hpending
  have hsame : (y.sweepFrom k.pending k.store).Agrees (· = ·) (y.sweepFrom pending k.store) :=
    ⟨hpending.moves.trans hall.moves.symm, hpending.pending.trans hall.pending.symm,
      hpending.store.trans hall.store.symm⟩
  rw [course_add_of_limit b h]
  exact (course_agrees hsame stopOnStall hb).after rfl

end Whole

end Tableau

end MilpRounding
