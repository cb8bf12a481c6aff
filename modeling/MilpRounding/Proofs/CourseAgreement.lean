import MilpRounding.Proofs.Course

namespace MilpRounding

open Scalar LawfulScalar

variable {α : Type} [Scalar α]

structure Sweep.Agrees (R : Store α → Store α → Prop) (w v : Sweep α) : Prop where
  moves : w.moves = v.moves
  pending : w.pending = v.pending
  store : R w.store v.store

structure Course.Agrees (R : Store α → Store α → Prop) (k l : Course α) : Prop where
  status : k.status = l.status
  pending : k.pending = l.pending
  history : k.sweeps.map Sweep.moves = l.sweeps.map Sweep.moves
  store : R k.store l.store

theorem Course.Agrees.length_sweeps {α : Type} {R : Store α → Store α → Prop} {k l : Course α}
    (h : k.Agrees R l) : k.sweeps.length = l.sweeps.length := by
  simpa using congrArg List.length h.history

def Course.after {α : Type} (sweeps : List (Sweep α)) (k : Course α) : Course α :=
  { k with sweeps := sweeps ++ k.sweeps }

theorem Course.Agrees.after {α : Type} {R : Store α → Store α → Prop} {k l : Course α}
    (h : k.Agrees R l) {ws vs : List (Sweep α)} (hmoves : ws.map Sweep.moves = vs.map Sweep.moves) :
    (k.after ws).Agrees R (l.after vs) where
  status := h.status
  pending := h.pending
  history := by simp [Course.after, hmoves, h.history]
  store := h.store

def Sweep.reason? (stopOnStall : Bool) (w : Sweep α) : Option Status :=
  Rounding.stopReason? stopOnStall w.moves w.pending w.up w.down

namespace Tableau

theorem course_of_reason {y : Tableau α} {stopOnStall : Bool} {p : List Nat} {s : Store α}
    {status : Status} (h : (y.sweepFrom p s).reason? stopOnStall = some status) (left : Nat) :
    y.course stopOnStall (left + 1) p s =
      ⟨status, (y.sweepFrom p s).store, (y.sweepFrom p s).pending, [y.sweepFrom p s]⟩ := by
  rw [Sweep.reason?] at h
  simp only [course, h]

theorem course_of_no_reason {y : Tableau α} {stopOnStall : Bool} {p : List Nat} {s : Store α}
    (h : (y.sweepFrom p s).reason? stopOnStall = none) (left : Nat) :
    y.course stopOnStall (left + 1) p s =
      (y.course stopOnStall left (y.sweepFrom p s).pending (y.sweepFrom p s).store).after
        [y.sweepFrom p s] := by
  rw [Sweep.reason?] at h
  simp only [course, h]
  rfl

/-- Over corresponding stores, two tableaux take corresponding decisions about some columns, and find
the same reasons to stop. -/
structure Parallel (stopOnStall : Bool) (columns : List Nat) (R : Store α → Store α → Prop)
    (y z : Tableau α) : Prop where
  moved {s t : Store α} {j : Nat} : R s t → j ∈ columns → (y.next s j).2 = (z.next t j).2
  store {s t : Store α} {j : Nat} : R s t → j ∈ columns → R (y.next s j).1 (z.next t j).1
  whole {s t : Store α} {j : Nat} : R s t → j ∈ columns →
    (y.variableAt s j).isIntegral = (z.variableAt t j).isIntegral
  stops {s t : Store α} {pending : List Nat} (moves : Nat) : R s t → pending ⊆ columns →
    Rounding.stopReason? stopOnStall moves pending (y.totals s pending).1 (y.totals s pending).2 =
      Rounding.stopReason? stopOnStall moves pending (z.totals t pending).1 (z.totals t pending).2

section Parallel

variable {stopOnStall : Bool} {columns : List Nat} {R : Store α → Store α → Prop} {y z : Tableau α}

theorem Parallel.sweepFrom (h : Parallel stopOnStall columns R y z) {pending : List Nat}
    (hp : pending ⊆ columns) {s t : Store α} (hst : R s t) :
    (y.sweepFrom pending s).Agrees R (z.sweepFrom pending t) := by
  induction pending generalizing s t with
  | nil => exact ⟨rfl, rfl, hst⟩
  | cons j rest ih =>
      have hj : j ∈ columns := hp List.mem_cons_self
      have hnext := h.store hst hj
      have hrest := ih (fun i hi => hp (List.mem_cons_of_mem _ hi)) hnext
      refine ⟨?_, ?_, hrest.store⟩
      · rw [sweepFrom_cons_moves, sweepFrom_cons_moves, h.moved hst hj, hrest.moves]
      · rw [sweepFrom_cons_pending, sweepFrom_cons_pending, h.whole hnext hj, hrest.pending]

theorem Parallel.course (h : Parallel stopOnStall columns R y z) (left : Nat) {pending : List Nat}
    (hp : pending ⊆ columns) {s t : Store α} (hst : R s t) :
    (y.course stopOnStall left pending s).Agrees R (z.course stopOnStall left pending t) := by
  induction left generalizing pending s t with
  | zero => exact ⟨rfl, rfl, rfl, hst⟩
  | succ left ih =>
      have hw := h.sweepFrom hp hst
      have hrest : (y.sweepFrom pending s).pending ⊆ columns :=
        List.Subset.trans (sweepFrom_pending_subset y pending s) hp
      have hstop : (y.sweepFrom pending s).reason? stopOnStall =
          (z.sweepFrom pending t).reason? stopOnStall := by
        have hstops := h.stops (z.sweepFrom pending t).moves hw.store hrest
        rw [sweepFrom_totals, hw.pending, sweepFrom_totals] at hstops
        rw [Sweep.reason?, Sweep.reason?, hw.moves, hw.pending]
        exact hstops
      have htail := ih hrest hw.store
      cases hr : (y.sweepFrom pending s).reason? stopOnStall with
      | some status =>
          rw [course_of_reason hr, course_of_reason (hstop.symm.trans hr)]
          exact ⟨rfl, hw.pending, by simp [hw.moves], hw.store⟩
      | none =>
          rw [course_of_no_reason hr, course_of_no_reason (hstop.symm.trans hr)]
          rw [hw.pending] at htail ⊢
          exact htail.after (by simp [hw.moves])

end Parallel

def isFractional (y : Tableau α) (s : Store α) (j : Nat) : Bool := !(y.variableAt s j).isIntegral

/-- From the first sweep on, courses do not differ if their first sweeps do not. -/
theorem course_agrees {y : Tableau α} {p q : List Nat} {s t : Store α}
    (h : (y.sweepFrom p s).Agrees (· = ·) (y.sweepFrom q t)) (stopOnStall : Bool) {left : Nat}
    (hleft : 1 ≤ left) :
    (y.course stopOnStall left p s).Agrees (· = ·) (y.course stopOnStall left q t) := by
  obtain ⟨left, rfl⟩ := Nat.exists_eq_add_of_le' hleft
  have hstop : (y.sweepFrom p s).reason? stopOnStall = (y.sweepFrom q t).reason? stopOnStall := by
    have htotals := sweepFrom_totals y p s
    rw [h.store, h.pending, sweepFrom_totals] at htotals
    obtain ⟨hup, hdown⟩ := Prod.mk.inj htotals
    rw [Sweep.reason?, Sweep.reason?, h.moves, h.pending, hup, hdown]
  cases hr : (y.sweepFrom p s).reason? stopOnStall with
  | some status =>
      rw [course_of_reason hr, course_of_reason (hstop.symm.trans hr)]
      exact ⟨rfl, h.pending, by simp [h.moves], h.store⟩
  | none =>
      rw [course_of_no_reason hr, course_of_no_reason (hstop.symm.trans hr), h.pending, h.store]
      exact Course.Agrees.after ⟨rfl, rfl, rfl, rfl⟩ (by simp [h.moves])

section Whole

variable [LawfulScalar α] {y : Tableau α} {s : Store α}

theorem isFractional_of_sweepFrom (hs : s.Sound) (pending : List Nat) {j : Nat}
    (h : y.isFractional (y.sweepFrom pending s).store j = true) : y.isFractional s j = true := by
  by_contra hn
  have hwhole : (y.variableAt s j).isIntegral = true := by simpa [isFractional] using hn
  have hkeep := sweepFrom_invariant (y := y) (P := Store.SoundWith (y.ref j))
    (fun _ i _ h => next_keeps_isIntegral i h) (List.Subset.refl pending) ⟨hs, hwhole⟩
  have hend : (y.variableAt (y.sweepFrom pending s).store j).isIntegral = true := hkeep.2.2
  rw [isFractional, hend] at h
  cases h

theorem isFractional_of_course (hs : s.Sound) (stopOnStall : Bool) (left : Nat)
    {pending : List Nat} {j : Nat}
    (h : y.isFractional (y.course stopOnStall left pending s).store j = true) :
    y.isFractional s j = true := by
  by_contra hn
  have hwhole : (y.variableAt s j).isIntegral = true := by simpa [isFractional] using hn
  have hkeep := course_invariant (y := y) (P := Store.SoundWith (y.ref j))
    (fun _ i _ h => next_keeps_isIntegral i h) stopOnStall left (List.Subset.refl pending)
    ⟨hs, hwhole⟩
  have hend : (y.variableAt (y.course stopOnStall left pending s).store j).isIntegral = true :=
    hkeep.2.2
  rw [isFractional, hend] at h
  cases h

theorem sweepFrom_filter (hs : s.Sound) (pending : List Nat) (keep : Nat → Bool)
    (hkeep : ∀ j ∈ pending, y.isFractional s j = true → keep j = true) :
    (y.sweepFrom pending s).Agrees (· = ·) (y.sweepFrom (pending.filter keep) s) := by
  induction pending generalizing s with
  | nil => exact ⟨rfl, rfl, rfl⟩
  | cons j rest ih =>
      have hrest : ∀ i ∈ rest, y.isFractional s i = true → keep i = true :=
        fun i hi => hkeep i (List.mem_cons_of_mem _ hi)
      by_cases hj : keep j = true
      · have hnext := ih (next_sound hs y j) fun i hi h =>
          hrest i hi (isFractional_of_sweepFrom hs [j] h)
        rw [List.filter_cons_of_pos hj]
        refine ⟨?_, ?_, hnext.store⟩
        · rw [sweepFrom_cons_moves, sweepFrom_cons_moves, hnext.moves]
        · rw [sweepFrom_cons_pending, sweepFrom_cons_pending, hnext.pending]
      -- a column that is not kept is whole, so the decision about it leads nowhere
      · have hwhole : (y.variableAt s j).isIntegral = true := by
          by_contra hn
          exact hj (hkeep j List.mem_cons_self (by simpa [isFractional] using hn))
        have hnext := ih hs hrest
        rw [List.filter_cons_of_neg hj]
        refine ⟨?_, ?_, ?_⟩
        · rw [sweepFrom_cons_moves, next_of_isIntegral hs hwhole]
          exact hnext.moves
        · rw [sweepFrom_cons_pending, next_of_isIntegral hs hwhole, if_pos hwhole]
          exact hnext.pending
        · change (y.sweepFrom rest (y.next s j).1).store = _
          rw [next_of_isIntegral hs hwhole]
          exact hnext.store

end Whole

end Tableau

end MilpRounding
