import Mathlib.Logic.Function.Iterate
import MilpRounding.Proofs.MarkedColumns
import MilpRounding.Proofs.PendingColumns

namespace MilpRounding

open Scalar LawfulScalar

variable {α : Type} [Scalar α]

def outside (keep : Nat → Bool) (j : Nat) : Bool := !keep j

theorem outside_outside (keep : Nat → Bool) : outside (outside keep) = keep :=
  funext fun j => Bool.not_not (keep j)

theorem outside_of_not {keep : Nat → Bool} {j : Nat} (h : keep j = false) : outside keep j = true := by
  rw [outside, h]
  rfl

theorem not_outside {keep : Nat → Bool} {j : Nat} (h : keep j = true) : outside keep j = false := by
  rw [outside, h]
  rfl

namespace Tableau

variable {y : Tableau α} {columns : List Nat} {keep : Nat → Bool} {s t u : Store α}

/-- Two stores agree, but for the variables of the columns that are not kept. -/
def AgreeOn (y : Tableau α) (columns : List Nat) (keep : Nat → Bool) (s t : Store α) : Prop :=
  ∀ r, (∀ j ∈ columns, keep j = false → y.ref j ≠ r) → s.read r = t.read r

theorem AgreeOn.refl (y : Tableau α) (columns : List Nat) (keep : Nat → Bool) (s : Store α) :
    y.AgreeOn columns keep s s :=
  fun _ _ => rfl

theorem AgreeOn.symm (h : y.AgreeOn columns keep s t) : y.AgreeOn columns keep t s :=
  fun r hr => (h r hr).symm

theorem AgreeOn.trans (h : y.AgreeOn columns keep s t) (k : y.AgreeOn columns keep t u) :
    y.AgreeOn columns keep s u :=
  fun r hr => (h r hr).trans (k r hr)

theorem AgreeOn.variableAt (h : y.AgreeOn columns keep s t) (hrefs : (columns.map y.ref).Nodup)
    {j : Nat} (hj : j ∈ columns) (hk : keep j = true) : y.variableAt s j = y.variableAt t j := by
  refine h _ fun i hi hki href => ?_
  obtain rfl := List.inj_on_of_nodup_map hrefs hi hj href
  rw [hk] at hki
  cases hki

theorem AgreeOn.eq (h : y.AgreeOn columns keep s t)
    (k : y.AgreeOn columns (outside keep) s t) (hrefs : (columns.map y.ref).Nodup)
    (hsize : s.size = t.size) : s = t := by
  refine Store.ext_read hsize fun r => ?_
  by_cases hr : ∃ j ∈ columns, keep j = false ∧ y.ref j = r
  · obtain ⟨j, hj, hkj, rfl⟩ := hr
    exact k.variableAt hrefs hj (outside_of_not hkj)
  · exact h r fun j hj hkj href => hr ⟨j, hj, hkj, href⟩

theorem AgreeOn.next_left (h : y.AgreeOn columns keep s t) {j : Nat} (hj : j ∈ columns)
    (hk : keep j = false) : y.AgreeOn columns keep (y.next s j).1 t :=
  fun r hr => (read_next_of_ne (hr j hj hk) s).trans (h r hr)

/-- A decision about a column looks at its variable and its two limits. -/
theorem choice_congr {j : Nat} (hv : y.variableAt s j = y.variableAt t j)
    (hup : y.limitUp s j = y.limitUp t j) (hdown : y.limitDown s j = y.limitDown t j) :
    y.choice s j = y.choice t j := by
  simp only [choice, targetUp, targetDown, reachUp, reachDown, hv, hup, hdown]

/-- The decisions about the columns that are kept do not look at the variables of the others. -/
def Local (y : Tableau α) (columns : List Nat) (keep : Nat → Bool) : Prop :=
  ∀ s t : Store α, s.Sound → t.Sound → y.AgreeOn columns keep s t →
    ∀ j ∈ columns, keep j = true → y.choice s j = y.choice t j

structure Separate (y : Tableau α) (columns : List Nat) (keep : Nat → Bool) : Prop where
  refs : (columns.map y.ref).Nodup
  inner : y.Local columns keep
  outer : y.Local columns (outside keep)

theorem Separate.symm (h : y.Separate columns keep) : y.Separate columns (outside keep) :=
  ⟨h.refs, h.outer, by simpa only [outside_outside] using h.inner⟩

/-- A sweep over both groups, and a sweep over each of them. -/
structure Splits (y : Tableau α) (columns : List Nat) (keep : Nat → Bool) (w inner outer : Sweep α) :
    Prop where
  store_inner : y.AgreeOn columns keep w.store inner.store
  store_outer : y.AgreeOn columns (outside keep) w.store outer.store
  pending_inner : w.pending.filter keep = inner.pending
  pending_outer : w.pending.filter (outside keep) = outer.pending
  moves : w.moves = inner.moves + outer.moves

theorem Splits.symm {w inner outer : Sweep α} (h : y.Splits columns keep w inner outer) :
    y.Splits columns (outside keep) w outer inner :=
  ⟨h.store_outer, by simpa only [outside_outside] using h.store_inner, h.pending_outer,
    by simpa only [outside_outside] using h.pending_inner, h.moves.trans (Nat.add_comm _ _)⟩

section Sound

variable [LawfulScalar α]

theorem AgreeOn.next (h : y.AgreeOn columns keep s t) (hy : y.Separate columns keep)
    (hs : s.Sound) (ht : t.Sound) {j : Nat} (hj : j ∈ columns) (hk : keep j = true) :
    y.AgreeOn columns keep (y.next s j).1 (y.next t j).1 ∧ (y.next s j).2 = (y.next t j).2 := by
  have hchoice := hy.inner s t hs ht h j hj hk
  rw [Tableau.next, Tableau.next, hchoice]
  cases hc : y.choice t j with
  | none => exact ⟨h, rfl⟩
  | some v =>
      refine ⟨fun r hr => ?_, rfl⟩
      have hlts := ref_lt_of_choice hs (hchoice.trans hc)
      have hltt := ref_lt_of_choice ht hc
      rw [Store.read_write, Store.read_write, h.variableAt hy.refs hj hk, h r hr]
      simp only [hlts, hltt, and_true]

theorem Splits.cons {rest inner outer : List Nat} {j : Nat} (hy : y.Separate columns keep)
    (hs : s.Sound) (ht : t.Sound) (hst : y.AgreeOn columns keep s t) (hj : j ∈ columns)
    (hk : keep j = true)
    (h : y.Splits columns keep (y.sweepFrom rest (y.next s j).1) (y.sweepFrom inner (y.next t j).1)
      (y.sweepFrom outer u)) :
    y.Splits columns keep (y.sweepFrom (j :: rest) s) (y.sweepFrom (j :: inner) t)
      (y.sweepFrom outer u) := by
  obtain ⟨hnext, hmoved⟩ := hst.next hy hs ht hj hk
  have hwhole := hnext.variableAt hy.refs hj hk
  refine ⟨h.store_inner, h.store_outer, ?_, ?_, ?_⟩
  · rw [sweepFrom_cons_pending, sweepFrom_cons_pending, hwhole, ← h.pending_inner]
    split
    · rfl
    · rw [List.filter_cons_of_pos hk]
  · rw [sweepFrom_cons_pending, ← h.pending_outer]
    split
    · rfl
    · rw [List.filter_cons_of_neg (by simp [not_outside hk])]
  · rw [sweepFrom_cons_moves, sweepFrom_cons_moves, hmoved, h.moves]
    split <;> omega

theorem sweepFrom_splits (hy : y.Separate columns keep) {pending : List Nat}
    (hp : pending ⊆ columns) (hs : s.Sound) (ht : t.Sound) (hu : u.Sound)
    (hst : y.AgreeOn columns keep s t) (hsu : y.AgreeOn columns (outside keep) s u) :
    y.Splits columns keep (y.sweepFrom pending s) (y.sweepFrom (pending.filter keep) t)
      (y.sweepFrom (pending.filter (outside keep)) u) := by
  induction pending generalizing s t u with
  | nil => exact ⟨hst, hsu, rfl, rfl, rfl⟩
  | cons j rest ih =>
      have hj : j ∈ columns := hp List.mem_cons_self
      have hrest : rest ⊆ columns := fun i hi => hp (List.mem_cons_of_mem _ hi)
      have hnext := next_sound hs y j
      cases hk : keep j with
      | true =>
          have hk' := not_outside hk
          rw [List.filter_cons_of_pos hk, List.filter_cons_of_neg (by simp [hk'])]
          exact .cons hy hs ht hst hj hk (ih hrest hnext (next_sound ht y j) hu
            (hst.next hy hs ht hj hk).1 (hsu.next_left hj hk'))
      | false =>
          have hk' := outside_of_not hk
          rw [List.filter_cons_of_neg (by simp [hk]), List.filter_cons_of_pos hk']
          have hboth := Splits.cons hy.symm hs hu hsu hj hk' (ih hrest hnext ht (next_sound hu y j)
            (hst.next_left hj hk) (hsu.next hy.symm hs hu hj hk').1).symm
          simpa only [outside_outside] using hboth.symm

end Sound

/-- One sweep more, whether or not there is a reason to stop. -/
def onward (y : Tableau α) (p : List Nat × Store α) : List Nat × Store α :=
  ((y.sweepFrom p.1 p.2).pending, (y.sweepFrom p.1 p.2).store)

theorem course_eq_iterate (y : Tableau α) (stopOnStall : Bool) (left : Nat) (pending : List Nat)
    (s : Store α) :
    let k := y.course stopOnStall left pending s
    y.onward^[k.sweeps.length] (pending, s) = (k.pending, k.store) := by
  induction left generalizing pending s with
  | zero => rfl
  | succ left ih =>
      cases hr : (y.sweepFrom pending s).reason? stopOnStall with
      | some status =>
          rw [course_of_reason hr]
          rfl
      | none =>
          rw [course_of_no_reason hr]
          simp only [Course.after, List.length_append, List.length_singleton, Nat.add_comm 1]
          rw [Function.iterate_succ_apply]
          exact ih _ _

theorem onward_of_rests {stopOnStall : Bool} {k : Course α} (h : y.Rests stopOnStall k) :
    y.onward (k.pending, k.store) = (k.pending, k.store) := by
  obtain ⟨-, hstore, hpending⟩ := sweepFrom_of_choice_eq_none h.still
  rw [onward, hstore, hpending, List.filter_eq_self.mpr h.fractional]

section Sound

variable [LawfulScalar α] {stopOnStall : Bool}

theorem iterate_onward {left : Nat} {pending : List Nat} {n : Nat}
    (h : (y.course stopOnStall left pending s).status ≠ .sweepLimit)
    (hn : (y.course stopOnStall left pending s).sweeps.length ≤ n) :
    y.onward^[n] (pending, s) = ((y.course stopOnStall left pending s).pending,
      (y.course stopOnStall left pending s).store) := by
  obtain ⟨more, rfl⟩ := Nat.exists_eq_add_of_le' hn
  rw [Function.iterate_add_apply, course_eq_iterate]
  exact Function.iterate_fixed (onward_of_rests (course_rests h)) more

/-- Sweeps over both groups are as far with one of them as sweeps over this group alone. -/
structure Abreast (y : Tableau α) (columns : List Nat) (keep : Nat → Bool)
    (p q : List Nat × Store α) : Prop where
  subset : p.1 ⊆ columns
  pending : p.1.filter keep = q.1
  store : y.AgreeOn columns keep p.2 q.2
  sound : p.2.Sound
  sound_inner : q.2.Sound

theorem Abreast.onward {p q : List Nat × Store α} (h : y.Abreast columns keep p q)
    (hy : y.Separate columns keep) : y.Abreast columns keep (y.onward p) (y.onward q) := by
  have hsplits := sweepFrom_splits hy h.subset h.sound h.sound_inner h.sound h.store (.refl _ _ _ _)
  rw [h.pending] at hsplits
  exact ⟨List.Subset.trans (sweepFrom_pending_subset y p.1 p.2) h.subset, hsplits.pending_inner,
    hsplits.store_inner, sweepFrom_sound h.sound y p.1, sweepFrom_sound h.sound_inner y q.1⟩

/-- A group ends where it ends alone, if none of the two courses is cut off. -/
theorem course_agreeOn (hy : y.Separate columns keep) (hs : s.Sound) {left : Nat}
    (hboth : (y.course stopOnStall left columns s).status ≠ .sweepLimit)
    (halone : (y.course stopOnStall left (columns.filter keep) s).status ≠ .sweepLimit) :
    y.AgreeOn columns keep (y.course stopOnStall left columns s).store
      (y.course stopOnStall left (columns.filter keep) s).store := by
  have habreast (n : Nat) : y.Abreast columns keep (y.onward^[n] (columns, s))
      (y.onward^[n] (columns.filter keep, s)) := by
    induction n with
    | zero => exact ⟨List.Subset.refl columns, rfl, .refl _ _ _ _, hs, hs⟩
    | succ n ih =>
        rw [Function.iterate_succ_apply', Function.iterate_succ_apply']
        exact ih.onward hy
  have hstore := (habreast (max (y.course stopOnStall left columns s).sweeps.length
    (y.course stopOnStall left (columns.filter keep) s).sweeps.length)).store
  rwa [iterate_onward hboth (le_max_left _ _), iterate_onward halone (le_max_right _ _)] at hstore

end Sound

end Tableau

structure SameGroups (keep : Nat → Bool) (p q : List Nat) : Prop where
  inner : p.filter keep = q.filter keep
  outer : p.filter (outside keep) = q.filter (outside keep)

theorem SameGroups.perm {keep : Nat → Bool} {p q : List Nat} (h : SameGroups keep p q) :
    p.Perm q := by
  have hp : (p.filter keep ++ p.filter (outside keep)).Perm p := List.filter_append_perm keep p
  have hq : (q.filter keep ++ q.filter (outside keep)).Perm q := List.filter_append_perm keep q
  rw [h.inner, h.outer] at hp
  exact hp.symm.trans hq

/-- Courses that tell the same but for how the pending columns are mixed. -/
structure Course.Reordered (keep : Nat → Bool) (k l : Course α) : Prop where
  status : k.status = l.status
  store : k.store = l.store
  groups : SameGroups keep k.pending l.pending
  history : k.sweeps.map Sweep.moves = l.sweeps.map Sweep.moves

namespace Tableau

section Sound

variable [LawfulScalar α] {y : Tableau α} {columns : List Nat} {keep : Nat → Bool} {s : Store α}
  {p q : List Nat}

theorem sweepFrom_reordered (hy : y.Separate columns keep) (hs : s.Sound) (hp : p ⊆ columns)
    (hq : q ⊆ columns) (h : SameGroups keep p q) :
    (y.sweepFrom p s).store = (y.sweepFrom q s).store ∧
      SameGroups keep (y.sweepFrom p s).pending (y.sweepFrom q s).pending ∧
      (y.sweepFrom p s).moves = (y.sweepFrom q s).moves := by
  have hpsplits := sweepFrom_splits hy hp hs hs hs (.refl _ _ _ _) (.refl _ _ _ _)
  have hqsplits := sweepFrom_splits hy hq hs hs hs (.refl _ _ _ _) (.refl _ _ _ _)
  rw [h.inner, h.outer] at hpsplits
  refine ⟨?_, ⟨?_, ?_⟩, hpsplits.moves.trans hqsplits.moves.symm⟩
  · refine AgreeOn.eq (hpsplits.store_inner.trans hqsplits.store_inner.symm)
      (hpsplits.store_outer.trans hqsplits.store_outer.symm) hy.refs ?_
    rw [size_sweepFrom, size_sweepFrom]
  · exact hpsplits.pending_inner.trans hqsplits.pending_inner.symm
  · exact hpsplits.pending_outer.trans hqsplits.pending_outer.symm

/-- How the two groups are mixed makes no difference to a course, if it makes none to the totals. -/
theorem course_reordered (hy : y.Separate columns keep)
    (htotals : ∀ t : Store α, t.Sound → ∀ p q : List Nat, p.Perm q → y.totals t p = y.totals t q)
    (stopOnStall : Bool) (left : Nat) (hs : s.Sound) (hp : p ⊆ columns) (hq : q ⊆ columns)
    (h : SameGroups keep p q) :
    (y.course stopOnStall left p s).Reordered keep (y.course stopOnStall left q s) := by
  induction left generalizing p q s with
  | zero => exact ⟨rfl, rfl, h, rfl⟩
  | succ left ih =>
      obtain ⟨hstore, hgroups, hmoves⟩ := sweepFrom_reordered hy hs hp hq h
      have hw := sweepFrom_sound hs y p
      -- both sweeps count as many moves and leave as many columns, so both courses stop or go on
      have hreason : (y.sweepFrom p s).reason? stopOnStall =
          (y.sweepFrom q s).reason? stopOnStall := by
        have hsame := htotals _ hw _ _ hgroups.perm
        rw [sweepFrom_totals, hstore, sweepFrom_totals, Prod.mk.injEq] at hsame
        rw [Sweep.reason?, Sweep.reason?, hmoves, hsame.1, hsame.2, Rounding.stopReason?,
          Rounding.stopReason?, hgroups.perm.isEmpty_eq]
      have htail := ih hw (List.Subset.trans (sweepFrom_pending_subset y p s) hp)
        (List.Subset.trans (sweepFrom_pending_subset y q s) hq) hgroups
      cases hr : (y.sweepFrom p s).reason? stopOnStall with
      | some status =>
          rw [course_of_reason hr, course_of_reason (hreason.symm.trans hr)]
          exact ⟨rfl, hstore, hgroups, by simp [hmoves]⟩
      | none =>
          rw [course_of_no_reason hr, course_of_no_reason (hreason.symm.trans hr)]
          rw [hstore] at htail ⊢
          exact ⟨htail.status, htail.store, htail.groups, by
            simp [Course.after, hmoves, htail.history]⟩

end Sound

end Tableau

end MilpRounding
