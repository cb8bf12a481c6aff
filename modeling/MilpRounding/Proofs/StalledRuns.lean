import MilpRounding.Proofs.PendingColumns
import MilpRounding.Proofs.RationalMoves
import MilpRounding.Proofs.RepeatedRuns

namespace MilpRounding

open Scalar LawfulScalar

variable {α : Type} [Scalar α]

def Options.stopping (options : Options α) (on : Bool) : Options α :=
  { options with stopOnStall := on }

namespace Rounding

variable {moves : Nat} {pending : List Nat} {up down : α}

theorem stopReason?_of_stalled (h : stopReason? true moves pending up down = some .stalled) :
    moves = 0 ∧ stopReason? false moves pending up down = none := by
  rw [stopReason?] at h ⊢
  split at h
  next => cases h
  next hc =>
    split at h
    next hmoves =>
      rw [if_neg hc]
      simpa using hmoves
    next => cases h

theorem stopReason?_of_not_stalled (h : stopReason? true moves pending up down ≠ some .stalled) :
    stopReason? false moves pending up down = stopReason? true moves pending up down := by
  rw [stopReason?] at h ⊢
  rw [stopReason?]
  split
  next => rfl
  next hc =>
    rw [if_neg hc] at h
    split at h
    next => exact absurd rfl h
    next hmoves =>
      rw [if_neg hmoves, if_neg (by simp)]

end Rounding

namespace Tableau

variable {y : Tableau α} {s : Store α} {pending : List Nat}

/-- From where a course has stalled, all sweeps to come are idle. -/
theorem course_idle {k : Course α} (h : y.Rests true k) (hstatus : k.status = .stalled)
    (left : Nat) :
    ∃ ws : List (Sweep α),
      y.course false left k.pending k.store = ⟨.sweepLimit, k.store, k.pending, ws⟩ ∧
      ws.map Sweep.moves = List.replicate left 0 := by
  induction left with
  | zero => exact ⟨[], rfl, rfl⟩
  | succ left ih =>
      obtain ⟨ws, hcourse, hidle⟩ := ih
      obtain ⟨hmoves, hstore, hpending⟩ := sweepFrom_of_choice_eq_none h.still
      rw [List.filter_eq_self.mpr h.fractional] at hpending
      have hgo : (y.sweepFrom k.pending k.store).reason? false = none := by
        have htotals := sweepFrom_totals y k.pending k.store
        rw [hstore, hpending] at htotals
        have hstops := h.stops
        rw [hstatus, htotals] at hstops
        rw [Sweep.reason?, hmoves, hpending]
        exact (Rounding.stopReason?_of_stalled hstops).2
      refine ⟨y.sweepFrom k.pending k.store :: ws, ?_, ?_⟩
      · rw [course_of_no_reason hgo, hstore, hpending, hcourse]
        rfl
      · rw [List.map_cons, hmoves, hidle, List.replicate_succ]

theorem course_of_not_stalled {left : Nat} (h : (y.course true left pending s).status ≠ .stalled) :
    y.course false left pending s = y.course true left pending s := by
  induction left generalizing pending s with
  | zero => rfl
  | succ left ih =>
      have hsame : (y.sweepFrom pending s).reason? true ≠ some .stalled →
          (y.sweepFrom pending s).reason? false = (y.sweepFrom pending s).reason? true :=
        Rounding.stopReason?_of_not_stalled
      cases hr : (y.sweepFrom pending s).reason? true with
      | some status =>
          rw [course_of_reason hr] at h ⊢
          rw [hr] at hsame
          rw [course_of_reason (hsame fun hs => h (Option.some.inj hs))]
      | none =>
          rw [course_of_no_reason hr] at h ⊢
          rw [hr] at hsame
          rw [course_of_no_reason (hsame (by simp)), ih h]

theorem course_of_stalled [LawfulScalar α] {left : Nat}
    (h : (y.course true left pending s).status = .stalled) :
    let k := y.course true left pending s
    let l := y.course false left pending s
    l.status = .sweepLimit ∧ l.pending = k.pending ∧ l.store = k.store ∧
      l.sweeps.map Sweep.moves =
        k.sweeps.map Sweep.moves ++ List.replicate (left - k.sweeps.length) 0 := by
  induction left generalizing pending s with
  | zero => cases h
  | succ left ih =>
      cases hr : (y.sweepFrom pending s).reason? true with
      | some status =>
          have hstops : (y.course true (left + 1) pending s).status ≠ .sweepLimit := by simp [h]
          have hrest := course_rests hstops
          rw [course_of_reason hr] at h hrest ⊢
          obtain rfl : status = .stalled := h
          -- the sweep that stalls is made in both courses, and leaves nothing to do
          obtain ⟨ws, hcourse, hidle⟩ := course_idle hrest rfl left
          have hgo : (y.sweepFrom pending s).reason? false = none :=
            (Rounding.stopReason?_of_stalled hr).2
          rw [course_of_no_reason hgo, hcourse]
          exact ⟨rfl, rfl, rfl, by simp [Course.after, hidle]⟩
      | none =>
          have hgo : (y.sweepFrom pending s).reason? false = none :=
            (Rounding.stopReason?_of_not_stalled (by rw [← Sweep.reason?, hr]; simp)).trans hr
          rw [course_of_no_reason hr] at h ⊢
          rw [course_of_no_reason hgo]
          obtain ⟨hstatus, hpending, hstore, hidle⟩ := ih h
          refine ⟨hstatus, hpending, hstore, ?_⟩
          simp [Course.after, hidle, Nat.add_sub_add_right]

end Tableau

namespace Rounding

variable {options : Options α} {indices : Option (List Int)}

theorem reportOf_of_stalled {y : Tableau α} {k l : Course α} {cap : Nat}
    (hpending : l.pending = k.pending) (hstore : l.store = k.store)
    (hcap : k.sweeps.length ≤ cap)
    (hmoves : l.sweeps.map Sweep.moves =
      k.sweeps.map Sweep.moves ++ List.replicate (cap - k.sweeps.length) 0) :
    reportOf options indices y l = { reportOf options indices y k with
      status := l.status
      sweeps := cap
      history := k.sweeps.map Sweep.moves ++ List.replicate (cap - k.sweeps.length) 0 } := by
  have hlength : l.sweeps.length = cap := by
    have h := congrArg List.length hmoves
    simp only [List.length_map, List.length_append, List.length_replicate] at h
    omega
  simp only [reportOf, roundedColumns, hpending, hstore, hmoves, hlength, List.sum_append,
    List.sum_replicate, smul_zero, add_zero]

end Rounding

open Rounding

variable [LawfulScalar α] {options : Options α} {indices : Option (List Int)} {c : Scene α}

/-- Whether stalls end a run makes no difference to whether it fails, and none to the scene that it
leaves. To the report it makes one only where the run stalls: without the escape all sweeps are made, and
those after the stall are idle. -/
theorem run_past_stall (hs : c.store.Sound) :
    (∀ fault c', (run (options.stopping true) indices).run c = .error fault c' →
      (run (options.stopping false) indices).run c = .error fault c') ∧
    ∀ report c', (run (options.stopping true) indices).run c = .ok report c' →
      ∃ later c'', (run (options.stopping false) indices).run c = .ok later c'' ∧
        c''.store = c'.store ∧ c''.model = c'.model ∧
        (report.status ≠ .stalled → later = report) ∧
        (report.status = .stalled → later = { report with
          status := .sweepLimit
          sweeps := options.maxSweeps.1
          history := report.history ++
            List.replicate (options.maxSweeps.1 - report.sweeps) 0 }) := by
  constructor
  · intro fault c' h
    have hobstacle := obstacle_of_run hs h
    rw [run_of_obstacle hobstacle] at h
    cases h
    exact run_of_obstacle hobstacle
  · intro report c' h
    obtain ⟨hready, rfl, rfl⟩ := ready_of_run hs h
    have hrun : (run (options.stopping false) indices).run c = _ := run_of_ready hs hready
    have hcap : (passage (options.stopping true) indices c).sweeps.length ≤ options.maxSweeps.1 :=
      Tableau.length_sweeps_le _ _ _ _ _
    by_cases hstalled : (passage (options.stopping true) indices c).status = .stalled
    · obtain ⟨hlimit, hpending, hstore, hmoves⟩ := Tableau.course_of_stalled hstalled
      refine ⟨_, _, hrun, ?_, rfl, fun h => absurd hstalled h, fun _ => ?_⟩
      · have hmarked : markedColumns (options.stopping false) indices
            (passage (options.stopping false) indices c) =
              markedColumns (options.stopping true) indices
                (passage (options.stopping true) indices c) := markedColumns_congr hpending
        simp only [outcome, settled_eq_markColumns, hmarked]
        exact congrArg _ hstore
      · refine (reportOf_of_stalled hpending hstore hcap hmoves).trans ?_
        rw [hlimit]
        rfl
    · have hpassage : passage (options.stopping false) indices c =
          passage (options.stopping true) indices c := Tableau.course_of_not_stalled hstalled
      rw [hpassage] at hrun
      refine ⟨_, _, hrun, ?_, rfl, fun _ => rfl, fun h => absurd h hstalled⟩
      simp only [outcome, hpassage]
      rfl

def hemmedIn : Scene Exact where
  store := ⟨#[⟨.continuous, .finite (1 / 4), .finite 0, .finite 10⟩]⟩
  model :=
    { columns := some [0]
      rows := some [⟨[.finite 1], .le, .finite (1 / 2)⟩] }

theorem hemmedIn_sound : hemmedIn.store.Sound := by
  apply Store.sound_of_cells
  intro v hv
  obtain rfl := List.mem_singleton.mp (Array.mem_def.mp hv)
  exact Variable.continuous_sound rfl rfl (by norm_num) (by norm_num)

theorem run_past_stall_hemmedIn :
    let options : Options Exact := Options.standard.limited ⟨3, by decide⟩
    ∃ report c' later c'', (run (options.stopping true) (some [0])).run hemmedIn = .ok report c' ∧
      report.status = .stalled ∧
      (run (options.stopping false) (some [0])).run hemmedIn = .ok later c'' ∧
      c''.store = c'.store ∧ c''.model = c'.model ∧
      later = { report with
        status := .sweepLimit
        sweeps := 3
        history := report.history ++ List.replicate (3 - report.sweeps) 0 } := by
  intro options
  have hrun : (run (options.stopping true) (some [0])).run hemmedIn = _ :=
    run_of_ready hemmedIn_sound (by decide)
  have hstalled : (passage (options.stopping true) (some [0]) hemmedIn).status = .stalled := by
    decide +kernel
  obtain ⟨later, c'', hlater, hstore, hmodel, -, hreport⟩ :=
    (run_past_stall hemmedIn_sound).2 _ _ hrun
  exact ⟨_, _, later, c'', hrun, hstalled, hlater, hstore, hmodel, hreport hstalled⟩

end MilpRounding
