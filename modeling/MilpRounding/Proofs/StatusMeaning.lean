import Mathlib.Algebra.Order.BigOperators.Group.List
import MilpRounding.Proofs.CourseStages
import MilpRounding.Proofs.RationalScene
import MilpRounding.Workspace

namespace MilpRounding

open Scalar LawfulScalar Rounding

theorem Tableau.course_last {α : Type} [Scalar α] (y : Tableau α) (stopOnStall : Bool) (left : Nat)
    (pending : List Nat) (s : Store α) :
    let k := y.course stopOnStall (left + 1) pending s
    ∃ ws w, k.sweeps = ws ++ [w] ∧ w.pending = k.pending ∧
      y.totals k.store k.pending = (w.up, w.down) ∧
      (w.reason? stopOnStall).getD .sweepLimit = k.status ∧
      (k.status = .sweepLimit → k.sweeps.length = left + 1) := by
  induction left generalizing pending s with
  | zero =>
      have htotals := y.sweepFrom_totals pending s
      cases hr : (y.sweepFrom pending s).reason? stopOnStall with
      | some status =>
          rw [course_of_reason hr]
          exact ⟨[], _, rfl, rfl, htotals, by rw [hr]; rfl, fun _ => rfl⟩
      | none =>
          rw [course_of_no_reason hr]
          exact ⟨[], _, rfl, rfl, htotals, by rw [hr]; rfl, fun _ => rfl⟩
  | succ left ih =>
      cases hr : (y.sweepFrom pending s).reason? stopOnStall with
      | some status =>
          rw [course_of_reason hr]
          have hne : status ≠ .sweepLimit := stopReason?_ne hr
          exact ⟨[], _, rfl, rfl, y.sweepFrom_totals pending s, by rw [hr]; rfl,
            fun h => absurd h hne⟩
      | none =>
          obtain ⟨ws, w, hsweeps, hpending, htotals, hstatus, hlength⟩ :=
            ih (y.sweepFrom pending s).pending (y.sweepFrom pending s).store
          rw [course_of_no_reason hr]
          refine ⟨y.sweepFrom pending s :: ws, w, ?_, hpending, htotals, hstatus, fun h => ?_⟩
          · rw [Course.after, hsweeps]
            rfl
          · rw [Course.after, List.length_append, hlength h, List.length_singleton, Nat.add_comm]

/-- What is positive of some numbers, added up. -/
def surplus (limits : Nat → ℚ) (pending : List Nat) : ℚ :=
  (pending.map fun j => max 0 (limits j)).sum

theorem surplus_nonneg (limits : Nat → ℚ) (pending : List Nat) : 0 ≤ surplus limits pending := by
  refine List.sum_nonneg fun q hq => ?_
  obtain ⟨j, -, rfl⟩ := List.mem_map.mp hq
  exact le_max_left 0 (limits j)

theorem surplus_eq_zero_iff {limits : Nat → ℚ} {pending : List Nat} :
    surplus limits pending = 0 ↔ ∀ j ∈ pending, limits j ≤ 0 := by
  induction pending with
  | nil => simp [surplus]
  | cons j rest ih =>
      have hrest : 0 ≤ surplus limits rest := surplus_nonneg limits rest
      rw [surplus, List.map_cons, List.sum_cons, ← surplus,
        add_eq_zero_iff_of_nonneg (le_max_left _ _) hrest, ih, max_eq_left_iff,
        List.forall_mem_cons]

theorem foldl_greater_finite (limits : Nat → ℚ) (pending : List Nat) (q : ℚ) :
    pending.foldl (fun t j => t + greater 0 (.finite (limits j))) (Exact.finite q) =
      .finite (q + surplus limits pending) := by
  induction pending generalizing q with
  | nil => simp [surplus]
  | cons j rest ih =>
      rw [List.foldl_cons, Exact.zero_eq, greater_finite, Exact.finite_add_finite]
      rw [← Exact.zero_eq, ih, surplus, surplus, List.map_cons, List.sum_cons, add_assoc]

theorem Rounding.stopReason?_finite (stopOnStall : Bool) (moves : Nat) (pending : List Nat)
    (p q : ℚ) : stopReason? stopOnStall moves pending (Exact.finite p) (.finite q) =
      if (p = 0 ∧ q = 0) ∧ (moves = 0 ∨ pending = []) then some .converged
      else if moves = 0 ∧ stopOnStall = true then some .stalled
      else none := by
  simp [stopReason?]

namespace Tableau

variable {y : Tableau Exact} {s : Store Exact}

def leeway (y : Tableau Exact) (s : Store Exact) (d : Direction) (j : Nat) : ℚ := (y.limit s j d).toRat

theorem limit_eq_leeway (hs : s.Sound) (hr : ∀ r ∈ y.rows, r.Rational) (d : Direction) (j : Nat) :
    y.limit s j d = .finite (y.leeway s d j) := by
  obtain ⟨m, hm, -⟩ := limit_spec (j := j) hs hr d
  rw [leeway, hm]
  rfl

theorem totals_eq (hs : s.Sound) (hr : ∀ r ∈ y.rows, r.Rational) (pending : List Nat) :
    y.totals s pending =
      (.finite (surplus (y.leeway s .up) pending), .finite (surplus (y.leeway s .down) pending)) := by
  have hup : y.limitUp s = fun j => .finite (y.leeway s .up j) :=
    funext (limit_eq_leeway hs hr .up)
  have hdown : y.limitDown s = fun j => .finite (y.leeway s .down j) :=
    funext (limit_eq_leeway hs hr .down)
  simp only [totals, hup, hdown]
  rw [← zero_add (surplus (y.leeway s .up) pending), ← foldl_greater_finite,
    ← zero_add (surplus (y.leeway s .down) pending), ← foldl_greater_finite]
  rfl

end Tableau

theorem Tableau.limit_congr {α : Type} [Scalar α] {y : Tableau α} {s t : Store α}
    (h : y.values s = y.values t) (j : Nat) (d : Direction) : y.limit s j d = y.limit t j d := by
  cases d with
  | up => simp only [limit, limitUp, h]
  | down => simp only [limit, limitDown, h]

theorem Model.limits_eq {α : Type} [Scalar α] {m : Model α} {y : Tableau α}
    (hm : m.requireTableau = .ok y) (s : Store α) {j : Nat} (hj : j < y.columns.length) :
    m.limits s j = .ok [y.limit s j .up, y.limit s j .down, y.reachUp s j, y.reachDown s j] := by
  have hresolve : (resolve y.columns.length (j : Int) : Except (Fault α) Nat) = .ok j := by
    simp [resolve, resolve?, hj]
    rfl
  rw [limits, hm]
  change (resolve y.columns.length (j : Int)).bind _ = _
  rw [hresolve]
  rfl

theorem Rounding.rational_oriented {rows : List (Row Exact)} (hr : ∀ r ∈ rows, r.Rational)
    (options : Options Exact) : ∀ r ∈ oriented options rows, r.Rational :=
  forall_oriented (fun _ h => h.toward .le) options hr

/-- No column has the room to go anywhere. -/
def Stuck (up down : Nat → ℚ) (columns : List Nat) : Prop := ∀ j ∈ columns, up j ≤ 0 ∧ down j ≤ 0

/-- What a status says about the columns that are still pending, how far each of them could go up and
down, and the moves of the last sweep. -/
def Status.Means (up down : Nat → ℚ) (stopOnStall : Bool) (exhausted : Prop) (last : Nat)
    (pending : List Nat) : Status → Prop
  | .converged => Stuck up down pending ∧ (pending = [] ∨ last = 0)
  | .stalled => last = 0 ∧ stopOnStall = true ∧ ∃ j ∈ pending, 0 < up j ∨ 0 < down j
  | .sweepLimit => exhausted ∧ (last ≠ 0 ∨ stopOnStall = false) ∧
      ¬ (Stuck up down pending ∧ (pending = [] ∨ last = 0))

theorem surplus_eq_zero_iff_stuck {up down : Nat → ℚ} {pending : List Nat} :
    surplus up pending = 0 ∧ surplus down pending = 0 ↔ Stuck up down pending := by
  rw [surplus_eq_zero_iff, surplus_eq_zero_iff]
  exact forall₂_and.symm

theorem exists_of_not_stuck {up down : Nat → ℚ} {pending : List Nat}
    (h : ¬ Stuck up down pending) : ∃ j ∈ pending, 0 < up j ∨ 0 < down j := by
  simp only [Stuck, not_forall, not_and_or, not_le] at h
  obtain ⟨j, hj, hfree⟩ := h
  exact ⟨j, hj, hfree⟩

theorem means_of_stopReason? {up down : Nat → ℚ} {stopOnStall : Bool} {last : Nat}
    {pending : List Nat} {exhausted : Prop} {status : Status}
    (h : (stopReason? stopOnStall last pending (Exact.finite (surplus up pending))
      (.finite (surplus down pending))).getD .sweepLimit = status)
    (hexhausted : status = .sweepLimit → exhausted) :
    status.Means up down stopOnStall exhausted last pending := by
  rw [stopReason?_finite] at h
  split at h
  next hc =>
    obtain rfl : Status.converged = status := h
    exact ⟨surplus_eq_zero_iff_stuck.mp hc.1, hc.2.symm⟩
  next hc =>
    rw [surplus_eq_zero_iff_stuck, or_comm] at hc
    split at h
    next hstall =>
      obtain rfl : Status.stalled = status := h
      exact ⟨hstall.1, hstall.2, exists_of_not_stuck fun hs => hc ⟨hs, .inr hstall.1⟩⟩
    next hstall =>
      obtain rfl : Status.sweepLimit = status := h
      refine ⟨hexhausted rfl, ?_, hc⟩
      rw [not_and_or, Bool.not_eq_true] at hstall
      exact hstall

theorem Tableau.course_means {y : Tableau Exact} {s : Store Exact} (hs : s.Sound)
    (hr : ∀ r ∈ y.rows, r.Rational) (stopOnStall : Bool) {left : Nat} (hleft : 1 ≤ left)
    (pending : List Nat) :
    let k := y.course stopOnStall left pending s
    ∃ last, (k.sweeps.map Sweep.moves).getLast? = some last ∧
      k.status.Means (y.leeway k.store .up) (y.leeway k.store .down) stopOnStall
        (k.sweeps.length = left) last k.pending := by
  intro k
  obtain ⟨left, rfl⟩ := Nat.exists_eq_add_of_le' hleft
  obtain ⟨ws, w, hsweeps, hpending, htotals, hstatus, hlength⟩ :=
    y.course_last stopOnStall left pending s
  refine ⟨w.moves, ?_, means_of_stopReason? ?_ hlength⟩
  · rw [hsweeps, List.map_append, List.map_singleton, List.getLast?_concat]
  · have hsound : k.store.Sound := course_sound hs stopOnStall (left + 1) pending
    rw [totals_eq hsound hr, Prod.mk.injEq] at htotals
    rw [Sweep.reason?, hpending, ← htotals.1, ← htotals.2] at hstatus
    exact hstatus

/-- The status of a report is true of the limits of the fractional columns in the scene that the run
leaves, and of the moves of the last sweep. -/
theorem status_explained {c c' : Scene Exact} (hs : c.store.Sound)
    (hr : ∀ r ∈ c.model.rows.getD [], r.Rational) {options : Options Exact}
    {indices : Option (List Int)} {report : Report Exact}
    (h : (run options indices).run c = .ok report c') :
    ∃ (up down : Nat → ℚ) (last : Nat),
      (∀ j ∈ report.fractional, ∃ steps, c'.model.limits c'.store j =
        .ok (.finite (up j) :: .finite (down j) :: steps)) ∧
      report.history.getLast? = some last ∧
      report.status.Means up down options.stopOnStall (report.sweeps = options.maxSweeps.1) last
        report.fractional := by
  obtain ⟨hready, rfl, rfl⟩ := ready_of_run hs h
  have hm := requireTableau_orientedModel hready
  obtain ⟨idx, columns, rows, rfl, hc, -, hrange, -⟩ := obstacle?_eq_none hready
  have hrational : ∀ r ∈ (tableau options c.model).rows, r.Rational := rational_oriented hr options
  have hcolumns : (tableau options c.model).columns = columns := by rw [tableau, hc]; rfl
  obtain ⟨last, hlast, hmeans⟩ := Tableau.course_means hs hrational options.stopOnStall
    options.maxSweeps.2 (listed (some idx))
  refine ⟨_, _, last, fun j hj => ?_, hlast, hmeans⟩
  have hlt : j < (tableau options c.model).columns.length := by
    rw [hcolumns]
    exact mem_listed hrange (Tableau.course_pending_subset _ _ _ _ _ hj)
  have hk : (passage options (some idx) c).store.Sound := Tableau.course_sound hs _ _ _
  have hlimit (d : Direction) := (Tableau.limit_congr (values_settled options (some idx)
    (tableau options c.model) (passage options (some idx) c)) j d).trans
      (Tableau.limit_eq_leeway hk hrational d j)
  have hlimits := Model.limits_eq hm (settled options (some idx) (tableau options c.model)
    (passage options (some idx) c)) hlt
  rw [hlimit .up, hlimit .down] at hlimits
  exact ⟨_, hlimits⟩

def overdrawn : Scene Exact where
  store := ⟨#[⟨.continuous, .finite (1 / 2), .finite 0, .finite 10⟩,
    ⟨.continuous, .finite (1 / 2), .finite 0, infinity⟩]⟩
  model :=
    { columns := some [0, 1]
      rows := some [⟨[.finite 1, .finite 0], .le, .finite (3 / 4)⟩,
        ⟨[.finite 0, .finite 1], .le, .finite (1 / 4)⟩] }

theorem overdrawn_sound : overdrawn.store.Sound := by
  apply Store.sound_of_cells
  intro v hv
  obtain rfl | rfl := List.mem_pair.mp (Array.mem_def.mp hv)
  · exact Variable.continuous_sound rfl rfl (by norm_num) (by norm_num)
  · exact Variable.continuous_sound rfl rfl (by norm_num) (fun h => nomatch h)

theorem status_explained_overdrawn :
    ∃ report c', (run .standard (some [0, 1])).run overdrawn = .ok report c' ∧
      report.status = .converged ∧ report.fractional = [0, 1] ∧
      ∃ (up down : Nat → ℚ) (last : Nat),
        (∀ j ∈ report.fractional, ∃ steps, c'.model.limits c'.store j =
          .ok (.finite (up j) :: .finite (down j) :: steps)) ∧
        report.history.getLast? = some last ∧
        Status.converged.Means up down true (report.sweeps = standardSweeps.1) last
          report.fractional := by
  have hrun : (run .standard (some [0, 1])).run overdrawn = _ :=
    run_of_ready overdrawn_sound (by decide)
  have hstatus : (passage .standard (some [0, 1]) overdrawn).status = .converged := by
    decide +kernel
  have hpending : (passage .standard (some [0, 1]) overdrawn).pending = [0, 1] := by
    decide +kernel
  have hmeans := status_explained overdrawn_sound (by decide) hrun
  rw [show Report.status _ = Status.converged from hstatus] at hmeans
  exact ⟨_, _, hrun, hstatus, hpending, hmeans⟩

end MilpRounding
