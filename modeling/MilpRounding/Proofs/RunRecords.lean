import MilpRounding.Event.Record
import MilpRounding.Proofs.ConfinedRuns
import MilpRounding.Proofs.ListedIndices
import MilpRounding.Proofs.StatusMeaning
import MilpRounding.Proofs.SuccessiveTurns
import MilpRounding.Proofs.TruthfulReport

namespace MilpRounding

open Scalar LawfulScalar Rounding

variable {α : Type} [Scalar α]

/-- One record that names just the rows that point the wrong way, if these are to be turned and there are
any. -/
def NotesTurn (options : Options α) (rows : List (Row α)) (records : List (Event α)) : Prop :=
  if options.normalize = true ∧ ∃ r ∈ rows, r.relation.isAbove = true then
    ∃ named : List Nat, records = [.rowsFlipped .le named] ∧ named.Pairwise (· < ·) ∧
      ∀ i, i ∈ named ↔ ∃ r, rows[i]? = some r ∧ r.relation.isAbove = true
  else records = []

/-- One record for each sweep of a report, numbered from one on, with the moves of the sweep and the
number of columns that it left pending. -/
structure Report.NotesSweeps (report : Report α) (pendings : List Nat) (records : List (Event α)) :
    Prop where
  count : records.length = report.sweeps
  counts : pendings.length = report.sweeps
  each : ∀ k < report.sweeps, ∃ moves pending up down, report.history[k]? = some moves ∧
    pendings[k]? = some pending ∧ records[k]? = some (.sweepDone (k + 1) moves pending up down)
  falling : pendings.Pairwise (· ≥ ·)
  last : pendings.getLast? = some report.fractional.length

def Report.closing (report : Report α) (indices : List Int) : Event α :=
  .runDone report.status report.sweeps report.rounded.length indices.toFinset.card

/-- The records of a run over listed indices, all of which are written at the level of details. -/
structure Report.Notes (options : Options α) (rows : List (Row α)) (indices : List Int)
    (report : Report α) (records : List (Event α)) : Prop where
  parts : ∃ turns sweeps pendings, records = turns ++ sweeps ++ [report.closing indices] ∧
    NotesTurn options rows turns ∧ report.NotesSweeps pendings sweeps
  written : ∀ e ∈ records, Severity.detail.level ≤ e.severity.level
  notices : records.filter (·.severity = .notice) = [report.closing indices]
  rejections : ∀ reason, .updateRejected reason ∉ records

theorem Report.Notes.lines {options : Options Float} {rows : List (Row Float)} {indices : List Int}
    {report : Report Float} {records : List (Event Float)}
    (h : report.Notes options rows indices records) :
    Event.lines Severity.detail.level records = records.map Event.line := by
  rw [Event.lines, List.filter_eq_self.mpr fun e he => decide_eq_true (h.written e he)]

section Events

omit [Scalar α]

theorem length_sweepEvents (n : Nat) (ws : List (Sweep α)) :
    (sweepEvents n ws).length = ws.length := by
  induction ws generalizing n with
  | nil => rfl
  | cons w rest ih => rw [sweepEvents, List.length_cons, List.length_cons, ih]

theorem getElem?_sweepEvents (n : Nat) (ws : List (Sweep α)) (k : Nat) :
    (sweepEvents n ws)[k]? = ws[k]?.map fun w =>
      .sweepDone (n + k + 1) w.moves w.pending.length w.up w.down := by
  induction ws generalizing n k with
  | nil => rfl
  | cons w rest ih =>
      cases k with
      | zero => rfl
      | succ k =>
          rw [sweepEvents, List.getElem?_cons_succ, List.getElem?_cons_succ, ih]
          rw [Nat.add_right_comm n 1 k]
          rfl

theorem severity_sweepEvents {n : Nat} {ws : List (Sweep α)} {e : Event α}
    (h : e ∈ sweepEvents n ws) : e.severity = .detail := by
  obtain ⟨k, hk⟩ := List.mem_iff_getElem?.mp h
  rw [getElem?_sweepEvents] at hk
  obtain ⟨w, -, rfl⟩ := Option.map_eq_some_iff.mp hk
  rfl

end Events

namespace Tableau

variable {y : Tableau α} {s : Store α} {stopOnStall : Bool} {left : Nat} {pending : List Nat}

theorem pending_sublist_of_mem_course {w : Sweep α}
    (h : w ∈ (y.course stopOnStall left pending s).sweeps) : w.pending.Sublist pending := by
  induction left generalizing pending s with
  | zero => cases h
  | succ left ih =>
      have hfirst := sweepFrom_pending_sublist y pending s
      cases hr : (y.sweepFrom pending s).reason? stopOnStall with
      | some status =>
          rw [course_of_reason hr] at h
          rwa [List.mem_singleton.mp h]
      | none =>
          rw [course_of_no_reason hr] at h
          rcases List.mem_cons.mp h with rfl | hrest
          · exact hfirst
          · exact (ih hrest).trans hfirst

/-- What a sweep leaves pending, later sweeps only leave less of. -/
theorem pendings_course (y : Tableau α) (stopOnStall : Bool) (left : Nat) (pending : List Nat)
    (s : Store α) : (y.course stopOnStall left pending s).sweeps.Pairwise
      fun v w => w.pending.Sublist v.pending := by
  induction left generalizing pending s with
  | zero => exact .nil
  | succ left ih =>
      cases hr : (y.sweepFrom pending s).reason? stopOnStall with
      | some status =>
          rw [course_of_reason hr]
          exact List.pairwise_singleton _ _
      | none =>
          rw [course_of_no_reason hr]
          exact .cons (fun w hw => pending_sublist_of_mem_course hw) (ih _ _)

end Tableau

namespace Rounding

variable {options : Options α} {indices : Option (List Int)} {c : Scene α}

omit [Scalar α] in
theorem isEmpty_opposing_iff {rows : List (Row α)} :
    (opposing .le rows).isEmpty = false ↔ ∃ r ∈ rows, r.relation.isAbove = true := by
  rw [List.isEmpty_eq_false_iff_exists_mem]
  constructor
  · rintro ⟨i, hi⟩
    obtain ⟨r, hr, ho⟩ := mem_opposing.mp hi
    exact ⟨r, List.mem_of_getElem? hr, r.relation.opposes_le ▸ ho⟩
  · rintro ⟨r, hr, ha⟩
    obtain ⟨i, hi⟩ := List.mem_iff_getElem?.mp hr
    exact ⟨i, mem_opposing.mpr ⟨r, hi, r.relation.opposes_le ▸ ha⟩⟩

theorem notesTurn_orientEvents {m : Model α} {rows : List (Row α)} (h : m.rows = some rows) :
    NotesTurn options rows (orientEvents options m) := by
  have hturns : (options.normalize && !(opposing .le rows).isEmpty) = true ↔
      options.normalize = true ∧ ∃ r ∈ rows, r.relation.isAbove = true := by
    rw [Bool.and_eq_true, Bool.not_eq_true', isEmpty_opposing_iff]
  rw [NotesTurn, orientEvents, h, Option.getD_some]
  by_cases hn : options.normalize = true ∧ ∃ r ∈ rows, r.relation.isAbove = true
  · rw [if_pos (hturns.mpr hn), if_pos hn]
    refine ⟨_, rfl, List.pairwise_lt_range.filter _, fun i => ?_⟩
    simp only [mem_opposing, Relation.opposes_le]
  · rw [if_neg (mt hturns.mp hn), if_neg hn]

theorem severity_orientEvents {m : Model α} {e : Event α} (h : e ∈ orientEvents options m) :
    e.severity = .detail := by
  rw [orientEvents] at h
  split at h
  · rw [List.mem_singleton.mp h]
    rfl
  · cases h

theorem notesSweeps_passage (options : Options α) (indices : Option (List Int)) (c : Scene α) :
    let k := passage options indices c
    (reportOf options indices (tableau options c.model) k).NotesSweeps
      (k.sweeps.map (·.pending.length)) (sweepEvents 0 k.sweeps) where
  count := length_sweepEvents 0 _
  counts := List.length_map _
  each i hi := by
    obtain ⟨w, hw⟩ : ∃ w, (passage options indices c).sweeps[i]? = some w :=
      ⟨_, List.getElem?_eq_getElem hi⟩
    refine ⟨w.moves, w.pending.length, w.up, w.down, ?_, ?_, ?_⟩
    · simp only [reportOf, List.getElem?_map, hw, Option.map_some]
    · simp only [List.getElem?_map, hw, Option.map_some]
    · rw [getElem?_sweepEvents, hw, Nat.zero_add, Option.map_some]
  falling := by
    have hpendings := Tableau.pendings_course (tableau options c.model) options.stopOnStall
      options.maxSweeps.1 (listed indices) c.store
    exact List.pairwise_map.mpr (hpendings.imp fun h => h.length_le)
  last := by
    obtain ⟨left, hleft⟩ := Nat.exists_eq_add_of_le' options.maxSweeps.2
    obtain ⟨ws, w, hsweeps, hpending, -⟩ := (tableau options c.model).course_last
      options.stopOnStall left (listed indices) c.store
    simp only [reportOf, passage, hleft] at hsweeps hpending ⊢
    rw [hsweeps, List.map_append, List.map_singleton, List.getLast?_concat, hpending]

theorem notes_runEvents {idx : List Int} (hidx : idx.Nodup) {rows : List (Row α)}
    (hrows : c.model.rows = some rows) :
    (reportOf options (some idx) (tableau options c.model) (passage options (some idx) c)).Notes
      options rows idx (runEvents options (some idx) c) := by
  have hlength : (listed (some idx)).length = idx.toFinset.card := by
    rw [listed, List.length_map, List.toFinset_card_of_nodup hidx, Option.getD_some]
  have hparts : runEvents options (some idx) c = orientEvents options c.model ++
      sweepEvents 0 (passage options (some idx) c).sweeps ++
        [(reportOf options (some idx) (tableau options c.model)
          (passage options (some idx) c)).closing idx] := by
    rw [runEvents, Report.closing, ← hlength]
    rfl
  have hdetails : ∀ e ∈ orientEvents options c.model ++
      sweepEvents 0 (passage options (some idx) c).sweeps, e.severity = .detail := by
    intro e he
    rcases List.mem_append.mp he with h | h
    · exact severity_orientEvents h
    · exact severity_sweepEvents h
  refine ⟨⟨_, _, _, hparts, notesTurn_orientEvents hrows, notesSweeps_passage options _ c⟩,
    fun e he => ?_, ?_, not_rejected_runEvents options _ c⟩
  · cases e.severity <;> decide
  · rw [hparts, List.filter_append, List.filter_eq_nil_iff.mpr]
    · rfl
    · intro e he
      rw [hdetails e he]
      decide

end Rounding

open Session

theorem launch_recorded [LawfulScalar α] {w t : Workspace α} {e : Nat} {report : Report α}
    (hw : w.Reachable) (h : (launch e).run w = .ok report t) :
    ∃ g indices rows records, w.engines[e]? = some g ∧ g.indices = some indices ∧
      (w.modelAt g.model).rows = some rows ∧ t.events = w.events ++ records.toArray ∧
      report.Notes g.options rows indices records := by
  obtain ⟨g, c, hg, hrun, ht, -⟩ := run_of_launch hw.sound h
  obtain ⟨heard, hheard⟩ := Workspace.hear_eq (w.withScene g.model c) e report
  obtain ⟨hready, rfl, rfl⟩ := ready_of_run hw.sound.store hrun
  obtain ⟨indices, -, rows, hindices, -, hrows, -⟩ := obstacle?_eq_none hready
  refine ⟨g, indices, rows, runEvents g.options g.indices (w.scene g.model), hg, hindices, hrows,
    ?_, ?_⟩
  · rw [ht, hheard]
    rfl
  · rw [hindices]
    exact notes_runEvents (hw.listsOnce e g indices hg hindices) hrows

theorem launch_recorded_sharedVariable :
    let w := Workspace.after sharedVariable
    ∃ report t g indices rows records, (launch 0).run w = .ok report t ∧ w.engines[0]? = some g ∧
      t.events = w.events ++ records.toArray ∧ report.Notes g.options rows indices records := by
  intro w
  have hconverged : (launch 0).status? w = some .converged := by decide +kernel
  obtain ⟨report, t, hrun, -⟩ := run_of_status? hconverged
  obtain ⟨g, indices, rows, records, hg, -, -, hevents, hnotes⟩ :=
    launch_recorded (Workspace.reachable_after sharedVariable) hrun
  exact ⟨report, t, g, indices, rows, records, hrun, hg, hevents, hnotes⟩

end MilpRounding
