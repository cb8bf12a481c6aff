import MilpRounding.Proofs.RepeatedRuns
import MilpRounding.Proofs.Trail

namespace MilpRounding

open Scalar LawfulScalar

variable {α : Type} [Scalar α]

structure Request (α : Type) [Scalar α] where
  options : Options α
  indices : Option (List Int)

def wholeCount (columns : List Ref) (s : Store α) : Nat :=
  columns.countP fun r => (s.read r).isIntegral

namespace Rounding

/-- The scene that some runs leave, each of which may fail. -/
def runs : List (Request α) → Scene α → Scene α
  | [], c => c
  | q :: rest, c => runs rest (leaves (run q.options q.indices) c)

def sweepsOf : List (Request α) → Scene α → List (Sweep α)
  | [], _ => []
  | q :: rest, c =>
    let sweeps := match (run q.options q.indices).run c with
      | .ok _ _ => (passage q.options q.indices c).sweeps
      | .error _ _ => []
    sweeps ++ sweepsOf rest (leaves (run q.options q.indices) c)

theorem runs_journey [LawfulScalar α] (requests : List (Request α)) {c : Scene α}
    (hs : c.store.Sound) :
    Journey (·.columns = c.model.columns.getD []) c.store (sweepsOf requests c)
      (runs requests c).store := by
  induction requests generalizing c with
  | nil => exact .rest c.store
  | cons q rest ih =>
      rw [sweepsOf, runs]
      cases ho : obstacle? q.options q.indices c.model with
      | some f =>
          have hrun : (run q.options q.indices).run c = .error f c := run_of_obstacle ho
          rw [leaves_of_error hrun, hrun]
          exact ih hs
      | none =>
          have hrun := run_of_ready hs ho
          have hfirst := (outcome_journey q.options q.indices hs).mono
            (Q := (·.columns = c.model.columns.getD [])) (by rintro _ rfl; rfl)
          rw [leaves_of_ok hrun, hrun]
          exact hfirst.append (ih (run_sound hs hrun))

end Rounding

section Falling

variable [LawfulScalar α] {P : Tableau α → Prop} {s t : Store α} {ds : List (Decision α)}

def Store.GapsFall (s t : Store α) : Prop := ∀ r, gap (t.value r) ≤ gap (s.value r)

def Store.KeepsWhole (s t : Store α) : Prop :=
  ∀ r, isWhole (s.value r) = true → t.value r = s.value r

theorem Store.gap_le_of_value_eq (hs : s.Sound) {r : Ref} (h : t.value r = s.value r) :
    gap (t.value r) ≤ gap (s.value r) := by
  obtain ⟨q, hq⟩ := (hs r).finite
  rw [h]
  exact gap_le_gap hq

theorem Store.gapsFall_next (y : Tableau α) (j : Nat) (hs : s.Sound) : s.GapsFall (y.next s j).1 := by
  intro r
  rcases y.value_next j r with hsame | ⟨x, hc, rfl, hx⟩
  · exact gap_le_of_value_eq hs hsame
  · rw [hx]
    exact LawfulScalar.le_of_lt (Tableau.choice_eq_some hc).2

theorem Trail.gapsFall (h : Trail P s ds t) (hs : s.Sound) : s.GapsFall t :=
  h.relates (fun hs hsame r => Store.gap_le_of_value_eq hs (hsame r))
    (fun hfirst hlast r => LawfulScalar.le_trans (hlast r) (hfirst r))
    (fun y _ j => Store.gapsFall_next y j) hs

theorem Trail.keepsWhole (h : Trail P s ds t) (hs : s.Sound) : s.KeepsWhole t := by
  refine h.relates (fun _ h r _ => h r) ?_ ?_ hs
  · intro s t u hfirst hlast r hr
    rw [hlast r (by rwa [hfirst r hr]), hfirst r hr]
  · intro y s j hs r hr
    exact congrArg Variable.value (Tableau.read_next_of_isIntegral hs hr j)

theorem Store.gap_lt_of_moved {y : Tableau α} {j : Nat} (hs : s.Sound) (h : (y.next s j).2 = true) :
    gap ((y.next s j).1.value (y.ref j)) < gap (s.value (y.ref j)) := by
  obtain ⟨x, hc, hx⟩ := Tableau.choice_of_moved hs h
  rw [hx]
  exact (Tableau.choice_eq_some hc).2

/-- On a trail that starts where a variable is whole, no decision moves it. -/
theorem Trail.not_moved {columns : List Ref} (h : Trail (·.columns = columns) s ds t) (hs : s.Sound)
    {r : Ref} (hr : isWhole (s.value r) = true) {d : Decision α} (hd : d ∈ ds) (hm : d.moved = true) :
    columns.getD d.column 0 ≠ r := by
  obtain ⟨hsound, y, rfl, hnext⟩ := h.next_of_mem hs hd
  obtain ⟨⟨es, -, -, hbefore, -⟩, -⟩ := h.passes_of_mem hd
  rintro rfl
  have hwhole : (y.variableAt d.before d.column).isIntegral = true := by
    have hsame := hbefore.keepsWhole hs _ hr
    rwa [← hsame] at hr
  rw [Tableau.next_of_isIntegral hsound hwhole, Prod.mk.injEq] at hnext
  rw [← hnext.2] at hm
  cases hm

theorem Trail.wholeCount_le {columns : List Ref} (h : Trail P s ds t) (hs : s.Sound) :
    wholeCount columns s ≤ wholeCount columns t := by
  refine List.countP_mono_left fun r _ hr => ?_
  rw [Variable.isIntegral, show (t.read r).value = (s.read r).value from h.keepsWhole hs r hr]
  exact hr

theorem Journey.wholeCounts {columns : List Ref} {ws : List (Sweep α)} (h : Journey P s ws t)
    (hs : s.Sound) :
    ((s :: ws.map (·.store)).map (wholeCount columns)).Pairwise (· ≤ ·) := by
  have hpairs := h.pairwise
  have hsound : ∀ u ∈ s :: ws.map (·.store), u.Sound := by
    intro u hu
    rcases List.mem_cons.mp hu with rfl | hu
    · exact hs
    · obtain ⟨ds, k⟩ := (List.pairwise_cons.mp hpairs).1 u hu
      exact k.revised.sound hs
  refine List.pairwise_map.mpr (hpairs.imp_of_mem ?_)
  rintro u v hu - ⟨ds, k⟩
  exact k.wholeCount_le (hsound u hu)

end Falling

open Rounding

/-- In any runs on a model, one after the other, no decision takes a value further from an integer, and
the variable that it moves comes nearer to one; a variable that is whole at some moment has the same
value ever after and is never moved; and from sweep to sweep no column ceases to be whole. -/
theorem gaps_fall [LawfulScalar α] {w : Workspace α} (hw : w.Reachable) (k : Nat)
    (requests : List (Request α)) :
    let c := w.scene k
    let columns := c.model.columns.getD []
    let sweeps := sweepsOf requests c
    let ds := sweeps.flatMap (·.decisions)
    let last := (runs requests c).store
    Trail (·.columns = columns) c.store ds last ∧
    (∀ r, gap (last.value r) ≤ gap (c.store.value r)) ∧
    (∀ d ∈ ds, ∀ r, gap (d.after.value r) ≤ gap (d.before.value r) ∧
      (d.moved = true → columns.getD d.column 0 = r →
        gap (d.after.value r) < gap (d.before.value r))) ∧
    (∀ es d fs, ds = es ++ d :: fs → ∀ r, (gap (d.before.value r) == 0) = true →
      last.value r = d.before.value r ∧
        ∀ e ∈ d :: fs, e.moved = true → columns.getD e.column 0 ≠ r) ∧
    ((c.store :: sweeps.map (·.store)).map (wholeCount columns)).Pairwise (· ≤ ·) := by
  intro c columns sweeps ds last
  have hs : c.store.Sound := hw.scene_sound k
  have hjourney : Journey (·.columns = columns) c.store sweeps last := runs_journey requests hs
  have htrail : Trail (·.columns = columns) c.store ds last := hjourney.trail
  refine ⟨htrail, htrail.gapsFall hs, ?_, ?_, hjourney.wholeCounts hs⟩
  · intro d hd r
    obtain ⟨hsound, y, hy, hnext⟩ := htrail.next_of_mem hs hd
    constructor
    · have hfall := Store.gapsFall_next y d.column hsound r
      rwa [hnext] at hfall
    · rintro hm rfl
      have hlt := Store.gap_lt_of_moved (y := y) (j := d.column) hsound (by rw [hnext]; exact hm)
      rw [hnext, Tableau.ref, hy] at hlt
      exact hlt
  -- what is left of the trail starts where the variable is whole
  · intro es d fs hds r hzero
    rw [hds] at htrail
    obtain ⟨hbefore, hdecision, hafter⟩ := htrail.at_decision
    have hsound := hbefore.revised.sound hs
    have hrest := hdecision.append hafter
    have hwhole : isWhole (d.before.value r) = true := by
      have hfinite := (Variable.admits_iff.mp (hsound r).admitted).1
      rw [isWhole, hzero, Bool.and_true]
      exact hfinite
    exact ⟨hrest.keepsWhole hsound r hwhole, fun e he hm => hrest.not_moved hsound hwhole he hm⟩

theorem gaps_fall_twoColumns :
    let c := (Workspace.after twoColumns).scene 0
    let both : Request Float := ⟨.standard, some [0, 1]⟩
    ∃ d ∈ (sweepsOf [both, both] c).flatMap (·.decisions), d.moved = true ∧
      gap (d.after.value 0) < gap (d.before.value 0) := by
  intro c both
  have hmoves : ((sweepsOf [both, both] c).flatMap (·.decisions)).any
      (fun d => d.moved && d.column == 0) = true := by decide +kernel
  have hfirst : (c.model.columns.getD []).getD 0 0 = 0 := by decide +kernel
  obtain ⟨d, hd, hd0⟩ := List.any_eq_true.mp hmoves
  rw [Bool.and_eq_true, beq_iff_eq] at hd0
  obtain ⟨-, -, hfalls, -⟩ := gaps_fall (Workspace.reachable_after twoColumns) 0 [both, both]
  have hlt := (hfalls d hd 0).2 hd0.1 (by rw [hd0.2]; exact hfirst)
  exact ⟨d, hd, hd0.1, hlt⟩

end MilpRounding
