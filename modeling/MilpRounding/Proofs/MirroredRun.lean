import MilpRounding.Proofs.MarkedColumns
import MilpRounding.Proofs.MirroredSteps

namespace MilpRounding

open Scalar LawfulScalar Rounding

theorem Rounding.stopReason?_comm (stopOnStall : Bool) (moves : Nat) (pending : List Nat)
    (up down : Exact) :
    stopReason? stopOnStall moves pending up down =
      stopReason? stopOnStall moves pending down up := by
  rw [stopReason?, stopReason?, Bool.and_comm (up == 0)]

namespace Tableau

variable {y : Tableau Exact}

theorem parallel_mirrored {columns : List Nat}
    (hcosts : ∀ j ∈ columns, ∃ q : ℚ, q ≠ 0 ∧ y.objectiveEntry j = .finite q)
    (stopOnStall : Bool) :
    Parallel stopOnStall columns (fun s t => s.Sound ∧ t = s.mirrored) y y.mirrored := by
  constructor
  · rintro s _ j ⟨hs, rfl⟩ hj
    obtain ⟨q, hq, h⟩ := hcosts j hj
    rw [next_mirrored hs hq h]
  · rintro s _ j ⟨hs, rfl⟩ hj
    obtain ⟨q, hq, h⟩ := hcosts j hj
    rw [next_mirrored hs hq h]
    exact ⟨next_sound hs y j, rfl⟩
  · rintro s _ j ⟨-, rfl⟩ -
    rw [variableAt_mirrored, Variable.isIntegral_mirrored]
  · rintro s _ pending moves ⟨-, rfl⟩ -
    rw [totals_mirrored, stopReason?_comm]
    rfl

end Tableau

namespace Rounding

variable {options : Options Exact} {indices : Option (List Int)}

theorem markColumns_mirrored (y : Tableau Exact) (columns : List Nat) (s : Store Exact) :
    markColumns y.mirrored columns s.mirrored = (markColumns y columns s).mirrored := by
  induction columns generalizing s with
  | nil => rfl
  | cons j rest ih =>
      have hrest := ih (s.makeIntegral (y.ref j))
      rw [Store.mirrored_makeIntegral] at hrest
      exact hrest

theorem settled_mirrored {y : Tableau Exact} {k l : Course Exact}
    (h : k.Agrees (fun s t => t = s.mirrored) l) :
    settled options indices y.mirrored l = (settled options indices y k).mirrored := by
  rw [settled_eq_markColumns, settled_eq_markColumns, h.store, markColumns_mirrored,
    markedColumns_congr h.pending]

theorem reportOf_mirrored {y : Tableau Exact} {k l : Course Exact}
    (h : k.Agrees (fun s t => t = s.mirrored) l) :
    reportOf options indices y.mirrored l =
      { reportOf options indices y k with values := (y.values k.store).map (-·) } := by
  simp only [reportOf, roundedColumns, h.status, h.pending, h.history, h.length_sweeps, h.store,
    Tableau.values_mirrored, Tableau.objectiveValue_mirrored, Tableau.isFeasible,
    Tableau.violated_mirrored]

theorem oriented_mirrored (options : Options Exact) (rows : List (Row Exact)) :
    oriented options (rows.map Row.mirrored) = (oriented options rows).map Row.mirrored := by
  rw [oriented, oriented]
  split
  next =>
    rw [List.map_map, List.map_map]
    apply List.map_congr_left
    intro r _
    exact r.toward_mirrored .le
  next => rfl

theorem orientedModel_mirrored (options : Options Exact) (m : Model Exact) :
    orientedModel options m.mirrored = (orientedModel options m).mirrored := by
  simp only [orientedModel, Model.mirrored, Option.map_map]
  congr 2
  funext rows
  exact oriented_mirrored options rows

theorem tableau_mirrored (options : Options Exact) (m : Model Exact) :
    tableau options m.mirrored = (tableau options m).mirrored := by
  have hrows : m.mirrored.rows.getD [] = (m.rows.getD []).map Row.mirrored := by
    rw [Model.mirrored]
    cases m.rows <;> rfl
  rw [tableau, hrows, oriented_mirrored]
  rfl

theorem obstacle?_mirrored (m : Model Exact) :
    obstacle? options indices m.mirrored = obstacle? options indices m := by
  simp only [obstacle?, Model.mirrored]
  cases m.rows with
  | none => rfl
  | some rows =>
      have hany : (rows.map Row.mirrored).any (·.relation.isAbove) =
          rows.any (·.relation.isAbove) := List.any_map
      simp only [Option.map_some, hany]

theorem getD_of_pick {α β : Type} {xs : List β} {j : Int} (hj : 0 ≤ j) {b : β}
    (h : pick xs j = (.ok b : Except (Fault α) β)) (d : β) : xs.getD j.toNat d = b := by
  rw [pick] at h
  split at h
  next x hx =>
    cases h
    obtain ⟨k, hk, hb⟩ := Option.bind_eq_some_iff.mp hx
    have hk' : k = j.toNat := by
      rw [resolve?] at hk
      grind
    rw [List.getD_eq_getElem?_getD, ← hk', hb]
    rfl
  next => cases h

theorem objectiveEntry_of_costAt {m : Model Exact} {j : Int} {a : Exact} (hj : 0 ≤ j)
    (h : m.costAt j = .ok a) : (tableau options m).objectiveEntry j.toNat = a := by
  rw [Model.costAt] at h
  rw [Tableau.objectiveEntry, show (tableau options m).objective = m.objective from rfl]
  cases ho : m.objective with
  | none =>
      rw [ho] at h
      exact Except.ok.inj h
  | some o =>
      rw [ho] at h
      exact getD_of_pick hj h 0

end Rounding

open Rounding

variable {options : Options Exact} {indices : Option (List Int)} {c c' : Scene Exact}
  {report : Report Exact}

/-- A run over a mirrored model reports what the run over the model does, with every value of the
opposite sign, and leaves the mirrored scene. -/
theorem run_mirrored (hs : c.store.Sound)
    (hcosts : ∀ j ∈ indices.getD [], ∃ q : ℚ, q ≠ 0 ∧ c.model.costAt j = .ok (.finite q))
    (h : (run options indices).run c = .ok report c') :
    ∃ c'', (run options indices).run c.mirrored =
        .ok { report with values := report.values.map (-·) } c'' ∧
      c''.store = c'.store.mirrored ∧ c''.model = c'.model.mirrored := by
  obtain ⟨hready, rfl, rfl⟩ := ready_of_run hs h
  obtain ⟨idx, columns, rows, rfl, -, -, hrange, -⟩ := obstacle?_eq_none hready
  have hentries : ∀ j ∈ listed (some idx),
      ∃ q : ℚ, q ≠ 0 ∧ (tableau options c.model).objectiveEntry j = .finite q := by
    intro j hj
    obtain ⟨i, hi, rfl⟩ := List.mem_map.mp hj
    obtain ⟨q, hq, hcost⟩ := hcosts i hi
    exact ⟨q, hq, objectiveEntry_of_costAt (hrange i hi).1 hcost⟩
  have hcourse := (Tableau.parallel_mirrored hentries options.stopOnStall).course
    options.maxSweeps.1 (List.Subset.refl _) ⟨hs, rfl⟩
  have hagrees : (passage options (some idx) c).Agrees (fun s t => t = s.mirrored)
      (passage options (some idx) c.mirrored) := by
    rw [passage, passage, Scene.model_mirrored, tableau_mirrored]
    exact ⟨hcourse.status, hcourse.pending, hcourse.history, hcourse.store.2⟩
  have hrun := run_of_ready (c := c.mirrored) hs.mirrored
    ((obstacle?_mirrored c.model).trans hready)
  rw [Scene.model_mirrored, tableau_mirrored, reportOf_mirrored hagrees] at hrun
  refine ⟨_, hrun, ?_, ?_⟩
  · simp only [outcome]
    rw [Scene.model_mirrored, tableau_mirrored]
    exact settled_mirrored hagrees
  · exact orientedModel_mirrored options c.model

def priced : Scene Exact where
  store := ⟨#[⟨.continuous, .finite (1 / 2), .finite 0, .finite 10⟩,
    ⟨.continuous, .finite (3 / 10), -infinity, infinity⟩]⟩
  model :=
    { columns := some [0, 1]
      rows := some [⟨[.finite 1, .finite 1], .le, .finite (3 / 2)⟩,
        ⟨[.finite (-1), .finite 2], .ge, .finite (-1)⟩]
      objective := some ⟨.min, [.finite 1, .finite (-2)]⟩ }

theorem priced_sound : priced.store.Sound := by
  apply Store.sound_of_cells
  intro v hv
  obtain rfl | rfl := List.mem_pair.mp (Array.mem_def.mp hv)
  · exact Variable.continuous_sound rfl rfl (by norm_num) (by norm_num)
  · exact Variable.continuous_sound rfl rfl (fun h => nomatch h) (fun h => nomatch h)

theorem run_mirrored_priced :
    ∃ report c' c'', (run .standard (some [0, 1])).run priced = .ok report c' ∧
      (run .standard (some [0, 1])).run priced.mirrored =
        .ok { report with values := report.values.map (-·) } c'' ∧
      c''.store = c'.store.mirrored ∧ c''.model = c'.model.mirrored := by
  have hrun : (run .standard (some [0, 1])).run priced = _ := run_of_ready priced_sound (by decide)
  have hcosts : ∀ j ∈ (some [0, 1] : Option (List Int)).getD [],
      ∃ q : ℚ, q ≠ 0 ∧ priced.model.costAt j = .ok (.finite q) := by
    intro j hj
    obtain rfl | rfl := List.mem_pair.mp hj
    · exact ⟨1, by norm_num, rfl⟩
    · exact ⟨-2, by norm_num, rfl⟩
  obtain ⟨c'', hmirrored⟩ := run_mirrored priced_sound hcosts hrun
  exact ⟨_, _, c'', hrun, hmirrored⟩

end MilpRounding
