import MilpRounding.Proofs.RepeatedRuns

namespace MilpRounding

open Scalar LawfulScalar Rounding

variable {α : Type} [Scalar α]

/-- The model with some of its inequalities written the other way; equations stay as they are. -/
def Model.restated (m : Model α) (which : Nat → Bool) : Model α :=
  { m with rows := m.rows.map (List.mapIdx fun i r => if which i then r.turned else r) }

def Options.normalizing (options : Options α) (on : Bool) : Options α :=
  { options with normalize := on }

/-- Both runs fail with the same fault and leave the variables alone, or both report the same and leave
the same variables and the same model. -/
def EndAlike : EStateM.Result (Fault α) (Scene α) (Report α) →
    EStateM.Result (Fault α) (Scene α) (Report α) → Prop
  | .ok r c, .ok r' c' => r' = r ∧ c'.store = c.store ∧ c'.model = c.model
  | .error f c, .error f' c' => f' = f ∧ c'.store = c.store
  | _, _ => False

omit [Scalar α] in
theorem EndAlike.trans {x y z : EStateM.Result (Fault α) (Scene α) (Report α)} (h : EndAlike x y)
    (k : EndAlike y z) : EndAlike x z := by
  cases x with
  | ok r c =>
      cases y with
      | error => exact h.elim
      | ok r' c' =>
          cases z with
          | error => exact k.elim
          | ok r'' c'' =>
              obtain ⟨hr, hs, hm⟩ := h
              obtain ⟨kr, ks, km⟩ := k
              exact ⟨kr.trans hr, ks.trans hs, km.trans hm⟩
  | error f c =>
      cases y with
      | ok => exact h.elim
      | error f' c' =>
          cases z with
          | ok => exact k.elim
          | error f'' c'' =>
              obtain ⟨hf, hs⟩ := h
              obtain ⟨kf, ks⟩ := k
              exact ⟨kf.trans hf, ks.trans hs⟩

namespace Rounding

variable {options : Options α} {indices : Option (List Int)}

def orientedRun (options : Options α) (indices : Option (List Int)) : Action α (Report α) := do
  let _ ← Action.orient .le
  run (options.normalizing false) indices

theorem tableau_eq_of_orientedModel (options : Options α) (m : Model α) :
    tableau options m = ⟨(orientedModel options m).columns.getD [],
      (orientedModel options m).rows.getD [], (orientedModel options m).objective⟩ := by
  cases hr : m.rows with
  | some rows => simp [tableau, orientedModel, hr]
  | none => simp [tableau, orientedModel, hr, oriented]

/-- The same obstacles and the same turned model let runs end alike. -/
theorem run_alike [LawfulScalar α] {on : Bool} {c d : Scene α} (hs : c.store.Sound)
    (hstore : d.store = c.store)
    (hobstacle : obstacle? (options.normalizing on) indices d.model =
      obstacle? options indices c.model)
    (hmodel : orientedModel (options.normalizing on) d.model = orientedModel options c.model) :
    EndAlike ((run options indices).run c) ((run (options.normalizing on) indices).run d) := by
  cases ho : obstacle? options indices c.model with
  | some f =>
      rw [run_of_obstacle ho, run_of_obstacle (hobstacle.trans ho)]
      exact ⟨rfl, hstore⟩
  | none =>
      have htableau : tableau (options.normalizing on) d.model = tableau options c.model := by
        rw [tableau_eq_of_orientedModel, tableau_eq_of_orientedModel, hmodel]
      have hpassage : passage (options.normalizing on) indices d = passage options indices c := by
        rw [passage, passage, htableau, hstore]
        rfl
      rw [run_of_ready hs ho, run_of_ready (hstore ▸ hs) (hobstacle.trans ho), htableau, hpassage]
      refine ⟨rfl, ?_, hmodel⟩
      simp only [outcome, htableau, hpassage]
      rfl

section Normalizing

variable {m : Model α} (hn : options.normalize = true)

include hn

theorem obstacle?_restated (which : Nat → Bool) :
    obstacle? options indices (m.restated which) = obstacle? options indices m := by
  simp only [obstacle?, Model.restated, hn]
  cases m.rows <;> rfl

theorem orientedModel_restated [InvolutiveScalar α] (which : Nat → Bool) :
    orientedModel options (m.restated which) = orientedModel options m := by
  have hrows (rows : List (Row α)) :
      (rows.mapIdx fun i r => if which i then r.turned else r).map (Row.toward .le) =
        rows.map (Row.toward .le) := by
    refine List.ext_getElem (by simp) fun i hi hi' => ?_
    simp only [List.getElem_map, List.getElem_mapIdx]
    split
    · exact Row.toward_turned _ .le
    · rfl
  simp only [orientedModel, Model.restated, Option.map_map]
  cases m.rows with
  | none => rfl
  | some rows => simp only [Option.map_some, Function.comp_apply, oriented, hn, if_true, hrows]

theorem obstacle?_orientedModel_normalizing {rows : List (Row α)} (hr : m.rows = some rows) :
    obstacle? (options.normalizing false) indices (orientedModel options m) =
      obstacle? options indices m := by
  have hany : (oriented options rows).any (·.relation.isAbove) = false := by
    rw [oriented, if_pos hn, List.any_map, List.any_eq_false]
    intro r _ hr
    rw [Function.comp_apply, r.isAbove_toward_le] at hr
    exact absurd hr Bool.false_ne_true
  simp only [obstacle?, orientedModel, hr, Option.map_some, hany, hn]
  rfl

end Normalizing

variable [LawfulScalar α] {c : Scene α}

theorem restated_alike [InvolutiveScalar α] (hs : c.store.Sound) (hn : options.normalize = true)
    (which : Nat → Bool) :
    EndAlike ((run options indices).run c)
      ((run options indices).run { c with model := c.model.restated which }) := by
  have h : EndAlike ((run options indices).run c)
      ((run (options.normalizing options.normalize) indices).run
        { c with model := c.model.restated which }) :=
    run_alike hs rfl (obstacle?_restated hn which) (orientedModel_restated hn which)
  exact h

/-- Whether the run turns the rows or they were turned beforehand makes no difference. -/
theorem orientedRun_alike (hs : c.store.Sound) (hn : options.normalize = true)
    (hr : c.model.rows.isSome = true) :
    EndAlike ((run options indices).run c) ((orientedRun options indices).run c) := by
  obtain ⟨rows, hr⟩ := Option.isSome_iff_exists.mp hr
  have hmodel (m : Model α) : orientedModel (options.normalizing false) m = m := by
    have hid : oriented (options.normalizing false) = @id (List (Row α)) := rfl
    rw [orientedModel, hid, Option.map_id]
    rfl
  rw [orientedRun, run_bind_of_ok (orient_run hn hr)]
  exact run_alike hs rfl (obstacle?_orientedModel_normalizing hn hr) (hmodel _)

end Rounding

open Rounding

/-- The inequalities of a model may be written either way, and turned by the run or beforehand. -/
theorem run_restated [LawfulScalar α] [InvolutiveScalar α] {options : Options α} {c : Scene α}
    (hs : c.store.Sound) (hn : options.normalize = true) (hr : c.model.rows.isSome = true)
    (indices : Option (List Int)) (which : Nat → Bool) :
    let d := { c with model := c.model.restated which }
    EndAlike ((run options indices).run c) ((run options indices).run d) ∧
    EndAlike ((run options indices).run c) ((orientedRun options indices).run c) ∧
    EndAlike ((run options indices).run c) ((orientedRun options indices).run d) := by
  intro d
  have hd : d.model.rows.isSome = true := by
    rw [← hr]
    exact Option.isSome_map
  have hrestated : EndAlike ((run options indices).run c) ((run options indices).run d) :=
    restated_alike hs hn which
  exact ⟨hrestated, orientedRun_alike hs hn hr, hrestated.trans (orientedRun_alike hs hn hd)⟩

theorem run_restated_twoColumns :
    let c := (Workspace.after twoColumns).scene 0
    let d := { c with model := c.model.restated fun _ => true }
    c.model.rows = some [⟨[1, 0], .le, 1⟩] ∧ d.model.rows = some [⟨[-1, -0], .ge, -1⟩] ∧
    ∃ report c', (run .standard (some [0, 1])).run c = .ok report c' ∧
      EndAlike (.ok report c') ((run .standard (some [0, 1])).run d) ∧
      EndAlike (.ok report c') ((orientedRun .standard (some [0, 1])).run c) ∧
      EndAlike (.ok report c') ((orientedRun .standard (some [0, 1])).run d) := by
  intro c d
  have hs : c.store.Sound := (Workspace.reachable_after twoColumns).scene_sound 0
  have hready : (obstacle? .standard (some [0, 1]) c.model).isNone = true := by decide +kernel
  have hrows : c.model.rows = some [⟨[1, 0], .le, 1⟩] := by decide +kernel
  have hsome : c.model.rows.isSome = true := by
    rw [hrows]
    rfl
  have hrun := run_of_ready hs (Option.isNone_iff_eq_none.mp hready)
  have hn : (Options.standard : Options Float).normalize = true := rfl
  have halike := run_restated hs hn hsome (some [0, 1]) fun _ => true
  rw [hrun] at halike
  exact ⟨hrows, by decide +kernel, _, _, hrun, halike⟩

end MilpRounding
