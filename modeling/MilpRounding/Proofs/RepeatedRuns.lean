import MilpRounding.Proofs.Binary64.LawfulDouble
import MilpRounding.Proofs.MarkedColumns
import MilpRounding.Proofs.ReachableWorkspace

namespace MilpRounding

open Scalar LawfulScalar

variable {α : Type} [Scalar α]

def Options.limited (options : Options α) (cap : Positive) : Options α :=
  { options with maxSweeps := cap }

def together (a b : Positive) : Positive := ⟨a.1 + b.1, Nat.le_add_right_of_le a.2⟩

namespace Rounding

variable [LawfulScalar α] {options : Options α} {indices : Option (List Int)} {c c' : Scene α}
  {report : Report α}

/-- A run in a scene that an earlier run over the same rows left. -/
theorem run_from {m : Model α} {marks : List Nat} {s : Store α} (hs : c.store.Sound)
    (hready : obstacle? options indices m = none) (hm : c.model = orientedModel options m)
    (hmarks : c.store = markColumns (tableau options m) marks s) :
    let y := tableau options m
    let k := y.course options.stopOnStall options.maxSweeps.1 (listed indices) s
    ∃ c', (run options indices).run c = .ok (reportOf options indices y k) c' ∧
      c'.model = c.model ∧
      c'.store = markColumns y (markedColumns options indices k) (markColumns y marks k.store) := by
  intro y k
  have hy : tableau options c.model = y := by rw [hm, tableau_orientedModel]
  have hagrees : k.Agrees (fun t u => u = markColumns y marks t) (passage options indices c) := by
    rw [passage, hy, hmarks]
    exact course_markColumns y marks s _ _ _
  have hvalues : k.Agrees (fun t u => y.values t = y.values u) (passage options indices c) :=
    ⟨hagrees.status, hagrees.pending, hagrees.history, by
      rw [hagrees.store, values_markColumns]⟩
  have hrun := run_of_ready (c := c) hs (by rw [hm]; exact obstacle?_orientedModel hready)
  rw [hy, ← reportOf_congr hvalues] at hrun
  refine ⟨_, hrun, ?_, ?_⟩
  · simp only [outcome, hm, orientedModel_orientedModel]
  · simp only [outcome, hy, settled_eq_markColumns, hagrees.store,
      markedColumns_congr hagrees.pending]

theorem passage_again (hs : c.store.Sound)
    (h : (passage options indices c).status ≠ .sweepLimit) :
    let k := passage options indices c
    ∃ w : Sweep α, w.moves = 0 ∧
      (tableau options c.model).course options.stopOnStall options.maxSweeps.1 (listed indices)
        k.store = ⟨k.status, k.store, k.pending, [w]⟩ :=
  Tableau.course_again hs h options.maxSweeps.2

/-- A run that was not cut off leaves nothing to do for another one. -/
theorem run_again (hs : c.store.Sound) (h : (run options indices).run c = .ok report c')
    (hstatus : report.status ≠ .sweepLimit) :
    ∃ c'', (run options indices).run c' =
        .ok { report with sweeps := 1, moves := 0, history := [0] } c'' ∧
      c''.store = c'.store ∧ c''.model = c'.model := by
  have hsound := run_sound hs h
  obtain ⟨hready, rfl, rfl⟩ := ready_of_run hs h
  obtain ⟨w, hmoves, hrest⟩ := passage_again hs hstatus
  obtain ⟨c'', hrun, hmodel, hstore⟩ := run_from (c := outcome options indices c) hsound hready rfl
    (settled_eq_markColumns _ (passage options indices c))
  rw [hrest] at hrun hstore
  refine ⟨c'', hrun.trans ?_, hstore.trans ?_, hmodel⟩
  · simp [reportOf, hmoves, roundedColumns]
  · rw [markedColumns_congr (k := ⟨_, _, _, [w]⟩) (l := passage options indices c) rfl,
      markColumns_markColumns _ _ _ _ (List.Subset.refl _)]
    exact (settled_eq_markColumns _ _).symm

section Capped

variable {a b : Positive}

/-- More room changes nothing for a run that was not cut off. -/
theorem run_with_room (hs : c.store.Sound)
    (h : (run (options.limited a) indices).run c = .ok report c')
    (hstatus : report.status ≠ .sweepLimit) :
    (run (options.limited (together a b)) indices).run c = .ok report c' := by
  obtain ⟨hready, rfl, rfl⟩ := ready_of_run hs h
  have hk : passage (options.limited (together a b)) indices c =
      passage (options.limited a) indices c := Tableau.course_add_of_stop b.1 hstatus
  have hrun : (run (options.limited (together a b)) indices).run c = _ := run_of_ready hs hready
  rw [outcome, runEvents, hk] at hrun
  exact hrun

theorem passage_resumed (hs : c.store.Sound)
    (h : (passage (options.limited a) indices c).status = .sweepLimit) :
    let k := passage (options.limited a) indices c
    let l := (tableau options c.model).course options.stopOnStall b.1 (listed indices) k.store
    (passage (options.limited (together a b)) indices c).Agrees (· = ·) (l.after k.sweeps) ∧
      l.pending ⊆ k.pending := by
  intro k l
  have hagrees := Tableau.course_resumed hs b.2 h
  refine ⟨hagrees, ?_⟩
  rw [Tableau.course_add_of_limit b.1 h] at hagrees
  have hpending : _ = l.pending := hagrees.pending
  rw [← hpending]
  exact Tableau.course_pending_subset _ _ _ _ _

theorem run_resumed (hs : c.store.Sound)
    (h : (run (options.limited a) indices).run c = .ok report c')
    (hstatus : report.status = .sweepLimit) :
    ∃ later c₂ c₃, (run (options.limited b) indices).run c' = .ok later c₂ ∧
      (run (options.limited (together a b)) indices).run c = .ok
        { later with
          sweeps := report.sweeps + later.sweeps
          moves := report.moves + later.moves
          history := report.history ++ later.history } c₃ ∧
      c₃.store = c₂.store ∧ c₃.model = c₂.model := by
  have hsound := run_sound hs h
  obtain ⟨hready, rfl, rfl⟩ := ready_of_run hs h
  obtain ⟨hagrees, hpending⟩ := passage_resumed (b := b) hs hstatus
  obtain ⟨c₂, hrun, hmodel, hstore⟩ := @run_from _ _ _ (options.limited b) indices
    (outcome (options.limited a) indices c) _ _ _ hsound hready rfl
    (settled_eq_markColumns _ (passage (options.limited a) indices c))
  have hlong : (run (options.limited (together a b)) indices).run c = _ := run_of_ready hs hready
  rw [reportOf_congr ⟨hagrees.status, hagrees.pending, hagrees.history, by rw [hagrees.store]⟩,
    reportOf_after] at hlong
  refine ⟨_, c₂, _, hrun, hlong, ?_, hmodel.symm⟩
  have hmarks : markedColumns (options.limited a) indices
      (passage (options.limited a) indices c) ⊆ markedColumns (options.limited b) indices _ :=
    markedColumns_subset hpending
  refine Eq.trans ?_ (hstore.trans (markColumns_markColumns _ _ _ _ hmarks)).symm
  simp only [outcome, settled_eq_markColumns, hagrees.store, markedColumns_congr hagrees.pending]
  rfl

end Capped

end Rounding

namespace Workspace

def limited (w : Workspace α) (e : Nat) (cap : Positive) : Workspace α :=
  { w with engines := w.engines.modify e fun g => { g with options := g.options.limited cap } }

variable {w : Workspace α} {e : Nat} {g : Engine α}

theorem getElem?_limited (hg : w.engines[e]? = some g) (cap : Positive) :
    (w.limited e cap).engines[e]? = some { g with options := g.options.limited cap } := by
  simp only [limited, Array.getElem?_modify, if_pos, hg]
  rfl

theorem limited_limited (w : Workspace α) (e : Nat) (a b : Positive) :
    (w.limited e a).limited e b = w.limited e b := by
  have hengines : ((w.engines.modify e fun g => { g with options := g.options.limited a }).modify e
      fun g => { g with options := g.options.limited b }) =
      w.engines.modify e fun g => { g with options := g.options.limited b } := by
    apply Array.ext_getElem?
    intro i
    simp only [Array.getElem?_modify]
    split
    next =>
      cases w.engines[i]? <;> rfl
    next => rfl
  simp only [limited, hengines]

theorem Sound.limited (hw : w.Sound) (e : Nat) (cap : Positive) : (w.limited e cap).Sound := by
  refine ⟨hw.store, fun i g hg => ?_⟩
  simp only [Workspace.limited, Array.getElem?_modify] at hg
  split at hg
  next =>
    obtain ⟨g', hg', rfl⟩ := Option.map_eq_some_iff.mp hg
    exact hw.ready i g' hg'
  next => exact hw.ready i g hg

theorem limited_hear (w : Workspace α) (e : Nat) (cap : Positive) (r : Report α) :
    (w.limited e cap).hear e r = (w.hear e r).limited e cap := by
  have hlistener : (w.limited e cap).engines[e]?.bind (·.listener) =
      w.engines[e]?.bind (·.listener) := by
    simp only [limited, Array.getElem?_modify, if_pos]
    cases w.engines[e]? <;> rfl
  rw [hear, hear, hlistener]
  split <;> rfl

theorem hear_eq (w : Workspace α) (e : Nat) (r : Report α) :
    ∃ heard, w.hear e r = { w with heard := heard } := by
  rw [hear]
  split
  next => exact ⟨_, rfl⟩
  next => exact ⟨w.heard, rfl⟩

theorem store_hear (w : Workspace α) (e : Nat) (r : Report α) : (w.hear e r).store = w.store := by
  obtain ⟨heard, hheard⟩ := w.hear_eq e r
  rw [hheard]

theorem models_hear (w : Workspace α) (e : Nat) (r : Report α) :
    (w.hear e r).models = w.models := by
  obtain ⟨heard, hheard⟩ := w.hear_eq e r
  rw [hheard]

theorem modelAt_withScene {k : Nat} (hk : k < w.models.size) (c : Scene α) :
    (w.withScene k c).modelAt k = c.model := by
  simp [modelAt, withScene, hk]

theorem lt_size_of_columns {k : Nat} {columns : List Ref}
    (h : (w.modelAt k).columns = some columns) : k < w.models.size := by
  by_contra hk
  rw [modelAt] at h
  simp [hk] at h

end Workspace

namespace Session

open Workspace

variable [LawfulScalar α] {w t : Workspace α} {e : Nat} {r : Report α}

omit [LawfulScalar α] in
theorem launch_of_run {g : Engine α} {c : Scene α} (hw : w.Sound) (hg : w.engines[e]? = some g)
    (h : (Rounding.run g.options g.indices).run (w.scene g.model) = .ok r c) :
    (launch e).run w = .ok r ((w.withScene g.model c).hear e r) := by
  rw [launch_run hg (hw.ready e g hg), h]

/-- A launch that reported is a run of the engine in the scene of its model. -/
theorem run_of_launch (hw : w.Sound) (h : (launch e).run w = .ok r t) :
    ∃ g c, w.engines[e]? = some g ∧
      (Rounding.run g.options g.indices).run (w.scene g.model) = .ok r c ∧
      t = (w.withScene g.model c).hear e r ∧ t.scene g.model = c := by
  cases hg : w.engines[e]? with
  | none =>
      have hfail : (launch e).run w = .error (.unknownName "engine") w :=
        run_bind_of_error (engineAt_run_of_none hg)
      rw [hfail] at h
      cases h
  | some g =>
      rw [launch_run hg (hw.ready e g hg)] at h
      cases hr : (Rounding.run g.options g.indices).run (w.scene g.model) with
      | error f c =>
          rw [hr] at h
          cases h
      | ok r' c =>
          rw [hr] at h
          cases h
          refine ⟨g, c, rfl, hr, rfl, ?_⟩
          obtain ⟨hready, -, -⟩ := Rounding.ready_of_run hw.store hr
          obtain ⟨-, columns, -, -, hc, -⟩ := Rounding.obstacle?_eq_none hready
          have hk : g.model < w.models.size := lt_size_of_columns hc
          obtain ⟨heard, hheard⟩ := hear_eq (w.withScene g.model c) e r
          have hmodel := modelAt_withScene hk c
          rw [hheard]
          simp only [scene, withScene, modelAt] at hmodel ⊢
          rw [hmodel]

omit [LawfulScalar α] in
theorem launch_sound (hw : w.Sound) (h : (launch e).run w = .ok r t) : t.Sound := by
  have hrevised := launch_keepsColumns e w w hw.ready.revised
  rw [leaves_of_ok h] at hrevised
  exact ⟨hrevised.store.sound hw.store, hrevised.ready⟩

def status? (x : Session α (Report α)) (w : Workspace α) : Option Status :=
  match x.run w with
  | .ok r _ => some r.status
  | .error _ _ => none

omit [LawfulScalar α] in
theorem run_of_status? {x : Session α (Report α)} {status : Status}
    (h : x.status? w = some status) : ∃ r t, x.run w = .ok r t ∧ r.status = status := by
  rw [status?] at h
  cases hx : x.run w with
  | error f t =>
      rw [hx] at h
      cases h
  | ok r t =>
      rw [hx] at h
      exact ⟨r, t, rfl, Option.some.inj h⟩

end Session

open Session

variable [LawfulScalar α] {w t : Workspace α} {e : Nat} {r : Report α} {a b : Positive}

/-- The launch of an engine whose last run was not cut off makes one sweep, moves nothing and reports
what that run reported. -/
theorem launch_again (hw : w.Reachable) (h : (launch e).run w = .ok r t)
    (hstatus : r.status ≠ .sweepLimit) :
    ∃ t', (launch e).run t = .ok { r with sweeps := 1, moves := 0, history := [0] } t' ∧
      t'.store = t.store ∧ t'.models = t.models := by
  obtain ⟨g, c, hg, hrun, ht, hscene⟩ := run_of_launch hw.sound h
  have hengine : t.engines[e]? = some g := by
    obtain ⟨heard, hheard⟩ := Workspace.hear_eq (w.withScene g.model c) e r
    rw [ht, hheard]
    exact hg
  obtain ⟨c', hagain, hstore, hmodel⟩ := Rounding.run_again hw.sound.store hrun hstatus
  rw [← hscene] at hagain hstore hmodel
  refine ⟨_, launch_of_run (launch_sound hw.sound h) hengine hagain, ?_, ?_⟩
  · rw [Workspace.store_hear]
    exact hstore
  · have hsame := congrArg Workspace.models (t.withScene_scene g.model)
    rw [Workspace.models_hear]
    simp only [Workspace.withScene, hmodel] at hsame ⊢
    exact hsame

def twoColumns : List (Command Float) :=
  [.makeVariable "x" "continuous" 0.5 0 10, .makeVariable "y" "continuous" 0.5 0 10,
    .setColumns 0 ["x", "y"], .setRows 0 [[1, 0]] [1] ["<="], .newEngine 0 {}, .setIndices 0 [0, 1]]

theorem launch_again_twoColumns :
    ∃ r t t', (launch 0).run (Workspace.after twoColumns) = .ok r t ∧ r.status = .converged ∧
      (launch 0).run t = .ok { r with sweeps := 1, moves := 0, history := [0] } t' ∧
      t'.store = t.store ∧ t'.models = t.models := by
  have hconverged : (launch 0).status? (Workspace.after twoColumns) = some .converged := by
    decide +kernel
  obtain ⟨r, t, hrun, hr⟩ := run_of_status? hconverged
  obtain ⟨t', hagain⟩ := launch_again (Workspace.reachable_after twoColumns) hrun (by simp [hr])
  exact ⟨r, t, t', hrun, hr, hagain⟩

theorem launch_limited (hw : w.Reachable) (h : (launch e).run (w.limited e a) = .ok r t) :
    ∃ g c, w.engines[e]? = some g ∧
      (Rounding.run (g.options.limited a) g.indices).run (w.scene g.model) = .ok r c ∧
      t = ((w.withScene g.model c).hear e r).limited e a ∧ t.scene g.model = c := by
  obtain ⟨g', c, hg', hrun, ht, hscene⟩ := run_of_launch (hw.sound.limited e a) h
  simp only [Workspace.limited, Array.getElem?_modify, if_pos] at hg'
  obtain ⟨g, hg, rfl⟩ := Option.map_eq_some_iff.mp hg'
  refine ⟨g, c, hg, hrun, ?_, hscene⟩
  rw [← Workspace.limited_hear]
  exact ht

/-- A launch that is cut off is gone on with by the next one, and the two do together what one launch
does that has room for both; the launch of an engine that is not cut off does not depend on the
room. -/
theorem launch_resumed (hw : w.Reachable) (h : (launch e).run (w.limited e a) = .ok r t) :
    (r.status ≠ .sweepLimit →
      (launch e).run (w.limited e (together a b)) = .ok r (t.limited e (together a b))) ∧
    (r.status = .sweepLimit → ∃ later t₂ t₃,
      (launch e).run (t.limited e b) = .ok later t₂ ∧
      (launch e).run (w.limited e (together a b)) = .ok
        { later with
          sweeps := r.sweeps + later.sweeps
          moves := r.moves + later.moves
          history := r.history ++ later.history } t₃ ∧
      t₃.store = t₂.store ∧ t₃.models = t₂.models) := by
  obtain ⟨g, c, hg, hrun, ht, hscene⟩ := launch_limited hw h
  have hlong := Workspace.getElem?_limited hg (together a b)
  have hsound := hw.sound.limited e (together a b)
  constructor
  · intro hstatus
    have hroom := Rounding.run_with_room (b := b) hw.sound.store hrun hstatus
    rw [launch_of_run hsound hlong hroom, ht, Workspace.limited_limited, ← Workspace.limited_hear]
    rfl
  · intro hstatus
    obtain ⟨later, c₂, c₃, hlater, htogether, hstore, hmodel⟩ :=
      Rounding.run_resumed (b := b) hw.sound.store hrun hstatus
    have hcapped : (t.limited e b).engines[e]? =
        some { g with options := g.options.limited b } := by
      -- a listener may have heard the first report; the engine is the same nevertheless
      obtain ⟨heard, hheard⟩ := Workspace.hear_eq (w.withScene g.model c) e r
      rw [ht, Workspace.limited_limited, hheard]
      exact Workspace.getElem?_limited hg b
    rw [← hscene] at hlater
    have hnext := launch_of_run ((launch_sound (hw.sound.limited e a) h).limited e b) hcapped hlater
    refine ⟨later, _, _, hnext, launch_of_run hsound hlong htogether, ?_, ?_⟩
    · rw [Workspace.store_hear, Workspace.store_hear]
      exact hstore
    · have hmodels : t.models = w.models.setIfInBounds g.model c.model := by
        rw [ht]
        exact Workspace.models_hear _ e r
      rw [Workspace.models_hear, Workspace.models_hear]
      simp only [Workspace.withScene, Workspace.limited, hmodels, hmodel,
        Array.setIfInBounds_setIfInBounds]

theorem launch_resumed_twoColumns :
    let one : Positive := ⟨1, le_rfl⟩
    let w := Workspace.after twoColumns
    ∃ r t later t₂ t₃, (launch 0).run (w.limited 0 one) = .ok r t ∧ r.status = .sweepLimit ∧
      (launch 0).run (t.limited 0 one) = .ok later t₂ ∧
      (launch 0).run (w.limited 0 (together one one)) = .ok
        { later with
          sweeps := r.sweeps + later.sweeps
          moves := r.moves + later.moves
          history := r.history ++ later.history } t₃ ∧
      t₃.store = t₂.store ∧ t₃.models = t₂.models := by
  intro one w
  have hlimit : (launch 0).status? (w.limited 0 one) = some .sweepLimit := by decide +kernel
  obtain ⟨r, t, hrun, hr⟩ := run_of_status? hlimit
  obtain ⟨later, t₂, t₃, hlater⟩ :=
    (launch_resumed (b := one) (Workspace.reachable_after twoColumns) hrun).2 hr
  exact ⟨r, t, later, t₂, t₃, hrun, hr, hlater⟩

end MilpRounding
