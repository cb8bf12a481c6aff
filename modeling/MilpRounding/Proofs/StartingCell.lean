import MilpRounding.Proofs.RepeatedRuns
import MilpRounding.Proofs.Trail

namespace MilpRounding

open Scalar LawfulScalar Rounding

variable {α : Type} [Scalar α]

/-- The second state of a variable is between the integers next to the first one, and within the same
bounds, as far as these are numbers. -/
structure Variable.InCell (v x : Variable α) : Prop where
  bounds : x.low = v.low ∧ x.high = v.high
  floor_le : underneath v.value ≤ x.value
  le_ceil : x.value ≤ above v.value
  low_le : isNaN v.low = false → v.low ≤ x.value
  le_high : isNaN v.high = false → x.value ≤ v.high

variable [LawfulScalar α]

def Store.Within (s t : Store α) : Prop :=
  ∀ r q, denote (s.value r) = .finite q →
    ∃ p, denote (t.value r) = .finite p ∧ ⌊q⌋ ≤ p ∧ p ≤ ⌈q⌉

namespace Store

variable {s t u : Store α}

theorem within_of_value_eq (h : ∀ r, t.value r = s.value r) : s.Within t := by
  intro r q hq
  exact ⟨q, by rw [h, hq], Int.floor_le q, Int.le_ceil q⟩

theorem Within.trans (h : s.Within t) (k : t.Within u) : s.Within u := by
  intro r q hq
  obtain ⟨p, hp, hfloor, hceil⟩ := h r q hq
  obtain ⟨o, ho, hlow, hhigh⟩ := k r p hp
  have hdown : ⌊q⌋ ≤ ⌊p⌋ := Int.le_floor.mpr hfloor
  have hup : ⌈p⌉ ≤ ⌈q⌉ := Int.ceil_le.mpr hceil
  exact ⟨o, ho, le_trans (by exact_mod_cast hdown) hlow, le_trans hhigh (by exact_mod_cast hup)⟩

theorem within_next (y : Tableau α) (j : Nat) (hs : s.Sound) : s.Within (y.next s j).1 := by
  intro r q hq
  rcases y.value_next j r with hsame | ⟨t, hc, rfl, ht⟩
  · exact ⟨q, by rw [hsame, hq], Int.floor_le q, Int.le_ceil q⟩
  · rw [ht]
    exact Tableau.choice_between hs hc hq

theorem Within.inCell (h : s.Within t) (hs : s.Sound) (hst : s.Revised t) (r : Ref) :
    (s.read r).InCell (t.read r) := by
  obtain ⟨q, hq⟩ := (hs r).finite
  obtain ⟨p, hp, hfloor, hceil⟩ := h r q hq
  have hbounds := hst.bounds r
  have ht : (t.read r).Sound := hst.sound hs r
  refine ⟨hbounds, ?_, ?_, ?_, ?_⟩
  · have hx : denote (t.read r).value = .finite p := hp
    rw [le_iff_denote, denote_underneath hq, hx]
    exact (Exact.finite_le_finite _ _).mpr hfloor
  · have hx : denote (t.read r).value = .finite p := hp
    rw [le_iff_denote, denote_above hq, hx]
    exact (Exact.finite_le_finite _ _).mpr hceil
  · rw [← hbounds.1]
    exact ht.low_le
  · rw [← hbounds.2]
    exact ht.le_high

end Store

theorem Trail.within {P : Tableau α → Prop} {s t : Store α} {ds : List (Decision α)}
    (h : Trail P s ds t) (hs : s.Sound) : s.Within t :=
  h.relates (fun _ => Store.within_of_value_eq) Store.Within.trans
    (fun y _ j => Store.within_next y j) hs

omit [LawfulScalar α] in
theorem Rounding.obstacle?_ne_brokenStep {options : Options α} {indices : Option (List Int)}
    {m : Model α} {j : Int} {t : α} : obstacle? options indices m ≠ some (.brokenStep j t) :=
  fun h => category_obstacle? h rfl

/-- A run fails before it has changed anything, and never because a variable refuses a value. In every
other run all decided values are taken, and at every moment all variables are in the cells of their
starting values and within their bounds. -/
theorem run_stays_in_cell {w : Workspace α} (hw : w.Reachable) (k : Nat) (options : Options α)
    (indices : Option (List Int)) :
    let c := w.scene k
    let y := tableau options c.model
    let ds := (passage options indices c).sweeps.flatMap (·.decisions)
    (∀ fault c', (run options indices).run c = .error fault c' →
      c' = c ∧ ∀ j t, fault ≠ .brokenStep j t) ∧
    (∀ report c', (run options indices).run c = .ok report c' →
      report.history = (passage options indices c).sweeps.map Sweep.moves ∧
      Trail (· = y) c.store ds c'.store ∧
      (∀ d ∈ ds, ∀ t, y.decision d.before d.column = .ok (some t) →
        ∃ v, (y.variableAt d.before d.column).withValue t = .ok v ∧
          d.after = d.before.write (y.ref d.column) v) ∧
      (∀ d ∈ ds, Passes (· = y) c.store ds c'.store d.before ∧
        Passes (· = y) c.store ds c'.store d.after) ∧
      (∀ s, Passes (· = y) c.store ds c'.store s → ∀ r, (c.store.read r).InCell (s.read r))) := by
  intro c y ds
  have hs : c.store.Sound := hw.scene_sound k
  constructor
  · intro fault c' h
    cases ho : obstacle? options indices c.model with
    | none =>
        rw [run_of_ready hs ho] at h
        cases h
    | some f =>
        rw [run_of_obstacle ho] at h
        cases h
        refine ⟨rfl, ?_⟩
        rintro j t rfl
        exact obstacle?_ne_brokenStep ho
  · intro report c' h
    obtain ⟨-, rfl, rfl⟩ := ready_of_run hs h
    have htrail : Trail (· = y) c.store ds (outcome options indices c).store :=
      (outcome_journey options indices hs).trail
    refine ⟨rfl, htrail, ?_, fun d hd => htrail.passes_of_mem hd, ?_⟩
    · intro d hd t ht
      obtain ⟨hsound, _, rfl, hnext⟩ := htrail.next_of_mem hs hd
      rw [Tableau.decision_eq hsound, Except.ok.injEq] at ht
      refine ⟨_, Tableau.withValue_of_choice hsound ht, ?_⟩
      rw [Tableau.next, ht, Prod.mk.injEq] at hnext
      exact hnext.1.symm
    -- what leads to a store on the way is a trail as well
    · rintro s ⟨es, fs, -, h, -⟩ r
      exact (h.within hs).inCell hs h.revised r

theorem run_stays_in_cell_twoColumns :
    let c := (Workspace.after twoColumns).scene 0
    ∃ report c', (run .standard (some [0, 1])).run c = .ok report c' ∧
      ∀ r, (c.store.read r).InCell (c'.store.read r) := by
  intro c
  have hw := Workspace.reachable_after twoColumns
  have hs : c.store.Sound := hw.scene_sound 0
  have hready : (obstacle? .standard (some [0, 1]) c.model).isNone = true := by decide +kernel
  have hrun := run_of_ready hs (Option.isNone_iff_eq_none.mp hready)
  obtain ⟨-, hreports⟩ := run_stays_in_cell hw 0 .standard (some [0, 1])
  obtain ⟨-, htrail, -, -, hcell⟩ := hreports _ _ hrun
  exact ⟨_, _, hrun, hcell _ ⟨_, [], (List.append_nil _).symm, htrail, .rest _⟩⟩

end MilpRounding
