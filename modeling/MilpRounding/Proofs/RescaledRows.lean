import MilpRounding.Proofs.AlikeTableaux
import MilpRounding.Proofs.MirroredRun
import MilpRounding.Proofs.NegatedForms
import MilpRounding.Proofs.StatusMeaning

namespace MilpRounding

open Scalar LawfulScalar Rounding

theorem form_scaled (f : ℚ) (a x : List ℚ) : form (a.map (· * f)) x = form a x * f := by
  induction a generalizing x with
  | nil => simp
  | cons p a ih =>
      cases x with
      | nil => simp [form]
      | cons q x =>
          simp [ih]
          ring

theorem leastOrZero_perm {p q : List ℚ} (h : p.Perm q) :
    Tableau.leastOrZero (p.map Exact.finite) = Tableau.leastOrZero (q.map Exact.finite) := by
  obtain ⟨m, hm, hle, hmem⟩ := leastOrZero_finite p
  obtain ⟨n, hn, hle', hmem'⟩ := leastOrZero_finite q
  rw [hm, hn]
  congr 1
  rcases hmem with hmem | ⟨rfl, rfl⟩
  · rcases hmem' with hmem' | ⟨rfl, -⟩
    · exact le_antisymm (hle n (h.mem_iff.mpr hmem')) (hle' m (h.mem_iff.mp hmem))
    · exact absurd (h.mem_iff.mp hmem) List.not_mem_nil
  · rw [List.nil_perm.mp h] at hmem'
    exact (hmem'.resolve_left List.not_mem_nil).2.symm

theorem map_mapIdx_eq {α β : Type} {f : Nat → α → α} {g : α → β} {l : List α}
    (h : ∀ i, ∀ a ∈ l, g (f i a) = g a) : (l.mapIdx f).map g = l.map g := by
  refine List.ext_getElem (by simp) fun i hi _ => ?_
  simp only [List.getElem_map, List.getElem_mapIdx]
  exact h i _ (List.getElem_mem _)

namespace Row

variable {r : Row Exact} {f : ℚ}

def scaled (f : ℚ) (r : Row Exact) : Row Exact :=
  { r with coefficients := r.coefficients.map (· * .finite f), rhs := r.rhs * .finite f }

theorem Rational.scaled (h : r.Rational) (f : ℚ) : (r.scaled f).Rational := by
  constructor
  · intro a ha
    obtain ⟨b, hb, rfl⟩ := List.mem_map.mp ha
    rw [Exact.eq_finite (h.coefficients b hb)]
    rfl
  · change isFinite (r.rhs * .finite f) = true
    rw [Exact.eq_finite h.rhs]
    rfl

theorem toward_scaled (f : ℚ) (r : Row Exact) (target : Relation) :
    (r.scaled f).toward target = (r.toward target).scaled f := by
  rw [toward, toward, show (r.scaled f).relation = r.relation from rfl]
  split
  next => simp [negated, scaled, Function.comp_def, Exact.neg_mul]
  next => rfl

theorem weights_scaled (h : r.Rational) (f : ℚ) : (r.scaled f).weights = r.weights.map (· * f) := by
  rw [weights, scaled, weights, List.map_map, List.map_map]
  refine List.map_congr_left fun a ha => ?_
  obtain ⟨q, rfl⟩ := Exact.isFinite_iff.mp (h.coefficients a ha)
  rfl

theorem weight_scaled (h : r.Rational) (f : ℚ) (j : Nat) :
    Tableau.weight (r.scaled f) j = Tableau.weight r j * f := by
  rw [Tableau.weight, Tableau.weight, weights_scaled h, List.getD_eq_getElem?_getD,
    List.getD_eq_getElem?_getD, List.getElem?_map]
  cases r.weights[j]? <;> simp

theorem room_scaled (h : r.Rational) (f : ℚ) (x : List ℚ) : (r.scaled f).room x = r.room x * f := by
  have hrhs : (r.scaled f).rhs.toRat = r.rhs.toRat * f := by
    rw [show (r.scaled f).rhs = r.rhs * .finite f from rfl, Exact.eq_finite h.rhs]
    rfl
  simp only [room, weights_scaled h, form_scaled, hrhs, show (r.scaled f).relation = r.relation from rfl]
  split
  · rw [zero_mul]
  · split <;> ring

theorem resisted_scaled (hf : 0 < f) (d : Direction) (w : ℚ) : d.Resisted (w * f) ↔ d.Resisted w := by
  cases d with
  | up => exact mul_pos_iff_of_pos_right hf
  | down => exact ⟨fun h => neg_of_mul_neg_left h hf.le, fun h => mul_neg_of_neg_of_pos h hf⟩

/-- How far the row lets a column go, if it resists. -/
def ratio? (x : List ℚ) (j : Nat) (d : Direction) (r : Row Exact) : Option ℚ :=
  if d.Resisted (Tableau.weight r j) then some (r.room x / |Tableau.weight r j|) else none

theorem ratio?_scaled (h : r.Rational) (hf : 0 < f) (x : List ℚ) (j : Nat) (d : Direction) :
    (r.scaled f).ratio? x j d = r.ratio? x j d := by
  simp only [ratio?, weight_scaled h, room_scaled h, resisted_scaled hf, abs_mul, abs_of_pos hf,
    mul_div_mul_right _ _ hf.ne']

end Row

variable {rows rows' : List (Row Exact)} {factor : Nat → ℚ}

def scaledRows (factor : Nat → ℚ) (rows : List (Row Exact)) : List (Row Exact) :=
  rows.mapIdx fun i r => r.scaled (factor i)

theorem rational_of_perm (hr : ∀ r ∈ rows, r.Rational) (h : rows'.Perm (scaledRows factor rows)) :
    ∀ r ∈ rows', r.Rational := by
  intro r hmem
  obtain ⟨i, hi, rfl⟩ := List.mem_mapIdx.mp (h.mem_iff.mp hmem)
  exact (hr _ (List.getElem_mem hi)).scaled _

namespace Tableau

variable {y z : Tableau Exact} {s : Store Exact}

theorem ratios_perm (hcolumns : z.columns = y.columns) (hr : ∀ r ∈ y.rows, r.Rational)
    (hfactor : ∀ i, 0 < factor i) (h : z.rows.Perm (scaledRows factor y.rows)) (s : Store Exact)
    (j : Nat) (d : Direction) : (z.ratios s j d).Perm (y.ratios s j d) := by
  have hsame : (scaledRows factor y.rows).map (Row.ratio? (y.point s) j d) =
      y.rows.map (Row.ratio? (y.point s) j d) :=
    map_mapIdx_eq fun i r hmem => Row.ratio?_scaled (hr r hmem) (hfactor i) (y.point s) j d
  have hratios : (scaledRows factor y.rows).filterMap (Row.ratio? (y.point s) j d) =
      y.ratios s j d := by
    have hkept := congrArg (List.filterMap id) hsame
    rw [List.filterMap_map, List.filterMap_map, Function.id_comp] at hkept
    exact hkept
  have hpoint : z.point s = y.point s := by rw [point, point, hcolumns]
  rw [← hratios]
  exact hpoint ▸ h.filterMap (Row.ratio? (z.point s) j d)

theorem alike_of_perm (h : z.rows.Perm (scaledRows factor y.rows)) (hr : ∀ r ∈ y.rows, r.Rational)
    (hfactor : ∀ i, 0 < factor i) (hcolumns : z.columns = y.columns)
    (hobjective : z.objective = y.objective) (columns : List Nat) : y.Alike columns z where
  columns_eq := hcolumns
  preference j _ := by rw [preference, preference, objectiveEntry, objectiveEntry, hobjective]
  limit s hs j d := by
    rw [limit_eq hs (rational_of_perm hr h), limit_eq hs hr]
    exact leastOrZero_perm (ratios_perm hcolumns hr hfactor h s j d)

end Tableau

namespace Rounding

variable {options : Options Exact} {indices : Option (List Int)}

theorem oriented_perm (h : rows'.Perm (scaledRows factor rows)) :
    (oriented options rows').Perm (scaledRows factor (oriented options rows)) := by
  rw [oriented, oriented]
  split
  next =>
    have hturned : (scaledRows factor rows).map (Row.toward .le) =
        scaledRows factor (rows.map (Row.toward .le)) :=
      List.ext_getElem (by simp [scaledRows]) fun i _ _ => by
        simp [scaledRows, Row.toward_scaled]
    rw [← hturned]
    exact h.map _
  next => exact h

theorem obstacle?_perm {m : Model Exact} (hrows : m.rows = some rows)
    (h : rows'.Perm (scaledRows factor rows)) :
    obstacle? options indices { m with rows := some rows' } = obstacle? options indices m := by
  have hany : rows'.any (·.relation.isAbove) = rows.any (·.relation.isAbove) := by
    have hsame : (scaledRows factor rows).map (·.relation) = rows.map (·.relation) :=
      map_mapIdx_eq fun _ _ _ => rfl
    have hmapped := congrArg (List.any · Relation.isAbove) hsame
    simp only [List.any_map] at hmapped
    exact h.any_eq.trans hmapped
  simp only [obstacle?, hrows, hany]

end Rounding

variable {options : Options Exact} {indices : Option (List Int)} {c : Scene Exact}

/-- The order of the rows and positive factors of theirs make no difference to a run, but for whether
the rows are found to hold at its end. -/
theorem run_rescaled (hs : c.store.Sound) (hrows : c.model.rows = some rows)
    (hr : ∀ r ∈ rows, r.Rational) (hfactor : ∀ i, 0 < factor i)
    (hperm : rows'.Perm (scaledRows factor rows)) :
    let d := { c with model := { c.model with rows := some rows' } }
    (∀ fault c', (run options indices).run c = .error fault c' →
      (run options indices).run d = .error fault d) ∧
    ∀ report c', (run options indices).run c = .ok report c' →
      ∃ feasible d', (run options indices).run d = .ok { report with feasible := feasible } d' ∧
        d'.store = c'.store := by
  intro d
  have hobstacle : obstacle? options indices d.model = obstacle? options indices c.model :=
    obstacle?_perm hrows hperm
  -- a limit depends on the ratios of room and weight in the rows, and on nothing else
  have halike : (tableau options c.model).Alike (listed indices) (tableau options d.model) := by
    have hturned : (tableau options d.model).rows.Perm
        (scaledRows factor (tableau options c.model).rows) := by
      simp only [tableau, hrows, Option.getD_some, d]
      exact oriented_perm hperm
    have hrational : ∀ r ∈ (tableau options c.model).rows, r.Rational := by
      rw [tableau, hrows]
      exact rational_oriented hr options
    exact Tableau.alike_of_perm hturned hrational hfactor rfl rfl _
  constructor
  · intro fault c' h
    exact run_of_obstacle (hobstacle.trans (obstacle_of_run hs h))
  · intro report c' h
    obtain ⟨hobjective, -⟩ := reported_at_end hs h
    obtain ⟨d', hrun, hstore⟩ := run_of_alike (d := d) hs rfl hobstacle halike h
    have hvalue : (tableau options d.model).objectiveValue c'.store = report.objective :=
      hobjective.symm
    rw [hvalue] at hrun
    exact ⟨_, d', hrun, hstore⟩

theorem run_rescaled_priced :
    let rows := priced.model.rows.getD []
    let d := { priced with
      model := { priced.model with rows := some (scaledRows (fun i => i + 2) rows).reverse } }
    ∃ report c' feasible d', (run .standard (some [0, 1])).run priced = .ok report c' ∧
      (run .standard (some [0, 1])).run d = .ok { report with feasible := feasible } d' ∧
      d'.store = c'.store := by
  intro rows d
  have hrun : (run .standard (some [0, 1])).run priced = _ := run_of_ready priced_sound (by decide)
  have hpos : ∀ i : Nat, (0 : ℚ) < i + 2 := fun i => by positivity
  obtain ⟨feasible, d', hrescaled⟩ := (run_rescaled priced_sound rfl (by decide) hpos
    (List.reverse_perm _)).2 _ _ hrun
  exact ⟨_, _, feasible, d', hrun, hrescaled⟩

end MilpRounding
