import MilpRounding.Proofs.DistinctIndices
import MilpRounding.Proofs.LocalDecisions
import MilpRounding.Proofs.LooseColumns
import MilpRounding.Proofs.StatusMeaning

namespace MilpRounding

open Scalar LawfulScalar Rounding

namespace Tableau

variable {y : Tableau Exact} {columns : List Nat} {keep : Nat → Bool} {s t : Store Exact}

def Apart (y : Tableau Exact) (columns : List Nat) (keep : Nat → Bool) : Prop :=
  ∀ r ∈ y.rows, ∀ i ∈ columns, ∀ j ∈ columns, keep i = true → keep j = false →
    weight r i = 0 ∨ weight r j = 0

theorem Apart.symm (h : y.Apart columns keep) : y.Apart columns (outside keep) := by
  intro r hr i hi j hj hki hkj
  simp only [outside, Bool.not_eq_true', Bool.not_eq_false'] at hki hkj
  exact (h r hr j hj i hi hkj hki).symm

/-- A row that weighs a column that is kept leaves the same where the stores agree on these columns. -/
theorem room_of_agreeOn (hy : y.Prepared) (hlt : ∀ j ∈ columns, j < y.columns.length)
    (hapart : y.Apart columns keep) (h : y.AgreeOn columns keep s t) {r : Row Exact} (hr : r ∈ y.rows)
    {i : Nat} (hi : i ∈ columns) (hk : keep i = true) (hw : weight r i ≠ 0) :
    r.room (y.point s) = r.room (y.point t) := by
  refine Row.room_congr (form_congr (by simp [point]) fun k => ?_)
  by_cases hcolumn : k < y.columns.length
  · by_cases hout : ∃ j ∈ columns, keep j = false ∧ y.ref j = y.ref k
    · obtain ⟨j, hj, hkj, href⟩ := hout
      obtain rfl := ref_injective hy.distinct (hlt j hj) hcolumn href
      exact .inl ((hapart r hr i hi j hj hk hkj).resolve_left hw)
    · have hread : s.read (y.ref k) = t.read (y.ref k) :=
        h _ fun j hj hkj href => hout ⟨j, hj, hkj, href⟩
      refine .inr ?_
      rw [point, point, getD_point hcolumn, getD_point hcolumn]
      exact congrArg (fun v : Variable Exact => v.value.toRat) hread
  · refine .inr ?_
    simp [point, MilpRounding.point, hcolumn]

theorem Apart.local (hapart : y.Apart columns keep) (hy : y.Prepared)
    (hlt : ∀ j ∈ columns, j < y.columns.length) (hrefs : (columns.map y.ref).Nodup) :
    y.Local columns keep := by
  intro s t hs ht h i hi hk
  have hlimit (d : Direction) : y.limit s i d = y.limit t i d := by
    rw [limit_eq hs hy.rational, limit_eq ht hy.rational, ratios, ratios]
    congr 2
    refine List.filterMap_congr fun r hr => ?_
    split
    next hres => rw [room_of_agreeOn hy hlt hapart h hr hi hk hres.ne_zero]
    next => rfl
  exact choice_congr (h.variableAt hrefs hi hk) (hlimit .up) (hlimit .down)

theorem Apart.separate (hapart : y.Apart columns keep) (hy : y.Prepared) (hn : columns.Nodup)
    (hlt : ∀ j ∈ columns, j < y.columns.length) : y.Separate columns keep := by
  have hrefs := nodup_map_ref hy.distinct hn hlt
  exact ⟨hrefs, hapart.local hy hlt hrefs, hapart.symm.local hy hlt hrefs⟩

theorem totals_perm (hs : s.Sound) (hr : ∀ r ∈ y.rows, r.Rational) {p q : List Nat} (h : p.Perm q) :
    y.totals s p = y.totals s q := by
  rw [totals_eq hs hr, totals_eq hs hr]
  simp only [surplus, (h.map _).sum_eq]

end Tableau

namespace Rounding

theorem obstacle?_of_subset {α : Type} [Scalar α] {options : Options α} {idx idx' : List Int}
    {m : Model α} (h : obstacle? options (some idx) m = none) (hsub : idx' ⊆ idx) :
    obstacle? options (some idx') m = none := by
  obtain ⟨_, columns, rows, hidx, hcolumns, hrows, hrange, -⟩ := obstacle?_eq_none h
  obtain rfl := Option.some.inj hidx
  have hnone {l : List Int} (hl : l ⊆ idx) : outOfRange? columns.length l = none := by
    simpa [outOfRange?] using fun j hj => hrange j (hl hj)
  simp only [obstacle?, hcolumns, hrows, hnone hsub, hnone (List.Subset.refl idx)] at h ⊢
  exact h

theorem settled_congr {α : Type} [Scalar α] {options : Options α} {indices other : Option (List Int)}
    {y : Tableau α} {k l : Course α} (hstore : k.store = l.store)
    (hrounded : ∀ j, j ∈ roundedColumns indices k ↔ j ∈ roundedColumns other l) :
    settled options indices y k = settled options other y l := by
  have hmarked (j : Nat) : j ∈ markedColumns options indices k ↔
      j ∈ markedColumns options other l := by
    rw [markedColumns, markedColumns]
    split
    · exact hrounded j
    · exact Iff.rfl
  rw [settled_eq_markColumns, settled_eq_markColumns, hstore]
  refine Store.ext_read (by rw [size_markColumns, size_markColumns]) fun r => ?_
  simp only [read_markColumns, hmarked]

end Rounding

def Scene.SameValue {α : Type} [Scalar α] (c d : Scene α) (j : Int) : Prop :=
  ∃ v w : Variable α, c.model.variableAt c.store j = .ok v ∧
    d.model.variableAt d.store j = .ok w ∧ w.value = v.value

theorem sameValue_outcome {α : Type} [Scalar α] {options : Options α} {c : Scene α}
    {columns : List Ref} (hc : c.model.columns = some columns) {indices other : Option (List Int)}
    {j : Nat} (hj : j < columns.length)
    (h : (tableau options c.model).variableAt (passage options indices c).store j =
      (tableau options c.model).variableAt (passage options other c).store j) :
    (outcome options indices c).SameValue (outcome options other c) j := by
  rw [Tableau.variableAt, Tableau.variableAt, ref_tableau hc] at h
  refine ⟨_, _, variableAt_outcome hc options indices hj, variableAt_outcome hc options other hj, ?_⟩
  exact (value_settled options other _ _ _).trans ((congrArg Variable.value h).symm.trans
    (value_settled options indices _ _ _).symm)

/-- No row has coefficients other than zero both in a column that is kept and in one that is not. -/
def Uncoupled (rows : List (Row Exact)) (idx : List Int) (keep : Nat → Bool) : Prop :=
  ∀ r ∈ rows, ∀ i ∈ idx, ∀ j ∈ idx, keep i.toNat = true → keep j.toNat = false →
    Tableau.entry r i.toNat = 0 ∨ Tableau.entry r j.toNat = 0

theorem Uncoupled.symm {rows : List (Row Exact)} {idx : List Int} {keep : Nat → Bool}
    (h : Uncoupled rows idx keep) : Uncoupled rows idx (outside keep) := by
  intro r hr i hi j hj hki hkj
  simp only [outside, Bool.not_eq_true', Bool.not_eq_false'] at hki hkj
  exact (h r hr j hj i hi hkj hki).symm

section Run

variable {c c' : Scene Exact} {options : Options Exact} {idx : List Int} {keep : Nat → Bool}
  {report : Report Exact}

theorem separate_of_uncoupled {columns : List Ref} {rows : List (Row Exact)}
    (h : Reported options (distinct idx) c columns rows)
    (hgroups : Uncoupled (c.model.rows.getD []) idx keep) :
    (tableau options c.model).Separate (listed (some (distinct idx))) keep := by
  refine Tableau.Apart.separate ?_ h.prepared (nodup_listed h.range) h.listed_lt
  rw [h.rows_eq, Option.getD_some] at hgroups
  intro turned hturned i' hi' j' hj' hki hkj
  obtain ⟨i, hi, rfl⟩ := List.mem_map.mp hi'
  obtain ⟨j, hj, rfl⟩ := List.mem_map.mp hj'
  rw [h.tableau_eq] at hturned
  obtain ⟨r, hr, rfl⟩ := List.mem_map.mp hturned
  have hzero {k : Nat} (hentry : Tableau.entry r k = 0) : Tableau.weight (r.toward .le) k = 0 := by
    rw [(h.rational r hr).entry_eq, Exact.zero_eq, Exact.finite.injEq] at hentry
    rw [← abs_eq_zero, weight_toward (h.rational r hr), Shape.abs_load, Row.shape, hentry, abs_zero]
  exact (hgroups r hr i (mem_distinct.mp hi) j (mem_distinct.mp hj) hki hkj).imp hzero hzero

/-- A group of columns ends where it ends alone, if none of the two runs is cut off. -/
theorem group_alone (hc : c.Rational) (hgroups : Uncoupled (c.model.rows.getD []) idx keep)
    (h : (run options (some (distinct idx))).run c = .ok report c') :
    ∃ alone d, (run options (some (distinct (idx.filter fun i => keep i.toNat)))).run c =
        .ok alone d ∧
      (report.status ≠ .sweepLimit → alone.status ≠ .sweepLimit →
        ∀ i ∈ idx, keep i.toNat = true → c'.SameValue d i) := by
  obtain ⟨-, _, columns, rows, hidx, hreported⟩ := reported hc h
  obtain rfl := Option.some.inj hidx
  obtain ⟨hready, rfl, rfl⟩ := ready_of_run hc.sound h
  have hsub : distinct (idx.filter fun i => keep i.toNat) ⊆ distinct idx := by
    rw [distinct_filter]
    exact List.filter_subset_self _
  have hsep := separate_of_uncoupled hreported hgroups
  refine ⟨_, _, run_of_ready hc.sound (obstacle?_of_subset hready hsub),
    fun hboth halone i hi hk => ?_⟩
  have hpassage : passage options (some (distinct (idx.filter fun i => keep i.toNat))) c =
      (tableau options c.model).course options.stopOnStall options.maxSweeps.1
        ((listed (some (distinct idx))).filter keep) c.store := by
    rw [passage, listed_filter]
  have hj : i.toNat ∈ listed (some (distinct idx)) := List.mem_map_of_mem (mem_distinct.mpr hi)
  have hrange := hreported.range i (mem_distinct.mpr hi)
  rw [← Int.toNat_of_nonneg hrange.1]
  refine sameValue_outcome hreported.columns_eq (by omega) ?_
  simp only [reportOf, hpassage] at halone ⊢
  exact (Tableau.course_agreeOn hsep hc.sound hboth halone).variableAt hsep.refs hj hk

theorem groups_reordered (hc : c.Rational) (hgroups : Uncoupled (c.model.rows.getD []) idx keep)
    (h : (run options (some (distinct idx))).run c = .ok report c') {again : List Int}
    (hkept : (again.filter fun i => keep i.toNat) = idx.filter fun i => keep i.toNat)
    (hothers : (again.filter fun i => !keep i.toNat) = idx.filter fun i => !keep i.toNat) :
    ∃ report' d, (run options (some (distinct again))).run c = .ok report' d ∧
      report' = { report with rounded := report'.rounded, fractional := report'.fractional } ∧
      d.store = c'.store ∧ d.model = c'.model := by
  obtain ⟨-, _, columns, rows, hidx, hreported⟩ := reported hc h
  obtain rfl := Option.some.inj hidx
  obtain ⟨hready, rfl, rfl⟩ := ready_of_run hc.sound h
  have hsame : SameGroups keep (listed (some (distinct idx))) (listed (some (distinct again))) := by
    constructor
    · rw [← listed_filter, ← listed_filter, hkept]
    · rw [← listed_filter, ← listed_filter]
      simp only [outside, hothers]
  have hsub : distinct again ⊆ distinct idx := by
    intro i hi
    rw [mem_distinct] at hi ⊢
    cases hk : keep i.toNat with
    | true => exact (List.mem_filter.mp (hkept ▸ List.mem_filter.mpr ⟨hi, hk⟩)).1
    | false => exact (List.mem_filter.mp (hothers ▸ List.mem_filter.mpr ⟨hi, by rw [hk]; rfl⟩)).1
  -- the limits are rational numbers, whose sum does not depend on their order
  have hcourse : (passage options (some (distinct idx)) c).Reordered keep
      (passage options (some (distinct again)) c) :=
    Tableau.course_reordered (separate_of_uncoupled hreported hgroups)
      (fun t ht p q => Tableau.totals_perm ht hreported.prepared.rational) options.stopOnStall
      options.maxSweeps.1 hc.sound (List.Subset.refl _) hsame.perm.symm.subset hsame
  have hrounded (j : Nat) : j ∈ roundedColumns (some (distinct again))
      (passage options (some (distinct again)) c) ↔
        j ∈ roundedColumns (some (distinct idx)) (passage options (some (distinct idx)) c) := by
    rw [mem_roundedColumns, mem_roundedColumns, hsame.perm.mem_iff, hcourse.groups.perm.mem_iff]
  refine ⟨_, _, run_of_ready hc.sound (obstacle?_of_subset hready hsub), ?_,
    settled_congr hcourse.store.symm hrounded, rfl⟩
  have hlength := congrArg List.length hcourse.history
  simp only [List.length_map] at hlength
  simp only [reportOf, hcourse.status, hcourse.history, hcourse.store, hlength]

/-- Two groups of columns that stand in no row together do not interact. Each of them ends where it ends
alone, and any other order of the indices that is the same within the groups leads to the same scene and
to the same report, but for the order of the listed columns. -/
theorem groups_independent (hc : c.Rational) (hgroups : Uncoupled (c.model.rows.getD []) idx keep)
    (h : (run options (some (distinct idx))).run c = .ok report c') :
    (∃ alone d, (run options (some (distinct (idx.filter fun i => keep i.toNat)))).run c =
        .ok alone d ∧
      (report.status ≠ .sweepLimit → alone.status ≠ .sweepLimit →
        ∀ i ∈ idx, keep i.toNat = true → c'.SameValue d i)) ∧
    (∃ alone d, (run options (some (distinct (idx.filter fun i => !keep i.toNat)))).run c =
        .ok alone d ∧
      (report.status ≠ .sweepLimit → alone.status ≠ .sweepLimit →
        ∀ i ∈ idx, keep i.toNat = false → c'.SameValue d i)) ∧
    ∀ again : List Int,
      (again.filter fun i => keep i.toNat) = (idx.filter fun i => keep i.toNat) →
      (again.filter fun i => !keep i.toNat) = (idx.filter fun i => !keep i.toNat) →
      ∃ report' d, (run options (some (distinct again))).run c = .ok report' d ∧
        report' = { report with rounded := report'.rounded, fractional := report'.fractional } ∧
        d.store = c'.store ∧ d.model = c'.model := by
  refine ⟨group_alone hc hgroups h, ?_, fun again => groups_reordered hc hgroups h⟩
  obtain ⟨alone, d, hrun, hsame⟩ := group_alone hc hgroups.symm h
  exact ⟨alone, d, hrun, fun hboth halone i hi hk => hsame hboth halone i hi (outside_of_not hk)⟩

end Run

def sideBySide : Scene Exact where
  store := ⟨#[⟨.continuous, .finite (1 / 2), .finite 0, .finite 10⟩,
    ⟨.continuous, .finite (1 / 2), .finite 0, .finite 10⟩]⟩
  model :=
    { columns := some [0, 1]
      rows := some [⟨[.finite 1, .finite 0], .le, .finite 1⟩,
        ⟨[.finite 0, .finite 1], .ge, .finite 0⟩] }

theorem sideBySide_rational : sideBySide.Rational := by
  refine ⟨Store.sound_of_cells fun v hv => ?_, by decide, by decide⟩
  obtain rfl | rfl := List.mem_pair.mp (Array.mem_def.mp hv) <;>
    exact Variable.continuous_sound rfl rfl (by norm_num) (by norm_num)

theorem sideBySide_uncoupled : Uncoupled (sideBySide.model.rows.getD []) [0, 1] (· == 0) := by
  intro r hr i hi j hj hki hkj
  obtain rfl : i = 0 := by
    rcases List.mem_pair.mp hi with rfl | rfl
    · rfl
    · cases hki
  obtain rfl : j = 1 := by
    rcases List.mem_pair.mp hj with rfl | rfl
    · cases hkj
    · rfl
  rcases List.mem_pair.mp hr with rfl | rfl
  · exact .inr rfl
  · exact .inl rfl

theorem groups_independent_sideBySide :
    ∃ report c', (run .standard (some (distinct [0, 1]))).run sideBySide = .ok report c' ∧
      (∃ alone d, (run .standard (some (distinct [0]))).run sideBySide = .ok alone d ∧
        c'.SameValue d 0) ∧
      (∃ alone d, (run .standard (some (distinct [1]))).run sideBySide = .ok alone d ∧
        c'.SameValue d 1) ∧
      ∃ report' d, (run .standard (some (distinct [1, 0]))).run sideBySide = .ok report' d ∧
        d.store = c'.store := by
  have hsound := sideBySide_rational.sound
  have hboth : (passage .standard (some (distinct [0, 1])) sideBySide).status ≠ .sweepLimit := by
    decide +kernel
  have hrun : (run .standard (some (distinct [0, 1]))).run sideBySide = _ :=
    run_of_ready hsound (by decide)
  obtain ⟨⟨first, d, hfirst, hzero⟩, ⟨second, e, hsecond, hone⟩, hagain⟩ :=
    groups_independent sideBySide_rational sideBySide_uncoupled hrun
  obtain ⟨report', f, hswapped, -, hstore, -⟩ := hagain [1, 0] (by decide) (by decide)
  have hfirst_status : first.status ≠ .sweepLimit := by
    have hpassage : (passage .standard (some (distinct [0])) sideBySide).status ≠ .sweepLimit := by
      decide +kernel
    rw [(ready_of_run hsound hfirst).2.1]
    exact hpassage
  have hsecond_status : second.status ≠ .sweepLimit := by
    have hpassage : (passage .standard (some (distinct [1])) sideBySide).status ≠ .sweepLimit := by
      decide +kernel
    rw [(ready_of_run hsound hsecond).2.1]
    exact hpassage
  exact ⟨_, _, hrun, ⟨first, d, hfirst, hzero hboth hfirst_status 0 (by decide) rfl⟩,
    ⟨second, e, hsecond, hone hboth hsecond_status 1 (by decide) rfl⟩, report', f, hswapped, hstore⟩

end MilpRounding
