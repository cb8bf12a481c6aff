import MilpRounding.Proofs.RationalMoves
import MilpRounding.Proofs.RunOutcome

namespace MilpRounding

open Scalar LawfulScalar Rounding

/-- Sound variables, every one in a column of its own, under rows with finite numbers. -/
structure Scene.Rational (c : Scene Exact) : Prop where
  sound : c.store.Sound
  distinct : (c.model.columns.getD []).Nodup
  rows : ∀ r ∈ c.model.rows.getD [], r.Rational

theorem Row.room_set {r : Row Exact} (hb : r.relation.isBelow = true) {x : List ℚ} {j : Nat}
    (hj : j < x.length) (v : ℚ) :
    r.room (x.set j v) = r.room x - Tableau.weight r j * (v - x.getD j 0) := by
  have hne := Relation.ne_eq_of_isBelow hb
  simp only [room, if_neg hne, if_pos hb, form_set _ hj, Tableau.weight]
  ring

namespace Tableau

variable {y : Tableau Exact} {s : Store Exact} {j : Nat}

structure Prepared (y : Tableau Exact) : Prop where
  distinct : y.columns.Nodup
  rational : ∀ r ∈ y.rows, r.Rational
  oriented : ∀ r ∈ y.rows, r.relation = .eq ∨ r.relation.isBelow = true

theorem point_next (hy : y.Prepared) (hs : s.Sound) (hj : j < y.columns.length) {t : Exact}
    (h : y.choice s j = some t) : y.point (y.next s j).1 = (y.point s).set j t.toRat := by
  rw [next, h]
  exact point_write hy.distinct hj (ref_lt_of_choice hs h) _

end Tableau

theorem mem_of_pick {α β : Type} {xs : List β} {i : Int} {b : β}
    (h : pick xs i = (.ok b : Except (Fault α) β)) : b ∈ xs := by
  rw [pick] at h
  split at h
  next x hx =>
    cases h
    obtain ⟨k, -, hk⟩ := Option.bind_eq_some_iff.mp hx
    exact List.mem_of_getElem? hk
  next => cases h

theorem pick_of_map {α β γ : Type} (f : β → γ) (xs : List β) (i : Int) :
    (pick (xs.map f) i : Except (Fault α) γ) = (pick xs i).map f := by
  have h : (resolve? (xs.map f).length i).bind ((xs.map f)[·]?) =
      ((resolve? xs.length i).bind (xs[·]?)).map f := by
    rw [List.length_map, Option.map_bind]
    congr 1
    funext k
    exact List.getElem?_map
  rw [pick, pick, h]
  cases (resolve? xs.length i).bind (xs[·]?) <;> rfl

theorem pick_map {α β γ : Type} (f : β → γ) {xs : List β} {i : Int} {b : β}
    (h : pick xs i = (.ok b : Except (Fault α) β)) :
    pick (xs.map f) i = (.ok (f b) : Except (Fault α) γ) := by
  rw [pick_of_map, h]
  rfl

namespace Model

variable {m : Model Exact} {columns : List Ref} {rows : List (Row Exact)} {s : Store Exact} {i : Int}

theorem slack_eq_bind (hr : m.rows = some rows) (s : Store Exact) (i : Int) :
    m.slack s i = (pick rows i).bind fun (r : Row Exact) =>
      if r.relation = .eq then .ok 0 else (m.values s).map r.slack := by
  rw [slack]
  rw [requireRows_eq hr]
  rfl

theorem slack_eq (hc : m.columns = some columns) (hr : m.rows = some rows)
    (hrational : ∀ r ∈ rows, r.Rational) (hs : s.Sound) {r : Row Exact}
    (hi : pick rows i = (.ok r : Except (Fault Exact) _)) :
    m.slack s i = .ok (.finite (r.room (point columns s))) := by
  have hslack : r.slack (valuesAt columns s) = .finite (r.room (point columns s)) := by
    rw [valuesAt_eq hs, (hrational r (mem_of_pick hi)).slack_eq]
  have hvalues : m.values s = .ok (valuesAt columns s) := by
    rw [values, requireColumns_eq hc]
    rfl
  rw [slack_eq_bind hr, hi, hvalues, Except.bind]
  split
  next he =>
    rw [Row.room, if_pos he]
    rfl
  next => exact congrArg Except.ok hslack

theorem exists_of_slack {a : Exact} (h : m.slack s i = .ok a) :
    ∃ rows r, m.rows = some rows ∧ pick rows i = (.ok r : Except (Fault Exact) _) := by
  cases hr : m.rows with
  | none =>
      rw [slack, requireRows, hr] at h
      cases h
  | some rows =>
      rw [slack_eq_bind hr] at h
      cases hp : (pick rows i : Except (Fault Exact) (Row Exact)) with
      | error f =>
          rw [hp] at h
          cases h
      | ok r => exact ⟨rows, r, rfl, hp⟩

end Model

theorem Model.slack_congr {m : Model Exact} {columns : List Ref} (hc : m.columns = some columns)
    {s t : Store Exact} (h : valuesAt columns s = valuesAt columns t) (i : Int) :
    m.slack s i = m.slack t i := by
  have hvalues : m.values s = m.values t := by
    rw [values, values, requireColumns_eq hc]
    exact congrArg Except.ok h
  simp only [slack]
  rw [hvalues]

theorem oriented_eq {options : Options Exact} {rows : List (Row Exact)}
    (h : options.normalize = true ∨ ∀ r ∈ rows, r.relation.isAbove = false) :
    oriented options rows = rows.map (Row.toward .le) := by
  rw [oriented]
  split
  next => rfl
  next hn =>
    exact (List.map_id rows).symm.trans (List.map_congr_left fun r hr =>
      (Row.toward_of_not_isAbove (h.resolve_left hn r hr)).symm)

structure Reported (options : Options Exact) (idx : List Int) (c : Scene Exact)
    (columns : List Ref) (rows : List (Row Exact)) : Prop where
  columns_eq : c.model.columns = some columns
  rows_eq : c.model.rows = some rows
  range : ∀ j ∈ idx, 0 ≤ j ∧ j < columns.length
  rational : ∀ r ∈ rows, r.Rational
  distinct : columns.Nodup
  sound : c.store.Sound
  oriented : Rounding.oriented options rows = rows.map (Row.toward .le)

theorem reported {c c' : Scene Exact} (hc : c.Rational) {options : Options Exact}
    {indices : Option (List Int)} {report : Report Exact}
    (h : (run options indices).run c = .ok report c') :
    c' = outcome options indices c ∧
      ∃ idx columns rows, indices = some idx ∧ Reported options idx c columns rows := by
  cases ho : obstacle? options indices c.model with
  | some f =>
      rw [run_of_obstacle ho] at h
      cases h
  | none =>
      rw [run_of_ready hc.sound ho] at h
      cases h
      obtain ⟨idx, columns, rows, rfl, hcolumns, hrows, hrange, hnormal⟩ := obstacle?_eq_none ho
      refine ⟨rfl, idx, columns, rows, rfl, hcolumns, hrows, hrange, ?_, ?_, hc.sound,
        oriented_eq hnormal⟩
      · simpa [hrows] using hc.rows
      · simpa [hcolumns] using hc.distinct

namespace Reported

variable {options : Options Exact} {idx : List Int} {c : Scene Exact} {columns : List Ref}
  {rows : List (Row Exact)}

theorem tableau_eq (h : Reported options idx c columns rows) :
    tableau options c.model = ⟨columns, rows.map (Row.toward .le), c.model.objective⟩ := by
  rw [tableau, h.columns_eq, h.rows_eq, Option.getD_some, Option.getD_some, h.oriented]

theorem prepared (h : Reported options idx c columns rows) :
    (tableau options c.model).Prepared := by
  rw [h.tableau_eq]
  refine ⟨h.distinct, fun r hr => ?_, fun r hr => ?_⟩
  · obtain ⟨r, hmem, rfl⟩ := List.mem_map.mp hr
    exact (h.rational r hmem).toward .le
  · obtain ⟨r, hmem, rfl⟩ := List.mem_map.mp hr
    exact r.relation_toward_le

theorem point_eq (h : Reported options idx c columns rows) (s : Store Exact) :
    (tableau options c.model).point s = point columns s := by
  rw [Tableau.point, h.tableau_eq]

theorem listed_lt (h : Reported options idx c columns rows) :
    ∀ j ∈ listed (some idx), j < (tableau options c.model).columns.length := by
  rw [h.tableau_eq]
  exact fun j hj => mem_listed h.range hj

theorem toward_mem (h : Reported options idx c columns rows) {r : Row Exact} (hr : r ∈ rows) :
    r.toward .le ∈ (tableau options c.model).rows := by
  rw [h.tableau_eq]
  exact List.mem_map_of_mem hr

theorem passage_sound (h : Reported options idx c columns rows) :
    (passage options (some idx) c).store.Sound :=
  Tableau.course_sound h.sound options.stopOnStall options.maxSweeps.1 (listed (some idx))

theorem slack_start (h : Reported options idx c columns rows) {i : Int} {r : Row Exact}
    (hi : pick rows i = (.ok r : Except (Fault Exact) _)) :
    c.model.slack c.store i = .ok (.finite (r.room (point columns c.store))) :=
  Model.slack_eq h.columns_eq h.rows_eq h.rational h.sound hi

theorem rows_oriented (h : Reported options idx c columns rows) :
    (orientedModel options c.model).rows = some (rows.map (Row.toward .le)) := by
  rw [orientedModel, h.rows_eq, Option.map_some, h.oriented]

/-- The slack in the course of the run, whose rows are turned. -/
theorem slack_during (h : Reported options idx c columns rows) {s : Store Exact} (hs : s.Sound)
    {i : Int} {r : Row Exact} (hi : pick rows i = (.ok r : Except (Fault Exact) _)) :
    (orientedModel options c.model).slack s i = .ok (.finite (r.room (point columns s))) := by
  have hc : (orientedModel options c.model).columns = some columns := h.columns_eq
  have hrational : ∀ r ∈ rows.map (Row.toward .le), r.Rational := by
    intro r hr
    obtain ⟨r, hmem, rfl⟩ := List.mem_map.mp hr
    exact (h.rational r hmem).toward .le
  rw [Model.slack_eq hc h.rows_oriented hrational hs (pick_map (Row.toward .le) hi),
    Row.room_toward (h.rational r (mem_of_pick hi))]

theorem valuesAt_outcome (options : Options Exact) (idx : List Int) (c : Scene Exact)
    (columns : List Ref) : valuesAt columns (outcome options (some idx) c).store =
      valuesAt columns (passage options (some idx) c).store :=
  List.map_congr_left fun r _ =>
    value_settled options (some idx) (tableau options c.model) (passage options (some idx) c) r

theorem slack_end (h : Reported options idx c columns rows) {i : Int} {r : Row Exact}
    (hi : pick rows i = (.ok r : Except (Fault Exact) _)) :
    (outcome options (some idx) c).model.slack (outcome options (some idx) c).store i =
      .ok (.finite (r.room (point columns (passage options (some idx) c).store))) := by
  have hc : (orientedModel options c.model).columns = some columns := h.columns_eq
  rw [← h.slack_during h.passage_sound hi]
  exact Model.slack_congr hc (valuesAt_outcome options idx c columns) i

end Reported

end MilpRounding
