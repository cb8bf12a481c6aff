import Mathlib.Data.List.Forall2
import MilpRounding.Linear.Evaluation
import MilpRounding.Problem.Assembly
import MilpRounding.Problem.Refusal
import MilpRounding.Proofs.ModelUpdate
import MilpRounding.Proofs.SoundStore

namespace MilpRounding

open Scalar LawfulScalar

theorem filterMap_filter_range {β γ δ : Type} {xs : List β} {ys : List γ} {f : γ → Bool}
    {g : β → Bool} (h : List.Forall₂ (fun x y => f y = g x) xs ys) (name : β → δ) :
    ((List.range ys.length).filter fun i => ys[i]?.any f).filterMap ((xs.map name)[·]?) =
      (xs.filter g).map name := by
  induction h with
  | nil => rfl
  | @cons x y xs ys hxy _ ih =>
      -- behind the first entries, the positions are those of the rest, one higher
      have hrest : (((List.range ys.length).map Nat.succ).filter
          fun i => (y :: ys)[i]?.any f).filterMap (((x :: xs).map name)[·]?) =
            (xs.filter g).map name := by
        rw [List.filter_map, List.filterMap_map]
        exact ih
      rw [List.length_cons, List.range_succ_eq_map, List.filter_cons, List.filter_cons,
        List.getElem?_cons_zero, Option.any_some, hxy]
      split
      next =>
        rw [List.filterMap_cons, hrest]
        rfl
      next => exact hrest

theorem forall₂_of_mapM {ε β γ : Type} {f : β → Except ε γ} {xs : List β} {ys : List γ}
    (h : xs.mapM f = .ok ys) : List.Forall₂ (fun x y => f x = .ok y) xs ys := by
  induction xs generalizing ys with
  | nil =>
      cases h
      exact .nil
  | cons x xs ih =>
      rw [List.mapM_cons] at h
      obtain ⟨y, hy, h⟩ := ok_of_bind h
      obtain ⟨rest, hrest, h⟩ := ok_of_bind h
      cases h
      exact .cons hy (ih hrest)

theorem forall_mem_of_forall₂ {β γ : Type} {p : γ → Prop} {xs : List β} {ys : List γ}
    (h : List.Forall₂ (fun _ y => p y) xs ys) : ∀ y ∈ ys, p y := by
  induction h with
  | nil => exact fun y hy => nomatch hy
  | cons hy _ ih => exact List.forall_mem_cons.mpr ⟨hy, ih⟩

variable {α : Type} [Scalar α]

/-- Why a variable cannot start at its value of a point. Where a bound is not given there is none. -/
inductive Declaration.Unfit (d : Declaration α) (point : Point α) : Prop
  | noValue (h : point.lookup d.name = none)
  | crossed {low high : α} (hlow : d.low = some low) (hhigh : d.high = some high) (h : high < low)
  | notFinite {value : α} (hvalue : point.lookup d.name = some value) (h : isFinite value = false)
  | below {value low : α} (hvalue : point.lookup d.name = some value) (hlow : d.low = some low)
      (h : value < low)
  | above {value high : α} (hvalue : point.lookup d.name = some value) (hhigh : d.high = some high)
      (h : high < value)

inductive Problem.Unfit (p : Problem α) (point : Point α) : Prop
  | sharedName (h : ¬ p.names.Nodup)
  | declaration {d : Declaration α} (hd : d ∈ p.declarations) (h : d.Unfit point)
  | unknownInObjective {t : Term α} (ht : t ∈ p.objective.terms) (h : t.variableName ∉ p.names)
  | unknownInConstraint {c : Constraint α} (hc : c ∈ p.constraints) {t : Term α}
      (ht : t ∈ c.left.terms) (h : t.variableName ∉ p.names)
  | noConstraints (h : p.constraints = [])

def BuildFault.IsMistake (f : BuildFault α) : Prop := f.category.isValueMistake = true

section Cells

/-- A sound variable that stands at its value of a point, between the bounds of its declaration. -/
structure Declaration.Describes (d : Declaration α) (point : Point α) (v : Variable α) : Prop where
  value : point.lookup d.name = some v.value
  low : v.low = d.lowOrFree
  high : v.high = d.highOrFree
  sound : v.Sound

theorem Declaration.describes_of_instantiate {d : Declaration α} {point : Point α} {v : Variable α}
    (h : d.instantiate point = .ok v) : d.Describes point v := by
  rw [instantiate] at h
  cases hvalue : point.lookup d.name with
  | none =>
      rw [hvalue] at h
      cases h
  | some value =>
      simp only [hvalue] at h
      cases hmake : Variable.make .continuous value d.lowOrFree d.highOrFree with
      | error f =>
          rw [hmake] at h
          simp only [throw, throwThe, MonadExceptOf.throw] at h
          grind
      | ok u =>
          rw [hmake] at h
          simp only [throw, throwThe, MonadExceptOf.throw, pure, Except.pure] at h
          obtain rfl : u = v := by grind
          have hsound := Variable.make_sound hmake
          rw [Variable.eq_of_make hmake] at hsound ⊢
          exact ⟨hvalue, rfl, rfl, hsound⟩

theorem describes_of_instantiateAll {point : Point α} {seen : List String}
    {ds : List (Declaration α)} {cells : List (Variable α)}
    (h : instantiateAll point seen ds = .ok cells) :
    List.Forall₂ (Declaration.Describes · point) ds cells := by
  induction ds generalizing seen cells with
  | nil =>
      cases h
      exact .nil
  | cons d rest ih =>
      rw [instantiateAll] at h
      by_cases hseen : d.name ∈ seen
      · rw [if_pos hseen] at h
        cases h
      · rw [if_neg hseen] at h
        obtain ⟨v, hv, h⟩ := ok_of_bind h
        obtain ⟨vs, hvs, h⟩ := ok_of_bind h
        cases h
        exact .cons (Declaration.describes_of_instantiate hv) (ih hvs)

theorem sound_of_instantiateAll {point : Point α} {seen : List String}
    {ds : List (Declaration α)} {cells : List (Variable α)}
    (h : instantiateAll point seen ds = .ok cells) : ∀ v ∈ cells, v.Sound :=
  forall_mem_of_forall₂ ((describes_of_instantiateAll h).imp fun _ _ hv => hv.sound)

theorem valuesAt_range (cells : List (Variable α)) :
    valuesAt (List.range cells.length) ⟨cells.toArray⟩ = cells.map (·.value) := by
  apply List.ext_getElem
  · simp [valuesAt]
  · intro i hi hi'
    have hlt : i < cells.length := by simpa using hi'
    simp [valuesAt, Store.value, Store.read, hlt]

end Cells

namespace Declaration

variable [LawfulScalar α] {d : Declaration α} {point : Point α}

theorem lt_lowOrFree_iff {value : α} :
    value < d.lowOrFree ↔ ∃ low, d.low = some low ∧ value < low := by
  rw [lowOrFree]
  cases d.low with
  | none => exact iff_of_false (not_lt_neg_infinity value) (by simp)
  | some low => simp

theorem highOrFree_lt_iff {value : α} :
    d.highOrFree < value ↔ ∃ high, d.high = some high ∧ high < value := by
  rw [highOrFree]
  cases d.high with
  | none => exact iff_of_false (not_infinity_lt value) (by simp)
  | some high => simp

theorem not_unfit_iff : ¬ d.Unfit point ↔ ∃ value, point.lookup d.name = some value ∧
    ¬ d.highOrFree < d.lowOrFree ∧ isFinite value = true ∧ ¬ value < d.lowOrFree ∧
    ¬ d.highOrFree < value := by
  constructor
  · intro hfit
    cases hvalue : point.lookup d.name with
    | none => exact absurd (.noValue hvalue) hfit
    | some value =>
        refine ⟨value, rfl, fun h => ?_, ?_, fun h => ?_, fun h => ?_⟩
        · obtain ⟨low, hlow, h⟩ := lt_lowOrFree_iff.mp h
          obtain ⟨high, hhigh, h⟩ := highOrFree_lt_iff.mp h
          exact hfit (.crossed hlow hhigh h)
        · exact Bool.eq_true_of_not_eq_false fun h => hfit (.notFinite hvalue h)
        · obtain ⟨low, hlow, h⟩ := lt_lowOrFree_iff.mp h
          exact hfit (.below hvalue hlow h)
        · obtain ⟨high, hhigh, h⟩ := highOrFree_lt_iff.mp h
          exact hfit (.above hvalue hhigh h)
  · rintro ⟨value, hvalue, hordered, hfinite, hlow, hhigh⟩ h
    cases h with
    | noValue h =>
        rw [hvalue] at h
        cases h
    | crossed hl hh h =>
        exact hordered (lt_lowOrFree_iff.mpr ⟨_, hl, highOrFree_lt_iff.mpr ⟨_, hh, h⟩⟩)
    | notFinite hv h =>
        obtain rfl := Option.some.inj (hvalue.symm.trans hv)
        rw [hfinite] at h
        cases h
    | below hv hl h =>
        obtain rfl := Option.some.inj (hvalue.symm.trans hv)
        exact hlow (lt_lowOrFree_iff.mpr ⟨_, hl, h⟩)
    | above hv hh h =>
        obtain rfl := Option.some.inj (hvalue.symm.trans hv)
        exact hhigh (highOrFree_lt_iff.mpr ⟨_, hh, h⟩)

theorem instantiate_decides (d : Declaration α) (point : Point α) :
    Decides BuildFault.IsMistake (d.instantiate point) (¬ d.Unfit point) := by
  rw [instantiate, not_unfit_iff]
  cases point.lookup d.name with
  | none =>
      refine decides_throw ?_ rfl
      rintro ⟨_, h, -⟩
      cases h
  | some value =>
      simp only [Option.some.injEq, exists_eq_left']
      by_cases hcrossed : d.highOrFree < d.lowOrFree
      · rw [if_pos hcrossed]
        exact decides_throw (fun h => h.1 hcrossed) rfl
      by_cases houtside : value < d.lowOrFree ∨ d.highOrFree < value
      · rw [if_neg hcrossed, if_pos houtside]
        exact decides_throw (fun h => houtside.elim h.2.2.1 h.2.2.2) rfl
      obtain ⟨hlow, hhigh⟩ := not_or.mp houtside
      rw [if_neg hcrossed, if_neg houtside]
      cases hfinite : isFinite value with
      | false =>
          have hmake : Variable.make .continuous value d.lowOrFree d.highOrFree =
              .error (.outsideBounds value d.lowOrFree d.highOrFree) := by
            simp [Variable.make, Variable.admits, hcrossed, hfinite, throw, throwThe,
              MonadExceptOf.throw]
          rw [hmake]
          exact decides_throw (fun h => Bool.false_ne_true h.2.1) rfl
      | true =>
          have hmake : Variable.make .continuous value d.lowOrFree d.highOrFree =
              .ok ⟨.continuous, value, d.lowOrFree, d.highOrFree⟩ := by
            simp [Variable.make, Variable.admits, hcrossed, hfinite, hlow, hhigh, pure,
              Except.pure]
          rw [hmake]
          exact decides_pure ⟨hcrossed, rfl, hlow, hhigh⟩

end Declaration

theorem instantiateAll_decides [LawfulScalar α] (point : Point α) (seen : List String)
    (ds : List (Declaration α)) :
    Decides BuildFault.IsMistake (instantiateAll point seen ds)
      ((ds.map (·.name)).Nodup ∧ (∀ name ∈ seen, name ∉ ds.map (·.name)) ∧
        ∀ d ∈ ds, ¬ d.Unfit point) := by
  induction ds generalizing seen with
  | nil => exact decides_pure (by simp)
  | cons d rest ih =>
      rw [instantiateAll]
      by_cases hseen : d.name ∈ seen
      · rw [if_pos hseen]
        exact decides_throw (fun h => h.2.1 _ hseen List.mem_cons_self) rfl
      · rw [if_neg hseen]
        refine ((d.instantiate_decides point).bind fun v _ =>
          (ih (d.name :: seen)).bind (q := True) fun vs _ => decides_pure trivial).congr ?_
        simp only [List.map_cons, List.nodup_cons, List.mem_cons, not_or]
        grind

section Rows

variable {names : List String} {unknown : String → BuildFault α}

theorem addTerms_decides (hunknown : ∀ name, (unknown name).IsMistake) (terms : List (Term α))
    (row : List α) :
    Decides BuildFault.IsMistake (addTerms names unknown terms row)
      (∀ t ∈ terms, t.variableName ∈ names) := by
  induction terms generalizing row with
  | nil => exact decides_pure fun _ h => nomatch h
  | cons t rest ih =>
      rw [addTerms]
      cases hj : names.idxOf? t.variableName with
      | none =>
          rw [List.idxOf?_eq_none_iff] at hj
          exact decides_throw (fun h => hj (h t List.mem_cons_self)) (hunknown _)
      | some j =>
          have hname : t.variableName ∈ names := by
            rw [← List.isSome_idxOf?, hj]
            rfl
          refine (ih _).congr ?_
          rw [List.forall_mem_cons]
          exact (and_iff_right hname).symm

theorem length_of_addTerms {terms : List (Term α)} {start row : List α}
    (h : addTerms names unknown terms start = .ok row) : row.length = start.length := by
  induction terms generalizing start with
  | nil =>
      cases h
      rfl
  | cons t rest ih =>
      rw [addTerms] at h
      cases hj : names.idxOf? t.variableName with
      | none =>
          rw [hj] at h
          cases h
      | some j =>
          rw [hj] at h
          exact (ih h).trans (List.length_modify ..)

theorem denseRow_decides (names : List String) (unknown : String → BuildFault α)
    (hunknown : ∀ name, (unknown name).IsMistake) (terms : List (Term α)) :
    Decides BuildFault.IsMistake (denseRow names unknown terms)
      (∀ t ∈ terms, t.variableName ∈ names) :=
  addTerms_decides hunknown terms _

theorem length_of_denseRow {terms : List (Term α)} {row : List α}
    (h : denseRow names unknown terms = .ok row) : row.length = names.length :=
  (length_of_addTerms h).trans List.length_replicate

end Rows

namespace Problem

variable {p : Problem α} {point : Point α} {a : Assembly α}

theorem toModel_eq {objective : List α} {matrix : List (List α)} {m : Model α}
    (h : p.toModel objective matrix = .ok m) :
    m = ⟨some (List.range p.declarations.length),
      some (Model.assemble matrix p.rightSides (p.constraints.map (·.relation))),
      some ⟨p.sense, objective⟩⟩ := by
  rw [toModel] at h
  obtain ⟨m₁, hcolumns, h⟩ := ok_of_bind h
  obtain ⟨m₂, hobjective, hrows⟩ := ok_of_bind h
  obtain rfl : _ = m₁ := Except.ok.inj hcolumns
  obtain ⟨sense, hsense, rfl⟩ := Model.eq_of_setObjective hobjective
  rw [Sense.ofWord?_word] at hsense
  obtain rfl : p.sense = sense := Option.some.inj hsense
  have hrelations : (p.constraints.map (·.relation.symbol)).filterMap Relation.ofSymbol? =
      p.constraints.map (·.relation) := by
    rw [List.filterMap_map, ← List.filterMap_eq_map]
    congr 1
    funext c
    exact Relation.ofSymbol?_symbol c.relation
  rw [Model.eq_of_setRows hrows, hrelations]

theorem assemble_parts (h : p.assemble point = .ok a) :
    ∃ cells objective matrix, instantiateAll point [] p.declarations = .ok cells ∧
      denseRow p.names .unknownInObjective p.objective.terms = .ok objective ∧
      p.denseConstraints = .ok matrix ∧
      a = ⟨⟨cells.toArray⟩, ⟨some (List.range p.declarations.length),
        some (Model.assemble matrix p.rightSides (p.constraints.map (·.relation))),
        some ⟨p.sense, objective⟩⟩, p.integralColumns⟩ := by
  rw [assemble] at h
  obtain ⟨cells, hcells, h⟩ := ok_of_bind h
  obtain ⟨objective, hobjective, h⟩ := ok_of_bind h
  obtain ⟨matrix, hmatrix, h⟩ := ok_of_bind h
  refine ⟨cells, objective, matrix, hcells, hobjective, hmatrix, ?_⟩
  cases hm : p.toModel objective matrix with
  | error reason =>
      rw [hm] at h
      cases h
  | ok m =>
      rw [hm] at h
      cases h
      rw [toModel_eq hm]

omit [Scalar α] in
theorem pairwise_integralColumns (p : Problem α) : p.integralColumns.Pairwise (· < ·) :=
  List.pairwise_lt_range.filter _

omit [Scalar α] in
theorem mem_integralColumns {j : Nat} : j ∈ p.integralColumns ↔
    ∃ d, p.declarations[j]? = some d ∧ d.isIntegral = true := by
  rw [integralColumns, List.mem_filter, List.mem_range, Option.any_eq_true]
  constructor
  · rintro ⟨-, d, hd⟩
    exact ⟨d, hd⟩
  · rintro ⟨d, hd, hi⟩
    exact ⟨(List.getElem?_eq_some_iff.mp hd).1, d, hd, hi⟩

theorem denseConstraints_decides (p : Problem α) :
    Decides BuildFault.IsMistake p.denseConstraints
      (∀ c ∈ p.constraints, ∀ t ∈ c.left.terms, t.variableName ∈ p.names) :=
  decides_mapM fun c _ =>
    denseRow_decides p.names (.unknownInConstraint c.name) (fun _ => rfl) c.left.terms

theorem toModel_decides {objective : List α} {matrix : List (List α)}
    (hobjective : objective.length = p.names.length)
    (hmatrix : List.Forall₂ (fun _ row => row.length = p.names.length) p.constraints matrix) :
    Decides (fun _ => True) (p.toModel objective matrix) (p.constraints ≠ []) := by
  have hcolumns : Model.TakesColumns ({} : Model α) (List.range p.declarations.length) :=
    ⟨fun _ h => (nomatch h), fun _ _ h => nomatch h⟩
  refine Decides.congr ((Model.setColumns_decides {} _).bind (q := p.constraints ≠ [])
    fun m₁ h₁ => ?_) (and_iff_right hcolumns)
  obtain rfl := Model.eq_of_setColumns h₁
  refine Decides.congr ((Model.setObjective_decides _ _ _).bind (q := p.constraints ≠ [])
    fun m₂ h₂ => ?_) (and_iff_right ⟨⟨p.sense, rfl⟩, fun columns h => ?_⟩)
  · obtain ⟨sense, -, rfl⟩ := Model.eq_of_setObjective h₂
    refine (Model.setRows_decides _ _ _ _).congr ⟨?_, fun hsome => ?_⟩
    · rintro ⟨-, -, hrows, -⟩ hnone
      rw [← hmatrix.length_eq, hnone] at hrows
      cases hrows
    · refine ⟨_, rfl, ?_, fun row hrow => ?_, ?_, ?_, fun s hs => ?_⟩
      · rw [← hmatrix.length_eq]
        exact List.length_pos_iff.mpr hsome
      · rw [List.length_range, forall_mem_of_forall₂ hmatrix row hrow, names, List.length_map]
      · rw [rightSides, List.length_map, hmatrix.length_eq]
      · rw [List.length_map, hmatrix.length_eq]
      · obtain ⟨c, -, rfl⟩ := List.mem_map.mp hs
        exact ⟨c.relation, rfl⟩
  · cases h
    rw [hobjective, names, List.length_map, List.length_range]

theorem not_unfit_iff : ¬ p.Unfit point ↔ p.names.Nodup ∧ (∀ d ∈ p.declarations, ¬ d.Unfit point) ∧
    (∀ t ∈ p.objective.terms, t.variableName ∈ p.names) ∧
    (∀ c ∈ p.constraints, ∀ t ∈ c.left.terms, t.variableName ∈ p.names) ∧ p.constraints ≠ [] := by
  constructor
  · intro h
    refine ⟨?_, fun d hd hunfit => h (.declaration hd hunfit), fun t ht => ?_, fun c hc t ht => ?_,
      fun hnone => h (.noConstraints hnone)⟩
    · exact not_not.mp fun hn => h (.sharedName hn)
    · exact not_not.mp fun hn => h (.unknownInObjective ht hn)
    · exact not_not.mp fun hn => h (.unknownInConstraint hc ht hn)
  · rintro ⟨hnames, hdeclarations, hobjective, hconstraints, hsome⟩ h
    cases h with
    | sharedName h => exact h hnames
    | declaration hd h => exact hdeclarations _ hd h
    | unknownInObjective ht h => exact h (hobjective _ ht)
    | unknownInConstraint hc ht h => exact h (hconstraints _ hc _ ht)
    | noConstraints h => exact hsome h

/-- A problem is assembled at every point that it is not unfit for, and what keeps it from that is a
mistake in what was given. -/
theorem assemble_decides [LawfulScalar α] (p : Problem α) (point : Point α) :
    Decides BuildFault.IsMistake (p.assemble point) (¬ p.Unfit point) := by
  have hcosts := denseRow_decides p.names .unknownInObjective (fun _ => rfl) p.objective.terms
  -- one stage after the other; of the results of the others, the last one needs the lengths only
  refine Decides.congr ((instantiateAll_decides point [] p.declarations).bind fun cells _ =>
    hcosts.bind fun objective hobjective =>
      p.denseConstraints_decides.bind (q := p.constraints ≠ []) fun matrix hmatrix => ?_) ?_
  · have hrows := (forall₂_of_mapM hmatrix).imp fun _ _ h => length_of_denseRow h
    rcases toModel_decides (length_of_denseRow hobjective) hrows with
      ⟨hsome, m, hm⟩ | ⟨hnone, reason, hreason, -⟩
    · rw [hm]
      exact decides_pure hsome
    · rw [hreason]
      exact decides_throw hnone rfl
  · rw [not_unfit_iff]
    simp only [List.not_mem_nil, false_implies, implies_true, true_and, and_assoc]
    rfl

end Problem

end MilpRounding
