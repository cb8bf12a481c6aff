import Mathlib.Tactic.Common
import MilpRounding.Linear.Polarity
import MilpRounding.Linear.Update

namespace MilpRounding

section Except

variable {ε β γ : Type} {x : Except ε β} {f : β → Except ε γ}

theorem ok_of_bind {c : γ} (h : (x >>= f) = .ok c) : ∃ b, x = .ok b ∧ f b = .ok c := by
  cases x with
  | error e => cases h
  | ok b => exact ⟨b, rfl, h⟩

theorem ok_of_toBool (h : x.toBool = true) : ∃ b, x = .ok b := by
  cases x with
  | error e => cases h
  | ok b => exact ⟨b, rfl⟩

/-- Succeeds just if something holds, and fails with an error of some sort otherwise. -/
def Decides (sort : ε → Prop) (x : Except ε β) (p : Prop) : Prop :=
  (p ∧ ∃ b, x = .ok b) ∨ (¬ p ∧ ∃ e, x = .error e ∧ sort e)

variable {sort : ε → Prop} {p q : Prop}

theorem Decides.ok_iff (h : Decides sort x p) : (∃ b, x = .ok b) ↔ p := by
  rcases h with ⟨hp, hx⟩ | ⟨hp, e, rfl, -⟩
  · exact iff_of_true hx hp
  · exact iff_of_false (fun ⟨b, hb⟩ => nomatch hb) hp

theorem Decides.error_iff (h : Decides sort x p) : (∃ e, x = .error e ∧ sort e) ↔ ¬ p := by
  rcases h with ⟨hp, b, rfl⟩ | ⟨hp, hx⟩
  · exact iff_of_false (fun ⟨e, he, _⟩ => nomatch he) (not_not.mpr hp)
  · exact iff_of_true hx hp

theorem Decides.congr (h : Decides sort x p) (hpq : p ↔ q) : Decides sort x q := by
  rwa [propext hpq] at h

theorem decides_pure {b : β} (hp : p) : Decides sort (pure b) p := .inl ⟨hp, b, rfl⟩

theorem decides_throw {e : ε} (hp : ¬ p) (hs : sort e) :
    Decides sort (throw e : Except ε β) p := .inr ⟨hp, e, rfl, hs⟩

theorem Decides.bind (hx : Decides sort x p) (hf : ∀ b, x = .ok b → Decides sort (f b) q) :
    Decides sort (x >>= f) (p ∧ q) := by
  rcases hx with ⟨hp, b, rfl⟩ | ⟨hp, e, rfl, hs⟩
  · exact (hf b rfl).congr (and_iff_right hp).symm
  · exact .inr ⟨fun h => hp h.1, e, rfl, hs⟩

theorem decides_mapM {f : β → Except ε γ} {p : β → Prop} {xs : List β}
    (h : ∀ x ∈ xs, Decides sort (f x) (p x)) : Decides sort (xs.mapM f) (∀ x ∈ xs, p x) := by
  induction xs with
  | nil => exact decides_pure fun x hx => nomatch hx
  | cons x xs ih =>
      rw [List.mapM_cons]
      refine Decides.congr ((h x List.mem_cons_self).bind fun y _ => ?_) List.forall_mem_cons.symm
      refine Decides.congr ((ih fun z hz => h z (List.mem_cons_of_mem x hz)).bind (q := True)
        fun ys _ => decides_pure trivial) (iff_of_eq (and_true _))

end Except

theorem Relation.ofSymbol?_eq_some_iff {s : String} {r : Relation} :
    ofSymbol? s = some r ↔ r.symbol = s := by
  constructor
  · intro h
    simp only [ofSymbol?] at h
    cases r <;> grind [Relation.symbol]
  · rintro rfl
    exact ofSymbol?_symbol r

theorem Sense.ofWord?_eq_some_iff {s : String} {sense : Sense} :
    ofWord? s = some sense ↔ sense.word = s := by
  constructor
  · intro h
    simp only [ofWord?] at h
    cases sense <;> grind [Sense.word]
  · rintro rfl
    exact ofWord?_word sense

namespace Model

variable {α : Type} {m m' : Model α}

/-- Columns fit the columns that they replace, or else the objective. -/
def TakesColumns (m : Model α) (columns : List Ref) : Prop :=
  (∀ current, m.columns = some current → columns.length = current.length) ∧
    (m.columns = none → ∀ o, m.objective = some o → o.coefficients.length = columns.length)

def TakesRows (m : Model α) (matrix : List (List α)) (rhs : List α) (symbols : List String) :
    Prop :=
  ∃ columns, m.columns = some columns ∧ 1 ≤ matrix.length ∧
    (∀ row ∈ matrix, row.length = columns.length) ∧ rhs.length = matrix.length ∧
    symbols.length = matrix.length ∧ ∀ s ∈ symbols, ∃ r : Relation, r.symbol = s

def TakesObjective (m : Model α) (word : String) (coefficients : List α) : Prop :=
  (∃ sense : Sense, sense.word = word) ∧
    ∀ columns, m.columns = some columns → coefficients.length = columns.length

theorem setColumns_decides (m : Model α) (columns : List Ref) :
    Decides (fun _ => True) (m.setColumns columns) (m.TakesColumns columns) := by
  rw [setColumns, TakesColumns]
  cases m.columns with
  | some current =>
      simp only [Option.some.injEq, forall_eq', reduceCtorEq, false_implies, and_true]
      split
      next h => exact decides_pure h
      next h => exact decides_throw h trivial
  | none =>
      cases m.objective with
      | none => exact decides_pure ⟨fun _ h => (nomatch h), fun _ _ h => nomatch h⟩
      | some o =>
          simp only [Option.some.injEq, forall_eq', reduceCtorEq, false_implies, implies_true,
            true_and, forall_const]
          split
          next h => exact decides_pure h
          next h => exact decides_throw h trivial

theorem setObjective_decides (m : Model α) (word : String) (coefficients : List α) :
    Decides (fun _ => True) (m.setObjective word coefficients)
      (m.TakesObjective word coefficients) := by
  simp only [setObjective, TakesObjective, ← Sense.ofWord?_eq_some_iff]
  cases Sense.ofWord? word with
  | none => exact decides_throw (fun ⟨⟨_, h⟩, _⟩ => nomatch h) trivial
  | some sense =>
      cases m.columns with
      | none => exact decides_pure ⟨⟨sense, rfl⟩, fun _ h => nomatch h⟩
      | some columns =>
          simp only [Option.some.injEq, exists_eq', forall_eq', true_and]
          split
          next h => exact decides_pure h
          next h => exact decides_throw h trivial

theorem badRow?_eq_none_iff {n : Nat} {matrix : List (List α)} :
    badRow? n matrix = none ↔ ∀ row ∈ matrix, row.length = n := by
  simp only [badRow?, Option.map_eq_none_iff, ← List.find?_eq_getElem?_findIdx, List.find?_eq_none,
    decide_eq_true_eq, not_not]

theorem badSymbol?_eq_none_iff {symbols : List String} :
    badSymbol? symbols = none ↔ ∀ s ∈ symbols, ∃ r : Relation, r.symbol = s := by
  simp only [badSymbol?, List.find?_eq_none, Option.isNone_iff_eq_none, ← Option.ne_none_iff_exists',
    ← Relation.ofSymbol?_eq_some_iff, ne_eq]

theorem setRows_decides (m : Model α) (matrix : List (List α)) (rhs : List α)
    (symbols : List String) :
    Decides (fun _ => True) (m.setRows matrix rhs symbols) (m.TakesRows matrix rhs symbols) := by
  rw [setRows, TakesRows]
  cases m.columns with
  | none => exact decides_throw (fun ⟨_, h, _⟩ => nomatch h) trivial
  | some columns =>
      simp only [Option.some.injEq, exists_eq_left', ← badRow?_eq_none_iff, ← badSymbol?_eq_none_iff,
        Nat.one_le_iff_ne_zero]
      split
      next h => exact decides_throw (fun hrows => hrows.1 h) trivial
      next h =>
        cases badRow? columns.length matrix with
        | some i => exact decides_throw (fun hrows => nomatch hrows.2.1) trivial
        | none =>
            simp only
            split
            next hr => exact decides_throw (fun hrows => hr hrows.2.2.1) trivial
            next hr =>
              split
              next hs => exact decides_throw (fun hrows => hs hrows.2.2.2.1) trivial
              next hs =>
                cases badSymbol? symbols with
                | some s => exact decides_throw (fun hrows => nomatch hrows.2.2.2.2) trivial
                | none => exact decides_pure ⟨h, trivial, not_not.mp hr, not_not.mp hs, rfl⟩

theorem eq_of_setColumns {columns : List Ref} (h : m.setColumns columns = .ok m') :
    m' = { m with columns := some columns } := by
  simp only [setColumns, throw, throwThe, MonadExceptOf.throw, pure, Except.pure] at h
  grind

theorem eq_of_setObjective {word : String} {coefficients : List α}
    (h : m.setObjective word coefficients = .ok m') :
    ∃ sense, Sense.ofWord? word = some sense ∧
      m' = { m with objective := some ⟨sense, coefficients⟩ } := by
  simp only [setObjective, throw, throwThe, MonadExceptOf.throw, pure, Except.pure] at h
  grind

theorem eq_of_setRows {matrix : List (List α)} {rhs : List α} {symbols : List String}
    (h : m.setRows matrix rhs symbols = .ok m') :
    m' = { m with rows := some (assemble matrix rhs (symbols.filterMap Relation.ofSymbol?)) } := by
  simp only [setRows, throw, throwThe, MonadExceptOf.throw, pure, Except.pure] at h
  grind

theorem assemble_spec {matrix : List (List α)} {rhs : List α} {relations : List Relation}
    (hr : rhs.length = matrix.length) (hs : relations.length = matrix.length) :
    (assemble matrix rhs relations).map (·.coefficients) = matrix ∧
      (assemble matrix rhs relations).map (·.rhs) = rhs ∧
      (assemble matrix rhs relations).map (·.relation) = relations := by
  induction matrix generalizing rhs relations with
  | nil =>
      obtain rfl := List.length_eq_zero_iff.mp hr
      obtain rfl := List.length_eq_zero_iff.mp hs
      exact ⟨rfl, rfl, rfl⟩
  | cons row matrix ih =>
      obtain ⟨b, rhs, rfl⟩ := List.exists_cons_of_length_eq_add_one hr
      obtain ⟨r, relations, rfl⟩ := List.exists_cons_of_length_eq_add_one hs
      obtain ⟨hcoefficients, hrhs, hrelations⟩ := ih (Nat.succ.inj hr) (Nat.succ.inj hs)
      simp only [assemble, List.zipWith_cons_cons, List.map_cons] at hcoefficients hrhs hrelations ⊢
      exact ⟨congrArg _ hcoefficients, congrArg _ hrhs, congrArg _ hrelations⟩

theorem map_symbol_filterMap {symbols : List String}
    (h : ∀ s ∈ symbols, ∃ r : Relation, r.symbol = s) :
    (symbols.filterMap Relation.ofSymbol?).map Relation.symbol = symbols := by
  induction symbols with
  | nil => rfl
  | cons s rest ih =>
      obtain ⟨r, rfl⟩ := h s List.mem_cons_self
      rw [List.filterMap_cons, Relation.ofSymbol?_symbol, List.map_cons,
        ih fun t ht => h t (List.mem_cons_of_mem _ ht)]

theorem rows_of_setRows {matrix : List (List α)} {rhs : List α} {symbols : List String}
    (h : m.setRows matrix rhs symbols = .ok m') :
    ∃ rows, m' = { m with rows := some rows } ∧ rows.map (·.coefficients) = matrix ∧
      rows.map (·.rhs) = rhs ∧ rows.map (·.relation.symbol) = symbols := by
  obtain ⟨columns, -, -, -, hr, hs, hsymbols⟩ :=
    (m.setRows_decides matrix rhs symbols).ok_iff.mp ⟨_, h⟩
  have hread := map_symbol_filterMap hsymbols
  have hlength : (symbols.filterMap Relation.ofSymbol?).length = matrix.length := by
    rw [← hs, ← congrArg List.length hread, List.length_map]
  obtain ⟨hcoefficients, hrhs, hrelations⟩ := assemble_spec hr hlength
  refine ⟨_, eq_of_setRows h, hcoefficients, hrhs, ?_⟩
  rw [← hrelations, List.map_map] at hread
  exact hread

theorem eq_of_orient [Scalar α] {target : Relation} {flipped : List Nat}
    (h : m.orient target = .ok (m', flipped)) :
    m' = { m with rows := m.rows.map (List.map (Row.toward target)) } := by
  rw [orient] at h
  split at h
  next => cases h
  next =>
    obtain ⟨rows, hrows, h⟩ := ok_of_bind h
    cases h
    rw [requireRows] at hrows
    cases hm : m.rows with
    | none =>
        rw [hm] at hrows
        cases hrows
    | some rows' =>
        rw [hm] at hrows
        cases hrows
        rfl

/-- Rows are set on columns only, there is at least one, and each has an entry for every column, as
the objective has. Right-hand sides and relations are parts of the rows, and the sense is one of the
objective. -/
structure Shaped (m : Model α) : Prop where
  rows : ∀ rows, m.rows = some rows → ∃ columns, m.columns = some columns ∧ 1 ≤ rows.length ∧
    ∀ row ∈ rows, row.coefficients.length = columns.length
  objective : ∀ columns o, m.columns = some columns → m.objective = some o →
    o.coefficients.length = columns.length

namespace Shaped

theorem empty : ({} : Model α).Shaped := ⟨fun _ h => (nomatch h), fun _ _ h => nomatch h⟩

theorem setColumns (hm : m.Shaped) {columns : List Ref} (h : m.setColumns columns = .ok m') :
    m'.Shaped := by
  obtain ⟨hsame, hobjective⟩ := (m.setColumns_decides columns).ok_iff.mp ⟨_, h⟩
  rw [eq_of_setColumns h]
  refine ⟨fun rows hrows => ?_, fun columns' o hc ho => ?_⟩
  · obtain ⟨current, hc, hsome, hlength⟩ := hm.rows rows hrows
    exact ⟨columns, rfl, hsome, fun row hrow => (hlength row hrow).trans (hsame current hc).symm⟩
  · obtain rfl := Option.some.inj hc
    cases hcurrent : m.columns with
    | none => exact hobjective hcurrent o ho
    | some current => exact (hm.objective current o hcurrent ho).trans (hsame current hcurrent).symm

theorem setObjective (hm : m.Shaped) {word : String} {coefficients : List α}
    (h : m.setObjective word coefficients = .ok m') : m'.Shaped := by
  obtain ⟨-, hlength⟩ := (m.setObjective_decides word coefficients).ok_iff.mp ⟨_, h⟩
  obtain ⟨sense, -, rfl⟩ := eq_of_setObjective h
  refine ⟨hm.rows, fun columns o hc ho => ?_⟩
  obtain rfl := Option.some.inj ho
  exact hlength columns hc

theorem setRows (hm : m.Shaped) {matrix : List (List α)} {rhs : List α} {symbols : List String}
    (h : m.setRows matrix rhs symbols = .ok m') : m'.Shaped := by
  obtain ⟨columns, hc, hsome, hlength, -⟩ := (m.setRows_decides matrix rhs symbols).ok_iff.mp ⟨_, h⟩
  obtain ⟨rows, rfl, hmatrix, -, -⟩ := rows_of_setRows h
  refine ⟨fun rows' hrows => ⟨columns, hc, ?_, fun row hrow => ?_⟩, hm.objective⟩
  · obtain rfl := Option.some.inj hrows
    rwa [← hmatrix, List.length_map] at hsome
  · obtain rfl := Option.some.inj hrows
    exact hlength _ (hmatrix ▸ List.mem_map_of_mem hrow)

theorem mapRows (hm : m.Shaped) {f : Row α → Row α}
    (hf : ∀ r, (f r).coefficients.length = r.coefficients.length) :
    ({ m with rows := m.rows.map (List.map f) } : Model α).Shaped := by
  refine ⟨fun rows' hrows' => ?_, hm.objective⟩
  obtain ⟨rows, hrows, rfl⟩ := Option.map_eq_some_iff.mp hrows'
  obtain ⟨columns, hc, hsome, hlength⟩ := hm.rows rows hrows
  refine ⟨columns, hc, by rwa [List.length_map], fun row hrow => ?_⟩
  obtain ⟨r, hr, rfl⟩ := List.mem_map.mp hrow
  exact (hf r).trans (hlength r hr)

theorem toward [Scalar α] (hm : m.Shaped) (target : Relation) :
    ({ m with rows := m.rows.map (List.map (Row.toward target)) } : Model α).Shaped := by
  refine hm.mapRows fun r => ?_
  rw [Row.toward]
  split
  next => exact List.length_map _
  next => rfl

end Shaped

end Model

end MilpRounding
