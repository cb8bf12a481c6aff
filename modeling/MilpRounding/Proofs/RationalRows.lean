import MilpRounding.Linear.Polarity
import MilpRounding.Proofs.SoundStore
import MilpRounding.Rounding.Step

namespace MilpRounding

open Scalar

/-- The rational number that a finite number is; zero for the others. -/
def Exact.toRat : Exact → ℚ
  | .finite q => q
  | _ => 0

theorem Exact.eq_finite {a : Exact} (h : isFinite a = true) : a = .finite a.toRat := by
  obtain ⟨q, rfl⟩ := Exact.isFinite_iff.mp h
  rfl

def form (a x : List ℚ) : ℚ := (List.zipWith (· * ·) a x).sum

@[simp] theorem form_nil (x : List ℚ) : form [] x = 0 := rfl

@[simp] theorem form_cons (p : ℚ) (a : List ℚ) (q : ℚ) (x : List ℚ) :
    form (p :: a) (q :: x) = p * q + form a x := by
  simp [form]

theorem form_comm (a x : List ℚ) : form a x = form x a := by
  rw [form, form, List.zipWith_comm_of_comm mul_comm]

theorem form_replicate_zero (a : List ℚ) (n : Nat) : form a (List.replicate n 0) = 0 := by
  induction a generalizing n with
  | nil => rfl
  | cons p a ih =>
      cases n with
      | zero => simp [form]
      | succ n => simp [List.replicate_succ, ih]

theorem form_set (a : List ℚ) {x : List ℚ} {j : Nat} (hj : j < x.length) (v : ℚ) :
    form a (x.set j v) = form a x + a.getD j 0 * (v - x.getD j 0) := by
  induction a generalizing x j with
  | nil => simp
  | cons p a ih =>
      cases x with
      | nil => simp at hj
      | cons q x =>
          cases j with
          | zero =>
              simp
              ring
          | succ j =>
              have h := ih (show j < x.length by simpa using hj)
              simp [h]
              ring

theorem form_neg (a x : List ℚ) : form (a.map (-·)) x = -form a x := by
  induction a generalizing x with
  | nil => simp
  | cons p a ih =>
      cases x with
      | nil => simp [form]
      | cons q x =>
          simp [ih]
          ring

theorem form_congr {a x z : List ℚ} (hlength : x.length = z.length)
    (h : ∀ k, a.getD k 0 = 0 ∨ x.getD k 0 = z.getD k 0) : form a x = form a z := by
  induction a generalizing x z with
  | nil => rfl
  | cons p a ih =>
      cases x with
      | nil =>
          rw [List.length_eq_zero_iff.mp hlength.symm]
      | cons q x =>
          cases z with
          | nil => simp at hlength
          | cons r z =>
              have hrest := ih (Nat.succ.inj hlength) fun k => by simpa using h (k + 1)
              have hhead : p * q = p * r := by
                rcases h 0 with hp | hq
                · rw [show p = 0 by simpa using hp, zero_mul, zero_mul]
                · rw [show q = r by simpa using hq]
              rw [form_cons, form_cons, hrest, hhead]

theorem foldl_add_finite (q : ℚ) (x : List ℚ) :
    (x.map Exact.finite).foldl (· + ·) (.finite q) = .finite (q + x.sum) := by
  induction x generalizing q with
  | nil => simp
  | cons p x ih =>
      rw [List.map_cons, List.foldl_cons, Exact.finite_add_finite, ih, List.sum_cons, add_assoc]

theorem dot_finite (a x : List ℚ) :
    dot (a.map Exact.finite) (x.map Exact.finite) = .finite (form a x) := by
  have h : List.zipWith (· * ·) (a.map Exact.finite) (x.map Exact.finite) =
      (List.zipWith (· * ·) a x).map Exact.finite := by
    rw [List.map_zipWith, List.zipWith_map]
    rfl
  rw [dot, h, Exact.zero_eq, foldl_add_finite, zero_add, form]

theorem map_toRat_map_finite {l : List Exact} (h : ∀ a ∈ l, isFinite a = true) :
    (l.map Exact.toRat).map Exact.finite = l := by
  rw [List.map_map]
  exact (List.map_congr_left fun a ha => (Exact.eq_finite (h a ha)).symm).trans (List.map_id l)

theorem getD_map_finite (l : List ℚ) (j : Nat) :
    (l.map Exact.finite).getD j 0 = .finite (l.getD j 0) := by
  rw [List.getD_eq_getElem?_getD, List.getD_eq_getElem?_getD, List.getElem?_map]
  cases l[j]? <;> rfl

namespace Row

variable {r : Row Exact}

structure Rational (r : Row Exact) : Prop where
  coefficients : ∀ a ∈ r.coefficients, isFinite a = true
  rhs : isFinite r.rhs = true

instance (r : Row Exact) : Decidable r.Rational :=
  decidable_of_iff ((∀ a ∈ r.coefficients, isFinite a = true) ∧ isFinite r.rhs = true)
    ⟨fun h => ⟨h.1, h.2⟩, fun h => ⟨h.1, h.2⟩⟩

def weights (r : Row Exact) : List ℚ := r.coefficients.map Exact.toRat

/-- What the row leaves at a point; a row that is written the other way leaves the same. -/
def room (r : Row Exact) (x : List ℚ) : ℚ :=
  if r.relation = .eq then 0
  else if r.relation.isBelow then r.rhs.toRat - form r.weights x
  else form r.weights x - r.rhs.toRat

theorem Rational.coefficients_eq (h : r.Rational) :
    r.coefficients = r.weights.map Exact.finite :=
  (map_toRat_map_finite h.coefficients).symm

theorem Rational.left_eq (h : r.Rational) (x : List ℚ) :
    r.left (x.map Exact.finite) = .finite (form r.weights x) := by
  rw [left, h.coefficients_eq, dot_finite]

theorem Rational.slack_eq (h : r.Rational) (x : List ℚ) :
    r.slack (x.map Exact.finite) = .finite (r.room x) := by
  rw [slack, room]
  rw [h.left_eq, Exact.eq_finite h.rhs]
  split
  · rfl
  · split <;> rw [Exact.finite_sub_finite] <;> rfl

theorem Rational.entry_eq (h : r.Rational) (j : Nat) :
    Tableau.entry r j = .finite (r.weights.getD j 0) := by
  rw [Tableau.entry, h.coefficients_eq, getD_map_finite]

theorem Rational.negated (h : r.Rational) : r.negated.Rational := by
  constructor
  · intro a ha
    obtain ⟨b, hb, rfl⟩ := List.mem_map.mp ha
    rw [Exact.eq_finite (h.coefficients b hb)]
    rfl
  · change isFinite (-r.rhs) = true
    rw [Exact.eq_finite h.rhs]
    rfl

theorem Rational.toward (h : r.Rational) (target : Relation) : (r.toward target).Rational := by
  rw [Row.toward]
  split
  · exact h.negated
  · exact h

theorem weights_negated (h : r.Rational) : r.negated.weights = r.weights.map (-·) := by
  rw [weights, Row.negated, weights, List.map_map, List.map_map]
  refine List.map_congr_left fun a ha => ?_
  obtain ⟨q, rfl⟩ := Exact.isFinite_iff.mp (h.coefficients a ha)
  rfl

theorem room_negated (h : r.Rational) (hr : r.relation ≠ .eq) (x : List ℚ) :
    r.negated.room x = r.room x := by
  have hb : r.negated.rhs.toRat = -r.rhs.toRat := by
    rw [show r.negated.rhs = -r.rhs from rfl, Exact.eq_finite h.rhs]
    rfl
  simp only [room, weights_negated h, form_neg, hb]
  cases hrel : r.relation <;> simp_all [Row.negated, Relation.converse, Relation.isBelow]
  all_goals ring

theorem room_congr {x z : List ℚ} (h : form r.weights x = form r.weights z) :
    r.room x = r.room z := by
  rw [room, room, h]

theorem room_toward (h : r.Rational) (target : Relation) (x : List ℚ) :
    (r.toward target).room x = r.room x := by
  rw [Row.toward]
  split
  next ho => exact room_negated h (by rintro he; simp [Relation.opposes, he] at ho) x
  next => rfl

end Row

def point (columns : List Ref) (s : Store Exact) : List ℚ :=
  columns.map fun r => (s.value r).toRat

@[simp] theorem length_point (columns : List Ref) (s : Store Exact) :
    (point columns s).length = columns.length := List.length_map _

theorem valuesAt_eq {s : Store Exact} (hs : s.Sound) (columns : List Ref) :
    valuesAt columns s = (point columns s).map Exact.finite := by
  rw [valuesAt, point, List.map_map]
  refine List.map_congr_left fun r _ => ?_
  exact Exact.eq_finite (Variable.admits_iff.mp (hs r).admitted).1

theorem getD_point {columns : List Ref} {j : Nat} (hj : j < columns.length) (s : Store Exact) :
    (point columns s).getD j 0 = (s.value (columns.getD j 0)).toRat := by
  simp [point, hj]

/-- A write to a column of its own changes one coordinate. -/
theorem point_write {columns : List Ref} (hn : columns.Nodup) {j : Nat} (hj : j < columns.length)
    {s : Store Exact} (hr : columns.getD j 0 < s.size) (v : Variable Exact) :
    point columns (s.write (columns.getD j 0) v) = (point columns s).set j v.value.toRat := by
  have hcolumn : columns.getD j 0 = columns[j] := by simp [hj]
  apply List.ext_getElem
  · simp
  · intro i hi _
    have hi' : i < columns.length := by simpa using hi
    rw [List.getElem_set]
    simp only [point, List.getElem_map, Store.value, Store.read_write]
    by_cases hij : j = i
    · subst hij
      simp [hj] at hr ⊢
      simp [hr]
    · rw [if_neg hij, if_neg]
      rintro ⟨h, -⟩
      exact hij ((List.getElem_inj hn).mp (hcolumn.symm.trans h))

end MilpRounding
