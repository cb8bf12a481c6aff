import MilpRounding.Linear.Polarity
import MilpRounding.Proofs.LawfulScalar

namespace MilpRounding

open Scalar

variable {α : Type} [Scalar α]

namespace Relation

def Opposite (r target : Relation) : Prop :=
  (r.isAbove = true ∧ target.isBelow = true) ∨ (r.isBelow = true ∧ target.isAbove = true)

theorem opposes_iff {r target : Relation} (ht : target ≠ .eq) :
    r.opposes target = true ↔ r.Opposite target := by
  cases r <;> cases target <;> simp_all [opposes, Opposite, isBelow, isAbove]

/-- An inequality opposes a target just where its converse does not. -/
theorem opposes_converse {r : Relation} (hr : r ≠ .eq) (target : Relation) :
    r.converse.opposes target = !r.opposes target := by
  cases r with
  | eq => exact absurd rfl hr
  | lt | le | ge | gt => cases target <;> rfl

theorem opposes_le (r : Relation) : r.opposes .le = r.isAbove := by cases r <;> rfl

theorem converse_ne_eq {r : Relation} (h : r ≠ .eq) : r.converse ≠ .eq := by
  cases r with
  | eq => exact absurd rfl h
  | lt | le | ge | gt => decide

theorem isBelow_converse {r : Relation} (h : r ≠ .eq) : r.converse.isBelow = !r.isBelow := by
  cases r with
  | eq => exact absurd rfl h
  | lt | le | ge | gt => rfl

theorem eq_or_isBelow {r : Relation} (h : r.isAbove = false) : r = .eq ∨ r.isBelow = true := by
  cases r <;> simp_all [isAbove, isBelow]

theorem ne_eq_of_isBelow {r : Relation} (h : r.isBelow = true) : r ≠ .eq := by
  rintro rfl
  cases h

theorem ne_eq_of_opposes {r target : Relation} (h : r.opposes target = true) : r ≠ .eq := by
  rintro rfl
  cases h

end Relation

namespace Row

variable {r : Row α} {target : Relation}

theorem toward_of_opposes (h : r.relation.opposes target = true) : r.toward target = r.negated :=
  if_pos h

theorem toward_of_not_opposes (h : r.relation.opposes target = false) : r.toward target = r := by
  rw [toward, h]
  rfl

theorem opposes_negated (h : r.relation ≠ .eq) :
    r.negated.relation.opposes target = !r.relation.opposes target :=
  Relation.opposes_converse h target

theorem opposes_toward (r : Row α) (target : Relation) :
    (r.toward target).relation.opposes target = false := by
  cases h : r.relation.opposes target with
  | true =>
      rw [toward_of_opposes h, opposes_negated (Relation.ne_eq_of_opposes h), h]
      rfl
  | false => rw [toward_of_not_opposes h, h]

theorem toward_toward (r : Row α) (target : Relation) :
    (r.toward target).toward target = r.toward target :=
  toward_of_not_opposes (r.opposes_toward target)

theorem toward_of_not_isAbove (h : r.relation.isAbove = false) : r.toward .le = r :=
  toward_of_not_opposes (r.relation.opposes_le.trans h)

theorem isAbove_toward_le (r : Row α) : (r.toward .le).relation.isAbove = false := by
  rw [← Relation.opposes_le]
  exact r.opposes_toward .le

theorem relation_toward_le (r : Row α) :
    (r.toward .le).relation = .eq ∨ (r.toward .le).relation.isBelow = true :=
  Relation.eq_or_isBelow r.isAbove_toward_le

theorem relation_toward_ne (h : r.relation ≠ .eq) (target : Relation) :
    (r.toward target).relation ≠ .eq := by
  rw [toward]
  split
  · exact Relation.converse_ne_eq h
  · exact h

theorem isStrict_toward (r : Row α) (target : Relation) :
    (r.toward target).relation.isStrict = r.relation.isStrict := by
  rw [toward]
  split
  · exact r.relation.isStrict_converse
  · rfl

theorem negated_negated [InvolutiveScalar α] (r : Row α) : r.negated.negated = r := by
  simp only [negated, map_neg_neg, Relation.converse_converse, InvolutiveScalar.neg_neg]

/-- An inequality that is negated is turned to where it would have been turned. -/
theorem toward_negated [InvolutiveScalar α] (h : r.relation ≠ .eq) :
    r.negated.toward target = r.toward target := by
  have hback : r.negated.relation.opposes target = !r.relation.opposes target := opposes_negated h
  cases ho : r.relation.opposes target with
  | true =>
      rw [ho] at hback
      rw [toward_of_opposes ho, toward_of_not_opposes hback]
  | false =>
      rw [ho] at hback
      rw [toward_of_not_opposes ho, toward_of_opposes hback, negated_negated]

theorem toward_of_toward [InvolutiveScalar α] (r : Row α) (first last : Relation) :
    (r.toward first).toward last = r.toward last := by
  cases h : r.relation.opposes first with
  | true => rw [toward_of_opposes h, toward_negated (Relation.ne_eq_of_opposes h)]
  | false => rw [toward_of_not_opposes h]

/-- An inequality written the other way, and an equation as it stands. -/
def turned (r : Row α) : Row α :=
  match r.relation with
  | .lt => ⟨r.coefficients.map (-·), .gt, -r.rhs⟩
  | .le => ⟨r.coefficients.map (-·), .ge, -r.rhs⟩
  | .eq => r
  | .ge => ⟨r.coefficients.map (-·), .le, -r.rhs⟩
  | .gt => ⟨r.coefficients.map (-·), .lt, -r.rhs⟩

theorem turned_of_eq (h : r.relation = .eq) : r.turned = r := by
  rw [turned, h]

theorem turned_of_ne (h : r.relation ≠ .eq) : r.turned = r.negated := by
  obtain ⟨coefficients, relation, rhs⟩ := r
  cases relation with
  | eq => exact absurd rfl h
  | lt | le | ge | gt => rfl

theorem toward_turned [InvolutiveScalar α] (r : Row α) (target : Relation) :
    r.turned.toward target = r.toward target := by
  by_cases h : r.relation = .eq
  · rw [turned_of_eq h]
  · rw [turned_of_ne h, toward_negated h]

end Row

end MilpRounding
