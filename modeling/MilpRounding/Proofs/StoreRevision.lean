import Mathlib.Logic.Relation
import MilpRounding.Proofs.SoundStore
import MilpRounding.Rounding.Step

namespace MilpRounding

open Scalar

variable {α : Type} [Scalar α]

namespace Variable

theorem eq_of_withValue {v w : Variable α} {value : α} (h : v.withValue value = .ok w) :
    w = { v with value := value } := by
  rw [withValue] at h
  split at h
  next => cases h
  next =>
    split at h
    next =>
      cases h
      rfl
    next => cases h

theorem eq_of_withKind {v w : Variable α} {kind : Kind} (h : v.withKind kind = .ok w) :
    w = { v with kind := kind } := by
  rw [withKind] at h
  split at h
  next => cases h
  next =>
    cases h
    rfl

theorem withKind_continuous (v : Variable α) :
    v.withKind .continuous = .ok { v with kind := .continuous } := by
  rw [withKind, if_neg (by simp)]
  rfl

theorem withKind_integral {v : Variable α} (h : v.isIntegral = true) :
    v.withKind .integral = .ok { v with kind := .integral } := by
  rw [withKind, if_neg (by simp [h])]
  rfl

end Variable

inductive Store.Revision (s : Store α) : Store α → Prop
  | value {r : Ref} {value : α} {v : Variable α} (h : (s.read r).withValue value = .ok v) :
      Revision s (s.write r v)
  | kind {r : Ref} {kind : Kind} {v : Variable α} (h : (s.read r).withKind kind = .ok v) :
      Revision s (s.write r v)

def Store.Revised : Store α → Store α → Prop := Relation.ReflTransGen Store.Revision

namespace Store

variable {s t u : Store α}

theorem Revised.refl (s : Store α) : s.Revised s := Relation.ReflTransGen.refl

theorem Revised.trans (h : s.Revised t) (k : t.Revised u) : s.Revised u :=
  Relation.ReflTransGen.trans h k

theorem Revision.revised (h : s.Revision t) : s.Revised t := .single h

theorem Revision.sound (h : s.Revision t) (hs : s.Sound) : t.Sound := by
  cases h with
  | value hv => exact hs.write _ (Variable.withValue_sound hv)
  | kind hv => exact hs.write _ (Variable.withKind_sound (hs _) hv)

theorem Revised.sound (h : s.Revised t) (hs : s.Sound) : t.Sound := by
  induction h with
  | refl => exact hs
  | tail _ hstep ih => exact hstep.sound ih

theorem Revision.size_eq (h : s.Revision t) : t.size = s.size := by
  cases h with
  | value => exact size_write s _ _
  | kind => exact size_write s _ _

theorem Revised.size_eq (h : s.Revised t) : t.size = s.size := by
  induction h with
  | refl => rfl
  | tail _ hstep ih => exact hstep.size_eq.trans ih

theorem read_write_bounds {r : Ref} {v : Variable α} (hlow : v.low = (s.read r).low)
    (hhigh : v.high = (s.read r).high) (t : Ref) :
    ((s.write r v).read t).low = (s.read t).low ∧
      ((s.write r v).read t).high = (s.read t).high := by
  rw [read_write]
  split
  next hr =>
    rw [← hr.1]
    exact ⟨hlow, hhigh⟩
  next => exact ⟨rfl, rfl⟩

theorem Revision.bounds (h : s.Revision t) (r : Ref) :
    (t.read r).low = (s.read r).low ∧ (t.read r).high = (s.read r).high := by
  cases h with
  | value hv =>
      have hsame := Variable.eq_of_withValue hv
      exact read_write_bounds (by rw [hsame]) (by rw [hsame]) r
  | kind hv =>
      have hsame := Variable.eq_of_withKind hv
      exact read_write_bounds (by rw [hsame]) (by rw [hsame]) r

theorem Revised.bounds (h : s.Revised t) (r : Ref) :
    (t.read r).low = (s.read r).low ∧ (t.read r).high = (s.read r).high := by
  induction h with
  | refl => exact ⟨rfl, rfl⟩
  | tail _ hstep ih =>
      obtain ⟨hlow, hhigh⟩ := hstep.bounds r
      exact ⟨hlow.trans ih.1, hhigh.trans ih.2⟩

theorem relax_revision (s : Store α) (r : Ref) : s.Revision (s.relax r) :=
  .kind (Variable.withKind_continuous (s.read r))

theorem makeIntegral_revision {r : Ref} (h : (s.read r).isIntegral = true) :
    s.Revision (s.makeIntegral r) :=
  .kind (Variable.withKind_integral h)

end Store

theorem relaxColumns_revised (columns : List Ref) (s : Store α) :
    s.Revised (relaxColumns columns s) := by
  induction columns generalizing s with
  | nil => exact .refl s
  | cons r rest ih => exact (s.relax_revision r).revised.trans (ih (s.relax r))

theorem convertColumns_revised (columns : List Ref) (s : Store α) (indices : List Int) :
    s.Revised (convertColumns columns s indices).1 := by
  induction indices generalizing s with
  | nil => exact .refl s
  | cons j rest ih =>
      rw [convertColumns]
      split
      next => exact .refl s
      next r _ =>
        split
        next hi => exact (Store.makeIntegral_revision hi).revised.trans (ih (s.makeIntegral r))
        next => exact .refl s

/-- The decision about a column is at most one revision. -/
theorem Tableau.roundColumn_revised {y : Tableau α} {s t : Store α} {j : Nat} {moved : Bool}
    (h : y.roundColumn s j = .ok (t, moved)) : s.Revised t := by
  rw [roundColumn] at h
  cases hd : y.decision s j with
  | error fault =>
      rw [hd] at h
      cases h
  | ok target =>
      rw [hd] at h
      cases target with
      | none =>
          cases h
          exact .refl s
      | some x =>
          cases hv : (y.variableAt s j).withValue x with
          | error fault =>
              simp only [bind, Except.bind, hv] at h
              cases h
          | ok v =>
              simp only [bind, Except.bind, hv] at h
              cases h
              exact (Store.Revision.value hv).revised

end MilpRounding
