import MilpRounding.Linear.Kinds
import MilpRounding.Proofs.LawfulScalar

namespace MilpRounding

open Scalar LawfulScalar

variable {α : Type} [Scalar α]

structure Variable.Sound (v : Variable α) : Prop where
  admitted : Variable.admits v.low v.high v.value = true
  whole : v.kind = .integral → v.isIntegral = true

/-- References beyond the store count too: they read as a free variable. -/
def Store.Sound (s : Store α) : Prop := ∀ r, (s.read r).Sound

namespace Variable

theorem eq_of_make {kind : Kind} {value low high : α} {v : Variable α}
    (h : make kind value low high = .ok v) : v = ⟨kind, value, low, high⟩ := by
  simp only [make, throw, throwThe, MonadExceptOf.throw, pure, Except.pure] at h
  grind

theorem make_sound {kind : Kind} {value low high : α} {v : Variable α}
    (h : make kind value low high = .ok v) : v.Sound := by
  rw [make] at h
  split at h
  next => cases h
  next =>
    split at h
    next => cases h
    next hk =>
      split at h
      next ha =>
        cases h
        exact ⟨ha, fun hi => Bool.eq_true_of_not_eq_false fun hw => hk ⟨hi, hw⟩⟩
      next => cases h

theorem withKind_sound {v w : Variable α} {kind : Kind} (hv : v.Sound)
    (h : v.withKind kind = .ok w) : w.Sound := by
  rw [withKind] at h
  split at h
  next => cases h
  next hk =>
    cases h
    exact ⟨hv.admitted, fun hi => Bool.eq_true_of_not_eq_false fun hw => hk ⟨hi, hw⟩⟩

theorem withValue_sound {v w : Variable α} {value : α} (h : v.withValue value = .ok w) :
    w.Sound := by
  rw [withValue] at h
  split at h
  next => cases h
  next hk =>
    split at h
    next ha =>
      cases h
      exact ⟨ha, fun hi => Bool.eq_true_of_not_eq_false fun hw => hk ⟨hi, hw⟩⟩
    next => cases h

theorem admits_iff {low high value : α} : admits low high value = true ↔
    isFinite value = true ∧ ¬ value < low ∧ ¬ high < value := by
  simp [admits, and_assoc]

theorem Sound.finite [LawfulScalar α] {v : Variable α} (hv : v.Sound) :
    ∃ q, denote v.value = .finite q :=
  isFinite_iff_denote.mp (admits_iff.mp hv.admitted).1

theorem Sound.low_le [LawfulScalar α] {v : Variable α} (hv : v.Sound) (h : isNaN v.low = false) :
    v.low ≤ v.value := by
  obtain ⟨q, hq⟩ := hv.finite
  obtain ⟨-, hlow, -⟩ := admits_iff.mp hv.admitted
  rw [lt_iff_denote, hq] at hlow
  rw [le_iff_denote, hq]
  exact Exact.le_of_not_lt (Exact.ne_undefined_of_isNaN (isNaN_denote v.low ▸ h)) (by simp) hlow

theorem Sound.le_high [LawfulScalar α] {v : Variable α} (hv : v.Sound) (h : isNaN v.high = false) :
    v.value ≤ v.high := by
  obtain ⟨q, hq⟩ := hv.finite
  obtain ⟨-, -, hhigh⟩ := admits_iff.mp hv.admitted
  rw [lt_iff_denote, hq] at hhigh
  rw [le_iff_denote, hq]
  exact Exact.le_of_not_lt (by simp) (Exact.ne_undefined_of_isNaN (isNaN_denote v.high ▸ h)) hhigh

end Variable

namespace Store

theorem Sound.write {s : Store α} (hs : s.Sound) (r : Ref) {v : Variable α} (hv : v.Sound) :
    (s.write r v).Sound := by
  intro t
  rw [read_write]
  split
  · exact hv
  · exact hs t

theorem read_of_size_le {s : Store α} {r : Ref} (h : s.size ≤ r) :
    s.read r = ⟨.continuous, 0, -infinity, infinity⟩ := by
  rw [size] at h
  simp [read, h]

theorem read_add (s : Store α) (v : Variable α) (t : Ref) :
    (s.add v).read t = if t = s.size then v else s.read t := by
  simp only [read, add, size, Array.getD_eq_getD_getElem?, Array.getElem?_push]
  split <;> rfl

theorem Sound.add {s : Store α} (hs : s.Sound) {v : Variable α} (hv : v.Sound) :
    (s.add v).Sound := by
  intro t
  rw [read_add]
  split
  · exact hv
  · exact hs t

theorem sound_empty [LawfulScalar α] : Store.Sound ({} : Store α) := by
  intro r
  have hz : isFinite (0 : α) = true := isFinite_iff_denote.mpr ⟨0, denote_zero⟩
  exact ⟨Variable.admits_iff.mpr ⟨hz, not_lt_neg_infinity 0, not_infinity_lt 0⟩,
    fun h => by cases h⟩

theorem sound_of_cells [LawfulScalar α] {s : Store α} (h : ∀ v ∈ s.cells, v.Sound) : s.Sound := by
  intro r
  by_cases hr : r < s.cells.size
  · rw [read, Array.getD_eq_getD_getElem?, Array.getElem?_eq_getElem hr]
    exact h _ (Array.getElem_mem hr)
  · have hfree := sound_empty (α := α) r
    simpa [read, Array.getD_eq_getD_getElem?, hr] using hfree

end Store

end MilpRounding
