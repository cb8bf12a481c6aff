import Mathlib.Data.List.TakeWhile
import MilpRounding.Proofs.SoundStore

namespace MilpRounding

variable {α : Type} [Scalar α]

namespace Store

theorem ext_read {s t : Store α} (hsize : s.size = t.size) (h : ∀ r, s.read r = t.read r) :
    s = t := by
  obtain ⟨cells⟩ := s
  obtain ⟨cells'⟩ := t
  congr 1
  apply Array.ext hsize
  intro r hr hr'
  have hread := h r
  simp only [read, Array.getD_eq_getD_getElem?, Array.getElem?_eq_getElem hr,
    Array.getElem?_eq_getElem hr'] at hread
  exact hread

theorem size_makeIntegral (s : Store α) (r : Ref) : (s.makeIntegral r).size = s.size :=
  size_write s r _

theorem read_makeIntegral (s : Store α) (r t : Ref) :
    (s.makeIntegral r).read t =
      if r = t ∧ r < s.size then { s.read t with kind := .integral } else s.read t := by
  rw [makeIntegral, read_write]
  split
  next h => rw [h.1]
  next => rfl

theorem read_makeIntegral_value (s : Store α) (r t : Ref) :
    ((s.makeIntegral r).read t).value = (s.read t).value := by
  rw [read_makeIntegral]
  split <;> rfl

section Refs

variable (refs : List Ref) (s : Store α)

theorem size_foldl_makeIntegral :
    (refs.foldl makeIntegral s).size = s.size := by
  induction refs generalizing s with
  | nil => rfl
  | cons r rest ih => rw [List.foldl_cons, ih, size_makeIntegral]

theorem read_foldl_makeIntegral (t : Ref) :
    (refs.foldl makeIntegral s).read t =
      if t ∈ refs ∧ t < s.size then { s.read t with kind := .integral } else s.read t := by
  induction refs generalizing s with
  | nil => simp
  | cons r rest ih =>
      rw [List.foldl_cons, ih, read_makeIntegral, size_makeIntegral]
      split_ifs <;> grind

theorem isIntegral_foldl_makeIntegral (r : Ref) :
    ((refs.foldl makeIntegral s).read r).isIntegral = (s.read r).isIntegral := by
  rw [read_foldl_makeIntegral]
  split <;> rfl

theorem value_foldl_makeIntegral (r : Ref) :
    (refs.foldl makeIntegral s).value r = s.value r := by
  rw [value, read_foldl_makeIntegral, value]
  split <;> rfl

theorem foldl_makeIntegral_twice : refs.foldl makeIntegral (refs.foldl makeIntegral s) =
    refs.foldl makeIntegral s := by
  refine ext_read (by simp only [size_foldl_makeIntegral]) fun r => ?_
  simp only [read_foldl_makeIntegral, size_foldl_makeIntegral]
  split <;> rfl

end Refs

end Store

def columnAt? (columns : List Ref) (j : Int) : Option Ref :=
  (resolve? columns.length j).bind (columns[·]?)

def isConvertible (columns : List Ref) (s : Store α) (j : Int) : Bool :=
  (columnAt? columns j).any fun r => (s.read r).isIntegral

/-- What the indices that were not converted come to: the first of them decides. -/
def conversionEnd (columns : List Ref) (s : Store α) : List Int → Except (Fault α) (Verdict α)
  | [] => .ok .accepted
  | j :: _ =>
    match columnAt? columns j with
    | some r => .ok (.rejected (.fractional j (s.value r)))
    | none => .error .position

omit [Scalar α] in
theorem pick_eq (columns : List Ref) (j : Int) : pick columns j =
    match columnAt? columns j with
    | some r => (.ok r : Except (Fault α) Ref)
    | none => .error .position := by
  rw [pick, columnAt?]
  split <;> rename_i h <;> rw [h] <;> rfl

section Made

variable (columns refs : List Ref) (s : Store α)

theorem isConvertible_foldl_makeIntegral :
    isConvertible columns (refs.foldl Store.makeIntegral s) = isConvertible columns s := by
  funext j
  simp only [isConvertible, Store.isIntegral_foldl_makeIntegral]

theorem conversionEnd_foldl_makeIntegral :
    conversionEnd columns (refs.foldl Store.makeIntegral s) = conversionEnd columns s := by
  funext indices
  cases indices with
  | nil => rfl
  | cons j rest => simp only [conversionEnd, Store.value_foldl_makeIntegral]

end Made

/-- The indices that are converted are those before the first that cannot be. -/
theorem convertColumns_eq_foldl (columns : List Ref) (s : Store α) (indices : List Int) :
    convertColumns columns s indices =
      (((indices.takeWhile (isConvertible columns s)).filterMap (columnAt? columns)).foldl
          Store.makeIntegral s,
        conversionEnd columns s (indices.dropWhile (isConvertible columns s))) := by
  induction indices generalizing s with
  | nil => rfl
  | cons j rest ih =>
      rw [convertColumns, pick_eq]
      cases hj : columnAt? columns j with
      | none =>
          have hstop : ¬ isConvertible columns s j = true := by simp [isConvertible, hj]
          rw [List.takeWhile_cons_of_neg hstop, List.dropWhile_cons_of_neg hstop, conversionEnd, hj]
          rfl
      | some r =>
          by_cases hr : (s.read r).isIntegral = true
          · have hgo : isConvertible columns s j = true := by simp [isConvertible, hj, hr]
            have hsame := isConvertible_foldl_makeIntegral columns [r] s
            have hend := conversionEnd_foldl_makeIntegral columns [r] s
            simp only [List.foldl_cons, List.foldl_nil] at hsame hend
            simp only [if_pos hr, ih, hsame, hend]
            rw [List.takeWhile_cons_of_pos hgo, List.dropWhile_cons_of_pos hgo,
              List.filterMap_cons_some hj, List.foldl_cons]
          · have hstop : ¬ isConvertible columns s j = true := by simp [isConvertible, hj, hr]
            rw [List.takeWhile_cons_of_neg hstop, List.dropWhile_cons_of_neg hstop, conversionEnd,
              hj]
            simp only [if_neg hr]
            rfl

end MilpRounding
