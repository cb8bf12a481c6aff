import MilpRounding.Variable

namespace MilpRounding

abbrev Ref := Nat

structure Store (α : Type) where
  cells : Array (Variable α) := #[]

namespace Store

open Scalar

variable {α : Type} [Scalar α]

def size (s : Store α) : Nat := s.cells.size

/-- A reference beyond the store reads as a free variable at zero. -/
def read (s : Store α) (r : Ref) : Variable α :=
  s.cells.getD r ⟨.continuous, 0, -infinity, infinity⟩

def write (s : Store α) (r : Ref) (v : Variable α) : Store α :=
  ⟨s.cells.setIfInBounds r v⟩

def add (s : Store α) (v : Variable α) : Store α := ⟨s.cells.push v⟩

def value (s : Store α) (r : Ref) : α := (s.read r).value

omit [Scalar α] in
@[simp] theorem size_write (s : Store α) (r : Ref) (v : Variable α) :
    (s.write r v).size = s.size := by
  simp [size, write]

theorem read_write (s : Store α) (r t : Ref) (v : Variable α) :
    (s.write r v).read t = if r = t ∧ r < s.size then v else s.read t := by
  simp only [read, write, size, Array.getD_eq_getD_getElem?, Array.getElem?_setIfInBounds]
  by_cases h : r = t
  · subst h
    by_cases hr : r < s.cells.size <;> simp [hr]
  · simp [h]

end Store

end MilpRounding
