import MilpRounding.Proofs.AlikeTableaux
import MilpRounding.Proofs.Binary64.Products
import MilpRounding.Proofs.ReachableWorkspace

namespace MilpRounding

open Scalar LawfulScalar Rounding

def Sense.opposite : Sense → Sense
  | .min => .max
  | .max => .min

variable {α : Type} [Scalar α]

def SameSign (a b : α) : Prop := (0 < a ↔ 0 < b) ∧ (a < 0 ↔ b < 0)

instance (a b : α) : Decidable (SameSign a b) :=
  inferInstanceAs (Decidable (_ ∧ _))

def Objective.opposed (o : Objective α) : Objective α := ⟨o.sense.opposite, o.coefficients.map (-·)⟩

def Scene.withObjective (c : Scene α) (o : Objective α) : Scene α :=
  { c with model := { c.model with objective := some o } }

theorem Direction.favoured_of_sameSign (sense : Option Sense) {a b : α} (h : SameSign a b) :
    favoured sense b = favoured sense a := by
  obtain ⟨hpos, hneg⟩ := h
  simp only [favoured, hpos, hneg]

theorem Direction.favoured_opposite [LawfulScalar α] (sense : Sense) {a b : α}
    (h : denote b = -denote a) : favoured (some sense.opposite) b = favoured (some sense) a := by
  have hpos : 0 < b ↔ a < 0 := by
    rw [lt_iff_denote 0 b, lt_iff_denote a 0, h, ← neg_denote_zero, Exact.neg_lt_neg_iff,
      neg_denote_zero]
  have hneg : b < 0 ↔ 0 < a := by
    rw [lt_iff_denote b 0, lt_iff_denote 0 a, h, ← neg_denote_zero, Exact.neg_lt_neg_iff,
      neg_denote_zero]
  cases sense with
  | min => simp only [Sense.opposite, favoured, hneg]
  | max => simp only [Sense.opposite, favoured, hpos]

theorem denote_getD_neg [LawfulScalar α] (costs : List α) (j : Nat) :
    denote ((costs.map (-·)).getD j 0) = -denote (costs.getD j 0) := by
  rw [List.getD_eq_getElem?_getD, List.getD_eq_getElem?_getD, List.getElem?_map]
  cases costs[j]? with
  | none => exact neg_denote_zero.symm
  | some a => exact denote_neg a

variable {c c' : Scene α} {options : Options α} {indices : Option (List Int)} {o : Objective α}

namespace Rounding

theorem alike_withObjective (p : Objective α) {columns : List Nat}
    (h : ∀ j ∈ columns, Direction.favoured (some p.sense) (p.coefficients.getD j 0) =
      Direction.favoured (some o.sense) (o.coefficients.getD j 0)) :
    (tableau options (c.withObjective o).model).Alike columns
      (tableau options (c.withObjective p).model) where
  columns_eq := rfl
  preference := h
  limit _ _ _ d := by cases d <;> rfl

variable [LawfulScalar α]

theorem run_withObjective (hs : c.store.Sound) (p : Objective α)
    (h : ∀ j ∈ listed indices, Direction.favoured (some p.sense) (p.coefficients.getD j 0) =
      Direction.favoured (some o.sense) (o.coefficients.getD j 0))
    {report : Report α} (hrun : (run options indices).run (c.withObjective o) = .ok report c') :
    ∃ x d, report.objective = some (dot o.coefficients x) ∧
      (run options indices).run (c.withObjective p) =
        .ok { report with objective := some (dot p.coefficients x) } d ∧ d.store = c'.store := by
  obtain ⟨hobjective, hfeasible⟩ := reported_at_end (c := c.withObjective o) hs hrun
  obtain ⟨d, hd, hstore⟩ := run_of_alike (c := c.withObjective o) (d := c.withObjective p) hs
    rfl rfl (alike_withObjective p h) hrun
  have hsame : (tableau options (c.withObjective p).model).isFeasible options.tol c'.store =
      report.feasible := hfeasible.symm
  rw [hsame] at hd
  exact ⟨(tableau options c.model).values c'.store, d, hobjective, hd, hstore⟩

end Rounding

/-- To minimise some costs is to maximise the opposite ones: nothing changes but the sign of the value
that is reported for the objective. And of the costs of the listed columns nothing but their signs has
a part in anything but this value. -/
theorem run_opposed [LawfulScalar α] [RoundedScalar α] (hs : c.store.Sound) {report : Report α}
    (h : (run options indices).run (c.withObjective o) = .ok report c') :
    (∃ a b d, report.objective = some a ∧
      (run options indices).run (c.withObjective o.opposed) =
        .ok { report with objective := some b } d ∧
      d.store = c'.store ∧ denote b = -denote a) ∧
    ∀ costs, (∀ j ∈ indices.getD [],
        SameSign (o.coefficients.getD j.toNat 0) (costs.getD j.toNat 0)) →
      ∃ b d, (run options indices).run (c.withObjective ⟨o.sense, costs⟩) =
          .ok { report with objective := some b } d ∧ d.store = c'.store := by
  constructor
  · have hprefer : ∀ j ∈ listed indices,
        Direction.favoured (some o.opposed.sense) (o.opposed.coefficients.getD j 0) =
          Direction.favoured (some o.sense) (o.coefficients.getD j 0) :=
      fun j _ => Direction.favoured_opposite o.sense (denote_getD_neg o.coefficients j)
    obtain ⟨x, d, hobjective, hrun, hstore⟩ := run_withObjective hs o.opposed hprefer h
    exact ⟨_, _, d, hobjective, hrun, hstore, denote_dot_neg o.coefficients x⟩
  · intro costs hcosts
    have hprefer : ∀ j ∈ listed indices, Direction.favoured (some o.sense) (costs.getD j 0) =
        Direction.favoured (some o.sense) (o.coefficients.getD j 0) := by
      intro j hj
      obtain ⟨i, hi, rfl⟩ := List.mem_map.mp hj
      exact Direction.favoured_of_sameSign (some o.sense) (hcosts i hi)
    obtain ⟨x, d, -, hrun, hstore⟩ := run_withObjective hs ⟨o.sense, costs⟩ hprefer h
    exact ⟨_, d, hrun, hstore⟩

def tiedColumns : List (Command Float) :=
  [.makeVariable "x" "continuous" 0.5 0 10, .makeVariable "y" "continuous" 0.5 0 10,
    .setColumns 0 ["x", "y"], .setRows 0 [[1, 1], [-1, -1]] [2, 0] ["<=", "<="]]

theorem run_opposed_tiedColumns :
    let c := (Workspace.after tiedColumns).scene 0
    let o : Objective Float := ⟨.min, [1, -2]⟩
    let indices := some [0, 1]
    ∃ report c' a b e d d', (run .standard indices).run (c.withObjective o) = .ok report c' ∧
      report.objective = some a ∧
      (run .standard indices).run (c.withObjective o.opposed) =
        .ok { report with objective := some b } d ∧
      denote b = -denote a ∧
      (run .standard indices).run (c.withObjective ⟨.min, [3, -0.5]⟩) =
        .ok { report with objective := some e } d' := by
  intro c o indices
  have hs : c.store.Sound := (Workspace.reachable_after tiedColumns).scene_sound 0
  have hready : (obstacle? .standard indices (c.withObjective o).model).isNone = true := by
    decide +kernel
  have hrun := run_of_ready (c := c.withObjective o) hs (Option.isNone_iff_eq_none.mp hready)
  obtain ⟨⟨a, b, d, hobjective, hopposed, -, hvalue⟩, hcosts⟩ := run_opposed hs hrun
  obtain ⟨e, d', hsame, -⟩ := hcosts [3, -0.5] (by decide +kernel)
  exact ⟨_, _, a, b, e, d, d', hrun, hobjective, hopposed, hvalue, hsame⟩

end MilpRounding
