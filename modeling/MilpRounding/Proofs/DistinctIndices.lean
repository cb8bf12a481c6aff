import Mathlib.Data.List.Basic
import Mathlib.Tactic.Common
import MilpRounding.Proofs.RunOutcome

namespace MilpRounding.Rounding

theorem distinct_cons (a : Int) (rest : List Int) :
    distinct (a :: rest) = a :: distinct (rest.filter fun b => !b == a) :=
  List.eraseDups_cons

@[simp] theorem mem_distinct {l : List Int} {a : Int} : a ∈ distinct l ↔ a ∈ l := List.mem_eraseDups

theorem distinct_induction {P : List Int → Prop} (nil : P [])
    (cons : ∀ a rest, P (rest.filter fun b => !b == a) → P (a :: rest)) : ∀ l, P l
  | [] => nil
  | a :: rest => cons a rest (distinct_induction nil cons _)
termination_by l => l.length
decreasing_by exact Nat.lt_succ_of_le (List.length_filter_le _ rest)

theorem idxOf_lt_of_filter {p : Int → Bool} {l : List Int} {a b : Int} (ha : p a = true)
    (hb : p b = true) (h : (l.filter p).idxOf a < (l.filter p).idxOf b) :
    l.idxOf a < l.idxOf b := by
  induction l with
  | nil => exact absurd h (by simp)
  | cons c rest ih =>
      by_cases hca : c = a
      · subst hca
        have hne : c ≠ b := by
          rintro rfl
          exact absurd h (Nat.lt_irrefl _)
        rw [List.idxOf_cons_self, List.idxOf_cons_ne _ hne]
        exact Nat.succ_pos _
      · by_cases hcb : c = b
        · subst hcb
          rw [List.filter_cons_of_pos hb, List.idxOf_cons_self] at h
          exact absurd h (Nat.not_lt_zero _)
        · rw [List.idxOf_cons_ne _ hca, List.idxOf_cons_ne _ hcb, Nat.succ_lt_succ_iff]
          refine ih ?_
          by_cases hc : p c = true
          · rw [List.filter_cons_of_pos hc, List.idxOf_cons_ne _ hca, List.idxOf_cons_ne _ hcb,
              Nat.succ_lt_succ_iff] at h
            exact h
          · rwa [List.filter_cons_of_neg hc] at h

theorem pairwise_distinct (l : List Int) :
    (distinct l).Pairwise fun a b => l.idxOf a < l.idxOf b := by
  induction l using distinct_induction with
  | nil => exact .nil
  | cons a rest ih =>
      have other {b : Int} (hb : b ∈ distinct (rest.filter fun b => !b == a)) :
          (!b == a) = true :=
        (List.mem_filter.mp (mem_distinct.mp hb)).2
      have hne {b : Int} (hb : (!b == a) = true) : a ≠ b := by
        rintro rfl
        simp at hb
      rw [distinct_cons]
      refine List.pairwise_cons.mpr ⟨fun b hb => ?_, ih.imp_of_mem fun {b c} hb hc hlt => ?_⟩
      · rw [List.idxOf_cons_self, List.idxOf_cons_ne _ (hne (other hb))]
        exact Nat.succ_pos _
      · rw [List.idxOf_cons_ne _ (hne (other hb)), List.idxOf_cons_ne _ (hne (other hc)),
          Nat.succ_lt_succ_iff]
        exact idxOf_lt_of_filter (other hb) (other hc) hlt

theorem nodup_distinct (l : List Int) : (distinct l).Nodup := by
  refine (pairwise_distinct l).imp fun {a b} hlt => ?_
  rintro rfl
  exact Nat.lt_irrefl _ hlt

theorem distinct_filter (p : Int → Bool) (l : List Int) :
    distinct (l.filter p) = (distinct l).filter p := by
  induction l using distinct_induction with
  | nil => rfl
  | cons a rest ih =>
      rw [distinct_cons]
      by_cases ha : p a = true
      · rw [List.filter_cons_of_pos ha, distinct_cons, List.filter_comm, ih,
          List.filter_cons_of_pos ha]
      · rw [List.filter_cons_of_neg ha, List.filter_cons_of_neg ha, ← ih, List.filter_comm]
        congr 1
        refine (List.filter_eq_self.mpr fun b hb => ?_).symm
        have hb := (List.mem_filter.mp hb).2
        have hne : b ≠ a := by
          rintro rfl
          exact ha hb
        simpa using hne

def ListedBefore (indices : List Int) (i j : Nat) : Prop :=
  indices.idxOf (i : Int) < indices.idxOf (j : Int)

variable {indices : List Int} {n : Nat}

theorem mem_listed_iff (hrange : ∀ j ∈ distinct indices, 0 ≤ j ∧ j < n) (j : Nat) :
    j ∈ listed (some (distinct indices)) ↔ (j : Int) ∈ indices := by
  rw [← mem_distinct]
  constructor
  · intro hj
    obtain ⟨i, hi, rfl⟩ := List.mem_map.mp hj
    rwa [Int.toNat_of_nonneg (hrange i hi).1]
  · exact fun hj => List.mem_map.mpr ⟨j, hj, Int.toNat_natCast j⟩

theorem pairwise_listed (hrange : ∀ j ∈ distinct indices, 0 ≤ j ∧ j < n) :
    (listed (some (distinct indices))).Pairwise (ListedBefore indices) := by
  refine List.pairwise_map.mpr ((pairwise_distinct indices).imp_of_mem fun {i j} hi hj h => ?_)
  rwa [ListedBefore, Int.toNat_of_nonneg (hrange i hi).1, Int.toNat_of_nonneg (hrange j hj).1]

theorem nodup_listed (hrange : ∀ j ∈ distinct indices, 0 ≤ j ∧ j < n) :
    (listed (some (distinct indices))).Nodup := by
  refine (pairwise_listed hrange).imp fun {i j} hlt => ?_
  rintro rfl
  exact Nat.lt_irrefl _ hlt

theorem listed_filter (keep : Nat → Bool) (idx : List Int) :
    listed (some (distinct (idx.filter fun i => keep i.toNat))) =
      (listed (some (distinct idx))).filter keep := by
  rw [listed, listed, Option.getD_some, Option.getD_some, distinct_filter, List.filter_map]
  rfl

end MilpRounding.Rounding
