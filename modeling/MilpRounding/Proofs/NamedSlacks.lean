import MilpRounding.Proofs.AssembledRun
import MilpRounding.Proofs.Binary64.LawfulDouble

namespace MilpRounding

open Scalar

section Points

variable {α : Type}

theorem lookup_replaced {point : Point α} {name other : String} (h : other ≠ name) (value : α) :
    List.lookup other (point.map fun entry => if entry.1 == name then (name, value) else entry) =
      point.lookup other := by
  induction point with
  | nil => rfl
  | cons entry rest ih =>
      rw [List.map_cons, List.lookup_cons, List.lookup_cons, ih]
      by_cases he : entry.1 = name
      · rw [if_pos (beq_iff_eq.mpr he), he, beq_eq_false_iff_ne.mpr h]
      · rw [if_neg (mt beq_iff_eq.mp he)]

theorem lookup_replaced_self {point : Point α} {name : String}
    (h : point.any (·.1 == name) = true) (value : α) :
    List.lookup name (point.map fun entry => if entry.1 == name then (name, value) else entry) =
      some value := by
  induction point with
  | nil => cases h
  | cons entry rest ih =>
      rw [List.map_cons, List.lookup_cons]
      by_cases he : entry.1 = name
      · rw [if_pos (beq_iff_eq.mpr he), beq_self_eq_true]
      · rw [List.any_cons, beq_eq_false_iff_ne.mpr he, Bool.false_or] at h
        rw [if_neg (mt beq_iff_eq.mp he), beq_eq_false_iff_ne.mpr (Ne.symm he), ih h]

theorem Point.lookup_put (point : Point α) (name other : String) (value : α) :
    (point.put name value).lookup other =
      if other = name then some value else point.lookup other := by
  rw [put]
  by_cases hany : point.any (·.1 == name) = true
  · rw [if_pos hany]
    split
    next h =>
      rw [h]
      exact lookup_replaced_self hany value
    next h => exact lookup_replaced h value
  · rw [if_neg hany, List.lookup_append, List.lookup_cons, List.lookup_nil]
    by_cases h : other = name
    · have hnone : point.lookup name = none := by
        rw [List.lookup_eq_none_iff]
        intro entry hentry
        rw [bne_iff_ne]
        rintro rfl
        exact hany (List.any_eq_true.mpr ⟨entry, hentry, beq_self_eq_true _⟩)
      rw [if_pos h, h, hnone, beq_self_eq_true]
      rfl
    · rw [if_neg h, beq_eq_false_iff_ne.mpr h]
      exact Option.or_none

theorem Point.lookup_ofPairs (pairs : List (String × α)) (name : String) :
    (Point.ofPairs pairs).lookup name = pairs.reverse.lookup name := by
  -- from the end of the list, since the last pair is put last
  induction pairs using List.reverseRecOn with
  | nil => rfl
  | append_singleton pairs entry ih =>
      rw [ofPairs] at ih ⊢
      rw [List.foldl_append, List.foldl_cons, List.foldl_nil, lookup_put, ih, List.reverse_append,
        List.reverse_singleton, List.singleton_append, List.lookup_cons]
      by_cases h : name = entry.1
      · rw [if_pos h, beq_iff_eq.mpr h]
      · rw [if_neg h, beq_eq_false_iff_ne.mpr h]

theorem Point.lookup_ofPairs_zip {names : List String} {values : List α}
    (hlength : names.length = values.length) {i : Nat} {name : String} (hi : names[i]? = some name) :
    ∃ j : Nat, names[j]? = some name ∧ (Point.ofPairs (names.zip values)).lookup name = values[j]? := by
  obtain ⟨hlt, -⟩ := List.getElem?_eq_some_iff.mp hi
  obtain ⟨value, hvalue⟩ : ∃ value, values[i]? = some value :=
    ⟨_, List.getElem?_eq_getElem (hlength ▸ hlt)⟩
  have hpair : (name, value) ∈ (names.zip values).reverse :=
    List.mem_reverse.mpr (List.mem_of_getElem? (List.getElem?_zip_eq_some.mpr ⟨hi, hvalue⟩))
  rw [lookup_ofPairs]
  obtain ⟨found, hfound⟩ := Option.isSome_iff_exists.mp
    (List.lookup_isSome_iff.mpr ⟨_, hpair, beq_self_eq_true name⟩)
  obtain ⟨before, after, hsplit, -⟩ := List.lookup_eq_some_iff.mp hfound
  have hmem : (name, found) ∈ names.zip values := by
    rw [← List.mem_reverse, hsplit]
    exact List.mem_append_right _ List.mem_cons_self
  obtain ⟨j, hj⟩ := List.mem_iff_getElem?.mp hmem
  obtain ⟨hname, hvalue⟩ := List.getElem?_zip_eq_some.mp hj
  exact ⟨j, hname, hfound.trans hvalue.symm⟩

/-- Every position has its own value under its name just where positions of one name have one value. -/
theorem Point.lookup_ofPairs_iff {names : List String} {values : List α}
    (hlength : names.length = values.length) :
    (∀ (i : Nat) (name : String), names[i]? = some name →
        (Point.ofPairs (names.zip values)).lookup name = values[i]?) ↔
      ∀ (i j : Nat) (name : String), names[i]? = some name → names[j]? = some name →
        values[i]? = values[j]? := by
  constructor
  · intro h i j name hi hj
    rw [← h i name hi, h j name hj]
  · intro h i name hi
    obtain ⟨j, hj, hlookup⟩ := lookup_ofPairs_zip hlength hi
    rw [hlookup, h j i name hj hi]

end Points

variable {α : Type} [Scalar α]

theorem Problem.slacks_of_slackTable {p : Problem α} {point : Point α} {table : SlackTable α}
    (h : (p.slackTable point).1 = .ok table) :
    ∃ a slacks failing, p.assemble point = .ok a ∧ a.model.slacks a.store = .ok slacks ∧
      a.model.violated tolerance a.store = .ok failing ∧
      (p.constraints.map (·.name)).length = slacks.length ∧
      table = ⟨Point.ofPairs ((p.constraints.map (·.name)).zip slacks),
        failing.filterMap ((p.constraints.map (·.name))[·]?)⟩ := by
  cases ha : p.assemble point with
  | error f =>
      rw [slackTable, ha] at h
      cases h
  | ok a =>
      obtain ⟨slacks, failing, hslacks, hfailing, hlength, htable⟩ := slackTable_of_assemble ha
      rw [htable] at h
      exact ⟨a, slacks, failing, rfl, hslacks, hfailing, hlength, (Except.ok.inj h).symm⟩

/-- A table lists the violated constraints by their positions. It has the slack of each constraint under
the name of the constraint if and only if constraints of one name have one slack. -/
theorem slacks_named_iff {p : Problem α} {point : Point α} {table : SlackTable α}
    (h : (p.slackTable point).1 = .ok table) :
    ∃ a slacks failing, p.assemble point = .ok a ∧ a.model.slacks a.store = .ok slacks ∧
      slacks.length = p.constraints.length ∧ a.model.violated tolerance a.store = .ok failing ∧
      table.violated = failing.filterMap (fun i => p.constraints[i]?.map (·.name)) ∧
      ((∀ (i : Nat) (c : Constraint α), p.constraints[i]? = some c →
          table.slacks.lookup c.name = slacks[i]?) ↔
        ∀ (i j : Nat) (c d : Constraint α), p.constraints[i]? = some c → p.constraints[j]? = some d →
          c.name = d.name → slacks[i]? = slacks[j]?) := by
  obtain ⟨a, slacks, failing, ha, hslacks, hfailing, hlength, rfl⟩ := Problem.slacks_of_slackTable h
  refine ⟨a, slacks, failing, ha, hslacks, ?_, hfailing, ?_, ?_⟩
  · rw [← hlength, List.length_map]
  · simp only [List.getElem?_map]
  · have hnames := Point.lookup_ofPairs_iff hlength
    simp only [List.getElem?_map, Option.map_eq_some_iff] at hnames
    constructor
    · intro hown i j c d hi hj hname
      rw [← hown i c hi, hname, hown j d hj]
    · intro hsame i c hi
      refine hnames.mpr ?_ i c.name ⟨c, hi, rfl⟩
      rintro i j _ ⟨c, hi, rfl⟩ ⟨d, hj, hd⟩
      exact hsame i j c d hi hj hd.symm

omit [Scalar α] in
theorem Problem.position_eq {p : Problem α} (h : (p.constraints.map (·.name)).Nodup) {i j : Nat}
    {c d : Constraint α} (hi : p.constraints[i]? = some c) (hj : p.constraints[j]? = some d)
    (hname : c.name = d.name) : i = j := by
  have hlt : i < (p.constraints.map (·.name)).length := by
    rw [List.length_map]
    exact (List.getElem?_eq_some_iff.mp hi).1
  apply (List.getElem?_inj hlt h).mp
  rw [List.getElem?_map, List.getElem?_map, hi, hj]
  exact congrArg some hname

def caps (first second : String) : Problem Float where
  sense := .min
  objective := ⟨[], 0⟩
  declarations := [⟨"x", none, none, false⟩]
  constraints := [⟨first, ⟨[⟨"x", 1⟩], 0⟩, .le, 1⟩, ⟨second, ⟨[⟨"x", 1⟩], 0⟩, .le, 0⟩]

theorem slacks_named_caps : ∃ table a slacks,
    ((caps "high" "low").slackTable [("x", 0.5)]).1 = .ok table ∧
      (caps "high" "low").assemble [("x", 0.5)] = .ok a ∧ a.model.slacks a.store = .ok slacks ∧
      table.slacks.lookup "high" = slacks[0]? ∧ table.slacks.lookup "low" = slacks[1]? := by
  have hanswered : ((caps "high" "low").slackTable [("x", 0.5)]).1.toBool = true := by decide +kernel
  obtain ⟨table, htable⟩ := ok_of_toBool hanswered
  obtain ⟨a, slacks, -, ha, hslacks, -, -, -, hiff⟩ := slacks_named_iff htable
  have hnames : ((caps "high" "low").constraints.map (·.name)).Nodup := by decide
  have hown := hiff.mpr fun i j c d hi hj hname =>
    congrArg (slacks[·]?) (Problem.position_eq hnames hi hj hname)
  exact ⟨table, a, slacks, htable, ha, hslacks, hown 0 _ rfl, hown 1 _ rfl⟩

/-- The slack of the first cap is lost under a name that the second one shares. -/
theorem slack_overwritten : ∃ table a slacks,
    ((caps "cap" "cap").slackTable [("x", 0.5)]).1 = .ok table ∧
      (caps "cap" "cap").assemble [("x", 0.5)] = .ok a ∧ a.model.slacks a.store = .ok slacks ∧
      ∃ c, (caps "cap" "cap").constraints[0]? = some c ∧ table.slacks.lookup c.name ≠ slacks[0]? := by
  have hanswered : ((caps "cap" "cap").slackTable [("x", 0.5)]).1.toBool = true := by decide +kernel
  obtain ⟨table, htable⟩ := ok_of_toBool hanswered
  obtain ⟨a, slacks, -, ha, hslacks, -⟩ := Problem.slacks_of_slackTable htable
  -- the slack of the first cap is not negative, while the one under its name is
  have hfirst : ((caps "cap" "cap").assemble [("x", 0.5)]).toOption.any
      (fun a => (a.model.slacks a.store).toOption.any (·[0]?.any fun s => !decide (s < 0))) = true := by
    decide +kernel
  have hlisted : ((caps "cap" "cap").slackTable [("x", 0.5)]).1.toOption.any
      (fun table => (table.slacks.lookup "cap").any fun s => decide (s < 0)) = true := by
    decide +kernel
  rw [ha, Except.toOption, Option.any_some, hslacks, Except.toOption, Option.any_some] at hfirst
  rw [htable, Except.toOption, Option.any_some] at hlisted
  refine ⟨table, a, slacks, htable, ha, hslacks, _, rfl, fun hsame => ?_⟩
  have hlookup : table.slacks.lookup "cap" = slacks[0]? := hsame
  rw [hlookup] at hlisted
  cases hslack : slacks[0]? with
  | none =>
      rw [hslack] at hlisted
      cases hlisted
  | some slack =>
      rw [hslack, Option.any_some] at hfirst hlisted
      rw [hlisted] at hfirst
      cases hfirst

end MilpRounding
