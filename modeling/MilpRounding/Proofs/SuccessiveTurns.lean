import MilpRounding.Proofs.Binary64.LawfulDouble
import MilpRounding.Proofs.RunOutcome

namespace MilpRounding

open Scalar

variable {α : Type} [Scalar α]

/-- What a turn toward a target makes of some rows, and the positions of those that it turns. -/
structure Turn (target : Relation) (rows : List (Row α)) (flipped : List Nat)
    (turned : List (Row α)) : Prop where
  ascending : flipped.Pairwise (· < ·)
  named (i : Nat) : i ∈ flipped ↔ ∃ r, rows[i]? = some r ∧ r.relation.Opposite target
  length : turned.length = rows.length
  negates : ∀ i ∈ flipped, turned[i]? = rows[i]?.map Row.turned
  keeps : ∀ i, i ∉ flipped → turned[i]? = rows[i]?
  equations (i : Nat) (r : Row α) : rows[i]? = some r → r.relation = .eq → turned[i]? = some r
  strict : turned.map (·.relation.isStrict) = rows.map (·.relation.isStrict)
  aligned : ∀ r ∈ turned, ¬ r.relation.Opposite target

omit [Scalar α] in
theorem mem_opposing {target : Relation} {rows : List (Row α)} {i : Nat} :
    i ∈ opposing target rows ↔ ∃ r, rows[i]? = some r ∧ r.relation.opposes target = true := by
  rw [opposing, List.mem_filter, List.mem_range, Option.any_eq_true]
  constructor
  · rintro ⟨-, r, hr⟩
    exact ⟨r, hr⟩
  · rintro ⟨r, hr, ho⟩
    exact ⟨(List.getElem?_eq_some_iff.mp hr).1, r, hr, ho⟩

theorem turn_toward {target : Relation} (ht : target ≠ .eq) (rows : List (Row α)) :
    Turn target rows (opposing target rows) (rows.map (Row.toward target)) := by
  refine {
    ascending := List.pairwise_lt_range.filter _
    named := fun i => ?_
    length := List.length_map _
    negates := fun i hi => ?_
    keeps := fun i hi => ?_
    equations := fun i r hr he => ?_
    strict := ?_
    aligned := fun r hr => ?_ }
  · rw [mem_opposing]
    simp only [Relation.opposes_iff ht]
  · obtain ⟨r, hr, ho⟩ := mem_opposing.mp hi
    rw [List.getElem?_map, hr, Option.map_some, Option.map_some, Row.toward_of_opposes ho,
      Row.turned_of_ne (Relation.ne_eq_of_opposes ho)]
  · rw [List.getElem?_map]
    cases hr : rows[i]? with
    | none => rfl
    | some r =>
        have ho : r.relation.opposes target = false := by
          rw [← Bool.not_eq_true]
          exact fun ho => hi (mem_opposing.mpr ⟨r, hr, ho⟩)
        rw [Option.map_some, Row.toward_of_not_opposes ho]
  · have ho : r.relation.opposes target = false := by
      rw [he]
      rfl
    rw [List.getElem?_map, hr, Option.map_some, Row.toward_of_not_opposes ho]
  · rw [List.map_map]
    exact List.map_congr_left fun r _ => r.isStrict_toward target
  · obtain ⟨r, -, rfl⟩ := List.mem_map.mp hr
    rw [← Relation.opposes_iff ht, r.opposes_toward target]
    exact Bool.false_ne_true

inductive Turns : List Relation → List (Row α) → List (List Nat) → List (Row α) → Prop
  | rest (rows : List (Row α)) : Turns [] rows [] rows
  | turn {target : Relation} {targets : List Relation} {rows turned last : List (Row α)}
      {flipped : List Nat} {answers : List (List Nat)} (h : Turn target rows flipped turned)
      (k : Turns targets turned answers last) :
      Turns (target :: targets) rows (flipped :: answers) last

def towardAll (targets : List Relation) (rows : List (Row α)) : List (Row α) :=
  targets.foldl (fun rows target => rows.map (Row.toward target)) rows

theorem towardAll_eq_last [InvolutiveScalar α] {targets : List Relation} {last : Relation}
    (h : targets.getLast? = some last) (rows : List (Row α)) :
    towardAll targets rows = rows.map (Row.toward last) := by
  induction targets generalizing rows with
  | nil => cases h
  | cons target rest ih =>
      cases rest with
      | nil =>
          obtain rfl : target = last := by simpa using h
          rfl
      | cons next rest =>
          have hrest : (next :: rest).getLast? = some last := by
            rwa [List.getLast?_cons_cons] at h
          have hturned := ih hrest (rows.map (Row.toward target))
          rw [List.map_map] at hturned
          refine hturned.trans (List.map_congr_left fun r _ => ?_)
          exact r.toward_of_toward target last

namespace Action

/-- A turn changes the rows of the model alone; where there is nothing to turn, it notes nothing. -/
theorem orient_turns {target : Relation} (ht : target ≠ .eq) {c : Scene α} {rows : List (Row α)}
    (h : c.model.rows = some rows) :
    ∃ events, (orient target).run c = .ok (opposing target rows)
        ⟨c.store, { c.model with rows := some (rows.map (Row.toward target)) }, events⟩ ∧
      (opposing target rows = [] → events = c.events) := by
  rw [orient, run_get_bind, run_bind_of_ok (ofExcept_run_ok (Model.orient_eq h ht) c)]
  generalize opposing target rows = flipped
  cases flipped with
  | nil => exact ⟨c.events, rfl, fun _ => rfl⟩
  | cons i rest => exact ⟨_, rfl, fun hnone => absurd hnone (List.cons_ne_nil i rest)⟩

theorem mapM_orient_turns {targets : List Relation} (ht : .eq ∉ targets) {c : Scene α}
    {rows : List (Row α)} (h : c.model.rows = some rows) :
    ∃ answers events, (targets.mapM orient).run c = .ok answers
        ⟨c.store, { c.model with rows := some (towardAll targets rows) }, events⟩ ∧
      Turns targets rows answers (towardAll targets rows) := by
  induction targets generalizing c rows with
  | nil =>
      refine ⟨[], c.events, ?_, .rest rows⟩
      obtain ⟨store, ⟨columns, _, objective⟩, events⟩ := c
      obtain rfl : _ = some rows := h
      rfl
  | cons target targets ih =>
      obtain ⟨hne, hrest⟩ := List.ne_and_not_mem_of_not_mem_cons ht
      obtain ⟨events, hrun, -⟩ := orient_turns hne.symm h
      obtain ⟨answers, events', hall, hturns⟩ := ih hrest
        (c := ⟨c.store, { c.model with rows := some (rows.map (Row.toward target)) }, events⟩) rfl
      refine ⟨opposing target rows :: answers, events', ?_, ?_⟩
      · rw [List.mapM_cons, run_bind_of_ok hrun, run_bind_of_ok hall]
        rfl
      · exact .turn (turn_toward hne.symm rows) hturns

end Action

/-- Turns toward inequalities, one after the other, succeed, and each turns just the rows that oppose its
target. Together they leave the rows that the last of them alone would have left, which are the rows of
the start if none of these opposes the last target; and the last turn made again finds nothing to turn. -/
theorem last_turn_wins [InvolutiveScalar α] {c : Scene α} {rows : List (Row α)}
    (hrows : c.model.rows = some rows) {targets : List Relation} (htargets : .eq ∉ targets)
    {last : Relation} (hlast : targets.getLast? = some last) :
    ∃ answers c' turned, (targets.mapM Action.orient).run c = .ok answers c' ∧
      Turns targets rows answers turned ∧ c'.store = c.store ∧
      c'.model = { c.model with rows := some turned } ∧
      (∃ flipped d, (Action.orient last).run c = .ok flipped d ∧ d.model = c'.model) ∧
      (Action.orient last).run c' = .ok [] c' ∧
      ((∀ r ∈ rows, ¬ r.relation.Opposite last) → c'.model = c.model) := by
  have hne : last ≠ .eq := by
    rintro rfl
    exact htargets (List.mem_of_getLast? hlast)
  obtain ⟨answers, events, hall, hturns⟩ := Action.mapM_orient_turns htargets hrows
  have hturned := towardAll_eq_last hlast rows
  obtain ⟨events', hone, -⟩ := Action.orient_turns hne hrows
  refine ⟨answers, _, _, hall, hturns, rfl, rfl, ⟨_, _, hone, ?_⟩, ?_, ?_⟩
  · rw [hturned]
  · obtain ⟨events'', hagain, hsame⟩ := Action.orient_turns hne
      (c := ⟨c.store, { c.model with rows := some (towardAll targets rows) }, events⟩) rfl
    -- these rows were turned toward the last target before
    have haligned : opposing last (towardAll targets rows) = [] := by
      rw [List.eq_nil_iff_forall_not_mem]
      intro i hi
      obtain ⟨r, hr, ho⟩ := mem_opposing.mp hi
      rw [hturned] at hr
      exact (turn_toward hne rows).aligned r (List.mem_of_getElem? hr)
        ((Relation.opposes_iff hne).mp ho)
    have hback : (towardAll targets rows).map (Row.toward last) = towardAll targets rows := by
      rw [hturned, List.map_map]
      exact List.map_congr_left fun r _ => r.toward_toward last
    rw [hagain, haligned, hsame haligned, hback]
  · intro hpolarity
    have hsame : rows.map (Row.toward last) = rows := by
      refine (List.map_congr_left fun r hr => ?_).trans (List.map_id rows)
      apply Row.toward_of_not_opposes
      rw [← Bool.not_eq_true, Relation.opposes_iff hne]
      exact hpolarity r hr
    rw [hturned, hsame, ← hrows]

def mixedRows : List (Row Float) :=
  [⟨[1, 0], .lt, 3⟩, ⟨[2, -1], .eq, 0⟩, ⟨[0, 1], .ge, -2⟩, ⟨[-1, 1], .le, 0.5⟩]

theorem last_turn_wins_mixed :
    let c : Scene Float := ⟨{}, { columns := some [0, 1], rows := some mixedRows }, #[]⟩
    ∃ answers c' turned, ([.ge, .lt, .gt].mapM Action.orient).run c = .ok answers c' ∧
      Turns [.ge, .lt, .gt] mixedRows answers turned ∧
      turned = [⟨[-1, -0], .gt, -3⟩, ⟨[2, -1], .eq, 0⟩, ⟨[0, 1], .ge, -2⟩, ⟨[1, -1], .ge, -0.5⟩] ∧
      ∃ flipped d, (Action.orient .gt).run c = .ok flipped d ∧ d.model = c'.model := by
  intro c
  have hnone : Relation.eq ∉ [.ge, .lt, .gt] := by decide
  have hlast : [Relation.ge, .lt, .gt].getLast? = some .gt := rfl
  obtain ⟨answers, c', turned, hrun, hturns, -, hmodel, ⟨flipped, d, hone, hsame⟩, -⟩ :=
    last_turn_wins (c := c) rfl hnone hlast
  have hgt : Relation.gt ≠ .eq := by decide
  obtain ⟨events, halone, -⟩ := Action.orient_turns hgt (c := c) rfl
  rw [halone] at hone
  obtain ⟨rfl, rfl⟩ : _ ∧ _ := by simpa using hone
  have hturned : mixedRows.map (Row.toward .gt) = turned := by
    rw [hmodel] at hsame
    simpa using hsame
  refine ⟨answers, c', turned, hrun, hturns, ?_, _, _, halone, hsame⟩
  rw [← hturned]
  decide +kernel

end MilpRounding
