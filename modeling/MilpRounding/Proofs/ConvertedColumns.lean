import MilpRounding.Proofs.Binary64.LawfulDouble
import MilpRounding.Proofs.ReachableWorkspace

namespace MilpRounding

variable {α : Type} [Scalar α]

namespace Action

theorem convert_eq {c : Scene α} {columns : List Ref} (hc : c.model.columns = some columns)
    (indices : List Int) :
    answers (convert indices) c = (convertColumns columns c.store indices).2 ∧
      ∃ events, leaves (convert indices) c =
        { c with store := (convertColumns columns c.store indices).1, events := events } := by
  have hrun := Rounding.convert_run hc indices
  cases hr : (convertColumns columns c.store indices).2 with
  | error fault =>
      rw [hr] at hrun
      exact ⟨answers_of_error hrun, _, leaves_of_error hrun⟩
  | ok v =>
      rw [hr] at hrun
      cases v with
      | accepted => exact ⟨answers_of_ok hrun, _, leaves_of_ok hrun⟩
      | rejected reason => exact ⟨answers_of_ok hrun, _, leaves_of_ok hrun⟩

end Action

/-- What converting the columns at some indices changes, events apart. -/
structure Workspace.Converted (columns : List Ref) (converted : List Int) (w t : Workspace α) :
    Prop where
  size : t.store.size = w.store.size
  kind {r : Ref} (hr : r < w.store.size) : (t.store.read r).kind = .integral ↔
    (w.store.read r).kind = .integral ∨ ∃ j ∈ converted, columnAt? columns j = some r
  value (r : Ref) : t.store.value r = w.store.value r
  bounds (r : Ref) : (t.store.read r).low = (w.store.read r).low ∧
    (t.store.read r).high = (w.store.read r).high
  others : t = { w with store := t.store, events := t.events }

theorem Workspace.converted_foldl (columns : List Ref) (converted : List Int) (w : Workspace α)
    (events : Array (Event α)) : w.Converted columns converted
      { w with
        store := (converted.filterMap (columnAt? columns)).foldl Store.makeIntegral w.store
        events := events } where
  size := Store.size_foldl_makeIntegral _ _
  kind {r} hr := by
    rw [Store.read_foldl_makeIntegral, ← List.mem_filterMap]
    split
    next h => exact ⟨fun _ => .inr h.1, fun _ => rfl⟩
    next h => exact ⟨.inl, fun h' => h'.resolve_right fun hj => h ⟨hj, hr⟩⟩
  value r := Store.value_foldl_makeIntegral _ _ r
  bounds r := by
    rw [Store.read_foldl_makeIntegral]
    split <;> exact ⟨rfl, rfl⟩
  others := rfl

theorem perform_convert {w : Workspace α} {k : Nat} {columns : List Ref}
    (hc : (w.modelAt k).columns = some columns) (indices : List Int) :
    let converted := indices.takeWhile (isConvertible columns w.store)
    answers (Command.convert k indices).perform w =
        (conversionEnd columns w.store
          (indices.dropWhile (isConvertible columns w.store))).map .verdict ∧
      ∃ events, leaves (Command.convert k indices).perform w =
        { w with
          store := (converted.filterMap (columnAt? columns)).foldl Store.makeIntegral w.store
          events := events } := by
  intro converted
  obtain ⟨hanswer, events, hleaves⟩ := Action.convert_eq (c := w.scene k) hc indices
  have hstore : (w.scene k).store = w.store := rfl
  rw [hstore, convertColumns_eq_foldl] at hanswer hleaves
  refine ⟨?_, events, ?_⟩
  · rw [Command.perform, answers_bind_pure, Session.answers_inModel, hanswer]
  · rw [Command.perform, leaves_bind_pure, Session.leaves_inModel, hleaves]
    exact Workspace.withScene_scene { w with store := _, events := events } k

/-- The indices before the first that is out of range or names a fractional variable are converted, and
nothing else is. Without such an index the conversion is accepted; otherwise this index decides whether it
is rejected or fails. To convert again changes nothing and is answered alike. -/
theorem convert_prefix {w : Workspace α} {k : Nat} {columns : List Ref}
    (hc : (w.modelAt k).columns = some columns) (indices : List Int) :
    let command := Command.convert k indices
    let t := leaves command.perform w
    let converted := indices.takeWhile (isConvertible columns w.store)
    w.Converted columns converted t ∧
      (answers command.perform w = .ok (.verdict .accepted) ↔ converted = indices) ∧
      (∀ j later, indices = converted ++ j :: later → answers command.perform w =
        match columnAt? columns j with
        | some r => .ok (.verdict (.rejected (.fractional j (w.store.value r))))
        | none => .error .position) ∧
      answers command.perform t = answers command.perform w ∧
      leaves command.perform t = { t with events := (leaves command.perform t).events } := by
  intro command t converted
  obtain ⟨hanswer, events, ht⟩ := perform_convert hc indices
  have hparts : converted ++ indices.dropWhile (isConvertible columns w.store) = indices :=
    List.takeWhile_append_dropWhile
  have hmet : ∀ j later, indices = converted ++ j :: later → answers command.perform w =
      match columnAt? columns j with
      | some r => .ok (.verdict (.rejected (.fractional j (w.store.value r))))
      | none => .error .position := by
    intro j later h
    rw [hanswer, List.append_cancel_left (hparts.trans h), conversionEnd]
    cases columnAt? columns j <;> rfl
  refine ⟨?_, ?_, hmet, ?_⟩
  · rw [show t = _ from ht]
    exact w.converted_foldl columns converted events
  · constructor
    · intro haccepted
      cases hrest : indices.dropWhile (isConvertible columns w.store) with
      | nil => rwa [hrest, List.append_nil] at hparts
      | cons j later =>
          rw [hmet j later (hrest ▸ hparts.symm)] at haccepted
          cases hj : columnAt? columns j <;> simp [hj] at haccepted
    · intro hall
      have hnone : indices.dropWhile (isConvertible columns w.store) = [] :=
        List.append_cancel_left (hparts.trans (hall.symm.trans (List.append_nil _).symm))
      rw [hanswer, hnone]
      rfl
  · have hc' : (t.modelAt k).columns = some columns := by
      rw [show t = _ from ht]
      exact hc
    -- conversions keep all values, so the same indices are convertible afterwards
    obtain ⟨hagain, events', ht'⟩ := perform_convert hc' indices
    have hstore : t.store =
        (converted.filterMap (columnAt? columns)).foldl Store.makeIntegral w.store := by
      rw [show t = _ from ht]
    rw [hstore, isConvertible_foldl_makeIntegral, conversionEnd_foldl_makeIntegral] at hagain
    rw [hstore, isConvertible_foldl_makeIntegral, Store.foldl_makeIntegral_twice, ← hstore] at ht'
    refine ⟨hagain.trans hanswer.symm, ?_⟩
    rw [show leaves command.perform t = _ from ht']

def fourColumns : List (Command Float) :=
  [.makeVariable "x" "continuous" 2 0 10, .makeVariable "y" "continuous" 0.5 0 10,
    .makeVariable "z" "continuous" 3 0 10, .setColumns 0 ["x", "y", "x", "z"]]

/-- An index from the end, the same variable twice and a fractional one; and an index out of range. -/
theorem convert_prefix_fourColumns :
    let w := Workspace.after fourColumns
    let command := Command.convert 0 [-1, 0, 2, 1, 3]
    w.Converted [0, 1, 0, 2] [-1, 0, 2] (leaves command.perform w) ∧
      answers command.perform w = .ok (.verdict (.rejected (.fractional 1 (w.store.value 1)))) ∧
      w.Converted [0, 1, 0, 2] [2] (leaves (Command.convert 0 [2, -5]).perform w) ∧
      answers (Command.convert 0 [2, -5]).perform w = .error .position := by
  intro w command
  have hc : (w.modelAt 0).columns = some [0, 1, 0, 2] := by decide +kernel
  have hfirst : [-1, 0, 2, 1, 3].takeWhile (isConvertible [0, 1, 0, 2] w.store) = [-1, 0, 2] := by
    decide +kernel
  have hsecond : [2, -5].takeWhile (isConvertible [0, 1, 0, 2] w.store) = [2] := by decide +kernel
  obtain ⟨hconverted, -, hmet, -⟩ := convert_prefix hc [-1, 0, 2, 1, 3]
  obtain ⟨hconverted', -, hmet', -⟩ := convert_prefix hc [2, -5]
  rw [hfirst] at hconverted hmet
  rw [hsecond] at hconverted' hmet'
  exact ⟨hconverted, hmet 1 [3] rfl, hconverted', hmet' (-5) [] rfl⟩

end MilpRounding
