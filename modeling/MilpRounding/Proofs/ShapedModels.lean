import MilpRounding.Proofs.LaunchOutcome
import MilpRounding.Proofs.LiveColumns

namespace MilpRounding

variable {α : Type} [Scalar α]

/-- An update of a model is accepted just where it fits, and then the model is one of some sort. Where it
does not fit it is rejected, which is noted. Nothing else changes. -/
def Command.Updates (command : Command α) (w : Workspace α) (k : Nat) (fits : Prop)
    (updated : Model α → Prop) : Prop :=
  (fits ∧ ∃ t, command.perform.run w = .ok (.verdict .accepted) t ∧ updated (t.modelAt k) ∧
    (∀ i, i ≠ k → t.modelAt i = w.modelAt i) ∧ t = { w with models := t.models }) ∨
  (¬ fits ∧ ∃ reason, command.perform.run w =
    .ok (.verdict (.rejected reason)) { w with events := w.events.push (.updateRejected reason) })

namespace Session

theorem updating_run (update : Model α → Except (Rejection α) (Model α)) (k : Nat)
    (w : Workspace α) :
    (inModel k (Action.updating update)).run w =
      match update (w.modelAt k) with
      | .ok m => .ok .accepted { w with models := w.models.setIfInBounds k m }
      | .error reason =>
        .ok (.rejected reason) { w with events := w.events.push (.updateRejected reason) } := by
  have hmodel : (w.scene k).model = w.modelAt k := rfl
  rw [inModel_run, Action.updating_run, hmodel]
  cases update (w.modelAt k) with
  | ok m => rfl
  | error reason =>
      have hsame : w.withScene k { w.scene k with events := w.events.push (.updateRejected reason) } =
          { w with events := w.events.push (.updateRejected reason) } :=
        congrArg (fun t : Workspace α => { t with events := w.events.push (.updateRejected reason) })
          (w.withScene_scene k)
      exact congrArg _ hsame

theorem mapM_refOf_run_of_some {names : List String} {columns : List Ref} {w : Workspace α}
    (h : names.mapM w.refOf? = some columns) : (names.mapM refOf).run w = .ok columns w := by
  induction names generalizing columns with
  | nil =>
      cases h
      rfl
  | cons name rest ih =>
      rw [List.mapM_cons] at h ⊢
      obtain ⟨r, hr, h⟩ := Option.bind_eq_some_iff.mp h
      obtain ⟨refs, hrefs, h⟩ := Option.bind_eq_some_iff.mp h
      cases h
      have href := refOf_run name w
      rw [hr] at href
      rw [run_bind_of_ok href, run_bind_of_ok (ih hrefs)]
      rfl

end Session

omit [Scalar α] in
theorem Action.shaped_setColumns {c : Scene α} (hc : c.model.Shaped) (columns : List Ref) :
    (leaves (updating (·.setColumns columns)) c).model.Shaped := by
  have hrun := updating_run (·.setColumns columns) c
  cases hm : c.model.setColumns columns with
  | error reason =>
      simp only [hm] at hrun
      rw [leaves_of_ok hrun]
      exact hc
  | ok m =>
      simp only [hm] at hrun
      rw [leaves_of_ok hrun]
      exact hc.setColumns hm

theorem perform_shaped (command : Command α) {w : Workspace α} (hready : w.Ready)
    (hw : ∀ k, (w.modelAt k).Shaped) (k : Nat) : ((leaves command.perform w).modelAt k).Shaped := by
  rcases perform_cases command hready with h | ⟨name, v, h⟩ | ⟨i, columns, -, h⟩
  · exact h.shaped k (hw k)
  · rw [h]
    exact hw k
  · rw [h]
    rcases w.modelAt_withScene_cases i k
      (leaves (Action.updating (·.setColumns columns)) (w.scene i)) with ⟨hnew, rfl⟩ | hsame
    · rw [hnew]
      exact Action.shaped_setColumns (c := w.scene i) (hw i) columns
    · rw [hsame]
      exact hw k

theorem Workspace.Reachable.shaped {w : Workspace α} (hw : w.Reachable) (k : Nat) :
    (w.modelAt k).Shaped := by
  induction hw generalizing k with
  | start =>
      rw [modelAt_empty]
      exact .empty
  | step command hw ih => exact perform_shaped command hw.ready ih k

theorem Workspace.modelAt_set {w : Workspace α} {k : Nat} (hk : k < w.models.size) (m : Model α)
    (i : Nat) : ({ w with models := w.models.setIfInBounds k m } : Workspace α).modelAt i =
      if i = k then m else w.modelAt i := by
  simp only [modelAt, Array.getD_eq_getD_getElem?, Array.getElem?_setIfInBounds]
  by_cases hi : i = k
  · rw [if_pos hi, if_pos hi.symm, if_pos hk, Option.getD_some]
  · rw [if_neg hi, if_neg (Ne.symm hi)]

theorem Command.updates_of_decides {command : Command α} {w : Workspace α} {k : Nat}
    (hk : k < w.models.size) (update : Model α → Except (Rejection α) (Model α))
    {x : Session α (Verdict α)} (hperform : command.perform = do return .verdict (← x))
    (hx : x.run w = (Session.inModel k (Action.updating update)).run w)
    {fits : Prop} (h : Decides (fun _ => True) (update (w.modelAt k)) fits)
    {updated : Model α → Prop} (hupdated : ∀ m, update (w.modelAt k) = .ok m → updated m) :
    command.Updates w k fits updated := by
  have hupdate := hx.trans (Session.updating_run update k w)
  rw [Updates, hperform]
  rcases h with ⟨hfits, m, hm⟩ | ⟨hfits, reason, hreason, -⟩
  · simp only [hm] at hupdate
    refine .inl ⟨hfits, _, run_bind_of_ok hupdate, ?_, fun i hi => ?_, rfl⟩
    · rw [Workspace.modelAt_set hk, if_pos rfl]
      exact hupdated m hm
    · rw [Workspace.modelAt_set hk, if_neg hi]
  · simp only [hreason] at hupdate
    exact .inr ⟨hfits, reason, run_bind_of_ok hupdate⟩

/-- Whatever commands came before, the parts of every model fit each other. Columns, rows and an objective
are accepted just where they fit the parts that are there, and then replace their own part and nothing
else; where they do not fit they are rejected, and everything stays as it is. -/
theorem models_shaped (commands : List (Command α)) (k : Nat)
    (hk : k < (Workspace.after commands).models.size) :
    let w := Workspace.after commands
    let m := w.modelAt k
    m.Shaped ∧
      (∀ names columns, names.mapM w.refOf? = some columns →
        (Command.setColumns k names).Updates w k (m.TakesColumns columns)
          fun m' => m' = { m with columns := some columns }) ∧
      (∀ matrix rhs symbols,
        (Command.setRows k matrix rhs symbols).Updates w k (m.TakesRows matrix rhs symbols) fun m' =>
          ∃ rows, m' = { m with rows := some rows } ∧ rows.map (·.coefficients) = matrix ∧
            rows.map (·.rhs) = rhs ∧ rows.map (·.relation.symbol) = symbols) ∧
      ∀ word coefficients,
        (Command.setObjective k word coefficients).Updates w k (m.TakesObjective word coefficients)
          fun m' => ∃ sense : Sense, sense.word = word ∧
            m' = { m with objective := some ⟨sense, coefficients⟩ } := by
  intro w m
  refine ⟨(Workspace.reachable_after commands).shaped k, fun names columns hnames => ?_,
    fun matrix rhs symbols => ?_, fun word coefficients => ?_⟩
  · have hlookup : (Session.setColumns k names).run w =
        (Session.inModel k (Action.updating (·.setColumns columns))).run w :=
      run_bind_of_ok (Session.mapM_refOf_run_of_some hnames)
    exact Command.updates_of_decides hk (·.setColumns columns) rfl hlookup
      (m.setColumns_decides columns) fun m' h => Model.eq_of_setColumns h
  · exact Command.updates_of_decides hk (·.setRows matrix rhs symbols) rfl rfl
      (m.setRows_decides matrix rhs symbols) fun m' h => Model.rows_of_setRows h
  · refine Command.updates_of_decides hk (·.setObjective word coefficients) rfl rfl
      (m.setObjective_decides word coefficients) fun m' h => ?_
    obtain ⟨sense, hsense, hm'⟩ := Model.eq_of_setObjective h
    exact ⟨sense, Sense.ofWord?_eq_some_iff.mp hsense, hm'⟩

theorem models_shaped_oneColumn :
    let w := Workspace.after oneColumn
    0 < w.models.size ∧ (w.modelAt 0).Shaped ∧
      (∃ t, (Command.setObjective 0 "max" [3]).perform.run w = .ok (.verdict .accepted) t) ∧
      ∃ reason, (Command.setObjective 0 "max" [1, 2]).perform.run w =
        .ok (.verdict (.rejected reason))
          { w with events := w.events.push (.updateRejected reason) } := by
  have hk : 0 < (Workspace.after oneColumn).models.size := by decide +kernel
  have hc : ((Workspace.after oneColumn).modelAt 0).columns = some [0] := by decide +kernel
  obtain ⟨hshaped, -, -, hobjective⟩ := models_shaped oneColumn 0 hk
  refine ⟨hk, hshaped, ?_, ?_⟩
  · rcases hobjective "max" [3] with ⟨-, t, ht, -⟩ | ⟨hfits, -⟩
    · exact ⟨t, ht⟩
    · refine absurd ⟨⟨.max, rfl⟩, fun columns hcolumns => ?_⟩ hfits
      rw [Option.some.inj (hcolumns.symm.trans hc)]
      rfl
  · rcases hobjective "max" [1, 2] with ⟨⟨-, hfits⟩, -⟩ | ⟨-, h⟩
    · cases hfits _ hc
    · exact h

end MilpRounding
