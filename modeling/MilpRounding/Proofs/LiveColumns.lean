import MilpRounding.Proofs.ReachableWorkspace

namespace MilpRounding

variable {α : Type} [Scalar α]

structure Workspace.Live (w : Workspace α) : Prop where
  names : ∀ name r, w.refOf? name = some r → r < w.store.size
  columns : ∀ k columns, (w.modelAt k).columns = some columns → ∀ r ∈ columns, r < w.store.size

namespace Workspace

variable {w t : Workspace α}

theorem modelAt_empty (k : Nat) : ({} : Workspace α).modelAt k = {} := by
  rw [modelAt, Array.getD_eq_getD_getElem?]
  cases k <;> rfl

theorem live_empty : Live ({} : Workspace α) where
  names _ _ h := nomatch h
  columns k columns h := by
    rw [modelAt_empty] at h
    cases h

theorem Live.revised (hw : w.Live) (h : w.Revised t) : t.Live where
  names name r hr := by
    rw [refOf?, h.names] at hr
    rw [h.store.size_eq]
    exact hw.names name r hr
  columns k columns hc := by
    rw [h.columns k] at hc
    rw [h.store.size_eq]
    exact hw.columns k columns hc

theorem Live.add (hw : w.Live) (name : String) (v : Variable α) :
    Live { w with store := w.store.add v, names := (name, w.store.size) :: w.names } := by
  have hsize : (w.store.add v).size = w.store.size + 1 := Array.size_push v
  constructor
  · intro other r hr
    simp only [hsize]
    rw [refOf?, List.lookup_cons] at hr
    split at hr
    next =>
      cases hr
      exact Nat.lt_succ_self _
    next => exact Nat.lt_succ_of_lt (hw.names other r hr)
  · intro k columns hc r hr
    simp only [hsize]
    exact Nat.lt_succ_of_lt (hw.columns k columns hc r hr)

theorem Live.withScene (hw : w.Live) {k : Nat} {c : Scene α} (hsize : c.store.size = w.store.size)
    (hc : ∀ columns, c.model.columns = some columns → ∀ r ∈ columns, r < w.store.size) :
    (w.withScene k c).Live := by
  constructor
  · intro name r hr
    exact hsize ▸ hw.names name r hr
  · intro i columns hi
    change ∀ r ∈ columns, r < c.store.size
    rw [hsize]
    rcases w.modelAt_withScene_cases k i c with ⟨h, -⟩ | h
    · exact hc columns (h ▸ hi)
    · exact hw.columns i columns (h ▸ hi)

end Workspace

namespace Action

theorem Revises.leaves_revised {β : Type} {x : Action α β} (h : x.Revises) (c : Scene α) :
    c.store.Revised (leaves x c).store :=
  h c.store c (.refl c.store)

omit [Scalar α] in
theorem columns_setColumns (columns : List Ref) (c : Scene α) :
    let d := leaves (updating (·.setColumns columns)) c
    d.model.columns = c.model.columns ∨ d.model.columns = some columns := by
  have hrun := updating_run (·.setColumns columns) c
  cases hm : c.model.setColumns columns with
  | error reason =>
      simp only [hm] at hrun
      rw [leaves_of_ok hrun]
      exact .inl rfl
  | ok m =>
      simp only [hm] at hrun
      rw [leaves_of_ok hrun, Model.eq_of_setColumns hm]
      exact .inr rfl

end Action

namespace Session

theorem refOf_run (name : String) (w : Workspace α) : (refOf name).run w =
    match w.refOf? name with
    | some r => .ok r w
    | none => .error (.unknownName name) w := by
  rw [refOf, run_get_bind]
  cases w.refOf? name <;> rfl

theorem mapM_refOf_run (names : List String) (w : Workspace α) :
    (∃ f, (names.mapM refOf).run w = .error f w) ∨
      ∃ columns, (names.mapM refOf).run w = .ok columns w ∧
        ∀ r ∈ columns, ∃ name, w.refOf? name = some r := by
  induction names with
  | nil => exact .inr ⟨[], rfl, fun r hr => nomatch hr⟩
  | cons name rest ih =>
      rw [List.mapM_cons]
      have href := refOf_run name w
      cases hname : w.refOf? name with
      | none =>
          rw [hname] at href
          exact .inl ⟨_, run_bind_of_error href⟩
      | some r =>
          rw [hname] at href
          rw [run_bind_of_ok href]
          rcases ih with ⟨f, hrest⟩ | ⟨columns, hrest, hcolumns⟩
          · exact .inl ⟨f, run_bind_of_error hrest⟩
          · refine .inr ⟨r :: columns, run_bind_of_ok hrest, ?_⟩
            intro t ht
            rcases List.mem_cons.mp ht with rfl | ht
            · exact ⟨name, hname⟩
            · exact hcolumns t ht

end Session

theorem Workspace.Live.setColumns {w : Workspace α} (hw : w.Live) (k : Nat) {columns : List Ref}
    (hcolumns : ∀ r ∈ columns, ∃ name, w.refOf? name = some r) :
    (w.withScene k (leaves (Action.updating (·.setColumns columns)) (w.scene k))).Live := by
  refine hw.withScene ?_ fun set hset r hr => ?_
  · exact ((Action.updating_revises _).leaves_revised (w.scene k)).size_eq
  · rcases Action.columns_setColumns columns (w.scene k) with hsame | hnew
    · rw [hsame] at hset
      exact hw.columns k set hset r hr
    · obtain rfl : columns = set := Option.some.inj (hnew.symm.trans hset)
      obtain ⟨name, hname⟩ := hcolumns r hr
      exact hw.names name r hname

open Session in
/-- A command leaves the columns of all models as they are, adds a variable, or sets the columns of one
model to variables that exist. -/
theorem perform_cases (command : Command α) {w : Workspace α} (hw : w.Ready) :
    let t := leaves command.perform w
    w.Revised t ∨
      (∃ name v, t = { w with
        store := w.store.add v, names := (name, w.store.size) :: w.names }) ∨
      ∃ k columns, (∀ r ∈ columns, ∃ name, w.refOf? name = some r) ∧
        t = w.withScene k (leaves (Action.updating (·.setColumns columns)) (w.scene k)) := by
  rcases perform_keepsColumns command with
    ⟨name, kind, value, low, high, rfl⟩ | ⟨k, names, rfl⟩ | h
  · have hperform : leaves (Command.makeVariable name kind value low high).perform w =
        leaves (makeVariable name kind value low high) w := leaves_bind_pure _ _ w
    rw [hperform]
    obtain hsame | ⟨_, v, -, hmade⟩ := makeVariable_leaves name kind value low high w
    · rw [hsame]
      exact .inl hw.revised
    · exact .inr (.inl ⟨name, v, hmade⟩)
  · have hperform : leaves (Command.setColumns k names).perform w =
        leaves (setColumns k names) w := leaves_bind_pure _ _ w
    rw [hperform]
    rcases mapM_refOf_run names w with ⟨f, hrun⟩ | ⟨columns, hrun, hcolumns⟩
    · rw [leaves_of_error (show (setColumns k names).run w = _ from run_bind_of_error hrun)]
      exact .inl hw.revised
    · have hleaves : leaves (setColumns k names) w =
          leaves (inModel k (Action.updating (·.setColumns columns))) w := leaves_bind_of_ok hrun
      rw [hleaves, leaves_inModel]
      exact .inr (.inr ⟨k, columns, hcolumns, rfl⟩)
  · exact .inl (h w w hw.revised)

theorem perform_live (command : Command α) {w : Workspace α} (hready : w.Ready) (hw : w.Live) :
    (leaves command.perform w).Live := by
  rcases perform_cases command hready with h | ⟨name, v, h⟩ | ⟨k, columns, hcolumns, h⟩
  · exact hw.revised h
  · rw [h]
    exact hw.add name v
  · rw [h]
    exact hw.setColumns k hcolumns

theorem Workspace.Reachable.live {w : Workspace α} (hw : w.Reachable) : w.Live := by
  induction hw with
  | start => exact Workspace.live_empty
  | step command hw ih => exact perform_live command hw.ready ih

end MilpRounding
