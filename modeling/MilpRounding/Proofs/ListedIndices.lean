import MilpRounding.Proofs.DistinctIndices
import MilpRounding.Proofs.EngineRecords

namespace MilpRounding

variable {α : Type} [Scalar α]

namespace Workspace

def ListsOnce (w : Workspace α) : Prop :=
  ∀ (e : Nat) (g : Engine α) (indices : List Int),
    w.engines[e]? = some g → g.indices = some indices → indices.Nodup

variable {w : Workspace α}

theorem ListsOnce.push (hw : w.ListsOnce) {g : Engine α} (hg : g.indices = none) :
    ListsOnce { w with engines := w.engines.push g } := by
  intro e g' indices he hindices
  rw [Array.getElem?_push] at he
  split at he
  next =>
    cases he
    rw [hg] at hindices
    cases hindices
  next => exact hw e g' indices he hindices

theorem ListsOnce.modify (hw : w.ListsOnce) (e : Nat) {f : Engine α → Engine α}
    (hf : ∀ g indices, (f g).indices = some indices → indices.Nodup ∨ g.indices = some indices) :
    ListsOnce { w with engines := w.engines.modify e f } := by
  intro i g indices hi hindices
  rw [Array.getElem?_modify] at hi
  split at hi
  next =>
    obtain ⟨g', hg', rfl⟩ := Option.map_eq_some_iff.mp hi
    rcases hf g' indices hindices with h | h
    · exact h
    · exact hw i g' indices hg' h
  next => exact hw i g indices hi hindices

end Workspace

/-- Only three commands change engines, and one of those gives an engine a list. -/
theorem perform_listsOnce (command : Command α) {w : Workspace α} (hw : w.ListsOnce) :
    (leaves command.perform w).ListsOnce := by
  rw [Workspace.ListsOnce, (perform_records command w).engines]
  cases command with
  | newEngine k options => exact hw.push rfl
  | setIndices e indices =>
      refine hw.modify e fun g l hl => .inl ?_
      cases hl
      exact Rounding.nodup_distinct indices
  | listen e => exact hw.modify e fun _ _ hl => .inr hl
  | _ => exact hw

theorem Workspace.Reachable.listsOnce {w : Workspace α} (hw : w.Reachable) : w.ListsOnce := by
  induction hw with
  | start => exact fun e g indices hg => by simp at hg
  | step command _ ih => exact perform_listsOnce command ih

end MilpRounding
