import Mathlib.Data.List.Induction
import MilpRounding.Proofs.ReachableWorkspace

namespace MilpRounding

open Scalar LawfulScalar

variable {α : Type} [Scalar α]

namespace Command

variable {command : Command α} {s t : Store α} {r : Ref}

theorem Effect.bounds (h : command.Effect s t) (hr : r < s.size) :
    (t.read r).low = (s.read r).low ∧ (t.read r).high = (s.read r).high := by
  cases h with
  | revises h => exact h.bounds r
  | makes _ _ ht =>
      rw [ht, Store.read_add, if_neg (Nat.ne_of_lt hr)]
      exact ⟨rfl, rfl⟩

theorem Effect.made (h : command.Effect s t) (hr : ¬ r < s.size) (ht : r < t.size) :
    ∃ name kind value, command = .makeVariable name kind value (t.read r).low (t.read r).high ∧
      s.size = r ∧ t.size = r + 1 := by
  cases h with
  | revises h =>
      rw [h.size_eq] at ht
      exact absurd ht hr
  | @makes name kind value low high k v hcommand hv hadd =>
      have hsize : t.size = s.size + 1 := by
        rw [hadd]
        exact Array.size_push v
      rw [hsize] at ht
      obtain rfl : r = s.size := Nat.le_antisymm (Nat.le_of_lt_succ ht) (Nat.le_of_not_lt hr)
      refine ⟨name, kind, value, ?_, rfl, hsize⟩
      rw [hadd, Store.read_add, if_pos rfl, Variable.eq_of_make hv, hcommand]

end Command

namespace Workspace

theorem after_concat (commands : List (Command α)) (command : Command α) :
    after (commands ++ [command]) = leaves command.perform (after commands) := by
  rw [after, List.foldl_append]
  rfl

/-- One of the commands made the variable at a reference, with these bounds. -/
def Made (commands : List (Command α)) (r : Ref) (low high : α) : Prop :=
  ∃ earlier name kind value later,
    commands = earlier ++ .makeVariable name kind value low high :: later ∧
      (after earlier).store.size = r ∧
      (after (earlier ++ [.makeVariable name kind value low high])).store.size = r + 1

theorem Made.concat {commands : List (Command α)} {r : Ref} {low high : α}
    (h : Made commands r low high) (command : Command α) :
    Made (commands ++ [command]) r low high := by
  obtain ⟨earlier, name, kind, value, later, rfl, hsize⟩ := h
  exact ⟨earlier, name, kind, value, later ++ [command], by simp, hsize⟩

theorem made_of_lt (commands : List (Command α)) {r : Ref} (hr : r < (after commands).store.size) :
    Made commands r ((after commands).store.read r).low ((after commands).store.read r).high := by
  induction commands using List.reverseRecOn with
  | nil => exact absurd hr (Nat.not_lt_zero r)
  | append_singleton commands command ih =>
      have heffect := (perform_effect command (reachable_after commands).ready).1
      rw [← after_concat] at heffect
      by_cases hold : r < (after commands).store.size
      · obtain ⟨hlow, hhigh⟩ := heffect.bounds hold
        rw [hlow, hhigh]
        exact (ih hold).concat command
      · obtain ⟨name, kind, value, hcommand, hbefore, hsize⟩ := heffect.made hold hr
        refine ⟨commands, name, kind, value, [], ?_, hbefore, ?_⟩
        · rw [← hcommand]
        · rw [← hcommand]
          exact hsize

end Workspace

theorem error_of_bind_pure {ε σ β γ : Type} {x : EStateM ε σ β} {f : β → γ} {c d : σ} {e : ε}
    (h : (x >>= fun b => pure (f b)).run c = .error e d) : x.run c = .error e d := by
  cases hx : x.run c with
  | error e' d' =>
      rw [run_bind_of_error hx] at h
      cases h
      rfl
  | ok b d' =>
      rw [run_bind_of_ok hx] at h
      cases h

namespace Session

theorem change_error {name : String} {f : Variable α → Except (Fault α) (Variable α)}
    {w t : Workspace α} {fault : Fault α} (h : (change name f).run w = .error fault t) : t = w := by
  rw [change_run] at h
  split at h
  next =>
    cases h
    rfl
  next r =>
    split at h
    next =>
      cases h
      rfl
    next => cases h

end Session

/-- Whatever commands came before, every variable is finite, whole where its kind is integral, and
within the bounds with which it was made, as far as these are numbers; a value or a kind that is
refused changes nothing. -/
theorem variables_kept [LawfulScalar α] (commands : List (Command α)) :
    let w := Workspace.after commands
    (∀ r, r < w.store.size →
      let v := w.store.read r
      isFinite v.value = true ∧ (v.kind = .integral → ∃ z : ℤ, denote v.value = .finite z) ∧
        (isNaN v.low = false → v.low ≤ v.value) ∧ (isNaN v.high = false → v.value ≤ v.high) ∧
        Workspace.Made commands r v.low v.high) ∧
    (∀ name value fault t, (Command.withValue name value).perform.run w = .error fault t → t = w) ∧
    (∀ name kind fault t, (Command.withKind name kind).perform.run w = .error fault t → t = w) := by
  intro w
  have hsound : w.store.Sound := (Workspace.reachable_after commands).sound.store
  refine ⟨?_, ?_, ?_⟩
  · intro r hr v
    have hv : v.Sound := hsound r
    refine ⟨(Variable.admits_iff.mp hv.admitted).1, ?_, hv.low_le, hv.le_high,
      Workspace.made_of_lt commands hr⟩
    intro hk
    exact isWhole_iff_denote.mp (hv.whole hk)
  · intro name value fault t h
    exact Session.change_error (error_of_bind_pure h)
  · intro name kind fault t h
    exact Session.change_error (error_of_bind_pure h)

end MilpRounding
