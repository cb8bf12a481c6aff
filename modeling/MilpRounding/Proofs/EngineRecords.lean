import MilpRounding.Proofs.RepeatedRuns

namespace MilpRounding

variable {α : Type} [Scalar α]

abbrev Exchange (α : Type) [Scalar α] := Command α × Except (Fault α) (Answer α)

/-- Who hears the report of a command while the engines have these listeners. -/
def Command.audience (listeners : Nat → Option Listener) : Command α → Option Listener
  | .launch e | .launchNested e => listeners e
  | .roundOnce _ _ _ on listener => if on then some listener else none
  | _ => none

def hearing (listener : Option Listener) :
    Except (Fault α) (Report α) → List (Listener × Report α)
  | .ok r => (listener.map (·, r)).toList
  | .error _ => []

def Exchange.heard (listeners : Nat → Option Listener) :
    Exchange α → List (Listener × Report α)
  | (command, .ok (.report r)) => hearing (command.audience listeners) (.ok r)
  | _ => []

theorem Exchange.heard_report (listeners : Nat → Option Listener) (command : Command α)
    (answer : Except (Fault α) (Report α)) :
    Exchange.heard listeners (command, answer.map .report) =
      hearing (command.audience listeners) answer := by
  cases answer <;> rfl

theorem Exchange.heard_of_audience {listeners : Nat → Option Listener} {command : Command α}
    (h : command.audience listeners = none) (answer : Except (Fault α) (Answer α)) :
    Exchange.heard listeners (command, answer) = [] := by
  rw [Exchange.heard.eq_def]
  split
  next heq =>
    cases heq
    rw [h]
    rfl
  next => rfl

/-- What a command makes of the engines, whether it succeeds or fails. -/
def Command.onEngines (engines : Array (Engine α)) : Command α → Array (Engine α)
  | .newEngine k options => engines.push { model := k, options }
  | .setIndices e indices =>
    engines.modify e fun g => { g with indices := some (Rounding.distinct indices) }
  | .listen e on listener =>
    engines.modify e fun g => { g with listener := if on then some listener else none }
  | _ => engines

namespace Workspace

def listenerOf (w : Workspace α) (e : Nat) : Option Listener := w.engines[e]?.bind (·.listener)

theorem engines_hear (w : Workspace α) (e : Nat) (r : Report α) :
    (w.hear e r).engines = w.engines := by
  obtain ⟨heard, hheard⟩ := w.hear_eq e r
  rw [hheard]

theorem heard_hear (w : Workspace α) (e : Nat) (r : Report α) :
    (w.hear e r).heard.toList = w.heard.toList ++ hearing (w.listenerOf e) (.ok r) := by
  rw [hear, hearing, listenerOf]
  cases w.engines[e]?.bind (·.listener) with
  | none => simp
  | some listener => simp

end Workspace

namespace Session

/-- The engines that a session leaves, and what is heard of it. -/
structure Records {β : Type} (x : Session α β) (w : Workspace α) (engines : Array (Engine α))
    (news : List (Listener × Report α)) : Prop where
  engines : (leaves x w).engines = engines
  heard : (leaves x w).heard.toList = w.heard.toList ++ news

section Records

variable {β γ : Type} {w v : Workspace α} {engines : Array (Engine α)}
  {news : List (Listener × Report α)} {listener : Option Listener} {f : Fault α} {r : Report α}

theorem Records.answered {x : Session α β} (h : x.Records w engines news) (f : β → γ) :
    Records (do return f (← x)) w engines news := by
  have hleaves : leaves (do return f (← x)) w = leaves x w := leaves_bind_pure x f w
  constructor
  · rw [hleaves, h.engines]
  · rw [hleaves, h.heard]

theorem records_of_error {x : Session α (Report α)} (h : x.run w = .error f v)
    (hengines : v.engines = w.engines) (hheard : v.heard = w.heard) :
    x.Records w w.engines (hearing listener (answers x w)) := by
  constructor
  · rw [leaves_of_error h, hengines]
  · rw [leaves_of_error h, answers_of_error h, hheard, hearing, List.append_nil]

theorem records_of_ok {x : Session α (Report α)} (h : x.run w = .ok r v)
    (hengines : v.engines = w.engines)
    (hheard : v.heard.toList = w.heard.toList ++ hearing listener (.ok r)) :
    x.Records w w.engines (hearing listener (answers x w)) := by
  constructor
  · rw [leaves_of_ok h, hengines]
  · rw [leaves_of_ok h, answers_of_ok h, hheard]

end Records

abbrev Quiet {β : Type} (x : Session α β) : Prop :=
  ∀ engines heard, Keeps (fun w : Workspace α => w.engines = engines ∧ w.heard = heard) x

theorem Quiet.records {β : Type} {x : Session α β} (hx : x.Quiet) (w : Workspace α) :
    x.Records w w.engines [] := by
  obtain ⟨hengines, hheard⟩ := hx w.engines w.heard w ⟨rfl, rfl⟩
  constructor
  · exact hengines
  · rw [hheard, List.append_nil]

theorem Quiet.answered {β γ : Type} {x : Session α β} (hx : x.Quiet) (f : β → γ) :
    Quiet (do return f (← x)) :=
  fun engines heard => keeps_bind (hx engines heard) fun _ => keeps_pure _

theorem inModel_quiet {β : Type} (k : Nat) (action : Action α β) : (inModel k action).Quiet := by
  intro engines heard w hw
  rw [leaves_inModel]
  exact hw

theorem change_quiet (name : String) (f : Variable α → Except (Fault α) (Variable α)) :
    (change name f).Quiet :=
  fun _ _ => keeps_bind (keeps_refOf name) fun _ => keeps_get fun _ _ =>
    keeps_bind (keeps_ofExcept _) fun _ => keeps_modify fun _ h => h

theorem makeVariable_quiet (name kind : String) (value low high : α) :
    (makeVariable name kind value low high).Quiet := by
  intro engines heard w hw
  obtain hsame | ⟨_, _, -, hmade⟩ := makeVariable_leaves name kind value low high w
  · rwa [hsame]
  · rw [hmade]
    exact hw

theorem moveColumn_quiet (e : Nat) (j : Int) : (moveColumn e j : Session α Bool).Quiet :=
  fun engines heard => keeps_bind (keeps_engineAt e) fun g =>
    keeps_bind (keeps_askModel g.model _) fun _ => keeps_bind (keeps_askModel g.model _) fun _ =>
      inModel_quiet g.model _ engines heard

section Change

variable {e : Nat} {w : Workspace α} (f : Engine α → Engine α)

theorem changeEngine_run {g : Engine α} (hg : w.engines[e]? = some g) :
    (changeEngine e f).run w = .ok () { w with engines := w.engines.modify e f } :=
  run_bind_of_ok (engineAt_run hg)

theorem changeEngine_run_of_none (hg : w.engines[e]? = none) :
    (changeEngine e f).run w = .error (.unknownName "engine") w :=
  run_bind_of_error (engineAt_run_of_none hg)

variable (e w)

theorem changeEngine_records : (changeEngine e f).Records w (w.engines.modify e f) [] := by
  cases hg : w.engines[e]? with
  | none =>
      have h := changeEngine_run_of_none f hg
      have hsame : w.engines.modify e f = w.engines := by
        apply Array.ext_getElem?
        intro i
        rw [Array.getElem?_modify]
        split
        next hi => rw [← hi, hg, Option.map_none]
        next => rfl
      constructor
      · rw [leaves_of_error h, hsame]
      · rw [leaves_of_error h, List.append_nil]
  | some g =>
      have h := changeEngine_run f hg
      constructor
      · rw [leaves_of_ok h]
      · rw [leaves_of_ok h, List.append_nil]

end Change

/-- A launch leaves the engines as they are, also when its engine refuses it. -/
theorem launch_records (e : Nat) (w : Workspace α) :
    (launch e).Records w w.engines (hearing (w.listenerOf e) (answers (launch e) w)) := by
  cases hg : w.engines[e]? with
  | none => exact records_of_error (run_bind_of_error (engineAt_run_of_none hg)) rfl rfl
  | some g =>
      cases hr : g.running with
      | true => exact records_of_error (guarded_run_of_running hg hr (runEngine e)) rfl rfl
      | false =>
          have h := launch_run hg hr
          cases hrun : (Rounding.run g.options g.indices).run (w.scene g.model) with
          | error f c =>
              rw [hrun] at h
              exact records_of_error h rfl rfl
          | ok r c =>
              rw [hrun] at h
              exact records_of_ok h (Workspace.engines_hear _ e r) (Workspace.heard_hear _ e r)

theorem launchNested_records (e : Nat) (w : Workspace α) :
    (launchNested e).Records w w.engines
      (hearing (w.listenerOf e) (answers (launchNested e) w)) := by
  cases hg : w.engines[e]? with
  | none => exact records_of_error (run_bind_of_error (engineAt_run_of_none hg)) rfl rfl
  | some g =>
      cases hr : g.running with
      | true => exact records_of_error (guarded_run_of_running hg hr (launch e)) rfl rfl
      | false => exact records_of_error (launchNested_run hg hr) rfl rfl

theorem roundOnce_records (k : Nat) (options : Options α) (indices : List Int)
    (listener : Option Listener) (w : Workspace α) :
    (roundOnce k options indices listener).Records w w.engines
      (hearing listener (answers (roundOnce k options indices listener) w)) := by
  have h := inModel_run k (Rounding.run options (some (Rounding.distinct indices))) w
  cases hrun : (Rounding.run options (some (Rounding.distinct indices))).run (w.scene k) with
  | error f c =>
      rw [hrun] at h
      exact records_of_error (run_bind_of_error h) rfl rfl
  | ok r c =>
      rw [hrun] at h
      cases listener with
      | none => exact records_of_ok (run_bind_of_ok h) rfl (List.append_nil _).symm
      | some listener => exact records_of_ok (run_bind_of_ok h) rfl Array.toList_push

end Session

open Session

/-- What a command does to the engines and what is heard of it, in every workspace. -/
theorem perform_records (command : Command α) (w : Workspace α) :
    command.perform.Records w (command.onEngines w.engines)
      (Exchange.heard w.listenerOf (command, answers command.perform w)) := by
  -- three sorts of commands: not heard, leaving the engines alone besides, and reporting
  have unheard (hx : command.perform.Records w (command.onEngines w.engines) [])
      (haudience : command.audience w.listenerOf = none) :
      command.perform.Records w (command.onEngines w.engines)
        (Exchange.heard w.listenerOf (command, answers command.perform w)) := by
    rw [Exchange.heard_of_audience haudience]
    exact hx
  have quiet (hx : command.perform.Quiet) (hengines : command.onEngines w.engines = w.engines)
      (haudience : command.audience w.listenerOf = none) :
      command.perform.Records w (command.onEngines w.engines)
        (Exchange.heard w.listenerOf (command, answers command.perform w)) := by
    refine unheard ?_ haudience
    rw [hengines]
    exact hx.records w
  have reported {x : Session α (Report α)}
      (hx : x.Records w w.engines (hearing (command.audience w.listenerOf) (answers x w))) :
      Records (do return Answer.report (← x)) w w.engines
        (Exchange.heard w.listenerOf (command, answers (do return Answer.report (← x)) w)) := by
    rw [answers_bind_pure x Answer.report w, Exchange.heard_report]
    exact hx.answered Answer.report
  cases command with
  | makeVariable name kind value low high =>
      exact quiet ((makeVariable_quiet name kind value low high).answered _) rfl rfl
  | inspect name =>
      refine quiet (fun _ _ => ?_) rfl rfl
      exact keeps_bind (keeps_bind (keeps_refOf name) fun r => keeps_get fun _ _ => keeps_pure _)
        fun v => keeps_bind (keeps_ofExcept _) fun _ => keeps_pure _
  | withValue name _ | withKind name _ =>
      exact quiet ((change_quiet name _).answered _) rfl rfl
  | newModel =>
      refine quiet (fun _ _ => ?_) rfl rfl
      exact keeps_bind (keeps_modify fun _ h => h) fun _ => keeps_pure _
  | setColumns k names =>
      refine quiet (Quiet.answered (fun _ _ => ?_) _) rfl rfl
      exact keeps_bind (keeps_mapM_refOf names) fun _ => inModel_quiet k _ _ _
  | setRows k | setObjective k | relaxColumns k | convert k =>
      exact quiet ((inModel_quiet k _).answered _) rfl rfl
  | orient k =>
      refine quiet (fun _ _ => ?_) rfl rfl
      exact keeps_bind (keeps_ofExcept _) fun _ =>
        keeps_bind (inModel_quiet k _ _ _) fun _ => keeps_pure _
  | violated k | feasible k =>
      exact quiet (Quiet.answered (fun _ _ => keeps_askModel k _) _) rfl rfl
  | ask k query => exact quiet (fun _ _ => keeps_askModel k query.answer) rfl rfl
  | newEngine k options => exact unheard ⟨rfl, (List.append_nil _).symm⟩ rfl
  | setIndices e | listen e => exact unheard ((changeEngine_records e w _).answered _) rfl
  | heard => exact quiet (fun _ _ => keeps_get fun _ _ => keeps_pure _) rfl rfl
  | limits e | target e | totals e =>
      exact quiet (Quiet.answered (fun _ _ => keeps_askEngine e _) _) rfl rfl
  | moveColumn e j => exact quiet ((moveColumn_quiet e j).answered _) rfl rfl
  | launch e => exact reported (launch_records e w)
  | launchNested e => exact reported (launchNested_records e w)
  | roundOnce k indices options => exact reported (roundOnce_records k options indices _ w)

end MilpRounding
