import MilpRounding.Proofs.EngineRecords
import MilpRounding.Proofs.LaunchOutcome

namespace MilpRounding

open Rounding Session

variable {α : Type} [Scalar α]

def Exchange.listeners (listeners : Nat → Option Listener) :
    Exchange α → Nat → Option Listener
  | (.listen e on listener, .ok _), i =>
    if i = e then if on then some listener else none else listeners i
  | _, i => listeners i

/-- What is heard of exchanges that follow each other, the first of them with these listeners. -/
def heardOf (listeners : Nat → Option Listener) : List (Exchange α) → List (Listener × Report α)
  | [] => []
  | x :: rest => x.heard listeners ++ heardOf (x.listeners listeners) rest

namespace Workspace

def exchanges (w : Workspace α) : List (Command α) → List (Exchange α)
  | [] => []
  | command :: rest =>
    (command, answers command.perform w) :: (leaves command.perform w).exchanges rest

/-- The workspaces that the run of an engine can pass through: its work changes the scenes of models,
and commands may be performed meanwhile. -/
inductive DuringRun (w : Workspace α) (e : Nat) : Workspace α → Prop
  | start : DuringRun w e (w.setRunning e true)
  | work {v : Workspace α} (k : Nat) (c : Scene α) :
    DuringRun w e v → DuringRun w e (v.withScene k c)
  | command {v : Workspace α} (command : Command α) :
    DuringRun w e v → DuringRun w e (leaves command.perform v)

/-- What holds of a workspace after exchanges. -/
structure KeepsProtocol (w : Workspace α) (past : List (Exchange α)) : Prop where
  ready : w.Ready
  /-- Whatever is done in a run, its engine is ready afterwards. -/
  released : ∀ (e : Nat) (body : Session α (Report α)) (g : Engine α),
    (leaves (guarded e body) w).engines[e]? = some g → g.running = false
  admitted : ∀ (e : Nat) (f : Fault α), answers (launch e) w = .error f → f.category ≠ .state
  /-- In the course of a run its engine refuses every other one, whatever is to be done in it, and
  nothing is changed by that. -/
  refused : ∀ (e : Nat) (v : Workspace α), w.engines[e]?.isSome = true → w.DuringRun e v →
    ∀ body : Session α (Report α), (guarded e body).run v = .error .reentrant v
  nested : ∀ e : Nat, w.engines[e]?.isSome = true →
    (launchNested e).run w = .error .reentrant w
  /-- Whatever is done in a run, its report is heard once, by the listener at its end; a fault is not
  heard. -/
  concluded : ∀ (e : Nat) (body : Session α (Report α)), w.engines[e]?.isSome = true →
    let v := leaves body (w.setRunning e true)
    let answer := answers body (w.setRunning e true)
    answers (guarded e body) w = answer ∧
      (leaves (guarded e body) w).heard.toList =
        v.heard.toList ++ hearing (v.listenerOf e) answer
  heard : w.heard.toList = heardOf (fun _ => none) past

end Workspace

theorem Command.running_onEngines (command : Command α) {engines : Array (Engine α)} {e : Nat}
    {g : Engine α} (hg : engines[e]? = some g) :
    ∃ g', (command.onEngines engines)[e]? = some g' ∧ g'.running = g.running := by
  have modified {f : Engine α → Engine α} (hf : ∀ g, (f g).running = g.running) (i : Nat) :
      ∃ g', (engines.modify i f)[e]? = some g' ∧ g'.running = g.running := by
    rw [Array.getElem?_modify, hg]
    split
    next => exact ⟨f g, rfl, hf g⟩
    next => exact ⟨g, rfl, rfl⟩
  cases command with
  | newEngine k options =>
      obtain ⟨he, -⟩ := Array.getElem?_eq_some_iff.mp hg
      refine ⟨g, ?_, rfl⟩
      rw [onEngines, Array.getElem?_push_lt he]
      exact (Array.getElem?_eq_getElem he).symm.trans hg
  | setIndices i | listen i =>
      refine modified (fun g => ?_) i
      rfl
  | _ => exact ⟨g, hg, rfl⟩

namespace Workspace

variable {w v : Workspace α} {e : Nat}

theorem DuringRun.running (h : w.DuringRun e v) {g : Engine α} (hg : w.engines[e]? = some g) :
    ∃ g', v.engines[e]? = some g' ∧ g'.running = true := by
  induction h with
  | start => exact ⟨_, engineAt_setRunning hg, rfl⟩
  | work k c _ ih => exact ih
  | command command _ ih =>
      obtain ⟨g', hg', hr⟩ := ih
      rw [(perform_records command _).engines]
      obtain ⟨g'', hg'', hr'⟩ := command.running_onEngines hg'
      exact ⟨g'', hg'', hr'.trans hr⟩

theorem listener_modify (engines : Array (Engine α)) (i j : Nat) (f : Engine α → Engine α) :
    (engines.modify j f)[i]?.bind (·.listener) =
      if i = j then engines[i]?.bind fun g => (f g).listener
      else engines[i]?.bind (·.listener) := by
  rw [Array.getElem?_modify]
  by_cases hi : j = i
  · rw [if_pos hi, if_pos hi.symm, Option.bind_map]
    rfl
  · rw [if_neg hi, if_neg (Ne.symm hi)]

theorem listenerOf_setRunning (w : Workspace α) (e : Nat) (running : Bool) :
    (w.setRunning e running).listenerOf e = w.listenerOf e := by
  rw [listenerOf, setRunning, listener_modify, if_pos rfl]
  rfl

theorem listenerOf_perform (command : Command α) (w : Workspace α) :
    (leaves command.perform w).listenerOf =
      Exchange.listeners w.listenerOf (command, answers command.perform w) := by
  funext i
  rw [listenerOf, (perform_records command w).engines]
  cases command with
  | newEngine k options =>
      change (w.engines.push _)[i]?.bind _ = w.engines[i]?.bind _
      rw [Array.getElem?_push]
      split
      next hi =>
        rw [hi, Array.getElem?_eq_none (Nat.le_refl _)]
        rfl
      next => rfl
  | setIndices e indices =>
      rw [Command.onEngines, listener_modify]
      split
      next => rfl
      next => rfl
  | listen e on listener =>
      have hanswers : answers (Command.listen e on listener).perform w = _ :=
        answers_bind_pure (Session.listen e (if on then some listener else none))
          (fun _ => Answer.done) w
      rw [Command.onEngines, listener_modify, hanswers, Session.listen]
      cases hg : w.engines[e]? with
      | none =>
          rw [answers_of_error (changeEngine_run_of_none _ hg)]
          change _ = w.listenerOf i
          split
          next hi =>
            rw [hi, listenerOf, hg]
            rfl
          next => rfl
      | some g =>
          rw [answers_of_ok (changeEngine_run _ hg)]
          change _ = if i = e then _ else _
          split
          next hi =>
            rw [hi, hg]
            rfl
          next => rfl
  | _ => rfl

theorem heard_foldl (commands : List (Command α)) (w : Workspace α) :
    (commands.foldl (fun w command => leaves command.perform w) w).heard.toList =
      w.heard.toList ++ heardOf w.listenerOf (w.exchanges commands) := by
  induction commands generalizing w with
  | nil => exact (List.append_nil _).symm
  | cons command rest ih =>
      rw [List.foldl_cons, ih, (perform_records command w).heard, exchanges, heardOf,
        listenerOf_perform, List.append_assoc]

theorem running_setRunning {running : Bool} {g : Engine α}
    (hg : (w.setRunning e running).engines[e]? = some g) : g.running = running := by
  rw [setRunning, Array.getElem?_modify, if_pos rfl] at hg
  obtain ⟨g', -, rfl⟩ := Option.map_eq_some_iff.mp hg
  rfl

end Workspace

namespace Session

open Workspace

variable {w : Workspace α} {e : Nat}

theorem guarded_released (hw : w.Ready) (body : Session α (Report α)) {g : Engine α}
    (hg : (leaves (guarded e body) w).engines[e]? = some g) : g.running = false := by
  cases hengine : w.engines[e]? with
  | none =>
      have h : (guarded e body).run w = .error (.unknownName "engine") w :=
        run_bind_of_error (engineAt_run_of_none hengine)
      rw [leaves_of_error h, hengine] at hg
      cases hg
  | some g' =>
      have h := guarded_run hengine (hw e g' hengine) body
      cases hbody : body.run (w.setRunning e true) with
      | ok r v =>
          rw [hbody] at h
          rw [leaves_of_ok h, engines_hear] at hg
          exact running_setRunning hg
      | error f v =>
          rw [hbody] at h
          rw [leaves_of_error h] at hg
          exact running_setRunning hg

theorem guarded_concluded {g : Engine α} (hg : w.engines[e]? = some g) (hr : g.running = false)
    (body : Session α (Report α)) :
    let v := leaves body (w.setRunning e true)
    let answer := answers body (w.setRunning e true)
    answers (guarded e body) w = answer ∧
      (leaves (guarded e body) w).heard.toList =
        v.heard.toList ++ hearing (v.listenerOf e) answer := by
  have h := guarded_run hg hr body
  cases hbody : body.run (w.setRunning e true) with
  | ok r v =>
      rw [hbody] at h
      rw [leaves_of_ok hbody, answers_of_ok hbody, leaves_of_ok h, answers_of_ok h, heard_hear,
        listenerOf_setRunning]
      exact ⟨rfl, rfl⟩
  | error f v =>
      rw [hbody] at h
      rw [leaves_of_error hbody, answers_of_error hbody, leaves_of_error h, answers_of_error h]
      exact ⟨rfl, (List.append_nil _).symm⟩

theorem launch_admitted [LawfulScalar α] (hw : w.Sound) {f : Fault α}
    (h : answers (launch e) w = .error f) : f.category ≠ .state := by
  cases hg : w.engines[e]? with
  | none =>
      have hrun : (launch e).run w = .error (.unknownName "engine") w :=
        run_bind_of_error (engineAt_run_of_none hg)
      rw [answers_of_error hrun] at h
      cases h
      simp [Fault.category]
  | some g =>
      cases ho : obstacle? g.options g.indices (w.modelAt g.model) with
      | none =>
          obtain ⟨r, t, hrun⟩ := launch_of_ready hw hg ho
          rw [answers_of_ok hrun] at h
          cases h
      | some f' =>
          rw [answers_of_error (launch_of_obstacle hw hg ho)] at h
          cases h
          exact category_obstacle? ho

end Session

/-- The protocol holds after any commands, whichever of them fail. -/
theorem session_protocol [LawfulScalar α] (commands : List (Command α)) :
    (Workspace.after commands).KeepsProtocol (({} : Workspace α).exchanges commands) := by
  have hreach := Workspace.reachable_after commands
  have engine {e : Nat} (he : (Workspace.after commands).engines[e]?.isSome = true) :
      ∃ g, (Workspace.after commands).engines[e]? = some g ∧ g.running = false := by
    obtain ⟨g, hg⟩ := Option.isSome_iff_exists.mp he
    exact ⟨g, hg, hreach.ready e g hg⟩
  constructor
  case ready => exact hreach.ready
  case released => exact fun e body g hg => guarded_released hreach.ready body hg
  case admitted => exact fun e f h => launch_admitted hreach.sound h
  case refused =>
    intro e v he hv body
    obtain ⟨g, hg, -⟩ := engine he
    obtain ⟨g', hg', hr⟩ := hv.running hg
    exact guarded_run_of_running hg' hr body
  case nested =>
    intro e he
    obtain ⟨g, hg, hr⟩ := engine he
    exact launchNested_run hg hr
  case concluded =>
    intro e body he
    obtain ⟨g, hg, hr⟩ := engine he
    exact guarded_concluded hg hr body
  case heard =>
    have hnone : ({} : Workspace α).listenerOf = fun _ => none := by
      funext e
      simp [Workspace.listenerOf]
    rw [Workspace.after, Workspace.heard_foldl, hnone]
    rfl

example :
    let w := Workspace.after (oneColumn ++ [.launch 0, .listen 0 true 7, .launchNested 0, .launch 0,
      .setIndices 0 [3], .launch 0, .setIndices 0 [0], .listen 0 true 8, .launch 0])
    w.heard.toList.map (·.1) = [7, 8] := by
  decide +kernel

end MilpRounding
