import MilpRounding.Proofs.ModelUpdate
import MilpRounding.Proofs.RunOutcome
import MilpRounding.Proofs.StoreRevision
import MilpRounding.Workspace.Command

namespace MilpRounding

open Scalar LawfulScalar

section Keeps

variable {ε σ β γ : Type}

/-- The state that an action leaves, whether it succeeds or fails. -/
def leaves (x : EStateM ε σ β) (s : σ) : σ :=
  match x s with
  | .ok _ t => t
  | .error _ t => t

theorem leaves_of_ok {x : EStateM ε σ β} {b : β} {s t : σ} (h : x.run s = .ok b t) :
    leaves x s = t := by
  rw [EStateM.run] at h
  rw [leaves, h]

theorem leaves_of_error {x : EStateM ε σ β} {e : ε} {s t : σ} (h : x.run s = .error e t) :
    leaves x s = t := by
  rw [EStateM.run] at h
  rw [leaves, h]

def answers (x : EStateM ε σ β) (s : σ) : Except ε β :=
  match x s with
  | .ok b _ => .ok b
  | .error e _ => .error e

theorem answers_of_ok {x : EStateM ε σ β} {b : β} {s t : σ} (h : x.run s = .ok b t) :
    answers x s = .ok b := by
  rw [EStateM.run] at h
  rw [answers, h]

theorem answers_of_error {x : EStateM ε σ β} {e : ε} {s t : σ} (h : x.run s = .error e t) :
    answers x s = .error e := by
  rw [EStateM.run] at h
  rw [answers, h]

theorem leaves_bind_of_ok {x : EStateM ε σ β} {f : β → EStateM ε σ γ} {b : β} {s t : σ}
    (h : x.run s = .ok b t) : leaves (x >>= f) s = leaves (f b) t := by
  have hrun := run_bind_of_ok (f := f) h
  rw [EStateM.run, EStateM.run] at hrun
  rw [leaves, leaves, hrun]

def Keeps (P : σ → Prop) (x : EStateM ε σ β) : Prop := ∀ s, P s → P (leaves x s)

variable {P : σ → Prop}

theorem keeps_pure (b : β) : Keeps P (pure b : EStateM ε σ β) := fun _ h => h

theorem keeps_throw (e : ε) : Keeps P (throw e : EStateM ε σ β) := fun _ h => h

theorem keeps_get {f : σ → EStateM ε σ β} (hf : ∀ s, P s → Keeps P (f s)) :
    Keeps P (get >>= f) :=
  fun s hs => hf s hs s hs

theorem keeps_modify {f : σ → σ} (hf : ∀ s, P s → P (f s)) :
    Keeps P (modify f : EStateM ε σ PUnit) := hf

theorem keeps_bind {x : EStateM ε σ β} {f : β → EStateM ε σ γ} (hx : Keeps P x)
    (hf : ∀ b, Keeps P (f b)) : Keeps P (x >>= f) := by
  intro s hs
  have h := hx s hs
  rw [leaves] at h ⊢
  change P (match EStateM.bind x f s with | .ok _ t => t | .error _ t => t)
  rw [EStateM.bind]
  cases hr : x s with
  | ok b t =>
      rw [hr] at h
      exact hf b t h
  | error e t =>
      rw [hr] at h
      exact h

theorem leaves_bind_pure (x : EStateM ε σ β) (f : β → γ) (s : σ) :
    leaves (x >>= fun b => pure (f b)) s = leaves x s := by
  change (match EStateM.bind x (fun b => pure (f b)) s with | .ok _ t => t | .error _ t => t) = _
  rw [EStateM.bind, leaves]
  cases x s <;> rfl

theorem answers_bind_pure (x : EStateM ε σ β) (f : β → γ) (s : σ) :
    answers (x >>= fun b => pure (f b)) s = (answers x s).map f := by
  change (match EStateM.bind x (fun b => pure (f b)) s with
    | .ok b _ => Except.ok b
    | .error e _ => .error e) = _
  rw [EStateM.bind, answers]
  cases x s <;> rfl

end Keeps

variable {α : Type} [Scalar α]

/-- From one scene to another with the same columns, by revisions of the store. The parts of the model
still fit each other if they did. -/
structure Scene.Revised (c d : Scene α) : Prop where
  store : c.store.Revised d.store
  columns : d.model.columns = c.model.columns
  shaped : c.model.Shaped → d.model.Shaped

theorem Scene.Revised.refl (c : Scene α) : c.Revised c := ⟨.refl c.store, rfl, id⟩

theorem Rounding.shaped_orientedModel {m : Model α} (h : m.Shaped) (options : Options α) :
    (orientedModel options m).Shaped := by
  rw [orientedModel]
  cases hn : options.normalize with
  | true =>
      have hturn : oriented options = List.map (Row.toward .le) := by
        funext rows
        rw [oriented, if_pos hn]
      rw [hturn]
      exact h.toward .le
  | false =>
      have hkeep : oriented options = id := by
        funext rows
        rw [oriented, hn, if_neg Bool.false_ne_true, id]
      rw [hkeep, Option.map_id]
      exact h

namespace Action

abbrev Revises {β : Type} (x : Action α β) : Prop :=
  ∀ s : Store α, Keeps (fun c : Scene α => s.Revised c.store) x

/-- Besides, the action leaves the columns of the model alone, and its parts fitting each other. -/
abbrev KeepsColumns {β : Type} (x : Action α β) : Prop := ∀ c : Scene α, Keeps c.Revised x

theorem KeepsColumns.revises {β : Type} {x : Action α β} (h : x.KeepsColumns) : x.Revises :=
  fun _ c hc => hc.trans (h c c (.refl c)).store

omit [Scalar α] in
theorem keeps_ofExcept {β : Type} {P : Scene α → Prop} (r : Except (Fault α) β) :
    Keeps P (ofExcept r) := by
  cases r
  · exact keeps_throw _
  · exact keeps_pure _

omit [Scalar α] in
theorem keeps_ofExcept_bind {β γ : Type} {P : Scene α → Prop} {r : Except (Fault α) β}
    {f : β → Action α γ} (hf : ∀ b, r = .ok b → Keeps P (f b)) : Keeps P (ofExcept r >>= f) := by
  cases r with
  | error fault => exact keeps_throw _
  | ok b => exact hf b rfl

theorem note_keepsColumns (e : Event α) : (note e).KeepsColumns :=
  fun _ => keeps_modify fun _ h => ⟨h.store, h.columns, h.shaped⟩

theorem concluding_keepsColumns (v : Verdict α) : (concluding v).KeepsColumns := by
  intro c
  cases v with
  | accepted => exact keeps_pure _
  | rejected reason => exact keeps_bind (note_keepsColumns _ c) fun _ => keeps_pure _

omit [Scalar α] in
theorem updating_run (update : Model α → Except (Rejection α) (Model α)) (c : Scene α) :
    (updating update).run c =
      match update c.model with
      | .ok m => .ok .accepted { c with model := m }
      | .error reason =>
        .ok (.rejected reason) { c with events := c.events.push (.updateRejected reason) } := by
  rw [updating, run_get_bind]
  cases update c.model <;> rfl

theorem updating_revises (update : Model α → Except (Rejection α) (Model α)) :
    (updating update).Revises := by
  intro s
  refine keeps_get fun c _ => ?_
  cases update c.model with
  | ok m => exact keeps_bind (keeps_modify fun _ h => h) fun _ => keeps_pure _
  | error reason => exact (concluding_keepsColumns _).revises s

theorem updating_keepsColumns {update : Model α → Except (Rejection α) (Model α)}
    (hupdate : ∀ m m', update m = .ok m' → m'.columns = m.columns)
    (hshaped : ∀ m m', update m = .ok m' → m.Shaped → m'.Shaped) :
    (updating update).KeepsColumns := by
  intro c
  refine keeps_get fun d hd => ?_
  cases hm : update d.model with
  | ok m =>
      exact keeps_bind (keeps_modify fun _ h => ⟨h.store, (hupdate _ _ hm).trans hd.columns,
        fun hc => hshaped _ _ hm (hd.shaped hc)⟩)
        fun _ => keeps_pure _
  | error reason => exact concluding_keepsColumns _ c

theorem orient_keepsColumns (target : Relation) : (orient target : Action α _).KeepsColumns := by
  intro c
  refine keeps_get fun d hd => keeps_ofExcept_bind fun ⟨m, rows⟩ hm => ?_
  refine keeps_bind (keeps_modify fun _ h => ⟨h.store, ?_, fun hc => ?_⟩) fun _ => ?_
  · rw [Model.eq_of_orient hm]
    exact hd.columns
  · rw [Model.eq_of_orient hm]
    exact (hd.shaped hc).toward target
  · simp only
    cases rows with
    | nil => exact keeps_pure _
    | cons i rest => exact keeps_bind (note_keepsColumns _ c) fun _ => keeps_pure _

theorem relaxColumns_keepsColumns : (relaxColumns : Action α Unit).KeepsColumns :=
  fun _ => keeps_get fun _ _ => keeps_bind (keeps_ofExcept _) fun columns =>
    keeps_modify fun d h => ⟨h.store.trans (relaxColumns_revised columns d.store), h.columns,
      h.shaped⟩

theorem convert_keepsColumns (indices : List Int) :
    (convert indices : Action α _).KeepsColumns := by
  intro c
  refine keeps_get fun _ _ => keeps_bind (keeps_ofExcept _) fun columns => keeps_get fun d hd => ?_
  have hstore := hd.store.trans (convertColumns_revised columns d.store indices)
  exact keeps_bind (keeps_modify fun _ h => ⟨hstore, h.columns, h.shaped⟩)
    fun _ => keeps_bind (keeps_ofExcept _) fun v => concluding_keepsColumns v c

theorem roundColumn_keepsColumns (y : Tableau α) (j : Nat) :
    (Rounding.roundColumn y j).KeepsColumns :=
  fun _ => keeps_get fun _ hd => keeps_ofExcept_bind fun _ ht =>
    keeps_bind (keeps_modify fun _ h => ⟨hd.store.trans (Tableau.roundColumn_revised ht), h.columns,
      h.shaped⟩)
      fun _ => keeps_pure _

theorem sweep_keepsColumns (y : Tableau α) (pending : List Nat) :
    (Rounding.sweep y pending).KeepsColumns := by
  intro c
  induction pending with
  | nil => exact keeps_pure _
  | cons j rest ih =>
      exact keeps_bind (roundColumn_keepsColumns y j c) fun _ => keeps_get fun _ _ =>
        keeps_bind ih fun _ => keeps_pure _

theorem sweeping_keepsColumns (y : Tableau α) (stopOnStall : Bool) (left : Nat) (p : Progress) :
    (Rounding.sweeping y stopOnStall left p).KeepsColumns := by
  intro c
  induction left generalizing p with
  | zero => exact keeps_pure _
  | succ left ih =>
      refine keeps_bind (sweep_keepsColumns y p.pending c) fun ⟨pending, moves⟩ =>
        keeps_get fun _ _ => keeps_bind (note_keepsColumns _ c) fun _ => ?_
      split
      · exact keeps_pure _
      · exact ih _

theorem prepare_keepsColumns (options : Options α) (indices : Option (List Int)) :
    (Rounding.prepare options indices).KeepsColumns := by
  intro c d hd
  have h := Rounding.prepare_run options indices d
  cases ho : Rounding.obstacle? options indices d.model with
  | some f =>
      rw [ho] at h
      rwa [leaves_of_error h]
  | none =>
      rw [ho] at h
      rw [leaves_of_ok h]
      exact ⟨hd.store, hd.columns, fun hc => Rounding.shaped_orientedModel (hd.shaped hc) options⟩

theorem conclude_keepsColumns (options : Options α) (y : Tableau α) (columns : List Nat)
    (status : Status) (p : Progress) :
    (Rounding.conclude options y columns status p).KeepsColumns := by
  intro c
  have hrest (e : Event α) (f : Scene α → Report α) :
      (do note e; pure (f (← get)) : Action α (Report α)).KeepsColumns :=
    fun c => keeps_bind (note_keepsColumns e c) fun _ => keeps_get fun _ _ => keeps_pure _
  rw [Rounding.conclude]
  simp only
  split
  · exact keeps_bind (convert_keepsColumns _ c) fun _ => hrest _ _ c
  · exact hrest _ _ c

theorem run_keepsColumns (options : Options α) (indices : Option (List Int)) :
    (Rounding.run options indices).KeepsColumns :=
  fun c => keeps_bind (prepare_keepsColumns options indices c) fun _ => keeps_get fun _ _ =>
    keeps_bind (keeps_ofExcept _) fun y =>
      keeps_bind (sweeping_keepsColumns y options.stopOnStall options.maxSweeps.1 _ c)
        fun ⟨status, p⟩ => conclude_keepsColumns options y _ status p c

end Action

theorem Rounding.run_sound {options : Options α} {indices : Option (List Int)} {c c' : Scene α}
    {report : Report α} (hs : c.store.Sound)
    (h : (run options indices).run c = .ok report c') : c'.store.Sound := by
  have hrevised := Action.run_keepsColumns options indices c c (.refl c)
  rw [leaves_of_ok h] at hrevised
  exact hrevised.store.sound hs

def Workspace.Ready (w : Workspace α) : Prop :=
  ∀ (e : Nat) (g : Engine α), w.engines[e]? = some g → g.running = false

structure Workspace.Sound (w : Workspace α) : Prop where
  store : w.store.Sound
  ready : w.Ready

/-- The store came about by revisions of another one, and no engine is running. -/
structure Workspace.RevisedFrom (s : Store α) (w : Workspace α) : Prop where
  store : s.Revised w.store
  ready : w.Ready

structure Workspace.Revised (w t : Workspace α) : Prop where
  store : w.store.Revised t.store
  ready : t.Ready
  names : t.names = w.names
  columns : ∀ k, (t.modelAt k).columns = (w.modelAt k).columns
  shaped : ∀ k, (w.modelAt k).Shaped → (t.modelAt k).Shaped

theorem Workspace.Ready.revised {w : Workspace α} (h : w.Ready) : w.Revised w :=
  ⟨.refl w.store, h, rfl, fun _ => rfl, fun _ => id⟩

theorem Workspace.modelAt_withScene_cases (w : Workspace α) (k i : Nat) (c : Scene α) :
    ((w.withScene k c).modelAt i = c.model ∧ k = i) ∨ (w.withScene k c).modelAt i = w.modelAt i := by
  simp only [withScene, modelAt, Array.getD_eq_getD_getElem?, Array.getElem?_setIfInBounds]
  split
  next hi =>
    subst hi
    split
    next => exact .inl ⟨rfl, rfl⟩
    next hk => exact .inr (by rw [Array.getElem?_eq_none (Nat.le_of_not_lt hk)])
  next => exact .inr rfl

theorem Workspace.Revised.withScene {w t : Workspace α} (h : w.Revised t) {k : Nat} {c : Scene α}
    (hc : (t.scene k).Revised c) : w.Revised (t.withScene k c) := by
  refine ⟨h.store.trans hc.store, h.ready, h.names, fun i => ?_, fun i hi => ?_⟩
  · rw [← h.columns i]
    rcases t.modelAt_withScene_cases k i c with ⟨hi, rfl⟩ | hi
    · rw [hi]
      exact hc.columns
    · rw [hi]
  · rcases t.modelAt_withScene_cases k i c with ⟨hnew, rfl⟩ | hsame
    · rw [hnew]
      exact hc.shaped (h.shaped k hi)
    · rw [hsame]
      exact h.shaped i hi

namespace Session

abbrev Revises {β : Type} (x : Session α β) : Prop :=
  ∀ s : Store α, Keeps (Workspace.RevisedFrom s) x

abbrev KeepsColumns {β : Type} (x : Session α β) : Prop := ∀ w : Workspace α, Keeps w.Revised x

theorem KeepsColumns.revises {β : Type} {x : Session α β} (h : x.KeepsColumns) : x.Revises := by
  intro s w hw
  have hrevised := h w w hw.ready.revised
  exact ⟨hw.store.trans hrevised.store, hrevised.ready⟩

theorem keeps_ofExcept {β : Type} {P : Workspace α → Prop} (r : Except (Fault α) β) :
    Keeps P (ofExcept r) := by
  cases r
  · exact keeps_throw _
  · exact keeps_pure _

section Keeps

variable {P : Workspace α → Prop}

theorem keeps_refOf (name : String) : Keeps P (refOf name : Session α Ref) := by
  refine keeps_get fun w _ => ?_
  cases w.refOf? name with
  | some r => exact keeps_pure _
  | none => exact keeps_throw _

theorem keeps_engineAt (e : Nat) : Keeps P (engineAt e : Session α (Engine α)) := by
  refine keeps_get fun w _ => ?_
  cases w.engines[e]? with
  | some g => exact keeps_pure _
  | none => exact keeps_throw _

theorem keeps_askModel {β : Type} (k : Nat) (f : Model α → Store α → Except (Fault α) β) :
    Keeps P (askModel k f) :=
  keeps_get fun _ _ => keeps_ofExcept _

theorem keeps_askEngine {β : Type} (e : Nat) (f : Model α → Store α → Except (Fault α) β) :
    Keeps P (askEngine e f) :=
  keeps_bind (keeps_engineAt e) fun g => keeps_askModel g.model f

theorem keeps_mapM_refOf (names : List String) :
    Keeps P (names.mapM refOf : Session α (List Ref)) := by
  induction names with
  | nil => exact keeps_pure _
  | cons name rest ih =>
      rw [List.mapM_cons]
      exact keeps_bind (keeps_refOf name) fun _ => keeps_bind ih fun _ => keeps_pure _

end Keeps

theorem inModel_run {β : Type} (k : Nat) (action : Action α β) (w : Workspace α) :
    (inModel k action).run w =
      match action.run (w.scene k) with
      | .ok b c => .ok b (w.withScene k c)
      | .error f c => .error f (w.withScene k c) :=
  rfl

theorem leaves_inModel {β : Type} (k : Nat) (action : Action α β) (w : Workspace α) :
    leaves (inModel k action) w = w.withScene k (leaves action (w.scene k)) := by
  have h := inModel_run k action w
  cases hr : action.run (w.scene k) with
  | ok b c =>
      rw [hr] at h
      rw [leaves_of_ok h, leaves_of_ok hr]
  | error f c =>
      rw [hr] at h
      rw [leaves_of_error h, leaves_of_error hr]

theorem answers_inModel {β : Type} (k : Nat) (action : Action α β) (w : Workspace α) :
    answers (inModel k action) w = answers action (w.scene k) := by
  have h := inModel_run k action w
  cases hr : action.run (w.scene k) with
  | ok b c =>
      rw [hr] at h
      rw [answers_of_ok h, answers_of_ok hr]
  | error f c =>
      rw [hr] at h
      rw [answers_of_error h, answers_of_error hr]

theorem inModel_revises {β : Type} (k : Nat) {action : Action α β} (h : action.Revises) :
    (inModel k action).Revises := by
  intro s w hw
  rw [leaves_inModel]
  exact ⟨h s (w.scene k) hw.store, hw.ready⟩

theorem inModel_keepsColumns {β : Type} (k : Nat) {action : Action α β}
    (h : action.KeepsColumns) : (inModel k action).KeepsColumns := by
  intro v w hw
  rw [leaves_inModel]
  exact hw.withScene (h (w.scene k) (w.scene k) (.refl _))

theorem change_run (name : String) (f : Variable α → Except (Fault α) (Variable α))
    (w : Workspace α) :
    (change name f).run w =
      match w.refOf? name with
      | none => .error (.unknownName name) w
      | some r =>
        match f (w.store.read r) with
        | .error fault => .error fault w
        | .ok v => .ok () { w with store := w.store.write r v } := by
  rw [change]
  cases hr : w.refOf? name with
  | none =>
      have href : (refOf name).run w = .error (.unknownName name) w := by
        rw [refOf, run_get_bind, hr]
        rfl
      exact run_bind_of_error href
  | some r =>
      have href : (refOf name).run w = .ok r w := by
        rw [refOf, run_get_bind, hr]
        rfl
      rw [run_bind_of_ok href, run_get_bind]
      simp only
      cases f (w.store.read r) <;> rfl

theorem change_keepsColumns (name : String) {f : Variable α → Except (Fault α) (Variable α)}
    (hf : ∀ (s : Store α) (r : Ref) (v : Variable α), f (s.read r) = .ok v →
      s.Revision (s.write r v)) : (change name f).KeepsColumns := by
  intro w t ht
  have h := change_run name f t
  split at h
  next => rwa [leaves_of_error h]
  next r _ =>
    split at h
    next => rwa [leaves_of_error h]
    next v hv =>
      rw [leaves_of_ok h]
      exact ⟨ht.store.trans (hf t.store r v hv).revised, ht.ready, ht.names, ht.columns,
        ht.shaped⟩

theorem withKind_keepsColumns (name kind : String) :
    (withKind name kind : Session α Unit).KeepsColumns := by
  refine change_keepsColumns name fun s r v h => ?_
  cases hk : (Kind.ofWord kind : Except (Fault α) Kind) with
  | error fault =>
      rw [hk] at h
      cases h
  | ok kind =>
      rw [hk] at h
      exact .kind h

theorem setColumns_revises (k : Nat) (names : List String) :
    (setColumns k names : Session α _).Revises :=
  fun s => keeps_bind (keeps_mapM_refOf names) fun _ =>
    inModel_revises k (Action.updating_revises _) s

theorem newEngine_keepsColumns (k : Nat) (options : Options α) :
    (newEngine k options).KeepsColumns := by
  intro w
  refine keeps_modify fun t ht => ⟨ht.store, fun e g hg => ?_, ht.names, ht.columns, ht.shaped⟩
  rw [Array.getElem?_push] at hg
  split at hg
  next => cases hg; rfl
  next => exact ht.ready e g hg

theorem changeEngine_keepsColumns (e : Nat) {f : Engine α → Engine α}
    (hf : ∀ g, (f g).running = g.running) : (changeEngine e f).KeepsColumns := by
  intro w
  refine keeps_bind (keeps_engineAt e) fun _ => keeps_modify fun t ht =>
    ⟨ht.store, fun i g hg => ?_, ht.names, ht.columns, ht.shaped⟩
  rw [Array.getElem?_modify] at hg
  split at hg
  next =>
    obtain ⟨g', hg', rfl⟩ := Option.map_eq_some_iff.mp hg
    rw [hf]
    exact ht.ready i g' hg'
  next => exact ht.ready i g hg

theorem newModel_keepsColumns :
    (modify fun w => { w with models := w.models.push {} } : Session α PUnit).KeepsColumns := by
  intro w
  refine keeps_modify fun t ht => ?_
  have hsame (k : Nat) : ({ t with models := t.models.push {} } : Workspace α).modelAt k =
      t.modelAt k := by
    simp only [Workspace.modelAt, Array.getD_eq_getD_getElem?, Array.getElem?_push]
    split
    next hk => rw [hk, Array.getElem?_eq_none (Nat.le_refl _)]; rfl
    next => rfl
  refine ⟨ht.store, ht.ready, ht.names, fun k => ?_, fun k hk => ?_⟩
  · rw [hsame]
    exact ht.columns k
  · rw [hsame]
    exact ht.shaped k hk

end Session

namespace Workspace

theorem setRunning_setRunning {w : Workspace α} {e : Nat} {g : Engine α}
    (hg : w.engines[e]? = some g) (hr : g.running = false) :
    (w.setRunning e true).setRunning e false = w := by
  have hengines : ((w.engines.modify e fun g => { g with running := true }).modify e
      fun g => { g with running := false }) = w.engines := by
    apply Array.ext_getElem?
    intro i
    rw [Array.getElem?_modify, Array.getElem?_modify]
    by_cases hi : e = i
    · rw [if_pos hi, if_pos hi, ← hi, hg, ← hr]
      rfl
    · rw [if_neg hi, if_neg hi]
  simp only [setRunning, hengines]

theorem engineAt_setRunning {w : Workspace α} {e : Nat} {g : Engine α}
    (hg : w.engines[e]? = some g) :
    (w.setRunning e true).engines[e]? = some { g with running := true } := by
  simp only [setRunning, Array.getElem?_modify, if_pos, hg]
  rfl

theorem scene_setRunning (w : Workspace α) (e k : Nat) (running : Bool) :
    (w.setRunning e running).scene k = w.scene k :=
  rfl

theorem withScene_setRunning (w : Workspace α) (e k : Nat) (running : Bool) (c : Scene α) :
    (w.setRunning e running).withScene k c = (w.withScene k c).setRunning e running :=
  rfl

theorem withScene_scene (w : Workspace α) (k : Nat) : w.withScene k (w.scene k) = w := by
  have hmodels : w.models.setIfInBounds k (w.models.getD k {}) = w.models := by
    apply Array.ext_getElem?
    intro i
    by_cases hi : k = i
    · subst hi
      by_cases hk : k < w.models.size <;> simp [hk]
    · rw [Array.getElem?_setIfInBounds_ne hi]
  simp only [withScene, scene, modelAt, hmodels]

theorem withScene_store (w : Workspace α) (k : Nat) (s : Store α) :
    w.withScene k { w.scene k with store := s } = { w with store := s } :=
  withScene_scene { w with store := s } k

end Workspace

namespace Session

open Workspace

variable {w : Workspace α} {e : Nat} {g : Engine α}

theorem engineAt_run (hg : w.engines[e]? = some g) : (engineAt e).run w = .ok g w := by
  rw [engineAt, run_get_bind, hg]
  rfl

theorem engineAt_run_of_none (hg : w.engines[e]? = none) :
    (engineAt e).run w = .error (.unknownName "engine") w := by
  rw [engineAt, run_get_bind, hg]
  rfl

/-- A ready engine runs its body while it is marked, and is ready again afterwards. -/
theorem guarded_run (hg : w.engines[e]? = some g) (hr : g.running = false)
    (body : Session α (Report α)) :
    (guarded e body).run w =
      match body.run (w.setRunning e true) with
      | .ok r t => .ok r ((t.setRunning e false).hear e r)
      | .error f t => .error f (t.setRunning e false) := by
  rw [guarded, run_bind_of_ok (engineAt_run hg), hr]
  rfl

theorem guarded_run_of_running (hg : w.engines[e]? = some g) (hr : g.running = true)
    (body : Session α (Report α)) : (guarded e body).run w = .error .reentrant w := by
  rw [guarded, run_bind_of_ok (engineAt_run hg), hr]
  rfl

theorem launch_run (hg : w.engines[e]? = some g) (hr : g.running = false) :
    (launch e).run w =
      match (Rounding.run g.options g.indices).run (w.scene g.model) with
      | .ok r c => .ok r ((w.withScene g.model c).hear e r)
      | .error f c => .error f (w.withScene g.model c) := by
  have hbody : (runEngine e).run (w.setRunning e true) =
      match (Rounding.run g.options g.indices).run (w.scene g.model) with
      | .ok r c => .ok r ((w.withScene g.model c).setRunning e true)
      | .error f c => .error f ((w.withScene g.model c).setRunning e true) := by
    rw [runEngine, run_bind_of_ok (engineAt_run (engineAt_setRunning hg)), inModel_run]
    simp only [scene_setRunning, withScene_setRunning]
    cases (Rounding.run g.options g.indices).run (w.scene g.model) <;> rfl
  rw [launch, guarded_run hg hr, hbody]
  have hback (c : Scene α) : ((w.withScene g.model c).setRunning e true).setRunning e false =
      w.withScene g.model c := setRunning_setRunning hg hr
  cases (Rounding.run g.options g.indices).run (w.scene g.model) with
  | ok r c => simp only [hback]
  | error f c => simp only [hback]

/-- A decision about a column at a position changes the store and nothing else. -/
theorem moveColumn_run [LawfulScalar α] (hs : w.store.Sound) (hg : w.engines[e]? = some g)
    {y : Tableau α} (hy : (w.modelAt g.model).requireTableau = .ok y) {j : Int} {k : Nat}
    (hj : resolve? y.columns.length j = some k) :
    (moveColumn e j).run w =
      .ok (y.next w.store k).2 { w with store := (y.next w.store k).1 } := by
  obtain ⟨hcolumns, -⟩ := Model.parts_of_requireTableau hy
  have hposition : ((w.modelAt g.model).requireColumns >>= fun columns =>
      resolve columns.length j) = .ok k := by
    rw [Model.requireColumns_eq hcolumns]
    change resolve y.columns.length j = _
    rw [resolve, hj]
    rfl
  have hask {β : Type} {f : Model α → Store α → Except (Fault α) β} {b : β}
      (h : f (w.modelAt g.model) w.store = .ok b) : (askModel g.model f).run w = .ok b w := by
    rw [askModel, run_get_bind, h]
    rfl
  have hdecide : (Rounding.roundColumn y k).run (w.scene g.model) = _ :=
    roundColumn_run y k hs
  rw [moveColumn, run_bind_of_ok (engineAt_run hg), run_bind_of_ok (hask hposition),
    run_bind_of_ok (hask hy), inModel_run, hdecide]
  exact congrArg (EStateM.Result.ok _) (withScene_store w g.model _)

/-- A run inside a run fails, and the outer run with it. -/
theorem launchNested_run (hg : w.engines[e]? = some g) (hr : g.running = false) :
    (launchNested e).run w = .error .reentrant w := by
  rw [launchNested, guarded_run hg hr, launch,
    guarded_run_of_running (engineAt_setRunning hg) rfl]
  simp only [setRunning_setRunning hg hr]

theorem launch_keepsColumns (e : Nat) : (launch e : Session α (Report α)).KeepsColumns := by
  intro v w hw
  cases hg : w.engines[e]? with
  | none =>
      have h : (launch e).run w = .error (.unknownName "engine") w :=
        run_bind_of_error (engineAt_run_of_none hg)
      rwa [leaves_of_error h]
  | some g =>
      have hc := Action.run_keepsColumns g.options g.indices (w.scene g.model) _ (.refl _)
      have h := launch_run hg (hw.ready e g hg)
      cases hr : (Rounding.run g.options g.indices).run (w.scene g.model) with
      | ok r c =>
          rw [leaves_of_ok hr] at hc
          rw [hr] at h
          have hscene := hw.withScene hc
          rw [leaves_of_ok h, hear]
          split
          · exact ⟨hscene.store, hscene.ready, hscene.names, hscene.columns, hscene.shaped⟩
          · exact hscene
      | error f c =>
          rw [leaves_of_error hr] at hc
          rw [hr] at h
          rw [leaves_of_error h]
          exact hw.withScene hc

theorem launchNested_keepsColumns (e : Nat) :
    (launchNested e : Session α (Report α)).KeepsColumns := by
  intro v w hw
  cases hg : w.engines[e]? with
  | none =>
      have h : (launchNested e).run w = .error (.unknownName "engine") w :=
        run_bind_of_error (engineAt_run_of_none hg)
      rwa [leaves_of_error h]
  | some g => rwa [leaves_of_error (launchNested_run hg (hw.ready e g hg))]

theorem moveColumn_keepsColumns (e : Nat) (j : Int) :
    (moveColumn e j : Session α Bool).KeepsColumns :=
  fun w => keeps_bind (keeps_engineAt e) fun g =>
    keeps_bind (keeps_askModel g.model _) fun k =>
      keeps_bind (keeps_askModel g.model _) fun y =>
        inModel_keepsColumns g.model (Action.roundColumn_keepsColumns y k) w

theorem roundOnce_keepsColumns (k : Nat) (options : Options α) (indices : List Int)
    (listener : Option Listener) : (roundOnce k options indices listener).KeepsColumns := by
  intro w
  refine keeps_bind (inModel_keepsColumns k (Action.run_keepsColumns options _) w) fun r => ?_
  cases listener with
  | none => exact keeps_pure r
  | some listener =>
      exact keeps_bind (keeps_modify fun _ h => ⟨h.store, h.ready, h.names, h.columns,
        h.shaped⟩)
        fun _ => keeps_pure r

theorem makeVariable_leaves (name kind : String) (value low high : α) (w : Workspace α) :
    leaves (makeVariable name kind value low high) w = w ∨
      ∃ k v, Variable.make k value low high = .ok v ∧
        leaves (makeVariable name kind value low high) w =
          { w with store := w.store.add v, names := (name, w.store.size) :: w.names } := by
  rw [makeVariable]
  cases (Kind.ofWord kind : Except (Fault α) Kind) with
  | error fault => exact .inl rfl
  | ok k =>
      cases hv : Variable.make k value low high with
      | error fault =>
          refine .inl ?_
          change leaves (ofExcept (Variable.make k value low high) >>= _) w = w
          rw [hv]
          rfl
      | ok v =>
          refine .inr ⟨k, v, hv, ?_⟩
          change leaves (ofExcept (Variable.make k value low high) >>= _) w = _
          rw [hv]
          rfl

end Session

open Session in
/-- A command that neither makes a variable nor sets columns changes the store by revisions and leaves
names and columns alone, even when it fails. -/
theorem perform_keepsColumns (command : Command α) :
    (∃ name kind value low high, command = .makeVariable name kind value low high) ∨
      (∃ k names, command = .setColumns k names) ∨ command.perform.KeepsColumns := by
  have answered {β : Type} {x : Session α β} (f : β → Answer α) (hx : x.KeepsColumns) :
      (do return f (← x) : Session α (Answer α)).KeepsColumns :=
    fun w => keeps_bind (hx w) fun _ => keeps_pure _
  cases command with
  | makeVariable name kind value low high => exact .inl ⟨name, kind, value, low, high, rfl⟩
  | setColumns k names => exact .inr (.inl ⟨k, names, rfl⟩)
  | inspect name =>
      exact .inr (.inr fun _ =>
        keeps_bind (keeps_bind (keeps_refOf name) fun r => keeps_get fun _ _ => keeps_pure _)
          fun v => keeps_bind (Session.keeps_ofExcept _) fun _ => keeps_pure _)
  | withValue name value =>
      exact .inr (.inr (answered _ (change_keepsColumns name fun _ _ _ h => .value h)))
  | withKind name kind => exact .inr (.inr (answered _ (withKind_keepsColumns name kind)))
  | newModel => exact .inr (.inr (answered _ newModel_keepsColumns))
  | setRows k matrix rhs symbols =>
      exact .inr (.inr (answered _ (inModel_keepsColumns k (Action.updating_keepsColumns
        (fun m m' h => by rw [Model.eq_of_setRows h]) fun m m' h hm => hm.setRows h))))
  | setObjective k sense coefficients =>
      refine .inr (.inr (answered _ (inModel_keepsColumns k (Action.updating_keepsColumns
        (fun m m' h => ?_) fun m m' h hm => hm.setObjective h))))
      obtain ⟨sense, -, rfl⟩ := Model.eq_of_setObjective h
      rfl
  | relaxColumns k =>
      exact .inr (.inr (answered _ (inModel_keepsColumns k Action.relaxColumns_keepsColumns)))
  | convert k indices =>
      exact .inr (.inr (answered _ (inModel_keepsColumns k (Action.convert_keepsColumns indices))))
  | orient k symbol =>
      exact .inr (.inr fun w => keeps_bind (Session.keeps_ofExcept _) fun r =>
        answered _ (inModel_keepsColumns k (Action.orient_keepsColumns r)) w)
  | violated k tol => exact .inr (.inr (answered _ fun _ => keeps_askModel k _))
  | feasible k tol => exact .inr (.inr (answered _ fun _ => keeps_askModel k _))
  | ask k query => exact .inr (.inr fun _ => keeps_askModel k query.answer)
  | newEngine k options => exact .inr (.inr (answered _ (newEngine_keepsColumns k options)))
  | setIndices e indices =>
      exact .inr (.inr (answered _ (changeEngine_keepsColumns e fun _ => rfl)))
  | listen e => exact .inr (.inr (answered _ (changeEngine_keepsColumns e fun _ => rfl)))
  | heard => exact .inr (.inr fun _ => keeps_get fun _ _ => keeps_pure _)
  | limits e j => exact .inr (.inr (answered _ fun _ => keeps_askEngine e _))
  | target e j step direction => exact .inr (.inr (answered _ fun _ => keeps_askEngine e _))
  | totals e pending => exact .inr (.inr (answered _ fun _ => keeps_askEngine e _))
  | moveColumn e j => exact .inr (.inr (answered _ (moveColumn_keepsColumns e j)))
  | launch e => exact .inr (.inr (answered _ (launch_keepsColumns e)))
  | launchNested e => exact .inr (.inr (answered _ (launchNested_keepsColumns e)))
  | roundOnce k indices options =>
      exact .inr (.inr (answered _ (roundOnce_keepsColumns k options indices _)))

theorem perform_revises (command : Command α) :
    (∃ name kind value low high, command = .makeVariable name kind value low high) ∨
      command.perform.Revises := by
  rcases perform_keepsColumns command with h | ⟨k, names, rfl⟩ | h
  · exact .inl h
  · exact .inr fun s => keeps_bind (Session.setColumns_revises k names s) fun _ => keeps_pure _
  · exact .inr h.revises

/-- What one command does to the store, whether it succeeds or fails. -/
inductive Command.Effect (command : Command α) (s t : Store α) : Prop
  | revises (h : s.Revised t)
  | makes {name kind : String} {value low high : α} {k : Kind} {v : Variable α}
      (hcommand : command = .makeVariable name kind value low high)
      (hv : Variable.make k value low high = .ok v) (ht : t = s.add v)

theorem perform_effect (command : Command α) {w : Workspace α} (hw : w.Ready) :
    command.Effect w.store (leaves command.perform w).store ∧ (leaves command.perform w).Ready := by
  rcases perform_revises command with ⟨name, kind, value, low, high, rfl⟩ | h
  · have hperform : leaves (Command.makeVariable name kind value low high).perform w =
        leaves (Session.makeVariable name kind value low high) w := leaves_bind_pure _ _ w
    rw [hperform]
    obtain hsame | ⟨k, v, hv, hmade⟩ := Session.makeVariable_leaves name kind value low high w
    · rw [hsame]
      exact ⟨.revises (.refl w.store), hw⟩
    · rw [hmade]
      exact ⟨.makes rfl hv rfl, hw⟩
  · have hleaves := h w.store w ⟨.refl w.store, hw⟩
    exact ⟨.revises hleaves.store, hleaves.ready⟩

/-- The workspaces that commands lead to, each of which may succeed or fail. -/
inductive Workspace.Reachable : Workspace α → Prop
  | start : Reachable {}
  | step {w : Workspace α} (command : Command α) : Reachable w → Reachable (leaves command.perform w)

def Workspace.after (commands : List (Command α)) : Workspace α :=
  commands.foldl (fun w command => leaves command.perform w) {}

theorem Workspace.reachable_after (commands : List (Command α)) :
    (Workspace.after commands).Reachable := by
  have h (w : Workspace α) (hw : w.Reachable) :
      (commands.foldl (fun w command => leaves command.perform w) w).Reachable := by
    induction commands generalizing w with
    | nil => exact hw
    | cons command rest ih => exact ih _ (.step command hw)
  exact h {} .start

theorem Workspace.Reachable.ready {w : Workspace α} (hw : w.Reachable) : w.Ready := by
  induction hw with
  | start => exact fun e g hg => by simp at hg
  | step command _ ih => exact (perform_effect command ih).2

theorem Command.Effect.sound {command : Command α} {s t : Store α} (h : command.Effect s t)
    (hs : s.Sound) : t.Sound := by
  cases h with
  | revises h => exact h.sound hs
  | makes _ hv ht =>
      rw [ht]
      exact hs.add (Variable.make_sound hv)

theorem Workspace.Reachable.sound [LawfulScalar α] {w : Workspace α} (hw : w.Reachable) :
    w.Sound := by
  induction hw with
  | start => exact ⟨Store.sound_empty, Workspace.Reachable.start.ready⟩
  | step command hw ih => exact ⟨(perform_effect command hw.ready).1.sound ih.store,
      (perform_effect command hw.ready).2⟩

theorem Workspace.Reachable.scene_sound [LawfulScalar α] {w : Workspace α} (hw : w.Reachable)
    (k : Nat) : (w.scene k).store.Sound :=
  hw.sound.store

end MilpRounding
