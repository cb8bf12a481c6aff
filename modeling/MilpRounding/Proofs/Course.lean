import MilpRounding.Proofs.StepSafety
import MilpRounding.Rounding.Run

namespace MilpRounding

open Scalar LawfulScalar

structure Decision (α : Type) where
  column : Nat
  before : Store α
  after : Store α
  moved : Bool

structure Sweep (α : Type) where
  decisions : List (Decision α)
  store : Store α
  pending : List Nat
  up : α
  down : α

structure Course (α : Type) where
  status : Status
  store : Store α
  pending : List Nat
  sweeps : List (Sweep α)

def Sweep.moves {α : Type} (w : Sweep α) : Nat := w.decisions.countP (·.moved)

def sweepEvents {α : Type} : Nat → List (Sweep α) → List (Event α)
  | _, [] => []
  | n, w :: rest =>
    .sweepDone (n + 1) w.moves w.pending.length w.up w.down :: sweepEvents (n + 1) rest

variable {α : Type} [Scalar α]

def Store.SoundWith (r : Ref) (s : Store α) : Prop := s.Sound ∧ (s.read r).isIntegral = true

namespace Tableau

def decisions (y : Tableau α) : List Nat → Store α → List (Decision α)
  | [], _ => []
  | j :: rest, s => ⟨j, s, (y.next s j).1, (y.next s j).2⟩ :: y.decisions rest (y.next s j).1

def lastStore (s : Store α) (ds : List (Decision α)) : Store α := ds.foldl (fun _ d => d.after) s

/-- The columns whose values are not whole after their decisions. -/
def stillPending (y : Tableau α) (ds : List (Decision α)) : List Nat :=
  (ds.filter fun d => !(y.variableAt d.after d.column).isIntegral).map (·.column)

def sweepFrom (y : Tableau α) (pending : List Nat) (s : Store α) : Sweep α :=
  let ds := y.decisions pending s
  let rest := y.stillPending ds
  let (up, down) := y.totals (lastStore s ds) rest
  ⟨ds, lastStore s ds, rest, up, down⟩

def course (y : Tableau α) (stopOnStall : Bool) : Nat → List Nat → Store α → Course α
  | 0, pending, s => ⟨.sweepLimit, s, pending, []⟩
  | left + 1, pending, s =>
    let w := y.sweepFrom pending s
    match Rounding.stopReason? stopOnStall w.moves w.pending w.up w.down with
    | some status => ⟨status, w.store, w.pending, [w]⟩
    | none =>
      let k := y.course stopOnStall left w.pending w.store
      { k with sweeps := w :: k.sweeps }

@[simp] theorem decisions_cons (y : Tableau α) (j : Nat) (rest : List Nat) (s : Store α) :
    y.decisions (j :: rest) s =
      ⟨j, s, (y.next s j).1, (y.next s j).2⟩ :: y.decisions rest (y.next s j).1 :=
  rfl

theorem sweepFrom_cons_pending (y : Tableau α) (j : Nat) (rest : List Nat) (s : Store α) :
    (y.sweepFrom (j :: rest) s).pending =
      if (y.variableAt (y.next s j).1 j).isIntegral then
        (y.sweepFrom rest (y.next s j).1).pending
      else j :: (y.sweepFrom rest (y.next s j).1).pending := by
  simp only [sweepFrom, decisions_cons, stillPending, List.filter_cons]
  cases (y.variableAt (y.next s j).1 j).isIntegral <;> rfl

theorem sweepFrom_cons_moves (y : Tableau α) (j : Nat) (rest : List Nat) (s : Store α) :
    (y.sweepFrom (j :: rest) s).moves =
      if (y.next s j).2 then (y.sweepFrom rest (y.next s j).1).moves + 1
      else (y.sweepFrom rest (y.next s j).1).moves := by
  simp only [sweepFrom, decisions_cons, Sweep.moves, List.countP_cons]
  cases (y.next s j).2 <;> rfl

theorem sweepFrom_totals (y : Tableau α) (pending : List Nat) (s : Store α) :
    y.totals (y.sweepFrom pending s).store (y.sweepFrom pending s).pending =
      ((y.sweepFrom pending s).up, (y.sweepFrom pending s).down) :=
  rfl

end Tableau

section Peel

variable {ε σ β γ : Type} {x : EStateM ε σ β} {f : β → EStateM ε σ γ} {c d : σ}

theorem run_bind_of_ok {b : β} (h : x.run c = .ok b d) : (x >>= f).run c = (f b).run d := by
  rw [EStateM.run_bind, h]

theorem run_bind_of_error {e : ε} (h : x.run c = .error e d) : (x >>= f).run c = .error e d := by
  rw [EStateM.run_bind, h]

theorem run_get_bind (f : σ → EStateM ε σ γ) (c : σ) : (get >>= f).run c = (f c).run c :=
  rfl

end Peel

namespace Action

omit [Scalar α] in
theorem ofExcept_run_ok {β : Type} {r : Except (Fault α) β} {b : β} (h : r = .ok b) (c : Scene α) :
    (ofExcept r).run c = .ok b c := by
  rw [h]
  rfl

omit [Scalar α] in
theorem note_run (e : Event α) (c : Scene α) :
    (note e).run c = .ok () { c with events := c.events.push e } :=
  rfl

end Action

section Run

variable [LawfulScalar α]

open Tableau

theorem roundColumn_run (y : Tableau α) (j : Nat) {c : Scene α} (hs : c.store.Sound) :
    (Rounding.roundColumn y j).run c =
      .ok (y.next c.store j).2 { c with store := (y.next c.store j).1 } := by
  rw [Rounding.roundColumn, run_get_bind, roundColumn_eq hs y j]
  rfl

theorem sweep_run (y : Tableau α) (pending : List Nat) {c : Scene α} (hs : c.store.Sound) :
    (Rounding.sweep y pending).run c =
      .ok ((y.sweepFrom pending c.store).pending, (y.sweepFrom pending c.store).moves)
        { c with store := (y.sweepFrom pending c.store).store } := by
  induction pending generalizing c with
  | nil => rfl
  | cons j rest ih =>
      have hrest := ih (c := { c with store := (y.next c.store j).1 }) (next_sound hs y j)
      rw [Rounding.sweep, run_bind_of_ok (roundColumn_run y j hs), run_get_bind,
        run_bind_of_ok hrest, sweepFrom_cons_pending, sweepFrom_cons_moves]
      rfl

theorem sweepFrom_sound {s : Store α} (hs : s.Sound) (y : Tableau α) (pending : List Nat) :
    (y.sweepFrom pending s).store.Sound := by
  induction pending generalizing s with
  | nil => exact hs
  | cons j rest ih => exact ih (next_sound hs y j)

theorem sweeping_run (y : Tableau α) (stopOnStall : Bool) (left : Nat) (p : Progress)
    {c : Scene α} (hs : c.store.Sound) :
    let k := y.course stopOnStall left p.pending c.store
    (Rounding.sweeping y stopOnStall left p).run c =
      .ok (k.status, ⟨p.sweeps + k.sweeps.length, p.history ++ (k.sweeps.map Sweep.moves).toArray,
        k.pending⟩)
        { c with store := k.store
                 events := c.events ++ (sweepEvents p.sweeps k.sweeps).toArray } := by
  induction left generalizing p c with
  | zero => simp [Rounding.sweeping, course, sweepEvents]
  | succ left ih =>
      have hw := sweepFrom_sound hs y p.pending
      rw [Rounding.sweeping, run_bind_of_ok (sweep_run y p.pending hs)]
      simp only [course]
      have htotals := sweepFrom_totals y p.pending c.store
      -- what this sweep is made of does not matter from here on
      generalize y.sweepFrom p.pending c.store = w at hw htotals ⊢
      rw [run_get_bind, htotals, run_bind_of_ok (Action.note_run _ _)]
      cases hstop : Rounding.stopReason? stopOnStall w.moves w.pending w.up w.down with
      | some status => simp [sweepEvents]
      | none =>
          rw [ih ⟨p.sweeps + 1, p.history.push w.moves, w.pending⟩ hw]
          simp [sweepEvents, Nat.add_assoc, Nat.add_comm 1]

end Run

namespace Tableau

theorem column_mem_of_mem_decisions {y : Tableau α} {pending : List Nat} {s : Store α}
    {d : Decision α} (hd : d ∈ y.decisions pending s) : d.column ∈ pending := by
  induction pending generalizing s with
  | nil => cases hd
  | cons j rest ih =>
      rcases List.mem_cons.mp hd with rfl | hd
      · exact List.mem_cons_self
      · exact List.mem_cons_of_mem _ (ih hd)

theorem sweepFrom_pending_subset (y : Tableau α) (pending : List Nat) (s : Store α) :
    (y.sweepFrom pending s).pending ⊆ pending := by
  intro j hj
  obtain ⟨d, hd, rfl⟩ := List.mem_map.mp hj
  exact column_mem_of_mem_decisions (List.mem_of_mem_filter hd)

section Invariant

variable {y : Tableau α} {columns : List Nat} {P Q : Store α → Prop}

theorem sweepFrom_invariant (hstep : ∀ s, ∀ j ∈ columns, P s → P (y.next s j).1)
    {pending : List Nat} (hp : pending ⊆ columns) {s : Store α} (hs : P s) :
    (∀ d ∈ (y.sweepFrom pending s).decisions, P d.before ∧ P d.after) ∧
      P (y.sweepFrom pending s).store := by
  induction pending generalizing s with
  | nil => exact ⟨fun d hd => (nomatch hd), hs⟩
  | cons j rest ih =>
      have hnext := hstep s j (hp List.mem_cons_self) hs
      obtain ⟨hrest, hlast⟩ := ih (fun k hk => hp (List.mem_cons_of_mem _ hk)) hnext
      refine ⟨fun d hd => ?_, hlast⟩
      rcases List.mem_cons.mp hd with rfl | hd
      · exact ⟨hs, hnext⟩
      · exact hrest d hd

/-- What every decision about a column keeps holds throughout the course. -/
theorem course_invariant (hstep : ∀ s, ∀ j ∈ columns, P s → P (y.next s j).1) (stopOnStall : Bool)
    (left : Nat) {pending : List Nat} (hp : pending ⊆ columns) {s : Store α} (hs : P s) :
    (∀ w ∈ (y.course stopOnStall left pending s).sweeps, ∀ d ∈ w.decisions,
      P d.before ∧ P d.after) ∧ P (y.course stopOnStall left pending s).store := by
  induction left generalizing pending s with
  | zero => exact ⟨fun w hw => (nomatch hw), hs⟩
  | succ left ih =>
      obtain ⟨hall, hlast⟩ := sweepFrom_invariant hstep hp hs
      simp only [course]
      split
      next =>
        refine ⟨fun w hw => ?_, hlast⟩
        rw [List.mem_singleton.mp hw]
        exact hall
      next =>
        obtain ⟨hrest, hend⟩ := ih
          (List.Subset.trans (sweepFrom_pending_subset y pending s) hp) hlast
        refine ⟨fun w hw => ?_, hend⟩
        rcases List.mem_cons.mp hw with rfl | hw
        · exact hall
        · exact hrest w hw

theorem sweepFrom_reaches (hP : ∀ s, ∀ j ∈ columns, P s → P (y.next s j).1 ∨ Q (y.next s j).1)
    (hQ : ∀ s, ∀ j ∈ columns, Q s → Q (y.next s j).1) {j : Nat}
    (hj : ∀ s, P s → Q (y.next s j).1) {pending : List Nat} (hp : pending ⊆ columns)
    (hmem : j ∈ pending) {s : Store α} (hs : P s) : Q (y.sweepFrom pending s).store := by
  induction pending generalizing s with
  | nil => cases hmem
  | cons k rest ih =>
      have hrest : rest ⊆ columns := fun i hi => hp (List.mem_cons_of_mem _ hi)
      rcases List.mem_cons.mp hmem with rfl | hmem
      · exact (sweepFrom_invariant hQ hrest (hj s hs)).2
      · rcases hP s k (hp List.mem_cons_self) hs with h | h
        · exact ih hrest hmem h
        · exact (sweepFrom_invariant hQ hrest h).2

/-- A course of at least one sweep ends where the decision about one of its columns leads, if the
other decisions lead nowhere else. -/
theorem course_reaches (hP : ∀ s, ∀ j ∈ columns, P s → P (y.next s j).1 ∨ Q (y.next s j).1)
    (hQ : ∀ s, ∀ j ∈ columns, Q s → Q (y.next s j).1) {j : Nat}
    (hj : ∀ s, P s → Q (y.next s j).1) (hmem : j ∈ columns) (stopOnStall : Bool) {left : Nat}
    (hleft : 1 ≤ left) {s : Store α} (hs : P s) :
    Q (y.course stopOnStall left columns s).store := by
  obtain ⟨left, rfl⟩ := Nat.exists_eq_add_of_le' hleft
  have hw := sweepFrom_reaches hP hQ hj (List.Subset.refl columns) hmem hs
  simp only [course]
  split
  next => exact hw
  next => exact (course_invariant hQ stopOnStall left (sweepFrom_pending_subset y columns s) hw).2

end Invariant

theorem read_next_of_ne {y : Tableau α} {j : Nat} {r : Ref} (h : y.ref j ≠ r) (s : Store α) :
    (y.next s j).1.read r = s.read r := by
  rw [next]
  split
  next => rfl
  next => rw [Store.read_write, if_neg fun hr => h hr.1]

section Whole

variable [LawfulScalar α] {y : Tableau α} {s : Store α}

theorem read_next_of_isIntegral (hs : s.Sound) {r : Ref} (h : (s.read r).isIntegral = true)
    (j : Nat) : (y.next s j).1.read r = s.read r := by
  by_cases hr : y.ref j = r
  · rw [next_of_isIntegral hs (by rwa [variableAt, hr])]
  · exact read_next_of_ne hr s

theorem next_keeps_isIntegral {r : Ref} (j : Nat) (h : Store.SoundWith r s) :
    Store.SoundWith r (y.next s j).1 :=
  ⟨next_sound h.1 y j, by rw [read_next_of_isIntegral h.1 h.2 j]; exact h.2⟩

theorem isIntegral_of_not_mem_sweepFrom (hs : s.Sound) {pending : List Nat} {j : Nat}
    (hj : j ∈ pending) (hn : j ∉ (y.sweepFrom pending s).pending) :
    (y.variableAt (y.sweepFrom pending s).store j).isIntegral = true := by
  induction pending generalizing s with
  | nil => cases hj
  | cons i rest ih =>
      have hnext := next_sound hs y i
      rw [sweepFrom_cons_pending] at hn
      by_cases hr : j ∈ rest
      · refine ih hnext hr fun h => hn ?_
        split
        · exact h
        · exact List.mem_cons_of_mem _ h
      · obtain rfl : j = i := (List.mem_cons.mp hj).resolve_right hr
        have hw : (y.variableAt (y.next s j).1 j).isIntegral = true := by
          by_contra hc
          rw [if_neg hc] at hn
          exact hn List.mem_cons_self
        have hkeep := sweepFrom_invariant (y := y) (P := Store.SoundWith (y.ref j))
          (fun _ i _ h => next_keeps_isIntegral i h) (List.Subset.refl rest) ⟨hnext, hw⟩
        exact hkeep.2.2

/-- A column that is no longer pending at the end of a course is whole there. -/
theorem isIntegral_of_not_mem_course (hs : s.Sound) (stopOnStall : Bool) (left : Nat)
    {pending : List Nat} {j : Nat} (hj : j ∈ pending)
    (hn : j ∉ (y.course stopOnStall left pending s).pending) :
    (y.variableAt (y.course stopOnStall left pending s).store j).isIntegral = true := by
  induction left generalizing pending s with
  | zero => exact absurd hj hn
  | succ left ih =>
      have hw := sweepFrom_sound hs y pending
      simp only [course] at hn ⊢
      split at hn
      next => exact isIntegral_of_not_mem_sweepFrom hs hj hn
      next =>
        by_cases hp : j ∈ (y.sweepFrom pending s).pending
        · exact ih hw hp hn
        · have hkeep := course_invariant (y := y) (P := Store.SoundWith (y.ref j))
            (fun _ i _ h => next_keeps_isIntegral i h) stopOnStall left
            (List.Subset.refl (y.sweepFrom pending s).pending)
            ⟨hw, isIntegral_of_not_mem_sweepFrom hs hj hp⟩
          exact hkeep.2.2

theorem course_sound (hs : s.Sound) (stopOnStall : Bool) (left : Nat) (pending : List Nat) :
    (y.course stopOnStall left pending s).store.Sound :=
  (course_invariant (P := Store.Sound) (fun _ j _ h => next_sound h y j) stopOnStall left
    (List.Subset.refl pending) hs).2

end Whole

end Tableau

end MilpRounding
