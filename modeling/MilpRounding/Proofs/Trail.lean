import MilpRounding.Proofs.RunOutcome
import MilpRounding.Proofs.StoreRevision

namespace MilpRounding

open Scalar LawfulScalar

variable {α : Type} [Scalar α]

/-- From one store to another, by the listed decisions in tableaux of some sort, and by marks on whole
variables that are not listed. -/
inductive Trail (P : Tableau α → Prop) : Store α → List (Decision α) → Store α → Prop
  | rest (s : Store α) : Trail P s [] s
  | decide {y : Tableau α} {s t u : Store α} {j : Nat} {moved : Bool} {ds : List (Decision α)}
      (hy : P y) (h : y.roundColumn s j = .ok (t, moved)) (k : Trail P t ds u) :
      Trail P s (⟨j, s, t, moved⟩ :: ds) u
  | mark {s u : Store α} {r : Ref} {ds : List (Decision α)} (h : (s.read r).isIntegral = true)
      (k : Trail P (s.makeIntegral r) ds u) : Trail P s ds u

def Passes (P : Tableau α → Prop) (s : Store α) (ds : List (Decision α)) (u t : Store α) : Prop :=
  ∃ es fs, ds = es ++ fs ∧ Trail P s es t ∧ Trail P t fs u

/-- A trail that follows the decisions of some sweeps and comes by the store that each of them
leaves. -/
def Journey (P : Tableau α → Prop) : Store α → List (Sweep α) → Store α → Prop
  | s, [], t => Trail P s [] t
  | s, w :: rest, t => Trail P s w.decisions w.store ∧ Journey P w.store rest t

namespace Trail

variable {P Q : Tableau α → Prop} {s t u : Store α} {ds es : List (Decision α)}

theorem append (h : Trail P s ds t) (k : Trail P t es u) :
    Trail P s (ds ++ es) u := by
  induction h with
  | rest => exact k
  | decide hy hround _ ih => exact decide hy hround (ih k)
  | mark hwhole _ ih => exact mark hwhole (ih k)

theorem mono (hPQ : ∀ y, P y → Q y) (h : Trail P s ds t) : Trail Q s ds t := by
  induction h with
  | rest s => exact rest s
  | decide hy hround _ ih => exact decide (hPQ _ hy) hround ih
  | mark hwhole _ ih => exact mark hwhole ih

theorem revised (h : Trail P s ds t) : s.Revised t := by
  induction h with
  | rest s => exact .refl s
  | decide _ hround _ ih => exact (Tableau.roundColumn_revised hround).trans ih
  | mark hwhole _ ih => exact (Store.makeIntegral_revision hwhole).revised.trans ih

theorem at_decision {d : Decision α} (h : Trail P s (ds ++ d :: es) u) :
    Trail P s ds d.before ∧ Trail P d.before [d] d.after ∧ Trail P d.after es u := by
  generalize hall : ds ++ d :: es = all at h
  induction h generalizing ds with
  | rest => exact absurd hall (by simp)
  | @decide y s t _ j moved rest hy hround k ih =>
      cases ds with
      | nil =>
          obtain ⟨rfl, rfl⟩ := List.cons.inj hall
          exact ⟨.rest s, decide hy hround (.rest t), k⟩
      | cons e ds =>
          obtain ⟨rfl, htail⟩ := List.cons.inj hall
          obtain ⟨hbefore, hafter⟩ := ih htail
          exact ⟨decide hy hround hbefore, hafter⟩
  | mark hwhole _ ih =>
      obtain ⟨hbefore, hafter⟩ := ih hall
      exact ⟨mark hwhole hbefore, hafter⟩

theorem passes_of_mem {d : Decision α} (h : Trail P s ds u) (hd : d ∈ ds) :
    Passes P s ds u d.before ∧ Passes P s ds u d.after := by
  obtain ⟨es, fs, rfl⟩ := List.mem_iff_append.mp hd
  obtain ⟨hbefore, hdecision, hafter⟩ := h.at_decision
  exact ⟨⟨es, d :: fs, rfl, hbefore, hdecision.append hafter⟩,
    ⟨es ++ [d], fs, by simp, hbefore.append hdecision, hafter⟩⟩

section Sound

variable [LawfulScalar α]

/-- The decisions of a trail are those to take, each in a store on the way. -/
theorem next_of_mem (h : Trail P s ds t) (hs : s.Sound) {d : Decision α} (hd : d ∈ ds) :
    d.before.Sound ∧ ∃ y, P y ∧ y.next d.before d.column = (d.after, d.moved) := by
  induction h with
  | rest => cases hd
  | @decide y s t u j moved rest hy hround _ ih =>
      rw [Tableau.roundColumn_eq hs, Except.ok.injEq] at hround
      rcases List.mem_cons.mp hd with rfl | hd
      · exact ⟨hs, y, hy, hround⟩
      · have hsound := Tableau.next_sound hs y j
        rw [hround] at hsound
        exact ih hsound hd
  | mark hwhole _ ih => exact ih ((Store.makeIntegral_revision hwhole).sound hs) hd

theorem relates {R : Store α → Store α → Prop}
    (hsame : ∀ {s t : Store α}, s.Sound → (∀ r, t.value r = s.value r) → R s t)
    (htrans : ∀ {s t u : Store α}, R s t → R t u → R s u)
    (hnext : ∀ (y : Tableau α) {s : Store α} (j : Nat), s.Sound → R s (y.next s j).1)
    (h : Trail P s ds t) (hs : s.Sound) : R s t := by
  induction h with
  | rest s => exact hsame hs fun _ => rfl
  | @decide y s t u j moved ds _ hround _ ih =>
      rw [Tableau.roundColumn_eq hs, Except.ok.injEq] at hround
      have hstep := hnext y j hs
      have hsound := Tableau.next_sound hs y j
      rw [hround] at hstep hsound
      exact htrans hstep (ih hsound)
  -- a mark keeps all values
  | @mark s u r ds hwhole _ ih =>
      have hsound := (Store.makeIntegral_revision hwhole).sound hs
      exact htrans (hsame hs (Store.read_makeIntegral_value s r)) (ih hsound)

end Sound

end Trail

namespace Journey

variable {P Q : Tableau α → Prop} {s t u : Store α} {ws vs : List (Sweep α)}

theorem trail (h : Journey P s ws t) : Trail P s (ws.flatMap (·.decisions)) t := by
  induction ws generalizing s with
  | nil => exact h
  | cons w rest ih =>
      rw [List.flatMap_cons]
      exact h.1.append (ih h.2)

theorem mono (hPQ : ∀ y, P y → Q y) (h : Journey P s ws t) : Journey Q s ws t := by
  induction ws generalizing s with
  | nil => exact Trail.mono hPQ h
  | cons w rest ih => exact ⟨h.1.mono hPQ, ih h.2⟩

theorem prepend (h : Trail P s [] t) (k : Journey P t ws u) : Journey P s ws u := by
  cases ws with
  | nil => exact h.append k
  | cons w rest => exact ⟨h.append k.1, k.2⟩

theorem append (h : Journey P s ws t) (k : Journey P t vs u) :
    Journey P s (ws ++ vs) u := by
  induction ws generalizing s with
  | nil => exact prepend h k
  | cons w rest ih => exact ⟨h.1, ih h.2⟩

theorem finish (h : Journey P s ws t) (k : Trail P t [] u) : Journey P s ws u := by
  rw [← List.append_nil ws]
  exact h.append k

/-- Each sweep starts where a trail from every earlier sweep leads. -/
theorem pairwise (h : Journey P s ws t) :
    (s :: ws.map (·.store)).Pairwise fun s t => ∃ ds, Trail P s ds t := by
  induction ws generalizing s with
  | nil => exact List.pairwise_singleton _ s
  | cons w rest ih =>
      refine List.pairwise_cons.mpr ⟨fun t ht => ?_, ih h.2⟩
      rcases List.mem_cons.mp ht with rfl | ht
      · exact ⟨w.decisions, h.1⟩
      · obtain ⟨ds, k⟩ := (List.pairwise_cons.mp (ih h.2)).1 t ht
        exact ⟨w.decisions ++ ds, h.1.append k⟩

end Journey

section Run

variable [LawfulScalar α]

namespace Tableau

variable {s : Store α}

theorem sweepFrom_trail (y : Tableau α) (pending : List Nat) (hs : s.Sound) :
    Trail (· = y) s (y.sweepFrom pending s).decisions (y.sweepFrom pending s).store := by
  induction pending generalizing s with
  | nil => exact .rest s
  | cons j rest ih => exact .decide rfl (roundColumn_eq hs y j) (ih (next_sound hs y j))

theorem course_journey (y : Tableau α) (stopOnStall : Bool) (left : Nat) (pending : List Nat)
    (hs : s.Sound) :
    Journey (· = y) s (y.course stopOnStall left pending s).sweeps
      (y.course stopOnStall left pending s).store := by
  induction left generalizing pending s with
  | zero => exact .rest s
  | succ left ih =>
      have hw := sweepFrom_trail y pending hs
      simp only [course]
      split
      next => exact ⟨hw, .rest _⟩
      next => exact ⟨hw, ih _ (sweepFrom_sound hs y pending)⟩

end Tableau

namespace Rounding

variable {options : Options α} {indices : Option (List Int)} {c : Scene α}

omit [LawfulScalar α] in
theorem markColumns_trail (P : Tableau α → Prop) {y : Tableau α} {columns : List Nat} {s : Store α}
    (h : ∀ j ∈ columns, (y.variableAt s j).isIntegral = true) :
    Trail P s [] (markColumns y columns s) := by
  induction columns generalizing s with
  | nil => exact .rest s
  | cons j rest ih =>
      refine .mark (h j List.mem_cons_self) (ih fun i hi => ?_)
      have hwhole := h i (List.mem_cons_of_mem j hi)
      rw [Tableau.variableAt, Variable.isIntegral] at hwhole ⊢
      rwa [Store.read_makeIntegral_value]

theorem settled_trail (P : Tableau α → Prop) (options : Options α) (indices : Option (List Int))
    (hs : c.store.Sound) :
    Trail P (passage options indices c).store [] (outcome options indices c).store := by
  simp only [outcome, settled]
  split
  next =>
    refine markColumns_trail P fun j hj => ?_
    obtain ⟨hj, hn⟩ := mem_roundedColumns.mp hj
    exact Tableau.isIntegral_of_not_mem_course hs _ _ hj hn
  next => exact .rest _

theorem outcome_journey (options : Options α) (indices : Option (List Int)) (hs : c.store.Sound) :
    Journey (· = tableau options c.model) c.store (passage options indices c).sweeps
      (outcome options indices c).store :=
  Journey.finish (Tableau.course_journey _ _ _ _ hs) (settled_trail _ options indices hs)

end Rounding

end Run

end MilpRounding
