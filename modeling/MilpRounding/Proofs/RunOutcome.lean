import MilpRounding.Proofs.ColumnConversion
import MilpRounding.Proofs.Course
import MilpRounding.Proofs.TurnedRows

namespace MilpRounding

open Scalar LawfulScalar

variable {α : Type} [Scalar α]

theorem pick_natCast {α β : Type} {xs : List β} {k : Nat} {b : β} (h : xs[k]? = some b) :
    pick xs (k : Int) = (.ok b : Except (Fault α) β) := by
  obtain ⟨hk, rfl⟩ := List.getElem?_eq_some_iff.mp h
  simp [pick, resolve?, hk]
  rfl

namespace Model

omit [Scalar α] in
theorem requireColumns_eq {m : Model α} {columns : List Ref} (h : m.columns = some columns) :
    m.requireColumns = .ok columns := by
  rw [requireColumns, h]
  rfl

omit [Scalar α] in
theorem requireRows_eq {m : Model α} {rows : List (Row α)} (h : m.rows = some rows) :
    m.requireRows = .ok rows := by
  rw [requireRows, h]
  rfl

omit [Scalar α] in
theorem requireTableau_eq {m : Model α} {columns : List Ref} {rows : List (Row α)}
    (hc : m.columns = some columns) (hr : m.rows = some rows) :
    m.requireTableau = .ok ⟨columns, rows, m.objective⟩ := by
  rw [requireTableau, requireRows_eq hr, requireColumns_eq hc]
  rfl

omit [Scalar α] in
theorem parts_of_requireTableau {m : Model α} {y : Tableau α} (h : m.requireTableau = .ok y) :
    m.columns = some y.columns ∧ m.rows = some y.rows := by
  obtain ⟨columns, rows, objective⟩ := m
  cases rows with
  | none => cases h
  | some rows =>
      cases columns with
      | none => cases h
      | some columns =>
          cases h
          exact ⟨rfl, rfl⟩

theorem orient_eq {m : Model α} {rows : List (Row α)} (h : m.rows = some rows) {target : Relation}
    (ht : target ≠ .eq) : m.orient target =
      .ok ({ m with rows := some (rows.map (Row.toward target)) }, opposing target rows) := by
  rw [orient, if_neg ht, requireRows_eq h]
  rfl

theorem variableAt_eq {m : Model α} {columns : List Ref} (hc : m.columns = some columns)
    (s : Store α) {j : Nat} (hj : j < columns.length) :
    m.variableAt s j = .ok (s.read (columns.getD j 0)) := by
  have hpick : pick columns (j : Int) = (.ok (columns.getD j 0) : Except (Fault α) Ref) :=
    pick_natCast (by simp [hj])
  rw [variableAt, requireColumns_eq hc]
  change (pick columns (j : Int)).bind _ = _
  rw [hpick]
  rfl

end Model

namespace Rounding

/-- The first thing that stands in the way of a run. -/
def obstacle? (options : Options α) (indices : Option (List Int)) (m : Model α) :
    Option (Fault α) :=
  match indices, m.columns with
  | none, _ => some .indicesUnset
  | some _, none => some .noVariables
  | some indices, some columns =>
    match outOfRange? columns.length indices with
    | some j => some (.indexOutOfRange j columns.length)
    | none =>
      match m.rows with
      | none => some .noConstraints
      | some rows =>
        if !options.normalize && rows.any (·.relation.isAbove) then some .wrongPolarity else none

def oriented (options : Options α) (rows : List (Row α)) : List (Row α) :=
  if options.normalize then rows.map (Row.toward .le) else rows

def orientedModel (options : Options α) (m : Model α) : Model α :=
  { m with rows := m.rows.map (oriented options) }

def tableau (options : Options α) (m : Model α) : Tableau α :=
  ⟨m.columns.getD [], oriented options (m.rows.getD []), m.objective⟩

def listed (indices : Option (List Int)) : List Nat := (indices.getD []).map Int.toNat

def passage (options : Options α) (indices : Option (List Int)) (c : Scene α) : Course α :=
  (tableau options c.model).course options.stopOnStall options.maxSweeps.1 (listed indices) c.store

def roundedColumns (indices : Option (List Int)) (k : Course α) : List Nat :=
  (listed indices).filter fun j => !k.pending.contains j

def markColumns (y : Tableau α) (columns : List Nat) (s : Store α) : Store α :=
  columns.foldl (fun s j => s.makeIntegral (y.ref j)) s

def settled (options : Options α) (indices : Option (List Int)) (y : Tableau α) (k : Course α) :
    Store α :=
  if options.markIntegral then markColumns y (roundedColumns indices k) k.store else k.store

def reportOf (options : Options α) (indices : Option (List Int)) (y : Tableau α) (k : Course α) :
    Report α where
  status := k.status
  sweeps := k.sweeps.length
  moves := (k.sweeps.map Sweep.moves).sum
  history := k.sweeps.map Sweep.moves
  rounded := roundedColumns indices k
  fractional := k.pending
  values := y.values k.store
  objective := y.objectiveValue k.store
  feasible := y.isFeasible options.tol k.store

def orientEvents (options : Options α) (m : Model α) : List (Event α) :=
  if options.normalize && !(opposing .le (m.rows.getD [])).isEmpty then
    [.rowsFlipped .le (opposing .le (m.rows.getD []))]
  else []

def runEvents (options : Options α) (indices : Option (List Int)) (c : Scene α) :
    List (Event α) :=
  let k := passage options indices c
  orientEvents options c.model ++ sweepEvents 0 k.sweeps ++
    [.runDone k.status k.sweeps.length (roundedColumns indices k).length (listed indices).length]

/-- The scene that a run leaves if nothing stands in its way. -/
def outcome (options : Options α) (indices : Option (List Int)) (c : Scene α) : Scene α where
  store := settled options indices (tableau options c.model) (passage options indices c)
  model := orientedModel options c.model
  events := c.events ++ (runEvents options indices c).toArray

theorem forall_oriented {p : Row α → Prop} (hturn : ∀ r, p r → p (r.toward .le))
    (options : Options α) {rows : List (Row α)} (h : ∀ r ∈ rows, p r) :
    ∀ r ∈ oriented options rows, p r := by
  rw [oriented]
  split
  next =>
    intro r hmem
    obtain ⟨r, hr, rfl⟩ := List.mem_map.mp hmem
    exact hturn r (h r hr)
  next => exact h

omit [Scalar α] in
theorem mem_roundedColumns {indices : Option (List Int)} {k : Course α} {j : Nat} :
    j ∈ roundedColumns indices k ↔ j ∈ listed indices ∧ j ∉ k.pending := by
  simp [roundedColumns]

theorem ref_tableau {m : Model α} {columns : List Ref} (hc : m.columns = some columns)
    (options : Options α) (j : Nat) : (tableau options m).ref j = columns.getD j 0 := by
  rw [Tableau.ref, tableau, hc, Option.getD_some]

theorem variableAt_outcome {c : Scene α} {columns : List Ref} (hc : c.model.columns = some columns)
    (options : Options α) (indices : Option (List Int)) {j : Nat} (hj : j < columns.length) :
    (outcome options indices c).model.variableAt (outcome options indices c).store j =
      .ok ((outcome options indices c).store.read (columns.getD j 0)) :=
  Model.variableAt_eq hc _ hj

def preparedScene (options : Options α) (c : Scene α) : Scene α :=
  { c with model := orientedModel options c.model
           events := c.events ++ (orientEvents options c.model).toArray }

/-- A run that turns rows makes of its model what a turn makes of it. -/
theorem orient_eq {options : Options α} (hn : options.normalize = true) {m : Model α}
    {rows : List (Row α)} (h : m.rows = some rows) :
    m.orient .le = .ok (orientedModel options m, opposing .le rows) := by
  have hrows : oriented options rows = rows.map (Row.toward .le) := if_pos hn
  rw [Model.orient_eq h (Relation.ne_eq_of_isBelow rfl), orientedModel, h, Option.map_some, hrows]

theorem orient_run {options : Options α} (hn : options.normalize = true) {c : Scene α}
    {rows : List (Row α)} (h : c.model.rows = some rows) :
    (Action.orient .le).run c = .ok (opposing .le rows) (preparedScene options c) := by
  rw [Action.orient, run_get_bind, run_bind_of_ok (Action.ofExcept_run_ok (orient_eq hn h) c)]
  simp only [preparedScene, orientEvents, hn, h, Option.getD_some]
  generalize opposing .le rows = flipped
  cases flipped <;> rfl

theorem orientedModel_eq {options : Options α} (hn : options.normalize = false) (m : Model α) :
    orientedModel options m = m := by
  have hrows : oriented options = @id (List (Row α)) := by
    funext rows
    rw [oriented, if_neg (by simp [hn])]
    rfl
  rw [orientedModel, hrows, Option.map_id_fun, id_eq]

theorem preparedScene_eq {options : Options α} (hn : options.normalize = false) (c : Scene α) :
    preparedScene options c = c := by
  simp [preparedScene, orientedModel_eq hn, orientEvents, hn]

/-- The checks of a run come before any change. -/
theorem prepare_run (options : Options α) (indices : Option (List Int)) (c : Scene α) :
    (prepare options indices).run c =
      match obstacle? options indices c.model with
      | some f => .error f c
      | none => .ok (listed indices) (preparedScene options c) := by
  -- one case for each check, in the order in which they are made
  simp only [prepare, obstacle?]
  cases indices with
  | none => rfl
  | some indices =>
      simp only
      rw [run_get_bind]
      cases hc : c.model.columns with
      | none =>
          rw [Model.requireColumns, hc]
          rfl
      | some columns =>
          simp only
          rw [run_bind_of_ok (Action.ofExcept_run_ok (Model.requireColumns_eq hc) c)]
          cases outOfRange? columns.length indices with
          | some j => rfl
          | none =>
              simp only
              cases hn : options.normalize with
              | true =>
                  rw [if_pos rfl]
                  cases hr : c.model.rows with
                  | none =>
                      rw [Action.orient, bind_assoc, run_get_bind, Model.orient,
                        Model.requireRows, hr]
                      rfl
                  | some rows =>
                      rw [run_bind_of_ok (orient_run hn hr)]
                      rfl
              | false =>
                  rw [if_neg (by decide), run_get_bind, preparedScene_eq hn]
                  cases hr : c.model.rows with
                  | none =>
                      rw [Model.requireRows, hr]
                      rfl
                  | some rows =>
                      rw [run_bind_of_ok
                        (Action.ofExcept_run_ok (Model.requireRows_eq hr) c)]
                      simp only [Bool.not_false, Bool.true_and]
                      cases rows.any (·.relation.isAbove) <;> rfl

theorem obstacle?_eq_none {options : Options α} {indices : Option (List Int)} {m : Model α}
    (h : obstacle? options indices m = none) :
    ∃ idx columns rows, indices = some idx ∧ m.columns = some columns ∧ m.rows = some rows ∧
      (∀ j ∈ idx, 0 ≤ j ∧ j < columns.length) ∧
      (options.normalize = true ∨ ∀ r ∈ rows, r.relation.isAbove = false) := by
  simp only [obstacle?] at h
  cases indices with
  | none => cases h
  | some idx =>
      cases hc : m.columns with
      | none => simp [hc] at h
      | some columns =>
          simp only [hc] at h
          cases ho : outOfRange? columns.length idx with
          | some j => simp [ho] at h
          | none =>
              simp only [ho] at h
              cases hr : m.rows with
              | none => simp [hr] at h
              | some rows =>
                  refine ⟨idx, columns, rows, rfl, rfl, rfl, ?_, ?_⟩
                  · simpa [outOfRange?] using ho
                  · cases hn : options.normalize <;> simp [hr, hn] at h ⊢
                    exact h

/-- What stands in the way of a run is never the state that the engine is in. -/
theorem category_obstacle? {options : Options α} {indices : Option (List Int)} {m : Model α}
    {f : Fault α} (h : obstacle? options indices m = some f) : f.category ≠ .state := by
  simp only [obstacle?] at h
  repeat' split at h
  all_goals cases h
  all_goals simp [Fault.category]

theorem requireTableau_orientedModel {options : Options α} {indices : Option (List Int)}
    {m : Model α} (h : obstacle? options indices m = none) :
    (orientedModel options m).requireTableau = .ok (tableau options m) := by
  obtain ⟨-, columns, rows, -, hc, hr, -⟩ := obstacle?_eq_none h
  have hc' : (orientedModel options m).columns = some columns := hc
  have hr' : (orientedModel options m).rows = some (oriented options rows) := by
    rw [orientedModel, hr]
    rfl
  rw [Model.requireTableau_eq hc' hr', tableau, hc, hr]
  rfl

theorem convertColumns_eq {columns : List Ref} {s : Store α} {idx : List Nat}
    (hrange : ∀ j ∈ idx, j < columns.length)
    (hwhole : ∀ j ∈ idx, (s.read (columns.getD j 0)).isIntegral = true) :
    convertColumns columns s (idx.map Int.ofNat) =
      ((idx.map (columns.getD · 0)).foldl Store.makeIntegral s, .ok .accepted) := by
  have hcolumn : ∀ j ∈ idx, columnAt? columns (Int.ofNat j) = some (columns.getD j 0) := by
    intro j hj
    simp [columnAt?, resolve?, hrange j hj]
  have hall : ∀ i ∈ idx.map Int.ofNat, isConvertible columns s i = true := by
    intro i hi
    obtain ⟨j, hj, rfl⟩ := List.mem_map.mp hi
    rw [isConvertible, hcolumn j hj]
    exact hwhole j hj
  have hrefs : (idx.map Int.ofNat).filterMap (columnAt? columns) =
      idx.map (columns.getD · 0) := by
    rw [List.filterMap_map]
    exact (List.filterMap_congr hcolumn).trans (congrFun List.filterMap_eq_map' idx)
  rw [convertColumns_eq_foldl, List.takeWhile_eq_self_iff.mpr hall,
    List.dropWhile_eq_nil_iff.mpr hall, hrefs]
  rfl

theorem convert_run {c : Scene α} {columns : List Ref} (hc : c.model.columns = some columns)
    (indices : List Int) : (Action.convert indices).run c =
      (Action.ofExcept (convertColumns columns c.store indices).2 >>= Action.concluding).run
        { c with store := (convertColumns columns c.store indices).1 } := by
  rw [Action.convert, run_get_bind,
    run_bind_of_ok (Action.ofExcept_run_ok (Model.requireColumns_eq hc) c), run_get_bind]
  rfl

theorem markColumns_eq_foldl (y : Tableau α) (columns : List Nat) (s : Store α) :
    markColumns y columns s = (columns.map y.ref).foldl Store.makeIntegral s := by
  rw [markColumns, List.foldl_map]

theorem value_markColumns (y : Tableau α) (columns : List Nat) (s : Store α) (r : Ref) :
    (markColumns y columns s).value r = s.value r := by
  rw [markColumns_eq_foldl, Store.value_foldl_makeIntegral]

theorem value_settled (options : Options α) (indices : Option (List Int)) (y : Tableau α)
    (k : Course α) (r : Ref) : (settled options indices y k).value r = k.store.value r := by
  rw [settled]
  split
  · exact value_markColumns y _ k.store r
  · rfl

theorem settled_eq (options : Options α) (indices : Option (List Int)) (y : Tableau α)
    (k : Course α) : settled options indices y k =
      if options.markIntegral && !(roundedColumns indices k).isEmpty then
        markColumns y (roundedColumns indices k) k.store
      else k.store := by
  rw [settled]
  cases options.markIntegral <;> cases roundedColumns indices k <;> rfl

theorem values_settled (options : Options α) (indices : Option (List Int)) (y : Tableau α)
    (k : Course α) : y.values (settled options indices y k) = y.values k.store :=
  List.map_congr_left fun r _ => value_settled options indices y k r

section Run

variable [LawfulScalar α] {options : Options α} {indices : Option (List Int)} {c : Scene α}

omit [LawfulScalar α] in
theorem run_of_obstacle {f : Fault α} (h : obstacle? options indices c.model = some f) :
    (run options indices).run c = .error f c := by
  have hp := prepare_run options indices c
  rw [h] at hp
  exact run_bind_of_error hp

theorem mem_listed {idx : List Int} {n : Nat} (hrange : ∀ j ∈ idx, 0 ≤ j ∧ j < n) {j : Nat}
    (hj : j ∈ listed (some idx)) : j < n := by
  obtain ⟨i, hi, rfl⟩ := List.mem_map.mp hj
  have := hrange i hi
  omega

omit [LawfulScalar α] in
theorem conclude_run {y : Tableau α} (hc : c.model.columns = some y.columns) {k : Course α}
    (hs : c.store = k.store) (hrange : ∀ j ∈ listed indices, j < y.columns.length)
    (hwhole : ∀ j ∈ listed indices, j ∉ k.pending → (y.variableAt k.store j).isIntegral = true) :
    (conclude options y (listed indices) k.status
        ⟨k.sweeps.length, (k.sweeps.map Sweep.moves).toArray, k.pending⟩).run c =
      .ok (reportOf options indices y k)
        { c with store := settled options indices y k
                 events := c.events.push (.runDone k.status k.sweeps.length
                   (roundedColumns indices k).length (listed indices).length) } := by
  have hconvert : (Action.convert ((roundedColumns indices k).map Int.ofNat)).run c =
      .ok .accepted { c with store := markColumns y (roundedColumns indices k) k.store } := by
    have hlt : ∀ j ∈ roundedColumns indices k, j < y.columns.length :=
      fun j hj => hrange j (mem_roundedColumns.mp hj).1
    have hdone : ∀ j ∈ roundedColumns indices k,
        (c.store.read (y.columns.getD j 0)).isIntegral = true := by
      intro j hj
      obtain ⟨hj, hn⟩ := mem_roundedColumns.mp hj
      rw [hs]
      exact hwhole j hj hn
    rw [convert_run hc, convertColumns_eq hlt hdone, hs, markColumns_eq_foldl]
    rfl
  have hmoves : (k.sweeps.map Sweep.moves).toArray.foldl (· + ·) 0 =
      (k.sweeps.map Sweep.moves).sum := by
    rw [List.foldl_toArray, List.sum_eq_foldl]
  have hvalues := values_settled options indices y k
  rw [conclude]
  simp only [reportOf, Tableau.isFeasible, Tableau.violated, Tableau.objectiveValue, ← hvalues,
    settled_eq, hmoves]
  rw [show (listed indices).filter (fun j => !k.pending.contains j) = roundedColumns indices k
    from rfl]
  split
  next =>
    rw [run_bind_of_ok hconvert, run_bind_of_ok (Action.note_run _ _), run_get_bind]
    rfl
  next =>
    rw [run_bind_of_ok (Action.note_run _ _), run_get_bind, hs]
    rfl

/-- With nothing in its way, a run over sound variables ends in its outcome. -/
theorem run_of_ready (hs : c.store.Sound) (h : obstacle? options indices c.model = none) :
    (run options indices).run c =
      .ok (reportOf options indices (tableau options c.model) (passage options indices c))
        (outcome options indices c) := by
  have hp := prepare_run options indices c
  rw [h] at hp
  obtain ⟨idx, columns, rows, rfl, hc, hr, hrange, -⟩ := obstacle?_eq_none h
  have hy : (preparedScene options c).model.requireTableau = .ok (tableau options c.model) :=
    requireTableau_orientedModel h
  rw [run, run_bind_of_ok hp, run_get_bind,
    run_bind_of_ok (Action.ofExcept_run_ok hy _)]
  have hk := sweeping_run (tableau options c.model) options.stopOnStall options.maxSweeps.1
    { pending := listed (some idx) } (c := preparedScene options c) hs
  simp only [Nat.zero_add, Array.empty_append] at hk
  rw [run_bind_of_ok hk]
  have hcolumns : (tableau options c.model).columns = columns := by rw [tableau, hc]; rfl
  refine (conclude_run (k := passage options (some idx) c) ?_ rfl ?_ ?_).trans ?_
  · exact hc.trans (congrArg some hcolumns.symm)
  · intro j hj
    rw [hcolumns]
    exact mem_listed hrange hj
  · exact fun j hj hn => Tableau.isIntegral_of_not_mem_course hs _ _ hj hn
  · simp [outcome, runEvents, preparedScene, passage]

theorem ready_of_run (hs : c.store.Sound) {report : Report α} {c' : Scene α}
    (h : (run options indices).run c = .ok report c') :
    obstacle? options indices c.model = none ∧
      report = reportOf options indices (tableau options c.model) (passage options indices c) ∧
      c' = outcome options indices c := by
  cases ho : obstacle? options indices c.model with
  | some f =>
      rw [run_of_obstacle ho] at h
      cases h
  | none =>
      rw [run_of_ready hs ho] at h
      cases h
      exact ⟨rfl, rfl, rfl⟩

theorem obstacle_of_run (hs : c.store.Sound) {fault : Fault α} {c' : Scene α}
    (h : (run options indices).run c = .error fault c') :
    obstacle? options indices c.model = some fault := by
  cases ho : obstacle? options indices c.model with
  | some f =>
      rw [run_of_obstacle ho] at h
      cases h
      rfl
  | none =>
      rw [run_of_ready hs ho] at h
      cases h

end Run

end Rounding

end MilpRounding
