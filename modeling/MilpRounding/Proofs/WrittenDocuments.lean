import MilpRounding.Problem.Reader
import MilpRounding.Problem.Writer

namespace MilpRounding

open Checked

namespace Document

variable {β γ : Type}

/-- What is written is read again, and nothing is lost. -/
def Restores (read : Document → Checked β) (write : β → Document) : Prop :=
  ∀ b, read (write b) = .ok b

/-- A check of fields that looks at those of some names alone. -/
def Selects (names : List String) (check : List (String × Document) → Checked β) : Prop :=
  ∀ fields others, (∀ name ∈ names, find? name fields = find? name others) →
    check fields = check others

structure Inverse (names : List String) (read : Document → Checked β) (write : β → Document) :
    Prop where
  complete (b : β) : ∃ fields, write b = .object fields ∧ fields.map (·.1) = names
  selects : Selects names fun fields => read (.object fields)
  restores : Restores read write
  /-- To read what was written of what was read is to read once. -/
  settles (d : Document) : ((read d).bind fun b => read (write b)) = read d

theorem Restores.settles {read : Document → Checked β} {write : β → Document}
    (h : Restores read write) (d : Document) :
    ((read d).bind fun b => read (write b)) = read d := by
  cases read d with
  | error issues => rfl
  | ok b => exact h b

section Values

theorem restores_text : Restores asText .text := fun _ => rfl

theorem restores_real : Restores asReal .real := fun _ => rfl

theorem restores_truth : Restores asTruth .boolean := fun _ => rfl

theorem restores_word {read : String → Option β} {word : β → String}
    (h : ∀ b, read (word b) = some b) : Restores (asWord read) fun b => .text (word b) := by
  intro b
  simp only [asWord, h]

theorem restores_positive : Restores asPositive fun n => .integer n.1 := by
  rintro ⟨n, hn⟩
  simp only [asPositive, asInteger, Except.bind, Int.toNat_natCast, dif_pos hn]

theorem restores_bound : Restores (nullable asReal) fun bound =>
    match bound with
    | some x => .real x
    | none => .nothing := by
  intro bound
  cases bound <;> rfl

theorem Restores.itemsFrom {read : Document → Checked β} {write : β → Document}
    (h : Restores read write) (i : Nat) (bs : List β) :
    itemsFrom read i (bs.map write) = .ok bs := by
  induction bs generalizing i with
  | nil => rfl
  | cons b rest ih =>
      rw [List.map_cons, Document.itemsFrom, h b, ih]
      rfl

theorem Restores.listOf {read : Document → Checked β} {write : β → Document}
    (h : Restores read write) : Restores (listOf read) fun bs => .list (bs.map write) :=
  fun bs => h.itemsFrom 0 bs

end Values

section Fields

variable {name : String} {check : Document → Checked β} {default b : β} {d : Document}
  {fields : List (String × Document)}

theorem required_of_find (hd : find? name fields = some d) (h : check d = .ok b) :
    required name check fields = .ok b := by
  simp only [required, hd, h, beneath]

theorem optional_of_find (hd : find? name fields = some d) (h : check d = .ok b) :
    optional name default check fields = .ok b := by
  simp only [optional, hd, h, beneath]

theorem selects_required : Selects [name] (required name check) := by
  intro fields others h
  rw [required, required, h name List.mem_cons_self]

theorem selects_optional : Selects [name] (optional name default check) := by
  intro fields others h
  rw [optional, optional, h name List.mem_cons_self]

theorem Selects.map {names : List String} {check : List (String × Document) → Checked β}
    (h : Selects names check) (f : β → γ) : Selects names fun fields => (check fields).map f := by
  intro fields others hsame
  simp only [h fields others hsame]

theorem Selects.apply {names more : List String} {f : List (String × Document) → Checked (β → γ)}
    {check : List (String × Document) → Checked β} (hf : Selects names f)
    (h : Selects more check) :
    Selects (names ++ more) fun fields => Checked.apply (f fields) (check fields) := by
  intro fields others hsame
  simp only [hf fields others fun n hn => hsame n (List.mem_append_left _ hn),
    h fields others fun n hn => hsame n (List.mem_append_right _ hn)]

end Fields

end Document

open Document

theorem Term.restores : Restores read document := by
  intro t
  rw [read, document, objectOf, required_of_find rfl (restores_text _),
    required_of_find rfl (restores_real _)]
  rfl

theorem Expression.restores : Restores read document := by
  intro e
  rw [read, document, objectOf, optional_of_find rfl (Term.restores.listOf _),
    optional_of_find rfl (restores_real _)]
  rfl

theorem Declaration.restores : Restores read document := by
  intro d
  rw [read, document, objectOf, required_of_find rfl (restores_text _),
    optional_of_find rfl (restores_bound _), optional_of_find rfl (restores_bound _),
    optional_of_find rfl (restores_truth _)]
  rfl

theorem Constraint.restores : Restores read document := by
  intro c
  rw [read, document, objectOf, required_of_find rfl (restores_text _),
    required_of_find rfl (Expression.restores _),
    required_of_find rfl (restores_word Relation.ofSymbol?_symbol _),
    required_of_find rfl (restores_real _)]
  rfl

theorem Problem.restores : Restores read document := by
  intro p
  rw [read, document, objectOf, optional_of_find rfl (restores_text _),
    required_of_find rfl (restores_word Sense.ofWord?_word _),
    required_of_find rfl (Expression.restores _),
    required_of_find rfl (Declaration.restores.listOf _),
    required_of_find rfl (Constraint.restores.listOf _)]
  rfl

theorem Options.restores : Restores read document := by
  intro o
  rw [read, document, objectOf, optional_of_find rfl (restores_positive _),
    optional_of_find rfl (restores_truth _), optional_of_find rfl (restores_truth _),
    optional_of_find rfl (restores_truth _), optional_of_find rfl (restores_real _)]
  rfl

/-- Whatever document a value was read from, with whatever fields left out or added and in whatever form
its numbers and truth values were given, the document that is written of it has all fields, and reading it
yields the value again. -/
theorem documents_restored :
    Inverse ["name", "lb", "ub", "is_integer"] Declaration.read Declaration.document ∧
      Inverse ["var", "coef"] Term.read Term.document ∧
      Inverse ["terms", "constant"] Expression.read Expression.document ∧
      Inverse ["name", "lhs", "cmp", "rhs"] Constraint.read Constraint.document ∧
      Inverse ["name", "sense", "objective", "variables", "constraints"] Problem.read
        Problem.document ∧
      Inverse ["max_sweeps", "normalize", "stop_on_stall", "impose_integral", "tol"] Options.read
        Options.document := by
  refine ⟨?_, ?_, ?_, ?_, ?_, ?_⟩
  · exact ⟨fun _ => ⟨_, rfl, rfl⟩, (((selects_required.map _).apply selects_optional).apply
      selects_optional).apply selects_optional, Declaration.restores, Declaration.restores.settles⟩
  · exact ⟨fun _ => ⟨_, rfl, rfl⟩, (selects_required.map _).apply selects_required,
      Term.restores, Term.restores.settles⟩
  · exact ⟨fun _ => ⟨_, rfl, rfl⟩, (selects_optional.map _).apply selects_optional,
      Expression.restores, Expression.restores.settles⟩
  · exact ⟨fun _ => ⟨_, rfl, rfl⟩, (((selects_required.map _).apply selects_required).apply
      selects_required).apply selects_required, Constraint.restores, Constraint.restores.settles⟩
  · exact ⟨fun _ => ⟨_, rfl, rfl⟩, ((((selects_optional.map _).apply selects_required).apply
      selects_required).apply selects_required).apply selects_required, Problem.restores,
      Problem.restores.settles⟩
  · exact ⟨fun _ => ⟨_, rfl, rfl⟩, ((((selects_optional.map _).apply selects_optional).apply
      selects_optional).apply selects_optional).apply selects_optional, Options.restores,
      Options.restores.settles⟩

example : (Options.read (.object [("max_sweeps", .text "12"), ("normalize", .text "off"),
      ("other", .nothing), ("tol", .integer 1)])).map Options.document =
    .ok (.object [("max_sweeps", .integer 12), ("normalize", .boolean false),
      ("stop_on_stall", .boolean true), ("impose_integral", .boolean false),
      ("tol", .real 1)]) := by
  rfl

end MilpRounding
