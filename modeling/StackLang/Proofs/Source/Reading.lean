import StackLang.Proofs.Source.Growth
import StackLang.Source.Parse.State

/-!
# What the parts of a statement leave alone

The parts of a statement, its expressions and signatures among them, take tokens from the front,
make and retype expressions and declare foreign functions. `ParseState.Advances` says that nothing
else changes: blocks, labels, statements and all declarations of other kinds stay as they are. So
whatever a statement does to them it does outside of its parts. Names mean the same all along, and
`ParseState.Reads` adds that a new expression names a variable only if the name has a meaning, and a
field of it only if the field has been looked up.
-/

namespace StackLang.Source

namespace ParseState

/-- The function whose body the parse is in, of nested ones the innermost. -/
def function? (s : ParseState) : Option String :=
  s.blocks.findSome? fun
    | .function name => some name
    | _ => none

/-- `t` is `s` with fewer tokens, other expressions and more foreign functions. -/
structure Advances (s t : ParseState) : Prop where
  rest : t.rest <:+ s.rest
  finish : t.finish = s.finish
  blocks : t.blocks = s.blocks
  labels : t.labels = s.labels
  nextLabel : t.nextLabel = s.nextLabel
  statements : t.program.statements = s.program.statements
  globals : t.program.globals = s.program.globals
  structs : t.program.structs = s.program.structs
  libraries : t.program.libraries = s.program.libraries
  functions : t.program.functions = s.program.functions
  symbols : ∃ fs : List ForeignFunction,
    t.program.symbols.toList = s.program.symbols.toList ++ fs.map .foreign

namespace Advances

variable {s t u : ParseState}

theorem refl (s : ParseState) : s.Advances s where
  rest := List.suffix_rfl
  finish := rfl
  blocks := rfl
  labels := rfl
  nextLabel := rfl
  statements := rfl
  globals := rfl
  structs := rfl
  libraries := rfl
  functions := rfl
  symbols := ⟨[], by simp⟩

theorem trans (h : s.Advances t) (h' : t.Advances u) : s.Advances u where
  rest := h'.rest.trans h.rest
  finish := h'.finish.trans h.finish
  blocks := h'.blocks.trans h.blocks
  labels := h'.labels.trans h.labels
  nextLabel := h'.nextLabel.trans h.nextLabel
  statements := h'.statements.trans h.statements
  globals := h'.globals.trans h.globals
  structs := h'.structs.trans h.structs
  libraries := h'.libraries.trans h.libraries
  functions := h'.functions.trans h.functions
  symbols := by
    obtain ⟨fs, first⟩ := h.symbols
    obtain ⟨gs, second⟩ := h'.symbols
    exact ⟨fs ++ gs, by simp [second, first]⟩

/-- Tokens are taken. -/
theorem take {rest : List Token} (h : rest <:+ s.rest) : s.Advances { s with rest } :=
  { refl s with rest := h }

/-- Expressions are changed. -/
theorem of_exprs (s : ParseState) (exprs : Arena Expr) :
    s.Advances { s with program := { s.program with exprs } } :=
  ⟨List.suffix_rfl, rfl, rfl, rfl, rfl, rfl, rfl, rfl, rfl, rfl, ⟨[], by simp⟩⟩

/-- The program grows. -/
theorem of_grows {p : Program} (h : s.program.Grows p) : s.Advances { s with program := p } where
  rest := List.suffix_rfl
  finish := rfl
  blocks := rfl
  labels := rfl
  nextLabel := rfl
  statements := h.statements
  globals := h.globals
  structs := h.structs
  libraries := h.libraries
  functions := h.functions
  symbols := by
    obtain ⟨fs, symbols, -⟩ := h.declared
    exact ⟨fs, symbols⟩

theorem function? (h : s.Advances t) : t.function? = s.function? := by
  rw [ParseState.function?, h.blocks, ParseState.function?]

/-- A search for symbols of another kind does not see foreign functions. -/
theorem findSome?_symbols {α : Type} (h : s.Advances t) {f : Symbol → Option α}
    (foreign : ∀ g, f (.foreign g) = none) :
    t.program.symbols.toList.findSome? f = s.program.symbols.toList.findSome? f := by
  obtain ⟨fs, symbols⟩ := h.symbols
  have none : (fs.map Symbol.foreign).findSome? f = none := by
    rw [List.findSome?_map, List.findSome?_eq_none_iff]
    exact fun g _ => foreign g
  rw [symbols, List.findSome?_append, none, Option.or_none]

theorem resolve? (h : s.Advances t) (owner : Option String) (name : String) :
    t.program.resolve? owner name = s.program.resolve? owner name := by
  have own : t.program.ownVariable? owner name = s.program.ownVariable? owner name :=
    h.findSome?_symbols fun _ => rfl
  simp only [Program.resolve?, Program.latestFunction?, own, h.functions]

theorem struct? (h : s.Advances t) (name : String) :
    t.program.struct? name = s.program.struct? name :=
  h.findSome?_symbols fun _ => rfl

end Advances

end ParseState

/-! ## Names in new expressions -/

/-- The name of the variable that an expression reads, or reads a part of. -/
def ExprKind.named? : ExprKind → Option String
  | .variable name | .element name _ | .field name _ | .elementField name _ _ => some name
  | _ => none

/-- The field of a variable in the structure that it points to. A variable that points to none is
looked up as the structure of its own name. -/
def Program.fieldOf? (p : Program) (v : Variable) (field : String) : Option Variable :=
  (p.struct? (v.struct.getD v.name)).bind fun st => st.field? field

/-- If an expression reads a field of the variable `v`, then `v` has the field. The elements of an
array are looked at only if they are structures. -/
def ExprKind.HasField (p : Program) (v : Variable) : ExprKind → Prop
  | .field _ member => ∃ f, p.fieldOf? v member = some f
  | .elementField _ _ member => v.isStruct → ∃ f, p.fieldOf? v member = some f
  | _ => True

theorem ParseState.Advances.hasField_iff {s t : ParseState} (h : s.Advances t) (v : Variable)
    (k : ExprKind) : k.HasField t.program v ↔ k.HasField s.program v := by
  cases k <;> simp only [ExprKind.HasField, Program.fieldOf?, h.struct?]

/-- The variable that an expression names, if it names one, is known in the function `owner`, and so
is the field of it that the expression reads. -/
def ExprKind.Resolves (p : Program) (owner : Option String) (k : ExprKind) : Prop :=
  ∀ name, k.named? = some name → ∃ v, p.resolve? owner name = some v ∧ k.HasField p v

theorem ExprKind.resolves_of_none {k : ExprKind} (h : k.named? = none) (p : Program)
    (owner : Option String) : k.Resolves p owner := by
  intro name names
  rw [h] at names
  cases names

/-- `t` is `s` after parts of a statement have been read. Expressions keep their forms, and a new
one names no variable and no field but one that is known. -/
structure ParseState.Reads (s t : ParseState) : Prop extends s.Advances t where
  size : s.program.exprs.size ≤ t.program.exprs.size
  kind : ∀ id < s.program.exprs.size, (t.program.expr id).kind = (s.program.expr id).kind
  known : ∀ id < t.program.exprs.size, s.program.exprs.size ≤ id →
    (t.program.expr id).kind.Resolves s.program s.function?

namespace ParseState.Reads

variable {s t u : ParseState}

/-- Nothing happens to the expressions. -/
theorem of_exprs_eq (h : s.Advances t) (exprs : t.program.exprs = s.program.exprs) :
    s.Reads t where
  toAdvances := h
  size := Nat.le_of_eq (by rw [exprs])
  kind id _ := by rw [Program.expr, exprs, Program.expr]
  known id lt le := by
    rw [exprs] at lt
    exact absurd lt (Nat.not_lt.2 le)

theorem refl (s : ParseState) : s.Reads s := .of_exprs_eq (.refl s) rfl

theorem trans (h : s.Reads t) (h' : t.Reads u) : s.Reads u where
  toAdvances := h.toAdvances.trans h'.toAdvances
  size := Nat.le_trans h.size h'.size
  kind id lt := (h'.kind id (Nat.lt_of_lt_of_le lt h.size)).trans (h.kind id lt)
  known id lt le := by
    by_cases old : id < t.program.exprs.size
    · rw [h'.kind id old]
      exact h.known id old le
    · intro name names
      obtain ⟨v, found, field⟩ := h'.known id lt (Nat.not_lt.1 old) name names
      rw [h.function?, h.resolve?] at found
      exact ⟨v, found, (h.hasField_iff v _).1 field⟩

/-- Tokens are taken. -/
theorem take {rest : List Token} (h : rest <:+ s.rest) : s.Reads { s with rest } :=
  .of_exprs_eq (.take h) rfl

/-- An expression is made, behind the functions that it declares. -/
theorem push {e : Expr} (known : e.kind.Resolves s.program s.function?) :
    s.Reads { s with program := (s.program.withForeign e.kind.declared).push e } where
  toAdvances := .of_grows (.push _ e)
  size := (Program.Grows.push s.program e).size
  kind id lt := by rw [(Program.Grows.push s.program e).expr id lt]
  known id lt le := by
    rw [Program.size_push] at lt
    obtain rfl : id = s.program.exprs.size := Nat.le_antisymm (Nat.le_of_lt_succ lt) le
    rwa [show s.program.exprs.size = (s.program.withForeign e.kind.declared).exprs.size from rfl,
      Program.expr_push_size]

/-- An expression gets another type. -/
theorem retype (s : ParseState) (id : ExprId) (type : DataType) :
    s.Reads { s with program := s.program.retype id type } where
  toAdvances := .of_exprs s _
  size := Nat.le_of_eq (by rw [Program.size_retype])
  kind j _ := Program.kind_retype _ id j type
  known j lt le := by
    rw [Program.size_retype] at lt
    exact absurd lt (Nat.not_lt.2 le)

end ParseState.Reads

end StackLang.Source
