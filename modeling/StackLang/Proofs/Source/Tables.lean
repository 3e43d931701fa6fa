import StackLang.Proofs.Source.Labels

/-!
# The tables of a program and its symbols

Each declaration is entered twice: as a symbol, and as a function, a structure, a variable or the
expression of a library. The parts of a statement declare foreign functions only, and of these the
symbols and the expressions take the same ones in the same order, `Program.Grows`. A statement
enters the rest, so behind each statement the symbols of one kind are the entries of its table:
`Program.Agrees`, and `agrees_of_parse` for the program of a text.
-/

namespace StackLang.Source

/-! ## Entries -/

/-- The function that a symbol stands for. -/
def Symbol.function? : Symbol → Option Function
  | .function f => some f
  | _ => none

/-- The structure that a symbol stands for. -/
def Symbol.struct? : Symbol → Option StructType
  | .struct s => some s
  | _ => none

/-- The variable that a symbol stands for. -/
def Symbol.variable? : Symbol → Option Variable
  | .variable v => some v
  | _ => none

/-- The foreign function that a symbol stands for. -/
def Symbol.foreign? : Symbol → Option ForeignFunction
  | .foreign f => some f
  | _ => none

section Entries

variable {α β : Type} {x : α}

/-- What has no entry changes no table. -/
theorem filterMap_push_of_none (f : α → Option β) (xs : Array α) (absent : f x = none) :
    (xs.push x).toList.filterMap f = xs.toList.filterMap f := by
  rw [Array.toList_push, List.filterMap_append]
  simp [absent]

/-- A new entry is the last one. -/
theorem filterMap_push_of_some (f : α → Option β) (xs : Array α) {y : β}
    (present : f x = some y) :
    (xs.push x).toList.filterMap f = xs.toList.filterMap f ++ [y] := by
  rw [Array.toList_push, List.filterMap_append]
  simp [present]

end Entries

namespace Program

/-- Each table lists the symbols of its kind, in their order. -/
structure Agrees (p : Program) : Prop where
  functions : p.symbols.toList.filterMap Symbol.function? = p.functions.toList
  bodies : p.items.filterMap Statement.function? = p.functions.toList
  structs : p.symbols.toList.filterMap Symbol.struct? = p.structs.toList.map Located.item
  globals : (p.symbols.toList.filterMap Symbol.variable?).filter Variable.isGlobal =
    p.globals.toList.map (·.item.target)
  locals : (p.symbols.toList.filterMap Symbol.variable?).filter (!Variable.isGlobal ·) =
    p.items.filterMap Statement.declared?
  foreigns : p.symbols.toList.filterMap Symbol.foreign? = p.foreignFunctions

variable {p q : Program}

section Items

variable {α : Type} (f : Statement → Option α) {st : Located Statement}

theorem filterMap_items_of_none (pushed : q.statements = p.statements.push st)
    (absent : f st.item = none) : q.items.filterMap f = p.items.filterMap f := by
  simp only [items, List.filterMap_map, pushed]
  exact filterMap_push_of_none _ _ absent

theorem filterMap_items_of_some {x : α} (pushed : q.statements = p.statements.push st)
    (present : f st.item = some x) : q.items.filterMap f = p.items.filterMap f ++ [x] := by
  simp only [items, List.filterMap_map, pushed]
  exact filterMap_push_of_some _ _ present

end Items

theorem agrees_empty : Program.empty.Agrees := by
  constructor <;> rfl

namespace Agrees

variable {loc : Location}

/-- Parts of a statement enter foreign functions only. -/
theorem grows (h : p.Agrees) (grows : p.Grows q) : q.Agrees := by
  obtain ⟨fs, symbols, listed⟩ := grows.declared
  have items : q.items = p.items := by
    rw [items, grows.statements, items]
  have other {α : Type} {f : Symbol → Option α} (foreign : ∀ g, f (.foreign g) = none) :
      q.symbols.toList.filterMap f = p.symbols.toList.filterMap f := by
    rw [symbols, List.filterMap_append, List.filterMap_map]
    simp [foreign]
  constructor
  · rw [other fun _ => rfl, h.functions, grows.functions]
  · rw [items, h.bodies, grows.functions]
  · rw [other fun _ => rfl, h.structs, grows.structs]
  · rw [other fun _ => rfl, h.globals, grows.globals]
  · rw [other fun _ => rfl, h.locals, items]
  · rw [symbols, List.filterMap_append, h.foreigns, listed, List.filterMap_map]
    simp [Function.comp_def, Symbol.foreign?]

/-- Types are in no table. -/
theorem retype (h : p.Agrees) (id : ExprId) (type : DataType) : (p.retype id type).Agrees :=
  { h with foreigns := h.foreigns.trans (foreignFunctions_retype p id type).symm }

theorem retypeAll (h : p.Agrees) (pairs : List (Variable × ExprId)) : (p.retypeAll pairs).Agrees := by
  induction pairs generalizing p with
  | nil => exact h
  | cons pair pairs ih => exact ih (h.retype _ _)

/-- A statement that declares nothing is in no table. -/
theorem emit (h : p.Agrees) {st : Statement} (function : st.function? = none)
    (declared : st.declared? = none) (loc : Location) :
    Agrees { p with statements := p.statements.push ⟨st, loc⟩ } :=
  { h with
    bodies := (filterMap_items_of_none _ rfl function).trans h.bodies
    locals := h.locals.trans (filterMap_items_of_none _ rfl declared).symm }

theorem declareGlobal (h : p.Agrees) {d : Declaration} (isGlobal : d.target.isGlobal) :
    Agrees { p with
      globals := p.globals.push ⟨d, loc⟩
      symbols := p.symbols.push (.variable d.target) } where
  functions := (filterMap_push_of_none _ _ rfl).trans h.functions
  bodies := h.bodies
  structs := (filterMap_push_of_none _ _ rfl).trans h.structs
  globals := by
    rw [filterMap_push_of_some Symbol.variable? _ rfl, List.filter_append, h.globals]
    simp [isGlobal]
  locals := by
    rw [filterMap_push_of_some Symbol.variable? _ rfl, List.filter_append, h.locals]
    simp [isGlobal, Program.items]
  foreigns := (filterMap_push_of_none _ _ rfl).trans h.foreigns

theorem declareLocal (h : p.Agrees) {d : Declaration} (isLocal : d.target.isGlobal = false) :
    Agrees { p with
      statements := p.statements.push ⟨.declare d, loc⟩
      symbols := p.symbols.push (.variable d.target) } where
  functions := (filterMap_push_of_none _ _ rfl).trans h.functions
  bodies := (filterMap_items_of_none _ rfl rfl).trans h.bodies
  structs := (filterMap_push_of_none _ _ rfl).trans h.structs
  globals := by
    rw [filterMap_push_of_some Symbol.variable? _ rfl, List.filter_append, h.globals]
    simp [isLocal]
  locals := by
    rw [filterMap_push_of_some Symbol.variable? _ rfl, List.filter_append, h.locals]
    refine Eq.trans ?_ (filterMap_items_of_some Statement.declared? rfl rfl).symm
    simp [isLocal]
  foreigns := (filterMap_push_of_none _ _ rfl).trans h.foreigns

theorem declareFunction (h : p.Agrees) {f : Function} :
    Agrees { p with
      statements := p.statements.push ⟨.function f, loc⟩
      functions := p.functions.push f
      symbols := p.symbols.push (.function f) } where
  functions := by
    rw [filterMap_push_of_some Symbol.function? _ rfl, h.functions, Array.toList_push]
  bodies := by
    refine (filterMap_items_of_some Statement.function? rfl rfl).trans ?_
    rw [h.bodies, Array.toList_push]
  structs := (filterMap_push_of_none _ _ rfl).trans h.structs
  globals := by
    rw [filterMap_push_of_none Symbol.variable? _ rfl, h.globals]
  locals := by
    rw [filterMap_push_of_none Symbol.variable? _ rfl, h.locals]
    exact (filterMap_items_of_none _ rfl rfl).symm
  foreigns := (filterMap_push_of_none _ _ rfl).trans h.foreigns

/-- The symbol of a structure is complete when the structure is. -/
theorem declareStruct (h : p.Agrees) {stub st : StructType}
    (read : Program.Grows { p with symbols := p.symbols.push (.struct stub) } q) :
    Agrees { q with
      symbols := q.symbols.setIfInBounds p.symbols.size (.struct st)
      structs := q.structs.push ⟨st, loc⟩ } := by
  have complete : Agrees { p with
      symbols := p.symbols.push (.struct st), structs := p.structs.push ⟨st, loc⟩ } := {
    functions := (filterMap_push_of_none _ _ rfl).trans h.functions
    bodies := h.bodies
    structs := by
      rw [filterMap_push_of_some Symbol.struct? _ rfl, h.structs]
      simp
    globals := by
      rw [filterMap_push_of_none Symbol.variable? _ rfl, h.globals]
    locals := by
      rw [filterMap_push_of_none Symbol.variable? _ rfl, h.locals]
      rfl
    foreigns := (filterMap_push_of_none _ _ rfl).trans h.foreigns }
  -- The fields might as well have been read behind the complete structure.
  obtain ⟨fs, symbols, listed⟩ := read.declared
  refine complete.grows { read with structs := ?_, declared := ⟨fs, ?_, listed⟩ }
  · rw [read.structs]
  · rw [Array.toList_setIfInBounds, symbols]
    simp

end Agrees

end Program

/-! ## Along a parse -/

section Parses

variable {s t : ParseState}

theorem Parse.Starts.agrees {v : Variable} {values : List ExprId} (h : Parse.Starts v s values t)
    (agrees : s.program.Agrees) : t.program.Agrees := by
  cases h with
  | elements _ read => exact agrees.grows read.grows
  | record _ _ read => exact (agrees.grows (builds_expression _ read).grows).retypeAll _
  | pointer _ _ read => exact agrees.grows (builds_expression _ read).grows
  | plain _ _ read => exact (agrees.grows (builds_expression _ read).grows).retype _ _

theorem Parse.Declares.agrees {d : Declaration} (h : Parse.Declares s t d)
    (agrees : s.program.Agrees) : t.program.Agrees := by
  obtain ⟨u, size, starts⟩ := h.read
  exact starts.agrees (agrees.grows size.grows)

/-- A statement enters what it declares into the table of its kind. -/
theorem ParseState.Move.agrees (h : s.Move t) (agrees : s.program.Agrees) : t.program.Agrees := by
  cases h with
  | plain read plain undeclared =>
    exact (agrees.grows read.grows).emit (Statement.function?_of_isPlain plain) undeclared _
  | library read => exact { agrees.grows read.grows with }
  | globalVariable read outside =>
    refine (read.agrees agrees).declareGlobal ?_
    rw [Variable.isGlobal, read.owner, outside]
    rfl
  | localVariable read inside =>
    refine (read.agrees agrees).declareLocal ?_
    rw [Variable.isGlobal, read.owner, Option.isNone_eq_false_iff, Option.isSome_iff_ne_none]
    exact inside
  | struct head read => exact (agrees.grows head.grows).declareStruct read.grows
  | branch read | loop read | opening read | otherwise read | closing read =>
    exact (agrees.grows read.grows).emit rfl rfl _
  | function read => exact (agrees.grows read.grows).declareFunction

end Parses

/-! ## Accepted programs -/

/-- **The tables of an accepted program and its symbols agree.** The symbols of functions are the
functions of the program and its statements that start functions, the symbols of structures are its
structures, the symbols of variables are the ones that it declares outside of functions and inside
of them, and the symbols of foreign functions are those of the libraries among its expressions, each
in order. -/
theorem agrees_of_parse {tokens : List Token} {p : Program} (h : parse tokens = .ok p) :
    p.Agrees := by
  obtain ⟨s, follows, rfl⟩ := Parse.follows_of_parse h
  exact follows.keeps (P := fun s => s.program.Agrees) Program.agrees_empty
    ParseState.Move.agrees

/-- A structure whose field has a library for its size, a global variable, and a function with a
variable of its own. -/
def enteredTokens : List Token :=
  let library (file name : String) : List TokenKind := [
    .builtin .dll, .string file, .mark .comma, .ident name, .mark .openParen, .mark .closeParen,
    .mark .colon, .type .int, .mark .comma, .keyword .endWord]
  let kinds : List TokenKind := [
    .keyword .structWord, .ident "pair", .mark .openCurly,
    .ident "x", .mark .colon, .type .u8, .mark .openBracket] ++ library "a" "open" ++ [
    .mark .closeBracket, .mark .comma, .mark .closeCurly,
    .ident "n", .mark .colon, .type .int, .mark .assign, .integer 1,
    .ident "f", .mark .openParen, .mark .closeParen, .mark .colon, .type .int,
    .ident "k", .mark .colon, .type .int, .mark .assign, .integer 2, .keyword .endWord] ++
    library "b" "close"
  kinds.map fun kind => ⟨kind, default⟩

theorem agrees_of_parse_entered :
    ∃ p, parse enteredTokens = .ok p ∧ p.symbols.size = 6 ∧
      p.foreignFunctions.map ForeignFunction.name = ["open", "close"] ∧ p.Agrees := by
  have accepted : (parse enteredTokens).map (fun p =>
      (p.symbols.size, p.foreignFunctions.map ForeignFunction.name)) =
        .ok (6, ["open", "close"]) := by
    decide +kernel
  obtain ⟨p, parsed, seen⟩ := map_eq_ok_iff.1 accepted
  simp only [Prod.mk.injEq] at seen
  exact ⟨p, parsed, seen.1, seen.2, agrees_of_parse parsed⟩

end StackLang.Source
