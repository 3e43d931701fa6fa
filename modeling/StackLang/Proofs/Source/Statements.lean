import StackLang.Proofs.Source.Moves

/-!
# Statements keep programs typed

Every statement makes of a sound program a sound one: its expressions are built, checked and then
taken up by the statement, `Move.sound`. So the statements of a whole text do, and an accepted
program is typed, `wellTyped_of_parse`.
-/

namespace StackLang.Source

namespace Program

variable {p : Program} {pending : List ExprId}

/-- A new symbol hides nothing. -/
theorem Sound.declare (h : p.Sound pending) (symbol : Symbol) :
    Sound { p with symbols := p.symbols.push symbol } pending := by
  have extended : p.symbols.toList <+: (p.symbols.push symbol).toList := by simp
  refine h.learn rfl rfl rfl rfl (.of_isPrefix List.prefix_rfl extended) ?_
  exact struct?_of_isPrefix extended

/-- A new function hides no other one. -/
theorem Sound.addFunction (h : p.Sound pending) (f : Function) :
    Sound { p with functions := p.functions.push f, symbols := p.symbols.push (.function f) }
      pending := by
  have functions : p.functions.toList <+: (p.functions.push f).toList := by simp
  have symbols : p.symbols.toList <+: (p.symbols.push (.function f)).toList := by simp
  refine h.learn rfl rfl rfl rfl (.of_isPrefix functions symbols) ?_
  exact struct?_of_isPrefix symbols

end Program

/-! ## Along a parse -/

/-- A statement takes up the expressions that it builds and leaves the other pending ones alone. -/
theorem ParseState.Move.sound {s t : ParseState} (h : s.Move t) {ids : List ExprId}
    (sound : s.program.Sound ids) : t.program.Sound ids := by
  cases h with
  | plain read plain undeclared typed => exact (read.sound sound).emit _ typed _
  | library read => exact (read.sound sound).emitLibrary _
  | globalVariable read =>
    obtain ⟨offered, typed⟩ := read.sound sound
    exact (offered.emitGlobal typed _).declare _
  | localVariable read =>
    obtain ⟨offered, typed⟩ := read.sound sound
    exact (offered.emit _ typed _).declare _
  | struct head read =>
    have before := head.sound sound
    exact before.addStruct read.grows (read.sound (before.declare _)).built
  | branch read => exact Program.Sound.emit (.ifThen _) (read.sound sound) trivial _
  | loop read => exact Program.Sound.emit (.whileThen _) (read.sound sound) trivial _
  | opening read => exact Program.Sound.emit (.opening _) (read.sound sound) trivial _
  | otherwise read => exact Program.Sound.emit (.otherwise _ _) (read.sound sound) trivial _
  | closing read => exact Program.Sound.emit (.closing _) (read.sound sound) trivial _
  | function read =>
    exact Program.Sound.emit (.function _) ((read.sound sound).addFunction _) trivial _

theorem Parse.Follows.sound {s t : ParseState} (h : Parse.Follows s t)
    (sound : s.program.Sound []) : t.program.Sound [] :=
  h.keeps (P := fun s => s.program.Sound []) sound fun move before => move.sound before

/-! ## Accepted programs -/

/-- The types of a program are the ones that were checked: expressions are there where they are
used, the operands of operators meet, the arguments of calls fit, and what variables start with has
the types that are declared. -/
structure Program.WellTyped (p : Program) : Prop where
  present : ∀ id ∈ p.used, id < p.exprs.size
  expressions : ∀ id < p.exprs.size, p.Checked (p.expr id).kind
  statements : ∀ s ∈ p.statements.toList, s.item.Typed p
  globals : ∀ d ∈ p.globals.toList, d.item.Typed p

theorem Program.Sound.wellTyped {p : Program} {pending : List ExprId} (h : p.Sound pending) :
    p.WellTyped where
  present _ mem := h.built.lt_of_mem_used (List.mem_append_right _ mem)
  expressions := h.built.checked
  statements := h.stated.statements
  globals := h.stated.globals

theorem Program.sound_empty : Program.empty.Sound [] where
  built := by
    refine ⟨?_, ?_, ?_, ?_⟩
    · simp [placed, empty]
    · simp [empty, Arena.empty, Arena.size]
    · simp [used, inner, placed, empty, Arena.empty, Arena.size]
    · simp [empty, Arena.empty, Arena.size]
  stated := ⟨by simp [empty], by simp [empty]⟩

/-- **An accepted program is typed.** Every operator and call has the types that it was checked
for, and every declaration the types that it declares, after all types have been given. -/
theorem wellTyped_of_parse {tokens : List Token} {p : Program} (h : parse tokens = .ok p) :
    p.WellTyped := by
  obtain ⟨s, follows, rfl⟩ := Parse.follows_of_parse h
  exact (follows.sound Program.sound_empty).wellTyped

/-- A structure, a record for it whose values take the types of its fields, a function and a call
of it with an argument that meets its parameter. -/
def typedTokens : List Token :=
  let kinds : List TokenKind := [
    .keyword .structWord, .ident "pair", .mark .openCurly,
    .ident "x", .mark .colon, .type .u8, .mark .comma,
    .ident "y", .mark .colon, .type .char, .mark .comma, .mark .closeCurly,
    .ident "o", .mark .colon, .ident "pair", .mark .assign, .mark .openCurly,
    .integer 1, .mark .plus, .integer 2, .mark .comma, .char 97, .mark .closeCurly,
    .ident "twice", .mark .openParen, .ident "n", .mark .colon, .type .int, .mark .closeParen,
    .mark .colon, .type .int,
    .keyword .returnWord, .integer 2, .mark .times, .ident "n", .keyword .endWord,
    .ident "twice", .mark .openParen, .integer 3, .mark .closeParen]
  kinds.map fun kind => ⟨kind, default⟩

theorem wellTyped_of_parse_record :
    ∃ p, parse typedTokens = .ok p ∧ (p.expr 2).type = .u8 ∧ p.WellTyped := by
  have accepted : (parse typedTokens).map (fun p => (p.expr 2).type) = .ok .u8 := by
    decide +kernel
  cases parsed : parse typedTokens with
  | error d =>
    rw [parsed] at accepted
    cases accepted
  | ok p =>
    rw [parsed] at accepted
    exact ⟨p, rfl, Except.ok.inj accepted, wellTyped_of_parse parsed⟩

end StackLang.Source
