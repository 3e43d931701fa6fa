import StackLang.Proofs.Source.Moves

/-!
# What assignments assign to

A statement of an accepted program was made by one step of its parse, and what it assigns to is
what its name means in front of that step. A variable that is given a value is not constant there,
and neither is a field. The variable whose element or field is given a value may be constant.
-/

namespace StackLang.Source

open ParseState

/-- In a parse from `first` to `last`, the step from `s` to `t` makes the statement number `k`. -/
structure Parse.Makes (first last : ParseState) (k : Nat) (st : Located Statement)
    (s t : ParseState) : Prop where
  before : Follows first s
  step : ∃ head limit, s.rest.head? = some head ∧ (statement head limit).run s = .ok ((), t)
  index : s.program.statements.size = k
  made : t.program.statements = s.program.statements.push st
  after : Follows t last

variable {s t : ParseState}

/-- A statement adds itself to the program or nothing. -/
theorem ParseState.Move.statements (h : s.Move t) :
    t.program.statements = s.program.statements ∨
    ∃ st : Located Statement, t.program.statements = s.program.statements.push st ∧
      st.item.Assigns s.program s.function? := by
  cases h with
  | @plain t loc st read plain undeclared typed assigns =>
    exact .inr ⟨⟨st, loc⟩, congrArg (Array.push · _) read.reads.statements, assigns⟩
  | library read => exact .inl read.reads.statements
  | globalVariable read => exact .inl read.reads.statements
  | struct head read => exact .inl (read.reads.statements.trans head.reads.statements)
  | localVariable read => exact .inr ⟨_, congrArg (Array.push · _) read.reads.statements, trivial⟩
  | branch read => exact .inr ⟨_, congrArg (Array.push · _) read.reads.statements, trivial⟩
  | loop read => exact .inr ⟨_, congrArg (Array.push · _) read.reads.statements, trivial⟩
  | opening read => exact .inr ⟨_, congrArg (Array.push · _) read.reads.statements, trivial⟩
  | otherwise read => exact .inr ⟨_, congrArg (Array.push · _) read.reads.statements, trivial⟩
  | closing read => exact .inr ⟨_, congrArg (Array.push · _) read.reads.statements, trivial⟩
  | function read => exact .inr ⟨_, congrArg (Array.push · _) read.reads.statements, trivial⟩

/-- Each statement of a parse is made by one of its steps. -/
theorem Parse.Follows.exists_makes {first last : ParseState} (h : Follows first last)
    (empty : first.program.statements = #[]) {k : Nat} {st : Located Statement}
    (listed : last.program.statements[k]? = some st) :
    ∃ s t, Makes first last k st s t ∧ st.item.Assigns s.program s.function? := by
  have start : first.program.statements[k]? ≠ some st := by simp [empty]
  obtain ⟨s, t, before, ⟨head, limit, read, run⟩, new, listed, after⟩ :=
    h.exists_step (P := fun s => s.program.statements[k]? = some st) start listed
  obtain same | ⟨made, pushed, assigns⟩ := (move_of_statement run).statements
  · exact absurd (same ▸ listed) new
  rw [pushed, Array.getElem?_push] at listed
  split at listed
  · rename_i size
    obtain rfl := Option.some.inj listed
    exact ⟨s, t, ⟨before, ⟨head, limit, read, run⟩, size.symm, pushed, after⟩, assigns⟩
  · exact absurd listed new

/-- **What assignments assign to.** In front of an assignment the name has a declaration. That of
a variable which is given a value as a whole is not constant, and neither is that of a field. -/
theorem assigns_of_parse {tokens : List Token} {p : Program} (h : parse tokens = .ok p) {k : Nat}
    {st : Located Statement} (listed : p.statements[k]? = some st) :
    ∃ last s t, last.program = p ∧ Parse.Makes (Parse.start tokens) last k st s t ∧
      st.item.Assigns s.program s.function? := by
  obtain ⟨last, follows, rfl⟩ := Parse.follows_of_parse h
  obtain ⟨s, t, makes, assigns⟩ := follows.exists_makes rfl listed
  exact ⟨last, s, t, rfl, makes, assigns⟩

/-- `v: int = 1`, `v = 2`. -/
def assignTokens : List Token :=
  let kinds : List TokenKind := [
    .ident "v", .mark .colon, .type .int, .mark .assign, .integer 1,
    .ident "v", .mark .assign, .integer 2]
  kinds.map fun kind => ⟨kind, default⟩

theorem assigns_of_parse_variable :
    ∃ p, parse assignTokens = .ok p ∧ p.statements[0]? = some ⟨.assign "v" 1, default⟩ ∧
      ∃ last s t, last.program = p ∧
        Parse.Makes (Parse.start assignTokens) last 0 ⟨.assign "v" 1, default⟩ s t ∧
        ∃ v, s.program.resolve? s.function? "v" = some v ∧ v.isConst = false := by
  have accepted : (parse assignTokens).map Program.statements =
      .ok #[⟨.assign "v" 1, default⟩] := by
    decide +kernel
  obtain ⟨p, parsed, statements⟩ := map_eq_ok_iff.1 accepted
  have listed : p.statements[0]? = some ⟨.assign "v" 1, default⟩ := by rw [statements]; rfl
  exact ⟨p, parsed, listed, assigns_of_parse parsed listed⟩

/-- `a: const int[1] = [1]`, `a[0] = 2`, `struct S { x: int, }`, `o: const S = { 1 }`, `o.x = 2`. -/
def constantTokens : List Token :=
  let kinds : List TokenKind := [
    .ident "a", .mark .colon, .keyword .constWord, .type .int, .mark .openBracket, .integer 1,
    .mark .closeBracket, .mark .assign, .mark .openBracket, .integer 1, .mark .closeBracket,
    .ident "a", .mark .openBracket, .integer 0, .mark .closeBracket, .mark .assign, .integer 2,
    .keyword .structWord, .ident "S", .mark .openCurly, .ident "x", .mark .colon, .type .int,
    .mark .comma, .mark .closeCurly,
    .ident "o", .mark .colon, .keyword .constWord, .ident "S", .mark .assign, .mark .openCurly,
    .integer 1, .mark .closeCurly,
    .ident "o", .mark .dot, .ident "x", .mark .assign, .integer 2]
  kinds.map fun kind => ⟨kind, default⟩

/-- An element of a constant array and a field of a constant record are given values. -/
theorem parse_modifies_constants :
    ∃ p v w, parse constantTokens = .ok p ∧
      p.items = [.assignElement "a" 2 3, .assignField "o" "x" 6] ∧
      p.resolve? none "a" = some v ∧ v.isConst ∧ p.resolve? none "o" = some w ∧ w.isConst := by
  have accepted : (parse constantTokens).map (fun p => (p.items,
      p.resolve? none "a", p.resolve? none "o")) = .ok (
      [.assignElement "a" 2 3, .assignField "o" "x" 6],
      some { name := "a", type := .int, isConst := true, isArray := true },
      some { name := "o", type := .ptr, isConst := true, struct := some "S" }) := by
    decide +kernel
  obtain ⟨p, parsed, seen⟩ := map_eq_ok_iff.1 accepted
  simp only [Prod.mk.injEq] at seen
  obtain ⟨items, array, record⟩ := seen
  exact ⟨p, _, _, parsed, items, array, rfl, record, rfl⟩

end StackLang.Source
