import StackLang.Proofs.Source.Declarations

/-!
# What a statement does to a parse

A statement reads its parts and then does one thing: it adds itself to the program, declares
something, or opens, continues or closes a block. `ParseState.Move` lists these cases, each with the
steps in which its parts are built, and `move_of_statement` says that there are no others; facts
about blocks, labels, declarations and expressions need no other look at the statements. The states
between the statements of a parse are the ones that `Parse.Follows` from its start.
-/

namespace StackLang.Source

/-- Whether a statement neither opens nor continues nor closes a block. -/
def Statement.isPlain : Statement → Bool
  | .ifThen _ | .whileThen _ | .function _ | .opening _ | .otherwise _ _ | .closing _ => false
  | _ => true

/-- The variable that a statement declares. -/
def Statement.declared? : Statement → Option Variable
  | .declare d => some d.target
  | _ => none

/-- The statements without their locations. -/
def Program.items (p : Program) : List Statement := p.statements.toList.map Located.item

/-- What a statement in the function `owner` assigns to is declared. A variable that takes a value
as a whole is not constant, and neither is a field. -/
def Statement.Assigns (p : Program) (owner : Option String) : Statement → Prop
  | .assign name _ => ∃ v, p.resolve? owner name = some v ∧ v.isConst = false
  | .assignElement array _ _ => ∃ v, p.resolve? owner array = some v
  | .assignField struct field _ => ∃ v s f, p.resolve? owner struct = some v ∧
      p.struct? (v.struct.getD v.name) = some s ∧ s.field? field = some f ∧ f.isConst = false
  | _ => True

namespace ParseState

/-- The parse with one more block. -/
def enter (s : ParseState) (block : Block) : ParseState := { s with blocks := block :: s.blocks }

/-- The parse with one more statement. -/
def emit (s : ParseState) (loc : Location) (statement : Statement) : ParseState :=
  { s with program :=
    { s.program with statements := s.program.statements.push ⟨statement, loc⟩ } }

@[simp] theorem items_emit (s : ParseState) (loc : Location) (st : Statement) :
    (s.emit loc st).program.items = s.program.items ++ [st] := by
  simp [emit, Program.items]

/-- The parse with one more symbol. -/
def declare (s : ParseState) (symbol : Symbol) : ParseState :=
  { s with program := { s.program with symbols := s.program.symbols.push symbol } }

/-- What a statement makes of the parse `s` in front of it. -/
inductive Move (s : ParseState) : ParseState → Prop where
  | plain {t : ParseState} {loc : Location} {st : Statement} (read : s.Builds [] t st.exprs)
      (plain : st.isPlain) (undeclared : st.declared? = none) (typed : st.Typed t.program)
      (assigns : st.Assigns s.program s.function?) : Move s (t.emit loc st)
  | library {t : ParseState} {value : Located ExprId} (read : s.Builds [] t [value.item]) :
      Move s { t with program :=
        { t.program with libraries := t.program.libraries.push value } }
  | globalVariable {t : ParseState} {d : Declaration} {loc : Location}
      (read : Parse.Declares s t d) (outside : s.function? = none) :
      Move s (ParseState.declare
        { t with program := { t.program with globals := t.program.globals.push ⟨d, loc⟩ } }
        (.variable d.target))
  | localVariable {t : ParseState} {d : Declaration} {loc : Location}
      (read : Parse.Declares s t d) (inside : s.function? ≠ none) :
      Move s ((t.emit loc (.declare d)).declare (.variable d.target))
  | struct {t u : ParseState} {st : StructType} {loc : Location} (head : s.Builds [] t [])
      (read : (t.declare (.struct { name := st.name, fields := [] })).Builds [] u []) :
      Move s { u with program :=
        { u.program with
          symbols := u.program.symbols.setIfInBounds t.program.symbols.size (.struct st)
          structs := u.program.structs.push ⟨st, loc⟩ } }
  | branch {t : ParseState} {condition : ExprId} {loc : Location}
      (read : (s.enter .branch).Builds [] t [condition]) : Move s (t.emit loc (.ifThen condition))
  | loop {t : ParseState} {condition : ExprId} {loc : Location}
      (read : (s.enter .loop).Builds [] t [condition]) : Move s (t.emit loc (.whileThen condition))
  | opening {t : ParseState} {loc : Location} (read : s.Builds [] t []) :
      Move s (ParseState.emit
        { t with labels := s.nextLabel :: s.labels, nextLabel := s.nextLabel + 1 } loc
        (.opening s.nextLabel))
  | otherwise {t : ParseState} {loc : Location} {outer : List Block} {closed : Nat}
      {labels : List Nat} (read : s.Builds [] t []) (block : s.blocks = .branch :: outer)
      (label : s.labels = closed :: labels) :
      Move s (ParseState.emit
        { t with
          blocks := .otherwise :: outer
          labels := s.nextLabel :: labels
          nextLabel := s.nextLabel + 1 } loc
        (.otherwise closed s.nextLabel))
  | closing {t : ParseState} {loc : Location} {block : Block} {outer : List Block} {closed : Nat}
      {labels : List Nat} (read : s.Builds [] t []) (block : s.blocks = block :: outer)
      (label : s.labels = closed :: labels) :
      Move s (ParseState.emit { t with blocks := outer, labels } loc (.closing closed))
  | function {t : ParseState} {f : Function} {loc : Location}
      (read : (s.enter (.function f.name)).Builds [] t []) (label : f.label = s.nextLabel)
      (owned : ∀ v ∈ f.params, v.owner = some f.name) :
      Move s (ParseState.emit
        { t with
          labels := s.nextLabel :: s.labels
          nextLabel := s.nextLabel + 1
          program := { t.program with
            functions := t.program.functions.push f
            symbols := t.program.symbols.push (.function f) } } loc
        (.function f))

variable {s t : ParseState}

theorem Advances.items (h : s.Advances t) : t.program.items = s.program.items := by
  rw [Program.items, h.statements, Program.items]

end ParseState

namespace Parse

open ParseState

variable {s t : ParseState}

theorem run_currentFunction (s : ParseState) :
    currentFunction.run s = .ok (s.function?, s) := rfl

/-! ## Assignments, calls and expressions -/

theorem keeps_checkAssigned (type : DataType) (value : ExprId) :
    Keeps (checkAssigned type value) := by
  refine keeps_bind (keeps_expr value) fun e => ?_
  split
  · exact keeps_pure _
  · exact keeps_fail _ _

theorem move_assignment {name : String} {loc : Location} {limit : Nat} {u : ParseState}
    (read : s.Builds [] t []) (h : (assignment name loc limit).run t = .ok ((), u)) : s.Move u := by
  obtain ⟨v, t1, named, outer⟩ := run_bind_eq_ok_iff.1 h
  obtain ⟨rfl, found⟩ := run_variableNamed named
  clear h named
  split at outer
  · cases outer
  rename_i free
  obtain ⟨value, t2, parsed, outer⟩ := run_bind_eq_ok_iff.1 outer
  obtain ⟨_, t3, checked, last⟩ := run_bind_eq_ok_iff.1 outer
  cases last
  rw [read.reads.resolve?, read.reads.function?] at found
  have parts := (builds_expression limit parsed).trans
    ((keeps_checkAssigned v.type value).builds [value] checked)
  exact .plain (read.trans parts) rfl rfl trivial
    ⟨v, found, eq_false_of_ne_true free⟩

theorem move_fieldAssignment {name : String} {loc : Location} {limit : Nat} {u : ParseState}
    (read : s.Builds [] t []) (h : (fieldAssignment name loc limit).run t = .ok ((), u)) :
    s.Move u := by
  obtain ⟨⟨field, fieldLoc⟩, t1, taken, outer⟩ := run_bind_eq_ok_iff.1 h
  obtain ⟨_, t2, marked, outer⟩ := run_bind_eq_ok_iff.1 outer
  obtain ⟨value, t3, parsed, outer⟩ := run_bind_eq_ok_iff.1 outer
  obtain ⟨v, t4, named, outer⟩ := run_bind_eq_ok_iff.1 outer
  obtain ⟨f, t5, member, last⟩ := run_bind_eq_ok_iff.1 outer
  obtain ⟨rfl, found⟩ := run_variableNamed named
  obtain ⟨rfl, st, known, inside⟩ := run_fieldNamed member
  clear h named member
  split at last
  · cases last
  rename_i free
  obtain ⟨e, t6, got, last⟩ := run_bind_eq_ok_iff.1 last
  obtain ⟨rfl, rfl⟩ := run_expr got
  clear got
  split at last
  · cases last
    have parts := (keeps_ident.builds [] taken).trans
      (((keeps_expect _).builds [] marked).trans (builds_expression limit parsed))
    have read := read.trans parts
    rw [read.reads.resolve?, read.reads.function?] at found
    rw [read.reads.struct?] at known
    exact .plain read rfl rfl trivial
      ⟨v, st, f, found, known, inside, eq_false_of_ne_true free⟩
  · cases last

theorem move_elementAssignment {name : String} {loc : Location} {limit : Nat} {u : ParseState}
    (read : s.Builds [] t []) (h : (elementAssignment name loc limit).run t = .ok ((), u)) :
    s.Move u := by
  obtain ⟨index, t1, indexed, outer⟩ := run_bind_eq_ok_iff.1 h
  obtain ⟨_, t2, closed, outer⟩ := run_bind_eq_ok_iff.1 outer
  obtain ⟨mark, t3, taken, outer⟩ := run_bind_eq_ok_iff.1 outer
  clear h
  split at outer
  · obtain ⟨v, t4, named, outer⟩ := run_bind_eq_ok_iff.1 outer
    obtain ⟨value, t5, parsed, outer⟩ := run_bind_eq_ok_iff.1 outer
    obtain ⟨_, t6, checked, last⟩ := run_bind_eq_ok_iff.1 outer
    obtain ⟨rfl, found⟩ := run_variableNamed named
    cases last
    have front := (read.trans (builds_expression limit indexed)).trans
      (((keeps_expect _).builds [index] closed).trans (keeps_next.builds [index] taken))
    rw [front.reads.resolve?, front.reads.function?] at found
    have parts := (builds_expression limit parsed).trans
      ((keeps_checkAssigned v.type value).builds [value] checked)
    have built := (front.trans (parts.frame [index])).trans
      (.offer _ (List.Perm.swap value index []).subperm)
    exact .plain built rfl rfl trivial ⟨v, found⟩
  · cases outer
  · cases outer

theorem move_expressionStatement {loc : Location} {limit : Nat} {u : ParseState}
    (h : (expressionStatement loc limit).run s = .ok ((), u)) : s.Move u := by
  obtain ⟨value, t1, parsed, outer⟩ := run_bind_eq_ok_iff.1 h
  obtain ⟨e, t2, got, outer⟩ := run_bind_eq_ok_iff.1 outer
  obtain ⟨rfl, rfl⟩ := run_expr got
  clear h
  have read := builds_expression limit parsed
  split at outer
  · cases outer
    exact .library read
  · cases outer
    exact .plain read rfl rfl trivial trivial

/-! ## Declarations -/

theorem move_variableDeclaration {limit : Nat} {u : ParseState}
    (h : (variableDeclaration limit).run s = .ok ((), u)) : s.Move u := by
  obtain ⟨⟨v, size, loc⟩, t1, signed, outer⟩ := run_bind_eq_ok_iff.1 h
  obtain ⟨_, t2, assigned, outer⟩ := run_bind_eq_ok_iff.1 outer
  obtain ⟨values, t3, started, outer⟩ := run_bind_eq_ok_iff.1 outer
  obtain ⟨owner, t4, current, outer⟩ := run_bind_eq_ok_iff.1 outer
  rw [run_currentFunction] at current
  cases current
  have sized := (builds_signature limit signed).trans ((keeps_expect _).builds _ assigned)
  have starts := starts_of_initialValues started
  have owner : t3.function? = s.function? := (sized.reads.trans starts.reads).function?
  have read : Declares s t3 ⟨{ v with owner := t3.function? }, size, values⟩ :=
    ⟨owner, t2, sized, starts.own _⟩
  dsimp only at outer
  split at outer
  · rename_i isGlobal
    obtain ⟨_, t5, stored, last⟩ := run_bind_eq_ok_iff.1 outer
    cases stored
    cases last
    rw [Variable.isGlobal, owner, Option.isNone_iff_eq_none] at isGlobal
    exact .globalVariable read isGlobal
  · rename_i isLocal
    obtain ⟨_, t5, stored, last⟩ := run_bind_eq_ok_iff.1 outer
    cases stored
    cases last
    rw [Variable.isGlobal, owner, Option.isNone_iff_eq_none] at isLocal
    exact .localVariable read isLocal

theorem move_structDeclaration {limit : Nat} {u : ParseState}
    (h : (structDeclaration limit).run s = .ok ((), u)) : s.Move u := by
  obtain ⟨word, s1, taken, outer⟩ := run_bind_eq_ok_iff.1 h
  obtain ⟨⟨name, loc⟩, s2, named, outer⟩ := run_bind_eq_ok_iff.1 outer
  obtain ⟨p, s3, got, outer⟩ := run_bind_eq_ok_iff.1 outer
  obtain ⟨_, s4, stubbed, outer⟩ := run_bind_eq_ok_iff.1 outer
  obtain ⟨_, s5, opened, outer⟩ := run_bind_eq_ok_iff.1 outer
  obtain ⟨members, s6, listed, last⟩ := run_bind_eq_ok_iff.1 outer
  obtain ⟨rfl, rfl⟩ := run_program got
  cases stubbed
  cases last
  have head := (keeps_next.builds [] taken).trans (keeps_ident.builds [] named)
  have read := ((keeps_expect _).builds [] opened).trans (builds_fields limit listed)
  exact .struct head read

/-- A block may be opened before tokens are taken as well as behind them. -/
theorem move_functionDeclaration {name : String} {loc : Location} {limit : Nat} {u : ParseState}
    {rest : List Token} (sub : rest <:+ s.rest)
    (h : (functionDeclaration name loc limit).run { s with rest } = .ok ((), u)) : s.Move u := by
  obtain ⟨_, t1, entered, outer⟩ := run_bind_eq_ok_iff.1 h
  obtain ⟨params, t2, listed, outer⟩ := run_bind_eq_ok_iff.1 outer
  obtain ⟨_, t3, marked, outer⟩ := run_bind_eq_ok_iff.1 outer
  obtain ⟨type, t4, typed, outer⟩ := run_bind_eq_ok_iff.1 outer
  obtain ⟨label, t5, opened, outer⟩ := run_bind_eq_ok_iff.1 outer
  obtain ⟨_, t6, added, outer⟩ := run_bind_eq_ok_iff.1 outer
  obtain ⟨_, t7, declared, last⟩ := run_bind_eq_ok_iff.1 outer
  cases entered
  cases opened
  cases added
  cases declared
  cases last
  have param : Builds [] (do
      let parts ← signature limit
      return { parts.1 with owner := some name }) fun _ => [] :=
    builds_bind (builds_signature limit) fun _ => builds_pure List.nil_subperm
  have list : Builds [] (parenthesized .closeParen _ limit) fun _ => [] :=
    (builds_parenthesized param .closeParen limit).weaken fun _ => List.nil_subperm
  have passed := ParseState.Builds.take (s := s.enter (.function name)) sub []
  have all := (passed.trans (list listed)).trans
    (((keeps_expect _).builds [] marked).trans (keeps_returnType.builds [] typed))
  have labels := all.reads.labels
  have next := all.reads.nextLabel
  simp only [ParseState.enter] at labels next
  rw [labels, next]
  refine .function (f := ⟨name, params, type, s.nextLabel⟩) all rfl ?_
  refine forall_mem_of_parenthesized (fun _ v _ parsed => ?_) listed
  obtain ⟨_, _, _, last⟩ := run_bind_eq_ok_iff.1 parsed
  cases last
  rfl

theorem move_callOrFunction {name : String} {loc : Location} {limit : Nat} {u : ParseState}
    (h : (callOrFunction name loc limit).run s = .ok ((), u)) : s.Move u := by
  obtain ⟨s0, s1, got, outer⟩ := run_bind_eq_ok_iff.1 h
  cases got
  clear h
  split at outer
  · cases outer
  split at outer
  · exact move_functionDeclaration (List.drop_suffix 1 _) outer
  split at outer
  · exact move_expressionStatement outer
  · obtain ⟨_, s2, skipped, outer⟩ := run_bind_eq_ok_iff.1 outer
    obtain ⟨f, s3, named, outer⟩ := run_bind_eq_ok_iff.1 outer
    obtain ⟨args, s4, parsed, outer⟩ := run_bind_eq_ok_iff.1 outer
    obtain ⟨_, s5, checked, last⟩ := run_bind_eq_ok_iff.1 outer
    obtain ⟨rfl, found⟩ := run_functionNamed named
    obtain ⟨rfl, fits⟩ := checkArgs_spec checked
    cases last
    have parts := builds_arguments (builds_expression limit) limit parsed
    exact .plain (((keeps_skip 1).builds [] skipped).trans parts) rfl rfl
      ⟨f, parts.grows.knows.function found, fits⟩ trivial

theorem move_nameStatement {name : String} {loc : Location} {limit : Nat} {u : ParseState}
    (h : (nameStatement name loc limit).run s = .ok ((), u)) : s.Move u := by
  obtain ⟨s0, s1, got, outer⟩ := run_bind_eq_ok_iff.1 h
  cases got
  clear h
  split at outer
  · exact move_variableDeclaration outer
  · obtain ⟨_, s2, skipped, last⟩ := run_bind_eq_ok_iff.1 outer
    exact move_assignment ((keeps_skip 2).builds [] skipped) last
  · obtain ⟨_, s2, skipped, last⟩ := run_bind_eq_ok_iff.1 outer
    exact move_fieldAssignment ((keeps_skip 2).builds [] skipped) last
  · obtain ⟨_, s2, skipped, last⟩ := run_bind_eq_ok_iff.1 outer
    exact move_elementAssignment ((keeps_skip 2).builds [] skipped) last
  · exact move_callOrFunction outer
  · exact move_expressionStatement outer

/-! ## Keywords -/

theorem move_elseStatement {loc : Location} {u : ParseState} (read : s.Builds [] t [])
    (h : (elseStatement loc).run t = .ok ((), u)) : s.Move u := by
  obtain ⟨t0, t1, got, outer⟩ := run_bind_eq_ok_iff.1 h
  cases got
  clear h
  split at outer
  · rename_i block label
    cases outer
    rw [read.reads.blocks] at block
    rw [read.reads.labels] at label
    exact read.reads.nextLabel ▸ Move.otherwise (t := t) read block label
  · cases outer

theorem move_endStatement {loc : Location} {u : ParseState} (read : s.Builds [] t [])
    (h : (endStatement loc).run t = .ok ((), u)) : s.Move u := by
  obtain ⟨t0, t1, got, outer⟩ := run_bind_eq_ok_iff.1 h
  cases got
  clear h
  split at outer
  · rename_i block label
    cases outer
    rw [read.reads.blocks] at block
    rw [read.reads.labels] at label
    exact .closing read block label
  · cases outer

/-- A keyword in front of an expression. -/
theorem run_value {f : ExprId → Statement} {loc : Location} {limit : Nat}
    (h : (expression limit >>= fun value => emit loc (f value)).run s = .ok ((), t)) :
    ∃ u value, s.Builds [] u [value] ∧ t = u.emit loc (f value) := by
  obtain ⟨value, u, parsed, last⟩ := run_bind_eq_ok_iff.1 h
  cases last
  exact ⟨u, value, builds_expression limit parsed, rfl⟩

theorem move_keywordStatement {k : Keyword} {loc : Location} {limit : Nat} {u : ParseState}
    (h : (keywordStatement k loc limit).run s = .ok ((), u)) : s.Move u := by
  -- The keyword itself is passed over, which changes nothing but the tokens.
  have passed (s : ParseState) : s.Builds [] { s with rest := s.rest.drop 1 } [] :=
    .take (List.drop_suffix 1 _) []
  unfold keywordStatement at h
  split at h
  · obtain ⟨t, value, read, rfl⟩ := run_value (f := .native .write) h
    exact .plain ((passed s).trans read) rfl rfl trivial trivial
  · obtain ⟨t, value, read, rfl⟩ := run_value (f := .native .exit) h
    exact .plain ((passed s).trans read) rfl rfl trivial trivial
  · obtain ⟨t, value, read, rfl⟩ := run_value (f := .giveBack) h
    exact .plain ((passed s).trans read) rfl rfl trivial trivial
  · obtain ⟨t, value, read, rfl⟩ := run_value (f := .ifThen) h
    exact .branch ((passed (s.enter .branch)).trans read)
  · obtain ⟨t, value, read, rfl⟩ := run_value (f := .whileThen) h
    exact .loop ((passed (s.enter .loop)).trans read)
  · cases h
    exact .opening (passed s)
  · exact move_elseStatement (passed s) h
  · exact move_endStatement (passed s) h
  · exact move_structDeclaration h
  · cases h

/-- **The cases of a statement.** -/
theorem move_of_statement {first : Token} {limit : Nat} {u : ParseState}
    (h : (statement first limit).run s = .ok ((), u)) : s.Move u := by
  unfold statement at h
  split at h
  · exact move_keywordStatement h
  · exact move_nameStatement h
  · exact move_expressionStatement h
  · exact move_expressionStatement h
  · exact move_expressionStatement h
  · exact move_expressionStatement h
  · exact move_expressionStatement h
  · cases h
  · cases h

/-! ## Statement after statement -/

/-- The parses that statements make of `s`, one after the other. -/
inductive Follows (s : ParseState) : ParseState → Prop where
  | refl : Follows s s
  | next {t u : ParseState} {first : Token} {limit : Nat} (before : Follows s t)
      (head : t.rest.head? = some first) (run : (statement first limit).run t = .ok ((), u)) :
      Follows s u

/-- What every statement keeps holds between all statements. -/
theorem Follows.keeps {P : ParseState → Prop} (h : Follows s t) (start : P s)
    (step : ∀ {t u : ParseState}, t.Move u → P t → P u) : P t := by
  induction h with
  | refl => exact start
  | next _ _ run ih => exact step (move_of_statement run) ih

/-- What holds behind some statements but not in front of them came about by one of them. -/
theorem Follows.exists_step {P : ParseState → Prop} (h : Follows s t) (start : ¬ P s) (done : P t) :
    ∃ a b, Follows s a ∧
      (∃ head limit, a.rest.head? = some head ∧ (statement head limit).run a = .ok ((), b)) ∧
      ¬ P a ∧ P b ∧ Follows b t := by
  induction h with
  | refl => exact absurd done start
  | @next t u head limit before read run ih =>
    by_cases earlier : P t
    · obtain ⟨a, b, first, step, new, held, after⟩ := ih earlier
      exact ⟨a, b, first, step, new, held, after.next read run⟩
    · exact ⟨t, u, before, ⟨head, limit, read, run⟩, earlier, done, .refl⟩

theorem Follows.statements {limit : Nat} {u : ParseState} (before : Follows s t)
    (h : (statements limit).run t = .ok ((), u)) : Follows s u := by
  induction limit generalizing t with
  | zero =>
    cases h
    exact before
  | succ limit ih =>
    obtain ⟨t0, t1, got, outer⟩ := run_bind_eq_ok_iff.1 h
    cases got
    clear h
    split at outer
    · cases outer
      exact before
    · rename_i first rest tokens
      obtain ⟨_, t2, stated, more⟩ := run_bind_eq_ok_iff.1 outer
      exact ih (before.next (by rw [tokens]; rfl) stated) more

/-- An accepted program is the one behind the last statement. -/
theorem follows_of_parse {tokens : List Token} {p : Program} (h : parse tokens = .ok p) :
    ∃ s, Follows (start tokens) s ∧ s.program = p := by
  obtain ⟨⟨_, s⟩, run, last⟩ := bind_eq_ok_iff.1 h
  cases last
  exact ⟨s, Follows.refl.statements run, rfl⟩

end Parse

end StackLang.Source
