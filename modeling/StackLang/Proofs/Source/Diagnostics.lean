import StackLang.Proofs.Source.Pointing

/-!
# The errors of statements

Declarations and assignments check what they have read against the name in front of it, and blocks
are closed by the word that is taken. So what a statement blames is its first token or one behind
it, and an error of a text points at one of the tokens: `pointsInto_of_parse`.
-/

namespace StackLang.Source

namespace Parse

variable {α : Type} {tokens : List Token} {n m : Nat} {loc : Location}

/-! ## Signatures and first values -/

theorem blames_signatureType (v : Variable) :
    Blames tokens n (signatureType v) fun _ _ => True := by
  refine blames_bind blames_next fun t _ _ mem => ?_
  split
  · exact blames_pure fun _ _ => trivial
  · rename_i name kind
    refine blames_program.bind fun p => ?_
    split
    · exact blames_pure fun _ _ => trivial
    · refine blames_fail (.of_mem mem ?_)
      show ⟨.ident name, t.loc⟩ ∈ tokens
      rwa [← kind]
  · exact blames_expectedType mem

theorem blames_signatureSize (limit : Nat) :
    Blames tokens n (signatureSize limit) fun _ _ => True := by
  refine (blames_nextIs _).bind fun bracket => ?_
  split
  · refine (blames_skip 1).bind fun _ => (blames_expression limit n).bind fun size => ?_
    exact (blames_expect _).bind fun _ => blames_pure fun _ _ => trivial
  · exact blames_pure fun _ _ => trivial

/-- A signature is where its name is. -/
theorem blames_signature (limit : Nat) :
    Blames tokens n (signature limit) fun parts _ => parts.2.2.In tokens := by
  refine blames_bind blames_ident fun name _ _ mem => (blames_expect _).bind fun _ => ?_
  refine (blames_nextIs _).bind fun isConst => ?_
  have rest (m : Nat) (v : Variable) : Blames tokens m (do
      let v ← signatureType v
      let size ← signatureSize limit
      return (({ v with isArray := size.isSome || v.type == .str } : Variable), size, name.2))
      fun parts _ => parts.2.2.In tokens := by
    refine (blames_signatureType v).bind fun v => (blames_signatureSize limit).bind fun size => ?_
    exact blames_pure fun _ _ => ⟨_, mem⟩
  dsimp only
  split
  · exact (blames_skip 1).bind fun _ => rest _ _
  · exact rest _ _

theorem blames_checkValue {value : ExprId} (v : Variable) (place : loc.In tokens)
    (lt : value < n) : Blames tokens n (checkValue v value loc) fun _ _ => True := by
  refine (blames_expr lt).bind fun e => ?_
  split
  · exact blames_pure fun _ _ => trivial
  · exact blames_fail ⟨place, trivial⟩

theorem blames_element (v : Variable) (limit : Nat) :
    BlamesExpr tokens (element v limit) := by
  intro n
  refine blames_bind (blames_expression limit n) fun value m _ lt => ?_
  refine blames_bind (blames_expr lt) fun e k le there => ?_
  refine (blames_checkValue v there (Nat.lt_of_lt_of_le lt le)).bind fun _ => ?_
  exact blames_pure fun _ more => Nat.lt_of_lt_of_le lt (Nat.le_trans le more)

/-- The variable is to blame for what does not fit its fields. -/
theorem blames_retypeFields {pairs : List (Variable × ExprId)} (place : loc.In tokens) :
    Blames tokens n (retypeFields loc pairs) fun _ _ => True := by
  refine blames_forM fun pair _ => ?_
  have read : Blames tokens n (expr pair.2) fun _ _ => True :=
    blames_program.bind fun _ => blames_pure fun _ _ => trivial
  refine read.bind fun e => ?_
  split
  · exact blames_retype _ _
  · exact blames_fail ⟨place, trivial⟩

theorem blames_structValue (v : Variable) (place : loc.In tokens) (limit : Nat) :
    Blames tokens n (structValue v loc limit) fun _ _ => True := by
  refine blames_bind (blames_expression limit n) fun value m _ lt => ?_
  refine (blames_expr lt).bind fun e => ?_
  split
  · exact blames_fail ⟨place, trivial⟩
  split
  · refine (blames_structNamed _ place).bind fun st => ?_
    split
    · exact blames_fail ⟨place, trivial⟩
    · exact (blames_retypeFields place).bind fun _ => blames_pure fun _ _ => trivial
  · exact blames_pure fun _ _ => trivial

theorem blames_plainValue (v : Variable) (place : loc.In tokens) (limit : Nat) :
    Blames tokens n (plainValue v loc limit) fun _ _ => True := by
  refine blames_bind (blames_expression limit n) fun value m _ lt => ?_
  refine (blames_checkValue v place lt).bind fun _ => ?_
  exact (blames_retype value v.type).bind fun _ => blames_pure fun _ _ => trivial

theorem blames_initialValues (v : Variable) (place : loc.In tokens) (limit : Nat) :
    Blames tokens n (initialValues v loc limit) fun _ _ => True := by
  unfold initialValues
  split
  · refine (blames_expect _).bind fun _ => ?_
    exact (blames_exprs (blames_element v limit) _ _ limit).imp fun _ _ _ _ => trivial
  split
  · exact (blames_structValue v place limit).bind fun _ => blames_pure fun _ _ => trivial
  · exact (blames_plainValue v place limit).bind fun _ => blames_pure fun _ _ => trivial

/-! ## Declarations -/

theorem blames_emit (st : Statement) : Blames tokens n (emit loc st) fun _ _ => True :=
  blames_update fun _ => rfl

theorem blames_variableDeclaration (limit : Nat) :
    Blames tokens n (variableDeclaration limit) fun _ _ => True := by
  refine blames_bind (blames_signature limit) fun parts m _ place => ?_
  refine (blames_expect _).bind fun _ => ?_
  refine (blames_initialValues parts.1 place limit).bind fun values => ?_
  refine blames_currentFunction.bind fun owner => ?_
  dsimp only
  split
  · refine (blames_update ?_).bind fun _ => blames_declare _
    exact fun _ => rfl
  · exact (blames_emit _).bind fun _ => blames_declare _

theorem blames_fields (limit : Nat) : Blames tokens n (fields limit) fun _ _ => True := by
  induction limit with
  | zero => exact blames_outOfTokens
  | succ limit ih =>
    refine (blames_nextIs _).bind fun closed => ?_
    split
    · exact (blames_skip 1).bind fun _ => blames_pure fun _ _ => trivial
    · refine (blames_signature limit).bind fun field => (blames_expect _).bind fun _ => ?_
      exact ih.bind fun more => blames_pure fun _ _ => trivial

theorem blames_structDeclaration (limit : Nat) :
    Blames tokens n (structDeclaration limit) fun _ _ => True := by
  refine blames_next.bind fun t => blames_ident.bind fun name => ?_
  refine blames_program.bind fun p => (blames_declare _).bind fun _ => ?_
  refine (blames_expect _).bind fun _ => (blames_fields limit).bind fun members => ?_
  exact blames_update fun _ => rfl

theorem blames_returnType : Blames tokens n returnType fun _ _ => True := by
  refine blames_bind blames_next fun t _ _ mem => ?_
  split
  · exact blames_pure fun _ _ => trivial
  · rename_i name kind
    refine blames_program.bind fun p => ?_
    split
    · exact blames_pure fun _ _ => trivial
    · refine blames_fail (.of_mem mem ?_)
      show ⟨.ident name, t.loc⟩ ∈ tokens
      rwa [← kind]
  · exact blames_fail (.of_mem mem ⟨t.kind, mem, rfl⟩)

theorem blames_functionDeclaration (name : String) (limit : Nat) :
    Blames tokens n (functionDeclaration name loc limit) fun _ _ => True := by
  have param : Blames tokens n (do
      let parts ← signature limit
      return { parts.1 with owner := some name }) fun _ _ => True :=
    (blames_signature limit).bind fun _ => blames_pure fun _ _ => trivial
  refine (blames_enter _).bind fun _ => ?_
  refine (blames_parenthesized param (fun _ _ _ _ _ => trivial) .closeParen limit).bind ?_
  refine fun params => (blames_expect _).bind fun _ => blames_returnType.bind fun type => ?_
  refine blames_openLabel.bind fun label => (blames_update ?_).bind fun _ => ?_
  · exact fun _ => rfl
  · exact (blames_declare _).bind fun _ => blames_emit _

/-! ## Assignments and calls -/

/-- The value is to blame. -/
theorem blames_checkAssigned {value : ExprId} (type : DataType) (lt : value < n) :
    Blames tokens n (checkAssigned type value) fun _ _ => True := by
  refine blames_bind (blames_expr lt) fun e _ _ there => ?_
  split
  · exact blames_pure fun _ _ => trivial
  · exact blames_fail ⟨there, trivial⟩

section

variable {name : String} (mem : ⟨.ident name, loc⟩ ∈ tokens)

include mem

theorem blames_assignment (limit : Nat) :
    Blames tokens n (assignment name loc limit) fun _ _ => True := by
  refine (blames_variableNamed mem).bind fun v => ?_
  split
  · exact blames_fail (.of_mem mem mem)
  · refine blames_bind (blames_expression limit n) fun value m _ lt => ?_
    exact (blames_checkAssigned v.type lt).bind fun _ => blames_emit _

theorem blames_fieldAssignment (limit : Nat) :
    Blames tokens n (fieldAssignment name loc limit) fun _ _ => True := by
  refine blames_bind blames_ident fun field m _ member => (blames_expect _).bind fun _ => ?_
  refine blames_bind (blames_expression limit m) fun value k _ lt => ?_
  refine (blames_variableNamed mem).bind fun v => (blames_fieldNamed v member).bind fun f => ?_
  split
  · exact blames_fail (.of_mem mem trivial)
  refine (blames_expr lt).bind fun e => ?_
  split
  · exact blames_emit _
  · exact blames_fail (.of_mem mem trivial)

theorem blames_elementAssignment (limit : Nat) :
    Blames tokens n (elementAssignment name loc limit) fun _ _ => True := by
  refine (blames_expression limit n).bind fun index => (blames_expect _).bind fun _ => ?_
  refine blames_bind blames_next fun t m _ taken => ?_
  split
  · refine (blames_variableNamed mem).bind fun v => ?_
    refine blames_bind (blames_expression limit m) fun value k _ lt => ?_
    exact (blames_checkAssigned v.type lt).bind fun _ => blames_emit _
  · rename_i kind
    refine blames_fail (.of_mem taken ?_)
    show ⟨.mark .dot, t.loc⟩ ∈ tokens
    rwa [← kind]
  · exact blames_fail (.of_mem taken ⟨t.kind, taken, rfl⟩)

end

theorem blames_expressionStatement (limit : Nat) :
    Blames tokens n (expressionStatement loc limit) fun _ _ => True := by
  refine blames_bind (blames_expression limit n) fun value m _ lt => ?_
  refine (blames_expr lt).bind fun e => ?_
  split
  · exact blames_update fun _ => rfl
  · exact blames_emit _

theorem blames_callOrFunction {name : String} (mem : ⟨.ident name, loc⟩ ∈ tokens) (limit : Nat) :
    Blames tokens n (callOrFunction name loc limit) fun _ _ => True := by
  refine blames_bind blames_get fun s m _ sees => ?_
  split
  · exact blames_fail (.of_ends sees.finish sees.finish)
  split
  · exact (blames_skip 1).bind fun _ => blames_functionDeclaration name limit
  split
  · exact blames_expressionStatement limit
  · refine (blames_skip 1).bind fun _ => (blames_functionNamed mem).bind fun f => ?_
    refine blames_bind (blames_arguments (blames_expression limit) limit) fun args _ _ lt => ?_
    exact (blames_checkCall name f ⟨_, mem⟩ lt).bind fun _ => blames_emit _

theorem blames_nameStatement {name : String} (mem : ⟨.ident name, loc⟩ ∈ tokens) (limit : Nat) :
    Blames tokens n (nameStatement name loc limit) fun _ _ => True := by
  refine blames_get.bind fun s => ?_
  split
  · exact blames_variableDeclaration limit
  · exact (blames_skip 2).bind fun _ => blames_assignment mem limit
  · exact (blames_skip 2).bind fun _ => blames_fieldAssignment mem limit
  · exact (blames_skip 2).bind fun _ => blames_elementAssignment mem limit
  · exact blames_callOrFunction mem limit
  · exact blames_expressionStatement limit

/-! ## Blocks and statements -/

theorem blames_elseStatement (mem : ⟨.keyword .elseWord, loc⟩ ∈ tokens) :
    Blames tokens n (elseStatement loc) fun _ _ => True := by
  refine blames_get_bind fun s sees le => ?_
  split
  · rename_i blocks closed labels _ _
    have rest : Blames tokens n (do
        let opened ← openLabel
        emit loc (.otherwise closed opened)) fun _ _ => True :=
      blames_openLabel.bind fun opened => blames_emit _
    exact blamesAt_set_bind rfl (rest { sees with } le)
  · exact blamesAt_fail (.of_mem mem mem)

theorem blames_endStatement (mem : ⟨.keyword .endWord, loc⟩ ∈ tokens) :
    Blames tokens n (endStatement loc) fun _ _ => True := by
  refine blames_get_bind fun s sees le => ?_
  split
  · exact blamesAt_set_bind rfl (blames_emit _ { sees with } le)
  · exact blamesAt_fail (.of_mem mem mem)

theorem blames_keywordStatement {k : Keyword} (mem : ⟨.keyword k, loc⟩ ∈ tokens) (limit : Nat) :
    Blames tokens n (keywordStatement k loc limit) fun _ _ => True := by
  have value (f : ExprId → Statement) :
      Blames tokens n (expression limit >>= fun value => emit loc (f value)) fun _ _ => True :=
    (blames_expression limit n).bind fun value => blames_emit _
  unfold keywordStatement
  cases k with
  | writeWord | exitWord | returnWord => exact (blames_skip 1).bind fun _ => value _
  | ifWord | whileWord =>
    exact (blames_skip 1).bind fun _ => (blames_enter _).bind fun _ => value _
  | thenWord =>
    exact (blames_skip 1).bind fun _ => blames_openLabel.bind fun label => blames_emit _
  | elseWord => exact (blames_skip 1).bind fun _ => blames_elseStatement mem
  | endWord => exact (blames_skip 1).bind fun _ => blames_endStatement mem
  | structWord => exact blames_structDeclaration limit
  | constWord => exact blames_fail (.of_mem mem ⟨_, mem, rfl⟩)

theorem blames_statement {t : Token} (mem : t ∈ tokens) (limit : Nat) :
    Blames tokens n (statement t limit) fun _ _ => True := by
  obtain ⟨kind, loc⟩ := t
  unfold statement
  cases kind with
  | keyword k => exact blames_keywordStatement mem limit
  | ident name => exact blames_nameStatement mem limit
  | string | char | integer | float | builtin => exact blames_expressionStatement limit
  | mark | type => exact blames_fail (.of_mem mem ⟨_, mem, rfl⟩)

theorem blames_statements (limit : Nat) :
    Blames tokens n (statements limit) fun _ _ => True := by
  induction limit with
  | zero => exact blames_pure fun _ _ => trivial
  | succ limit ih =>
    refine blames_bind blames_get fun s m le sees => ?_
    split
    · exact blames_pure fun _ _ => trivial
    · rename_i first rest read
      have mem : first ∈ tokens := sees.rest first (read ▸ List.mem_cons_self)
      exact (blames_statement mem _).bind fun _ => ih.mono le

end Parse

/-! ## Rejected texts -/

/-- There are no expressions in front of the first token. -/
theorem sees_start {tokens : List Token} (nonempty : tokens ≠ []) :
    (Parse.start tokens).Sees tokens where
  rest _ mem := mem
  finish := by
    have last := List.getLast?_eq_some_getLast nonempty
    unfold Location.Ends Parse.start
    simp only [last, Option.map_some]
  exprs id lt := absurd lt (Nat.not_lt_zero id)

/-- **Errors point at the token they talk about.** If a row of tokens is rejected, the error has the
location of one of them. If the cause names a variable, a function, a type or a field, then the
identifier stands there; if it says what was found, then a token of this name does, or the tokens
have ended; and a stray `else`, `end` or `.` is where the error is. -/
theorem pointsInto_of_parse {tokens : List Token} {d : Diagnostic}
    (h : parse tokens = .error d) : d.PointsInto tokens := by
  by_cases empty : tokens = []
  · subst empty
    cases h
  have blames := Parse.blames_statements (n := 0) tokens.length (sees_start empty) (Nat.zero_le _)
  unfold Parse.BlamesAt at blames
  unfold parse at h
  cases run : (Parse.statements tokens.length).run (Parse.start tokens) with
  | error e =>
    rw [run] at blames h
    cases h
    exact blames
  | ok result =>
    rw [run] at h
    cases h

/-- A variable that takes the sum of a number and of a variable that is not declared. -/
def unknownTokens : List Token :=
  let kinds : List TokenKind := [
    .ident "n", .mark .colon, .type .int, .mark .assign, .integer 1,
    .ident "n", .mark .assign, .integer 2, .mark .plus, .ident "m"]
  kinds.zipIdx.map fun (kind, column) => ⟨kind, ⟨"main.tim", 1, column⟩⟩

theorem pointsInto_of_parse_unknown :
    ∃ d, parse unknownTokens = .error d ∧ d.cause = .unknownVariable "m" ∧
      d.loc = ⟨"main.tim", 1, 9⟩ ∧ d.PointsInto unknownTokens := by
  have rejected : (parse unknownTokens).map (fun _ => ()) =
      .error ⟨⟨"main.tim", 1, 9⟩, .unknownVariable "m"⟩ := by
    decide +kernel
  cases parsed : parse unknownTokens with
  | ok p =>
    rw [parsed] at rejected
    cases rejected
  | error d =>
    rw [parsed] at rejected
    cases rejected
    exact ⟨_, rfl, rfl, rfl, pointsInto_of_parse parsed⟩

end StackLang.Source
