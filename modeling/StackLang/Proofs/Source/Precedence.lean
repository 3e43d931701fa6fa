import StackLang.Proofs.Source.Expressions
import StackLang.Proofs.Source.Moves
import StackLang.Proofs.Source.Steps

/-!
# Precedence

An expression over integers can be written with more parentheses or with fewer of them. As long as
an operand has parentheses where its operator binds too loosely, what is read is the expression that
was meant, `parse_exit_written`. An operator that stands outside of parentheses ends the operands in
front of it that bind as tightly as it does. So an operand is read up to what follows it, and the
induction over the ways of writing is for any operators that are still to come, `Parse.Takes`.
-/

namespace StackLang.Source

/-- An expression over integers. -/
inductive Tree where
  | literal (n : Nat)
  | binary (op : Operator) (left right : Tree)
deriving DecidableEq, Repr

/-- The ways of writing an expression, with its operator if that stands outside of all parentheses.
An operand may lack parentheses if it binds more tightly than the operator, and on the left also if
it binds as tightly. -/
inductive Tree.Written : Tree → Option Operator → List TokenKind → Prop where
  | literal (n : Nat) : Written (.literal n) none [.integer n]
  | parentheses {tree : Tree} {bare : Option Operator} {kinds : List TokenKind}
      (inside : Written tree bare kinds) :
      Written tree none (.mark .openParen :: kinds ++ [.mark .closeParen])
  | binary (op : Operator) {left right : Tree} {a b : Option Operator} {ks ms : List TokenKind}
      (first : Written left a ks) (second : Written right b ms)
      (asTight : ∀ o ∈ a, op.precedence ≤ o.precedence)
      (tighter : ∀ o ∈ b, op.precedence < o.precedence) :
      Written (.binary op left right) (some op) (ks ++ .mark op.mark :: ms)

theorem Operator.one_le_precedence (op : Operator) : 1 ≤ op.precedence := by
  cases op <;> decide

/-- The expression at a position is the given one. -/
def Program.Denotes (p : Program) : Tree → ExprId → Prop
  | .literal n, id => id < p.exprs.size ∧ (p.expr id).kind = .integer n
  | .binary op l r, id => id < p.exprs.size ∧ ∃ left right,
      (p.expr id).kind = .binary op left right ∧ p.Denotes l left ∧ p.Denotes r right

namespace Program

variable {p q : Program}

theorem Denotes.lt {tree : Tree} {id : ExprId} (h : p.Denotes tree id) : id < p.exprs.size := by
  cases tree <;> exact h.1

/-- It takes the expressions alone. -/
theorem Denotes.mono {tree : Tree} {id : ExprId} (denotes : p.Denotes tree id)
    (size : p.exprs.size ≤ q.exprs.size) (expr : ∀ id < p.exprs.size, q.expr id = p.expr id) :
    q.Denotes tree id := by
  have lt := Nat.lt_of_lt_of_le denotes.lt size
  have same := expr id denotes.lt
  induction tree generalizing id with
  | literal n => exact ⟨lt, same ▸ denotes.2⟩
  | binary op l r ihl ihr =>
    obtain ⟨-, left, right, kind, first, second⟩ := denotes
    have first := ihl first (Nat.lt_of_lt_of_le first.lt size) (expr left first.lt)
    have second := ihr second (Nat.lt_of_lt_of_le second.lt size) (expr right second.lt)
    exact ⟨lt, left, right, same ▸ kind, first, second⟩

theorem Grows.denotes (h : p.Grows q) {tree : Tree} {id : ExprId} (denotes : p.Denotes tree id) :
    q.Denotes tree id := denotes.mono h.size h.expr

end Program

namespace Parse

variable {s u v w : ParseState}

/-! ## Operators and operands -/

/-- An expression ends in front of an operator that is too loose for it, or of none. -/
theorem loose_of_climb {operand : Parse ExprId} (h : Builds [] operand fun id => [id])
    {limit least : Nat} {left whole : ExprId} (enough : s.rest.length ≤ limit)
    (run : (climb operand limit left least).run s = .ok (whole, u)) :
    u.rest.length ≤ s.rest.length ∧
      ∀ op ∈ operatorOf? (u.rest.map Token.kind), op.precedence < least := by
  induction limit generalizing s left least whole u with
  | zero =>
    cases run
    simp [List.length_eq_zero_iff.1 (Nat.le_zero.1 enough), operatorOf?]
  | succ limit ih =>
    rw [climb, run_bind_of_ok (run_nextOperator s)] at run
    split at run
    · rename_i last
      cases run
      simp [last]
    rename_i op next
    split at run
    · rename_i loose
      cases run
      simpa [next] using loose
    obtain ⟨first, more, head⟩ : ∃ first more, s.rest = first :: more := by
      refine List.exists_cons_of_ne_nil fun nil => ?_
      rw [nil] at next
      cases next
    rw [run_bind_of_ok (run_skip head)] at run
    obtain ⟨right, s2, read, run⟩ := run_bind_eq_ok_iff.1 run
    obtain ⟨_, s3, checked, run⟩ := run_bind_eq_ok_iff.1 run
    obtain ⟨right', s4, inner, run⟩ := run_bind_eq_ok_iff.1 run
    obtain ⟨node, s5, made, last⟩ := run_bind_eq_ok_iff.1 run
    obtain ⟨rfl, -⟩ := checkOperands_spec checked
    -- The operator is a token, so that fewer are left for its operand.
    have length : s.rest.length = more.length + 1 := congrArg List.length head
    have operand : s3.rest.length ≤ more.length := (h read).reads.rest.length_le
    obtain ⟨shorter, -⟩ := ih (by omega) inner
    have same : s5.rest = s4.rest := by
      cases made
      rfl
    rw [← same] at shorter
    obtain ⟨onward, loose⟩ := ih (by omega) last
    exact ⟨by omega, loose⟩

/-- An operand that has taken its operators takes no others when it is offered them once more. -/
theorem run_climb_again {operand : Parse ExprId} (h : Builds [] operand fun id => [id])
    {limit least : Nat} {left whole : ExprId} (enough : s.rest.length ≤ limit)
    (run : (climb operand limit left least).run s = .ok (whole, u)) (again : Nat) :
    (climb operand again whole least).run u = .ok (whole, u) :=
  run_climb_of_loose (loose_of_climb h enough run).2

/-- One operator with its operands. -/
theorem run_climb_of_tight {operand : Parse ExprId} {limit least : Nat} {left first right : ExprId}
    {op : Operator} {loc : Location} {more : List Token}
    (head : s.rest = ⟨.mark op.mark, loc⟩ :: more)
    (tight : least ≤ op.precedence) (read : operand.run { s with rest := more } = .ok (first, v))
    (meets : (v.program.expr left).type.meets (v.program.expr first).type)
    (inner : (climb operand limit first (op.precedence + 1)).run v = .ok (right, w)) :
    (climb operand (limit + 1) left least).run s =
      (climb operand limit w.program.exprs.size least).run { w with
        program := w.program.push
          ⟨.binary op left right, (w.program.expr left).type, (w.program.expr left).loc⟩ } := by
  have next : operatorOf? (s.rest.map Token.kind) = some op := by
    rw [head]
    exact op.ofMark?_mark
  have checked : (checkOperands left first).run v = .ok ((), v) := by
    have l : (expr left).run v = .ok (v.program.expr left, v) := rfl
    have r : (expr first).run v = .ok (v.program.expr first, v) := rfl
    rw [checkOperands, run_bind_of_ok l, run_bind_of_ok r, if_pos meets]
    rfl
  rw [climb, run_bind_of_ok (run_nextOperator s), next]
  dsimp only
  rw [if_neg (Nat.not_lt.2 tight), run_bind_of_ok (run_skip head), run_bind_of_ok read,
    run_bind_of_ok checked, run_bind_of_ok inner]
  exact run_bind_of_ok rfl

/-- What an operator applies to, if there are at most `limit` tokens behind the next one. -/
def operandWithin (limit : Nat) : Parse ExprId := operand (expression limit) limit

/-- From `s` on, the expression `tree` is read as `whole`, up to `t`. Its leftmost operand is read
first, as `first` up to `u`, and then its operators follow. So reading on from `first` in `u` comes
to reading on from `whole` in `t`, unless one of its operators is too loose for that. -/
structure Takes (tree : Tree) (bare : Option Operator) (s u t : ParseState)
    (first whole : ExprId) : Prop where
  shorter : u.rest.length < s.rest.length
  onward : t.rest.length ≤ u.rest.length
  grows : s.program.Grows u.program
  grown : u.program.Grows t.program
  typeFirst : (u.program.expr first).type = .int
  typeWhole : (t.program.expr whole).type = .int
  denotes : t.program.Denotes tree whole
  operand {limit : Nat} (enough : s.rest.length ≤ limit + 1) :
    (operandWithin limit).run s = .ok (first, u)
  climb {limit least : Nat} {r : Except Diagnostic (ExprId × ParseState)}
    (enough : s.rest.length ≤ limit + 1) (tight : ∀ op ∈ bare, least ≤ op.precedence)
    (behind : ∀ m, t.rest.length ≤ m → (climb (operandWithin limit) m whole least).run t = r) :
    ∀ m, u.rest.length ≤ m → (climb (operandWithin limit) m first least).run u = r

variable {tree left right : Tree} {bare a b : Option Operator} {first whole : ExprId}
  {kinds behind : List TokenKind}

/-- An operand that was read at once. -/
theorem takes_of_operand {id : ExprId} {t : ParseState} (shorter : t.rest.length < s.rest.length)
    (grows : s.program.Grows t.program) (type : (t.program.expr id).type = .int)
    (denotes : t.program.Denotes tree id)
    (operand : ∀ {limit}, s.rest.length ≤ limit + 1 → (operandWithin limit).run s = .ok (id, t)) :
    Takes tree none s t t id id where
  shorter := shorter
  onward := Nat.le_refl _
  grows := grows
  grown := .refl _
  typeFirst := type
  typeWhole := type
  denotes := denotes
  operand := operand
  climb _ _ behind := behind

/-- The operator that comes next, if there is one, leaves an expression to the operators that it was
written with. -/
def Leaves (bare : Option Operator) (behind : List TokenKind) : Prop :=
  ∀ op ∈ bare, ∀ next ∈ operatorOf? behind, next.precedence ≤ op.precedence

/-- An expression that no operator follows. -/
theorem Takes.run_expression {t : ParseState} (h : Takes tree bare s u t first whole)
    (stops : operatorOf? (t.rest.map Token.kind) = none) {limit : Nat}
    (enough : s.rest.length ≤ limit) : (expression limit).run s = .ok (whole, t) := by
  obtain ⟨limit, rfl⟩ : ∃ n, limit = n + 1 := by
    have := h.shorter
    exact ⟨limit - 1, by omega⟩
  have rest : ∀ m, t.rest.length ≤ m →
      (Parse.climb (operandWithin limit) m whole 1).run t = .ok (whole, t) := by
    intro m _
    apply run_climb_of_loose
    rw [stops]
    rintro op ⟨⟩
  have shorter := h.shorter
  have read := h.climb enough (fun op _ => op.one_le_precedence) rest limit (by omega)
  exact (run_bind_of_ok (h.operand enough)).trans read

theorem takes_literal {n : Nat} {loc : Location} {more : List Token}
    (head : s.rest = ⟨.integer n, loc⟩ :: more) :
    ∃ t id, Takes (.literal n) none s t t id id ∧ t.rest = more := by
  have taken : next.run s = .ok (⟨.integer n, loc⟩, { s with rest := more }) := run_next head
  refine ⟨{ s with rest := more, program := s.program.push ⟨.integer n, .int, loc⟩ },
    s.program.exprs.size, takes_of_operand ?_ (.push_of_plain _ rfl) ?_ ?_ fun _ => ?_, rfl⟩
  · rw [head]
    exact Nat.lt_succ_self _
  · exact congrArg Expr.type (Program.expr_push_size _ _)
  · refine ⟨?_, congrArg Expr.kind (Program.expr_push_size _ _)⟩
    rw [Program.size_push]
    exact Nat.lt_succ_self _
  · rw [operandWithin, operand, run_bind_of_ok taken]
    rfl

/-- An expression between parentheses is an operand, with whatever operators. -/
theorem Takes.parentheses {t : ParseState} {opening closing : Location} {more after : List Token}
    (head : s.rest = ⟨.mark .openParen, opening⟩ :: more)
    (inside : Takes tree bare { s with rest := more } u t first whole)
    (last : t.rest = ⟨.mark .closeParen, closing⟩ :: after) :
    Takes tree none s { t with rest := after } { t with rest := after } whole whole := by
  have stops : operatorOf? (t.rest.map Token.kind) = none := by
    rw [last]
    rfl
  have length : s.rest.length = more.length + 1 := congrArg List.length head
  refine takes_of_operand ?_ (inside.grows.trans inside.grown) inside.typeWhole inside.denotes
    fun {limit} enough => ?_
  · have onward : after.length + 1 ≤ u.rest.length := by
      have := inside.onward
      rwa [last] at this
    have shorter : u.rest.length < more.length := inside.shorter
    show after.length < s.rest.length
    omega
  · have read : (expression limit).run { s with rest := more } = .ok (whole, t) := by
      apply inside.run_expression stops
      show more.length ≤ limit
      omega
    have closed : (expect .closeParen).run t = .ok ((), { t with rest := after }) := by
      rw [expect, run_bind_of_ok (run_next last)]
      rfl
    rw [operandWithin, Parse.operand, run_bind_of_ok (run_next head)]
    dsimp only
    rw [run_bind_of_ok read, run_bind_of_ok closed]
    rfl

/-- An operator takes up the operand in front of it and the one behind it. -/
theorem Takes.binary {op : Operator} {t : ParseState} {loc : Location} {more : List Token}
    {second other : ExprId} (before : Takes left a s u t first whole)
    (head : t.rest = ⟨.mark op.mark, loc⟩ :: more)
    (after : Takes right b { t with rest := more } v w second other)
    (asTight : ∀ o ∈ a, op.precedence ≤ o.precedence)
    (tighter : ∀ o ∈ b, op.precedence < o.precedence)
    (leaves : Leaves (some op) (w.rest.map Token.kind)) :
    Takes (.binary op left right) (some op) s u { w with
      program := w.program.push ⟨.binary op whole other, (w.program.expr whole).type,
        (w.program.expr whole).loc⟩ } first w.program.exprs.size := by
  have grown : t.program.Grows w.program := after.grows.trans after.grown
  have push (type : DataType) (loc : Location) :
      w.program.Grows (w.program.push ⟨.binary op whole other, type, loc⟩) := .push_of_plain _ rfl
  have length : t.rest.length = more.length + 1 := congrArg List.length head
  have shorter : v.rest.length < more.length := after.shorter
  refine ⟨before.shorter, ?_, before.grows, before.grown.trans (grown.trans (push _ _)),
    before.typeFirst, ?_, ⟨?_, whole, other, ?_, ?_, ?_⟩, before.operand, ?_⟩
  · have := before.onward
    have := after.onward
    show w.rest.length ≤ u.rest.length
    omega
  · rw [Program.expr_push_size, grown.expr whole before.denotes.lt, before.typeWhole]
  · rw [Program.size_push]
    exact Nat.lt_succ_self _
  · rw [Program.expr_push_size]
  · exact (grown.trans (push _ _)).denotes before.denotes
  · exact (push _ _).denotes after.denotes
  intro limit least r enough tight behind
  refine before.climb enough (fun o mem => Nat.le_trans (tight op rfl) (asTight o mem)) ?_
  intro m inside
  obtain ⟨m, rfl⟩ : ∃ n, m = n + 1 := ⟨m - 1, by omega⟩
  have within : more.length ≤ limit + 1 := by
    have := before.shorter
    have := before.onward
    omega
  have meets : (v.program.expr whole).type.meets (v.program.expr second).type := by
    rw [after.grows.expr whole before.denotes.lt, before.typeWhole, after.typeFirst]
    rfl
  have stops : ∀ m, w.rest.length ≤ m →
      (Parse.climb (operandWithin limit) m other (op.precedence + 1)).run w = .ok (other, w) := by
    intro m _
    exact run_climb_of_loose fun next mem => Nat.lt_succ_of_le (leaves op rfl next mem)
  have inner := after.climb within (fun o mem => tighter o mem) stops m (by omega)
  rw [run_climb_of_tight head (tight op rfl) (after.operand within) meets inner]
  apply behind
  have := after.onward
  show w.rest.length ≤ m
  omega

/-- An expression is taken however it is written, and whatever is behind it. -/
theorem exists_takes (written : tree.Written bare kinds) :
    ∀ (s : ParseState) (behind : List TokenKind), s.rest.map Token.kind = kinds ++ behind →
      Leaves bare behind →
      ∃ u t first whole, Takes tree bare s u t first whole ∧ t.rest.map Token.kind = behind := by
  induction written with
  | literal n =>
    intro s behind shape _
    obtain ⟨⟨_, loc⟩, more, head, rfl, rest⟩ := List.map_eq_cons_iff.1 shape
    obtain ⟨t, id, takes, behind⟩ := takes_literal head
    exact ⟨t, t, id, id, takes, behind ▸ rest⟩
  | @parentheses tree bare kinds _ ih =>
    intro s behind shape _
    obtain ⟨⟨_, opening⟩, more, head, rfl, rest⟩ := List.map_eq_cons_iff.1 shape
    obtain ⟨u, t, first, whole, inside, stopped⟩ :=
      ih { s with rest := more } (.mark .closeParen :: behind) (by simpa using rest)
        (by rintro op _ next ⟨⟩)
    obtain ⟨⟨_, closing⟩, after, last, rfl, rest⟩ := List.map_eq_cons_iff.1 stopped
    exact ⟨_, _, _, _, inside.parentheses head last, rest⟩
  | @binary op left right a b ks ms _ _ asTight tighter ihl ihr =>
    intro s behind shape leaves
    obtain ⟨u, t, first, whole, before, stopped⟩ :=
      ihl s (.mark op.mark :: ms ++ behind) (by simpa using shape) (by
        intro o mem next found
        obtain rfl : op = next := by simpa [operatorOf?] using found
        exact asTight o mem)
    obtain ⟨⟨_, loc⟩, more, head, mark, rest⟩ := List.map_eq_cons_iff.1 stopped
    obtain rfl := mark
    obtain ⟨v, w, second, other, after, stopped⟩ :=
      ihr { t with rest := more } behind rest fun o mem next found =>
        Nat.le_trans (leaves op rfl next found) (Nat.le_of_lt (tighter o mem))
    exact ⟨_, _, _, _, before.binary head after asTight tighter (stopped ▸ leaves), stopped⟩

/-- A text of a single statement. -/
theorem parse_of_statement {token : Token} {more : List Token} {t : ParseState}
    (run : (statement token (more.length + 1)).run (start (token :: more)) = .ok ((), t))
    (finished : t.rest = []) : parse (token :: more) = .ok t.program := by
  have read : (get : Parse ParseState).run (start (token :: more)) =
      .ok (start (token :: more), start (token :: more)) := rfl
  have whole : (statements (more.length + 1)).run (start (token :: more)) = .ok ((), t) := by
    rw [statements, run_bind_of_ok read]
    exact (run_bind_of_ok run).trans (run_statements_of_nil finished _)
  rw [parse, List.length_cons, whole]
  rfl

end Parse

/-- **Precedence.** However an expression is written, what is read is the expression. -/
theorem parse_exit_written {tree : Tree} {bare : Option Operator} {kinds : List TokenKind}
    (written : tree.Written bare kinds) {tokens : List Token}
    (h : tokens.map Token.kind = .keyword .exitWord :: kinds) :
    ∃ p id, parse tokens = .ok p ∧ p.items = [.native .exit id] ∧ p.Denotes tree id := by
  obtain ⟨⟨_, loc⟩, more, rfl, rfl, rest⟩ := List.map_eq_cons_iff.1 h
  let s := Parse.start (⟨.keyword .exitWord, loc⟩ :: more)
  have passed : (Parse.skip 1).run s = .ok ((), { s with rest := more }) := Parse.run_skip rfl
  obtain ⟨u, t, first, whole, takes, stopped⟩ := Parse.exists_takes written
    { s with rest := more } [] (by rw [List.append_nil, ← rest]) (by rintro op _ next ⟨⟩)
  have read : (Parse.expression (more.length + 1)).run { s with rest := more } =
      .ok (whole, t) := by
    apply takes.run_expression
    · rw [stopped]
      rfl
    · exact Nat.le_succ more.length
  have made : (Parse.statement ⟨.keyword .exitWord, loc⟩ (more.length + 1)).run s =
      .ok ((), t.emit loc (.native .exit whole)) :=
    (run_bind_of_ok passed).trans (run_bind_of_ok read)
  refine ⟨_, whole, Parse.parse_of_statement made (List.map_eq_nil_iff.1 stopped), ?_,
    takes.denotes.mono (Nat.le_refl _) fun _ _ => rfl⟩
  have statements := (takes.grows.trans takes.grown).statements
  rw [ParseState.items_emit, Program.items, statements]
  rfl

/-- `1 - (2 * 3 && 4) == 5` -/
def equationKinds : List TokenKind :=
  [.integer 1, .mark .minus, .mark .openParen, .integer 2, .mark .times, .integer 3, .mark .both,
    .integer 4, .mark .closeParen, .mark .equal, .integer 5]

/-- What it means. -/
def equationTree : Tree :=
  .binary .equal (.binary .minus (.literal 1)
    (.binary .both (.binary .times (.literal 2) (.literal 3)) (.literal 4))) (.literal 5)

theorem written_equation : equationTree.Written (some .equal) equationKinds := by
  have product := Tree.Written.binary .times (.literal 2) (.literal 3) (by simp) (by simp)
  have inner := Tree.Written.binary .both product (.literal 4) (by decide) (by simp)
  have difference := Tree.Written.binary .minus (.literal 1) inner.parentheses (by simp)
    (by simp)
  have whole := Tree.Written.binary .equal difference (.literal 5) (by decide) (by simp)
  exact whole

theorem parse_exit_written_equation :
    equationTree.Written (some .equal) equationKinds ∧
      ∃ p id,
        parse ((.keyword .exitWord :: equationKinds).map fun kind => ⟨kind, default⟩) = .ok p ∧
        p.items = [.native .exit id] ∧ p.Denotes equationTree id :=
  ⟨written_equation, parse_exit_written written_equation (by decide)⟩

end StackLang.Source
