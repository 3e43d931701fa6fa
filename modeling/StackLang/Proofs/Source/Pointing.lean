import StackLang.Proofs.Results
import StackLang.Proofs.Source.Forest
import StackLang.Source.Parse.Statement

/-!
# Where errors point

An error has the location of a token, and where its cause names a token or says what kind it is,
that is the token. The locations come from the tokens that are taken and from expressions, which
have the location of their first token: `ParseState.Sees` says so of all locations that a parse
holds. `Parse.Blames` says of a step that from there it fails at such a place only, and otherwise
goes on from such a state. What it hands on may be positions of expressions, which stay good
because the arena only grows, so it is stated with a bound on them. An error comes from the midst of
a part and depends on where its tokens stand, of which `ParseState.Builds` knows nothing, so the
parsers are gone through for their failures apart from that.
-/

namespace StackLang.Source

/-! ## Locations of tokens -/

/-- A token stands there. -/
def Location.In (l : Location) (tokens : List Token) : Prop := ∃ kind, ⟨kind, l⟩ ∈ tokens

/-- The last token stands there. -/
def Location.Ends (l : Location) (tokens : List Token) : Prop :=
  tokens.getLast?.map Token.loc = some l

/-- The name of what is found where the tokens have run out. -/
def endOfInput : String := "end of input"

/-- What a cause says of a token is true of a token at the location. -/
def Cause.PointsAt (tokens : List Token) (l : Location) : Cause → Prop
  | .unknownVariable name | .unknownFunction name | .unknownType name | .constVariable name
  | .unknownField _ name => ⟨.ident name, l⟩ ∈ tokens
  | .expectedToken _ found =>
    if found = endOfInput then l.Ends tokens else ∃ kind, ⟨kind, l⟩ ∈ tokens ∧ kind.name = found
  | .expectedPrimary found | .expectedType found | .unexpectedToken found =>
    ∃ kind, ⟨kind, l⟩ ∈ tokens ∧ kind.name = found
  | .elseWithoutIf => ⟨.keyword .elseWord, l⟩ ∈ tokens
  | .endWithoutBlock => ⟨.keyword .endWord, l⟩ ∈ tokens
  | .elementFieldAssign => ⟨.mark .dot, l⟩ ∈ tokens
  | .outOfTokens => l.Ends tokens
  | _ => True

/-- An error is at the location of a token, the one that its cause talks about. -/
structure Diagnostic.PointsInto (d : Diagnostic) (tokens : List Token) : Prop where
  located : d.loc.In tokens
  described : d.cause.PointsAt tokens d.loc

/-- The locations that a parse holds are those of tokens. -/
structure ParseState.Sees (s : ParseState) (tokens : List Token) : Prop where
  rest : ∀ t ∈ s.rest, t ∈ tokens
  finish : s.finish.Ends tokens
  exprs : ∀ id < s.program.exprs.size, (s.program.expr id).loc.In tokens

variable {tokens : List Token} {l : Location}

theorem Location.in_of_mem {t : Token} (mem : t ∈ tokens) : t.loc.In tokens := ⟨t.kind, mem⟩

theorem Location.Ends.in (h : l.Ends tokens) : l.In tokens := by
  obtain ⟨t, last, rfl⟩ := Option.map_eq_some_iff.1 h
  exact in_of_mem (List.mem_of_getLast? last)

theorem TokenKind.name_ne_endOfInput (k : TokenKind) : k.name ≠ endOfInput := by
  cases k with
  | keyword k => cases k <;> decide
  | mark m => cases m <;> decide
  | _ => simp [name, endOfInput]

namespace Diagnostic

theorem PointsInto.of_mem {kind : TokenKind} {cause : Cause} (mem : ⟨kind, l⟩ ∈ tokens)
    (described : cause.PointsAt tokens l) : PointsInto ⟨l, cause⟩ tokens :=
  ⟨⟨kind, mem⟩, described⟩

/-- The error at the end of the tokens. -/
theorem PointsInto.of_ends {cause : Cause} (h : l.Ends tokens)
    (described : cause.PointsAt tokens l) : PointsInto ⟨l, cause⟩ tokens :=
  ⟨h.in, described⟩

end Diagnostic

namespace ParseState.Sees

variable {s : ParseState}

theorem take (h : s.Sees tokens) {rest : List Token} (sub : rest ⊆ s.rest) :
    Sees { s with rest } tokens :=
  ⟨fun t mem => h.rest t (sub mem), h.finish, h.exprs⟩

/-- Only the expressions of the program have locations that a parse uses. -/
theorem of_exprs (h : s.Sees tokens) {p : Program} (exprs : p.exprs = s.program.exprs) :
    Sees { s with program := p } tokens := by
  refine ⟨h.rest, h.finish, fun id lt => ?_⟩
  have same : p.expr id = s.program.expr id := by
    rw [Program.expr, exprs, Program.expr]
  rw [same]
  dsimp only at lt
  rw [exprs] at lt
  exact h.exprs id lt

theorem push (h : s.Sees tokens) {e : Expr} (loc : e.loc.In tokens) :
    Sees { s with program := s.program.push e } tokens := by
  refine ⟨h.rest, h.finish, fun id lt => ?_⟩
  dsimp only at lt ⊢
  rw [Program.size_push] at lt
  by_cases old : id < s.program.exprs.size
  · rw [Program.expr_push_of_lt old]
    exact h.exprs id old
  · obtain rfl : id = s.program.exprs.size := by omega
    rwa [Program.expr_push_size]

/-- Another type does not move an expression. -/
theorem retype (h : s.Sees tokens) (id : ExprId) (type : DataType) :
    Sees { s with program := s.program.retype id type } tokens := by
  refine ⟨h.rest, h.finish, fun j lt => ?_⟩
  dsimp only at lt ⊢
  rw [Program.size_retype] at lt
  have moved : ((s.program.retype id type).expr j).loc = (s.program.expr j).loc := by
    rw [Program.expr_retype]
    split <;> rfl
  rw [moved]
  exact h.exprs j lt

end ParseState.Sees

namespace Parse

variable {α β : Type} {n m : Nat} {Q R : α → Nat → Prop}

/-- On `s` the step fails at one of the tokens, or goes on from a state that sees them and has lost
no expressions, with a result for which `Q` holds with the number of expressions there are. -/
def BlamesAt (tokens : List Token) (s : ParseState) (x : Parse α) (Q : α → Nat → Prop) : Prop :=
  match x.run s with
  | .ok (a, t) => t.Sees tokens ∧ s.program.exprs.size ≤ t.program.exprs.size ∧
      Q a t.program.exprs.size
  | .error d => d.PointsInto tokens

/-- The step blames one of the tokens if it fails, on every state that sees them and has `n`
expressions at least. -/
def Blames (tokens : List Token) (n : Nat) (x : Parse α) (Q : α → Nat → Prop) : Prop :=
  ∀ ⦃s : ParseState⦄, s.Sees tokens → n ≤ s.program.exprs.size → BlamesAt tokens s x Q

/-! ## Steps of all kinds -/

theorem Blames.imp {x : Parse α} (h : Blames tokens n x Q) (imp : ∀ a m, n ≤ m → Q a m → R a m) :
    Blames tokens n x R := by
  intro s sees le
  have blames := h sees le
  unfold BlamesAt at blames ⊢
  cases run : x.run s with
  | error d =>
    rw [run] at blames
    exact blames
  | ok result =>
    obtain ⟨a, t⟩ := result
    rw [run] at blames
    obtain ⟨saw, grows, result⟩ := blames
    exact ⟨saw, grows, imp a _ (Nat.le_trans le grows) result⟩

theorem Blames.mono {x : Parse α} (h : Blames tokens n x Q) (le : n ≤ m) : Blames tokens m x Q :=
  fun _ sees more => h sees (Nat.le_trans le more)

theorem blames_pure {a : α} (h : ∀ m, n ≤ m → Q a m) : Blames tokens n (pure a : Parse α) Q :=
  fun _ sees le => ⟨sees, Nat.le_refl _, h _ le⟩

theorem blamesAt_fail {s : ParseState} {loc : Location} {cause : Cause}
    (h : Diagnostic.PointsInto ⟨loc, cause⟩ tokens) :
    BlamesAt tokens s (fail loc cause : Parse α) Q := h

theorem blames_fail {loc : Location} {cause : Cause}
    (h : Diagnostic.PointsInto ⟨loc, cause⟩ tokens) :
    Blames tokens n (fail loc cause : Parse α) Q :=
  fun _ _ _ => blamesAt_fail h

theorem blames_bind {x : Parse α} {f : α → Parse β} {R : β → Nat → Prop}
    (hx : Blames tokens n x Q) (hf : ∀ a m, n ≤ m → Q a m → Blames tokens m (f a) R) :
    Blames tokens n (x >>= f) R := by
  intro s sees le
  have first := hx sees le
  unfold BlamesAt at first ⊢
  cases run : x.run s with
  | error d =>
    rw [run] at first
    rw [StateT.run_bind, run]
    exact first
  | ok result =>
    obtain ⟨a, t⟩ := result
    rw [run] at first
    obtain ⟨saw, grows, result⟩ := first
    have rest := hf a _ (Nat.le_trans le grows) result saw (Nat.le_refl _)
    rw [run_bind_of_ok run]
    unfold BlamesAt at rest
    cases more : (f a).run t with
    | error d =>
      rw [more] at rest
      exact rest
    | ok result =>
      rw [more] at rest
      obtain ⟨saw, further, result⟩ := rest
      exact ⟨saw, Nat.le_trans grows further, result⟩

/-- A step before, of whose result nothing needs to be known. -/
theorem Blames.bind {x : Parse α} {f : α → Parse β} {R : β → Nat → Prop}
    (hx : Blames tokens n x Q) (hf : ∀ a, Blames tokens n (f a) R) :
    Blames tokens n (x >>= f) R :=
  blames_bind hx fun a _ le _ => (hf a).mono le

theorem blames_get : Blames tokens n get fun s _ => s.Sees tokens :=
  fun _ sees _ => ⟨sees, Nat.le_refl _, sees⟩

/-- To read the state first is to know on which one the rest runs. -/
theorem blames_get_bind {f : ParseState → Parse α}
    (h : ∀ s : ParseState, s.Sees tokens → n ≤ s.program.exprs.size →
      BlamesAt tokens s (f s) Q) :
    Blames tokens n (get >>= f) Q := h

theorem blamesAt_set_bind {s t : ParseState} {x : Parse α} (same : t.program = s.program)
    (h : BlamesAt tokens t x Q) : BlamesAt tokens s (do
      set t
      x) Q := by
  unfold BlamesAt at h
  rw [same] at h
  exact h

theorem blames_modify {f : ParseState → ParseState} (sees : ∀ s, s.Sees tokens → (f s).Sees tokens)
    (size : ∀ s, (f s).program.exprs.size = s.program.exprs.size) :
    Blames tokens n (modify f : Parse Unit) fun _ _ => True :=
  fun s saw _ => ⟨sees s saw, Nat.le_of_eq (size s).symm, trivial⟩

theorem blames_forM {f : α → Parse Unit} {as : List α}
    (h : ∀ a ∈ as, Blames tokens n (f a) fun _ _ => True) :
    Blames tokens n (as.forM f) fun _ _ => True := by
  induction as with
  | nil => exact blames_pure fun _ _ => trivial
  | cons a as ih =>
    obtain ⟨head, rest⟩ := List.forall_mem_cons.1 h
    exact head.bind fun _ => ih rest

/-! ## Tokens -/

theorem blames_outOfTokens : Blames tokens n (outOfTokens : Parse α) Q :=
  blames_bind blames_get fun _ _ _ sees => blames_fail (.of_ends sees.finish sees.finish)

theorem blames_peek : Blames tokens n peek fun _ _ => True :=
  blames_get.bind fun _ => blames_pure fun _ _ => trivial

theorem blames_nextIs (kind : TokenKind) : Blames tokens n (nextIs kind) fun _ _ => True :=
  blames_peek.bind fun _ => blames_pure fun _ _ => trivial

theorem blames_skip (k : Nat) : Blames tokens n (skip k) fun _ _ => True :=
  blames_modify (fun _ sees => sees.take (List.drop_subset k _)) fun _ => rfl

theorem blames_enter (block : Block) : Blames tokens n (enter block) fun _ _ => True :=
  blames_modify (fun _ sees => { sees with }) fun _ => rfl

theorem blames_openLabel : Blames tokens n openLabel fun _ _ => True :=
  fun _ sees _ => ⟨{ sees with }, Nat.le_refl _, trivial⟩

theorem blames_next : Blames tokens n next fun t _ => t ∈ tokens := by
  refine blames_get_bind fun s sees le => ?_
  cases rest : s.rest with
  | nil => exact blames_outOfTokens sees le
  | cons t more =>
    have sub : more ⊆ s.rest := rest ▸ List.subset_cons_self t more
    exact ⟨sees.take sub, Nat.le_refl _, sees.rest t (rest ▸ List.mem_cons_self)⟩

/-- The token in the place of another one is the one to blame. -/
theorem blames_mismatch (expected : String) {t : Token} (mem : t ∈ tokens) :
    Blames tokens n (mismatch expected t : Parse α) Q := by
  refine blames_fail (.of_mem mem ?_)
  show if t.kind.name = endOfInput then _ else _
  rw [if_neg t.kind.name_ne_endOfInput]
  exact ⟨t.kind, mem, rfl⟩

theorem blames_expect (m : Mark) : Blames tokens n (expect m) fun _ _ => True := by
  refine blames_bind blames_next fun t _ _ mem => ?_
  split
  · exact blames_pure fun _ _ => trivial
  · exact blames_mismatch _ mem

theorem blames_ident : Blames tokens n ident fun named _ => ⟨.ident named.1, named.2⟩ ∈ tokens := by
  refine blames_bind blames_next fun t _ _ mem => ?_
  split
  · rename_i name kind
    refine blames_pure fun _ _ => ?_
    show ⟨.ident name, t.loc⟩ ∈ tokens
    rwa [← kind]
  · exact blames_mismatch _ mem

theorem blames_string : Blames tokens n string fun _ _ => True := by
  refine blames_bind blames_next fun t _ _ mem => ?_
  split
  · exact blames_pure fun _ _ => trivial
  · exact blames_mismatch _ mem

/-- What holds of each item when it is read holds of all of them at the end. -/
theorem blames_listUpTo {item : Parse α} (h : Blames tokens n item Q)
    (stays : ∀ a m k, Q a m → m ≤ k → Q a k) (close wanted : Mark) (limit : Nat) :
    Blames tokens n (listUpTo close wanted item limit) fun xs m => ∀ x ∈ xs, Q x m := by
  induction limit generalizing n with
  | zero => exact blames_outOfTokens
  | succ limit ih =>
    refine blames_bind h fun x m le read => blames_bind blames_next fun t k more mem => ?_
    have kept : ∀ j, k ≤ j → Q x j := fun j le => stays x m j read (Nat.le_trans more le)
    split
    · exact blames_pure fun j le => List.forall_mem_singleton.2 (kept j le)
    split
    · refine blames_bind (ih (h.mono (Nat.le_trans le more))) fun xs j le listed => ?_
      refine blames_pure fun i above => List.forall_mem_cons.2 ⟨kept i (Nat.le_trans le above), ?_⟩
      exact fun y mem => stays y j i (listed y mem) above
    · exact blames_mismatch _ mem

theorem blames_parenthesized {item : Parse α} (h : Blames tokens n item Q)
    (stays : ∀ a m k, Q a m → m ≤ k → Q a k) (wanted : Mark) (limit : Nat) :
    Blames tokens n (parenthesized wanted item limit) fun xs m => ∀ x ∈ xs, Q x m := by
  refine (blames_expect _).bind fun _ => (blames_nextIs _).bind fun empty => ?_
  split
  · exact (blames_skip 1).bind fun _ => blames_pure fun _ _ => List.forall_mem_nil _
  · exact blames_listUpTo h stays _ _ limit

/-! ## The program -/

theorem blames_program : Blames tokens n program fun _ _ => True :=
  blames_get.bind fun _ => blames_pure fun _ _ => trivial

/-- An expression has the location of a token. -/
theorem blames_expr {id : ExprId} (lt : id < n) :
    Blames tokens n (expr id) fun e _ => e.loc.In tokens :=
  fun _ sees le => ⟨sees, Nat.le_refl _, sees.exprs id (Nat.lt_of_lt_of_le lt le)⟩

theorem blames_newExpr {loc : Location} (place : loc.In tokens) (kind : ExprKind)
    (type : DataType) : Blames tokens n (newExpr kind type loc) fun id m => id < m := by
  intro s sees le
  have larger : (s.program.push ⟨kind, type, loc⟩).exprs.size = s.program.exprs.size + 1 :=
    Program.size_push _ _
  refine ⟨sees.push (e := ⟨kind, type, loc⟩) place, ?_, ?_⟩
  · show s.program.exprs.size ≤ (s.program.push ⟨kind, type, loc⟩).exprs.size
    omega
  · show s.program.exprs.size < (s.program.push ⟨kind, type, loc⟩).exprs.size
    omega

/-- A change that leaves the expressions alone. -/
theorem blames_update {f : Program → Program} (exprs : ∀ p, (f p).exprs = p.exprs) :
    Blames tokens n (update f) fun _ _ => True :=
  blames_modify (fun s sees => sees.of_exprs (exprs s.program)) fun s => by rw [exprs]

theorem blames_retype (id : ExprId) (type : DataType) :
    Blames tokens n (update fun p => p.retype id type) fun _ _ => True :=
  blames_modify (fun _ sees => sees.retype id type) fun _ => Program.size_retype _ _ _

theorem blames_declare (symbol : Symbol) : Blames tokens n (declare symbol) fun _ _ => True :=
  blames_update fun _ => rfl

theorem blames_currentFunction : Blames tokens n currentFunction fun _ _ => True :=
  blames_get.bind fun _ => blames_pure fun _ _ => trivial

theorem blames_variableNamed {name : String} {loc : Location} (mem : ⟨.ident name, loc⟩ ∈ tokens) :
    Blames tokens n (variableNamed name loc) fun _ _ => True := by
  refine blames_program.bind fun p => blames_currentFunction.bind fun owner => ?_
  split
  · exact blames_pure fun _ _ => trivial
  · exact blames_fail (.of_mem mem mem)

theorem blames_functionNamed {name : String} {loc : Location} (mem : ⟨.ident name, loc⟩ ∈ tokens) :
    Blames tokens n (functionNamed name loc) fun _ _ => True := by
  refine blames_program.bind fun p => ?_
  split
  · exact blames_pure fun _ _ => trivial
  · exact blames_fail (.of_mem mem mem)

theorem blames_structNamed (name : String) {loc : Location} (place : loc.In tokens) :
    Blames tokens n (structNamed name loc) fun _ _ => True := by
  refine blames_program.bind fun p => ?_
  split
  · exact blames_pure fun _ _ => trivial
  · exact blames_fail ⟨place, trivial⟩

theorem blames_fieldNamed (v : Variable) {field : String} {loc : Location}
    (mem : ⟨.ident field, loc⟩ ∈ tokens) :
    Blames tokens n (fieldNamed v field loc) fun _ _ => True := by
  refine (blames_structNamed _ ⟨_, mem⟩).bind fun s => ?_
  split
  · exact blames_pure fun _ _ => trivial
  · exact blames_fail (.of_mem mem mem)

/-! ## Libraries -/

/-- A kind of token in the place of a type. -/
theorem blames_expectedType {t : Token} (mem : t ∈ tokens) :
    Blames tokens n (fail t.loc (.expectedType t.kind.name) : Parse α) Q :=
  blames_fail (.of_mem mem ⟨t.kind, mem, rfl⟩)

theorem blames_foreignParam : Blames tokens n foreignParam fun _ _ => True := by
  refine blames_bind blames_next fun t _ _ mem => ?_
  split
  · exact blames_pure fun _ _ => trivial
  · refine blames_program.bind fun p => ?_
    split
    · refine (blames_nextIs _).bind fun isReference => ?_
      split
      · exact (blames_skip 1).bind fun _ => blames_pure fun _ _ => trivial
      · exact blames_pure fun _ _ => trivial
    · exact blames_expectedType mem
  · exact blames_expectedType mem

theorem blames_foreignFunction (limit : Nat) :
    Blames tokens n (foreignFunction limit) fun _ _ => True := by
  refine blames_ident.bind fun name => ?_
  refine (blames_parenthesized blames_foreignParam (fun _ _ _ _ _ => trivial) _ limit).bind ?_
  refine fun params => (blames_expect _).bind fun _ => ?_
  refine blames_bind blames_next fun t _ _ mem => ?_
  split
  · exact blames_pure fun _ _ => trivial
  · exact blames_expectedType mem

theorem blames_foreignFunctions (limit : Nat) :
    Blames tokens n (foreignFunctions limit) fun _ _ => True := by
  induction limit with
  | zero => exact blames_outOfTokens
  | succ limit ih =>
    refine (blames_foreignFunction limit).bind fun f => (blames_expect _).bind fun _ => ?_
    refine (blames_declare _).bind fun _ => (blames_nextIs _).bind fun last => ?_
    split
    · exact (blames_skip 1).bind fun _ => blames_pure fun _ _ => trivial
    · exact ih.bind fun fs => blames_pure fun _ _ => trivial

theorem blames_library (limit : Nat) : Blames tokens n (library limit) fun _ _ => True := by
  refine blames_string.bind fun file => (blames_expect _).bind fun _ => ?_
  exact (blames_foreignFunctions limit).bind fun fs => blames_pure fun _ _ => trivial

/-! ## Expressions -/

/-- The step reads an expression and hands on where it is. -/
def BlamesExpr (tokens : List Token) (x : Parse ExprId) : Prop :=
  ∀ n, Blames tokens n x fun id m => id < m

/-- Positions stay good. -/
theorem blames_exprs {item : Parse ExprId} (h : BlamesExpr tokens item) (close wanted : Mark)
    (limit : Nat) : Blames tokens n (listUpTo close wanted item limit)
      fun ids m => ∀ id ∈ ids, id < m :=
  blames_listUpTo (h n) (fun _ _ _ lt le => Nat.lt_of_lt_of_le lt le) close wanted limit

section

variable {inner : Parse ExprId}

theorem blames_arguments (h : BlamesExpr tokens inner) (limit : Nat) :
    Blames tokens n (arguments inner limit) fun args m => ∀ arg ∈ args, arg < m :=
  blames_parenthesized (h n) (fun _ _ _ lt le => Nat.lt_of_lt_of_le lt le) _ limit

/-- The call is to blame for the number of its arguments, and an argument for its type. -/
theorem blames_checkArgs {typeOf : α → DataType} {cause : α → Expr → Cause} {params : List α}
    {args : List ExprId} {loc : Location} (name : String) (place : loc.In tokens)
    (silent : ∀ param e l, (cause param e).PointsAt tokens l) (lt : ∀ arg ∈ args, arg < n) :
    Blames tokens n (checkArgs name loc typeOf cause params args) fun _ _ => True := by
  unfold checkArgs
  split
  · exact blames_fail ⟨place, trivial⟩
  · refine blames_forM fun pair mem => ?_
    refine blames_bind (blames_expr (lt _ (List.of_mem_zip mem).2)) fun e _ _ there => ?_
    split
    · exact blames_pure fun _ _ => trivial
    · exact blames_fail ⟨there, silent _ _ _⟩

theorem blames_checkCall {args : List ExprId} {loc : Location} (name : String) (f : Function)
    (place : loc.In tokens) (lt : ∀ arg ∈ args, arg < n) :
    Blames tokens n (checkCall name loc f args) fun _ _ => True :=
  blames_checkArgs name place (fun _ _ _ => trivial) lt

theorem blames_checkForeignCall {args : List ExprId} {loc : Location} (f : ForeignFunction)
    (place : loc.In tokens) (lt : ∀ arg ∈ args, arg < n) :
    Blames tokens n (checkForeignCall loc f args) fun _ _ => True :=
  blames_checkArgs f.name place (fun _ _ _ => trivial) lt

theorem blames_afterCommas (h : BlamesExpr tokens inner) (limit : Nat) :
    Blames tokens n (afterCommas inner limit) fun _ _ => True := by
  induction limit with
  | zero => exact blames_pure fun _ _ => trivial
  | succ limit ih =>
    refine (blames_nextIs _).bind fun comma => ?_
    split
    · refine (blames_skip 1).bind fun _ => (h n).bind fun x => ?_
      exact ih.bind fun xs => blames_pure fun _ _ => trivial
    · exact blames_pure fun _ _ => trivial

theorem blames_indexed (h : BlamesExpr tokens inner) {name : String} {loc : Location}
    (mem : ⟨.ident name, loc⟩ ∈ tokens) : BlamesExpr tokens (indexed inner name loc) := by
  intro n
  have place : loc.In tokens := ⟨_, mem⟩
  refine (blames_variableNamed mem).bind fun v => (blames_expect _).bind fun _ => ?_
  refine (h n).bind fun index => (blames_expect _).bind fun _ => ?_
  refine (blames_nextIs _).bind fun dot => ?_
  split
  · refine (blames_skip 1).bind fun _ => blames_bind blames_ident fun field m _ member => ?_
    dsimp only
    split
    · refine (blames_fieldNamed v member).bind fun f => ?_
      exact (blames_pure (Q := fun _ _ => True) fun _ _ => trivial).bind fun type =>
        blames_newExpr place _ _
    · exact (blames_pure (Q := fun _ _ => True) fun _ _ => trivial).bind fun type =>
        blames_newExpr place _ _
  · exact blames_newExpr place _ _

theorem blames_named (h : BlamesExpr tokens inner) (limit : Nat) {name : String} {loc : Location}
    (mem : ⟨.ident name, loc⟩ ∈ tokens) : BlamesExpr tokens (named inner limit name loc) := by
  intro n
  have place : loc.In tokens := ⟨_, mem⟩
  refine blames_program.bind fun p => ?_
  split
  · refine blames_bind (blames_arguments h limit) fun args _ _ lt => ?_
    refine (blames_checkForeignCall _ place lt).bind fun _ => ?_
    exact blames_newExpr place _ _
  refine blames_peek.bind fun kind => ?_
  split
  · refine (blames_functionNamed mem).bind fun f => ?_
    refine blames_bind (blames_arguments h limit) fun args _ _ lt => ?_
    refine (blames_checkCall name _ place lt).bind fun _ => ?_
    exact blames_newExpr place _ _
  split
  · exact blames_indexed h mem n
  · refine (blames_variableNamed mem).bind fun v => ?_
    split
    · refine (blames_skip 1).bind fun _ => blames_bind blames_ident fun field m _ member => ?_
      exact (blames_fieldNamed v member).bind fun f => blames_newExpr place _ _
    · exact blames_newExpr place _ _

theorem blames_operand (h : BlamesExpr tokens inner) (limit : Nat) :
    BlamesExpr tokens (operand inner limit) := by
  intro n
  refine blames_bind blames_next fun t m _ mem => ?_
  obtain ⟨kind, loc⟩ := t
  have place : loc.In tokens := ⟨kind, mem⟩
  have unexpected : Blames tokens m (fail loc (.expectedPrimary kind.name) : Parse ExprId)
      fun id m => id < m :=
    blames_fail (.of_mem mem ⟨kind, mem, rfl⟩)
  cases kind with
  | integer | float | string | char => exact blames_newExpr place _ _
  | builtin b =>
    by_cases dll : b = .dll
    · subst dll
      exact (blames_library limit).bind fun l => blames_newExpr place _ _
    · have called : Blames tokens m (do
          let first ← inner
          let more ← afterCommas inner limit
          newExpr (.builtin b (first :: more)) b.returnType loc) fun id m => id < m :=
        (h m).bind fun first => (blames_afterCommas h limit).bind fun more =>
          blames_newExpr place _ _
      cases b <;> first | exact called | exact absurd rfl dll
  | mark mark =>
    cases mark
    case openCurly =>
      exact (blames_exprs h _ _ limit).bind fun values => blames_newExpr place _ _
    case openParen =>
      refine blames_bind (h m) fun e k _ lt => (blames_expect _).bind fun _ => ?_
      exact blames_pure fun _ le => Nat.lt_of_lt_of_le lt le
    all_goals exact unexpected
  | ident name => exact blames_named h limit mem m
  | keyword | type => exact unexpected

theorem blames_nextOperator : Blames tokens n nextOperator fun _ _ => True := by
  refine blames_peek.bind fun kind => ?_
  split
  · exact blames_pure fun _ _ => trivial
  · exact blames_pure fun _ _ => trivial

/-- The right operand is to blame. -/
theorem blames_checkOperands {left right : ExprId} (hl : left < n) (hr : right < n) :
    Blames tokens n (checkOperands left right) fun _ _ => True := by
  refine (blames_expr hl).bind fun l => blames_bind (blames_expr hr) fun r _ _ there => ?_
  split
  · exact blames_pure fun _ _ => trivial
  · exact blames_fail ⟨there, trivial⟩

/-- An operator has the location of its left operand. -/
theorem blames_newBinary (op : Operator) {left : ExprId} (right : ExprId) (lt : left < n) :
    Blames tokens n (newBinary op left right) fun id m => id < m :=
  blames_bind (blames_expr lt) fun _ _ _ there => blames_newExpr there _ _

theorem blames_climb {operand : Parse ExprId} (h : BlamesExpr tokens operand) (limit : Nat)
    {left : ExprId} (least : Nat) (lt : left < n) :
    Blames tokens n (climb operand limit left least) fun id m => id < m := by
  induction limit generalizing n left least with
  | zero => exact blames_pure fun _ le => Nat.lt_of_lt_of_le lt le
  | succ limit ih =>
    have done : Blames tokens n (pure left : Parse ExprId) fun id m => id < m :=
      blames_pure fun _ le => Nat.lt_of_lt_of_le lt le
    refine blames_nextOperator.bind fun op => ?_
    split
    · exact done
    split
    · exact done
    refine (blames_skip 1).bind fun _ => blames_bind (h n) fun right m le inside => ?_
    have lt := Nat.lt_of_lt_of_le lt le
    refine (blames_checkOperands lt inside).bind fun _ => ?_
    refine blames_bind (ih _ inside) fun right k le _ => ?_
    have lt := Nat.lt_of_lt_of_le lt le
    exact blames_bind (blames_newBinary _ right lt) fun whole j _ made => ih least made

theorem blames_expression (limit : Nat) : BlamesExpr tokens (expression limit) := by
  induction limit with
  | zero => exact fun _ => blames_outOfTokens
  | succ limit ih =>
    have operand := blames_operand ih limit
    exact fun n => blames_bind (operand n) fun left _ _ lt => blames_climb operand limit 1 lt

end

end Parse

end StackLang.Source
